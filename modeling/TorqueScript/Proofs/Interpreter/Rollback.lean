import TorqueScript.Proofs.Interpreter.Quiet
import TorqueScript.Proofs.Objects.Growth

/-!
Creations that fail. An object is made first and completed afterwards, and so are all below it;
at any point of this a fault may arise. While the expressions involved change nothing but
variables, a fault leaves the objects as they were before the creation began.
-/

namespace TorqueScript

open Effect

/-- How an attempt to make an object ends: with the object and what belongs to it, or with nothing
that was not there before. -/
def Objects.Attempted (o : Objects) : Except Fault ObjectId → Objects → Prop
  | .ok id, o' => id = o.nextId ∧ Made o o'
  | .error _, o' => SameObjects o o'

theorem Objects.SameObjects.refl (o : Objects) : SameObjects o o :=
  ⟨rfl, rfl, Nat.le_refl _, fun _ => rfl, fun _ => rfl⟩

/-- If `top` is there and all is well-formed, then `j` differs from `i` in variables and in what has
grown below `top`. -/
def Interpreter.Building (top : ObjectId) (i j : Interpreter) : Prop :=
  i.objects.WellFormed → (∃ x, i.objects.instances.get? top = some x) →
    j.objects.WellFormed ∧ i.ObjectsOnly j ∧ i.objects.Grows top j.objects

namespace Interpreter

variable {top : ObjectId} {i j k : Interpreter}

theorem Building.trans (h : Building top i j) (h' : Building top j k) : Building top i k := by
  intro hi htop
  obtain ⟨hj, hrest, hgrows⟩ := h hi htop
  obtain ⟨hk, hrest', hgrows'⟩ := h' hj (hgrows.exists_root htop)
  exact ⟨hk, hrest.trans hrest', hgrows.trans hgrows' hi.toRegistered hj.toRegistered htop⟩

theorem VariablesOnly.building (h : i.VariablesOnly j) (top : ObjectId) : Building top i j := by
  intro hi _
  rw [h.objects_eq]
  exact ⟨hi, h.objectsOnly, .refl hi.toRegistered top⟩

end Interpreter

namespace Effect

variable {α : Type} {top : ObjectId}

/-- From well-formed objects on, the effect is an attempt to make an object. -/
def Attempts (act : Effect ObjectId) : Prop :=
  ∀ i r j, act i = some (r, j) → i.objects.WellFormed →
    j.objects.WellFormed ∧ i.ObjectsOnly j ∧ i.objects.Attempted r j.objects

theorem Silent.building {Q : α → Prop} {act : Effect α} (h : Silent Q act) (top : ObjectId) :
    Keeps (Interpreter.Building top) act := by
  intro i r j hrun
  exact (h i r j hrun).1.building top

theorem building_setField (name : String) (v : Value) :
    Keeps (Interpreter.Building top) (setField top name v) := by
  intro i r j hrun hi htop
  rcases changeObjects_map_eq_some.mp hrun with ⟨o, hok, -, rfl⟩ | ⟨fault, -, -, rfl⟩
  · exact ⟨hi.setField hok, i.objectsOnly_withObjects o, .setField hi.toRegistered hok⟩
  · exact ⟨hi, j.objectsOnly_withObjects j.objects, .refl hi.toRegistered top⟩

/-- What has been made is given to `top`, which never fails. -/
theorem Attempts.attach {act : Effect ObjectId} (h : Attempts act) (top : ObjectId) :
    Keeps (Interpreter.Building top) (act >>= addChild top) := by
  intro i r k hrun hi htop
  rcases bind_eq_some.mp hrun with ⟨child, j, hmake, hattach⟩ | ⟨fault, hmake, -⟩
  · obtain ⟨hj, hrest, rfl, hmade⟩ := h i _ j hmake hi
    obtain ⟨o, hok, hgrows⟩ := hmade.exists_addChild hi hj htop
    rcases changeObjects_map_eq_some.mp hattach with ⟨o', hok', -, rfl⟩ | ⟨fault, herror, -, -⟩
    · rw [hok] at hok'
      cases hok'
      exact ⟨hj.addChild hok, hrest.trans (j.objectsOnly_withObjects o), hgrows⟩
    · rw [hok] at herror
      cases herror
  · obtain ⟨hk, hrest, hsame⟩ := h i _ k hmake hi
    exact ⟨hk, hrest, .of_sameObjects hi.toRegistered hsame top⟩

theorem Attempts.of_error {act : Effect ObjectId} (h : Attempts act) {f : ObjectId → α}
    {i j : Interpreter} (hi : i.objects.WellFormed) {fault : Fault}
    (hrun : (do let id ← act; return f id) i = some (.error fault, j)) :
    i.ObjectsOnly j ∧ i.objects.SameObjects j.objects := by
  rcases bind_eq_some.mp hrun with ⟨id, k, -, hend⟩ | ⟨fault, hfailed, -⟩
  · cases hend
  · exact (h i _ j hfailed hi).2

theorem Silent.attempts {Q : α → Prop} {act : Effect α} {next : α → Effect ObjectId}
    (h : Silent Q act) (hnext : ∀ a, Attempts (next a)) : Attempts (act >>= next) := by
  intro i r k hrun hi
  rcases bind_eq_some.mp hrun with ⟨a, j, hfirst, hrest⟩ | ⟨fault, hfirst, rfl⟩
  · have hij := (h i _ j hfirst).1
    rw [← hij.objects_eq] at hi ⊢
    obtain ⟨hk, hjk, hend⟩ := hnext a j r k hrest hi
    exact ⟨hk, hij.objectsOnly.trans hjk, hend⟩
  · have hik := (h i _ k hfirst).1
    rw [hik.objects_eq]
    exact ⟨hi, hik.objectsOnly, .refl i.objects⟩

/-- An object is made and then completed. If that fails, deleting it takes away all that has grown
below it. -/
theorem attempts_completing {act : ObjectId → Effect Unit}
    (hact : ∀ id, Keeps (Interpreter.Building id) (act id)) (c : String) (name : Option String)
    (parent : Option ObjectId) (isDatablock : Bool) :
    Attempts (do
      let id ← changeObjects fun o => o.instantiate c name parent isDatablock
      completing id (act id)) := by
  intro i r k hrun hi
  rcases bind_eq_some.mp hrun with ⟨id, j, hmake, hcomplete⟩ | ⟨fault, hmake, rfl⟩
  · obtain ⟨o, hok, rfl⟩ := changeObjects_eq_ok.mp hmake
    obtain ⟨-, -, hid, hcreated⟩ := Objects.instantiate_eq_ok.mp hok
    have hthere : ∃ x, o.instances.get? id = some x := by
      rw [hcreated, hid, Objects.get?_created, if_pos rfl]
      exact ⟨_, rfl⟩
    have hbuilt : ∀ r l, act id { i with objects := o } = some (r, l) →
        l.objects.WellFormed ∧ i.ObjectsOnly l ∧ i.objects.Made l.objects := by
      intro r l hl
      obtain ⟨hl, hrest, hgrows⟩ := hact id _ r l hl (hi.instantiate hok) hthere
      exact ⟨hl, (i.objectsOnly_withObjects o).trans hrest, hgrows.made hok⟩
    rw [completing] at hcomplete
    split at hcomplete
    · cases hcomplete
    · rename_i l hdone
      cases hcomplete
      obtain ⟨hl, hrest, hmade⟩ := hbuilt _ _ hdone
      exact ⟨hl, hrest, hid, hmade⟩
    · rename_i fault l hfailed
      cases hcomplete
      obtain ⟨hl, hrest, hmade⟩ := hbuilt _ l hfailed
      obtain ⟨o', hdelete, hsame⟩ := hmade.exists_delete hi hl
      rw [rollback, hid, hdelete]
      exact ⟨hl.delete hdelete, hrest.trans (l.objectsOnly_withObjects o'), hsame⟩
  · rcases changeObjects_eq_some.mp hmake with ⟨id, o, -, hid, -⟩ | ⟨fault, -, -, rfl⟩
    · cases hid
    · exact ⟨hi, k.objectsOnly_withObjects k.objects, .refl k.objects⟩

end Effect

namespace Eval

theorem building_initFields (n : Nat) (id : ObjectId) (fields : List FieldInit)
    (hfields : fields.all FieldInit.quiet = true) :
    Keeps (Interpreter.Building id) (initFields n id fields) := by
  induction n generalizing fields with
  | zero =>
    intro i r j hrun
    cases hrun
  | succ n ih =>
    cases fields with
    | nil => exact (silent_quiet fun _ => .ok ()).building id
    | cons f rest =>
      rw [List.all_cons, Bool.and_eq_true, FieldInit.quiet, Bool.and_eq_true] at hfields
      obtain ⟨name, subscripts, e⟩ := f
      have hsubscripts := (Task.exprs subscripts).silent n hfields.1.1
      have hvalue := (Task.expr e).silent n hfields.1.2
      rw [initFields]
      refine (hsubscripts.building id).bind .trans fun vs => ?_
      refine (hvalue.building id).bind .trans fun v => ?_
      exact (building_setField _ v).bind .trans fun _ => ih rest hfields.2

/-- Creating an object is an attempt, whatever is declared below it, and creating children of an
object builds below that. -/
theorem attempts_create (n : Nat) :
    (∀ d : ObjectDecl, d.quiet = true → Attempts (create n d)) ∧
    ∀ (top : ObjectId) (children : List ObjectDecl), quietChildren children = true →
      Keeps (Interpreter.Building top) (createChildren n top children) := by
  induction n with
  | zero =>
    refine ⟨?_, ?_⟩
    · intro d _ i r j hrun
      cases hrun
    · intro top children _ i r j hrun
      cases hrun
  | succ n ih =>
    obtain ⟨ihcreate, ihchildren⟩ := ih
    refine ⟨?_, ?_⟩
    · intro d hd
      obtain ⟨hc, hname, hfields, hchildren⟩ := ObjectDecl.quiet_iff.mp hd
      obtain ⟨c, name, fields, children⟩ := d
      refine ((Task.className c).silent n hc).attempts fun c => ?_
      refine ((Task.optionalText name).silent n hname).attempts fun name => ?_
      apply attempts_completing
      intro id
      exact (building_initFields n id fields hfields).bind .trans fun _ =>
        ihchildren id children hchildren
    · intro top children hchildren
      cases children with
      | nil => exact (silent_quiet fun _ => .ok ()).building top
      | cons d rest =>
        rw [quietChildren, Bool.and_eq_true] at hchildren
        -- A child without an owner is no part of what is built below `top`: creating it and
        -- attaching it are one.
        have hchild := (ihcreate d hchildren.1).attach top
        rw [createChildren, ← bind_assoc]
        exact hchild.bind .trans fun _ => ihchildren top rest hchildren.2

/-- Makes the datablock of a declaration. -/
def createDatablock (n : Nat) (d : DatablockDecl) : Effect ObjectId := do
  let parent ← ofExcept fun i => i.datablockParent d
  let id ← changeObjects fun o => o.instantiate d.className (some d.name) parent true
  completing id (initFields n id d.fields)

theorem statement_datablock (n : Nat) (d : DatablockDecl) :
    statement (n + 1) (.datablock d) = (do
      let _ ← createDatablock n d
      return .normal) := by
  simp only [statement, createDatablock, discard_bind, bind_assoc]

theorem attempts_createDatablock (n : Nat) (d : DatablockDecl) (hd : d.quiet = true) :
    Attempts (createDatablock n d) := by
  refine (silent_quiet _).attempts fun parent => ?_
  apply attempts_completing
  intro id
  exact building_initFields n id d.fields hd

end Eval

/-- Whether an object with arbitrarily nested children is created or a datablock is declared: if
this ends in a fault, there are the same objects as before, each as it was, under the same
names. What may differ are the number of the next object, the retired names and the values of
variables. -/
theorem failed_creation_leaves_no_trace {i : Interpreter} {caseSensitive : Bool}
    {ops : List Objects.Operation} (hi : i.objects = (Objects.new caseSensitive).run ops) :
    (∀ (budget : Nat) (d : ObjectDecl) (fault : Fault) (j : Interpreter), d.quiet = true →
      Eval.expr budget (.create d) i = some (.error fault, j) →
        i.ObjectsOnly j ∧ i.objects.SameObjects j.objects) ∧
    ∀ (budget : Nat) (d : DatablockDecl) (fault : Fault) (j : Interpreter), d.quiet = true →
      Eval.statement budget (.datablock d) i = some (.error fault, j) →
        i.ObjectsOnly j ∧ i.objects.SameObjects j.objects := by
  have hwell : i.objects.WellFormed := by
    rw [hi]
    exact (Objects.wellFormed_new caseSensitive).run ops
  refine ⟨?_, ?_⟩
  · intro budget d fault j hd hrun
    cases budget with
    | zero => cases hrun
    | succ n => exact ((Eval.attempts_create n).1 d hd).of_error hwell hrun
  · intro budget d fault j hd hrun
    cases budget with
    | zero => cases hrun
    | succ n =>
      rw [Eval.statement_datablock] at hrun
      exact (Eval.attempts_createDatablock n d hd).of_error hwell hrun

/-- The fault is found in a child of the second child, when four objects have been made and two of
them have an owner. -/
theorem failed_creation_leaves_no_trace_depot :
    let ops : List Objects.Operation :=
      [.instantiate "SimSet" (some "Base") none false, .instantiate "SimObject" none none false,
        .addChild 1 2]
    let i : Interpreter :=
      { settings := {}, functions := Functions.empty false, objects := (Objects.new false).run ops }
    let broken : FieldInit := ⟨"size", [], .read (.field (.text "Nobody") "size" [])⟩
    let leaf : ObjectDecl := ⟨.named "SimObject", some (.text "Leaf"), [broken], []⟩
    let shelf : ObjectDecl := ⟨.named "SimSet", some (.text "Shelf"), [], []⟩
    let depot : ObjectDecl :=
      ⟨.named "SimSet", some (.text "Depot"), [⟨"color", [], .text "red"⟩],
        [shelf, ⟨.named "SimSet", none, [], [leaf]⟩]⟩
    let wheel : DatablockDecl := ⟨"SimDataBlock", "Wheel", none, [broken]⟩
    ∃ j k, Eval.expr 12 (.create depot) i = some (.error (.unknownObject "Nobody"), j) ∧
      j.objects.nextId = 7 ∧ i.ObjectsOnly j ∧ i.objects.SameObjects j.objects ∧
      Eval.statement 12 (.datablock wheel) i = some (.error (.unknownObject "Nobody"), k) ∧
      k.objects.nextId = 4 ∧ i.ObjectsOnly k ∧ i.objects.SameObjects k.objects := by
  intro ops i broken leaf shelf depot wheel
  obtain ⟨hcreate, hdeclare⟩ := failed_creation_leaves_no_trace (i := i) rfl
  have hread : ∀ {α : Type} (x : Option (Except Fault α × Interpreter)) (fault : Fault) (m : Nat),
      x.map (fun o => (o.1.map fun _ => (), o.2.objects.nextId)) = some (.error fault, m) →
        ∃ j, x = some (.error fault, j) ∧ j.objects.nextId = m := by
    intro α x fault m hx
    obtain ⟨⟨r, j⟩, rfl, hend⟩ := Option.map_eq_some_iff.mp hx
    cases r with
    | ok a => cases hend
    | error fault =>
      cases hend
      exact ⟨j, rfl, rfl⟩
  obtain ⟨j, hj, hnext⟩ := hread (Eval.expr 12 (.create depot) i) (.unknownObject "Nobody") 7
    (by decide +kernel)
  obtain ⟨k, hk, hnext'⟩ := hread (Eval.statement 12 (.datablock wheel) i)
    (.unknownObject "Nobody") 4 (by decide +kernel)
  obtain ⟨hrest, hsame⟩ := hcreate 12 depot _ j (by decide) hj
  obtain ⟨hrest', hsame'⟩ := hdeclare 12 wheel _ k (by decide) hk
  exact ⟨j, k, hj, hnext, hrest, hsame, hk, hnext', hrest', hsame'⟩

end TorqueScript
