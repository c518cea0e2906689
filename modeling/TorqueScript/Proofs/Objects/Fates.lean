import Mathlib.Data.List.Induction
import TorqueScript.Proofs.Objects.History

/-!
What became of the objects of a history. A registry keeps no record of what it made and
deleted; the history does. After any history the objects that are there are those that were
made and not deleted since, alone or together with an owner, and the retired names are those
that were given once and that no object has.
-/

namespace TorqueScript.Objects

/-- The number and the name of the object that an operation makes. -/
def made? (o : Objects) : Operation → Option (ObjectId × Option String)
  | .instantiate className name parent isDatablock =>
    match o.instantiate className name parent isDatablock with
    | .ok (id, _) => some (id, givenName name)
    | .error _ => none
  | _ => none

/-- The objects that a history makes, in order. -/
def creations (o : Objects) : List Operation → List (ObjectId × Option String)
  | [] => []
  | op :: ops => (o.made? op).toList ++ (o.step op).creations ops

/-- The history makes an object with this number. -/
def Created (o : Objects) (ops : List Operation) (id : ObjectId) : Prop :=
  ∃ name, (id, name) ∈ o.creations ops

/-- The history makes the object, and deletes it later or something that owns it by then. -/
def Deleted (o : Objects) (ops : List Operation) (id : ObjectId) : Prop :=
  ∃ before top after, ops = before ++ .delete top :: after ∧ o.Created before id ∧
    (o.run before).Below top id

theorem run_concat (o : Objects) (ops : List Operation) (op : Operation) :
    o.run (ops ++ [op]) = (o.run ops).step op :=
  List.foldl_concat ..

theorem caseSensitive_run (o : Objects) (ops : List Operation) :
    (o.run ops).caseSensitive = o.caseSensitive := by
  induction ops using List.reverseRecOn with
  | nil => rfl
  | append_singleton ops op ih => rw [run_concat, caseSensitive_step, ih]

theorem creations_concat (o : Objects) (ops : List Operation) (op : Operation) :
    o.creations (ops ++ [op]) = o.creations ops ++ ((o.run ops).made? op).toList := by
  induction ops generalizing o with
  | nil => simp [creations, run]
  | cons first rest ih =>
    rw [List.cons_append, creations, ih, creations, List.append_assoc]
    rfl

theorem deleted_concat (o : Objects) (ops : List Operation) (op : Operation) (id : ObjectId) :
    o.Deleted (ops ++ [op]) id ↔ o.Deleted ops id ∨
      ∃ top, op = .delete top ∧ o.Created ops id ∧ (o.run ops).Below top id := by
  constructor
  · rintro ⟨before, top, after, hops, hcreated, hbelow⟩
    rcases List.eq_nil_or_concat' after with rfl | ⟨after, last, rfl⟩
    · obtain ⟨rfl, hlast⟩ := List.append_inj' hops rfl
      cases hlast
      exact Or.inr ⟨top, rfl, hcreated, hbelow⟩
    · rw [← List.cons_append, ← List.append_assoc] at hops
      obtain ⟨rfl, -⟩ := List.append_inj' hops rfl
      exact Or.inl ⟨before, top, after, rfl, hcreated, hbelow⟩
  · rintro (⟨before, top, after, rfl, hcreated, hbelow⟩ | ⟨top, rfl, hcreated, hbelow⟩)
    · exact ⟨before, top, after ++ [op], by simp, hcreated, hbelow⟩
    · exact ⟨ops, top, [], rfl, hcreated, hbelow⟩

/-- The two registries have the same objects under the same names. -/
structure SameNames (o o' : Objects) : Prop where
  caseSensitive : o'.caseSensitive = o.caseSensitive
  nextId : o'.nextId = o.nextId
  names : o'.names = o.names
  retired : o'.retired = o.retired
  instances : ∀ x, (o'.instances.get? x).map Instance.name = (o.instances.get? x).map Instance.name

namespace SameNames

variable {o o' : Objects}

theorem refl (o : Objects) : SameNames o o :=
  ⟨rfl, rfl, rfl, rfl, fun _ => rfl⟩

theorem trans {o'' : Objects} (h : SameNames o o') (h' : SameNames o' o'') : SameNames o o'' where
  caseSensitive := h'.caseSensitive.trans h.caseSensitive
  nextId := h'.nextId.trans h.nextId
  names := h'.names.trans h.names
  retired := h'.retired.trans h.retired
  instances x := (h'.instances x).trans (h.instances x)

theorem update (h : SameNames o o') (id : ObjectId) {f : Instance → Instance}
    (hf : ∀ i, (f i).name = i.name) : SameNames o (o'.update id f) := by
  refine h.trans ?_
  rw [update_frame]
  refine ⟨rfl, rfl, rfl, rfl, fun x => ?_⟩
  rw [get?_update]
  split
  · simp [Function.comp_def, hf]
  · rfl

theorem detach (o : Objects) (child : ObjectId) : SameNames o (o.detach child) := by
  unfold Objects.detach
  split
  · exact refl o
  · refine ((refl o).update child ?_).update _ ?_ <;> exact fun _ => rfl

theorem addChild {group child : ObjectId} (h : o.addChild group child = .ok o') :
    SameNames o o' := by
  obtain ⟨-, -, rfl⟩ := addChild_eq_ok.mp h
  split
  · exact refl o
  · refine ((detach o child).update group ?_).update child ?_ <;> exact fun _ => rfl

theorem removeChild {group child : ObjectId} (h : o.removeChild group child = .ok o') :
    SameNames o o' := by
  obtain ⟨i, -, rfl⟩ := removeChild_eq_ok.mp h
  split
  · exact detach o child
  · exact refl o

theorem setField {id : ObjectId} {name : String} {v : Value} (h : o.setField id name v = .ok o') :
    SameNames o o' := by
  obtain ⟨-, rfl⟩ := setField_eq_ok.mp h
  refine (refl o).update id ?_
  exact fun _ => rfl

/-- An operation of which every success keeps the names keeps them also when it fails. -/
theorem step {op : Operation} (h : ∀ o', o.apply op = .ok o' → SameNames o o') :
    SameNames o (o.step op) := by
  unfold Objects.step
  split
  · rename_i o' hok
    exact h o' hok
  · exact refl o

end SameNames

/-- What is owned by something gone is gone, over any number of levels. -/
theorem Closed.mem_of_below {o : Objects} {gone : List ObjectId} (h : o.Closed gone)
    {top id : ObjectId} (htop : top ∈ gone) (hbelow : o.Below top id) : id ∈ gone := by
  obtain ⟨n, hn⟩ := hbelow
  induction n generalizing id with
  | zero => rwa [Option.some.inj hn]
  | succ n ih =>
    obtain ⟨g, hg, hrest⟩ := Option.bind_eq_some_iff.mp hn
    exact h id g hg (ih hrest)

/-- What lies above an object that is there is there too. -/
theorem WellFormed.exists_of_below {o : Objects} (h : o.WellFormed) {top id : ObjectId}
    {i : Instance} (hi : o.instances.get? id = some i) (hbelow : o.Below top id) :
    ∃ j, o.instances.get? top = some j := by
  obtain ⟨n, hn⟩ := hbelow
  induction n generalizing id i with
  | zero => exact ⟨i, by rw [← Option.some.inj hn, hi]⟩
  | succ n ih =>
    obtain ⟨g, hg, hrest⟩ := Option.bind_eq_some_iff.mp hn
    obtain ⟨j, hj, -⟩ := (h.owned id g).mp hg
    exact ih hj hrest

/-- A deletion, also one that fails, takes away what lies below the object and nothing else. -/
theorem WellFormed.removed_step {o : Objects} (h : o.WellFormed) (top : ObjectId) :
    ∃ gone, Removed o (o.step (.delete top)) gone ∧
      ∀ id i, o.instances.get? id = some i → (id ∈ gone ↔ o.Below top id) := by
  unfold Objects.step
  split
  · rename_i o' hok
    obtain ⟨gone, hgone, hbelow, hmem⟩ := h.removed_delete hok
    exact ⟨gone, hgone, fun id i _ => ⟨hbelow id, hgone.closed.mem_of_below hmem⟩⟩
  · rename_i fault hfault
    refine ⟨[], Removed.refl o, fun id i hi => ⟨fun hid => absurd hid List.not_mem_nil, ?_⟩⟩
    intro hbelow
    obtain ⟨j, hj⟩ := h.exists_of_below hi hbelow
    rw [Objects.apply, delete_eq_ok.mpr ⟨⟨j, hj⟩, rfl⟩] at hfault
    cases hfault

/-- An operation makes an object, or deletes, or keeps all objects and names. -/
theorem WellFormed.step_cases {o : Objects} (h : o.WellFormed) (op : Operation) :
    (∃ className name parent isDatablock, o.made? op = some (o.nextId, name) ∧
      (∀ top, op ≠ .delete top) ∧
      (∀ n, name = some n → o.names.contains (o.fold n) = false) ∧
      o.step op = o.created className name parent isDatablock) ∨
    (∃ top gone, op = .delete top ∧ o.made? op = none ∧ Removed o (o.step op) gone ∧
      ∀ id i, o.instances.get? id = some i → (id ∈ gone ↔ o.Below top id)) ∨
    (o.made? op = none ∧ (∀ top, op ≠ .delete top) ∧ SameNames o (o.step op)) := by
  cases op with
  | instantiate className name parent isDatablock =>
    cases hmade : o.instantiate className name parent isDatablock with
    | error fault =>
      refine Or.inr (Or.inr ⟨by simp [made?, hmade], by simp, SameNames.step fun o' hok => ?_⟩)
      simp [Objects.apply, hmade, Except.map] at hok
    | ok made =>
      obtain ⟨id, o'⟩ := made
      obtain ⟨hfree, -, rfl, rfl⟩ := instantiate_eq_ok.mp hmade
      refine Or.inl ⟨className, givenName name, parent, isDatablock, by simp [made?, hmade],
        by simp, hfree, ?_⟩
      simp [Objects.step, Objects.apply, hmade, Except.map]
  | delete top =>
    obtain ⟨gone, hgone, hmem⟩ := h.removed_step top
    exact Or.inr (Or.inl ⟨top, gone, rfl, rfl, hgone, hmem⟩)
  | registerClass name parent =>
    exact Or.inr (Or.inr ⟨rfl, by simp, ⟨rfl, rfl, rfl, rfl, fun _ => rfl⟩⟩)
  | setField id name value =>
    exact Or.inr (Or.inr ⟨rfl, by simp, SameNames.step fun _ => .setField⟩)
  | addChild group child =>
    exact Or.inr (Or.inr ⟨rfl, by simp, SameNames.step fun _ => .addChild⟩)
  | removeChild group child =>
    exact Or.inr (Or.inr ⟨rfl, by simp, SameNames.step fun _ => .removeChild⟩)

/-- A registry as the history of its objects tells it: `made` lists what was made, and `deleted`
says what of it was deleted. -/
structure Account (o : Objects) (made : List (ObjectId × Option String))
    (deleted : ObjectId → Prop) : Prop where
  numbers : made.map Prod.fst = List.range' 1 made.length
  next : o.nextId = made.length + 1
  gone : ∀ id, deleted id → ∃ name, (id, name) ∈ made
  live : ∀ id, (∃ i, o.instances.get? id = some i) ↔ (∃ name, (id, name) ∈ made) ∧ ¬ deleted id
  named : ∀ id i, o.instances.get? id = some i → (id, i.name) ∈ made
  retired : ∀ n, n ∈ o.retired ↔
    (∃ id m, (id, some m) ∈ made ∧ o.fold m = n) ∧ o.names.get? n = none

namespace Account

variable {o o' : Objects} {made : List (ObjectId × Option String)}
  {deleted deleted' : ObjectId → Prop}

theorem mem_made (h : Account o made deleted) (id : ObjectId) :
    (∃ name, (id, name) ∈ made) ↔ 1 ≤ id ∧ id < o.nextId := by
  have hmem : id ∈ made.map Prod.fst ↔ ∃ name, (id, name) ∈ made := by simp
  rw [← hmem, h.numbers, List.mem_range'_1, h.next, Nat.add_comm]

theorem same (h : Account o made deleted) (hsame : SameNames o o') : Account o' made deleted := by
  have hfold : o'.fold = o.fold := fold_congr hsame.caseSensitive
  refine ⟨h.numbers, hsame.nextId.trans h.next, h.gone, fun id => ?_, fun id i' hi' => ?_,
    fun n => ?_⟩
  · rw [← h.live, ← Option.isSome_iff_exists, ← Option.isSome_iff_exists,
      ← Option.isSome_map (f := Instance.name), hsame.instances, Option.isSome_map]
  · have hname := hsame.instances id
    rw [hi', Option.map_some] at hname
    obtain ⟨i, hi, hname⟩ := Option.map_eq_some_iff.mp hname.symm
    rw [← hname]
    exact h.named id i hi
  · rw [hsame.retired, hsame.names, hfold]
    exact h.retired n

theorem created (h : Account o made deleted) {name : Option String}
    (hfree : ∀ n, name = some n → o.names.contains (o.fold n) = false) (className : String)
    (parent : Option ObjectId) (isDatablock : Bool) :
    Account (o.created className name parent isDatablock) (made ++ [(o.nextId, name)]) deleted := by
  have hnew : ¬ deleted o.nextId := by
    intro hdeleted
    exact Nat.lt_irrefl _ ((h.mem_made _).mp (h.gone _ hdeleted)).2
  refine ⟨?_, ?_, fun id hid => ?_, fun id => ?_, fun id i hi => ?_, fun n => ?_⟩
  · rw [List.map_append, h.numbers, List.length_append, List.length_singleton, List.range'_concat,
      h.next]
    simp [Nat.add_comm]
  · simp [Objects.created, h.next]
  · obtain ⟨m, hm⟩ := h.gone id hid
    exact ⟨m, List.mem_append_left _ hm⟩
  · rw [get?_created]
    split
    · rename_i hid
      subst hid
      simp [hnew]
    · rename_i hid
      rw [h.live]
      simp [Ne.symm hid]
  · rw [get?_created] at hi
    split at hi
    · rename_i hid
      cases hi
      simp [hid]
    · exact List.mem_append_left _ (h.named id i hi)
  · rw [get?_names_created]
    change n ∈ name.elim o.retired (fun m => o.retired.filter (· ≠ o.fold m)) ↔
      (∃ id m, (id, some m) ∈ made ++ [(o.nextId, name)] ∧ o.fold m = n) ∧ _
    cases name with
    | none => simp [h.retired]
    | some m =>
      by_cases hn : o.fold m = n
      · simp [hn]
      · simp only [Option.elim_some, List.mem_filter, h.retired, List.mem_append]
        grind

theorem removed (h : Account o made deleted) (ho : o.WellFormed) {top : ObjectId}
    {gone : List ObjectId} (hgone : Removed o o' gone)
    (hmem : ∀ id i, o.instances.get? id = some i → (id ∈ gone ↔ o.Below top id))
    (hdeleted : ∀ id, deleted' id ↔ deleted id ∨ (∃ name, (id, name) ∈ made) ∧ o.Below top id) :
    Account o' made deleted' := by
  have hfold : o'.fold = o.fold := fold_congr hgone.caseSensitive
  refine ⟨h.numbers, hgone.nextId.trans h.next, fun id hid => ?_, fun id => ?_, fun id i' hi' => ?_,
    fun n => ?_⟩
  · rcases (hdeleted id).mp hid with hid | ⟨hmade, -⟩
    · exact h.gone id hid
    · exact hmade
  · have hlive : (∃ i', o'.instances.get? id = some i') ↔
        (∃ i, o.instances.get? id = some i) ∧ ¬ o.Below top id := by
      constructor
      · rintro ⟨i', hi'⟩
        obtain ⟨hkept, i, hi, -⟩ := hgone.exists_of_get? hi'
        exact ⟨⟨i, hi⟩, fun hbelow => hkept ((hmem id i hi).mpr hbelow)⟩
      · rintro ⟨⟨i, hi⟩, hbelow⟩
        exact ⟨without gone i, by
          rw [hgone.get?_of_notMem fun hid => hbelow ((hmem id i hi).mp hid), hi]
          rfl⟩
    rw [hlive, h.live, hdeleted]
    tauto
  · obtain ⟨-, i, hi, rfl⟩ := hgone.exists_of_get? hi'
    exact h.named id i hi
  · rw [hgone.retired, hgone.names, h.retired, hfold]
    cases hn : o.names.get? n with
    | none => simp
    | some id =>
      -- A name of the index was given to the object that has it, so it is retired with that object.
      obtain ⟨i, hi, hname⟩ := (ho.named n id).mp hn
      obtain ⟨m, hm, hmn⟩ := Option.map_eq_some_iff.mp hname
      have hgiven : ∃ id m, (id, some m) ∈ made ∧ o.fold m = n :=
        ⟨id, m, hm ▸ h.named id i hi, hmn⟩
      simp [hgiven]

end Account

theorem account_new (caseSensitive : Bool) : Account (new caseSensitive) [] fun _ => False := by
  have hstart : Account { caseSensitive := caseSensitive } [] fun _ => False :=
    ⟨rfl, rfl, by simp, by simp, by simp, by simp⟩
  have hclasses : ∀ (classes : List (String × Option String)) (o : Objects),
      Account o [] (fun _ => False) →
      Account (classes.foldl (fun o c => o.registerClass c.1 c.2) o) [] fun _ => False := by
    intro classes
    induction classes with
    | nil => exact fun o h => h
    | cons c rest ih => exact fun o h => ih _ (h.same ⟨rfl, rfl, rfl, rfl, fun _ => rfl⟩)
  exact hclasses standardClasses _ hstart

/-- Every history accounts for the registry it leaves. -/
theorem account_run (caseSensitive : Bool) (ops : List Operation) :
    Account ((new caseSensitive).run ops) ((new caseSensitive).creations ops)
      ((new caseSensitive).Deleted ops) := by
  induction ops using List.reverseRecOn with
  | nil =>
    have hnone : (new caseSensitive).Deleted [] = fun _ => False := by
      funext id
      simp [Deleted]
    rw [run, List.foldl_nil, creations, hnone]
    exact account_new caseSensitive
  | append_singleton ops op ih =>
    have ho : ((new caseSensitive).run ops).WellFormed := (wellFormed_new caseSensitive).run ops
    have hkept : (∀ top, op ≠ .delete top) →
        (new caseSensitive).Deleted (ops ++ [op]) = (new caseSensitive).Deleted ops := by
      intro hop
      funext id
      simp [deleted_concat, hop]
    rw [run_concat, creations_concat]
    rcases ho.step_cases op with ⟨className, name, parent, isDatablock, hmade, hop, hfree, hstep⟩ |
      ⟨top, gone, rfl, hmade, hgone, hmem⟩ | ⟨hmade, hop, hsame⟩
    · rw [hmade, hkept hop, hstep]
      exact ih.created hfree className parent isDatablock
    · rw [hmade, Option.toList_none, List.append_nil]
      refine ih.removed ho hgone hmem fun id => ?_
      simp [deleted_concat, Created]
    · rw [hmade, hkept hop, Option.toList_none, List.append_nil]
      exact ih.same hsame

end TorqueScript.Objects
