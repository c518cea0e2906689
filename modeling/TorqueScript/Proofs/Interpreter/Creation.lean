import TorqueScript.Proofs.Interpreter.Rollback
import TorqueScript.Proofs.Objects.Trees

/-!
Creations that succeed. A run that creates an object is taken apart into what was computed on
the way: classes, names and the values of fields. The objects that are there afterwards are
those before and the declared tree, with these values.
-/

namespace TorqueScript

open Effect

/-- Fields of the object `id` are evaluated and set, from the first to the last. Beside the
declarations stand the names and values that they were set to. -/
inductive Assigns (id : ObjectId) :
    Interpreter → List FieldInit → List (String × Value) → Interpreter → Prop
  | nil (i : Interpreter) : Assigns id i [] [] i
  | cons {i i₁ i₂ j : Interpreter} {n : Nat} {f : FieldInit} {rest : List FieldInit}
      {vs : List Value} {v : Value} {o : Objects} {assigned : List (String × Value)} :
      Eval.exprs n f.subscripts i = some (.ok vs, i₁) →
      Eval.expr n f.value i₁ = some (.ok v, i₂) →
      i₂.objects.setField id (Value.elementName f.name vs) v = .ok o →
      Assigns id { i₂ with objects := o } rest assigned j →
      Assigns id i (f :: rest) ((Value.elementName f.name vs, v) :: assigned) j

/-- Objects are created, one after the other, and given to `owner`. Beside the declarations stand
all objects that were made, each before what is below it. -/
inductive Creates :
    Option ObjectId → Interpreter → List ObjectDecl → List NewObject → Interpreter → Prop
  | nil (owner : Option ObjectId) (i : Interpreter) : Creates owner i [] [] i
  | cons {owner : Option ObjectId} {i i₁ i₂ i₃ i₄ j : Interpreter} {n : Nat} {d : ObjectDecl}
      {rest : List ObjectDecl} {c : String} {name : Option String} {id : ObjectId} {o o' : Objects}
      {assigned : List (String × Value)} {below beside : List NewObject} :
      Eval.className n d.className i = some (.ok c, i₁) →
      Eval.optionalText n d.name i₁ = some (.ok name, i₂) →
      i₂.objects.instantiate c name none false = .ok (id, o) →
      Assigns id { i₂ with objects := o } d.fields assigned i₃ →
      Creates (some id) i₃ d.children below i₄ →
      i₄.objects.attach owner id = .ok o' →
      Creates owner { i₄ with objects := o' } rest beside j →
      Creates owner i (d :: rest)
        (⟨⟨d, id, owner, siblingIds (id + 1) d.children⟩, c, Objects.givenName name, assigned⟩ ::
          (below ++ beside)) j

namespace Eval

theorem exists_assigns {n : Nat} {id : ObjectId} {fields : List FieldInit} {i j : Interpreter}
    (hrun : initFields n id fields i = some (.ok (), j)) :
    ∃ assigned, Assigns id i fields assigned j := by
  induction n generalizing fields i with
  | zero => cases hrun
  | succ n ih =>
    cases fields with
    | nil =>
      cases hrun
      exact ⟨[], .nil _⟩
    | cons f rest =>
      obtain ⟨name, subscripts, e⟩ := f
      rw [initFields] at hrun
      obtain ⟨vs, i₁, hsubscripts, hrun⟩ := bind_eq_ok.mp hrun
      obtain ⟨v, i₂, hvalue, hrun⟩ := bind_eq_ok.mp hrun
      obtain ⟨⟨⟩, i₃, hset, hrun⟩ := bind_eq_ok.mp hrun
      obtain ⟨o, hok, rfl⟩ := changeObjects_map_eq_ok.mp hset
      obtain ⟨assigned, hrest⟩ := ih hrun
      exact ⟨_, .cons (f := ⟨name, subscripts, e⟩) hsubscripts hvalue hok hrest⟩

theorem exists_parts_of_create {n : Nat} {d : ObjectDecl} {i j : Interpreter} {id : ObjectId}
    (hrun : create (n + 1) d i = some (.ok id, j)) :
    ∃ c i₁ name i₂ o i₃, className n d.className i = some (.ok c, i₁) ∧
      optionalText n d.name i₁ = some (.ok name, i₂) ∧
      i₂.objects.instantiate c name none false = .ok (id, o) ∧
      initFields n id d.fields { i₂ with objects := o } = some (.ok (), i₃) ∧
      createChildren n id d.children i₃ = some (.ok (), j) := by
  obtain ⟨classRef, nameRef, fields, children⟩ := d
  rw [create] at hrun
  obtain ⟨c, i₁, hclass, hrun⟩ := bind_eq_ok.mp hrun
  obtain ⟨name, i₂, hname, hrun⟩ := bind_eq_ok.mp hrun
  obtain ⟨top, k, hmake, hrun⟩ := bind_eq_ok.mp hrun
  obtain ⟨o, hok, rfl⟩ := changeObjects_eq_ok.mp hmake
  obtain ⟨hcomplete, rfl⟩ := completing_eq_ok.mp hrun
  obtain ⟨⟨⟩, i₃, hfields, hchildren⟩ := bind_eq_ok.mp hcomplete
  exact ⟨c, i₁, name, i₂, o, i₃, hclass, hname, hok, hfields, hchildren⟩

/-- What a creation computes, put before what is computed for the declarations that follow; and what
the creation of children computes. -/
theorem exists_creates (n : Nat) :
    (∀ {d i id j}, create n d i = some (.ok id, j) → ∀ {owner o rest beside k},
      j.objects.attach owner id = .ok o → Creates owner { j with objects := o } rest beside k →
        ∃ made, Creates owner i (d :: rest) made k) ∧
    ∀ {g ds i j}, createChildren n g ds i = some (.ok (), j) →
      ∃ made, Creates (some g) i ds made j := by
  induction n with
  | zero =>
    refine ⟨?_, ?_⟩
    · intro d i id j hrun
      cases hrun
    · intro g ds i j hrun
      cases hrun
  | succ n ih =>
    obtain ⟨ihcreate, ihchildren⟩ := ih
    refine ⟨?_, ?_⟩
    · intro d i id j hrun owner o rest beside k hattach hrest
      obtain ⟨c, i₁, name, i₂, o', i₃, hclass, hname, hmake, hfields, hchildren⟩ :=
        exists_parts_of_create hrun
      obtain ⟨assigned, hassigns⟩ := exists_assigns hfields
      obtain ⟨below, hbelow⟩ := ihchildren hchildren
      exact ⟨_, .cons hclass hname hmake hassigns hbelow hattach hrest⟩
    · intro g ds i j hrun
      cases ds with
      | nil =>
        cases hrun
        exact ⟨[], .nil _ _⟩
      | cons d rest =>
        rw [createChildren] at hrun
        obtain ⟨id, k, hcreate, hrun⟩ := bind_eq_ok.mp hrun
        obtain ⟨⟨⟩, l, hattach, hrun⟩ := bind_eq_ok.mp hrun
        obtain ⟨o, hok, rfl⟩ := changeObjects_map_eq_ok.mp hattach
        have hgiven : k.objects.attach (some g) id = .ok o := hok
        obtain ⟨beside, hbeside⟩ := ihchildren hrun
        exact ihcreate hcreate hgiven hbeside

end Eval

theorem Assigns.fieldsSet {id : ObjectId} {i j : Interpreter} {fields : List FieldInit}
    {assigned : List (String × Value)} (h : Assigns id i fields assigned j)
    (hfields : fields.all FieldInit.quiet = true) (hi : i.objects.WellFormed) :
    j.objects.WellFormed ∧ i.objects.FieldsSet id assigned j.objects := by
  induction h with
  | nil i => exact ⟨hi, .nil id i.objects⟩
  | @cons i i₁ i₂ j n f rest vs v o assigned hsubscripts hvalue hset hrest ih =>
    rw [List.all_cons, Bool.and_eq_true, FieldInit.quiet, Bool.and_eq_true] at hfields
    have hi₁ := Task.variablesOnly (t := .exprs f.subscripts) hfields.1.1 hsubscripts
    have hi₂ := Task.variablesOnly (t := .expr f.value) hfields.1.2 hvalue
    rw [hi₂.objects_eq, hi₁.objects_eq] at hset
    obtain ⟨hj, hfinal⟩ := ih hfields.2 (hi.setField hset)
    exact ⟨hj, .cons hset hfinal⟩

theorem Creates.built {owner : Option ObjectId} {i j : Interpreter} {ds : List ObjectDecl}
    {made : List NewObject} (h : Creates owner i ds made j) (hds : quietChildren ds = true)
    (hi : i.objects.WellFormed) (howner : ∀ g, owner = some g → g < i.objects.nextId) :
    j.objects.WellFormed ∧ i.objects.Built owner ds made j.objects := by
  induction h with
  | nil owner i => exact ⟨hi, .nil owner i.objects⟩
  | @cons owner i i₁ i₂ i₃ i₄ j n d rest c name id o o' assigned below beside
      hclass hname hmake hassigns hbelow hattach hbeside ihbelow ihbeside =>
    rw [quietChildren, Bool.and_eq_true] at hds
    obtain ⟨hquietClass, hquietName, hquietFields, hquietChildren⟩ := ObjectDecl.quiet_iff.mp hds.1
    have hi₁ := Task.variablesOnly (t := .className d.className) hquietClass hclass
    have hi₂ := Task.variablesOnly (t := .optionalText d.name) hquietName hname
    rw [hi₂.objects_eq, hi₁.objects_eq] at hmake
    obtain ⟨hi₃, hfields⟩ := hassigns.fieldsSet hquietFields (hi.instantiate hmake)
    have hid : id < i₃.objects.nextId := by
      obtain ⟨-, -, rfl, rfl⟩ := Objects.instantiate_eq_ok.mp hmake
      rw [hfields.frame]
      exact Nat.lt_succ_self _
    obtain ⟨hi₄, hbuilt⟩ := ihbelow hquietChildren hi₃ fun g hg => Option.some.inj hg ▸ hid
    have hroot := Objects.Built.root hmake hfields hbuilt
    have htree := Objects.Built.attach hi hi₄ howner hroot hattach
    have howner' : ∀ g, owner = some g → g < o'.nextId := fun g hg => by
      rw [htree.nextId]
      exact Nat.lt_add_right _ (howner g hg)
    obtain ⟨hj, hrest⟩ := ihbeside hds.2 (hi₄.attach hattach).1 howner'
    exact ⟨hj, .cons howner htree hrest⟩

/-- A creation that succeeds builds the declared tree and changes nothing else. The new objects are
those of the tree, each before what is below it, and have the next numbers in this order. Each
has the children declared for it, in their order, and is owned by the object it is declared in,
the first one by none. Its fields are those that were assigned, with the last value assigned to
each. -/
theorem creation_builds_declared_tree {i j : Interpreter} {caseSensitive : Bool}
    {ops : List Objects.Operation} (hi : i.objects = (Objects.new caseSensitive).run ops)
    {budget : Nat} {d : ObjectDecl} (hd : d.quiet = true) {v : Value}
    (hrun : Eval.expr budget (.create d) i = some (.ok v, j)) :
    ∃ made : List NewObject, Creates none i [d] made j ∧
      v = .object i.objects.nextId ∧
      made.map NewObject.toTreeNode = d.layout none i.objects.nextId ∧
      made.map (fun p => p.id) = List.range' i.objects.nextId d.size ∧
      (∀ x, x ∈ made.map (fun p => p.id) ↔
        i.objects.contains x = false ∧ j.objects.contains x = true) ∧
      (∀ p ∈ made,
        (p.owner = none ↔ p.id = i.objects.nextId) ∧
        (ownedNodes (some p.id) (made.map NewObject.toTreeNode)).map TreeNode.declaration =
          p.declaration.children ∧
        (ownedNodes (some p.id) (made.map NewObject.toTreeNode)).map TreeNode.id = p.children ∧
        ∃ fields : Table String Value,
          j.objects.instances.get? p.id = some {
            id := p.id
            name := p.name
            className := p.className
            isDatablock := false
            parent := none
            group := p.owner
            children := p.children
            fields := fields } ∧
          ∀ key, fields.get? key =
            (p.assigned.reverse.find? fun a => i.objects.fold a.1 = key).map Prod.snd) ∧
      (∀ x y, i.objects.instances.get? x = some y → j.objects.instances.get? x = some y) ∧
      i.ObjectsOnly j := by
  have hwell : i.objects.WellFormed := by
    rw [hi]
    exact (Objects.wellFormed_new caseSensitive).run ops
  cases budget with
  | zero => cases hrun
  | succ n =>
    obtain ⟨id, k, hcreate, hend⟩ := bind_eq_ok.mp hrun
    cases hend
    obtain ⟨-, hrest, hid, -⟩ := (Eval.attempts_create n).1 d hd i _ j hcreate hwell
    obtain ⟨made, hmade⟩ := (Eval.exists_creates n).1 hcreate rfl (.nil none j)
    obtain ⟨hj, hbuilt⟩ := hmade.built (by simpa [quietChildren] using hd) hwell (by simp)
    have hsize : forestSize [d] = d.size := rfl
    have hids := hbuilt.ids
    have hnodes := hbuilt.nodes
    rw [hsize] at hids
    rw [← d.layout_eq] at hnodes
    have hnew := hbuilt.mem_ids_iff hwell.toRegistered hj.toRegistered
    refine ⟨made, hmade, congrArg Value.object hid, hnodes, hids, hnew, fun p hp => ?_,
      fun x y hy => ?_, hrest⟩
    · have hnode : p.toTreeNode ∈ d.layout none i.objects.nextId := by
        rw [← hnodes]
        exact List.mem_map_of_mem hp
      refine ⟨owner_layout_eq_none_iff hnode, ?_⟩
      rw [d.layout_eq] at hnodes hnode
      obtain ⟨hdeclarations, hchildren⟩ := ownedNodes_of_mem_forestLayout (by simp) hnode
      rw [hnodes]
      refine ⟨hdeclarations, hchildren, _, hbuilt.new p hp, fun key => ?_⟩
      rw [get?_setAll, Table.get?_empty, Option.or_none]
    · rw [hbuilt.get?_old (hwell.numbered x y hy).2, hy]

/-- Two shelves in a depot, the first of them with a box; the color is assigned twice. -/
theorem creation_builds_declared_tree_depot :
    let ops : List Objects.Operation :=
      [.instantiate "SimSet" (some "Base") none false, .instantiate "SimObject" none none false,
        .addChild 1 2]
    let i : Interpreter :=
      { settings := {}, functions := Functions.empty false, objects := (Objects.new false).run ops }
    let shelf (children : List ObjectDecl) : ObjectDecl := ⟨.named "SimSet", none, [], children⟩
    let box : ObjectDecl := ⟨.named "SimObject", some (.text "Box"), [], []⟩
    let depot : ObjectDecl :=
      ⟨.named "SimSet", some (.text "Depot"),
        [⟨"color", [], .text "red"⟩, ⟨"COLOR", [], .text "blue"⟩], [shelf [box], shelf []]⟩
    ∃ j made, Eval.expr 12 (.create depot) i = some (.ok (.object 3), j) ∧
      Creates none i [depot] made j ∧
      made.map (fun p => (p.id, p.owner, p.children)) =
        [(3, none, [4, 6]), (4, some 3, [5]), (5, some 4, []), (6, some 3, [])] ∧
      (∀ p ∈ made, ∃ y, j.objects.instances.get? p.id = some y ∧ y.group = p.owner ∧
        y.children = p.children) ∧
      ((j.objects.instances.get? 3).bind fun y => y.fields.get? "color").map Value.toText =
        some "blue" ∧
      ∀ x y, i.objects.instances.get? x = some y → j.objects.instances.get? x = some y := by
  intro ops i shelf box depot
  have hread : (Eval.expr 12 (.create depot) i).map (fun r => (r.1.toBool,
      ((r.2.objects.instances.get? 3).bind fun y => y.fields.get? "color").map Value.toText)) =
        some (true, some "blue") := by
    decide +kernel
  obtain ⟨⟨r, j⟩, hrun, hend⟩ := Option.map_eq_some_iff.mp hread
  cases r with
  | error fault => cases hend
  | ok v =>
    obtain ⟨made, hmade, rfl, hnodes, -, -, hstored, hold, -⟩ :=
      creation_builds_declared_tree (i := i) rfl (by decide) hrun
    refine ⟨j, made, hrun, hmade, ?_, fun p hp => ?_, (Prod.mk.inj hend).2, hold⟩
    · have hmap := congrArg (List.map fun s => (s.id, s.owner, s.children)) hnodes
      rw [List.map_map] at hmap
      exact hmap
    · obtain ⟨-, -, -, fields, hp, -⟩ := hstored p hp
      exact ⟨_, hp, rfl, rfl⟩

end TorqueScript
