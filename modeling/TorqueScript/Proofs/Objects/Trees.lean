import TorqueScript.Program
import TorqueScript.Proofs.Objects.Growth

/-!
Declared trees of objects. Which numbers the objects of a tree get, and which of them own
which, is read off the declaration and the first number. A registry in which the objects were
made in this order, and each was given to its owner, holds exactly this tree.
-/

namespace TorqueScript

mutual

def ObjectDecl.size : ObjectDecl → Nat
  | ⟨_, _, _, children⟩ => forestSize children + 1

def forestSize : List ObjectDecl → Nat
  | [] => 0
  | d :: rest => d.size + forestSize rest

end

/-- An object of a tree, with the object it belongs to and those that belong to it. -/
structure TreeNode where
  declaration : ObjectDecl
  id : ObjectId
  owner : Option ObjectId
  children : List ObjectId

/-- The numbers of siblings. What is below one of them comes before the next. -/
def siblingIds (id : ObjectId) : List ObjectDecl → List ObjectId
  | [] => []
  | d :: rest => id :: siblingIds (id + d.size) rest

mutual

/-- The objects of a tree, each before what is below it, numbered from `id` on. -/
def ObjectDecl.layout (owner : Option ObjectId) (id : ObjectId) : ObjectDecl → List TreeNode
  | ⟨c, name, fields, children⟩ =>
    ⟨⟨c, name, fields, children⟩, id, owner, siblingIds (id + 1) children⟩ ::
      forestLayout (some id) (id + 1) children

def forestLayout (owner : Option ObjectId) (id : ObjectId) : List ObjectDecl → List TreeNode
  | [] => []
  | d :: rest => d.layout owner id ++ forestLayout owner (id + d.size) rest

end

theorem ObjectDecl.size_eq (d : ObjectDecl) : d.size = forestSize d.children + 1 := by
  cases d
  rfl

theorem forestLayout_cons (owner : Option ObjectId) (id : ObjectId) (d : ObjectDecl)
    (rest : List ObjectDecl) :
    forestLayout owner id (d :: rest) =
      ⟨d, id, owner, siblingIds (id + 1) d.children⟩ ::
        (forestLayout (some id) (id + 1) d.children ++ forestLayout owner (id + d.size) rest) := by
  cases d
  rfl

/-- Induction over what is below the first of some declarations, and over those beside it. -/
theorem forest_induction {P : List ObjectDecl → Prop} (nil : P [])
    (cons : ∀ d rest, P d.children → P rest → P (d :: rest)) : ∀ ds, P ds
  | [] => nil
  | ⟨c, name, fields, children⟩ :: rest =>
    cons ⟨c, name, fields, children⟩ rest (forest_induction nil cons children)
      (forest_induction nil cons rest)

theorem ids_forestLayout (owner : Option ObjectId) (id : ObjectId) (ds : List ObjectDecl) :
    (forestLayout owner id ds).map TreeNode.id = List.range' id (forestSize ds) := by
  induction ds using forest_induction generalizing owner id with
  | nil => rfl
  | cons d rest ihbelow ihbeside =>
    have hsplit : id + d.size = id + 1 + forestSize d.children := by
      rw [d.size_eq]
      grind
    rw [forestLayout_cons, List.map_cons, List.map_append, ihbelow, ihbeside, forestSize, hsplit,
      List.range'_append_1, d.size_eq, Nat.add_right_comm, List.range'_succ]

theorem id_mem_forestLayout {owner : Option ObjectId} {id : ObjectId} {ds : List ObjectDecl}
    {s : TreeNode} (hs : s ∈ forestLayout owner id ds) : id ≤ s.id ∧ s.id < id + forestSize ds := by
  have hmem : s.id ∈ List.range' id (forestSize ds) := by
    rw [← ids_forestLayout owner]
    exact List.mem_map_of_mem hs
  exact List.mem_range'_1.mp hmem

theorem owner_forestLayout {owner : Option ObjectId} {id : ObjectId} {ds : List ObjectDecl}
    {s : TreeNode} (hs : s ∈ forestLayout owner id ds) :
    s.owner = owner ∨ ∃ g, s.owner = some g ∧ id ≤ g ∧ g < id + forestSize ds := by
  induction ds using forest_induction generalizing owner id with
  | nil => cases hs
  | cons d rest ihbelow ihbeside =>
    have hsize := d.size_eq
    rw [forestLayout_cons, List.mem_cons, List.mem_append] at hs
    rw [forestSize]
    rcases hs with rfl | hbelow | hbeside
    · exact Or.inl rfl
    · rcases ihbelow hbelow with hid | ⟨g, hg, hbounds⟩
      · exact Or.inr ⟨id, hid, by grind⟩
      · exact Or.inr ⟨g, hg, by grind⟩
    · rcases ihbeside hbeside with howner | ⟨g, hg, hbounds⟩
      · exact Or.inl howner
      · exact Or.inr ⟨g, hg, by grind⟩

/-- The objects that belong to `owner`, in their order. -/
def ownedNodes (owner : Option ObjectId) (nodes : List TreeNode) : List TreeNode :=
  nodes.filter fun s => s.owner = owner

theorem ownedNodes_append (owner : Option ObjectId) (nodes nodes' : List TreeNode) :
    ownedNodes owner (nodes ++ nodes') = ownedNodes owner nodes ++ ownedNodes owner nodes' :=
  List.filter_append ..

theorem ownedNodes_cons (owner : Option ObjectId) (s : TreeNode) (nodes : List TreeNode) :
    ownedNodes owner (s :: nodes) =
      if s.owner = owner then s :: ownedNodes owner nodes else ownedNodes owner nodes := by
  simp [ownedNodes, List.filter_cons]

theorem ownedNodes_forestLayout_eq_nil {owner other : Option ObjectId} {id : ObjectId}
    {ds : List ObjectDecl} (hne : other ≠ owner)
    (hout : ∀ g, other = some g → g < id ∨ id + forestSize ds ≤ g) :
    ownedNodes other (forestLayout owner id ds) = [] := by
  rw [ownedNodes, List.filter_eq_nil_iff]
  intro s hs hother
  rw [decide_eq_true_eq] at hother
  rcases owner_forestLayout hs with howner | ⟨g, hg, hbounds⟩
  · exact hne (hother.symm.trans howner)
  · have hout := hout g (hother.symm.trans hg)
    grind

theorem ownedNodes_forestLayout {owner : Option ObjectId} {id : ObjectId}
    (howner : ∀ g, owner = some g → g < id) (ds : List ObjectDecl) :
    (ownedNodes owner (forestLayout owner id ds)).map TreeNode.declaration = ds ∧
    (ownedNodes owner (forestLayout owner id ds)).map TreeNode.id = siblingIds id ds := by
  induction ds generalizing id with
  | nil => exact ⟨rfl, rfl⟩
  | cons d rest ih =>
    have hbelow : ownedNodes owner (forestLayout (some id) (id + 1) d.children) = [] := by
      apply ownedNodes_forestLayout_eq_nil
      · intro hid
        exact Nat.lt_irrefl _ (howner id hid)
      · intro g hg
        exact Or.inl (Nat.lt_succ_of_lt (howner g hg))
    have howner' : ∀ g, owner = some g → g < id + d.size := fun g hg =>
      Nat.lt_add_right _ (howner g hg)
    obtain ⟨hdeclarations, hids⟩ := ih howner'
    rw [forestLayout_cons, ownedNodes_cons, if_pos rfl, ownedNodes_append, hbelow, List.nil_append,
      List.map_cons, List.map_cons, hdeclarations, hids]
    exact ⟨rfl, rfl⟩

/-- Those that belong to an object of the tree are its children as they were declared. -/
theorem ownedNodes_of_mem_forestLayout {owner : Option ObjectId} {id : ObjectId}
    (howner : ∀ g, owner = some g → g < id) {ds : List ObjectDecl} {s : TreeNode}
    (hs : s ∈ forestLayout owner id ds) :
    (ownedNodes (some s.id) (forestLayout owner id ds)).map TreeNode.declaration =
      s.declaration.children ∧
    (ownedNodes (some s.id) (forestLayout owner id ds)).map TreeNode.id = s.children := by
  induction ds using forest_induction generalizing owner id with
  | nil => cases hs
  | cons d rest ihbelow ihbeside =>
    have hsize := d.size_eq
    have howner' : ∀ g, owner = some g → g < id + d.size := fun g hg =>
      Nat.lt_add_right _ (howner g hg)
    have hid : ∀ g, some id = some g → g < id + 1 := by
      intro g hg
      cases hg
      exact Nat.lt_succ_self _
    -- What belongs to `x` is below the first object or beside it.
    have hsplit : ∀ x, id ≤ x → ownedNodes (some x) (forestLayout owner id (d :: rest)) =
        ownedNodes (some x) (forestLayout (some id) (id + 1) d.children) ++
          ownedNodes (some x) (forestLayout owner (id + d.size) rest) := by
      intro x hx
      have hne : owner ≠ some x := fun hg => Nat.not_lt_of_le hx (howner x hg)
      rw [forestLayout_cons, ownedNodes_cons, if_neg hne, ownedNodes_append]
    have hbeside : ∀ x, id ≤ x → x < id + d.size →
        ownedNodes (some x) (forestLayout owner (id + d.size) rest) = [] := by
      intro x hx hlt
      apply ownedNodes_forestLayout_eq_nil
      · exact fun hg => Nat.not_lt_of_le hx (howner x hg.symm)
      · intro g hg
        cases hg
        exact Or.inl hlt
    rw [forestLayout_cons, List.mem_cons, List.mem_append] at hs
    rcases hs with rfl | hs | hs
    · rw [hsplit id (Nat.le_refl id), hbeside id (Nat.le_refl id) (by grind), List.append_nil]
      exact ownedNodes_forestLayout hid d.children
    · have hbounds := id_mem_forestLayout hs
      rw [hsplit s.id (by grind), hbeside s.id (by grind) (by grind), List.append_nil]
      exact ihbelow hid hs
    · have hbounds := id_mem_forestLayout hs
      have hbelow : ownedNodes (some s.id) (forestLayout (some id) (id + 1) d.children) = [] := by
        apply ownedNodes_forestLayout_eq_nil
        · intro hg
          cases hg
          grind
        · intro g hg
          cases hg
          grind
      rw [hsplit s.id (by grind), hbelow, List.nil_append]
      exact ihbeside howner' hs

theorem ObjectDecl.layout_eq (d : ObjectDecl) (owner : Option ObjectId) (id : ObjectId) :
    d.layout owner id = forestLayout owner id [d] :=
  (List.append_nil _).symm

/-- The first object of a tree is the only one without an owner. -/
theorem owner_layout_eq_none_iff {d : ObjectDecl} {id : ObjectId} {s : TreeNode}
    (hs : s ∈ d.layout none id) : s.owner = none ↔ s.id = id := by
  rw [d.layout_eq, forestLayout_cons, forestLayout, List.append_nil, List.mem_cons] at hs
  rcases hs with rfl | hs
  · simp
  · have hbounds := id_mem_forestLayout hs
    have howner : s.owner ≠ none := by
      rcases owner_forestLayout hs with hid | ⟨g, hg, -⟩
      · simp [hid]
      · simp [hg]
    have hne : s.id ≠ id := by grind
    simp [howner, hne]

/-- An object made for a declaration, with its name and the values its fields have been set to. -/
structure NewObject extends TreeNode where
  className : String
  name : Option String
  assigned : List (String × Value)

/-- The fields after they have been set one after the other. -/
def setAll (fold : String → String) (assigned : List (String × Value))
    (fields : Table String Value) : Table String Value :=
  assigned.foldl (fun fields a => fields.insert (fold a.1) a.2) fields

def NewObject.stored (fold : String → String) (p : NewObject) : Instance where
  id := p.id
  name := p.name
  className := p.className
  isDatablock := false
  parent := none
  group := p.owner
  children := p.children
  fields := setAll fold p.assigned ∅

/-- The object `id` after `owner` has been given more children. -/
def Instance.adopting (owner : Option ObjectId) (children : List ObjectId) (id : ObjectId)
    (i : Instance) : Instance :=
  if owner = some id then { i with children := i.children ++ children } else i

/-- Of several values set under one key the last counts. -/
theorem get?_setAll (fold : String → String) (assigned : List (String × Value))
    (fields : Table String Value) (key : String) :
    (setAll fold assigned fields).get? key =
      ((assigned.reverse.find? fun a => fold a.1 = key).map Prod.snd).or (fields.get? key) := by
  induction assigned generalizing fields with
  | nil => rfl
  | cons a rest ih =>
    have hrest := ih (fields.insert (fold a.1) a.2)
    rw [Table.get?_insert] at hrest
    rw [List.reverse_cons, List.find?_append, setAll, List.foldl_cons, ← setAll, hrest]
    by_cases hkey : fold a.1 = key
    · cases rest.reverse.find? fun a => fold a.1 = key <;> simp [hkey]
    · cases rest.reverse.find? fun a => fold a.1 = key <;> simp [hkey]

namespace Instance

variable {owner : Option ObjectId} {children : List ObjectId} {id : ObjectId}

theorem adopting_of_ne (hne : owner ≠ some id) : adopting owner children id = fun i => i := by
  funext i
  rw [adopting, if_neg hne]

@[simp]
theorem adopting_nil : adopting owner [] id = fun i => i := by
  funext i
  simp [adopting]

theorem adopting_append (more : List ObjectId) (i : Instance) :
    (i.adopting owner children id).adopting owner more id =
      i.adopting owner (children ++ more) id := by
  by_cases howner : owner = some id
  · simp [adopting, howner]
  · simp [adopting_of_ne howner]

end Instance

namespace Objects

/-- Fields of the object `id` have been set, one after the other. -/
structure FieldsSet (id : ObjectId) (assigned : List (String × Value)) (o o' : Objects) : Prop where
  frame : o' = { o with instances := o'.instances }
  instances : ∀ x, o'.instances.get? x = (o.instances.get? x).map fun i =>
    if x = id then { i with fields := setAll o.fold assigned i.fields } else i

/-- The declared trees have been built, in the order of the declarations, and their first objects
given to `owner`. -/
structure Built (owner : Option ObjectId) (ds : List ObjectDecl) (made : List NewObject)
    (o o' : Objects) : Prop where
  caseSensitive : o'.caseSensitive = o.caseSensitive
  nextId : o'.nextId = o.nextId + forestSize ds
  nodes : made.map NewObject.toTreeNode = forestLayout owner o.nextId ds
  old : ∀ x, x < o.nextId → o'.instances.get? x =
    (o.instances.get? x).map (Instance.adopting owner (siblingIds o.nextId ds) x)
  new : ∀ p ∈ made, o'.instances.get? p.id = some (p.stored o.fold)

/-- Gives a new object to its owner, if it has one. -/
def attach (o : Objects) (owner : Option ObjectId) (child : ObjectId) : Except Fault Objects :=
  match owner with
  | none => .ok o
  | some g => o.addChild g child

theorem FieldsSet.nil (id : ObjectId) (o : Objects) : FieldsSet id [] o o where
  frame := rfl
  instances x := by simp [setAll]

theorem FieldsSet.cons {o o₁ o' : Objects} {id : ObjectId} {name : String} {v : Value}
    {assigned : List (String × Value)} (hset : o.setField id name v = .ok o₁)
    (h : FieldsSet id assigned o₁ o') : FieldsSet id ((name, v) :: assigned) o o' := by
  obtain ⟨-, rfl⟩ := setField_eq_ok.mp hset
  refine ⟨?_, fun x => ?_⟩
  · rw [h.frame, update_frame]
  · rw [h.instances, get?_update]
    by_cases hx : x = id
    · subst hx
      rw [if_pos rfl, Option.map_map]
      simp [fold, setAll, caseSensitive_update, Function.comp_def]
    · simp [hx, Ne.symm hx]

theorem WellFormed.attach {o o' : Objects} (h : o.WellFormed) {owner : Option ObjectId}
    {child : ObjectId} (hok : o.attach owner child = .ok o') :
    o'.WellFormed ∧ o' = { o with instances := o'.instances } := by
  cases owner with
  | none =>
    cases hok
    exact ⟨h, rfl⟩
  | some g =>
    refine ⟨h.addChild hok, ?_⟩
    rcases h.addChild_cases hok with ⟨-, rfl⟩ | ⟨-, hframe, -⟩
    · rfl
    · exact hframe

/-- A new object is given to its owner and becomes its last child. -/
theorem WellFormed.attach_root {o o' : Objects} (h : o.WellFormed) {owner : Option ObjectId}
    {child : ObjectId} {c : Instance} (hc : o.instances.get? child = some c)
    (hroot : c.group = none) (hbelow : ∀ g, owner = some g → ∀ n, o.ownerAt n g ≠ some child)
    (hok : o.attach owner child = .ok o') :
    o'.instances.get? child = some { c with group := owner } ∧
    ∀ x, x ≠ child → o'.instances.get? x =
      (o.instances.get? x).map (Instance.adopting owner [child] x) := by
  cases owner with
  | none =>
    cases hok
    refine ⟨?_, fun x _ => ?_⟩
    · rw [hc, ← hroot]
    · simp [Instance.adopting_of_ne]
  | some g =>
    obtain ⟨-, hchild, hgroup, hothers⟩ := h.addChild_root hc hroot (hbelow g rfl) hok
    refine ⟨hchild, fun x hx => ?_⟩
    by_cases hg : x = g
    · subst hg
      obtain ⟨⟨i, hi⟩, -, -⟩ := addChild_eq_ok.mp hok
      rw [hgroup i hi, hi]
      simp [Instance.adopting]
    · have hother : some g ≠ some x := by simpa using Ne.symm hg
      rw [hothers x hx hg]
      simp [Instance.adopting_of_ne hother]

theorem Built.nil (owner : Option ObjectId) (o : Objects) : Built owner [] [] o o := by
  refine ⟨rfl, rfl, rfl, fun x _ => ?_, fun p hp => ?_⟩
  · simp [siblingIds]
  · cases hp

theorem Built.ids {owner : Option ObjectId} {ds : List ObjectDecl} {made : List NewObject}
    {o o' : Objects} (h : Built owner ds made o o') :
    made.map (fun p => p.id) = List.range' o.nextId (forestSize ds) := by
  rw [← ids_forestLayout owner, ← h.nodes, List.map_map]
  rfl

theorem Built.id_bounds {owner : Option ObjectId} {ds : List ObjectDecl} {made : List NewObject}
    {o o' : Objects} (h : Built owner ds made o o') {p : NewObject} (hp : p ∈ made) :
    o.nextId ≤ p.id ∧ p.id < o'.nextId := by
  have hmem : p.id ∈ made.map (fun p => p.id) := List.mem_map_of_mem hp
  rw [h.ids, List.mem_range'_1, ← h.nextId] at hmem
  exact hmem

theorem Built.get?_old {ds : List ObjectDecl} {made : List NewObject} {o o' : Objects}
    (h : Built none ds made o o') {x : ObjectId} (hx : x < o.nextId) :
    o'.instances.get? x = o.instances.get? x := by
  rw [h.old x hx]
  simp [Instance.adopting_of_ne]

theorem Built.mem_ids_iff {ds : List ObjectDecl} {made : List NewObject} {o o' : Objects}
    (h : Built none ds made o o') (ho : o.Registered) (ho' : o'.Registered) (x : ObjectId) :
    x ∈ made.map (fun p => p.id) ↔ o.contains x = false ∧ o'.contains x = true := by
  constructor
  · intro hx
    obtain ⟨p, hp, rfl⟩ := List.mem_map.mp hx
    simp [contains, Table.contains, ho.get?_of_le (h.id_bounds hp).1, h.new p hp]
  · intro hx
    obtain ⟨hnot, hthere⟩ := hx
    obtain ⟨i, hi⟩ := Option.isSome_iff_exists.mp hthere
    rw [h.ids, List.mem_range'_1, ← h.nextId]
    refine ⟨Nat.le_of_not_lt fun hlt => ?_, (ho'.numbered x i hi).2⟩
    rw [h.get?_old hlt] at hi
    simp [contains, Table.contains, hi] at hnot

/-- An object is made and its fields are set, then what is below it is built. -/
theorem Built.root {o o₁ o₂ o₃ : Objects} {c : String} {name : Option String} {id : ObjectId}
    (hmake : o.instantiate c name none false = .ok (id, o₁)) {assigned : List (String × Value)}
    (hfields : FieldsSet id assigned o₁ o₂) {d : ObjectDecl} {below : List NewObject}
    (hbelow : Built (some id) d.children below o₂ o₃) :
    Built none [d]
      (⟨⟨d, id, none, siblingIds (id + 1) d.children⟩, c, givenName name, assigned⟩ :: below)
      o o₃ := by
  obtain ⟨-, -, rfl, rfl⟩ := instantiate_eq_ok.mp hmake
  have hnext : o₂.nextId = o.nextId + 1 := by
    rw [hfields.frame]
    rfl
  have hcase : o₂.caseSensitive = o.caseSensitive := by
    rw [hfields.frame]
    rfl
  refine ⟨hbelow.caseSensitive.trans hcase, ?_, ?_, fun x hx => ?_, fun p hp => ?_⟩
  · rw [hbelow.nextId, hnext, forestSize, forestSize, d.size_eq]
    grind
  · rw [List.map_cons, hbelow.nodes, hnext, forestLayout_cons, forestLayout, List.append_nil]
  · have hne : x ≠ o.nextId := Nat.ne_of_lt hx
    have hother : some o.nextId ≠ some x := by simpa using hne.symm
    rw [hbelow.old x (by grind), hfields.instances, get?_created, if_neg (Ne.symm hne)]
    simp [Instance.adopting_of_ne, hother, hne]
  · rw [List.mem_cons] at hp
    rcases hp with rfl | hp
    · rw [hbelow.old o.nextId (by grind), hfields.instances, get?_created, if_pos rfl, hnext,
        Option.map_some, Option.map_some, if_pos rfl, Instance.adopting, if_pos rfl]
      rfl
    · rw [hbelow.new p hp, fold_congr hcase]

/-- The first object of a tree that has been built is given to its owner. -/
theorem Built.attach {o o' o'' : Objects} (ho : o.WellFormed) (ho' : o'.WellFormed)
    {owner : Option ObjectId} (howner : ∀ g, owner = some g → g < o.nextId) {d : ObjectDecl}
    {p : NewObject} {below : List NewObject} (h : Built none [d] (p :: below) o o')
    (hattach : o'.attach owner p.id = .ok o'') :
    Built owner [d] ({ p with owner := owner } :: below) o o'' := by
  have hnodes := h.nodes
  rw [List.map_cons, forestLayout_cons, forestLayout, List.append_nil] at hnodes
  obtain ⟨hp, hbelow⟩ := List.cons.inj hnodes
  have hid : p.id = o.nextId := congrArg TreeNode.id hp
  have hroot : p.owner = none := congrArg TreeNode.owner hp
  have hold : ∀ x, x < o.nextId → o'.instances.get? x = o.instances.get? x := fun x => h.get?_old
  obtain ⟨hgiven, hothers⟩ := ho'.attach_root (h.new p (List.mem_cons_self ..)) hroot
    (fun g hg => hid ▸ ho.ownerAt_ne_nextId hold (howner g hg)) hattach
  have hframe := (ho'.attach hattach).2
  refine ⟨?_, ?_, ?_, fun x hx => ?_, fun q hq => ?_⟩
  · rw [hframe]
    exact h.caseSensitive
  · rw [hframe]
    exact h.nextId
  · have hfirst := congrArg (fun s : TreeNode => { s with owner := owner }) hp
    rw [List.map_cons, hbelow, forestLayout_cons, forestLayout, List.append_nil]
    exact congrArg (· :: _) hfirst
  · rw [hothers x (hid ▸ Nat.ne_of_lt hx), hold x hx, hid]
    rfl
  · rw [List.mem_cons] at hq
    rcases hq with rfl | hq
    · exact hgiven
    · have hnode : q.toTreeNode ∈ forestLayout (some o.nextId) (o.nextId + 1) d.children := by
        rw [← hbelow]
        exact List.mem_map_of_mem hq
      have hbounds := id_mem_forestLayout hnode
      have hne : owner ≠ some q.id := fun hg => by
        have hlt := howner q.id hg
        grind
      rw [hothers q.id (by grind), h.new q (List.mem_cons_of_mem p hq), Instance.adopting_of_ne hne,
        Option.map_some]

/-- One more tree is built before others. -/
theorem Built.cons {o o' o'' : Objects} {owner : Option ObjectId}
    (howner : ∀ g, owner = some g → g < o.nextId) {d : ObjectDecl} {rest : List ObjectDecl}
    {made beside : List NewObject} (h : Built owner [d] made o o')
    (h' : Built owner rest beside o' o'') : Built owner (d :: rest) (made ++ beside) o o'' := by
  have hnext : o'.nextId = o.nextId + d.size := h.nextId
  refine ⟨h'.caseSensitive.trans h.caseSensitive, ?_, ?_, fun x hx => ?_, fun p hp => ?_⟩
  · rw [h'.nextId, hnext, forestSize, Nat.add_assoc]
  · rw [List.map_append, h.nodes, h'.nodes, hnext, ← d.layout_eq]
    rfl
  · rw [h'.old x (by grind), h.old x hx, Option.map_map, hnext]
    simp [Function.comp_def, Instance.adopting_append, siblingIds]
  · rw [List.mem_append] at hp
    rcases hp with hp | hp
    · obtain ⟨hle, hlt⟩ := h.id_bounds hp
      have hne : owner ≠ some p.id := fun hg => Nat.not_lt_of_le hle (howner p.id hg)
      rw [h'.old p.id hlt, h.new p hp, Instance.adopting_of_ne hne, Option.map_some]
    · rw [h'.new p hp, fold_congr h.caseSensitive]

end Objects

end TorqueScript
