import TorqueScript.Objects.Field
import TorqueScript.Proofs.Objects.Ownership

/-!
The condition that every operation on objects keeps: each object is stored under its own
number, the name index lists exactly the names of the objects that are there, and owners
and children form a forest.
-/

namespace TorqueScript.Objects

/-- Numbers and names are those of the objects that are there. -/
structure Registered (o : Objects) : Prop where
  positive : 1 ≤ o.nextId
  stored : ∀ id i, o.instances.get? id = some i → i.id = id
  numbered : ∀ id i, o.instances.get? id = some i → 1 ≤ id ∧ id < o.nextId
  named : ∀ n id, o.names.get? n = some id ↔
    ∃ i, o.instances.get? id = some i ∧ i.name.map o.fold = some n

structure WellFormed (o : Objects) : Prop extends Registered o, Forest o

theorem get?_update (o : Objects) (id : ObjectId) (f : Instance → Instance) (x : ObjectId) :
    (o.update id f).instances.get? x =
      if id = x then (o.instances.get? x).map f else o.instances.get? x := by
  unfold update
  split
  · rename_i i hi
    by_cases hx : id = x
    · subst hx
      simp [hi]
    · simp [Table.get?_insert, hx]
  · rename_i hi
    by_cases hx : id = x
    · subst hx
      simp [hi]
    · simp [hx]

/-- An update changes nothing but instances. -/
theorem update_frame (o : Objects) (id : ObjectId) (f : Instance → Instance) :
    o.update id f = { o with instances := (o.update id f).instances } := by
  unfold update
  split <;> rfl

theorem fold_congr {o o' : Objects} (hcase : o'.caseSensitive = o.caseSensitive) :
    o'.fold = o.fold := by
  funext n
  rw [fold, fold, hcase]

theorem Registered.congr {o o' : Objects} (h : o.Registered)
    (hcase : o'.caseSensitive = o.caseSensitive) (hnext : o'.nextId = o.nextId)
    (hnames : o'.names = o.names)
    (hsame : ∀ x, (o'.instances.get? x).map (fun i => (i.id, i.name)) =
      (o.instances.get? x).map fun i => (i.id, i.name)) : o'.Registered := by
  have hold : ∀ {x i}, o'.instances.get? x = some i →
      ∃ j, o.instances.get? x = some j ∧ j.id = i.id ∧ j.name = i.name := by
    intro x i hi
    have hx := hsame x
    rw [hi] at hx
    simpa using hx.symm
  have hnew : ∀ {x i}, o.instances.get? x = some i →
      ∃ j, o'.instances.get? x = some j ∧ j.id = i.id ∧ j.name = i.name := by
    intro x i hi
    have hx := hsame x
    rw [hi] at hx
    simpa using hx
  have hfold : o'.fold = o.fold := fold_congr hcase
  refine ⟨?_, ?_, ?_, ?_⟩
  · rw [hnext]
    exact h.positive
  · intro id i hi
    obtain ⟨j, hj, hid, -⟩ := hold hi
    rw [← hid]
    exact h.stored id j hj
  · intro id i hi
    obtain ⟨j, hj, -, -⟩ := hold hi
    rw [hnext]
    exact h.numbered id j hj
  · intro n id
    rw [hnames, h.named, hfold]
    constructor
    · intro hx
      obtain ⟨i, hi, hn⟩ := hx
      obtain ⟨j, hj, -, hname⟩ := hnew hi
      exact ⟨j, hj, by rw [hname, hn]⟩
    · intro hx
      obtain ⟨i, hi, hn⟩ := hx
      obtain ⟨j, hj, -, hname⟩ := hold hi
      exact ⟨j, hj, by rw [hname, hn]⟩

theorem Forest.congr {o o' : Objects} (h : o.Forest)
    (hsame : ∀ x, (o'.instances.get? x).map (fun i => (i.group, i.children)) =
      (o.instances.get? x).map fun i => (i.group, i.children)) : o'.Forest := by
  have hgroup : ∀ c, o'.groupOf c = o.groupOf c := by
    intro c
    have hc := congrArg (Option.bind · Prod.fst) (hsame c)
    simpa [groupOf, Option.bind_map, Function.comp_def] using hc
  have hchildren : ∀ g (P : List ObjectId → Prop),
      (∃ i, o'.instances.get? g = some i ∧ P i.children) ↔
        ∃ i, o.instances.get? g = some i ∧ P i.children := by
    intro g P
    have hg := congrArg (Option.map Prod.snd) (hsame g)
    cases h' : o'.instances.get? g <;> cases h₀ : o.instances.get? g <;> simp_all
  refine ⟨?_, ?_, ?_⟩
  · intro c g
    rw [hgroup, h.owned, hchildren g (c ∈ ·)]
  · intro g i hi
    obtain ⟨j, hj, heq⟩ := (hchildren g (· = i.children)).mp ⟨i, hi, rfl⟩
    rw [← heq]
    exact h.childrenNodup g j hj
  · intro n id hcycle
    exact h.acyclic n id (ownerAt_mono (fun c g hc => by rwa [← hgroup]) hcycle)

theorem WellFormed.registerClass {o : Objects} (h : o.WellFormed) (name : String)
    (parent : Option String) : (o.registerClass name parent).WellFormed where
  toRegistered := h.toRegistered.congr rfl rfl rfl fun _ => rfl
  toForest := h.toForest.congr fun _ => rfl

theorem bind_get_eq_ok {α : Type} {o : Objects} {id : ObjectId} {f : Instance → Except Fault α}
    {a : α} :
    (o.get id >>= f) = .ok a ↔ ∃ i, o.instances.get? id = some i ∧ f i = .ok a := by
  unfold get
  cases o.instances.get? id with
  | none => simp [bind, Except.bind]
  | some i => simp [bind, Except.bind]

theorem discard_get_eq_ok {α : Type} {o : Objects} {id : ObjectId} {f : Unit → Except Fault α}
    {a : α} :
    (discard (o.get id) >>= f) = .ok a ↔ (∃ i, o.instances.get? id = some i) ∧ f () = .ok a := by
  unfold get
  cases o.instances.get? id with
  | none =>
    change Except.error _ = Except.ok a ↔ _
    simp
  | some i =>
    change f () = Except.ok a ↔ _
    simp

theorem pure_eq_ok {α : Type} {a b : α} : (pure a : Except Fault α) = .ok b ↔ b = a := by
  simp [pure, Except.pure, eq_comm]

theorem setField_eq_ok {o o' : Objects} {id : ObjectId} {name : String} {v : Value} :
    o.setField id name v = .ok o' ↔ (∃ i, o.instances.get? id = some i) ∧
      o' = o.update id fun i => { i with fields := i.fields.insert (o.fold name) v } := by
  unfold setField
  rw [discard_get_eq_ok, pure_eq_ok]

theorem WellFormed.setField {o o' : Objects} (h : o.WellFormed) {id : ObjectId} {name : String}
    {v : Value} (hok : o.setField id name v = .ok o') : o'.WellFormed := by
  obtain ⟨-, rfl⟩ := setField_eq_ok.mp hok
  rw [update_frame]
  constructor
  · refine h.toRegistered.congr rfl rfl rfl fun x => ?_
    rw [get?_update]
    split <;> simp [Function.comp_def]
  · refine h.toForest.congr fun x => ?_
    rw [get?_update]
    split <;> simp [Function.comp_def]

/-- The name that an object is created with. An empty one counts as none. -/
def givenName (name : Option String) : Option String :=
  name.filter fun n => !n.isEmpty

/-- The registry with one more object. -/
def created (o : Objects) (className : String) (name : Option String)
    (parent : Option ObjectId) (isDatablock : Bool) : Objects :=
  { o with
    nextId := o.nextId + 1
    instances :=
      o.instances.insert o.nextId { id := o.nextId, name, className, isDatablock, parent }
    names := name.elim o.names fun n => o.names.insert (o.fold n) o.nextId
    retired := name.elim o.retired fun n => o.retired.filter (· ≠ o.fold n) }

theorem instantiate_eq_ok {o o' : Objects} {className : String} {name : Option String}
    {parent : Option ObjectId} {isDatablock : Bool} {id : ObjectId} :
    o.instantiate className name parent isDatablock = .ok (id, o') ↔
      (∀ n, givenName name = some n → o.names.contains (o.fold n) = false) ∧
      (∀ p, parent = some p → ∃ i, o.instances.get? p = some i) ∧
      id = o.nextId ∧ o' = o.created className (givenName name) parent isDatablock := by
  simp only [instantiate]
  rw [show name.filter (fun n => !n.isEmpty) = givenName name from rfl]
  cases givenName name with
  | none =>
    cases parent with
    | none => simp [pure_eq_ok, created]
    | some p =>
      simp only [discard_get_eq_ok, pure_eq_ok, created]
      simp
  | some n =>
    by_cases htaken : o.names.contains (o.fold n) = true
    · simp only [htaken, if_true]
      change Except.error _ = Except.ok _ ↔ _
      simp [htaken]
    · cases parent with
      | none => simp [htaken, pure_eq_ok, created]
      | some p =>
        simp only [if_neg htaken, discard_get_eq_ok, pure_eq_ok, created]
        simp [htaken]

theorem get?_created (o : Objects) (className : String) (name : Option String)
    (parent : Option ObjectId) (isDatablock : Bool) (x : ObjectId) :
    (o.created className name parent isDatablock).instances.get? x =
      if o.nextId = x then
        some { id := o.nextId, name, className, isDatablock, parent }
      else o.instances.get? x := by
  rw [created, Table.get?_insert]

theorem get?_names_created (o : Objects) (className : String) (name : Option String)
    (parent : Option ObjectId) (isDatablock : Bool) (n : String) :
    (o.created className name parent isDatablock).names.get? n =
      if name.map o.fold = some n then some o.nextId else o.names.get? n := by
  cases name with
  | none => simp [created]
  | some m => simp [created, Table.get?_insert]

theorem WellFormed.get?_nextId {o : Objects} (h : o.WellFormed) :
    o.instances.get? o.nextId = none := by
  cases hi : o.instances.get? o.nextId with
  | none => rfl
  | some i => exact absurd (h.numbered _ i hi).2 (Nat.lt_irrefl _)

theorem WellFormed.created {o : Objects} (h : o.WellFormed) {className : String}
    {name : Option String} {parent : Option ObjectId} {isDatablock : Bool}
    (hfree : ∀ n, name = some n → o.names.contains (o.fold n) = false) :
    (o.created className name parent isDatablock).WellFormed := by
  have hfold : (o.created className name parent isDatablock).fold = o.fold := rfl
  have hfresh := h.get?_nextId
  have hgroup : ∀ c, (o.created className name parent isDatablock).groupOf c = o.groupOf c := by
    intro c
    rw [groupOf, get?_created, groupOf]
    split
    · rename_i hc
      simp [← hc, hfresh]
    · rfl
  have hnotOwner : ∀ c, o.groupOf c ≠ some o.nextId := by
    intro c hc
    obtain ⟨i, hi, -⟩ := (h.owned c o.nextId).mp hc
    simp [hfresh] at hi
  refine ⟨⟨?_, ?_, ?_, ?_⟩, ⟨?_, ?_, ?_⟩⟩
  · exact Nat.le_add_left 1 o.nextId
  · intro id i hi
    rw [get?_created] at hi
    split at hi
    · cases hi
      assumption
    · exact h.stored id i hi
  · intro id i hi
    change 1 ≤ id ∧ id < o.nextId + 1
    rw [get?_created] at hi
    split at hi
    · rename_i hid
      rw [← hid]
      exact ⟨h.positive, Nat.lt_succ_self _⟩
    · obtain ⟨hpos, hlt⟩ := h.numbered id i hi
      exact ⟨hpos, Nat.lt_succ_of_lt hlt⟩
  · intro n id
    rw [get?_names_created, hfold]
    simp only [get?_created]
    by_cases hn : name.map o.fold = some n
    · -- The name was free, so the new object is the only one to have it.
      have hnone : o.names.get? n = none := by
        obtain ⟨m, hm, rfl⟩ := Option.map_eq_some_iff.mp hn
        simpa [Table.contains] using hfree m hm
      rw [if_pos hn]
      constructor
      · intro hid
        cases hid
        exact ⟨_, if_pos rfl, hn⟩
      · intro hid
        obtain ⟨i, hi, hname⟩ := hid
        split at hi
        · rename_i heq
          rw [heq]
        · have hindexed := (h.named n id).mpr ⟨i, hi, hname⟩
          simp [hnone] at hindexed
    · rw [if_neg hn, h.named]
      constructor
      · intro hid
        obtain ⟨i, hi, hname⟩ := hid
        have hne : o.nextId ≠ id := by
          intro heq
          subst heq
          simp [hfresh] at hi
        exact ⟨i, by rw [if_neg hne, hi], hname⟩
      · intro hid
        obtain ⟨i, hi, hname⟩ := hid
        split at hi
        · cases hi
          exact absurd hname hn
        · exact ⟨i, hi, hname⟩
  · intro c g
    rw [hgroup, h.owned]
    simp only [get?_created]
    by_cases hg : o.nextId = g
    · subst hg
      simp [hfresh]
    · simp [hg]
  · intro g i hi
    rw [get?_created] at hi
    split at hi
    · cases hi
      exact List.nodup_nil
    · exact h.childrenNodup g i hi
  · intro n id hcycle
    exact h.acyclic n id (ownerAt_mono (fun c g hc => by rwa [← hgroup]) hcycle)

theorem WellFormed.instantiate {o o' : Objects} (h : o.WellFormed) {className : String}
    {name : Option String} {parent : Option ObjectId} {isDatablock : Bool} {id : ObjectId}
    (hok : o.instantiate className name parent isDatablock = .ok (id, o')) : o'.WellFormed := by
  obtain ⟨hfree, -, -, rfl⟩ := instantiate_eq_ok.mp hok
  exact h.created hfree

theorem wellFormed_new (caseSensitive : Bool) : (new caseSensitive).WellFormed := by
  have hstart : ({ caseSensitive := caseSensitive } : Objects).WellFormed := by
    refine ⟨⟨Nat.le_refl 1, ?_, ?_, ?_⟩, ⟨?_, ?_, ?_⟩⟩
    · simp
    · simp
    · simp
    · simp [groupOf]
    · simp
    · simp [ownerAt, groupOf]
  have hclasses : ∀ (classes : List (String × Option String)) (o : Objects), o.WellFormed →
      (classes.foldl (fun o c => o.registerClass c.1 c.2) o).WellFormed := by
    intro classes
    induction classes with
    | nil => exact fun o h => h
    | cons c rest ih => exact fun o h => ih _ (h.registerClass c.1 c.2)
  exact hclasses standardClasses _ hstart

end TorqueScript.Objects
