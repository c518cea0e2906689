import TorqueScript.Proofs.Objects.History

/-!
Fields and the chain of parents they are inherited along. A parent is there before what
inherits from it and numbers are not used again, so every link leads to a smaller number:
the walk along the chain comes back to nothing and ends. What a field reads as is the value
in the first object of the chain that has one; writing to an object is seen exactly from
where it is that first object.
-/

namespace TorqueScript.Objects

def parentOf (o : Objects) (id : ObjectId) : Option ObjectId :=
  (o.instances.get? id).bind Instance.parent

/-- The object that lies a number of levels up the chain of parents, itself at level zero. The chain
ends where an object is gone. -/
def lineageAt (o : Objects) : Nat → ObjectId → Option Instance
  | 0, id => o.instances.get? id
  | n + 1, id => (o.parentOf id).bind (o.lineageAt n)

/-- The object `x` is the first up the chain of parents of `id` that has the key itself. -/
def Supplies (o : Objects) (key : String) (id x : ObjectId) : Prop :=
  ∃ n i v, o.lineageAt n id = some i ∧ i.id = x ∧ i.fields.get? key = some v ∧
    ∀ m j, m < n → o.lineageAt m id = some j → j.fields.get? key = none

/-- Every parent has a smaller number than the object that inherits from it. -/
def ParentsEarlier (o : Objects) : Prop :=
  ∀ id i p, o.instances.get? id = some i → i.parent = some p → p < id

/-- What is there in `o'` was there in `o`, with the same parent. -/
def SameParents (o o' : Objects) : Prop :=
  ∀ x i', o'.instances.get? x = some i' →
    ∃ i, o.instances.get? x = some i ∧ i.parent = i'.parent

namespace SameParents

variable {o o' : Objects}

theorem refl (o : Objects) : SameParents o o :=
  fun _ i hi => ⟨i, hi, rfl⟩

theorem of_view {f : ObjectId → Instance → Instance} (hf : ∀ x i, (f x i).parent = i.parent)
    (hview : ∀ x, o'.instances.get? x = (o.instances.get? x).map (f x)) : SameParents o o' := by
  intro x i' hi'
  rw [hview] at hi'
  obtain ⟨i, hi, rfl⟩ := Option.map_eq_some_iff.mp hi'
  exact ⟨i, hi, (hf x i).symm⟩

theorem setField {id : ObjectId} {name : String} {v : Value} (hok : o.setField id name v = .ok o') :
    SameParents o o' := by
  obtain ⟨-, rfl⟩ := setField_eq_ok.mp hok
  intro x i' hi'
  rw [get?_update] at hi'
  split at hi'
  · obtain ⟨i, hi, rfl⟩ := Option.map_eq_some_iff.mp hi'
    exact ⟨i, hi, rfl⟩
  · exact ⟨i', hi', rfl⟩

theorem addChild (h : o.WellFormed) {group child : ObjectId}
    (hok : o.addChild group child = .ok o') : SameParents o o' := by
  rcases h.addChild_cases hok with ⟨-, rfl⟩ | ⟨-, -, hview⟩
  · exact refl o'
  · exact of_view (f := fun x => relinked x child (some group)) (fun _ _ => rfl) hview

theorem removeChild (h : o.WellFormed) {group child : ObjectId}
    (hok : o.removeChild group child = .ok o') : SameParents o o' := by
  obtain ⟨i, -, rfl⟩ := removeChild_eq_ok.mp hok
  split
  · exact of_view (f := fun x => relinked x child none) (fun _ _ => rfl) (h.get?_detach child)
  · exact refl o

theorem delete (h : o.WellFormed) {id : ObjectId} (hok : o.delete id = .ok o') :
    SameParents o o' := by
  obtain ⟨gone, hgone, -, -⟩ := h.removed_delete hok
  intro x i' hi'
  obtain ⟨-, i, hi, rfl⟩ := hgone.exists_of_get? hi'
  exact ⟨i, hi, rfl⟩

end SameParents

namespace ParentsEarlier

variable {o o' : Objects}

theorem of_sameParents (h : o.ParentsEarlier) (hsame : SameParents o o') : o'.ParentsEarlier := by
  intro id i' p hi' hp
  obtain ⟨i, hi, hparent⟩ := hsame id i' hi'
  exact h id i p hi (hparent.trans hp)

theorem created (h : o.ParentsEarlier) (ho : o.WellFormed) {parent : Option ObjectId}
    (hlive : ∀ p, parent = some p → ∃ i, o.instances.get? p = some i) (className : String)
    (name : Option String) (isDatablock : Bool) :
    (o.created className name parent isDatablock).ParentsEarlier := by
  intro id i p hi hp
  rw [get?_created] at hi
  split at hi
  · rename_i hid
    cases hi
    obtain ⟨j, hj⟩ := hlive p hp
    rw [← hid]
    exact (ho.numbered p j hj).2
  · exact h id i p hi hp

theorem apply (h : o.ParentsEarlier) (ho : o.WellFormed) {op : Operation}
    (hok : o.apply op = .ok o') : o'.ParentsEarlier := by
  cases op with
  | registerClass name parent =>
    cases hok
    exact h
  | instantiate className name parent isDatablock =>
    cases hmade : o.instantiate className name parent isDatablock with
    | error fault => simp [Objects.apply, hmade, Except.map] at hok
    | ok made =>
      obtain rfl : made.2 = o' := by simpa [Objects.apply, hmade, Except.map] using hok
      obtain ⟨-, hlive, -, hcreated⟩ := instantiate_eq_ok.mp hmade
      rw [hcreated]
      exact h.created ho hlive className _ isDatablock
  | setField id name value => exact h.of_sameParents (.setField hok)
  | addChild group child => exact h.of_sameParents (.addChild ho hok)
  | removeChild group child => exact h.of_sameParents (.removeChild ho hok)
  | delete id => exact h.of_sameParents (.delete ho hok)

theorem step (h : o.ParentsEarlier) (ho : o.WellFormed) (op : Operation) :
    (o.step op).ParentsEarlier := by
  unfold Objects.step
  split
  · rename_i o' hok
    exact h.apply ho hok
  · exact h

theorem run (h : o.ParentsEarlier) (ho : o.WellFormed) (ops : List Operation) :
    (o.run ops).ParentsEarlier := by
  induction ops generalizing o with
  | nil => exact h
  | cons op rest ih => exact ih (h.step ho op) (ho.step op)

end ParentsEarlier

theorem parentOf_eq {o : Objects} {id : ObjectId} {i : Instance}
    (hi : o.instances.get? id = some i) : o.parentOf id = i.parent := by
  simp [parentOf, hi]

theorem exists_of_parentOf {o : Objects} {id p : ObjectId} (h : o.parentOf id = some p) :
    ∃ i, o.instances.get? id = some i ∧ i.parent = some p :=
  Option.bind_eq_some_iff.mp h

theorem lineageAt_succ_of {o : Objects} {id p : ObjectId} {i : Instance}
    (hi : o.instances.get? id = some i) (hp : i.parent = some p) (n : Nat) :
    o.lineageAt (n + 1) id = o.lineageAt n p := by
  rw [lineageAt, parentOf_eq hi, hp]
  rfl

theorem exists_lineageAt_of_add {o : Objects} (m d : Nat) {id : ObjectId} {j : Instance}
    (h : o.lineageAt (m + d) id = some j) : ∃ i, o.lineageAt m id = some i := by
  induction m generalizing id with
  | zero =>
    cases d with
    | zero => exact ⟨j, h⟩
    | succ d =>
      rw [Nat.zero_add] at h
      obtain ⟨p, hp, -⟩ := Option.bind_eq_some_iff.mp h
      obtain ⟨i, hi, -⟩ := exists_of_parentOf hp
      exact ⟨i, hi⟩
  | succ m ih =>
    rw [Nat.succ_add] at h
    obtain ⟨p, hp, hrest⟩ := Option.bind_eq_some_iff.mp h
    obtain ⟨i, hi⟩ := ih hrest
    refine ⟨i, ?_⟩
    rw [lineageAt, hp]
    exact hi

section Chain

variable {o : Objects} (h : o.Registered) (hearlier : o.ParentsEarlier)

include h hearlier

end Chain

/-- The walk up the chain of parents of an object ends with a value. -/
inductive Answers (o : Objects) (key : String) : ObjectId → Value → Prop
  | own {id : ObjectId} {i : Instance} {v : Value} :
      o.instances.get? id = some i → i.fields.get? key = some v → Answers o key id v
  | top {id : ObjectId} {i : Instance} :
      o.instances.get? id = some i → i.fields.get? key = none →
      (∀ p, i.parent = some p → o.instances.get? p = none) → Answers o key id .undefined
  | inherited {id p : ObjectId} {i : Instance} {v : Value} :
      o.instances.get? id = some i → i.fields.get? key = none → i.parent = some p →
      Answers o key p v → Answers o key id v

theorem Answers.exists_get? {o : Objects} {key : String} {id : ObjectId} {v : Value}
    (h : Answers o key id v) : ∃ i, o.instances.get? id = some i := by
  cases h with
  | own hi _ => exact ⟨_, hi⟩
  | top hi _ _ => exact ⟨_, hi⟩
  | inherited hi _ _ _ => exact ⟨_, hi⟩

theorem Answers.unique {o : Objects} {key : String} {id : ObjectId} {v w : Value}
    (h : Answers o key id v) (h' : Answers o key id w) : v = w := by
  induction h with
  | own hi hv => cases h' <;> simp_all
  | top hi hnone hgone =>
    cases h' with
    | own hi' hv => simp_all
    | top _ _ _ => rfl
    | inherited hi' _ hp hrest =>
      obtain ⟨j, hj⟩ := hrest.exists_get?
      rw [hi] at hi'
      cases hi'
      rw [hgone _ hp] at hj
      cases hj
  | inherited hi hnone hp hparent ih =>
    cases h' with
    | own hi' hv => simp_all
    | top hi' _ hgone =>
      obtain ⟨j, hj⟩ := hparent.exists_get?
      rw [hi] at hi'
      cases hi'
      rw [hgone _ hp] at hj
      cases hj
    | inherited hi' _ hp' hrest =>
      rw [hi] at hi'
      cases hi'
      rw [hp] at hp'
      cases hp'
      exact ih hrest

section Supplier

variable {o : Objects} {key : String} {id x : ObjectId} {i : Instance}
  (hi : o.instances.get? id = some i)

include hi

theorem supplies_own (h : o.Registered) {v : Value} (hv : i.fields.get? key = some v) :
    o.Supplies key id x ↔ id = x := by
  constructor
  · intro hx
    obtain ⟨n, j, w, hn, hid, -, hbefore⟩ := hx
    cases n with
    | zero =>
      rw [lineageAt, hi] at hn
      cases hn
      rw [← hid, h.stored id i hi]
    | succ n =>
      have hnone := hbefore 0 i (Nat.succ_pos n) hi
      rw [hv] at hnone
      cases hnone
  · intro hx
    exact ⟨0, i, v, hi, (h.stored id i hi).trans hx, hv,
      fun m j hm => absurd hm (Nat.not_lt_zero m)⟩

theorem supplies_inherited {p : ObjectId} (hnone : i.fields.get? key = none)
    (hp : i.parent = some p) : o.Supplies key id x ↔ o.Supplies key p x := by
  constructor
  · intro hx
    obtain ⟨n, j, v, hn, hid, hv, hbefore⟩ := hx
    cases n with
    | zero =>
      rw [lineageAt, hi] at hn
      cases hn
      rw [hnone] at hv
      cases hv
    | succ n =>
      rw [lineageAt_succ_of hi hp] at hn
      refine ⟨n, j, v, hn, hid, hv, fun m k hm hk => ?_⟩
      exact hbefore (m + 1) k (by omega) (by rw [lineageAt_succ_of hi hp, hk])
  · intro hx
    obtain ⟨n, j, v, hn, hid, hv, hbefore⟩ := hx
    refine ⟨n + 1, j, v, by rw [lineageAt_succ_of hi hp, hn], hid, hv, fun m k hm hk => ?_⟩
    cases m with
    | zero =>
      rw [lineageAt, hi] at hk
      cases hk
      exact hnone
    | succ m =>
      rw [lineageAt_succ_of hi hp] at hk
      exact hbefore m k (by omega) hk

theorem not_supplies_top (hnone : i.fields.get? key = none)
    (hgone : ∀ p, i.parent = some p → o.instances.get? p = none) : ¬ o.Supplies key id x := by
  intro hx
  obtain ⟨n, j, v, hn, -, hv, -⟩ := hx
  cases n with
  | zero =>
    rw [lineageAt, hi] at hn
    cases hn
    rw [hnone] at hv
    cases hv
  | succ n =>
    obtain ⟨p, hp, hrest⟩ := Option.bind_eq_some_iff.mp hn
    rw [parentOf_eq hi] at hp
    obtain ⟨k, hk⟩ := exists_lineageAt_of_add 0 n (by rwa [Nat.zero_add])
    rw [lineageAt, hgone p hp] at hk
    cases hk

end Supplier

theorem Supplies.unique {o : Objects} {key : String} {id x y : ObjectId} (hx : o.Supplies key id x)
    (hy : o.Supplies key id y) : x = y := by
  obtain ⟨m, i, v, hm, rfl, hv, hbeforeI⟩ := hx
  obtain ⟨n, j, w, hn, rfl, hw, hbeforeJ⟩ := hy
  rcases Nat.lt_trichotomy m n with hlt | heq | hgt
  · have hnone := hbeforeJ m i hlt hm
    rw [hv] at hnone
    cases hnone
  · subst heq
    rw [hm] at hn
    cases hn
    rfl
  · have hnone := hbeforeI n j hgt hn
    rw [hw] at hnone
    cases hnone

/-- What a write does to one object: under the key of the field it has the new value, if it is the
one written to; its number and its parent stay. -/
theorem get?_setField {o o' : Objects} {id : ObjectId} {name : String} {v : Value}
    (hok : o.setField id name v = .ok o') {x : ObjectId} {i : Instance}
    (hi : o.instances.get? x = some i) (key : String) :
    ∃ i', o'.instances.get? x = some i' ∧ i'.id = i.id ∧ i'.parent = i.parent ∧
      i'.fields.get? key = if id = x ∧ o.fold name = key then some v else i.fields.get? key := by
  obtain ⟨-, rfl⟩ := setField_eq_ok.mp hok
  rw [get?_update, hi]
  by_cases hx : id = x
  · rw [if_pos hx]
    exact ⟨_, rfl, rfl, rfl, by simp [hx, Table.get?_insert]⟩
  · rw [if_neg hx]
    exact ⟨i, rfl, rfl, rfl, by simp [hx]⟩

theorem get?_setField_none {o o' : Objects} {id : ObjectId} {name : String} {v : Value}
    (hok : o.setField id name v = .ok o') {x : ObjectId} (hx : o.instances.get? x = none) :
    o'.instances.get? x = none := by
  obtain ⟨-, rfl⟩ := setField_eq_ok.mp hok
  rw [get?_update, hx]
  simp

/-- The object written to supplies the new value itself. -/
theorem answers_written {o o' : Objects} (h' : o'.Registered) {id : ObjectId} {name : String}
    {v : Value} (hok : o.setField id name v = .ok o') :
    Answers o' (o.fold name) id v ∧ o'.Supplies (o.fold name) id id := by
  obtain ⟨⟨i, hi⟩, -⟩ := setField_eq_ok.mp hok
  obtain ⟨i', hi', -, -, hfield⟩ := get?_setField hok hi (o.fold name)
  rw [if_pos ⟨rfl, rfl⟩] at hfield
  exact ⟨.own hi' hfield, (supplies_own hi' h' hfield).mpr rfl⟩

/-- After a write the answer is the new value where the object written to supplies it, and is the
old one everywhere else. -/
theorem Answers.setField {o o' : Objects} (h' : o'.Registered) {id : ObjectId} {name : String}
    {v : Value} (hok : o.setField id name v = .ok o') {key : String} {x : ObjectId} {w : Value}
    (hanswer : Answers o key x w) :
    (o.fold name = key ∧ o'.Supplies key x id → Answers o' key x v) ∧
      (¬ (o.fold name = key ∧ o'.Supplies key x id) → Answers o' key x w) := by
  induction hanswer with
  | @own x i w hi hw =>
    obtain ⟨i', hi', -, -, hfield⟩ := get?_setField hok hi key
    by_cases hwritten : id = x ∧ o.fold name = key
    · obtain ⟨rfl, rfl⟩ := hwritten
      obtain ⟨hnew, hsupplies⟩ := answers_written h' hok
      exact ⟨fun _ => hnew, fun hnot => absurd ⟨rfl, hsupplies⟩ hnot⟩
    · rw [if_neg hwritten, hw] at hfield
      refine ⟨fun hx => ?_, fun _ => .own hi' hfield⟩
      exact absurd ⟨((supplies_own hi' h' hfield).mp hx.2).symm, hx.1⟩ hwritten
  | @top x i hi hnone hgone =>
    obtain ⟨i', hi', -, hparent, hfield⟩ := get?_setField hok hi key
    by_cases hwritten : id = x ∧ o.fold name = key
    · obtain ⟨rfl, rfl⟩ := hwritten
      obtain ⟨hnew, hsupplies⟩ := answers_written h' hok
      exact ⟨fun _ => hnew, fun hnot => absurd ⟨rfl, hsupplies⟩ hnot⟩
    · rw [if_neg hwritten, hnone] at hfield
      have hgone' : ∀ p, i'.parent = some p → o'.instances.get? p = none := by
        intro p hp
        exact get?_setField_none hok (hgone p (by rw [← hparent, hp]))
      refine ⟨fun hx => ?_, fun _ => .top hi' hfield hgone'⟩
      exact absurd hx.2 (not_supplies_top hi' hfield hgone')
  | @inherited x p i w hi hnone hp _ ih =>
    obtain ⟨i', hi', -, hparent, hfield⟩ := get?_setField hok hi key
    by_cases hwritten : id = x ∧ o.fold name = key
    · obtain ⟨rfl, rfl⟩ := hwritten
      obtain ⟨hnew, hsupplies⟩ := answers_written h' hok
      exact ⟨fun _ => hnew, fun hnot => absurd ⟨rfl, hsupplies⟩ hnot⟩
    · rw [if_neg hwritten, hnone] at hfield
      have hp' : i'.parent = some p := by rw [hparent, hp]
      rw [supplies_inherited hi' hfield hp']
      exact ⟨fun hx => .inherited hi' hfield hp' (ih.1 hx),
        fun hnot => .inherited hi' hfield hp' (ih.2 hnot)⟩

section Lookups

variable {o o' : Objects} (ho : o.WellFormed) (hearlier : o.ParentsEarlier)

include ho hearlier

end Lookups

-- What 3 lacks comes from 1, then from 2 once that has it, and from nowhere when 2 is gone.
example :
    let o := (new false).run
      [.instantiate "ItemData" (some "Item") none true,
        .instantiate "ItemData" (some "Weapon") (some 1) true,
        .instantiate "ItemData" (some "Sword") (some 2) true, .setField 1 "Color" (.text "red")]
    let o' := o.run [.setField 2 "COLOR" (.text "blue")]
    let text := fun (o : Objects) id => (o.field id "color").map Value.toText
    text o 3 = .ok "red" ∧ text o' 3 = .ok "blue" ∧ text o' 1 = .ok "red" ∧
      text (o'.run [.delete 2]) 3 = .ok "" := by
  decide

end TorqueScript.Objects
