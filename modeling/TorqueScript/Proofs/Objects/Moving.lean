import TorqueScript.Proofs.Objects.WellFormed

/-!
Objects that change their owner. To give an object an owner and to take it from its owner
are one change of the links, which leaves a forest as long as nothing is moved below
itself.
-/

namespace TorqueScript.Objects

/-- What becomes of the object with number `x` when `child` gets a new owner, or none. -/
def relinked (x child : ObjectId) (owner : Option ObjectId)
    (i : Instance) : Instance :=
  { i with
    group := if x = child then owner else i.group
    children := i.children.filter (· ≠ child) ++ if owner = some x then [child] else [] }

theorem relinked_none (x child : ObjectId) (i : Instance) :
    relinked x child none i =
      { i with
        group := if x = child then none else i.group
        children := i.children.filter (· ≠ child) } := by
  simp [relinked]

theorem Registered.relink {o o' : Objects} (h : o.Registered) {child : ObjectId}
    {owner : Option ObjectId} (hframe : o' = { o with instances := o'.instances })
    (hview : ∀ x, o'.instances.get? x = (o.instances.get? x).map (relinked x child owner)) :
    o'.Registered := by
  refine h.congr ?_ ?_ ?_ fun x => ?_
  · rw [hframe]
  · rw [hframe]
  · rw [hframe]
  · rw [hview]
    simp [Function.comp_def, relinked]

/-- Owners and children stay a forest when an object is moved, unless it is moved below itself. -/
theorem Forest.relink {o o' : Objects} (h : o.Forest) {child : ObjectId}
    {owner : Option ObjectId} (hlive : ∃ i, o.instances.get? child = some i)
    (howner : ∀ g, owner = some g →
      (∃ i, o.instances.get? g = some i) ∧ ∀ n, o.ownerAt n g ≠ some child)
    (hview : ∀ x, o'.instances.get? x = (o.instances.get? x).map (relinked x child owner)) :
    o'.Forest := by
  have hchild : o'.groupOf child = owner := by
    obtain ⟨i, hi⟩ := hlive
    simp [groupOf, hview, hi, relinked]
  have hother : ∀ x, x ≠ child → o'.groupOf x = o.groupOf x := by
    intro x hx
    cases hi : o.instances.get? x <;> simp [groupOf, hview, hi, relinked, hx]
  refine ⟨?_, ?_, ?_⟩
  · intro c g
    have hmem : (∃ i, o'.instances.get? g = some i ∧ c ∈ i.children) ↔
        ∃ i, o.instances.get? g = some i ∧
          (c ∈ i.children ∧ c ≠ child ∨ owner = some g ∧ c = child) := by
      rw [hview]
      cases hi : o.instances.get? g with
      | none => simp
      | some i => by_cases ho : owner = some g <;> simp [relinked, ho]
    rw [hmem]
    by_cases hc : c = child
    · subst hc
      rw [hchild]
      constructor
      · intro ho
        obtain ⟨i, hi⟩ := (howner g ho).1
        exact ⟨i, hi, Or.inr ⟨ho, rfl⟩⟩
      · intro hx
        obtain ⟨i, -, hne | ho⟩ := hx
        · exact absurd rfl hne.2
        · exact ho.1
    · rw [hother c hc, h.owned]
      simp [hc]
  · intro g i' hi'
    rw [hview] at hi'
    obtain ⟨i, hi, rfl⟩ := Option.map_eq_some_iff.mp hi'
    have hkept := (h.childrenNodup g i hi).filter (fun c => decide (c ≠ child))
    simp only [relinked]
    split
    · rw [List.nodup_append]
      refine ⟨hkept, by simp, ?_⟩
      intro a ha b hb
      rw [List.mem_singleton.mp hb]
      simpa using (List.mem_filter.mp ha).2
    · simpa using hkept
  · refine acyclic_of_link hother ?_ h.acyclic
    intro g hg
    rw [hchild] at hg
    exact (howner g hg).2

theorem detach_frame (o : Objects) (child : ObjectId) :
    o.detach child = { o with instances := (o.detach child).instances } := by
  unfold detach
  split
  · rfl
  · rw [update_frame, update_frame]

theorem Forest.get?_detach {o : Objects} (h : o.Forest) (child x : ObjectId) :
    (o.detach child).instances.get? x = (o.instances.get? x).map (relinked x child none) := by
  -- No list but that of the owner holds the child, so the others may be filtered too.
  have hfilter : ∀ i, o.instances.get? x = some i → o.groupOf child ≠ some x →
      i.children.filter (· ≠ child) = i.children := by
    intro i hi hne
    rw [List.filter_eq_self]
    intro c hc
    have hcne : c ≠ child := by
      intro heq
      subst heq
      exact hne ((h.owned c x).mpr ⟨i, hi, hc⟩)
    simpa using hcne
  cases hi : o.instances.get? x with
  | none =>
    unfold detach
    split
    · simpa using hi
    · simp [get?_update, hi]
  | some i =>
    cases hg : o.groupOf child with
    | none =>
      have hsame := hfilter i hi (by simp [hg])
      have hgroup : x = child → i.group = none := by
        intro heq
        subst heq
        rw [← groupOf_eq hi, hg]
      have hrelink : relinked x child none i = i := by
        rw [relinked_none, hsame]
        split
        · rename_i hx
          rw [← hgroup hx]
        · rfl
      simp [detach, hg, hi, hrelink]
    | some g =>
      simp only [detach, hg, get?_update, hi, Option.map_some, relinked_none]
      by_cases hgx : g = x
      · by_cases hx : x = child
        · simp [hgx, hx]
        · simp [hgx, hx, Ne.symm hx]
      · have hsame := hfilter i hi (by simp [hg, hgx])
        rw [hsame]
        by_cases hx : x = child
        · subst hx
          simp [hgx]
        · simp [hgx, hx, Ne.symm hx]

theorem WellFormed.detach {o : Objects} (h : o.WellFormed) {child : ObjectId}
    (hlive : ∃ i, o.instances.get? child = some i) : (o.detach child).WellFormed where
  toRegistered := h.toRegistered.relink (detach_frame o child) (h.get?_detach child)
  toForest := h.toForest.relink hlive (by simp) (h.get?_detach child)

theorem addChild_eq_ok {o o' : Objects} {group child : ObjectId} :
    o.addChild group child = .ok o' ↔ (∃ i, o.instances.get? group = some i) ∧
      (∃ i, o.instances.get? child = some i) ∧
      o' = if group = child ∨ o.isAncestor child group = true then o
        else ((o.detach child).update group fun i =>
          { i with children := i.children ++ [child] }).update child fun i =>
            { i with group := some group } := by
  unfold addChild
  rw [discard_get_eq_ok, discard_get_eq_ok]
  by_cases h : group = child ∨ o.isAncestor child group = true
  · simp [h, pure_eq_ok]
  · simp [h, pure_eq_ok]

theorem removeChild_eq_ok {o o' : Objects} {group child : ObjectId} :
    o.removeChild group child = .ok o' ↔ ∃ i, o.instances.get? child = some i ∧
      o' = if i.group = some group then o.detach child else o := by
  unfold removeChild
  simp only [bind_get_eq_ok, pure_eq_ok]

theorem WellFormed.removeChild {o o' : Objects} (h : o.WellFormed) {group child : ObjectId}
    (hok : o.removeChild group child = .ok o') : o'.WellFormed := by
  obtain ⟨i, hi, rfl⟩ := removeChild_eq_ok.mp hok
  split
  · exact h.detach ⟨i, hi⟩
  · exact h

/-- To own an object that owns it is refused; otherwise the child gets its new owner. -/
theorem WellFormed.addChild_cases {o o' : Objects} (h : o.WellFormed) {group child : ObjectId}
    (hok : o.addChild group child = .ok o') :
    (∃ n, o.ownerAt n group = some child) ∧ o' = o ∨
    (∀ n, o.ownerAt n group ≠ some child) ∧ o' = { o with instances := o'.instances } ∧
      ∀ x, o'.instances.get? x = (o.instances.get? x).map (relinked x child (some group)) := by
  obtain ⟨-, -, hdone⟩ := addChild_eq_ok.mp hok
  -- The refusal covers every level of owners above the group, the group itself included.
  have hrefused : (group = child ∨ o.isAncestor child group = true) ↔
      ∃ n, o.ownerAt n group = some child := by
    rw [h.isAncestor_iff]
    constructor
    · rintro (rfl | ⟨n, hn⟩)
      · exact ⟨0, rfl⟩
      · exact ⟨n + 1, hn⟩
    · rintro ⟨n, hn⟩
      cases n with
      | zero => exact Or.inl (Option.some.inj hn)
      | succ n => exact Or.inr ⟨n, hn⟩
  by_cases habove : group = child ∨ o.isAncestor child group = true
  · rw [if_pos habove] at hdone
    exact Or.inl ⟨hrefused.mp habove, hdone⟩
  · rw [if_neg habove] at hdone
    subst hdone
    have hbelow : ∀ n, o.ownerAt n group ≠ some child := fun n hn => habove (hrefused.mpr ⟨n, hn⟩)
    have hne : group ≠ child := fun heq => hbelow 0 (by rw [heq]; rfl)
    refine Or.inr ⟨hbelow, ?_, fun x => ?_⟩
    · rw [update_frame, update_frame, detach_frame]
    · rw [get?_update, get?_update, h.get?_detach]
      cases o.instances.get? x with
      | none => simp
      | some i =>
        by_cases hx : x = child
        · subst hx
          simp [relinked, hne]
        · by_cases hg : x = group
          · subst hg
            simp [relinked, hx, Ne.symm hx]
          · simp [relinked, hx, Ne.symm hx, Ne.symm hg]

theorem WellFormed.addChild {o o' : Objects} (h : o.WellFormed) {group child : ObjectId}
    (hok : o.addChild group child = .ok o') : o'.WellFormed := by
  obtain ⟨hgroup, hchild, -⟩ := addChild_eq_ok.mp hok
  rcases h.addChild_cases hok with ⟨-, rfl⟩ | ⟨hbelow, hframe, hview⟩
  · exact h
  · refine ⟨h.toRegistered.relink hframe hview, h.toForest.relink hchild ?_ hview⟩
    intro g hg
    cases hg
    exact ⟨hgroup, hbelow⟩

end TorqueScript.Objects
