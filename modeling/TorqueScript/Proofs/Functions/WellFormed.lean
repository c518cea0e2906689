import TorqueScript.Proofs.Functions.Effects

/-!
The condition that ties stacks, packages and the active list together, and that every
operation keeps: apart from its base, a stack holds one entry for each active package
that declares the key, with the body the package has for it.
-/

namespace TorqueScript.Functions

open Entry

variable {β : Type}

theorem mem_active_of_override? {r : Functions β} {package : String} {k : FunctionKey}
    (h : (r.override? package k).isSome) : package ∈ r.active := by
  by_contra hin
  simp [override?, hin] at h

structure WellFormed (r : Functions β) : Prop where
  noEmptyStack : r.NoEmptyStack
  baseFirst : ∀ k, BaseFirst (r.stack k)
  overrides : ∀ package k, ownedBy (some package) (r.stack k) =
    (r.override? package k).toList.map (Entry.mk (some package))
  activeNodup : r.active.Nodup
  distinctPackages : r.DistinctPackages

namespace WellFormed

variable {r : Functions β}

theorem length_ownedBy_le (h : r.WellFormed) (package : String) (k : FunctionKey) :
    (ownedBy (some package) (r.stack k)).length ≤ 1 := by
  rw [h.overrides]
  cases r.override? package k <;> simp

theorem ownedBy_inactive (h : r.WellFormed) {package : String} (hin : package ∉ r.active)
    (k : FunctionKey) : ownedBy (some package) (r.stack k) = [] := by
  rw [h.overrides, override?, if_neg hin]
  rfl

theorem mem_owners_iff (h : r.WellFormed) (package : String) (k : FunctionKey) :
    package ∈ owners (r.stack k) ↔ (r.override? package k).isSome := by
  rw [mem_owners, h.overrides]
  cases r.override? package k <;> simp

theorem define (h : r.WellFormed) (k : FunctionKey) (body : β) :
    (r.define k body).WellFormed where
  noEmptyStack := noEmptyStack_define h.noEmptyStack k body
  baseFirst other := by
    rw [stack_define]
    split
    · exact baseFirst_setBase (h.baseFirst other) body
    · exact h.baseFirst other
  overrides package other := by
    have hsame : (r.define k body).override? package other = r.override? package other := rfl
    rw [hsame, stack_define, ← h.overrides]
    split
    · simp [ownedBy_setBase (h.baseFirst other)]
    · rfl
  activeNodup := h.activeNodup
  distinctPackages := h.distinctPackages

theorem declare (h : r.WellFormed) (name : String) (ds : List (FunctionKey × β)) :
    (r.declare name ds).WellFormed where
  noEmptyStack := noEmptyStack_declare h.noEmptyStack name ds
  baseFirst k := by
    rw [stack_declare]
    split
    · exact baseFirst_place (h.baseFirst k) _ _
    · exact h.baseFirst k
  overrides package k := by
    have hold := h.overrides package k
    rw [override?] at hold
    rw [override?, active_declare, stack_declare, declared?_declare]
    by_cases hp : r.fold name = package
    · subst hp
      by_cases ha : r.fold name ∈ r.active
      · rw [if_pos ha] at hold
        rw [if_pos ha, if_pos ha, if_pos rfl,
          ownedBy_place (h.length_ownedBy_le _ k), if_pos rfl, hold]
        cases (bodiesAt k ds).getLast? <;> rfl
      · simpa [ha] using hold
    · split
      · rw [ownedBy_place (h.length_ownedBy_le _ k), hold]
        simp [Ne.symm hp]
      · simpa [hp] using hold
  activeNodup := by simpa using h.activeNodup
  distinctPackages := distinctPackages_declare h.distinctPackages name ds

theorem activate (h : r.WellFormed) {name : String} {r' : Functions β}
    (hok : r.activate name = .ok r') : r'.WellFormed := by
  by_cases ha : r.fold name ∈ r.active
  · rw [activate_active ha] at hok
    cases hok
    exact h
  cases hknown : r.packages.get? (r.fold name) with
  | none =>
    rw [activate_unknown ha hknown] at hok
    cases hok
  | some known =>
    obtain ⟨raised, hraised, hstack, hactive, hpackages, -, hnoEmpty⟩ := activate_known ha hknown
    rw [hraised] at hok
    cases hok
    have hdeclared : ∀ package k, r'.declared? package k = r.declared? package k := by
      intro package k
      rw [declared?, hpackages, declared?]
    refine ⟨hnoEmpty h.noEmptyStack, fun k => ?_, fun package k => ?_, ?_, ?_⟩
    · rw [hstack]
      exact baseFirst_place (h.baseFirst k) _ _
    · rw [hstack, ownedBy_place (h.length_ownedBy_le _ k), override?, hactive, hdeclared,
        h.overrides, override?, bodiesAt_entries (h.distinctPackages _ _ hknown)]
      by_cases hp : package = r.fold name
      · subst hp
        have hbody : r.declared? (r.fold name) k = known.get? k := by simp [declared?, hknown]
        rw [hbody]
        cases known.get? k <;> simp [ha]
      · simp [hp]
    · rw [hactive, List.nodup_append]
      refine ⟨h.activeNodup, by simp, ?_⟩
      intro a hmem b hb heq
      rw [heq, List.mem_singleton.mp hb] at hmem
      exact ha hmem
    · intro package known' hknown'
      exact h.distinctPackages package known' (hpackages ▸ hknown')

/-- Deactivation takes the package off every stack, not only off those it is asked to visit. -/
theorem stack_deactivate (h : r.WellFormed) (name : String) (k : FunctionKey) :
    (r.deactivate name).stack k = dropPackage (r.fold name) (r.stack k) := by
  by_cases ha : r.fold name ∈ r.active
  · rw [(deactivate_active ha).1 k]
    split
    · rfl
    · rename_i hkey
      have hnone : r.declared? (r.fold name) k = none := by
        rw [declared?]
        cases hknown : r.packages.get? (r.fold name) with
        | none => rfl
        | some known =>
          rw [hknown] at hkey
          cases hbody : known.get? k with
          | none => simp [hbody]
          | some b => exact absurd (Table.mem_keys_of_get? hbody) hkey
      rw [dropPackage_eq_self]
      rw [h.overrides, override?, if_pos ha, hnone]
      rfl
  · rw [deactivate_inactive ha, dropPackage_eq_self (h.ownedBy_inactive ha k)]

theorem deactivate (h : r.WellFormed) (name : String) : (r.deactivate name).WellFormed where
  noEmptyStack := noEmptyStack_deactivate h.noEmptyStack name
  baseFirst k := by
    rw [h.stack_deactivate]
    exact baseFirst_dropPackage (h.baseFirst k) _
  overrides package k := by
    rw [h.stack_deactivate, ownedBy_dropPackage, h.overrides, override?, override?,
      active_deactivate, declared?, declared?, packages_deactivate]
    simp only [h.activeNodup.mem_erase_iff]
    by_cases hp : package = r.fold name
    · simp [hp]
    · simp [hp]
  activeNodup := by
    rw [active_deactivate]
    exact h.activeNodup.erase _
  distinctPackages package known hknown := by
    rw [packages_deactivate] at hknown
    exact h.distinctPackages package known hknown

/-- A key has a stack exactly when there is a definition to call. -/
theorem isFunction_iff_resolve (h : r.WellFormed) (k : FunctionKey) :
    r.isFunction k = true ↔ (r.resolve k).isSome = true := by
  rw [isFunction, Table.contains, get?_definitions h.noEmptyStack, resolve]
  by_cases hnil : r.stack k = []
  · simp [hnil]
  · simp [hnil]

end WellFormed

end TorqueScript.Functions
