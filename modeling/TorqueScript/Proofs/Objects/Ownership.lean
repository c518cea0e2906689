import Mathlib.Data.List.Nodup
import Mathlib.Data.List.Perm.Subperm
import TorqueScript.Objects.Tree

/-!
The chain of owners above an object, and the condition that owners and children agree
and no chain comes back to where it started. Such a chain is no longer than there are
objects, so walks bounded by that number see all of it.
-/

namespace TorqueScript.Objects

/-- The owner that lies a number of levels above an object, itself at level zero. -/
def ownerAt (o : Objects) : Nat → ObjectId → Option ObjectId
  | 0, id => some id
  | n + 1, id => (o.groupOf id).bind (o.ownerAt n)

/-- Owners and children agree, and nothing owns itself, directly or through others. -/
structure Forest (o : Objects) : Prop where
  owned : ∀ c g, o.groupOf c = some g ↔ ∃ i, o.instances.get? g = some i ∧ c ∈ i.children
  childrenNodup : ∀ g i, o.instances.get? g = some i → i.children.Nodup
  acyclic : ∀ n id, o.ownerAt (n + 1) id ≠ some id

theorem ownerAt_succ (o : Objects) (n : Nat) (id : ObjectId) :
    o.ownerAt (n + 1) id = (o.groupOf id).bind (o.ownerAt n) := rfl

theorem ownerAt_add (o : Objects) (m n : Nat) (id : ObjectId) :
    o.ownerAt (m + n) id = (o.ownerAt m id).bind (o.ownerAt n) := by
  induction m generalizing id with
  | zero => simp [ownerAt]
  | succ m ih =>
    rw [Nat.succ_add, ownerAt_succ, ownerAt_succ, Option.bind_assoc]
    exact congrArg _ (funext ih)

theorem exists_of_groupOf {o : Objects} {c g : ObjectId} (h : o.groupOf c = some g) :
    ∃ i, o.instances.get? c = some i ∧ i.group = some g :=
  Option.bind_eq_some_iff.mp h

theorem groupOf_eq {o : Objects} {c : ObjectId} {i : Instance} (h : o.instances.get? c = some i) :
    o.groupOf c = i.group := by
  simp [groupOf, h]

/-- Where links are only taken away, what is left of a chain was there before. -/
theorem ownerAt_mono {o o' : Objects} (h : ∀ c g, o'.groupOf c = some g → o.groupOf c = some g)
    {n : Nat} {id x : ObjectId} (hn : o'.ownerAt n id = some x) : o.ownerAt n id = some x := by
  induction n generalizing id with
  | zero => exact hn
  | succ n ih =>
    obtain ⟨g, hg, hrest⟩ := Option.bind_eq_some_iff.mp hn
    rw [ownerAt_succ, h id g hg]
    exact ih hrest

/-- Where only the link of `c` differs, a chain is the old one or meets `c` on the way. -/
theorem ownerAt_or_meets {o o' : Objects} {c : ObjectId}
    (h : ∀ x, x ≠ c → o'.groupOf x = o.groupOf x) {n : Nat} {id x : ObjectId}
    (hn : o'.ownerAt n id = some x) :
    o.ownerAt n id = some x ∨ ∃ m, o.ownerAt m id = some c ∧ o'.ownerAt m id = some c := by
  induction n generalizing id with
  | zero => exact Or.inl hn
  | succ n ih =>
    by_cases hid : id = c
    · exact Or.inr ⟨0, by simp [ownerAt, hid], by simp [ownerAt, hid]⟩
    · obtain ⟨g, hg, hrest⟩ := Option.bind_eq_some_iff.mp hn
      have hg' : o.groupOf id = some g := by rw [← h id hid, hg]
      rcases ih hrest with hold | ⟨m, hm, hm'⟩
      · exact Or.inl (by rw [ownerAt_succ, hg']; exact hold)
      · refine Or.inr ⟨m + 1, ?_, ?_⟩
        · rw [ownerAt_succ, hg']
          exact hm
        · rw [ownerAt_succ, hg]
          exact hm'

/-- Giving `c` a new owner closes no cycle if `c` is not among the owners of that owner. -/
theorem acyclic_of_link {o o' : Objects} {c : ObjectId}
    (h : ∀ x, x ≠ c → o'.groupOf x = o.groupOf x)
    (hlink : ∀ g, o'.groupOf c = some g → ∀ n, o.ownerAt n g ≠ some c)
    (hacyclic : ∀ n id, o.ownerAt (n + 1) id ≠ some id) (n : Nat) (id : ObjectId) :
    o'.ownerAt (n + 1) id ≠ some id := by
  intro hcycle
  rcases ownerAt_or_meets h hcycle with hold | ⟨m, -, hm⟩
  · exact hacyclic n id hold
  -- The cycle goes through `c`, so it can be walked from there.
  have hc : o'.ownerAt (n + 1) c = some c := by
    have hround := o'.ownerAt_add (n + 1) m id
    rw [Nat.add_comm, ownerAt_add, hm, hcycle] at hround
    simpa [hm] using hround
  obtain ⟨g, hg, hrest⟩ := Option.bind_eq_some_iff.mp hc
  rcases ownerAt_or_meets h hrest with hold | ⟨m, hm, -⟩
  · exact hlink g hg n hold
  · exact hlink g hg m hm

/-- There are no fewer objects than different numbers of objects that are there. -/
theorem le_size_of_distinct {o : Objects} {n : Nat} (f : Nat → ObjectId)
    (hlive : ∀ m, m < n → ∃ i, o.instances.get? (f m) = some i)
    (hinj : ∀ a, a < n → ∀ b, b < n → f a = f b → a = b) : n ≤ o.size := by
  have hnodup : ((List.range n).map f).Nodup := by
    refine List.Nodup.map_on ?_ List.nodup_range
    intro a ha b hb hab
    exact hinj a (List.mem_range.mp ha) b (List.mem_range.mp hb) hab
  have hsubset : (List.range n).map f ⊆ o.instances.entries.map Prod.fst := by
    intro y hy
    obtain ⟨m, hm, rfl⟩ := List.mem_map.mp hy
    obtain ⟨i, hi⟩ := hlive m (List.mem_range.mp hm)
    exact Table.mem_keys_of_get? hi
  have hlength := (List.subperm_of_subset hnodup hsubset).length_le
  simpa [size, Table.size] using hlength

namespace Forest

variable {o : Objects}

theorem ownerAt_injective (h : o.Forest) {id x : ObjectId} {m n : Nat}
    (hm : o.ownerAt m id = some x) (hn : o.ownerAt n id = some x) : m = n := by
  have hle : ∀ {m n : Nat}, o.ownerAt m id = some x → o.ownerAt n id = some x → ¬ m < n := by
    intro m n hm hn hlt
    obtain ⟨d, rfl⟩ : ∃ d, n = m + (d + 1) := ⟨n - m - 1, by omega⟩
    rw [ownerAt_add, hm] at hn
    exact h.acyclic d x hn
  have h₁ := hle hm hn
  have h₂ := hle hn hm
  omega

theorem ownerAt_le_size (h : o.Forest) {n : Nat} {id x : ObjectId}
    (hn : o.ownerAt n id = some x) : n ≤ o.size := by
  -- Every level below the last is taken by an object of its own.
  have hlevel : ∀ m, m < n → ∃ y i, o.ownerAt m id = some y ∧ o.instances.get? y = some i := by
    intro m hm
    obtain ⟨d, rfl⟩ : ∃ d, n = m + (d + 1) := ⟨n - m - 1, by omega⟩
    rw [ownerAt_add] at hn
    obtain ⟨y, hy, hrest⟩ := Option.bind_eq_some_iff.mp hn
    obtain ⟨g, hg, -⟩ := Option.bind_eq_some_iff.mp hrest
    obtain ⟨i, hi, -⟩ := exists_of_groupOf hg
    exact ⟨y, i, hy, hi⟩
  refine le_size_of_distinct (fun m => (o.ownerAt m id).getD 0) (fun m hm => ?_)
    fun a ha b hb hab => ?_
  · obtain ⟨y, i, hy, hi⟩ := hlevel m hm
    exact ⟨i, by rw [hy]; exact hi⟩
  · obtain ⟨y, -, hy, -⟩ := hlevel a ha
    obtain ⟨z, -, hz, -⟩ := hlevel b hb
    rw [hy, hz] at hab
    obtain rfl : y = z := hab
    exact h.ownerAt_injective hy hz

theorem isAncestorFrom_iff (above : ObjectId) (fuel : Nat) (id : ObjectId) :
    o.isAncestorFrom above fuel id = true ↔ ∃ n, n < fuel ∧ o.ownerAt (n + 1) id = some above := by
  induction fuel generalizing id with
  | zero => simp [isAncestorFrom]
  | succ fuel ih =>
    cases hg : o.groupOf id with
    | none => simp [isAncestorFrom, ownerAt_succ, hg]
    | some g =>
      simp only [isAncestorFrom, hg, Bool.or_eq_true, beq_iff_eq, ih, ownerAt_succ,
        Option.bind_some]
      constructor
      · intro hx
        rcases hx with rfl | ⟨n, hn, habove⟩
        · exact ⟨0, by omega, rfl⟩
        · exact ⟨n + 1, by omega, habove⟩
      · intro hx
        obtain ⟨n, hn, habove⟩ := hx
        cases n with
        | zero => exact Or.inl (Option.some.inj habove)
        | succ n => exact Or.inr ⟨n, by omega, habove⟩

/-- The bounded walk finds every owner. -/
theorem isAncestor_iff (h : o.Forest) (above id : ObjectId) :
    o.isAncestor above id = true ↔ ∃ n, o.ownerAt (n + 1) id = some above := by
  rw [isAncestor, isAncestorFrom_iff]
  constructor
  · intro hx
    obtain ⟨n, -, habove⟩ := hx
    exact ⟨n, habove⟩
  · intro hx
    obtain ⟨n, habove⟩ := hx
    have hn := h.ownerAt_le_size habove
    exact ⟨n, by omega, habove⟩

end Forest

end TorqueScript.Objects
