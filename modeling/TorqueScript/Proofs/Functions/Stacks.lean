import Mathlib.Data.List.Basic
import TorqueScript.Functions

/-!
What the operations on functions do to a single stack. A stack is seen in two ways:
through the entries that each owner has on it, where the base counts as an owner of
its own, and through the order of its packages from bottom to top.
-/

namespace TorqueScript.Entry

variable {β : Type}

/-- The entries that belong to `owner`, bottom first; those of no package are bases. -/
def ownedBy (owner : Option String) (stack : List (Entry β)) : List (Entry β) :=
  stack.filter fun e => decide (e.package = owner)

/-- The packages that have an entry, bottom first. -/
def owners (stack : List (Entry β)) : List String :=
  stack.filterMap Entry.package

/-- A base can only lie at the bottom. -/
def BaseFirst (stack : List (Entry β)) : Prop :=
  ∀ e ∈ stack.tail, e.package ≠ none

/-- A package's definition set on a stack, if there is one to set. -/
def place (package : String) : Option β → List (Entry β) → List (Entry β)
  | none, stack => stack
  | some body, stack => setPackage package body stack

theorem mem_ownedBy {owner : Option String} {stack : List (Entry β)} {e : Entry β} :
    e ∈ ownedBy owner stack ↔ e ∈ stack ∧ e.package = owner := by
  simp [ownedBy]

theorem ownedBy_cons (owner : Option String) (e : Entry β) (rest : List (Entry β)) :
    ownedBy owner (e :: rest) =
      if e.package = owner then e :: ownedBy owner rest else ownedBy owner rest := by
  by_cases h : e.package = owner <;> simp [ownedBy, h]

theorem ownedBy_eq_nil {owner : Option String} {stack : List (Entry β)} :
    ownedBy owner stack = [] ↔ ∀ e ∈ stack, e.package ≠ owner := by
  simp [ownedBy, List.filter_eq_nil_iff]

theorem mem_owners {package : String} {stack : List (Entry β)} :
    package ∈ owners stack ↔ ownedBy (some package) stack ≠ [] := by
  simp only [owners, List.mem_filterMap, ne_eq, ownedBy_eq_nil, not_forall, not_not]
  constructor
  · intro hx
    obtain ⟨e, he, hp⟩ := hx
    exact ⟨e, he, hp⟩
  · intro hx
    obtain ⟨e, he, hp⟩ := hx
    exact ⟨e, he, hp⟩

theorem BaseFirst.index_eq_zero {stack : List (Entry β)} (h : BaseFirst stack) {i : Nat}
    {e : Entry β} (hi : stack[i]? = some e) (he : e.package = none) : i = 0 := by
  cases i with
  | zero => rfl
  | succ i =>
    have htail : e ∈ stack.tail := by
      rw [← List.getElem?_tail] at hi
      exact List.mem_of_getElem? hi
    exact absurd he (h e htail)

/-- The last of the packages has the topmost entry, as a base lies below all others. -/
theorem BaseFirst.getLast?_of_owners {stack : List (Entry β)} (h : BaseFirst stack)
    {package : String} (hlast : (owners stack).getLast? = some package) :
    ∃ body, stack.getLast? = some ⟨some package, body⟩ := by
  rcases List.eq_nil_or_concat' stack with rfl | ⟨lower, ⟨top, body⟩, rfl⟩
  · simp [owners] at hlast
  cases top with
  | none =>
    cases lower with
    | nil => simp [owners] at hlast
    | cons e rest => exact absurd rfl (h ⟨none, body⟩ (by simp))
  | some p =>
    obtain rfl : p = package := by simpa [owners] using hlast
    exact ⟨body, by simp⟩

theorem setBase_ne_nil (body : β) (stack : List (Entry β)) : setBase body stack ≠ [] := by
  cases stack with
  | nil => simp [setBase]
  | cons e rest => by_cases h : e.package.isNone <;> simp [setBase, h]

theorem ownedBy_setBase {stack : List (Entry β)} (h : BaseFirst stack) (body : β)
    (owner : Option String) :
    ownedBy owner (setBase body stack) =
      if owner = none then [⟨none, body⟩] else ownedBy owner stack := by
  cases stack with
  | nil => cases owner <;> simp [setBase, ownedBy]
  | cons e rest =>
    have hrest : ownedBy none rest = [] := ownedBy_eq_nil.mpr h
    cases hp : e.package with
    | none => cases owner <;> simp [setBase, ownedBy_cons, hp, hrest]
    | some p => cases owner <;> simp [setBase, ownedBy_cons, hp, hrest]

theorem baseFirst_setBase {stack : List (Entry β)} (h : BaseFirst stack) (body : β) :
    BaseFirst (setBase body stack) := by
  cases stack with
  | nil => simp [setBase, BaseFirst]
  | cons e rest =>
    cases hp : e.package with
    | none => simpa [setBase, BaseFirst, hp] using h
    | some p =>
      intro x hx
      rcases List.mem_cons.mp (show x ∈ e :: rest by simpa [setBase, hp] using hx) with rfl | hx
      · simp [hp]
      · exact h x hx

theorem owners_setBase (body : β) (stack : List (Entry β)) :
    owners (setBase body stack) = owners stack := by
  cases stack with
  | nil => rfl
  | cons e rest => cases hp : e.package <;> simp [setBase, owners, hp]

theorem setPackage_ne_nil (package : String) (body : β) (stack : List (Entry β)) :
    setPackage package body stack ≠ [] := by
  cases stack with
  | nil => simp [setPackage]
  | cons e rest => by_cases h : e.package = some package <;> simp [setPackage, h]

theorem mem_setPackage {package : String} {body : β} {stack : List (Entry β)} {e : Entry β}
    (h : e ∈ setPackage package body stack) : e = ⟨some package, body⟩ ∨ e ∈ stack := by
  induction stack with
  | nil => exact Or.inl (by simpa [setPackage] using h)
  | cons x rest ih =>
    by_cases hx : x.package = some package
    · simp only [setPackage, hx, if_true, List.mem_cons] at h ⊢
      exact h.imp_right Or.inr
    · simp only [setPackage, hx, if_false, List.mem_cons] at h ⊢
      rcases h with rfl | h
      · exact Or.inr (Or.inl rfl)
      · exact (ih h).imp_right Or.inr

/-- Setting a definition replaces what its package had and touches no other owner. -/
theorem ownedBy_setPackage {package : String} {stack : List (Entry β)}
    (h : (ownedBy (some package) stack).length ≤ 1) (body : β) (owner : Option String) :
    ownedBy owner (setPackage package body stack) =
      if owner = some package then [⟨some package, body⟩] else ownedBy owner stack := by
  induction stack with
  | nil =>
    by_cases ho : owner = some package
    · simp [setPackage, ownedBy, ho]
    · simp [setPackage, ownedBy, ho, Ne.symm ho]
  | cons e rest ih =>
    rw [ownedBy_cons] at h
    by_cases hp : e.package = some package
    · have hrest : ownedBy (some package) rest = [] := by
        have hlen : (ownedBy (some package) rest).length + 1 ≤ 1 := by simpa [hp] using h
        exact List.length_eq_zero_iff.mp (by omega)
      by_cases ho : owner = some package
      · simp [setPackage, ownedBy_cons, hp, ho, hrest]
      · simp [setPackage, ownedBy_cons, hp, ho, Ne.symm ho]
    · have hlen : (ownedBy (some package) rest).length ≤ 1 := by simpa [hp] using h
      by_cases ho : owner = some package
      · subst ho
        simpa [setPackage, ownedBy_cons, hp] using ih hlen
      · simp only [setPackage, hp, if_false, ownedBy_cons, ih hlen, ho]

theorem baseFirst_setPackage {stack : List (Entry β)} (h : BaseFirst stack) (package : String)
    (body : β) : BaseFirst (setPackage package body stack) := by
  cases stack with
  | nil => simp [setPackage, BaseFirst]
  | cons e rest =>
    by_cases hp : e.package = some package
    · simpa [setPackage, BaseFirst, hp] using h
    · intro x hx
      rcases mem_setPackage (show x ∈ setPackage package body rest by
        simpa [setPackage, hp] using hx) with rfl | hx
      · simp
      · exact h x hx

/-- The last definition that is set wins. -/
theorem setPackage_setPackage (package : String) (body later : β) (stack : List (Entry β)) :
    setPackage package later (setPackage package body stack) =
      setPackage package later stack := by
  induction stack with
  | nil => simp [setPackage]
  | cons e rest ih => by_cases hp : e.package = some package <;> simp [setPackage, hp, ih]

theorem owners_setPackage (package : String) (body : β) (stack : List (Entry β)) :
    owners (setPackage package body stack) =
      if package ∈ owners stack then owners stack else owners stack ++ [package] := by
  induction stack with
  | nil => rfl
  | cons e rest ih =>
    cases hp : e.package with
    | none =>
      have hrest : owners (e :: rest) = owners rest := by simp [owners, hp]
      have hset : owners (setPackage package body (e :: rest)) =
          owners (setPackage package body rest) := by simp [setPackage, owners, hp]
      rw [hset, hrest, ih]
    | some p =>
      have hrest : owners (e :: rest) = p :: owners rest := by simp [owners, hp]
      by_cases heq : p = package
      · subst heq
        simp [setPackage, owners, hp]
      · have hset : owners (setPackage package body (e :: rest)) =
            p :: owners (setPackage package body rest) := by
          simp [setPackage, owners, hp, heq]
        rw [hset, hrest, ih]
        by_cases hmem : package ∈ owners rest <;> simp [hmem, Ne.symm heq]

theorem dropPackage_cons (package : String) (e : Entry β) (rest : List (Entry β)) :
    dropPackage package (e :: rest) =
      if e.package = some package then dropPackage package rest
      else e :: dropPackage package rest := by
  by_cases h : e.package = some package <;> simp [dropPackage, h]

theorem mem_dropPackage {package : String} {stack : List (Entry β)} {e : Entry β} :
    e ∈ dropPackage package stack ↔ e ∈ stack ∧ e.package ≠ some package := by
  simp [dropPackage]

theorem dropPackage_eq_self {package : String} {stack : List (Entry β)}
    (h : ownedBy (some package) stack = []) : dropPackage package stack = stack := by
  rw [ownedBy_eq_nil] at h
  exact List.filter_eq_self.mpr fun e he => by simpa using h e he

theorem ownedBy_dropPackage (package : String) (owner : Option String)
    (stack : List (Entry β)) :
    ownedBy owner (dropPackage package stack) =
      if owner = some package then [] else ownedBy owner stack := by
  by_cases ho : owner = some package
  · rw [if_pos ho, ownedBy_eq_nil]
    intro e he
    rw [ho]
    exact (mem_dropPackage.mp he).2
  · rw [if_neg ho, ownedBy, ownedBy, dropPackage, List.filter_filter]
    apply List.filter_congr
    intro e _
    by_cases he : e.package = owner
    · simp [he, ho]
    · simp [he]

theorem baseFirst_dropPackage {stack : List (Entry β)} (h : BaseFirst stack) (package : String) :
    BaseFirst (dropPackage package stack) := by
  cases stack with
  | nil => exact h
  | cons e rest =>
    intro x hx
    have hrest : x ∈ dropPackage package rest := by
      rw [dropPackage_cons] at hx
      split at hx
      · exact List.mem_of_mem_tail hx
      · exact hx
    exact h x (mem_dropPackage.mp hrest).1

theorem dropPackage_idem (package : String) (stack : List (Entry β)) :
    dropPackage package (dropPackage package stack) = dropPackage package stack := by
  simp [dropPackage, List.filter_filter]

theorem dropPackage_comm (package other : String) (stack : List (Entry β)) :
    dropPackage package (dropPackage other stack) =
      dropPackage other (dropPackage package stack) := by
  simp only [dropPackage, List.filter_filter, Bool.and_comm]

theorem owners_dropPackage (package : String) (stack : List (Entry β)) :
    owners (dropPackage package stack) = (owners stack).filter (· ≠ package) := by
  induction stack with
  | nil => rfl
  | cons e rest ih =>
    rw [dropPackage_cons]
    cases hp : e.package with
    | none => simpa [owners, hp] using ih
    | some p =>
      by_cases heq : p = package
      · simpa [owners, hp, heq] using ih
      · simpa [owners, hp, heq] using ih

/-- A new base takes the place of the old one whether or not a package lies between. -/
theorem dropPackage_setBase {stack : List (Entry β)} (h : BaseFirst stack) (package : String)
    (body : β) :
    dropPackage package (setBase body stack) = setBase body (dropPackage package stack) := by
  cases stack with
  | nil => simp [setBase, dropPackage]
  | cons e rest =>
    cases hp : e.package with
    | none => simp [setBase, dropPackage_cons, hp]
    | some p =>
      by_cases heq : p = package
      · -- The bottom entry goes, and what comes to lie there is no base.
        subst heq
        have hbottom : setBase body (dropPackage p rest) = ⟨none, body⟩ :: dropPackage p rest := by
          cases hd : dropPackage p rest with
          | nil => rfl
          | cons x left =>
            have hx : x ∈ dropPackage p rest := by simp [hd]
            have hnone : x.package ≠ none := h x (mem_dropPackage.mp hx).1
            simp [setBase, hnone]
        have hset : setBase body (e :: rest) = ⟨none, body⟩ :: e :: rest := by
          simp [setBase, hp]
        have hdrop : dropPackage p (e :: rest) = dropPackage p rest := by
          simp [dropPackage_cons, hp]
        rw [hset, hdrop, hbottom, dropPackage_cons, hdrop, if_neg (by simp)]
      · simp [setBase, dropPackage_cons, hp, heq]

theorem dropPackage_setPackage_self (package : String) (body : β) (stack : List (Entry β)) :
    dropPackage package (setPackage package body stack) = dropPackage package stack := by
  induction stack with
  | nil => simp [setPackage, dropPackage]
  | cons e rest ih =>
    by_cases hp : e.package = some package
    · simp [setPackage, dropPackage_cons, hp]
    · simp [setPackage, dropPackage_cons, hp, ih]

theorem dropPackage_setPackage_of_ne {package other : String} (h : other ≠ package) (body : β)
    (stack : List (Entry β)) :
    dropPackage package (setPackage other body stack) =
      setPackage other body (dropPackage package stack) := by
  induction stack with
  | nil => simp [setPackage, dropPackage, h]
  | cons e rest ih =>
    by_cases hp : e.package = some package
    · simp [setPackage, dropPackage_cons, hp, Ne.symm h, ih]
    · by_cases ho : e.package = some other
      · simp [setPackage, dropPackage_cons, ho, h]
      · simp [setPackage, dropPackage_cons, hp, ho, ih]

theorem ownedBy_place {package : String} {stack : List (Entry β)}
    (h : (ownedBy (some package) stack).length ≤ 1) (body : Option β) (owner : Option String) :
    ownedBy owner (place package body stack) =
      if owner = some package then
        (body.map fun b => [⟨some package, b⟩]).getD (ownedBy owner stack)
      else ownedBy owner stack := by
  cases body with
  | none => simp [place]
  | some b => simpa [place] using ownedBy_setPackage h b owner

theorem baseFirst_place {stack : List (Entry β)} (h : BaseFirst stack) (package : String)
    (body : Option β) : BaseFirst (place package body stack) := by
  cases body with
  | none => exact h
  | some b => exact baseFirst_setPackage h package b

theorem dropPackage_place_self (package : String) (body : Option β) (stack : List (Entry β)) :
    dropPackage package (place package body stack) = dropPackage package stack := by
  cases body with
  | none => rfl
  | some b => exact dropPackage_setPackage_self package b stack

theorem dropPackage_place_of_ne {package other : String} (h : other ≠ package)
    (body : Option β) (stack : List (Entry β)) :
    dropPackage package (place other body stack) =
      place other body (dropPackage package stack) := by
  cases body with
  | none => rfl
  | some b => exact dropPackage_setPackage_of_ne h b stack

end TorqueScript.Entry
