import TorqueScript.Proofs.Functions.Stacks

/-!
What each operation on functions does to the three things a registry consists of: the
stack of every key, the bodies that packages declare, and the list of active packages.
Later modules argue from these equations and not from the operations themselves.
-/

namespace TorqueScript.Functions

open Entry

variable {β : Type}

/-- The bodies that declarations give to a key, in their order. -/
def bodiesAt (k : FunctionKey) (declared : List (FunctionKey × β)) : List β :=
  (declared.filter fun d => decide (d.1 = k)).map Prod.snd

/-- The body that a package has for a key, active or not. -/
def declared? (r : Functions β) (package : String) (k : FunctionKey) : Option β :=
  (r.packages.get? package).bind fun known => known.get? k

/-- The body that a package has on a key's stack: none unless it is active. -/
def override? (r : Functions β) (package : String) (k : FunctionKey) : Option β :=
  if package ∈ r.active then r.declared? package k else none

def NoEmptyStack (r : Functions β) : Prop :=
  ∀ k, r.definitions.get? k ≠ some []

/-- No package lists a key twice. -/
def DistinctPackages (r : Functions β) : Prop :=
  ∀ package known, r.packages.get? package = some known → known.Distinct

theorem bodiesAt_cons (k : FunctionKey) (d : FunctionKey × β) (rest : List (FunctionKey × β)) :
    bodiesAt k (d :: rest) = if d.1 = k then d.2 :: bodiesAt k rest else bodiesAt k rest := by
  by_cases h : d.1 = k <;> simp [bodiesAt, h]

theorem bodiesAt_entries {t : Table FunctionKey β} (h : t.Distinct) (k : FunctionKey) :
    (bodiesAt k t.entries).getLast? = t.get? k := by
  rw [bodiesAt, h.filter_key]
  cases t.get? k <;> rfl

/-- Placing the last of several bodies is placing one after the other. -/
theorem place_bodiesAt_cons (package : String) (k : FunctionKey) (d : FunctionKey × β)
    (rest : List (FunctionKey × β)) (stack : List (Entry β)) :
    place package (bodiesAt k (d :: rest)).getLast? stack =
      place package (bodiesAt k rest).getLast?
        (if d.1 = k then setPackage package d.2 stack else stack) := by
  rw [bodiesAt_cons]
  by_cases h : d.1 = k
  · rw [if_pos h, if_pos h, List.getLast?_cons]
    cases (bodiesAt k rest).getLast? with
    | none => rfl
    | some b => exact (setPackage_setPackage package d.2 b stack).symm
  · rw [if_neg h, if_neg h]

/-- Where no stack is empty, the stacks tell which keys have one. -/
theorem get?_definitions {r : Functions β} (h : r.NoEmptyStack) (k : FunctionKey) :
    r.definitions.get? k = if r.stack k = [] then none else some (r.stack k) := by
  unfold stack
  cases hs : r.definitions.get? k with
  | none => rfl
  | some s =>
    have hne : s ≠ [] := fun hnil => h k (by rw [hs, hnil])
    simp [hne]

theorem stack_define (r : Functions β) (k : FunctionKey) (body : β) (other : FunctionKey) :
    (r.define k body).stack other =
      if k = other then setBase body (r.stack other) else r.stack other := by
  by_cases h : k = other
  · subst h
    simp [define, stack]
  · simp [define, stack, Table.get?_insert, h]

theorem noEmptyStack_define {r : Functions β} (h : r.NoEmptyStack) (k : FunctionKey) (body : β) :
    (r.define k body).NoEmptyStack := by
  intro other
  rw [define, Table.get?_insert]
  split
  · exact fun hnil => setBase_ne_nil body _ (Option.some.inj hnil)
  · exact h other

theorem stack_push (r : Functions β) (package : String) (k : FunctionKey) (body : β)
    (other : FunctionKey) :
    (r.push package k body).stack other =
      if k = other then setPackage package body (r.stack other) else r.stack other := by
  by_cases h : k = other
  · subst h
    simp [push, stack]
  · simp [push, stack, Table.get?_insert, h]

theorem noEmptyStack_push {r : Functions β} (h : r.NoEmptyStack) (package : String)
    (k : FunctionKey) (body : β) : (r.push package k body).NoEmptyStack := by
  intro other
  rw [push, Table.get?_insert]
  split
  · exact fun hnil => setPackage_ne_nil package body _ (Option.some.inj hnil)
  · exact h other

/-- Pushing changes nothing but the stacks. -/
theorem foldl_push_frame (package : String) (ds : List (FunctionKey × β)) (r : Functions β) :
    ds.foldl (fun r d => r.push package d.1 d.2) r =
      { r with definitions := (ds.foldl (fun r d => r.push package d.1 d.2) r).definitions } := by
  induction ds generalizing r with
  | nil => rfl
  | cons d rest ih => exact ih (r.push package d.1 d.2)

theorem stack_foldl_push (package : String) (ds : List (FunctionKey × β)) (r : Functions β)
    (k : FunctionKey) :
    (ds.foldl (fun r d => r.push package d.1 d.2) r).stack k =
      place package (bodiesAt k ds).getLast? (r.stack k) := by
  induction ds generalizing r with
  | nil => rfl
  | cons d rest ih =>
    rw [List.foldl_cons, ih, stack_push, place_bodiesAt_cons]

theorem noEmptyStack_foldl_push (package : String) (ds : List (FunctionKey × β))
    {r : Functions β} (h : r.NoEmptyStack) :
    (ds.foldl (fun r d => r.push package d.1 d.2) r).NoEmptyStack := by
  induction ds generalizing r with
  | nil => exact h
  | cons d rest ih => exact ih (noEmptyStack_push h package d.1 d.2)

/-- A stack that has lost its last entry is not there any more. -/
theorem get?_pull (package : String) (r : Functions β) (k other : FunctionKey) :
    (r.pull package k).definitions.get? other =
      if k = other then
        if dropPackage package (r.stack k) = [] then none
        else some (dropPackage package (r.stack k))
      else r.definitions.get? other := by
  unfold pull
  split
  · rename_i hs
    have hnil : dropPackage package (r.stack k) = [] := by simp [stack, hs, dropPackage]
    by_cases heq : k = other
    · subst heq
      simp [hs, hnil]
    · simp [heq]
  · rename_i s hs
    have hstack : r.stack k = s := by simp [stack, hs]
    split
    · rename_i hd
      simp [hstack, hd, Table.get?_erase]
    · rename_i hd
      simp [hstack, Table.get?_insert, show dropPackage package s ≠ [] from hd]

theorem stack_pull (package : String) (r : Functions β) (k other : FunctionKey) :
    (r.pull package k).stack other =
      if k = other then dropPackage package (r.stack other) else r.stack other := by
  rw [stack, get?_pull]
  by_cases heq : k = other
  · subst heq
    by_cases hd : dropPackage package (r.stack k) = [] <;> simp [hd]
  · simp [heq, stack]

theorem noEmptyStack_pull (package : String) {r : Functions β} (h : r.NoEmptyStack)
    (k : FunctionKey) : (r.pull package k).NoEmptyStack := by
  intro other
  rw [get?_pull]
  by_cases heq : k = other
  · subst heq
    by_cases hd : dropPackage package (r.stack k) = [] <;> simp [hd]
  · simpa [heq] using h other

theorem pull_frame (package : String) (r : Functions β) (k : FunctionKey) :
    r.pull package k = { r with definitions := (r.pull package k).definitions } := by
  unfold pull
  split
  · rfl
  · split <;> rfl

/-- Pulling changes nothing but the stacks. -/
theorem foldl_pull_frame (package : String) (ds : List (FunctionKey × β)) (r : Functions β) :
    ds.foldl (fun r d => r.pull package d.1) r =
      { r with definitions := (ds.foldl (fun r d => r.pull package d.1) r).definitions } := by
  induction ds generalizing r with
  | nil => rfl
  | cons d rest ih =>
    rw [List.foldl_cons, ih, pull_frame]

theorem stack_foldl_pull (package : String) (ds : List (FunctionKey × β)) (r : Functions β)
    (k : FunctionKey) :
    (ds.foldl (fun r d => r.pull package d.1) r).stack k =
      if k ∈ ds.map Prod.fst then dropPackage package (r.stack k) else r.stack k := by
  induction ds generalizing r with
  | nil => rfl
  | cons d rest ih =>
    rw [List.foldl_cons, ih, stack_pull]
    by_cases hd : d.1 = k
    · by_cases hk : k ∈ rest.map Prod.fst <;> simp [hd, hk, dropPackage_idem]
    · simp only [hd, if_false, List.map_cons, List.mem_cons, Ne.symm hd, false_or]

theorem noEmptyStack_foldl_pull (package : String) (ds : List (FunctionKey × β))
    {r : Functions β} (h : r.NoEmptyStack) :
    (ds.foldl (fun r d => r.pull package d.1) r).NoEmptyStack := by
  induction ds generalizing r with
  | nil => exact h
  | cons d rest ih => exact ih (noEmptyStack_pull package h d.1)

theorem stack_declareOne (package : String) (r : Functions β) (d : FunctionKey × β)
    (k : FunctionKey) :
    (declareOne package r d).stack k =
      if package ∈ r.active ∧ d.1 = k then setPackage package d.2 (r.stack k) else r.stack k := by
  by_cases ha : package ∈ r.active
  · simpa [declareOne, ha, stack] using stack_push r package d.1 d.2 k
  · simp [declareOne, ha, stack]

@[simp]
theorem active_declareOne (package : String) (r : Functions β) (d : FunctionKey × β) :
    (declareOne package r d).active = r.active := by
  by_cases ha : package ∈ r.active <;> simp [declareOne, ha, push]

@[simp]
theorem caseSensitive_declareOne (package : String) (r : Functions β) (d : FunctionKey × β) :
    (declareOne package r d).caseSensitive = r.caseSensitive := by
  by_cases ha : package ∈ r.active <;> simp [declareOne, ha, push]

theorem packages_declareOne (package : String) (r : Functions β) (d : FunctionKey × β) :
    (declareOne package r d).packages =
      r.packages.insert package (((r.packages.get? package).getD ∅).insert d.1 d.2) := by
  by_cases ha : package ∈ r.active <;> simp [declareOne, ha, push]

theorem declared?_declareOne (package : String) (r : Functions β) (d : FunctionKey × β)
    (other : String) (k : FunctionKey) :
    (declareOne package r d).declared? other k =
      if package = other ∧ d.1 = k then some d.2 else r.declared? other k := by
  rw [declared?, packages_declareOne, Table.get?_insert]
  by_cases hp : package = other
  · subst hp
    by_cases hk : d.1 = k
    · simp [hk]
    · cases hknown : r.packages.get? package <;> simp [Table.get?_insert, hk, declared?, hknown]
  · simp [hp, declared?]

theorem stack_foldl_declareOne (package : String) (ds : List (FunctionKey × β))
    (r : Functions β) (k : FunctionKey) :
    (ds.foldl (declareOne package) r).stack k =
      if package ∈ r.active then place package (bodiesAt k ds).getLast? (r.stack k)
      else r.stack k := by
  induction ds generalizing r with
  | nil => simp [bodiesAt, place]
  | cons d rest ih =>
    rw [List.foldl_cons, ih, active_declareOne, stack_declareOne, place_bodiesAt_cons]
    by_cases ha : package ∈ r.active <;> simp [ha]

@[simp]
theorem active_foldl_declareOne (package : String) (ds : List (FunctionKey × β))
    (r : Functions β) : (ds.foldl (declareOne package) r).active = r.active := by
  induction ds generalizing r with
  | nil => rfl
  | cons d rest ih => rw [List.foldl_cons, ih, active_declareOne]

@[simp]
theorem caseSensitive_foldl_declareOne (package : String) (ds : List (FunctionKey × β))
    (r : Functions β) : (ds.foldl (declareOne package) r).caseSensitive = r.caseSensitive := by
  induction ds generalizing r with
  | nil => rfl
  | cons d rest ih => rw [List.foldl_cons, ih, caseSensitive_declareOne]

theorem declared?_foldl_declareOne (package : String) (ds : List (FunctionKey × β))
    (r : Functions β) (other : String) (k : FunctionKey) :
    (ds.foldl (declareOne package) r).declared? other k =
      if package = other then (bodiesAt k ds).getLast?.or (r.declared? other k)
      else r.declared? other k := by
  induction ds generalizing r with
  | nil => simp [bodiesAt]
  | cons d rest ih =>
    rw [List.foldl_cons, ih, declared?_declareOne, bodiesAt_cons]
    by_cases hp : package = other
    · by_cases hk : d.1 = k
      · cases hl : (bodiesAt k rest).getLast? <;> simp [hp, hk, List.getLast?_cons, hl]
      · simp [hp, hk]
    · simp [hp]

theorem noEmptyStack_foldl_declareOne (package : String) (ds : List (FunctionKey × β))
    {r : Functions β} (h : r.NoEmptyStack) : (ds.foldl (declareOne package) r).NoEmptyStack := by
  induction ds generalizing r with
  | nil => exact h
  | cons d rest ih =>
    apply ih
    by_cases ha : package ∈ r.active
    · have hpush := noEmptyStack_push h package d.1 d.2
      simpa [declareOne, ha, NoEmptyStack] using hpush
    · simpa [declareOne, ha, NoEmptyStack] using h

theorem distinctPackages_foldl_declareOne (package : String) (ds : List (FunctionKey × β))
    {r : Functions β} (h : r.DistinctPackages) :
    (ds.foldl (declareOne package) r).DistinctPackages := by
  induction ds generalizing r with
  | nil => exact h
  | cons d rest ih =>
    apply ih
    intro other known hknown
    rw [packages_declareOne, Table.get?_insert] at hknown
    split at hknown
    · cases hknown
      apply Table.Distinct.insert
      cases hold : r.packages.get? package with
      | none => exact Table.distinct_empty
      | some old => exact h package old hold
    · exact h other known hknown

theorem declare_frame (r : Functions β) (name : String) (ds : List (FunctionKey × β)) :
    r.declare name ds =
      { ds.foldl (declareOne (r.fold name)) r with packages := (r.declare name ds).packages } := by
  dsimp only [declare]
  split <;> rfl

theorem packages_declare (r : Functions β) (name : String) (ds : List (FunctionKey × β)) :
    (r.declare name ds).packages =
      if (ds.foldl (declareOne (r.fold name)) r).packages.contains (r.fold name) then
        (ds.foldl (declareOne (r.fold name)) r).packages
      else (ds.foldl (declareOne (r.fold name)) r).packages.insert (r.fold name) ∅ := by
  dsimp only [declare]
  split <;> rfl

theorem stack_declare (r : Functions β) (name : String) (ds : List (FunctionKey × β))
    (k : FunctionKey) :
    (r.declare name ds).stack k =
      if r.fold name ∈ r.active then place (r.fold name) (bodiesAt k ds).getLast? (r.stack k)
      else r.stack k := by
  rw [declare_frame]
  exact stack_foldl_declareOne (r.fold name) ds r k

@[simp]
theorem active_declare (r : Functions β) (name : String) (ds : List (FunctionKey × β)) :
    (r.declare name ds).active = r.active := by
  rw [declare_frame, active_foldl_declareOne]

@[simp]
theorem caseSensitive_declare (r : Functions β) (name : String)
    (ds : List (FunctionKey × β)) : (r.declare name ds).caseSensitive = r.caseSensitive := by
  rw [declare_frame, caseSensitive_foldl_declareOne]

theorem declared?_declare (r : Functions β) (name : String) (ds : List (FunctionKey × β))
    (package : String) (k : FunctionKey) :
    (r.declare name ds).declared? package k =
      if r.fold name = package then (bodiesAt k ds).getLast?.or (r.declared? package k)
      else r.declared? package k := by
  rw [← declared?_foldl_declareOne, declared?, packages_declare]
  split
  · rfl
  · rename_i hnew
    -- A package that was not known and is given nothing stays without a body.
    by_cases hp : r.fold name = package
    · subst hp
      have hnone : (ds.foldl (declareOne (r.fold name)) r).packages.get? (r.fold name) = none := by
        simpa [Table.contains] using hnew
      simp [declared?, hnone]
    · simp [declared?, Table.get?_insert, hp]

theorem noEmptyStack_declare {r : Functions β} (h : r.NoEmptyStack) (name : String)
    (ds : List (FunctionKey × β)) : (r.declare name ds).NoEmptyStack := by
  rw [declare_frame]
  exact noEmptyStack_foldl_declareOne (r.fold name) ds h

theorem distinctPackages_declare {r : Functions β} (h : r.DistinctPackages) (name : String)
    (ds : List (FunctionKey × β)) : (r.declare name ds).DistinctPackages := by
  have hfold := distinctPackages_foldl_declareOne (r.fold name) ds h
  intro package known hknown
  rw [packages_declare] at hknown
  split at hknown
  · exact hfold package known hknown
  · rw [Table.get?_insert] at hknown
    split at hknown
    · cases hknown
      exact Table.distinct_empty
    · exact hfold package known hknown

theorem contains_foldl_declareOne {package other : String} (hne : package ≠ other)
    (ds : List (FunctionKey × β)) (r : Functions β) :
    (ds.foldl (declareOne package) r).packages.contains other = r.packages.contains other := by
  induction ds generalizing r with
  | nil => rfl
  | cons d rest ih =>
    rw [List.foldl_cons, ih]
    simp [Table.contains, packages_declareOne, Table.get?_insert, hne]

/-- Declaring makes the named package known and no other. -/
theorem contains_declare (r : Functions β) (name : String) (ds : List (FunctionKey × β))
    (package : String) :
    (r.declare name ds).packages.contains package = true ↔
      r.fold name = package ∨ r.packages.contains package = true := by
  rw [packages_declare]
  by_cases hp : r.fold name = package
  · subst hp
    split
    · rename_i hknown
      simpa using hknown
    · simp [Table.contains]
  · rw [← contains_foldl_declareOne hp ds r]
    split
    · simp [hp]
    · simp [hp, Table.contains, Table.get?_insert]

theorem packages_foldl_declareOne_congr (package : String) (ds : List (FunctionKey × β))
    {r r' : Functions β} (h : r.packages = r'.packages) :
    (ds.foldl (declareOne package) r).packages = (ds.foldl (declareOne package) r').packages := by
  induction ds generalizing r r' with
  | nil => exact h
  | cons d rest ih =>
    apply ih
    rw [packages_declareOne, packages_declareOne, h]

/-- What is declared does not depend on the stacks or on what is active. -/
theorem packages_declare_congr {r r' : Functions β} (hcase : r.caseSensitive = r'.caseSensitive)
    (h : r.packages = r'.packages) (name : String) (ds : List (FunctionKey × β)) :
    (r.declare name ds).packages = (r'.declare name ds).packages := by
  have hname : r.fold name = r'.fold name := by rw [fold, fold, hcase]
  rw [packages_declare, packages_declare, hname,
    packages_foldl_declareOne_congr (r'.fold name) ds h]

theorem activate_active {r : Functions β} {name : String} (h : r.fold name ∈ r.active) :
    r.activate name = .ok r := by
  simp [activate, h]

theorem activate_unknown {r : Functions β} {name : String} (h : r.fold name ∉ r.active)
    (hnone : r.packages.get? (r.fold name) = none) :
    r.activate name = .error (.unknownPackage name) := by
  simp [activate, h, hnone]

/-- A package that becomes active is placed on the stacks of all its keys. -/
theorem activate_known {r : Functions β} {name : String} {known : Table FunctionKey β}
    (h : r.fold name ∉ r.active) (hknown : r.packages.get? (r.fold name) = some known) :
    ∃ r', r.activate name = .ok r' ∧
      (∀ k, r'.stack k =
        place (r.fold name) (bodiesAt k known.entries).getLast? (r.stack k)) ∧
      r'.active = r.active ++ [r.fold name] ∧ r'.packages = r.packages ∧
      r'.caseSensitive = r.caseSensitive ∧ (r.NoEmptyStack → r'.NoEmptyStack) := by
  have hframe := foldl_push_frame (r.fold name) known.entries r
  let raised := known.entries.foldl (fun r' d => r'.push (r.fold name) d.1 d.2) r
  refine ⟨{ raised with active := raised.active ++ [r.fold name] }, ?_, ?_, ?_, ?_, ?_, ?_⟩
  · simp only [activate, h, if_false, hknown, raised]
  · exact stack_foldl_push (r.fold name) known.entries r
  · exact congrArg (·.active ++ [r.fold name]) hframe
  · exact congrArg (·.packages) hframe
  · exact congrArg (·.caseSensitive) hframe
  · exact noEmptyStack_foldl_push (r.fold name) known.entries

theorem deactivate_inactive {r : Functions β} {name : String} (h : r.fold name ∉ r.active) :
    r.deactivate name = r := by
  simp [deactivate, h]

/-- A package that is taken off leaves the stacks of all its keys. -/
theorem deactivate_active {r : Functions β} {name : String} (h : r.fold name ∈ r.active) :
    (∀ k, (r.deactivate name).stack k =
      if k ∈ ((r.packages.get? (r.fold name)).getD ∅).entries.map Prod.fst then
        dropPackage (r.fold name) (r.stack k)
      else r.stack k) ∧
    (r.deactivate name).active = r.active.erase (r.fold name) ∧
    (r.deactivate name).packages = r.packages ∧
    (r.deactivate name).caseSensitive = r.caseSensitive ∧
    (r.NoEmptyStack → (r.deactivate name).NoEmptyStack) := by
  have hframe := foldl_pull_frame (r.fold name) ((r.packages.get? (r.fold name)).getD ∅).entries r
  simp only [deactivate, h, if_true]
  refine ⟨?_, ?_, ?_, ?_, ?_⟩
  · exact stack_foldl_pull (r.fold name) _ r
  · exact congrArg (·.active.erase (r.fold name)) hframe
  · exact congrArg (·.packages) hframe
  · exact congrArg (·.caseSensitive) hframe
  · exact noEmptyStack_foldl_pull (r.fold name) _

theorem active_deactivate (r : Functions β) (name : String) :
    (r.deactivate name).active = r.active.erase (r.fold name) := by
  by_cases h : r.fold name ∈ r.active
  · exact (deactivate_active h).2.1
  · rw [deactivate_inactive h, List.erase_of_not_mem h]

@[simp]
theorem packages_deactivate (r : Functions β) (name : String) :
    (r.deactivate name).packages = r.packages := by
  by_cases h : r.fold name ∈ r.active
  · exact (deactivate_active h).2.2.1
  · rw [deactivate_inactive h]

@[simp]
theorem caseSensitive_deactivate (r : Functions β) (name : String) :
    (r.deactivate name).caseSensitive = r.caseSensitive := by
  by_cases h : r.fold name ∈ r.active
  · exact (deactivate_active h).2.2.2.1
  · rw [deactivate_inactive h]

theorem noEmptyStack_deactivate {r : Functions β} (h : r.NoEmptyStack) (name : String) :
    (r.deactivate name).NoEmptyStack := by
  by_cases ha : r.fold name ∈ r.active
  · exact (deactivate_active ha).2.2.2.2 h
  · rwa [deactivate_inactive ha]

end TorqueScript.Functions
