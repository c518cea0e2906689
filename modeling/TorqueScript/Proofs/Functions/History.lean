import Mathlib.Data.List.Induction
import TorqueScript.Proofs.Functions.WellFormed

/-!
Histories of operations on functions. What a registry holds after a history is read off
from the history alone: the last definition of a key is its base, the last declaration of
a package is the package's body, and a package is active from an activation that finds
it declared until it is deactivated.
-/

namespace TorqueScript.Functions

open Entry

variable {β : Type}

inductive Operation (β : Type) where
  | define (k : FunctionKey) (body : β)
  | declare (name : String) (declared : List (FunctionKey × β))
  | activate (name : String)
  | deactivate (name : String)

namespace Operation

/-- The body that an operation gives a key as its base. -/
def base? (k : FunctionKey) : Operation β → Option β
  | define k' body => if k' = k then some body else none
  | _ => none

/-- The bodies that an operation gives a key in a package, whose name is folded. -/
def bodies (caseSensitive : Bool) (package : String) (k : FunctionKey) : Operation β → List β
  | declare name declared =>
    if foldName caseSensitive name = package then bodiesAt k declared else []
  | _ => []

def Declares (caseSensitive : Bool) (package : String) : Operation β → Prop
  | declare name _ => foldName caseSensitive name = package
  | _ => False

def Activates (caseSensitive : Bool) (package : String) : Operation β → Prop
  | activate name => foldName caseSensitive name = package
  | _ => False

def Deactivates (caseSensitive : Bool) (package : String) : Operation β → Prop
  | deactivate name => foldName caseSensitive name = package
  | _ => False

instance (caseSensitive : Bool) (package : String) :
    DecidablePred (Activates caseSensitive package : Operation β → Prop)
  | activate name => inferInstanceAs (Decidable (foldName caseSensitive name = package))
  | define _ _ | declare _ _ | deactivate _ => inferInstanceAs (Decidable False)

instance (caseSensitive : Bool) (package : String) :
    DecidablePred (Deactivates caseSensitive package : Operation β → Prop)
  | deactivate name => inferInstanceAs (Decidable (foldName caseSensitive name = package))
  | define _ _ | declare _ _ | activate _ => inferInstanceAs (Decidable False)

end Operation

def empty (caseSensitive : Bool) : Functions β := { caseSensitive := caseSensitive }

def apply (r : Functions β) : Operation β → Except Fault (Functions β)
  | .define k body => .ok (r.define k body)
  | .declare name declared => .ok (r.declare name declared)
  | .activate name => r.activate name
  | .deactivate name => .ok (r.deactivate name)

/-- The registry after an operation. One that fails changes nothing. -/
def step (r : Functions β) (op : Operation β) : Functions β :=
  match r.apply op with
  | .ok r' => r'
  | .error _ => r

def run (r : Functions β) (ops : List (Operation β)) : Functions β :=
  ops.foldl step r

/-- How an operation ends. -/
def outcome (r : Functions β) (op : Operation β) : Except Fault Unit :=
  (r.apply op).map fun _ => ()

/-- How the operations of a history end, one after the other. -/
def outcomes (r : Functions β) : List (Operation β) → List (Except Fault Unit)
  | [] => []
  | op :: rest => r.outcome op :: (r.step op).outcomes rest

/-- The bodies that a history gives a key as its base, in their order. -/
def baseBodies (k : FunctionKey) (ops : List (Operation β)) : List β :=
  ops.filterMap (Operation.base? k)

/-- The bodies that a history gives a key in a package, in their order. -/
def packageBodies (caseSensitive : Bool) (package : String) (k : FunctionKey)
    (ops : List (Operation β)) : List β :=
  ops.flatMap (Operation.bodies caseSensitive package k)

def Declared (caseSensitive : Bool) (package : String) (ops : List (Operation β)) : Prop :=
  ∃ op ∈ ops, op.Declares caseSensitive package

/-- The package was activated after it had been declared, and has not been deactivated since. -/
def Activated (caseSensitive : Bool) (package : String) (ops : List (Operation β)) : Prop :=
  ∃ before op after, ops = before ++ op :: after ∧ op.Activates caseSensitive package ∧
    Declared caseSensitive package before ∧
    ∀ op' ∈ after, ¬ op'.Deactivates caseSensitive package

theorem run_append (r : Functions β) (ops ops' : List (Operation β)) :
    r.run (ops ++ ops') = (r.run ops).run ops' :=
  List.foldl_append

theorem run_concat (r : Functions β) (ops : List (Operation β)) (op : Operation β) :
    r.run (ops ++ [op]) = (r.run ops).step op := by
  rw [run_append]
  rfl

@[simp]
theorem step_define (r : Functions β) (k : FunctionKey) (body : β) :
    r.step (.define k body) = r.define k body := rfl

@[simp]
theorem step_declare (r : Functions β) (name : String) (ds : List (FunctionKey × β)) :
    r.step (.declare name ds) = r.declare name ds := rfl

@[simp]
theorem step_deactivate (r : Functions β) (name : String) :
    r.step (.deactivate name) = r.deactivate name := rfl

theorem wellFormed_empty (caseSensitive : Bool) :
    (empty caseSensitive : Functions β).WellFormed where
  noEmptyStack k := by simp [empty]
  baseFirst k := by simp [empty, stack, BaseFirst]
  overrides package k := by simp [empty, stack, ownedBy, override?]
  activeNodup := List.nodup_nil
  distinctPackages package known h := by simp [empty] at h

/-- An activation puts its package on the stacks unless it is active or not known. -/
theorem step_activate_cases (r : Functions β) (name : String) :
    (r.step (.activate name) = r ∧
      (r.fold name ∈ r.active ∨ r.packages.contains (r.fold name) = false)) ∨
    ∃ known r', r.step (.activate name) = r' ∧ r.activate name = .ok r' ∧
      r.fold name ∉ r.active ∧ r.packages.get? (r.fold name) = some known ∧
      (∀ k, r'.stack k = place (r.fold name) (bodiesAt k known.entries).getLast? (r.stack k)) ∧
      r'.active = r.active ++ [r.fold name] ∧ r'.packages = r.packages ∧
      r'.caseSensitive = r.caseSensitive := by
  by_cases ha : r.fold name ∈ r.active
  · left
    simp [step, apply, activate_active ha, ha]
  cases hknown : r.packages.get? (r.fold name) with
  | none =>
    left
    simp [step, apply, activate_unknown ha hknown, Table.contains, hknown]
  | some known =>
    right
    obtain ⟨r', hok, hstack, hactive, hpackages, hcase, -⟩ := activate_known ha hknown
    exact ⟨known, r', by simp [step, apply, hok], hok, ha, rfl, hstack, hactive, hpackages, hcase⟩

@[simp]
theorem caseSensitive_step (r : Functions β) (op : Operation β) :
    (r.step op).caseSensitive = r.caseSensitive := by
  cases op with
  | define k body => rfl
  | declare name ds => exact caseSensitive_declare r name ds
  | activate name =>
    obtain ⟨hsame, -⟩ | ⟨known, r', hr', -, -, -, -, -, -, hcase⟩ := step_activate_cases r name
    · rw [hsame]
    · rw [hr', hcase]
  | deactivate name => exact caseSensitive_deactivate r name

theorem WellFormed.step {r : Functions β} (h : r.WellFormed) (op : Operation β) :
    (r.step op).WellFormed := by
  cases op with
  | define k body => exact h.define k body
  | declare name ds => exact h.declare name ds
  | activate name =>
    obtain ⟨hsame, -⟩ | ⟨known, r', hr', hok, -⟩ := step_activate_cases r name
    · rwa [hsame]
    · rw [hr']
      exact h.activate hok
  | deactivate name => exact h.deactivate name

theorem WellFormed.run {r : Functions β} (h : r.WellFormed) (ops : List (Operation β)) :
    (r.run ops).WellFormed := by
  induction ops generalizing r with
  | nil => exact h
  | cons op rest ih => exact ih (h.step op)

@[simp]
theorem caseSensitive_run (r : Functions β) (ops : List (Operation β)) :
    (r.run ops).caseSensitive = r.caseSensitive := by
  induction ops generalizing r with
  | nil => rfl
  | cons op rest ih =>
    rw [run, List.foldl_cons]
    exact (ih (r.step op)).trans (caseSensitive_step r op)

theorem WellFormed.ownedBy_none_step {r : Functions β} (h : r.WellFormed) (op : Operation β)
    (k : FunctionKey) :
    ownedBy none ((r.step op).stack k) =
      ((op.base? k).map fun b => [⟨none, b⟩]).getD (ownedBy none (r.stack k)) := by
  cases op with
  | define k' body =>
    rw [step_define, stack_define]
    by_cases hk : k' = k
    · simp [Operation.base?, hk, ownedBy_setBase (h.baseFirst k)]
    · simp [Operation.base?, hk]
  | declare name ds =>
    rw [step_declare, stack_declare]
    split
    · simp [ownedBy_place (h.length_ownedBy_le _ k), Operation.base?]
    · rfl
  | activate name =>
    change _ = ownedBy none (r.stack k)
    obtain ⟨hsame, -⟩ | ⟨known, r', hr', -, -, -, hstack, -⟩ := step_activate_cases r name
    · rw [hsame]
    · rw [hr', hstack]
      simp [ownedBy_place (h.length_ownedBy_le _ k)]
  | deactivate name =>
    rw [step_deactivate, h.stack_deactivate, ownedBy_dropPackage, if_neg (by simp)]
    rfl

theorem declared?_step (r : Functions β) (op : Operation β) (package : String)
    (k : FunctionKey) :
    (r.step op).declared? package k =
      (op.bodies r.caseSensitive package k).getLast?.or (r.declared? package k) := by
  cases op with
  | define k' body => rfl
  | declare name ds =>
    rw [step_declare, declared?_declare, fold, Operation.bodies]
    split <;> simp
  | activate name =>
    change _ = r.declared? package k
    obtain ⟨hsame, -⟩ | ⟨known, r', hr', -, -, -, -, -, hpackages, -⟩ := step_activate_cases r name
    · rw [hsame]
    · rw [hr', declared?, hpackages, declared?]
  | deactivate name =>
    rw [step_deactivate, declared?, packages_deactivate]
    rfl

theorem contains_step (r : Functions β) (op : Operation β) (package : String) :
    (r.step op).packages.contains package = true ↔
      op.Declares r.caseSensitive package ∨ r.packages.contains package = true := by
  cases op with
  | define k body => simp [define, Operation.Declares]
  | declare name ds => exact contains_declare r name ds package
  | activate name =>
    obtain ⟨hsame, -⟩ | ⟨known, r', hr', -, -, -, -, -, hpackages, -⟩ := step_activate_cases r name
    · simp [hsame, Operation.Declares]
    · simp [hr', hpackages, Operation.Declares]
  | deactivate name => simp [Operation.Declares]

theorem WellFormed.mem_active_step {r : Functions β} (h : r.WellFormed) (op : Operation β)
    (package : String) :
    package ∈ (r.step op).active ↔
      (package ∈ r.active ∧ ¬ op.Deactivates r.caseSensitive package) ∨
      (op.Activates r.caseSensitive package ∧ r.packages.contains package = true) := by
  cases op with
  | define k body => simp [Functions.define, Operation.Deactivates, Operation.Activates]
  | declare name ds => simp [Operation.Deactivates, Operation.Activates]
  | activate name =>
    simp only [Operation.Deactivates, Operation.Activates, not_false_eq_true, and_true]
    obtain ⟨hsame, hwhy⟩ | ⟨known, r', hr', -, hnew, hknown, -, hactive, -, -⟩ :=
      step_activate_cases r name
    · rw [hsame]
      constructor
      · exact Or.inl
      · intro hx
        rcases hx with hold | ⟨rfl, hknown⟩
        · exact hold
        · rcases hwhy with ha | hunknown
          · exact ha
          · simp [fold, hknown] at hunknown
    · rw [hr', hactive, List.mem_append, List.mem_singleton]
      constructor
      · intro hx
        rcases hx with hold | rfl
        · exact Or.inl hold
        · exact Or.inr ⟨rfl, by simp [Table.contains, hknown]⟩
      · intro hx
        rcases hx with hold | ⟨rfl, -⟩
        · exact Or.inl hold
        · exact Or.inr rfl
  | deactivate name =>
    rw [step_deactivate, active_deactivate, h.activeNodup.mem_erase_iff]
    simp only [Operation.Deactivates, Operation.Activates, false_and, or_false]
    constructor
    · intro hx
      obtain ⟨hne, hold⟩ := hx
      exact ⟨hold, fun heq => hne heq.symm⟩
    · intro hx
      obtain ⟨hold, hne⟩ := hx
      exact ⟨fun heq => hne heq.symm, hold⟩

theorem ownedBy_none_run (caseSensitive : Bool) (ops : List (Operation β)) (k : FunctionKey) :
    ownedBy none (((empty caseSensitive).run ops).stack k) =
      (baseBodies k ops).getLast?.toList.map (Entry.mk none) := by
  induction ops using List.reverseRecOn with
  | nil => rfl
  | append_singleton ops op ih =>
    rw [run_concat, ((wellFormed_empty caseSensitive).run ops).ownedBy_none_step, ih, baseBodies,
      baseBodies, List.filterMap_append, List.getLast?_append]
    cases hbase : op.base? k <;> simp [hbase]

theorem declared?_run (caseSensitive : Bool) (ops : List (Operation β)) (package : String)
    (k : FunctionKey) :
    ((empty caseSensitive).run ops).declared? package k =
      (packageBodies caseSensitive package k ops).getLast? := by
  induction ops using List.reverseRecOn with
  | nil => rfl
  | append_singleton ops op ih =>
    rw [run_concat, declared?_step, ih, caseSensitive_run, packageBodies, packageBodies,
      List.flatMap_append, List.getLast?_append, List.flatMap_singleton]
    rfl

theorem contains_run (caseSensitive : Bool) (ops : List (Operation β)) (package : String) :
    ((empty caseSensitive).run ops).packages.contains package = true ↔
      Declared caseSensitive package ops := by
  induction ops using List.reverseRecOn with
  | nil => simp [run, empty, Table.contains, Declared]
  | append_singleton ops op ih =>
    rw [run_concat, contains_step, ih, caseSensitive_run]
    simp only [Declared, List.mem_append, List.mem_singleton]
    constructor
    · intro hx
      rcases hx with hop | ⟨x, hx, hdeclares⟩
      · exact ⟨op, Or.inr rfl, hop⟩
      · exact ⟨x, Or.inl hx, hdeclares⟩
    · intro hx
      rcases hx with ⟨x, hx | rfl, hdeclares⟩
      · exact Or.inr ⟨x, hx, hdeclares⟩
      · exact Or.inl hdeclares

/-- The last operation either keeps a package active or is the one that activates it. -/
theorem activated_concat (caseSensitive : Bool) (package : String) (ops : List (Operation β))
    (op : Operation β) :
    Activated caseSensitive package (ops ++ [op]) ↔
      (Activated caseSensitive package ops ∧ ¬ op.Deactivates caseSensitive package) ∨
      (op.Activates caseSensitive package ∧ Declared caseSensitive package ops) := by
  constructor
  · intro hx
    obtain ⟨before, act, after, hops, hact, hdeclared, hafter⟩ := hx
    rcases List.eq_nil_or_concat' after with rfl | ⟨after, last, rfl⟩
    · obtain ⟨rfl, hlast⟩ := List.append_inj' hops rfl
      cases hlast
      exact Or.inr ⟨hact, hdeclared⟩
    · rw [← List.cons_append, ← List.append_assoc] at hops
      obtain ⟨rfl, hlast⟩ := List.append_inj' hops rfl
      cases hlast
      refine Or.inl ⟨⟨before, act, after, rfl, hact, hdeclared, ?_⟩, hafter op (by simp)⟩
      intro op' hop'
      exact hafter op' (List.mem_append_left _ hop')
  · intro hx
    rcases hx with ⟨⟨before, act, after, rfl, hact, hdeclared, hafter⟩, hop⟩ | ⟨hact, hdeclared⟩
    · refine ⟨before, act, after ++ [op], by simp, hact, hdeclared, ?_⟩
      intro op' hop'
      rcases List.mem_append.mp hop' with hold | hnew
      · exact hafter op' hold
      · rwa [List.mem_singleton.mp hnew]
    · exact ⟨ops, op, [], rfl, hact, hdeclared, by simp⟩

theorem mem_active_run (caseSensitive : Bool) (ops : List (Operation β)) (package : String) :
    package ∈ ((empty caseSensitive).run ops).active ↔ Activated caseSensitive package ops := by
  induction ops using List.reverseRecOn with
  | nil => simp [run, empty, Activated]
  | append_singleton ops op ih =>
    rw [run_concat, ((wellFormed_empty caseSensitive).run ops).mem_active_step, caseSensitive_run,
      contains_run, ih, activated_concat]
    rfl

/-- What lies under a key after any history: at most one base, at the bottom, with the body last
defined; for each active package that declares the key one entry, with the body last declared;
nothing else. A package is active exactly when the history has activated it, and a key is a
function exactly when there is something to call. -/
theorem stack_after_history (caseSensitive : Bool) (ops : List (Operation β))
    (k : FunctionKey) :
    let r := (empty caseSensitive).run ops
    (∀ stack, r.definitions.get? k = some stack → stack ≠ []) ∧
    (∀ i e, (r.stack k)[i]? = some e → e.package = none → i = 0) ∧
    ownedBy none (r.stack k) = (baseBodies k ops).getLast?.toList.map (Entry.mk none) ∧
    (∀ package, ownedBy (some package) (r.stack k) =
      if package ∈ r.active then
        (packageBodies caseSensitive package k ops).getLast?.toList.map (Entry.mk (some package))
      else []) ∧
    (∀ package, package ∈ r.active ↔ Activated caseSensitive package ops) ∧
    r.active.Nodup ∧
    (r.isFunction k = true ↔ (r.resolve k).isSome = true) := by
  intro r
  have hr : r.WellFormed := (wellFormed_empty caseSensitive).run ops
  refine ⟨?_, ?_, ownedBy_none_run caseSensitive ops k, ?_, mem_active_run caseSensitive ops,
    hr.activeNodup, hr.isFunction_iff_resolve k⟩
  · intro stack hstack hnil
    exact hr.noEmptyStack k (hnil ▸ hstack)
  · intro i e hi he
    exact (hr.baseFirst k).index_eq_zero hi he
  · intro package
    rw [hr.overrides, override?, declared?_run]
    split <;> rfl

end TorqueScript.Functions
