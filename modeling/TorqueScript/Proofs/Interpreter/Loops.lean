import TorqueScript.Proofs.Interpreter.FirstMatch

/-!
Loops of both kinds. What a loop does in one round determines what the loop does, as the least
effect that such rounds lead to. So two loops with the same rounds have the same outcome, over
any number of rounds. The update of a `for` loop can stand at the end of the body of a `while`
loop, unless a `continue` in the body would pass over it there.
-/

namespace TorqueScript

open Effect

mutual

/-- No `continue` in the statement is one of a loop around it. Those in loops and functions inside
the statement do not leave them. -/
def Statement.continueFree : Statement → Bool
  | .continue => false
  | .branch _ consequence alternative =>
    continueFreeBody consequence && continueFreeOption alternative
  | .switch _ _ cases default => continueFreeCases cases && continueFreeOption default
  | _ => true

def continueFreeBody : List Statement → Bool
  | [] => true
  | s :: rest => s.continueFree && continueFreeBody rest

def continueFreeOption : Option (List Statement) → Bool
  | none => true
  | some body => continueFreeBody body

def continueFreeCases : List SwitchCase → Bool
  | [] => true
  | ⟨_, body⟩ :: rest => continueFreeBody body && continueFreeCases rest

end

theorem continueFreeBody_getD {body : Option (List Statement)}
    (h : continueFreeOption body = true) : continueFreeBody (body.getD []) = true := by
  cases body with
  | none => rfl
  | some body => exact h

namespace Effect

/-- If the effect ends without a fault, then in one of the flows `P`. -/
def Ends (P : Flow → Prop) (act : Effect Flow) : Prop :=
  ∀ i j flow, act i = some (.ok flow, j) → P flow

variable {P Q : Flow → Prop} {α : Type}

theorem ends_exhausted : Ends P exhausted := by
  intro i j flow h
  cases h

theorem ends_pure {flow : Flow} (h : P flow) : Ends P (pure flow) := by
  intro i j flow' hrun
  cases hrun
  exact h

theorem ends_bind {act : Effect α} {next : α → Effect Flow} (h : ∀ a, Ends P (next a)) :
    Ends P (act >>= next) := by
  intro i j flow hrun
  obtain ⟨a, k, -, hnext⟩ := bind_eq_ok.mp hrun
  exact h a k j flow hnext

theorem Ends.bind {act : Effect Flow} {next : Flow → Effect Flow} (hact : Ends Q act)
    (h : ∀ flow, Q flow → Ends P (next flow)) : Ends P (act >>= next) := by
  intro i j flow hrun
  obtain ⟨first, k, hfirst, hnext⟩ := bind_eq_ok.mp hrun
  exact h first (hact i k first hfirst) k j flow hnext

theorem bind_congr_results {α β : Type} {act : Effect α} {next next' : α → Effect β}
    (h : ∀ i a j, act i = some (.ok a, j) → next a j = next' a j) :
    act >>= next = act >>= next' := by
  funext i
  rw [bind_apply, bind_apply]
  split
  · rfl
  · rename_i a j hact
    exact h i a j hact
  · rfl

theorem Ends.mono {act : Effect Flow} (h : Ends P act) (hPQ : ∀ flow, P flow → Q flow) :
    Ends Q act :=
  fun i j flow hrun => hPQ flow (h i j flow hrun)

end Effect

/-- The flow is no concern of a loop: the code ended normally, or with a return. -/
def Flow.LeavesLoops (flow : Flow) : Prop :=
  flow = .normal ∨ ∃ v, flow = .return v

theorem Flow.LeavesLoops.ne_continue {flow : Flow} (h : flow.LeavesLoops) : flow ≠ .continue := by
  rcases h with rfl | ⟨v, rfl⟩ <;> exact Flow.noConfusion

namespace Task

variable {n : Nat} {init c update : Option Expr} {body : List Statement}

theorem loop_leavesLoops (n : Nat) : Ends Flow.LeavesLoops ((loop c update body).run n) := by
  induction n with
  | zero => exact ends_exhausted
  | succ n ih =>
    rw [← run_plan]
    refine ends_bind fun again => ?_
    cases again with
    | false => exact ends_pure (Or.inl rfl)
    | true =>
      refine ends_bind fun flow => ?_
      cases flow with
      | normal => exact ends_bind fun _ => ih
      | «continue» => exact ends_bind fun _ => ih
      | «break» => exact ends_pure (Or.inl rfl)
      | «return» v => exact ends_pure (Or.inr ⟨v, rfl⟩)

theorem whileLoop_leavesLoops (n : Nat) (c : Expr) (body : List Statement) :
    Ends Flow.LeavesLoops ((statement (.whileLoop c body)).run n) := by
  cases n with
  | zero => exact ends_exhausted
  | succ n =>
    rw [← run_plan]
    exact loop_leavesLoops n

theorem forLoop_leavesLoops (n : Nat) (init c update : Option Expr) (body : List Statement) :
    Ends Flow.LeavesLoops ((statement (.forLoop init c update body)).run n) := by
  cases n with
  | zero => exact ends_exhausted
  | succ n =>
    rw [← run_plan]
    cases init with
    | none => exact loop_leavesLoops n
    | some init => exact ends_bind fun _ => loop_leavesLoops n

/-- Under the budget, code that has no `continue` for a loop around it does not continue one. -/
structure NeverContinues (n : Nat) : Prop where
  block {body : List Statement} (h : continueFreeBody body = true) :
    Ends (· ≠ .continue) ((block body).run n)
  statement {s : Statement} (h : s.continueFree = true) :
    Ends (· ≠ .continue) ((statement s).run n)
  switch {kind : SwitchKind} {subject : Value} {cases : List SwitchCase}
      {default : Option (List Statement)} (hcases : continueFreeCases cases = true)
      (hdefault : continueFreeOption default = true) :
    Ends (· ≠ .continue) ((switch kind subject cases default).run n)

namespace NeverContinues

variable (ih : NeverContinues n)

include ih

theorem block_succ (h : continueFreeBody body = true) :
    Ends (· ≠ .continue) ((Task.block body).run (n + 1)) := by
  rw [← run_plan]
  cases body with
  | nil => exact ends_pure Flow.noConfusion
  | cons s rest =>
    obtain ⟨hs, hrest⟩ := Bool.and_eq_true_iff.mp h
    refine Ends.bind (ih.statement hs) fun flow hflow => ?_
    cases flow with
    | normal => exact ih.block hrest
    | «continue» => exact absurd rfl hflow
    | «break» => exact ends_pure Flow.noConfusion
    | «return» v => exact ends_pure Flow.noConfusion

theorem statement_succ {s : Statement} (h : s.continueFree = true) :
    Ends (· ≠ .continue) ((Task.statement s).run (n + 1)) := by
  cases s with
  | «continue» => cases h
  | whileLoop c body => exact (whileLoop_leavesLoops _ c body).mono fun _ h => h.ne_continue
  | forLoop init c update body =>
    exact (forLoop_leavesLoops _ init c update body).mono fun _ h => h.ne_continue
  | branch c consequence alternative =>
    obtain ⟨hthen, helse⟩ := Bool.and_eq_true_iff.mp h
    rw [← run_plan]
    refine ends_bind fun v => ?_
    dsimp only
    rw [Plan.run_ite]
    split
    · exact ih.block hthen
    · exact ih.block (continueFreeBody_getD helse)
  | switch kind subject cases default =>
    obtain ⟨hcases, hdefault⟩ := Bool.and_eq_true_iff.mp h
    rw [← run_plan]
    exact ends_bind fun v => ih.switch hcases hdefault
  | «break» => exact ends_pure Flow.noConfusion
  | «return» value =>
    rw [← run_plan]
    cases value with
    | none => exact ends_pure Flow.noConfusion
    | some e => exact ends_bind fun v => ends_pure Flow.noConfusion
  | expr e =>
    rw [← run_plan]
    exact ends_bind fun _ => ends_pure Flow.noConfusion
  | function f =>
    rw [← run_plan]
    exact ends_bind fun _ => ends_pure Flow.noConfusion
  | package name functions =>
    rw [← run_plan]
    exact ends_bind fun _ => ends_pure Flow.noConfusion
  | datablock d =>
    rw [← run_plan]
    exact ends_bind fun _ => ends_bind fun _ => ends_bind fun _ => ends_pure Flow.noConfusion

theorem switch_succ {kind : SwitchKind} {subject : Value} {cases : List SwitchCase}
    {default : Option (List Statement)} (hcases : continueFreeCases cases = true)
    (hdefault : continueFreeOption default = true) :
    Ends (· ≠ .continue) ((Task.switch kind subject cases default).run (n + 1)) := by
  rw [← run_plan]
  cases cases with
  | nil => exact ih.block (continueFreeBody_getD hdefault)
  | cons case rest =>
    obtain ⟨labels, body⟩ := case
    obtain ⟨hbody, hrest⟩ := Bool.and_eq_true_iff.mp hcases
    refine ends_bind fun found => ?_
    cases found with
    | true => exact ih.block hbody
    | false => exact ih.switch hrest hdefault

end NeverContinues

theorem neverContinues (n : Nat) : NeverContinues n := by
  induction n with
  | zero => exact ⟨fun _ => ends_exhausted, fun _ => ends_exhausted, fun _ _ => ends_exhausted⟩
  | succ n ih => exact ⟨ih.block_succ, ih.statement_succ, ih.switch_succ⟩

/-- An expression that may be missing, evaluated before something else. -/
noncomputable def optionally {α : Type} (e : Option Expr) (next : Effect α) : Effect α :=
  e.elim next fun e => do
    let _ ← (expr e).outcome
    next

theorem optionally_bind {α β : Type} (e : Option Expr) (act : Effect α) (next : α → Effect β) :
    optionally e act >>= next = optionally e (act >>= next) := by
  cases e with
  | none => rfl
  | some e => exact bind_assoc _ _ _

theorem outcome_exprs_bind {α : Type} (e : Option Expr) (next : Effect α) :
    (do
      let _ ← (exprs e.toList).outcome
      next) = optionally e next := by
  have hnil : (exprs []).outcome = return [] := outcome_eq _
  cases e with
  | none =>
    rw [Option.toList_none, hnil, pure_bind]
    rfl
  | some e =>
    rw [Option.toList_some, outcome_eq]
    change (_ >>= _) >>= _ = _
    rw [bind_assoc]
    refine bind_congr fun v => ?_
    change ((exprs []).outcome >>= _) >>= _ = _
    rw [hnil, pure_bind]
    exact pure_bind _ _

/-- One round of a loop, with what comes after a round that does not leave the loop. -/
noncomputable def round (c update : Option Expr) (body : List Statement) (next : Effect Flow) :
    Effect Flow := do
  let again ← (condition c).outcome
  if again then
    let flow ← (block body).outcome
    match flow with
    | .break => return .normal
    | .return v => return .return v
    | _ => optionally update next
  else return .normal

theorem outcome_loop (c update : Option Expr) (body : List Statement) :
    (loop c update body).outcome = round c update body (loop c update body).outcome := by
  conv => lhs; rw [outcome_eq]
  refine bind_congr fun again => ?_
  cases again with
  | false => rfl
  | true =>
    refine bind_congr fun flow => ?_
    cases flow with
    | normal => exact outcome_exprs_bind update _
    | «continue» => exact outcome_exprs_bind update _
    | «break» => rfl
    | «return» v => rfl

theorem run_approximates_outcome {α : Type} (t : Task α) (n : Nat) :
    Approximates (t.run n) t.outcome :=
  fun _ _ hrun => t.outcome_eq_some.mpr ⟨n, hrun⟩

/-- A round under a budget does no more than the round itself. -/
theorem run_loop_approximates {act : Effect Flow}
    (hact : Approximates ((loop c update body).run n) act) :
    Approximates ((loop c update body).run (n + 1)) (round c update body act) := by
  rw [← run_plan]
  refine .bind (run_approximates_outcome _ n) fun again => ?_
  cases again with
  | false => exact fun _ _ hrun => hrun
  | true =>
    refine .bind (run_approximates_outcome _ n) fun flow => ?_
    have hagain : Approximates (do
        let _ ← (exprs update.toList).run n
        (loop c update body).run n) (optionally update act) := by
      rw [← outcome_exprs_bind]
      exact .bind (run_approximates_outcome _ n) fun _ => hact
    cases flow with
    | normal => exact hagain
    | «continue» => exact hagain
    | «break» => exact fun _ _ hrun => hrun
    | «return» v => exact fun _ _ hrun => hrun

/-- A loop does no more than an effect that one more round before it does not change. -/
theorem outcome_loop_least {act : Effect Flow} (hact : round c update body act = act) :
    Approximates (loop c update body).outcome act := by
  have hruns : ∀ n, Approximates ((loop c update body).run n) act := by
    intro n
    induction n with
    | zero =>
      intro i o hrun
      cases hrun
    | succ n ih =>
      rw [← hact]
      exact run_loop_approximates ih
  intro i o hrun
  obtain ⟨n, hn⟩ := (loop c update body).outcome_eq_some.mp hrun
  exact hruns n i o hn

theorem outcome_loop_congr {c' update' : Option Expr} {body' : List Statement}
    (h : round c update body = round c' update' body') :
    (loop c update body).outcome = (loop c' update' body').outcome := by
  have hleft : round c update body (loop c' update' body').outcome =
      (loop c' update' body').outcome := by
    rw [h, ← outcome_loop]
  have hright : round c' update' body' (loop c update body).outcome =
      (loop c update body).outcome := by
    rw [← h, ← outcome_loop]
  exact ext_some fun i o => ⟨outcome_loop_least hleft i o, outcome_loop_least hright i o⟩

theorem outcome_block_singleton (s : Statement) :
    (block [s]).outcome = (statement s).outcome := by
  rw [outcome_eq]
  refine Eq.trans (bind_congr fun flow => ?_) (bind_pure _)
  cases flow with
  | normal => exact outcome_eq (block [])
  | _ => rfl

theorem outcome_block_optionally (e : Option Expr) (rest : List Statement) :
    (block (e.toList.map .expr ++ rest)).outcome = optionally e (block rest).outcome := by
  cases e with
  | none => rfl
  | some e =>
    rw [outcome_block_append, Option.toList_some, List.map_singleton, outcome_block_singleton,
      outcome_eq]
    change (_ >>= _) >>= _ = _
    rw [bind_assoc]
    exact bind_congr fun _ => pure_bind _ _

/-- A body that never continues its loop comes to its end in every round that the loop goes on
after, so what runs after the round may as well stand at the end of the body. -/
theorem round_update (h : continueFreeBody body = true) :
    round c update body = round c none (body ++ update.toList.map .expr) := by
  have hend : (block (update.toList.map .expr)).outcome = optionally update (return .normal) := by
    have hblock := outcome_block_optionally update []
    rwa [List.append_nil, outcome_eq (block [])] at hblock
  funext next
  refine bind_congr fun again => ?_
  cases again with
  | false => rfl
  | true =>
    simp only [if_true]
    rw [outcome_block_append, bind_assoc]
    refine bind_congr_results fun i flow j hbody => ?_
    obtain ⟨n, hrun⟩ := (block body).outcome_eq_some.mp hbody
    have hflow : flow ≠ .continue := (neverContinues n).block h i j flow hrun
    cases flow with
    | «continue» => exact absurd rfl hflow
    | «break» => rfl
    | «return» v => rfl
    | normal =>
      refine congrFun ?_ j
      dsimp only
      rw [hend, optionally_bind, pure_bind]
      rfl

/-- A missing condition is as good as one that is always true. -/
theorem round_condition (c update : Option Expr) (body : List Statement) :
    round c update body = round (some (c.getD (.number 1.0))) update body := by
  cases c with
  | some c => rfl
  | none =>
    have hone : (Value.number 1.0).isTrue = true := by decide
    have htrue : (condition (some (.number 1.0))).outcome = (condition none).outcome := by
      rw [outcome_eq, outcome_eq (condition none)]
      change ((expr (.number 1.0)).outcome >>= _) = _
      rw [outcome_eq (expr _)]
      refine (pure_bind _ _).trans ?_
      simp only [hone]
      rfl
    funext next
    simp only [round, Option.getD_none, htrue]

theorem outcome_forLoop (init c update : Option Expr) (body : List Statement) :
    (statement (.forLoop init c update body)).outcome =
      optionally init (loop c update body).outcome := by
  rw [outcome_eq]
  cases init <;> rfl

theorem outcome_whileLoop (c : Expr) (body : List Statement) :
    (statement (.whileLoop c body)).outcome = (loop (some c) none body).outcome :=
  outcome_eq _

end Task

/-- The statements that a `for` loop is short for: what comes first, and a `while` loop with the
update at the end of its body. A missing condition is true. -/
def Statement.spelledOut (init c update : Option Expr) (body : List Statement) :
    List Statement :=
  init.toList.map .expr ++
    [.whileLoop (c.getD (.number 1.0)) (body ++ update.toList.map .expr)]

/-- A `for` loop whose body never continues it does what the statements do that it is short for:
one side ends exactly if the other does, with the same fault or flow and in the same state. For
any body, a round that the body continues goes on with the update before the condition is tested
again, and loops of both kinds end normally or with a return. -/
theorem for_is_spelled_out (init c update : Option Expr) (body : List Statement) :
    let statement := Statement.forLoop init c update body
    let rounds := Task.loop c update body
    (continueFreeBody body = true → ∀ i r, (∃ n, Eval.statement n statement i = some r) ↔
      ∃ n, Eval.block n (Statement.spelledOut init c update body) i = some r) ∧
    (Task.statement statement).outcome = Task.optionally init rounds.outcome ∧
    (∀ i j k, (Task.condition c).outcome i = some (.ok true, j) →
      (Task.block body).outcome j = some (.ok .continue, k) →
      rounds.outcome i = Task.optionally update rounds.outcome k) ∧
    (∀ n, Ends Flow.LeavesLoops (Eval.statement n statement)) ∧
    ∀ n condition, Ends Flow.LeavesLoops (Eval.statement n (.whileLoop condition body)) := by
  intro statement rounds
  refine ⟨?_, Task.outcome_forLoop init c update body, ?_, ?_, ?_⟩
  · intro hbody i r
    have hrounds : Task.round (some (c.getD (.number 1.0))) update body =
        Task.round (some (c.getD (.number 1.0))) none (body ++ update.toList.map .expr) :=
      Task.round_update hbody
    rw [← Task.round_condition] at hrounds
    have hsame : (Task.statement statement).outcome =
        (Task.block (Statement.spelledOut init c update body)).outcome := by
      rw [Task.outcome_forLoop, Task.outcome_loop_congr hrounds, Statement.spelledOut,
        Task.outcome_block_optionally, Task.outcome_block_singleton, Task.outcome_whileLoop]
    have hleft := (Task.statement statement).outcome_eq_some (i := i) (o := r)
    rw [hsame, Task.outcome_eq_some] at hleft
    exact hleft.symm
  · intro i j k hcondition hbody
    rw [Task.outcome_loop_continue hcondition hbody, Task.outcome_exprs_bind]
  · exact fun n => Task.forLoop_leavesLoops n init c update body
  · exact fun n condition => Task.whileLoop_leavesLoops n condition body

end TorqueScript
