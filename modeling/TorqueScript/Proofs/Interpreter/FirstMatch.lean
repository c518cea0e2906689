import TorqueScript.Proofs.Interpreter.Outcomes

/-!
Switches search for the first label that matches. The cases are read as one list of labels,
each with the body that it selects. The labels are evaluated in that order, each in the state
that the one before it left, and no further than to the first that matches. How its body ends
is how the switch ends, so that a loop around the switch sees what leaves the body.
-/

namespace TorqueScript

open Effect

namespace Task

/-- What comes after some statements runs if they end normally. -/
theorem outcome_block_append (before rest : List Statement) :
    (block (before ++ rest)).outcome = (do
      let flow ← (block before).outcome
      match flow with
      | .normal => (block rest).outcome
      | flow => return flow) := by
  induction before with
  | nil =>
    rw [outcome_eq (block [])]
    exact (pure_bind _ _).symm
  | cons s before ih =>
    rw [List.cons_append, outcome_eq, outcome_eq (block (s :: before))]
    refine Eq.trans (bind_congr fun flow => ?_) (bind_assoc _ _ _).symm
    cases flow with
    | normal => exact ih
    | _ => exact (pure_bind _ _).symm

theorem outcome_loop_continue {c update : Option Expr} {body : List Statement}
    {i j k : Interpreter} (hc : (condition c).outcome i = some (.ok true, j))
    (hbody : (block body).outcome j = some (.ok .continue, k)) :
    (loop c update body).outcome i = (do
      let _ ← (exprs update.toList).outcome
      (loop c update body).outcome : Effect Flow) k := by
  rw [outcome_eq (loop c update body)]
  change ((condition c).outcome >>= _) i = _
  rw [bind_apply, hc]
  change ((block body).outcome >>= _) j = _
  rw [bind_apply, hbody]
  rw [← outcome_eq (loop c update body)]
  rfl

end Task

end TorqueScript
