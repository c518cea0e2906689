import Mathlib.Data.Nat.Find
import TorqueScript.Proofs.Interpreter.Plans

/-!
Runs without a budget. The outcome of a piece of code is the one that it has under every budget
that is large enough; code that does not end has none. Outcomes do what the plans say, with the
outcomes of the parts in place of their runs, so that statements can be compared by equations
between effects.
-/

namespace TorqueScript

open Effect

open Classical in
/-- What becomes of a piece of code, if it ends under any budget. -/
noncomputable def Task.outcome {α : Type} (t : Task α) : Effect α := fun i =>
  if h : ∃ n, (t.run n i).isSome then t.run (Nat.find h) i else none

/-- Carries a plan out, with no budget for its parts. -/
noncomputable def Plan.outcome : {α : Type} → Plan α → Effect α
  | _, .step s => s.effect
  | _, .part t => t.outcome
  | _, .bind p next => do
    let a ← p.outcome
    (next a).outcome
  | _, .completing id p => Effect.completing id p.outcome
  | _, .call d f args p => do
    let frame ← ofExcept fun i => i.enter d f args
    inFrame frame p.outcome

namespace Effect

variable {α β : Type}

/-- The runs under all budgets have the outcomes of `act` and no others. -/
def Settles (run : Nat → Effect α) (act : Effect α) : Prop :=
  ∀ i o, act i = some o ↔ ∃ n, run n i = some o

theorem ext_some {act act' : Effect α} (h : ∀ i o, act i = some o ↔ act' i = some o) :
    act = act' := by
  funext i
  exact Option.ext (h i)

theorem settles_const (act : Effect α) : Settles (fun _ => act) act := by
  intro i o
  exact ⟨fun hrun => ⟨0, hrun⟩, fun ⟨_, hrun⟩ => hrun⟩

/-- A budget for the first effect and one for what follows it are both within the larger of them. -/
theorem Settles.bind {run : Nat → Effect α} {act : Effect α} {runs : α → Nat → Effect β}
    {next : α → Effect β} (hact : Settles run act) (hnext : ∀ a, Settles (runs a) (next a))
    (hmono : ∀ {n m}, n ≤ m → Approximates (run n) (run m))
    (hmonos : ∀ a {n m}, n ≤ m → Approximates (runs a n) (runs a m)) :
    Settles (fun n => run n >>= fun a => runs a n) (act >>= next) := by
  rintro i ⟨r, k⟩
  simp only [bind_eq_some]
  constructor
  · rintro (⟨a, j, hfirst, hrest⟩ | ⟨fault, hfirst, hr⟩)
    · obtain ⟨n, hn⟩ := (hact i _).mp hfirst
      obtain ⟨m, hm⟩ := (hnext a j _).mp hrest
      refine ⟨max n m, Or.inl ⟨a, j, ?_, ?_⟩⟩
      · exact hmono (Nat.le_max_left n m) i _ hn
      · exact hmonos a (Nat.le_max_right n m) j _ hm
    · obtain ⟨n, hn⟩ := (hact i _).mp hfirst
      exact ⟨n, Or.inr ⟨fault, hn, hr⟩⟩
  · rintro ⟨n, ⟨a, j, hfirst, hrest⟩ | ⟨fault, hfirst, hr⟩⟩
    · exact Or.inl ⟨a, j, (hact i _).mpr ⟨n, hfirst⟩, (hnext a j _).mpr ⟨n, hrest⟩⟩
    · exact Or.inr ⟨fault, (hact i _).mpr ⟨n, hfirst⟩, hr⟩

/-- An effect that only comes before and after another one settles with it. -/
theorem Settles.between {run : Nat → Effect α} {act : Effect α} (h : Settles run act)
    (pre : Interpreter → Interpreter)
    (post : Except Fault α × Interpreter → Except Fault β × Interpreter) :
    Settles (fun n i => (run n (pre i)).map post) (fun i => (act (pre i)).map post) := by
  intro i o
  simp only [Option.map_eq_some_iff, h (pre i)]
  constructor
  · rintro ⟨o', ⟨n, hrun⟩, ho⟩
    exact ⟨n, o', hrun, ho⟩
  · rintro ⟨n, o', hrun, ho⟩
    exact ⟨o', ⟨n, hrun⟩, ho⟩

theorem completing_eq_map (id : ObjectId) (act : Effect Unit) :
    completing id act = fun i => (act i).map fun o =>
      (o.1.map fun _ => id, if o.1.isOk then o.2 else rollback id o.2) := by
  funext i
  unfold completing
  split <;> simp_all [Except.map, Except.isOk, Except.toBool]

theorem inFrame_eq_map (frame : Frame) (act : Effect α) :
    inFrame frame act = fun i => (act (i.pushFrame frame)).map fun o => (o.1, o.2.popFrame) := by
  funext i
  unfold inFrame
  split <;> simp_all

end Effect

/-- The outcome of a piece of code is that of its run under some budget. -/
theorem Task.outcome_eq_some {α : Type} {t : Task α} {i : Interpreter}
    {o : Except Fault α × Interpreter} : t.outcome i = some o ↔ ∃ n, t.run n i = some o := by
  unfold outcome
  constructor
  · intro hrun
    split at hrun
    · exact ⟨_, hrun⟩
    · cases hrun
  · rintro ⟨n, hrun⟩
    have hends : ∃ n, (t.run n i).isSome := ⟨n, by rw [hrun]; rfl⟩
    rw [dif_pos hends]
    -- The least budget under which the run ends gives what the given one gives.
    obtain ⟨o', ho'⟩ := Option.isSome_iff_exists.mp (Nat.find_spec hends)
    have hle : Nat.find hends ≤ n := Nat.find_min' hends (by rw [hrun]; rfl)
    have hsame := t.approximates hle i o' ho'
    rw [hrun] at hsame
    cases hsame
    exact ho'

theorem Plan.settles {α : Type} (p : Plan α) : Settles (fun n => p.run n) p.outcome := by
  induction p with
  | step s => exact settles_const s.effect
  | part t => exact fun i o => t.outcome_eq_some
  | bind p next ihp ihnext =>
    exact ihp.bind ihnext (fun hle => p.run_le hle) fun a _ _ hle => (next a).run_le hle
  | completing id p ih =>
    simp only [run, outcome, completing_eq_map]
    exact ih.between (fun i => i) _
  | call d f args p ih =>
    refine (settles_const _).bind (fun frame => ?_) (fun _ _ _ hrun => hrun)
      fun frame _ _ hle => (p.run_le hle).inFrame frame
    simp only [inFrame_eq_map]
    exact ih.between (fun i => i.pushFrame frame) _

theorem Plan.outcome_eq_some {α : Type} {p : Plan α} {i : Interpreter}
    {o : Except Fault α × Interpreter} : p.outcome i = some o ↔ ∃ n, p.run n i = some o :=
  p.settles i o

/-- Outcomes do what the plans say. -/
theorem Task.outcome_eq {α : Type} (t : Task α) : t.outcome = t.plan.outcome := by
  apply ext_some
  intro i o
  rw [t.outcome_eq_some, Plan.outcome_eq_some]
  constructor
  · rintro ⟨n, hrun⟩
    cases n with
    | zero =>
      rw [t.run_zero] at hrun
      cases hrun
    | succ n =>
      rw [← t.run_plan] at hrun
      exact ⟨n, hrun⟩
  · rintro ⟨n, hrun⟩
    rw [t.run_plan] at hrun
    exact ⟨n + 1, hrun⟩

end TorqueScript
