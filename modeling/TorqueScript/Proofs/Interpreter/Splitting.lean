import TorqueScript.Proofs.Interpreter.Operations
import TorqueScript.Proofs.Program.Leaves

/-!
Programs in parts. A program starts without local variables, and that is the only trace of
where it starts: the second part of a program that uses none in its code outside functions
runs as it would alone. Calls keep to variables of their own, so nothing is asked of the
bodies of functions.
-/

namespace TorqueScript

open Effect

mutual

/-- The leaves of a statement without those in the bodies of functions. -/
def Statement.outerLeaves : Statement → List Leaf
  | .expr e => e.leaves
  | .branch c body alternative =>
    c.leaves ++ outerLeavesOfBody body ++ outerLeavesOfOption alternative
  | .whileLoop c body => c.leaves ++ outerLeavesOfBody body
  | .forLoop i c u body =>
    leavesOfOption i ++ leavesOfOption c ++ leavesOfOption u ++ outerLeavesOfBody body
  | .switch _ subject cases default =>
    subject.leaves ++ outerLeavesOfCases cases ++ outerLeavesOfOption default
  | .break => []
  | .continue => []
  | .return value => leavesOfOption value
  | .function _ => []
  | .package _ _ => []
  | .datablock d => d.leaves

def outerLeavesOfBody : List Statement → List Leaf
  | [] => []
  | s :: rest => s.outerLeaves ++ outerLeavesOfBody rest

def outerLeavesOfOption : Option (List Statement) → List Leaf
  | none => []
  | some body => outerLeavesOfBody body

def outerLeavesOfCases : List SwitchCase → List Leaf
  | [] => []
  | ⟨labels, body⟩ :: rest =>
    leavesOfList labels ++ outerLeavesOfBody body ++ outerLeavesOfCases rest

end

/-- The leaves of a program without those in the bodies of functions. -/
def Program.outerLeaves (p : Program) : List Leaf :=
  outerLeavesOfBody p

theorem outerLeavesOfBody_getD (body : Option (List Statement)) :
    outerLeavesOfBody (body.getD []) = outerLeavesOfOption body := by
  cases body <;> rfl

/-- None of the leaves is a local variable. -/
def NoLocal (leaves : List Leaf) : Prop :=
  ∀ name, Leaf.variable .local name ∉ leaves

@[simp]
theorem noLocal_nil : NoLocal [] :=
  fun _ => List.not_mem_nil

@[simp]
theorem noLocal_append {ls ls' : List Leaf} : NoLocal (ls ++ ls') ↔ NoLocal ls ∧ NoLocal ls' := by
  simp [NoLocal, forall_and]

@[simp]
theorem noLocal_cons {l : Leaf} {ls : List Leaf} :
    NoLocal (l :: ls) ↔ (∀ name, Leaf.variable .local name ≠ l) ∧ NoLocal ls := by
  simp [NoLocal, forall_and]

/-- The leaves of a piece of code. A call has none: what it runs is a body. -/
def Task.outerLeaves {α : Type} : Task α → List Leaf
  | .expr e => e.leaves
  | .exprs es => leavesOfList es
  | .place p => p.leaves
  | .optionalText e => leavesOfOption e
  | .className c => c.leaves
  | .create d => d.leaves
  | .initFields _ fields => leavesOfFields fields
  | .createChildren _ children => leavesOfChildren children
  | .invoke _ _ => []
  | .block body => outerLeavesOfBody body
  | .statement s => s.outerLeaves
  | .condition c => leavesOfOption c
  | .loop c update body => leavesOfOption c ++ leavesOfOption update ++ outerLeavesOfBody body
  | .switch _ _ cases default => outerLeavesOfCases cases ++ outerLeavesOfOption default
  | .anyMatch _ _ labels => leavesOfList labels

/-- The location is no local variable. -/
def Location.IsOuter (l : Location) : Prop :=
  ∀ key, l ≠ .local key

theorem isOuter_global (key : String) : Location.IsOuter (.global key) := by
  intro _ h
  cases h

theorem isOuter_field (id : ObjectId) (name : String) : Location.IsOuter (.field id name) := by
  intro _ h
  cases h

/-- What the results of code without local variables are like: its places are elsewhere. -/
def Task.Answers {α : Type} : Task α → α → Prop
  | .place _ => Location.IsOuter
  | _ => fun _ => True

namespace Effect

variable {α β : Type}

/-- Where no call is in progress, the effect neither uses nor changes local variables. Its results
have the property `Q`. -/
def Outer (Q : α → Prop) (act : Effect α) : Prop :=
  ∀ i : Interpreter, ∃ outcome : Option (Except Fault α × Interpreter),
    (∀ a j, outcome = some (.ok a, j) → Q a) ∧
    ∀ top, act (i.withCalls [] top) = outcome.map fun (r, j) => (r, j.withCalls [] top)

theorem Isolated.outer {act : Effect α} (h : Isolated act) : Outer (fun _ => True) act := by
  intro i
  obtain ⟨outcome, hrun⟩ := h i 0
  exact ⟨outcome, fun _ _ _ => trivial, fun top => hrun [] top rfl⟩

theorem Outer.bind {Q : α → Prop} {R : β → Prop} {act : Effect α} {next : α → Effect β}
    (hact : Outer Q act) (hnext : ∀ a, Q a → Outer R (next a)) : Outer R (act >>= next) := by
  intro i
  obtain ⟨outcome, hQ, hrun⟩ := hact i
  rcases outcome with _ | ⟨fault | a, j⟩
  · refine ⟨none, by simp, fun top => ?_⟩
    rw [bind_apply, hrun top]
    rfl
  · refine ⟨some (.error fault, j), by simp, fun top => ?_⟩
    rw [bind_apply, hrun top]
    rfl
  · obtain ⟨outcome', hR, hrun'⟩ := hnext a (hQ a j rfl) j
    refine ⟨outcome', hR, fun top => ?_⟩
    rw [bind_apply, hrun top]
    exact hrun' top

theorem Outer.completing {act : Effect Unit} (h : Outer (fun _ => True) act) (id : ObjectId) :
    Outer (fun _ => True) (completing id act) := by
  intro i
  obtain ⟨outcome, -, hrun⟩ := h i
  rcases outcome with _ | ⟨fault | _, j⟩
  · refine ⟨none, by simp, fun top => ?_⟩
    rw [Effect.completing, hrun top]
    rfl
  · refine ⟨some (.error fault, rollback id j), by simp, fun top => ?_⟩
    rw [Effect.completing, hrun top]
    simp only [Option.map_some, rollback, Interpreter.withCalls]
    cases j.objects.delete id <;> rfl
  · refine ⟨some (.ok id, j), by simp, fun top => ?_⟩
    rw [Effect.completing, hrun top]
    rfl

end Effect

/-- The step uses no local variable. -/
def Step.IsOuter {α : Type} : Step α → Prop
  | .variablePlace scope _ _ => scope = .global
  | .load l => l.IsOuter
  | .store l _ => l.IsOuter
  | _ => True

/-- Outside calls there is nothing that a parent call could go on from. -/
theorem Effect.outer_dispatchCall (qualifier : Option String) (name : String) (args : Arguments) :
    Outer (fun _ => True) (ofExcept fun i => i.dispatchCall qualifier name args) := by
  cases hparent : qualifier.any Interpreter.isParentQualifier with
  | false =>
    simp only [Interpreter.dispatchCall, hparent]
    exact (isolated_lookup fun _ => rfl).outer
  | true =>
    simp only [Interpreter.dispatchCall, hparent, if_true]
    exact fun i => ⟨some (.error (.noParent name), i), by simp, fun _ => rfl⟩

theorem Step.outer {α : Type} {s : Step α} (hs : s.IsOuter) : Outer (fun _ => True) s.effect := by
  cases s with
  | variablePlace scope name subscripts =>
    obtain rfl : scope = .global := hs
    exact fun i =>
      ⟨some (.ok (.global (i.fold (Value.elementName name subscripts))), i), by simp, fun _ => rfl⟩
  | load l =>
    cases l with
    | «local» key => exact absurd rfl (hs key)
    | global key => exact fun i => ⟨some (.ok (i.globals.value key), i), by simp, fun _ => rfl⟩
    | field id name => exact (isolated_lookup fun _ => rfl).outer
  | store l v =>
    cases l with
    | «local» key => exact absurd rfl (hs key)
    | global key => exact fun i => ⟨some (.ok (), i.setGlobalKey key v), by simp, fun _ => rfl⟩
    | field id name =>
      exact (isolated_changeObjects fun o => (o.setField id name v).map ((), ·)).outer
  | dispatchCall qualifier name args => exact outer_dispatchCall qualifier name args
  | instantiate c name parent datablock =>
    exact (isolated_changeObjects fun o => o.instantiate c name parent datablock).outer
  | setField id name v =>
    exact (isolated_changeObjects fun o => (o.setField id name v).map ((), ·)).outer
  | addChild group child =>
    exact (isolated_changeObjects fun o => (o.addChild group child).map ((), ·)).outer
  | define f =>
    exact (isolated_changeFunctions fun r =>
      r.define (r.key f.qualifier f.name) (.script f)).outer
  | declare name functions =>
    exact (isolated_changeFunctions fun r =>
      r.declare name (functions.map fun f => (r.key f.qualifier f.name, .script f))).outer
  | builtin f args => exact (isolated_ofBuiltin f args).outer
  | host name f args => exact (isolated_host name f args).outer
  | _ => exact (isolated_lookup fun _ => rfl).outer

namespace Plan

variable {α β : Type} {n : Nat}

/-- Outside calls the plan, run under the budget, neither uses nor changes local variables. -/
def Outer (n : Nat) (Q : α → Prop) (p : Plan α) : Prop :=
  Effect.Outer Q (p.run n)

theorem outer_pure {Q : α → Prop} {a : α} (ha : Q a) : (pure a : Plan α).Outer n Q := by
  intro i
  refine ⟨some (.ok a, i), fun b j hb => ?_, fun _ => rfl⟩
  cases hb
  exact ha

theorem outer_step {s : Step α} (hs : s.IsOuter) : (step s).Outer n fun _ => True :=
  Step.outer hs

theorem Outer.bind {Q : α → Prop} {R : β → Prop} {p : Plan α} {next : α → Plan β}
    (hp : p.Outer n Q) (hnext : ∀ a, Q a → (next a).Outer n R) : (p >>= next).Outer n R :=
  Effect.Outer.bind hp hnext

theorem Outer.completing {p : Plan Unit} (hp : p.Outer n fun _ => True) (id : ObjectId) :
    (completing id p).Outer n fun _ => True :=
  Effect.Outer.completing hp id

section Code

variable (ih : ∀ {β : Type} (t : Task β), NoLocal t.outerLeaves → (part t).Outer n t.Answers)

include ih

theorem outer_expr {e : Expr} (he : NoLocal e.leaves) : e.plan.Outer n fun _ => True := by
  cases e with
  | number x => exact outer_pure trivial
  | text s => exact outer_pure trivial
  | bareword s => exact outer_pure trivial
  | read p => exact (ih (.place p) he).bind fun l hl => outer_step hl
  | unary op e => exact (ih (.expr e) he).bind fun v _ => outer_pure trivial
  | binary op l r =>
    rw [Expr.leaves, noLocal_append] at he
    have hleft := ih (.expr l) he.1
    have hright := ih (.expr r) he.2
    have hbool := hright.bind fun w _ =>
      outer_pure (n := n) (Q := fun _ => True) (a := Value.ofBool w.isTrue) trivial
    cases op with
    | logicalAnd =>
      refine hleft.bind fun v _ => ?_
      split
      · exact hbool
      · exact outer_pure trivial
    | logicalOr =>
      refine hleft.bind fun v _ => ?_
      split
      · exact outer_pure trivial
      · exact hbool
    | _ => exact hleft.bind fun v _ => hright.bind fun w _ => outer_step trivial
  | conditional c a b =>
    rw [Expr.leaves, noLocal_append, noLocal_append] at he
    refine (ih (.expr c) he.1.1).bind fun v _ => ?_
    split
    · exact ih (.expr a) he.1.2
    · exact ih (.expr b) he.2
  | assign p op e =>
    rw [Expr.leaves, noLocal_append] at he
    have hplace := ih (.place p) he.1
    have hvalue := ih (.expr e) he.2
    cases op with
    | none =>
      exact hplace.bind fun l hl => hvalue.bind fun v _ =>
        (outer_step (s := .store l v) hl).bind fun _ _ => outer_pure trivial
    | some op =>
      exact hplace.bind fun l hl => hvalue.bind fun w _ =>
        (outer_step (s := .load l) hl).bind fun old _ =>
          (outer_step (s := .answer (op.apply old w)) trivial).bind fun v _ =>
            (outer_step (s := .store l v) hl).bind fun _ _ => outer_pure trivial
  | step p op =>
    exact (ih (.place p) he).bind fun l hl => (outer_step (s := .load l) hl).bind fun old _ =>
      (outer_step (s := .store l (.number (op.apply old.toNumber))) hl).bind fun _ _ =>
        outer_pure trivial
  | call qualifier name args =>
    have hargs : NoLocal (leavesOfList args) := by
      cases qualifier <;> simp_all [Expr.leaves]
    exact (ih (.exprs args) hargs).bind fun vs _ =>
      (outer_step (s := .dispatchCall qualifier name vs) trivial).bind fun d _ =>
        ih (.invoke d vs) noLocal_nil
  | method e name args =>
    rw [Expr.leaves, noLocal_append, noLocal_cons] at he
    exact (ih (.expr e) he.1).bind fun v _ =>
      (outer_step (s := .resolve v) trivial).bind fun id _ =>
        (ih (.exprs args) he.2.2).bind fun vs _ =>
          (outer_step (s := .dispatchMethod id name) trivial).bind fun d _ =>
            ih (.invoke d (.object id :: vs)) noLocal_nil
  | create d => exact (ih (.create d) he).bind fun id _ => outer_pure trivial

theorem outer_statement {s : Statement} (hs : NoLocal s.outerLeaves) :
    s.plan.Outer n fun _ => True := by
  cases s with
  | expr e => exact (ih (.expr e) hs).bind fun v _ => outer_pure trivial
  | branch c consequence alternative =>
    rw [Statement.outerLeaves, noLocal_append, noLocal_append, ← outerLeavesOfBody_getD] at hs
    refine (ih (.expr c) hs.1.1).bind fun v _ => ?_
    split
    · exact ih (.block consequence) hs.1.2
    · exact ih (.block (alternative.getD [])) hs.2
  | whileLoop c body =>
    refine ih (.loop (some c) none body) ?_
    simpa [Statement.outerLeaves, Task.outerLeaves, leavesOfOption] using hs
  | forLoop init c update body =>
    rw [Statement.outerLeaves, noLocal_append, noLocal_append, noLocal_append] at hs
    have hloop := ih (.loop c update body) (by simp [Task.outerLeaves, hs])
    cases init with
    | none => exact hloop
    | some init => exact (ih (.expr init) hs.1.1.1).bind fun _ _ => hloop
  | switch kind subject cases default =>
    rw [Statement.outerLeaves, noLocal_append, noLocal_append] at hs
    refine (ih (.expr subject) hs.1.1).bind fun v _ => ih (.switch kind v cases default) ?_
    simp [Task.outerLeaves, hs]
  | «break» => exact outer_pure trivial
  | «continue» => exact outer_pure trivial
  | «return» value =>
    cases value with
    | none => exact outer_pure trivial
    | some e => exact (ih (.expr e) hs).bind fun v _ => outer_pure trivial
  | function f => exact (outer_step (s := .define f) trivial).bind fun _ _ => outer_pure trivial
  | package name functions =>
    exact (outer_step (s := .declare name functions) trivial).bind fun _ _ => outer_pure trivial
  | datablock d =>
    have hfields : NoLocal (leavesOfFields d.fields) := by
      simp_all [Statement.outerLeaves, DatablockDecl.leaves]
    have hinit := fun id => (ih (.initFields id d.fields) hfields).completing id
    exact (outer_step (s := .datablockParent d) trivial).bind fun parent _ =>
      (outer_step (s := .instantiate d.className (some d.name) parent true) trivial).bind
        fun id _ => (hinit id).bind fun _ _ => outer_pure trivial

theorem outer_task (t : Task α) (ht : NoLocal t.outerLeaves) :
    t.plan.Outer n t.Answers := by
  cases t with
  | expr e => exact outer_expr ih ht
  | exprs es =>
    cases es with
    | nil => exact outer_pure trivial
    | cons e es =>
      rw [Task.outerLeaves, leavesOfList, noLocal_append] at ht
      exact (ih (.expr e) ht.1).bind fun v _ => (ih (.exprs es) ht.2).bind fun vs _ =>
        outer_pure trivial
  | place p =>
    cases p with
    | «variable» scope name subscripts =>
      rw [Task.outerLeaves, Place.leaves, noLocal_cons] at ht
      refine (ih (.exprs subscripts) ht.2).bind fun vs _ => ?_
      cases scope with
      | «local» => exact absurd rfl (ht.1 name)
      | global =>
        intro i
        refine ⟨some (.ok (.global (i.fold (Value.elementName name vs))), i), fun l j hl => ?_,
          fun _ => rfl⟩
        cases hl
        exact isOuter_global _
    | field e name subscripts =>
      rw [Task.outerLeaves, Place.leaves, noLocal_append, noLocal_cons] at ht
      exact (ih (.expr e) ht.1).bind fun v _ =>
        (outer_step (s := .resolve v) trivial).bind fun id _ =>
          (ih (.exprs subscripts) ht.2.2).bind fun vs _ => outer_pure (isOuter_field _ _)
  | optionalText e =>
    cases e with
    | none => exact outer_pure trivial
    | some e => exact (ih (.expr e) ht).bind fun v _ => outer_pure trivial
  | className c =>
    cases c with
    | named name => exact outer_pure trivial
    | computed e => exact (ih (.expr e) ht).bind fun v _ => outer_pure trivial
  | create d =>
    obtain ⟨c, name, fields, children⟩ := d
    rw [Task.outerLeaves, ObjectDecl.leaves, noLocal_append, noLocal_append, noLocal_append] at ht
    exact (ih (.className c) ht.1.1.1).bind fun c _ => (ih (.optionalText name) ht.1.1.2).bind
      fun name _ => (outer_step (s := .instantiate c name none false) trivial).bind fun id _ =>
        ((ih (.initFields id fields) ht.1.2).bind fun _ _ =>
          ih (.createChildren id children) ht.2).completing id
  | initFields id fields =>
    cases fields with
    | nil => exact outer_pure trivial
    | cons field rest =>
      obtain ⟨name, subscripts, e⟩ := field
      rw [Task.outerLeaves, leavesOfFields, noLocal_append, noLocal_append, noLocal_cons] at ht
      exact (ih (.exprs subscripts) ht.1.1.2).bind fun vs _ => (ih (.expr e) ht.1.2).bind fun v _ =>
        (outer_step (s := .setField id (Value.elementName name vs) v) trivial).bind fun _ _ =>
          ih (.initFields id rest) ht.2
  | createChildren id children =>
    cases children with
    | nil => exact outer_pure trivial
    | cons d rest =>
      rw [Task.outerLeaves, leavesOfChildren, noLocal_append] at ht
      exact (ih (.create d) ht.1).bind fun child _ =>
        (outer_step (s := .addChild id child) trivial).bind fun _ _ =>
          ih (.createChildren id rest) ht.2
  | invoke d args =>
    rw [Outer, Task.plan, d.run_plan]
    exact (Eval.isolated_invoke (n + 1) d args).outer
  | block body =>
    cases body with
    | nil => exact outer_pure trivial
    | cons s rest =>
      rw [Task.outerLeaves, outerLeavesOfBody, noLocal_append] at ht
      refine (ih (.statement s) ht.1).bind fun flow _ => ?_
      cases flow with
      | normal => exact ih (.block rest) ht.2
      | _ => exact outer_pure trivial
  | statement s => exact outer_statement ih ht
  | condition c =>
    cases c with
    | none => exact outer_pure trivial
    | some c => exact (ih (.expr c) ht).bind fun v _ => outer_pure trivial
  | loop c update body =>
    have hagain := ih (.loop c update body) ht
    rw [Task.outerLeaves, noLocal_append, noLocal_append] at ht
    have hupdate : NoLocal (leavesOfList update.toList) := by
      cases update with
      | none => exact noLocal_nil
      | some e => simpa [leavesOfList, leavesOfOption] using ht.1.2
    have hround := (ih (.exprs update.toList) hupdate).bind fun _ _ => hagain
    refine (ih (.condition c) ht.1.1).bind fun again _ => ?_
    split
    · refine (ih (.block body) ht.2).bind fun flow _ => ?_
      cases flow with
      | normal => exact hround
      | «continue» => exact hround
      | _ => exact outer_pure trivial
    · exact outer_pure trivial
  | switch kind subject cases default =>
    cases cases with
    | nil =>
      refine ih (.block (default.getD [])) ?_
      rw [Task.outerLeaves, outerLeavesOfBody_getD]
      simpa [Task.outerLeaves, outerLeavesOfCases] using ht
    | cons case rest =>
      obtain ⟨labels, body⟩ := case
      rw [Task.outerLeaves, outerLeavesOfCases, noLocal_append, noLocal_append,
        noLocal_append] at ht
      refine (ih (.anyMatch kind subject labels) ht.1.1.1).bind fun found _ => ?_
      split
      · exact ih (.block body) ht.1.1.2
      · refine ih (.switch kind subject rest default) ?_
        simp [Task.outerLeaves, ht]
  | anyMatch kind subject labels =>
    cases labels with
    | nil => exact outer_pure trivial
    | cons e rest =>
      rw [Task.outerLeaves, leavesOfList, noLocal_append] at ht
      refine (ih (.expr e) ht.1).bind fun label _ => ?_
      split
      · exact outer_pure trivial
      · exact ih (.anyMatch kind subject rest) ht.2

end Code

/-- Code without local variables neither uses nor changes any outside calls. -/
theorem outer_part (n : Nat) (t : Task α) (ht : NoLocal t.outerLeaves) :
    (part t).Outer n t.Answers := by
  induction n generalizing α with
  | zero =>
    rw [Outer, run, t.run_zero]
    exact fun i => ⟨none, by simp, fun _ => rfl⟩
  | succ n ih =>
    rw [Outer, run, ← t.run_plan]
    exact outer_task ih t ht

theorem outer_topPlan (n : Nat) {s : Statement} (hs : NoLocal s.outerLeaves) :
    s.topPlan.Outer n fun _ => True := by
  have hstatement := outer_part n (.statement s) hs
  cases s with
  | expr e => exact outer_part n (.expr e) hs
  | _ => exact hstatement.bind fun _ _ => outer_pure trivial

end Plan

namespace Interpreter

/-- An interpreter without the local variables of code outside functions. -/
def withoutLocals (i : Interpreter) : Interpreter :=
  { i with topLocals := ∅ }

/-- A statement without local variables runs alike whatever they are, and keeps them. -/
theorem runStatement_withCalls (n : Nat) {s : Statement} (hs : NoLocal s.outerLeaves)
    (i : Interpreter) : ∃ outcome : Option (Value × Interpreter), ∀ top,
      (i.withCalls [] top).runStatement n s =
        outcome.map fun (v, j) => (v, j.withCalls [] top) := by
  obtain ⟨outcome, -, hrun⟩ := Plan.outer_topPlan n hs i
  rw [s.run_topPlan] at hrun
  rcases outcome with _ | ⟨fault | v, j⟩
  · refine ⟨none, fun top => ?_⟩
    rw [runStatement, hrun top]
    rfl
  · refine ⟨some (.undefined, { j with faults := j.faults ++ [fault] }), fun top => ?_⟩
    rw [runStatement, hrun top]
    rfl
  · refine ⟨some (v, j), fun top => ?_⟩
    rw [runStatement, hrun top]
    rfl

theorem runStatements_withCalls (n : Nat) {program : Program} (h : NoLocal program.outerLeaves)
    (last : Value) (i : Interpreter) : ∃ outcome : Option (Value × Interpreter), ∀ top,
      runStatements n program last (i.withCalls [] top) =
        outcome.map fun (v, j) => (v, j.withCalls [] top) := by
  induction program generalizing last i with
  | nil => exact ⟨some (last, i), fun _ => rfl⟩
  | cons s rest ih =>
    rw [Program.outerLeaves, outerLeavesOfBody, noLocal_append] at h
    obtain ⟨outcome, hfirst⟩ := runStatement_withCalls n h.1 i
    rcases outcome with _ | ⟨v, j⟩
    · refine ⟨none, fun top => ?_⟩
      rw [runStatements, hfirst top]
      rfl
    · obtain ⟨outcome, hrest⟩ := ih h.2 v j
      refine ⟨outcome, fun top => ?_⟩
      rw [runStatements, hfirst top]
      exact hrest top

theorem runStatements_append (n : Nat) (first second : Program) (last : Value) (i : Interpreter) :
    runStatements n (first ++ second) last i =
      (runStatements n first last i).bind fun (v, j) => runStatements n second v j := by
  induction first generalizing last i with
  | nil => rfl
  | cons s rest ih =>
    rw [List.cons_append, runStatements, runStatements]
    split
    · rfl
    · exact ih _ _

theorem frames_runStatements_cons {n : Nat} {s : Statement} {rest : List Statement}
    {last v : Value} {i j : Interpreter} (h : runStatements n (s :: rest) last i = some (v, j)) :
    j.frames = [] := by
  rw [runStatements] at h
  split at h
  · cases h
  · rename_i w k hfirst
    exact frames_runStatements rest (frames_runStatement hfirst) h

/-- The value of a program that is not empty does not depend on a value before it. -/
theorem runStatements_last (n : Nat) {program : Program} (h : program ≠ []) (last last' : Value)
    (i : Interpreter) : runStatements n program last i = runStatements n program last' i := by
  cases program with
  | nil => exact absurd rfl h
  | cons s rest => rfl

/-- A program can be split before any of its statements, if none from there on uses a local
variable in its code outside function bodies: running the first part and then the second ends
under the same budgets as running the whole, with the same value, and in the same state but for
the local variables, also where statements of the first part end in faults. -/
theorem runProgram_append (budget : Nat) (i : Interpreter) (first second : Program)
    (hsecond : second ≠ []) (hlocal : NoLocal second.outerLeaves) :
    ((i.runProgram budget first).bind fun (_, j) => j.runProgram budget second).map
        (Prod.map id withoutLocals) =
      (i.runProgram budget (first ++ second)).map (Prod.map id withoutLocals) := by
  cases first with
  | nil => rfl
  | cons s rest =>
    rw [runProgram, runProgram, runStatements_append]
    cases hfirst : runStatements budget (s :: rest) .undefined { i with topLocals := ∅ } with
    | none => rfl
    | some outcome =>
      obtain ⟨v, j⟩ := outcome
      have hframes : j.frames = [] := frames_runStatements_cons hfirst
      have hj : j = j.withCalls [] j.topLocals := by
        rw [← hframes, withCalls_self]
      obtain ⟨outcome, hrun⟩ := runStatements_withCalls budget hlocal v j
      have hwhole := hrun j.topLocals
      have halone := hrun ∅
      rw [← hj] at hwhole
      rw [runStatements_last budget hsecond v .undefined] at halone
      have hstart : { j with topLocals := ∅ } = j.withCalls [] ∅ := by
        rw [← hframes]
        rfl
      simp only [Option.bind_some, runProgram, hstart, halone, hwhole]
      cases outcome <;> rfl

/-- The first part sets a local variable, defines a function with one of the same name, and ends in
a fault; the second calls the function. -/
theorem runProgram_append_fault :
    let x : Place := .variable .local "x" []
    let f : FunctionDecl := ⟨none, "twice", ["x"],
      [.return (some (.binary .concat (.read x) (.read x)))]⟩
    let first : Program :=
      [.expr (.assign x none (.text "a")), .function f, .expr (.call none "missing" [])]
    let second : Program :=
      [.expr (.assign (.variable .global "g" []) none (.call none "twice" [.text "b"]))]
    let i : Interpreter :=
      { settings := {}, functions := .empty false, objects := .new false }
    second ≠ [] ∧ NoLocal second.outerLeaves ∧
    ((i.runProgram 9 first).bind fun (_, j) => j.runProgram 9 second).map
        (Prod.map id withoutLocals) =
      (i.runProgram 9 (first ++ second)).map (Prod.map id withoutLocals) ∧
    (i.runProgram 9 (first ++ second)).map
        (fun o => (o.1.toText, (o.2.getGlobal "g").toText, o.2.faults.length)) =
      some ("bb", "bb", 1) := by
  intro x f first second i
  have hsecond : second ≠ [] := List.cons_ne_nil _ _
  have hlocal : NoLocal second.outerLeaves := by
    simp [second, Program.outerLeaves, outerLeavesOfBody, Statement.outerLeaves, Expr.leaves,
      Place.leaves, leavesOfList]
  refine ⟨hsecond, hlocal, runProgram_append 9 i first second hsecond hlocal, ?_⟩
  simp only [i, first, second, f, x]
  decide +kernel

end Interpreter

end TorqueScript
