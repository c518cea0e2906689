import TorqueScript.Proofs.Functions.Bodies
import TorqueScript.Proofs.Interpreter.DepthLimit

/-!
Programs without loops end. Bodies come from a registry that the program changes while it runs,
so the code alone does not bound a run. Three things together do: how many calls may still be
nested, how many arguments are left to a call by name, which makes no frame, and the size of
the code.
-/

namespace TorqueScript

open Effect

mutual

def Statement.loopFree : Statement → Bool
  | .branch _ consequence alternative => loopFreeBody consequence && loopFreeOption alternative
  | .whileLoop _ _ => false
  | .forLoop _ _ _ _ => false
  | .switch _ _ cases default => loopFreeCases cases && loopFreeOption default
  | .function f => f.loopFree
  | .package _ functions => loopFreeFunctions functions
  | _ => true

def loopFreeBody : List Statement → Bool
  | [] => true
  | s :: rest => s.loopFree && loopFreeBody rest

def loopFreeOption : Option (List Statement) → Bool
  | none => true
  | some body => loopFreeBody body

def loopFreeCases : List SwitchCase → Bool
  | [] => true
  | ⟨_, body⟩ :: rest => loopFreeBody body && loopFreeCases rest

def FunctionDecl.loopFree : FunctionDecl → Bool
  | ⟨_, _, _, body⟩ => loopFreeBody body

def loopFreeFunctions : List FunctionDecl → Bool
  | [] => true
  | f :: rest => f.loopFree && loopFreeFunctions rest

end

/-- No block of the program has a loop, also not in functions and packages. -/
def Program.LoopFree (p : Program) : Prop :=
  loopFreeBody p = true

theorem loopFreeBody_getD {body : Option (List Statement)} (h : loopFreeOption body = true) :
    loopFreeBody (body.getD []) = true := by
  cases body with
  | none => rfl
  | some body => exact h

theorem loopFree_of_mem {functions : List FunctionDecl} (h : loopFreeFunctions functions = true)
    {f : FunctionDecl} (hf : f ∈ functions) : f.loopFree = true := by
  induction functions with
  | nil => cases hf
  | cons first rest ih =>
    rw [loopFreeFunctions, Bool.and_eq_true] at h
    rcases List.mem_cons.mp hf with rfl | hf
    · exact h.1
    · exact ih h.2 hf

theorem FunctionDecl.loopFree_body {f : FunctionDecl} (h : f.loopFree = true) :
    loopFreeBody f.body = true := by
  cases f
  exact h

/-- Scripts have no loops. Calls by name do not lie under the empty name, so that one without
arguments does not call itself. -/
def Callable.LoopFree (k : FunctionKey) : Callable → Prop
  | .script f => f.loopFree = true
  | .byName => k.name ≠ ""
  | _ => True

def Dispatch.LoopFree (d : Dispatch) : Prop :=
  d.definition.body.LoopFree d.definition.slot.key

def Task.LoopFree {α : Type} : Task α → Prop
  | .invoke d _ => d.LoopFree
  | .block body => loopFreeBody body = true
  | .statement s => s.loopFree = true
  | .loop _ _ _ => False
  | .switch _ _ cases default => loopFreeCases cases = true ∧ loopFreeOption default = true
  | _ => True

def Step.LoopFree {α : Type} : Step α → Prop
  | .define f => f.loopFree = true
  | .declare _ functions => loopFreeFunctions functions = true
  | _ => True

theorem Functions.Only.resolveAlong {β : Type} {P : FunctionKey → β → Prop} {r : Functions β}
    (h : r.Only P) {name : String} {chain : List String} {found : Definition β × List String}
    (hfound : r.resolveAlong name chain = some found) : P found.1.slot.key found.1.body := by
  induction chain with
  | nil => cases hfound
  | cons q rest ih =>
    rw [Functions.resolveAlong] at hfound
    split at hfound
    · rename_i definition hresolve
      cases hfound
      exact h.resolve hresolve
    · exact ih hfound

section Lookup

variable {P : FunctionKey → Callable → Prop} {i : Interpreter} (h : i.functions.Only P)

include h

theorem Functions.Only.dispatchAlong {chain : List String} {name : String}
    {receiver : Option ObjectId} {d : Dispatch}
    (hd : i.dispatchAlong chain name receiver = some d) :
    P d.definition.slot.key d.definition.body := by
  obtain ⟨found, hfound, rfl⟩ := Option.map_eq_some_iff.mp hd
  exact h.resolveAlong hfound

theorem Functions.Only.dispatchStatic {qualifier : Option String} {name : String}
    {args : Arguments} {d : Dispatch} (hd : i.dispatchStatic qualifier name args = .ok d) :
    P d.definition.slot.key d.definition.body := by
  cases qualifier with
  | none =>
    simp only [Interpreter.dispatchStatic] at hd
    split at hd
    · rename_i definition hresolve
      cases hd
      exact h.resolve hresolve
    · cases hd
  | some q =>
    simp only [Interpreter.dispatchStatic] at hd
    split at hd
    · rename_i found hfound
      cases hd
      exact h.dispatchAlong hfound
    · cases hd

theorem Functions.Only.dispatchMethod {id : ObjectId} {name : String} {d : Dispatch}
    (hd : i.dispatchMethod id name = .ok d) : P d.definition.slot.key d.definition.body := by
  simp only [Interpreter.dispatchMethod, bind, Except.bind] at hd
  split at hd
  · cases hd
  · split at hd
    · rename_i found hfound
      cases hd
      exact h.dispatchAlong hfound
    · split at hd <;> cases hd

theorem Functions.Only.dispatchParent {name : String} {d : Dispatch}
    (hd : i.dispatchParent name = .ok d) : P d.definition.slot.key d.definition.body := by
  rw [Interpreter.dispatchParent] at hd
  split at hd
  · cases hd
  · simp only at hd
    split at hd
    · rename_i definition hresolve
      cases hd
      exact h.resolveParent hresolve
    · split at hd
      · rename_i found hfound
        cases hd
        exact h.dispatchAlong hfound
      · cases hd

theorem Functions.Only.dispatchCall {qualifier : Option String} {name : String}
    {args : Arguments} {d : Dispatch} (hd : i.dispatchCall qualifier name args = .ok d) :
    P d.definition.slot.key d.definition.body := by
  rw [Interpreter.dispatchCall] at hd
  split at hd
  · exact h.dispatchParent hd
  · exact h.dispatchStatic hd

end Lookup

theorem Step.exists_outcome {α : Type} (s : Step α) (i : Interpreter) :
    ∃ r j, s.effect i = some (r, j) := by
  have hobjects : ∀ {β : Type} (f : Objects → Except Fault (β × Objects)),
      ∃ r j, changeObjects f i = some (r, j) := by
    intro β f
    rw [changeObjects]
    split <;> exact ⟨_, _, rfl⟩
  cases s with
  | load l => cases l <;> exact ⟨_, _, rfl⟩
  | store l v =>
    cases l with
    | field id name => exact hobjects fun o => (o.setField id name v).map ((), ·)
    | _ => exact ⟨_, _, rfl⟩
  | instantiate c name parent datablock =>
    exact hobjects fun o => o.instantiate c name parent datablock
  | setField id name v => exact hobjects fun o => (o.setField id name v).map ((), ·)
  | addChild group child => exact hobjects fun o => (o.addChild group child).map ((), ·)
  | _ => exact ⟨_, _, rfl⟩

theorem Functions.Only.builtin {P : FunctionKey → Callable → Prop} {i : Interpreter}
    (h : i.functions.Only P) (f : Builtin) (args : Arguments) :
    (f.run args i).2.functions.Only P := by
  cases f with
  | console f => cases f <;> exact h
  | package f =>
    cases f with
    | activatePackage =>
      simp only [Builtin.run, PackageFunction.run]
      cases hok : i.functions.activate (args.value 0).toText with
      | ok r => exact h.activate hok
      | error fault => exact h
    | deactivatePackage => exact h.deactivate _
    | _ => exact h
  | _ => exact h

theorem Step.only {α : Type} {s : Step α} (hs : s.LoopFree) {i j : Interpreter}
    {r : Except Fault α} (h : i.functions.Only Callable.LoopFree)
    (hrun : s.effect i = some (r, j)) : j.functions.Only Callable.LoopFree := by
  have hobjects : ∀ {β : Type} (f : Objects → Except Fault (β × Objects)) {r : Except Fault β},
      changeObjects f i = some (r, j) → j.functions.Only Callable.LoopFree := by
    intro β f r hrun
    rw [changeObjects] at hrun
    split at hrun <;> cases hrun <;> exact h
  cases s with
  | load l => cases l <;> cases hrun <;> exact h
  | store l v =>
    cases l with
    | «local» key =>
      cases hrun
      rw [Interpreter.setLocal]
      split <;> exact h
    | global key =>
      cases hrun
      exact h
    | field id name => exact hobjects (fun o => (o.setField id name v).map ((), ·)) hrun
  | instantiate c name parent datablock =>
    exact hobjects (fun o => o.instantiate c name parent datablock) hrun
  | setField id name v => exact hobjects (fun o => (o.setField id name v).map ((), ·)) hrun
  | addChild group child => exact hobjects (fun o => (o.addChild group child).map ((), ·)) hrun
  | define f =>
    cases hrun
    exact h.define hs
  | declare name functions =>
    cases hrun
    refine h.declare name fun d hd => ?_
    obtain ⟨f, hf, rfl⟩ := List.mem_map.mp hd
    exact loopFree_of_mem hs hf
  | builtin f args =>
    have hend : (f.run args i).2 = j := (Prod.mk.inj (Option.some.inj hrun)).2
    exact hend ▸ h.builtin f args
  | _ =>
    cases hrun
    exact h

/-- A state at the given depth of calls whose functions have no loops. -/
structure Interpreter.Tame (limit depth : Nat) (i : Interpreter) : Prop where
  settings : i.settings.maxDepth = limit
  depth : i.frames.length = depth
  functions : i.functions.Only Callable.LoopFree

/-- From every such state the plan ends within some budget and leaves such a state, and a result of
it has the property `Q`. -/
def Plan.Ends {α : Type} (limit depth : Nat) (p : Plan α) (Q : α → Prop) : Prop :=
  ∀ i : Interpreter, i.Tame limit depth →
    ∃ n r j, p.run n i = some (r, j) ∧ j.Tame limit depth ∧ ∀ a, r = .ok a → Q a

namespace Plan

variable {α β : Type} {limit depth : Nat}

theorem ends_step {s : Step α} (hs : s.LoopFree) {Q : α → Prop}
    (hQ : ∀ i a j, i.functions.Only Callable.LoopFree → s.effect i = some (.ok a, j) → Q a) :
    (step s).Ends limit depth Q := by
  intro i hi
  obtain ⟨r, j, hrun⟩ := s.exists_outcome i
  have hsame := Interpreter.change_sameDepth.closed.step s i r j hrun
  refine ⟨0, r, j, hrun, ⟨?_, hsame.depth.trans hi.depth, Step.only hs hi.functions hrun⟩, ?_⟩
  · rw [hsame.settings, hi.settings]
  · rintro a rfl
    exact hQ i a j hi.functions hrun

/-- Steps whose results are not looked at. -/
theorem ends_quiet {s : Step α} (hs : s.LoopFree) :
    (step s).Ends limit depth fun _ => True :=
  ends_step hs fun _ _ _ _ _ => trivial

theorem ends_pure (a : α) : (pure a : Plan α).Ends limit depth fun _ => True :=
  ends_quiet (s := .answer (.ok a)) trivial

theorem Ends.bind {p : Plan α} {next : α → Plan β} {Q : α → Prop} {Q' : β → Prop}
    (hp : p.Ends limit depth Q) (hnext : ∀ a, Q a → (next a).Ends limit depth Q') :
    (p >>= next).Ends limit depth Q' := by
  intro i hi
  obtain ⟨n, r, j, hrun, hj, hQ⟩ := hp i hi
  cases r with
  | error fault =>
    refine ⟨n, .error fault, j, ?_, hj, fun _ h => by cases h⟩
    show (p.run n >>= fun a => (next a).run n) i = _
    rw [bind_apply, hrun]
  | ok a =>
    obtain ⟨m, r', k, hrun', hk, hQ'⟩ := hnext a (hQ a rfl) j hj
    refine ⟨max n m, r', k, ?_, hk, hQ'⟩
    show (p.run (max n m) >>= fun a => (next a).run (max n m)) i = _
    rw [bind_apply, p.run_le (Nat.le_max_left n m) i _ hrun]
    exact (next a).run_le (Nat.le_max_right n m) j _ hrun'

theorem ends_part {t : Task α} {Q : α → Prop} :
    (part t).Ends limit depth Q ↔ t.plan.Ends limit depth Q := by
  constructor
  · intro h i hi
    obtain ⟨n, r, j, hrun, hj⟩ := h i hi
    cases n with
    | zero =>
      rw [Plan.run, t.run_zero] at hrun
      cases hrun
    | succ n =>
      rw [Plan.run, ← t.run_plan] at hrun
      exact ⟨n, r, j, hrun, hj⟩
  · intro h i hi
    obtain ⟨n, r, j, hrun, hj⟩ := h i hi
    rw [t.run_plan] at hrun
    exact ⟨n + 1, r, j, hrun, hj⟩

theorem Ends.completing {p : Plan Unit} (h : p.Ends limit depth fun _ => True) (id : ObjectId) :
    (completing id p).Ends limit depth fun _ => True := by
  intro i hi
  obtain ⟨n, r, j, hrun, hj, -⟩ := h i hi
  cases r with
  | ok a =>
    refine ⟨n, .ok id, j, ?_, hj, fun _ _ => trivial⟩
    rw [Plan.run, Effect.completing, hrun]
  | error fault =>
    have hback : (rollback id j).Tame limit depth := by
      rw [rollback]
      split
      · exact ⟨hj.settings, hj.depth, hj.functions⟩
      · exact hj
    refine ⟨n, .error fault, rollback id j, ?_, hback, fun _ h => by cases h⟩
    rw [Plan.run, Effect.completing, hrun]

/-- A call ends if its body does one level deeper. At the limit the body does not run. -/
theorem ends_call (hlimit : 0 < limit) {p : Plan α}
    (h : depth < limit → p.Ends limit (depth + 1) fun _ => True) (d : Dispatch) (f : FunctionDecl)
    (args : Arguments) : (call d f args p).Ends limit depth fun _ => True := by
  intro i hi
  by_cases hdeep : limit ≤ depth
  · have hfault : i.enter d f args = .error (.tooDeep limit) := by
      rw [Interpreter.enter_eq, hi.settings, hi.depth, if_pos ⟨hlimit, hdeep⟩]
    refine ⟨0, .error (.tooDeep limit), i, ?_, hi, fun _ h => by cases h⟩
    rw [Plan.run, bind_apply, Effect.ofExcept, hfault]
  · obtain ⟨frame, hframe⟩ : ∃ frame, i.enter d f args = .ok frame := by
      rw [Interpreter.enter_eq, hi.settings, hi.depth, if_neg (fun hboth => hdeep hboth.2)]
      exact ⟨_, rfl⟩
    have hinside : (i.pushFrame frame).Tame limit (depth + 1) :=
      ⟨hi.settings, congrArg (· + 1) hi.depth, hi.functions⟩
    obtain ⟨n, r, j, hrun, hj, -⟩ := h (Nat.lt_of_not_le hdeep) _ hinside
    refine ⟨n, r, j.popFrame, ?_, ⟨hj.settings, ?_, hj.functions⟩, fun _ _ => trivial⟩
    · rw [Plan.run, bind_apply, Effect.ofExcept, hframe]
      simp only [inFrame, hrun]
    · show j.frames.tail.length = depth
      rw [List.length_tail, hj.depth, Nat.add_sub_cancel]

theorem ends_dispatchCall (qualifier : Option String) (name : String) (args : Arguments) :
    (step (.dispatchCall qualifier name args)).Ends limit depth Dispatch.LoopFree :=
  ends_step (s := .dispatchCall qualifier name args) trivial fun _ _ _ h hrun =>
    h.dispatchCall (Prod.mk.inj (Option.some.inj hrun)).1

theorem ends_dispatchMethod (id : ObjectId) (name : String) :
    (step (.dispatchMethod id name)).Ends limit depth Dispatch.LoopFree :=
  ends_step (s := .dispatchMethod id name) trivial fun _ _ _ h hrun =>
    h.dispatchMethod (Prod.mk.inj (Option.some.inj hrun)).1

theorem ends_dispatchStatic (qualifier : Option String) (name : String) (args : Arguments) :
    (step (.dispatchStatic qualifier name args)).Ends limit depth Dispatch.LoopFree :=
  ends_step (s := .dispatchStatic qualifier name args) trivial fun _ _ _ h hrun =>
    h.dispatchStatic (Prod.mk.inj (Option.some.inj hrun)).1

theorem ends_dispatchEmpty (args : Arguments) :
    (step (.dispatchStatic none "" args)).Ends limit depth
      fun d => d.LoopFree ∧ d.definition.body ≠ .byName := by
  refine ends_step (s := .dispatchStatic none "" args) trivial fun i d j h hrun => ?_
  have hd : i.dispatchStatic none "" args = .ok d := (Prod.mk.inj (Option.some.inj hrun)).1
  have hgood : d.LoopFree := h.dispatchStatic hd
  refine ⟨hgood, fun hname => ?_⟩
  have hkey : d.definition.slot.key = i.functions.key none "" := by
    simp only [Interpreter.dispatchStatic] at hd
    split at hd
    · rename_i definition hresolve
      cases hd
      obtain ⟨e, -, rfl⟩ := Option.map_eq_some_iff.mp hresolve
      rfl
    · cases hd
  rw [Dispatch.LoopFree, hname, hkey] at hgood
  refine hgood ?_
  show foldName i.functions.caseSensitive "" = ""
  cases i.functions.caseSensitive <;> decide

section Calls

variable (hlimit : 0 < limit)
  (hbody : depth < limit → ∀ body : List Statement, loopFreeBody body = true →
    (part (.block body)).Ends limit (depth + 1) fun _ => True)

include hlimit hbody

/-- All calls but those by name. -/
theorem ends_direct {d : Dispatch} (hd : d.LoopFree) (hname : d.definition.body ≠ .byName)
    (args : Arguments) : (part (.invoke d args)).Ends limit depth fun _ => True := by
  refine ends_part.mpr ?_
  rw [Task.plan, Dispatch.plan]
  rw [Dispatch.LoopFree] at hd
  cases hcase : d.definition.body with
  | script f =>
    rw [hcase] at hd
    have hcall := ends_call hlimit (fun hlt => hbody hlt f.body (FunctionDecl.loopFree_body hd))
      d f args
    exact hcall.bind fun flow _ => ends_pure _
  | builtin f => exact ends_quiet trivial
  | byName => exact absurd hcase hname
  | host f => exact ends_quiet trivial

/-- Calls by name take up an argument each. One that has none left finds the empty name, under which
no such call lies. -/
theorem ends_invoke (args : Arguments) {d : Dispatch} (hd : d.LoopFree) :
    (part (.invoke d args)).Ends limit depth fun _ => True := by
  induction args generalizing d with
  | nil =>
    by_cases hname : d.definition.body = .byName
    · refine ends_part.mpr ?_
      rw [Task.plan, Dispatch.plan, hname]
      exact (ends_dispatchEmpty []).bind fun d' hd' => ends_direct hlimit hbody hd'.1 hd'.2 []
    · exact ends_direct hlimit hbody hd hname []
  | cons v rest ih =>
    by_cases hname : d.definition.body = .byName
    · refine ends_part.mpr ?_
      rw [Task.plan, Dispatch.plan, hname]
      exact (ends_dispatchStatic _ _ rest).bind fun d' hd' => ih hd'
    · exact ends_direct hlimit hbody hd hname _

end Calls

end Plan

/-- The size of the code of a task. Calls and loops do not get by on it. -/
noncomputable def Task.size {α : Type} : Task α → Nat
  | .expr e => sizeOf e
  | .exprs es => sizeOf es
  | .place p => sizeOf p
  | .optionalText e => sizeOf e
  | .className c => sizeOf c
  | .create d => sizeOf d
  | .initFields _ fields => sizeOf fields
  | .createChildren _ children => sizeOf children
  | .invoke _ _ => 0
  | .block body => sizeOf body
  | .statement s => sizeOf s
  | .condition c => sizeOf c
  | .loop _ _ _ => 0
  | .switch _ _ cases default => sizeOf cases + sizeOf default
  | .anyMatch _ _ labels => sizeOf labels

namespace Plan

variable {limit depth : Nat}

theorem ends_statement {s : Statement} (hs : s.loopFree = true)
    (ih : ∀ {β : Type} (t : Task β), t.size < sizeOf s → t.LoopFree →
      (part t).Ends limit depth fun _ => True) :
    s.plan.Ends limit depth fun _ => True := by
  cases s with
  | expr e =>
    have hexpr := ih (.expr e) (by simp [Task.size]) trivial
    exact hexpr.bind fun _ _ => ends_pure _
  | branch c consequence alternative =>
    rw [Statement.loopFree, Bool.and_eq_true] at hs
    have hcondition := ih (.expr c) (by simp +arith [Task.size]) trivial
    refine hcondition.bind fun v _ => ?_
    split
    · exact ih (.block consequence) (by simp +arith [Task.size]) hs.1
    · refine ih (.block (alternative.getD [])) ?_ (loopFreeBody_getD hs.2)
      cases alternative <;> simp +arith [Task.size]
  | whileLoop c body => cases hs
  | forLoop init c update body => cases hs
  | switch kind subject cases default =>
    rw [Statement.loopFree, Bool.and_eq_true] at hs
    have hsubject := ih (.expr subject) (by simp +arith [Task.size]) trivial
    exact hsubject.bind fun v _ =>
      ih (.switch kind v cases default) (by simp +arith [Task.size]) hs
  | «break» => exact ends_pure _
  | «continue» => exact ends_pure _
  | «return» value =>
    cases value with
    | none => exact ends_pure _
    | some e =>
      have hvalue := ih (.expr e) (by simp +arith [Task.size]) trivial
      exact hvalue.bind fun v _ => ends_pure _
  | function f => exact (ends_quiet (s := .define f) hs).bind fun _ _ => ends_pure _
  | package name functions =>
    exact (ends_quiet (s := .declare name functions) hs).bind fun _ _ => ends_pure _
  | datablock d =>
    have hfields := fun id =>
      ih (.initFields id d.fields) (by cases d; simp +arith [Task.size]) trivial
    exact (ends_quiet (s := .datablockParent d) trivial).bind fun parent _ =>
      (ends_quiet (s := .instantiate d.className (some d.name) parent true) trivial).bind
        fun id _ => ((hfields id).completing id).bind fun _ _ => ends_pure _

section Code

variable (hinvoke : ∀ (args : Arguments) {d : Dispatch}, d.LoopFree →
  (part (.invoke d args)).Ends limit depth fun _ => True)

include hinvoke

theorem ends_expr {e : Expr} (ih : ∀ {β : Type} (t : Task β), t.size < sizeOf e → t.LoopFree →
      (part t).Ends limit depth fun _ => True) :
    e.plan.Ends limit depth fun _ => True := by
  cases e with
  | number x => exact ends_pure _
  | text s => exact ends_pure _
  | bareword s => exact ends_pure _
  | read p =>
    have hplace := ih (.place p) (by simp [Task.size]) trivial
    exact hplace.bind fun l _ => ends_quiet trivial
  | unary op e =>
    have harg := ih (.expr e) (by simp +arith [Task.size]) trivial
    exact harg.bind fun v _ => ends_pure _
  | binary op l r =>
    have hleft := ih (.expr l) (by simp +arith [Task.size]) trivial
    have hright := ih (.expr r) (by simp +arith [Task.size]) trivial
    have hbool := hright.bind fun w _ => ends_pure (Value.ofBool w.isTrue)
    cases op with
    | logicalAnd =>
      refine hleft.bind fun v _ => ?_
      split
      · exact hbool
      · exact ends_pure _
    | logicalOr =>
      refine hleft.bind fun v _ => ?_
      split
      · exact ends_pure _
      · exact hbool
    | _ => exact hleft.bind fun v _ => hright.bind fun w _ => ends_quiet trivial
  | conditional c a b =>
    refine (ih (.expr c) (by simp +arith [Task.size]) trivial).bind fun v _ => ?_
    split
    · exact ih (.expr a) (by simp +arith [Task.size]) trivial
    · exact ih (.expr b) (by simp +arith [Task.size]) trivial
  | assign p op e =>
    have hplace := ih (.place p) (by simp +arith [Task.size]) trivial
    have hvalue := ih (.expr e) (by simp +arith [Task.size]) trivial
    cases op with
    | none =>
      exact hplace.bind fun l _ => hvalue.bind fun v _ =>
        (ends_quiet (s := .store l v) trivial).bind fun _ _ => ends_pure _
    | some op =>
      exact hplace.bind fun l _ => hvalue.bind fun w _ =>
        (ends_quiet (s := .load l) trivial).bind fun old _ =>
          (ends_quiet (s := .answer (op.apply old w)) trivial).bind fun v _ =>
            (ends_quiet (s := .store l v) trivial).bind fun _ _ => ends_pure _
  | step p op =>
    have hplace := ih (.place p) (by simp +arith [Task.size]) trivial
    exact hplace.bind fun l _ => (ends_quiet (s := .load l) trivial).bind fun old _ =>
      (ends_quiet (s := .store l (.number (op.apply old.toNumber))) trivial).bind fun _ _ =>
        ends_pure _
  | call qualifier name args =>
    have hargs := ih (.exprs args) (by simp +arith [Task.size]) trivial
    exact hargs.bind fun vs _ =>
      (ends_dispatchCall qualifier name vs).bind fun d hd => hinvoke vs hd
  | method e name args =>
    have hreceiver := ih (.expr e) (by simp +arith [Task.size]) trivial
    have hargs := ih (.exprs args) (by simp +arith [Task.size]) trivial
    exact hreceiver.bind fun v _ => (ends_quiet (s := .resolve v) trivial).bind fun id _ =>
      hargs.bind fun vs _ => (ends_dispatchMethod id name).bind fun d hd => hinvoke _ hd
  | create d =>
    have hcreate := ih (.create d) (by simp [Task.size]) trivial
    exact hcreate.bind fun id _ => ends_pure _

/-- Code without loops ends, if the calls in it do. The induction is on the size of the code. -/
theorem ends_task {α : Type} (t : Task α) (ht : t.LoopFree) :
    (part t).Ends limit depth fun _ => True := by
  induction hsize : t.size using Nat.strongRecOn generalizing α t with
  | ind size ihsize =>
  subst hsize
  have ih : ∀ {β : Type} (t' : Task β), t'.size < t.size → t'.LoopFree →
      (part t').Ends limit depth fun _ => True :=
    fun t' hlt ht' => ihsize t'.size hlt t' ht' rfl
  refine ends_part.mpr ?_
  cases t with
  | expr e => exact ends_expr hinvoke ih
  | exprs es =>
    cases es with
    | nil => exact ends_pure _
    | cons e es =>
      have hfirst := ih (.expr e) (by simp +arith [Task.size]) trivial
      have hrest := ih (.exprs es) (by simp +arith [Task.size]) trivial
      exact hfirst.bind fun v _ => hrest.bind fun vs _ => ends_pure _
  | place p =>
    cases p with
    | «variable» scope name subscripts =>
      have hsubscripts := ih (.exprs subscripts) (by simp +arith [Task.size]) trivial
      exact hsubscripts.bind fun vs _ => ends_quiet trivial
    | field e name subscripts =>
      have hobject := ih (.expr e) (by simp +arith [Task.size]) trivial
      have hsubscripts := ih (.exprs subscripts) (by simp +arith [Task.size]) trivial
      exact hobject.bind fun v _ => (ends_quiet (s := .resolve v) trivial).bind fun id _ =>
        hsubscripts.bind fun vs _ => ends_pure _
  | optionalText e =>
    cases e with
    | none => exact ends_pure _
    | some e =>
      have htext := ih (.expr e) (by simp [Task.size]) trivial
      exact htext.bind fun v _ => ends_pure _
  | className c =>
    cases c with
    | named name => exact ends_pure _
    | computed e =>
      have htext := ih (.expr e) (by simp [Task.size]) trivial
      exact htext.bind fun v _ => ends_pure _
  | create d =>
    obtain ⟨c, name, fields, children⟩ := d
    have hclass := ih (.className c) (by simp +arith [Task.size]) trivial
    have hname := ih (.optionalText name) (by simp +arith [Task.size]) trivial
    have hfields := fun id => ih (.initFields id fields) (by simp +arith [Task.size]) trivial
    have hchildren := fun id =>
      ih (.createChildren id children) (by simp +arith [Task.size]) trivial
    exact hclass.bind fun c _ => hname.bind fun name _ =>
      (ends_quiet (s := .instantiate c name none false) trivial).bind fun id _ =>
        ((hfields id).bind fun _ _ => hchildren id).completing id
  | initFields id fields =>
    cases fields with
    | nil => exact ends_pure _
    | cons field rest =>
      obtain ⟨name, subscripts, e⟩ := field
      have hsubscripts := ih (.exprs subscripts) (by simp +arith [Task.size]) trivial
      have hvalue := ih (.expr e) (by simp +arith [Task.size]) trivial
      have hrest := ih (.initFields id rest) (by simp +arith [Task.size]) trivial
      exact hsubscripts.bind fun vs _ => hvalue.bind fun v _ =>
        (ends_quiet (s := .setField id (Value.elementName name vs) v) trivial).bind fun _ _ => hrest
  | createChildren id children =>
    cases children with
    | nil => exact ends_pure _
    | cons d rest =>
      have hchild := ih (.create d) (by simp +arith [Task.size]) trivial
      have hrest := ih (.createChildren id rest) (by simp +arith [Task.size]) trivial
      exact hchild.bind fun child _ =>
        (ends_quiet (s := .addChild id child) trivial).bind fun _ _ => hrest
  | invoke d args => exact ends_part.mp (hinvoke args ht)
  | block body =>
    cases body with
    | nil => exact ends_pure _
    | cons s rest =>
      rw [Task.LoopFree, loopFreeBody, Bool.and_eq_true] at ht
      refine (ih (.statement s) (by simp +arith [Task.size]) ht.1).bind fun flow _ => ?_
      cases flow with
      | normal => exact ih (.block rest) (by simp +arith [Task.size]) ht.2
      | _ => exact ends_pure _
  | statement s => exact ends_statement ht ih
  | condition c =>
    cases c with
    | none => exact ends_pure _
    | some c =>
      have hcondition := ih (.expr c) (by simp [Task.size]) trivial
      exact hcondition.bind fun v _ => ends_pure _
  | loop c update body => exact ht.elim
  | switch kind subject cases default =>
    cases cases with
    | nil =>
      refine ih (.block (default.getD [])) ?_ (loopFreeBody_getD ht.2)
      cases default with
      | none => simp [Task.size]
      | some body => simp +arith [Task.size]
    | cons case rest =>
      obtain ⟨labels, body⟩ := case
      rw [Task.LoopFree, loopFreeCases, Bool.and_eq_true] at ht
      refine (ih (.anyMatch kind subject labels) (by simp +arith [Task.size]) trivial).bind
        fun found _ => ?_
      split
      · exact ih (.block body) (by simp +arith [Task.size]) ht.1.1
      · exact ih (.switch kind subject rest default) (by simp +arith [Task.size]) ⟨ht.1.2, ht.2⟩
  | anyMatch kind subject labels =>
    cases labels with
    | nil => exact ends_pure _
    | cons e rest =>
      refine (ih (.expr e) (by simp +arith [Task.size]) trivial).bind fun label _ => ?_
      split
      · exact ends_pure _
      · exact ih (.anyMatch kind subject rest) (by simp +arith [Task.size]) trivial

end Code

/-- Code without loops ends at every depth: a body runs one level closer to the limit. -/
theorem ends_of_loopFree (hlimit : 0 < limit) {α : Type} {t : Task α} (ht : t.LoopFree) :
    (part t).Ends limit depth fun _ => True := by
  induction hleft : limit - depth using Nat.strongRecOn generalizing depth α t with
  | ind left ih =>
  subst hleft
  refine ends_task (ends_invoke hlimit ?_) t ht
  intro hlt body hbody
  exact ih (limit - (depth + 1)) (by omega) (t := .block body) hbody rfl

theorem ends_topPlan (hlimit : 0 < limit) {s : Statement} (hs : s.loopFree = true) :
    s.topPlan.Ends limit depth fun _ => True := by
  have hstatement : (part (.statement s)).Ends limit depth fun _ => True :=
    ends_of_loopFree hlimit hs
  cases s with
  | expr e => exact ends_of_loopFree hlimit trivial
  | _ => exact hstatement.bind fun _ _ => ends_pure _

end Plan

namespace Interpreter

variable {limit : Nat}

theorem runStatement_ends (hlimit : 0 < limit) {s : Statement} (hs : s.loopFree = true)
    {i : Interpreter} (hi : i.Tame limit 0) :
    ∃ n v j, i.runStatement n s = some (v, j) ∧ j.Tame limit 0 := by
  obtain ⟨n, r, j, hrun, hj, -⟩ := Plan.ends_topPlan hlimit hs i hi
  rw [s.run_topPlan] at hrun
  cases r with
  | ok v =>
    refine ⟨n, v, { j with frames := [] }, ?_, ⟨hj.settings, rfl, hj.functions⟩⟩
    rw [runStatement, hrun]
  | error fault =>
    refine ⟨n, .undefined, { j with frames := [], faults := j.faults ++ [fault] }, ?_,
      ⟨hj.settings, rfl, hj.functions⟩⟩
    rw [runStatement, hrun]

theorem runStatements_ends (hlimit : 0 < limit) {program : Program} (hprogram : program.LoopFree)
    (last : Value) {i : Interpreter} (hi : i.Tame limit 0) :
    ∃ n o, runStatements n program last i = some o := by
  induction program generalizing i last with
  | nil => exact ⟨0, _, rfl⟩
  | cons s rest ih =>
    rw [Program.LoopFree, loopFreeBody, Bool.and_eq_true] at hprogram
    obtain ⟨n, v, j, hfirst, hj⟩ := runStatement_ends hlimit hprogram.1 hi
    obtain ⟨m, o, hrest⟩ := ih hprogram.2 v hj
    refine ⟨max n m, o, ?_⟩
    rw [runStatements, runStatement_le (Nat.le_max_left n m) hfirst]
    exact runStatements_le (Nat.le_max_right n m) hrest

theorem initial_loopFree {qualifier : Option String} {name : String} {f : Callable}
    (h : (qualifier, name, f) ∈ Callable.initial) (r : Functions Callable) :
    f.LoopFree (r.key qualifier name) := by
  have hkinds : Callable.initial.all (fun d => match d.2.2 with
      | .script _ => false
      | .byName => d.2.1 == "call"
      | _ => true) = true := by decide
  have hkind := List.all_eq_true.mp hkinds _ h
  cases f with
  | script f => cases hkind
  | builtin f => trivial
  | byName =>
    obtain rfl : name = "call" := eq_of_beq hkind
    show foldName r.caseSensitive "call" ≠ ""
    cases r.caseSensitive <;> decide
  | host f => trivial

theorem tame_new (settings : Settings) (surroundings : Surroundings) :
    (Interpreter.new settings surroundings).Tame settings.maxDepth 0 :=
  ⟨rfl, rfl, functions_new_induction (Functions.Only.empty _)
    fun r _ _ _ hf hr => hr.define (initial_loopFree hf r)⟩

theorem Tame.withHosts {i : Interpreter} {depth : Nat} (h : i.Tame limit depth)
    (hosts : List (Option String × String × ChangingHost)) : (i.withHosts hosts).Tame limit depth :=
  withHosts_induction (fun _ _ _ _ hi => ⟨hi.settings, hi.depth, hi.functions.define trivial⟩)
    h hosts

/-- No more calls are in progress than the limit allows, and nothing owns itself. -/
structure Bounded (limit : Nat) (i : Interpreter) : Prop where
  settings : i.settings.maxDepth = limit
  depth : i.frames.length ≤ limit
  objects : i.objects.WellFormed

variable {i j k : Interpreter}

theorem Bounded.keeps (h : i.Bounded limit) (hdepth : i.SameDepth j)
    (hoperations : i.ByOperations j) : j.Bounded limit := by
  obtain ⟨ops, hops⟩ := hoperations.objects
  refine ⟨by rw [hdepth.settings, h.settings], by rw [hdepth.depth]; exact h.depth, ?_⟩
  rw [hops]
  exact Objects.run_induction (fun _ op ho => ho.step op) h.objects ops

theorem Bounded.run (h : i.Bounded limit) {α : Type} {n : Nat} {p : Plan α} {r : Except Fault α}
    (hrun : p.run n i = some (r, j)) : j.Bounded limit :=
  h.keeps (change_sameDepth.closed.plan n p i r j hrun)
    (change_byOperations.closed.plan n p i r j hrun)

theorem Bounded.enter (h : i.Bounded limit) (hlimit : 0 < limit) {d : Dispatch} {f : FunctionDecl}
    {args : Arguments} {frame : Frame} (hframe : i.enter d f args = .ok frame) :
    (i.pushFrame frame).Bounded limit := by
  refine ⟨h.settings, ?_, h.objects⟩
  rw [enter_eq, h.settings] at hframe
  split at hframe
  · cases hframe
  · rename_i hfree
    show i.frames.length + 1 ≤ limit
    omega

theorem Bounded.visits (h : i.Bounded limit) (hlimit : 0 < limit) {α : Type} {n : Nat} {p : Plan α}
    (hvisits : p.Visits n i k) : k.Bounded limit :=
  hvisits.keeps (fun _ _ _ _ _ hi hrun => hi.run hrun)
    (fun _ _ _ _ _ hi hframe => hi.enter hlimit hframe) h

theorem Bounded.runStatement (h : i.Bounded limit) {n : Nat} {s : Statement} {v : Value}
    (hrun : i.runStatement n s = some (v, j)) : j.Bounded limit := by
  rw [Interpreter.runStatement, ← s.run_topPlan] at hrun
  split at hrun
  · cases hrun
  · rename_i w k hplan
    cases hrun
    exact ⟨(h.run hplan).settings, Nat.zero_le _, (h.run hplan).objects⟩
  · rename_i fault k hplan
    cases hrun
    exact ⟨(h.run hplan).settings, Nat.zero_le _, (h.run hplan).objects⟩

theorem Bounded.program (h : i.Bounded limit) (hlimit : 0 < limit) {n : Nat} {program : Program}
    (hvisits : Program.VisitsFrom n program i k) : k.Bounded limit := by
  induction hvisits with
  | start => exact h
  | statement hstatement => exact h.visits hlimit hstatement
  | later hfirst _ ih => exact ih (h.runStatement hfirst)

/-- A program without loops ends, whatever it defines, overrides and calls, if nested calls are
limited: from some budget on it has one outcome. That is so whatever random numbers and times
the surroundings answer, and whatever the functions of the host answer from question to
question. In all states that the run goes through, under any budget, no more calls are in
progress than the limit allows, and the walks through groups of objects that deletion and
regrouping make end by themselves. -/
theorem loopFree_program_ends {settings : Settings} (hlimit : 0 < settings.maxDepth)
    (surroundings : Surroundings) (hosts : List (Option String × String × ChangingHost))
    {program : Program} (hprogram : program.LoopFree) :
    let i := (Interpreter.new settings surroundings).withHosts hosts
    (∃ v j n, ∀ budget, n ≤ budget → i.runProgram budget program = some (v, j)) ∧
    ∀ budget k, Program.Visits budget program i k →
      k.frames.length ≤ settings.maxDepth ∧ k.objects.WalksEnd := by
  intro i
  have htame : i.Tame settings.maxDepth 0 := (tame_new settings surroundings).withHosts hosts
  have hobjects : i.objects.WellFormed :=
    withHosts_induction (P := fun i => i.objects.WellFormed) (fun _ _ _ _ hi => hi)
      (Objects.wellFormed_new settings.caseSensitive) hosts
  constructor
  · obtain ⟨n, ⟨v, j⟩, hrun⟩ := runStatements_ends hlimit hprogram .undefined
      (i := { i with topLocals := ∅ }) ⟨htame.settings, htame.depth, htame.functions⟩
    exact ⟨v, j, n, fun budget hle => runStatements_le hle hrun⟩
  · intro budget k hvisits
    have hstart : Bounded settings.maxDepth { i with topLocals := ∅ } :=
      ⟨htame.settings, by rw [htame.depth]; exact Nat.zero_le _, hobjects⟩
    have hk := hstart.program hlimit hvisits
    exact ⟨hk.depth, hk.objects.walksEnd⟩

/-- Two functions call each other without end, one of them through two calls by name and one through
its override in a package. The host supplies a function that fails every other time. -/
theorem loopFree_program_ends_mutual :
    let settings : Settings := { maxDepth := 3 }
    let surroundings : Surroundings := ⟨fun n => n.toUInt64 * 7, fun n => n / 2⟩
    let hosts : List (Option String × String × ChangingHost) :=
      [(none, "probe", fun n _ => if n % 2 = 0 then .error "no answer" else .ok (.ofNat n))]
    let ping : FunctionDecl := ⟨none, "ping", [], [.expr (.call none "pong" [])]⟩
    let pong : FunctionDecl :=
      ⟨none, "pong", [], [.expr (.call none "call" [.text "call", .text "ping"])]⟩
    let above : FunctionDecl :=
      ⟨none, "PONG", [], [.branch (.call none "probe" [.call none "getRandom" []]) []
        (some [.expr (.create ⟨.named "SimSet", none, [], []⟩)]),
        .return (some (.call (some "Parent") "pong" []))]⟩
    let program : Program := [.function ping, .function pong, .package "loud" [above],
      .expr (.call none "ping" []), .expr (.call none "activatePackage" [.text "loud"]),
      .expr (.call none "ping" [])]
    let i := (Interpreter.new settings surroundings).withHosts hosts
    0 < settings.maxDepth ∧ program.LoopFree ∧
    (∃ v j n, ∀ budget, n ≤ budget → i.runProgram budget program = some (v, j)) ∧
    ∀ budget k, Program.Visits budget program i k → k.frames.length ≤ 3 ∧ k.objects.WalksEnd := by
  intro settings surroundings hosts ping pong above program i
  exact ⟨by decide, rfl, loopFree_program_ends (by decide) surroundings hosts rfl⟩

end Interpreter

end TorqueScript
