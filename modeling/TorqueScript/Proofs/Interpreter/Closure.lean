import TorqueScript.Proofs.Interpreter.Plans

/-!
Properties of all runs. A property of effects that the single steps have, and that passes to
steps in a row, to the completion of an object and to the body of a call, is a property of
every run: all plans are made of these.
-/

namespace TorqueScript

open Effect

/-- An interpreter reduced to what names and references are looked up in. -/
def Interpreter.registries (i : Interpreter) : Interpreter where
  settings := { caseSensitive := i.settings.caseSensitive }
  functions := i.functions
  objects := i.objects

/-- A property that every step has and that passes from steps to what is composed of them. -/
structure Effect.Closed (P : {α : Type} → Effect α → Prop) : Prop where
  pure {α : Type} (a : α) : P (pure a : Effect α)
  bind {α β : Type} {act : Effect α} {next : α → Effect β} :
    P act → (∀ a, P (next a)) → P (act >>= next)
  exhausted {α : Type} : P (exhausted : Effect α)
  /-- Outcomes that depend on the registries alone. -/
  lookup {α : Type} (r : Interpreter → Except Fault α) :
    (∀ i, r i.registries = r i) → P (ofExcept r)
  load (l : Location) : P (load l)
  store (l : Location) (v : Value) : P (store l v)
  parent (name : String) : P (ofExcept fun i => i.dispatchParent name)
  enter (d : Dispatch) (f : FunctionDecl) (args : Arguments) :
    P (ofExcept fun i => i.enter d f args)
  instantiate (c : String) (name : Option String) (parent : Option ObjectId) (datablock : Bool) :
    P (changeObjects fun o => o.instantiate c name parent datablock)
  setField (id : ObjectId) (name : String) (v : Value) : P (setField id name v)
  addChild (group child : ObjectId) : P (addChild group child)
  define (f : FunctionDecl) :
    P (changeFunctions fun r => r.define (r.key f.qualifier f.name) (.script f))
  declare (name : String) (functions : List FunctionDecl) :
    P (changeFunctions fun r =>
      r.declare name (functions.map fun f => (r.key f.qualifier f.name, .script f)))
  builtin (f : Builtin) (args : Arguments) : P (ofBuiltin f args)
  host (name : String) (f : ChangingHost) (args : Arguments) : P (askHost name f args)
  completing (id : ObjectId) {act : Effect Unit} : P act → P (completing id act)
  inFrame {α : Type} (frame : Frame) {act : Effect α} : P act → P (inFrame frame act)

namespace Eval

/-- The property of everything that runs under a budget. -/
structure All (P : {α : Type} → Effect α → Prop) (n : Nat) : Prop where
  expr (e : Expr) : P (expr n e)
  exprs (es : List Expr) : P (exprs n es)
  place (p : Place) : P (place n p)
  optionalText (e : Option Expr) : P (optionalText n e)
  className (c : ClassRef) : P (className n c)
  create (d : ObjectDecl) : P (create n d)
  initFields (id : ObjectId) (fields : List FieldInit) : P (initFields n id fields)
  createChildren (id : ObjectId) (children : List ObjectDecl) : P (createChildren n id children)
  invoke (d : Dispatch) (args : Arguments) : P (invoke n d args)
  block (body : List Statement) : P (block n body)
  statement (s : Statement) : P (statement n s)
  condition (c : Option Expr) : P (condition n c)
  loop (c update : Option Expr) (body : List Statement) : P (loop n c update body)
  switch (kind : SwitchKind) (subject : Value) (cases : List SwitchCase)
    (default : Option (List Statement)) : P (switch n kind subject cases default)
  anyMatch (kind : SwitchKind) (subject : Value) (labels : List Expr) :
    P (anyMatch n kind subject labels)

end Eval

namespace Effect.Closed

variable {P : {α : Type} → Effect α → Prop} (h : Closed P) {n : Nat}

include h

theorem answer {α : Type} (r : Except Fault α) : P (ofExcept fun _ => r) :=
  h.lookup _ fun _ => rfl

theorem resolve (v : Value) : P (Effect.resolve v) :=
  h.lookup _ fun _ => rfl

theorem dispatchStatic (qualifier : Option String) (name : String) (args : Arguments) :
    P (ofExcept fun i => i.dispatchStatic qualifier name args) :=
  h.lookup _ fun _ => rfl

theorem dispatchMethod (id : ObjectId) (name : String) :
    P (ofExcept fun i => i.dispatchMethod id name) :=
  h.lookup _ fun _ => rfl

theorem dispatchCall (qualifier : Option String) (name : String) (args : Arguments) :
    P (ofExcept fun i => i.dispatchCall qualifier name args) := by
  by_cases hq : qualifier.any Interpreter.isParentQualifier = true
  · simpa only [Interpreter.dispatchCall, if_pos hq] using h.parent name
  · simpa only [Interpreter.dispatchCall, if_neg hq] using h.dispatchStatic qualifier name args

theorem step {α : Type} (s : Step α) : P s.effect := by
  cases s with
  | answer r => exact h.answer r
  | resolve v => exact h.resolve v
  | variablePlace scope name subscripts => exact h.lookup _ fun _ => rfl
  | load l => exact h.load l
  | store l v => exact h.store l v
  | dispatchCall qualifier name args => exact h.dispatchCall qualifier name args
  | dispatchMethod id name => exact h.dispatchMethod id name
  | dispatchStatic qualifier name args => exact h.dispatchStatic qualifier name args
  | datablockParent d => exact h.lookup _ fun _ => rfl
  | instantiate c name parent datablock => exact h.instantiate c name parent datablock
  | setField id name v => exact h.setField id name v
  | addChild group child => exact h.addChild group child
  | define f => exact h.define f
  | declare name functions => exact h.declare name functions
  | builtin f args => exact h.builtin f args
  | host name f args => exact h.host name f args

/-- What the parts of a plan have, the plan has. -/
theorem plan_of_parts (hparts : ∀ {β : Type} (t : Task β), P (t.run n)) {α : Type} (p : Plan α) :
    P (p.run n) := by
  induction p with
  | step s => exact h.step s
  | part t => exact hparts t
  | bind p next ihp ihnext => exact h.bind ihp ihnext
  | completing id p ih => exact h.completing id ih
  | call d f args p ih => exact h.bind (h.enter d f args) fun frame => h.inFrame frame ih

theorem task (n : Nat) {α : Type} (t : Task α) : P (t.run n) := by
  induction n generalizing α with
  | zero =>
    rw [t.run_zero]
    exact h.exhausted
  | succ n ih =>
    rw [← t.run_plan]
    exact h.plan_of_parts (fun t => ih t) t.plan

theorem plan (n : Nat) {α : Type} (p : Plan α) : P (p.run n) :=
  h.plan_of_parts (h.task n) p

theorem topLevel (n : Nat) (s : Statement) : P (Interpreter.topLevel n s) := by
  rw [← s.run_topPlan]
  exact h.plan n s.topPlan

/-- Every run has the property, under every budget. -/
theorem all (n : Nat) : Eval.All P n where
  expr e := h.task n (.expr e)
  exprs es := h.task n (.exprs es)
  place p := h.task n (.place p)
  optionalText e := h.task n (.optionalText e)
  className c := h.task n (.className c)
  create d := h.task n (.create d)
  initFields id fields := h.task n (.initFields id fields)
  createChildren id children := h.task n (.createChildren id children)
  invoke d args := h.task n (.invoke d args)
  block body := h.task n (.block body)
  statement s := h.task n (.statement s)
  condition c := h.task n (.condition c)
  loop c update body := h.task n (.loop c update body)
  switch kind subject cases default := h.task n (.switch kind subject cases default)
  anyMatch kind subject labels := h.task n (.anyMatch kind subject labels)

end Effect.Closed

end TorqueScript
