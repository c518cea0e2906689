import TorqueScript.Proofs.Interpreter.Plans
import TorqueScript.Proofs.Functions.Mapping
import TorqueScript.Proofs.Program.Respelling

/-!
Two runs side by side: one of a program, the other of the same program with its names spelled
anew. A relation between effects that the single steps are in, and that passes to steps in a
row, to the completion of an object and to the body of a call, holds between the two runs. The
recursion of the evaluator is gone through here, once for all such relations.
-/

namespace TorqueScript

open Effect

def Callable.respell (σ : String → String) : Callable → Callable
  | .script f => .script (f.respell σ)
  | .builtin f => .builtin f
  | .byName => .byName
  | .host f => .host f

def Dispatch.respell (σ : String → String) (d : Dispatch) : Dispatch :=
  { d with definition := d.definition.map (Callable.respell σ) }

def Dispatch.Respelled (σ : String → String) (d d' : Dispatch) : Prop :=
  d' = d.respell σ

def Task.respell (σ : String → String) {α : Type} : Task α → Task α
  | .expr e => .expr (e.respell σ)
  | .exprs es => .exprs (respellExprs σ es)
  | .place p => .place (p.respell σ)
  | .optionalText e => .optionalText (respellOption σ e)
  | .className c => .className (c.respell σ)
  | .create d => .create (d.respell σ)
  | .initFields id fields => .initFields id (respellFields σ fields)
  | .createChildren id children => .createChildren id (respellChildren σ children)
  | .invoke d args => .invoke (d.respell σ) args
  | .block body => .block (respellBody σ body)
  | .statement s => .statement (s.respell σ)
  | .condition c => .condition (respellOption σ c)
  | .loop c update body =>
    .loop (respellOption σ c) (respellOption σ update) (respellBody σ body)
  | .switch kind subject cases default =>
    .switch kind subject (respellCases σ cases) (respellOptionalBody σ default)
  | .anyMatch kind subject labels => .anyMatch kind subject (respellExprs σ labels)

/-- How the results of a task are compared: places by the given relation, all others by equality. -/
def Task.Compares (places : Location → Location → Prop) {α : Type} : Task α → α → α → Prop
  | .place _ => places
  | _ => Eq

/-- A relation between effects that every step is in with its respelled form, and that passes from
steps to what is composed of them. Places are compared by the relation `places`. -/
structure Effect.Simulation (σ : String → String) (places : Location → Location → Prop)
    (R : {α : Type} → (α → α → Prop) → Effect α → Effect α → Prop) : Prop where
  answer {α : Type} (r : Except Fault α) : R Eq (ofExcept fun _ => r) (ofExcept fun _ => r)
  bind {α β : Type} {A : α → α → Prop} {B : β → β → Prop} {act act' : Effect α}
    {next next' : α → Effect β} : R A act act' →
      (∀ a a', A a a' → R B (next a) (next' a')) → R B (act >>= next) (act' >>= next')
  resolve (v : Value) : R Eq (resolve v) (resolve v)
  variablePlace (scope : Scope) (name : String) (vs : List Value) :
    R places (variablePlace scope name vs) (variablePlace scope (σ name) vs)
  fieldPlace (id : ObjectId) (name : String) (vs : List Value) :
    R places (pure (.field id (Value.elementName name vs)))
      (pure (.field id (Value.elementName (σ name) vs)))
  load {l l' : Location} : places l l' → R Eq (load l) (load l')
  store {l l' : Location} (v : Value) : places l l' → R Eq (store l v) (store l' v)
  dispatchCall (qualifier : Option String) (name : String) (args : Arguments) :
    R (Dispatch.Respelled σ) (ofExcept fun i => i.dispatchCall qualifier name args)
      (ofExcept fun i => i.dispatchCall (qualifier.map σ) (σ name) args)
  dispatchMethod (id : ObjectId) (name : String) :
    R (Dispatch.Respelled σ) (ofExcept fun i => i.dispatchMethod id name)
      (ofExcept fun i => i.dispatchMethod id (σ name))
  /-- A call by a name that is a value, which is not spelled anew. -/
  dispatchStatic (qualifier : Option String) (name : String) (args : Arguments) :
    R (Dispatch.Respelled σ) (ofExcept fun i => i.dispatchStatic qualifier name args)
      (ofExcept fun i => i.dispatchStatic qualifier name args)
  enter (d : Dispatch) (f : FunctionDecl) (args : Arguments) :
    R Eq (ofExcept fun i => i.enter d f args)
      (ofExcept fun i => i.enter (d.respell σ) (f.respell σ) args)
  datablockParent (d : DatablockDecl) :
    R Eq (ofExcept fun i => i.datablockParent d) (ofExcept fun i => i.datablockParent d)
  instantiate (c : String) (name : Option String) (parent : Option ObjectId) (datablock : Bool) :
    R Eq (changeObjects fun o => o.instantiate c name parent datablock)
      (changeObjects fun o => o.instantiate c name parent datablock)
  setField (id : ObjectId) (name : String) (vs : List Value) (v : Value) :
    R Eq (setField id (Value.elementName name vs) v)
      (setField id (Value.elementName (σ name) vs) v)
  addChild (group child : ObjectId) : R Eq (addChild group child) (addChild group child)
  define (f : FunctionDecl) :
    R Eq (changeFunctions fun r => r.define (r.key f.qualifier f.name) (.script f))
      (changeFunctions fun r =>
        r.define (r.key (f.respell σ).qualifier (f.respell σ).name) (.script (f.respell σ)))
  declare (name : String) (functions : List FunctionDecl) :
    R Eq
      (changeFunctions fun r =>
        r.declare name (functions.map fun f => (r.key f.qualifier f.name, .script f)))
      (changeFunctions fun r =>
        r.declare (σ name) ((functions.map (FunctionDecl.respell σ)).map fun f =>
          (r.key f.qualifier f.name, .script f)))
  builtin (f : Builtin) (args : Arguments) : R Eq (ofBuiltin f args) (ofBuiltin f args)
  host (name : String) (f : ChangingHost) (args : Arguments) :
    R Eq (askHost name f args) (askHost name f args)
  completing (id : ObjectId) {act act' : Effect Unit} : R Eq act act' →
    R Eq (completing id act) (completing id act')
  inFrame {α : Type} (frame : Frame) {act act' : Effect α} : R Eq act act' →
    R Eq (inFrame frame act) (inFrame frame act')

theorem Plan.rel_ite {α : Type} {n : Nat} {rel : Effect α → Effect α → Prop} (b : Bool)
    {p p' q q' : Plan α} (hp : rel (p.run n) (p'.run n)) (hq : rel (q.run n) (q'.run n)) :
    rel ((if b then p else q).run n) ((if b then p' else q').run n) := by
  cases b with
  | false => exact hq
  | true => exact hp

namespace Effect.Simulation

open Plan (rel_ite)

variable {σ : String → String} {places : Location → Location → Prop}
  {R : {α : Type} → (α → α → Prop) → Effect α → Effect α → Prop} (h : Simulation σ places R)

include h

theorem pure {α : Type} (a : α) : R Eq (pure a) (pure a) :=
  h.answer (.ok a)

/-- Steps in a row, where the first ends in the same value on both sides. -/
theorem seq {α β : Type} {B : β → β → Prop} {act act' : Effect α} {next next' : α → Effect β}
    (hact : R Eq act act') (hnext : ∀ a, R B (next a) (next' a)) :
    R B (act >>= next) (act' >>= next') := by
  refine h.bind hact fun a a' heq => ?_
  cases heq
  exact hnext a

theorem map {α β : Type} {act act' : Effect α} (hact : R Eq act act') (f : α → β) :
    R Eq (do let a ← act; return f a) (do let a ← act'; return f a) :=
  h.seq hact fun _ => h.pure _

section Parts

variable {n : Nat} (all : ∀ {α : Type} (t : Task α),
  R (t.Compares places) (t.run n) ((t.respell σ).run n))

include all

theorem exprPlan (e : Expr) : R Eq (e.plan.run n) ((e.respell σ).plan.run n) := by
  cases e with
  | number x => exact h.pure _
  | text s => exact h.pure _
  | bareword s => exact h.pure _
  | read p => exact h.bind (all (.place p)) fun l l' hl => h.load hl
  | unary op e => exact h.map (all (.expr e)) _
  | binary op l r =>
    have hbool := h.map (all (.expr r)) fun w => Value.ofBool w.isTrue
    cases op with
    | logicalAnd => exact h.seq (all (.expr l)) fun v => rel_ite v.isTrue hbool (h.pure _)
    | logicalOr => exact h.seq (all (.expr l)) fun v => rel_ite v.isTrue (h.pure _) hbool
    | _ => exact h.seq (all (.expr l)) fun v => h.seq (all (.expr r)) fun w => h.answer _
  | conditional c a b =>
    exact h.seq (all (.expr c)) fun v => rel_ite v.isTrue (all (.expr a)) (all (.expr b))
  | assign p op e =>
    cases op with
    | none =>
      exact h.bind (all (.place p)) fun l l' hl => h.seq (all (.expr e)) fun v =>
        h.map (h.store v hl) _
    | some op =>
      exact h.bind (all (.place p)) fun l l' hl => h.seq (all (.expr e)) fun w =>
        h.seq (h.load hl) fun old => h.seq (h.answer (op.apply old w)) fun v =>
          h.map (h.store v hl) _
  | step p op =>
    exact h.bind (all (.place p)) fun l l' hl => h.seq (h.load hl) fun old =>
      h.map (h.store (.number (op.apply old.toNumber)) hl) _
  | call qualifier name args =>
    refine h.seq (all (.exprs args)) fun vs => h.bind (h.dispatchCall qualifier name vs) ?_
    rintro d _ rfl
    exact all (.invoke d vs)
  | method e name args =>
    refine h.seq (all (.expr e)) fun v => h.seq (h.resolve v) fun id => ?_
    refine h.seq (all (.exprs args)) fun vs => h.bind (h.dispatchMethod id name) ?_
    rintro d _ rfl
    exact all (.invoke d (.object id :: vs))
  | create d => exact h.map (all (.create d)) _

theorem dispatchPlan (d : Dispatch) (args : Arguments) :
    R Eq ((d.plan args).run n) (((d.respell σ).plan args).run n) := by
  have hbody : (d.respell σ).definition.body = d.definition.body.respell σ := rfl
  rw [Dispatch.plan, Dispatch.plan, hbody]
  cases d.definition.body with
  | script f =>
    have hblock := all (.block f.body)
    rw [Task.respell, ← f.body_respell] at hblock
    exact h.map (h.seq (h.enter d f args) fun frame => h.inFrame frame hblock) _
  | byName =>
    refine h.bind (h.dispatchStatic _ _ args.tail) ?_
    rintro d _ rfl
    exact all (.invoke d args.tail)
  | builtin f => exact h.builtin f args
  | host f => exact h.host _ f args

theorem statementPlan (s : Statement) :
    R Eq (s.plan.run n) ((s.respell σ).plan.run n) := by
  cases s with
  | expr e => exact h.seq (all (.expr e)) fun _ => h.pure _
  | branch c consequence alternative =>
    rw [Statement.respell, Statement.plan, Statement.plan, getD_respellOptionalBody]
    exact h.seq (all (.expr c)) fun v =>
      rel_ite v.isTrue (all (.block consequence)) (all (.block (alternative.getD [])))
  | whileLoop c body => exact all (.loop (some c) none body)
  | forLoop init c update body =>
    cases init with
    | none => exact all (.loop c update body)
    | some init => exact h.seq (all (.expr init)) fun _ => all (.loop c update body)
  | switch kind subject cases default =>
    exact h.seq (all (.expr subject)) fun v => all (.switch kind v cases default)
  | «break» => exact h.pure _
  | «continue» => exact h.pure _
  | «return» value =>
    cases value with
    | none => exact h.pure _
    | some e => exact h.map (all (.expr e)) _
  | function f => exact h.seq (h.define f) fun _ => h.pure _
  | package name functions =>
    rw [Statement.respell, respellFunctions_eq_map]
    exact h.seq (h.declare name functions) fun _ => h.pure _
  | datablock d =>
    exact h.seq (h.datablockParent d) fun parent =>
      h.seq (h.instantiate d.className (some d.name) parent true) fun id =>
        h.seq (h.completing id (all (.initFields id d.fields))) fun _ => h.pure _

theorem taskPlan {α : Type} (t : Task α) :
    R (t.Compares places) (t.plan.run n) ((t.respell σ).plan.run n) := by
  cases t with
  | expr e => exact h.exprPlan all e
  | exprs es =>
    cases es with
    | nil => exact h.pure _
    | cons e es => exact h.seq (all (.expr e)) fun v => h.map (all (.exprs es)) _
  | place p =>
    cases p with
    | «variable» scope name subscripts =>
      exact h.seq (all (.exprs subscripts)) fun vs => h.variablePlace scope name vs
    | field e name subscripts =>
      exact h.seq (all (.expr e)) fun v => h.seq (h.resolve v) fun id =>
        h.seq (all (.exprs subscripts)) fun vs => h.fieldPlace id name vs
  | optionalText e =>
    cases e with
    | none => exact h.pure _
    | some e => exact h.map (all (.expr e)) _
  | className c =>
    cases c with
    | named name => exact h.pure _
    | computed e => exact h.map (all (.expr e)) _
  | create d =>
    obtain ⟨c, name, fields, children⟩ := d
    exact h.seq (all (.className c)) fun c => h.seq (all (.optionalText name)) fun name =>
      h.seq (h.instantiate c name none false) fun id =>
        h.completing id (h.seq (all (.initFields id fields)) fun _ =>
          all (.createChildren id children))
  | initFields id fields =>
    cases fields with
    | nil => exact h.pure _
    | cons field rest =>
      obtain ⟨name, subscripts, e⟩ := field
      exact h.seq (all (.exprs subscripts)) fun vs => h.seq (all (.expr e)) fun v =>
        h.seq (h.setField id name vs v) fun _ => all (.initFields id rest)
  | createChildren id children =>
    cases children with
    | nil => exact h.pure _
    | cons d rest =>
      exact h.seq (all (.create d)) fun child => h.seq (h.addChild id child) fun _ =>
        all (.createChildren id rest)
  | invoke d args => exact h.dispatchPlan all d args
  | block body =>
    cases body with
    | nil => exact h.pure _
    | cons s rest =>
      refine h.seq (all (.statement s)) fun flow => ?_
      cases flow with
      | normal => exact all (.block rest)
      | _ => exact h.pure _
  | statement s => exact h.statementPlan all s
  | condition c =>
    cases c with
    | none => exact h.pure _
    | some c => exact h.map (all (.expr c)) _
  | loop c update body =>
    have hupdate := all (.exprs update.toList)
    rw [Task.respell, ← toList_respellOption] at hupdate
    have hagain := h.seq hupdate fun _ => all (.loop c update body)
    refine h.seq (all (.condition c)) fun again => rel_ite again ?_ (h.pure _)
    refine h.seq (all (.block body)) fun flow => ?_
    cases flow with
    | «break» => exact h.pure _
    | «return» v => exact h.pure _
    | normal => exact hagain
    | «continue» => exact hagain
  | switch kind subject cases default =>
    cases cases with
    | nil =>
      have hdefault := all (.block (default.getD []))
      rw [Task.respell, ← getD_respellOptionalBody] at hdefault
      exact hdefault
    | cons case rest =>
      obtain ⟨labels, body⟩ := case
      exact h.seq (all (.anyMatch kind subject labels)) fun found =>
        rel_ite found (all (.block body)) (all (.switch kind subject rest default))
  | anyMatch kind subject labels =>
    cases labels with
    | nil => exact h.pure _
    | cons e rest =>
      exact h.seq (all (.expr e)) fun label =>
        rel_ite (kind.matches subject label) (h.pure _) (all (.anyMatch kind subject rest))

end Parts

/-- The relation holds between the runs of a task and of its respelled form. -/
theorem task (hnone : ∀ {α : Type} (A : α → α → Prop), R A exhausted exhausted) (n : Nat)
    {α : Type} (t : Task α) : R (t.Compares places) (t.run n) ((t.respell σ).run n) := by
  induction n generalizing α with
  | zero =>
    rw [t.run_zero, Task.run_zero]
    exact hnone _
  | succ n ih =>
    rw [← t.run_plan, ← Task.run_plan]
    exact h.taskPlan ih t

end Effect.Simulation

end TorqueScript
