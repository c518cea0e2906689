import TorqueScript.Interpreter.Session

/-!
Runs as plans. What the evaluator does with a piece of code is laid out as a plan: single
steps, the runs of other pieces, and how they follow on each other. The outcome of a run does
not show the states that the run goes through; its plan does. A plan is also where it is seen
that a run which ends is the same under every larger budget.
-/

namespace TorqueScript

open Effect

/-- A piece of code to run, with the type of its result. -/
inductive Task : Type → Type
  | expr (e : Expr) : Task Value
  | exprs (es : List Expr) : Task (List Value)
  | place (p : Place) : Task Location
  | optionalText (e : Option Expr) : Task (Option String)
  | className (c : ClassRef) : Task String
  | create (d : ObjectDecl) : Task ObjectId
  | initFields (id : ObjectId) (fields : List FieldInit) : Task Unit
  | createChildren (id : ObjectId) (children : List ObjectDecl) : Task Unit
  | invoke (d : Dispatch) (args : Arguments) : Task Value
  | block (body : List Statement) : Task Flow
  | statement (s : Statement) : Task Flow
  | condition (c : Option Expr) : Task Bool
  | loop (c update : Option Expr) (body : List Statement) : Task Flow
  | switch (kind : SwitchKind) (subject : Value) (cases : List SwitchCase)
      (default : Option (List Statement)) : Task Flow
  | anyMatch (kind : SwitchKind) (subject : Value) (labels : List Expr) : Task Bool

/-- What is done without running other code. -/
inductive Step : Type → Type 1
  | answer {α : Type} (r : Except Fault α) : Step α
  | resolve (v : Value) : Step ObjectId
  | variablePlace (scope : Scope) (name : String) (subscripts : List Value) : Step Location
  | load (l : Location) : Step Value
  | store (l : Location) (v : Value) : Step Unit
  | dispatchCall (qualifier : Option String) (name : String) (args : Arguments) : Step Dispatch
  | dispatchMethod (id : ObjectId) (name : String) : Step Dispatch
  | dispatchStatic (qualifier : Option String) (name : String) (args : Arguments) : Step Dispatch
  | datablockParent (d : DatablockDecl) : Step (Option ObjectId)
  | instantiate (c : String) (name : Option String) (parent : Option ObjectId) (datablock : Bool) :
      Step ObjectId
  | setField (id : ObjectId) (name : String) (v : Value) : Step Unit
  | addChild (group child : ObjectId) : Step Unit
  | define (f : FunctionDecl) : Step Unit
  | declare (name : String) (functions : List FunctionDecl) : Step Unit
  | builtin (f : Builtin) (args : Arguments) : Step Value
  | host (name : String) (f : ChangingHost) (args : Arguments) : Step Value

/-- Steps and parts in their order. A call runs its plan in a frame of its own. -/
inductive Plan : Type → Type 1
  | step {α : Type} (s : Step α) : Plan α
  | part {α : Type} (t : Task α) : Plan α
  | bind {α β : Type} (first : Plan α) (next : α → Plan β) : Plan β
  | completing (id : ObjectId) (p : Plan Unit) : Plan ObjectId
  | call {α : Type} (d : Dispatch) (f : FunctionDecl) (args : Arguments) (p : Plan α) : Plan α

instance : Monad Plan where
  pure a := .step (.answer (.ok a))
  bind := .bind

def Expr.plan : Expr → Plan Value
  | .number x => pure (.number x)
  | .text s => pure (.text s)
  | .bareword s => pure (.text s)
  | .read p => do
    let l ← Plan.part (.place p)
    .step (.load l)
  | .unary op e => do
    let v ← Plan.part (.expr e)
    return op.apply v
  | .binary .logicalAnd l r => do
    let v ← Plan.part (.expr l)
    if v.isTrue then
      let w ← Plan.part (.expr r)
      return .ofBool w.isTrue
    else return .ofBool false
  | .binary .logicalOr l r => do
    let v ← Plan.part (.expr l)
    if v.isTrue then return .ofBool true
    else
      let w ← Plan.part (.expr r)
      return .ofBool w.isTrue
  | .binary op l r => do
    let v ← Plan.part (.expr l)
    let w ← Plan.part (.expr r)
    .step (.answer (op.apply v w))
  | .conditional c a b => do
    let v ← Plan.part (.expr c)
    if v.isTrue then .part (.expr a) else .part (.expr b)
  | .assign p none e => do
    let l ← Plan.part (.place p)
    let v ← Plan.part (.expr e)
    let _ ← Plan.step (.store l v)
    return v
  | .assign p (some op) e => do
    let l ← Plan.part (.place p)
    let w ← Plan.part (.expr e)
    let old ← Plan.step (.load l)
    let v ← Plan.step (.answer (op.apply old w))
    let _ ← Plan.step (.store l v)
    return v
  | .step p op => do
    let l ← Plan.part (.place p)
    let old ← Plan.step (.load l)
    let _ ← Plan.step (.store l (.number (op.apply old.toNumber)))
    return .number old.toNumber
  | .call qualifier name args => do
    let vs ← Plan.part (.exprs args)
    let d ← Plan.step (.dispatchCall qualifier name vs)
    .part (.invoke d vs)
  | .method e name args => do
    let v ← Plan.part (.expr e)
    let id ← Plan.step (.resolve v)
    let vs ← Plan.part (.exprs args)
    let d ← Plan.step (.dispatchMethod id name)
    .part (.invoke d (.object id :: vs))
  | .create d => do
    let id ← Plan.part (.create d)
    return .object id

def Dispatch.plan (d : Dispatch) (args : Arguments) : Plan Value :=
  match d.definition.body with
  | .script f => do
    let flow ← Plan.call d f args (.part (.block f.body))
    return flow.result
  | .byName => do
    let (qualifier, name) := qualifiedParts (args.text 0)
    let d ← Plan.step (.dispatchStatic qualifier name args.tail)
    .part (.invoke d args.tail)
  | .builtin f => .step (.builtin f args)
  | .host f => .step (.host d.definition.slot.key.toText f args)

def Statement.plan : Statement → Plan Flow
  | .expr e => do
    let _ ← Plan.part (.expr e)
    return .normal
  | .branch c consequence alternative => do
    let v ← Plan.part (.expr c)
    if v.isTrue then .part (.block consequence) else .part (.block (alternative.getD []))
  | .whileLoop c body => .part (.loop (some c) none body)
  | .forLoop none c update body => .part (.loop c update body)
  | .forLoop (some init) c update body => do
    let _ ← Plan.part (.expr init)
    .part (.loop c update body)
  | .switch kind subject cases default => do
    let v ← Plan.part (.expr subject)
    .part (.switch kind v cases default)
  | .break => return .break
  | .continue => return .continue
  | .return none => return .return .undefined
  | .return (some e) => do
    let v ← Plan.part (.expr e)
    return .return v
  | .function f => do
    let _ ← Plan.step (.define f)
    return .normal
  | .package name functions => do
    let _ ← Plan.step (.declare name functions)
    return .normal
  | .datablock d => do
    let parent ← Plan.step (.datablockParent d)
    let id ← Plan.step (.instantiate d.className (some d.name) parent true)
    let _ ← Plan.completing id (.part (.initFields id d.fields))
    return .normal

def Task.plan {α : Type} : Task α → Plan α
  | .expr e => e.plan
  | .exprs [] => return []
  | .exprs (e :: es) => do
    let v ← Plan.part (.expr e)
    let vs ← Plan.part (.exprs es)
    return v :: vs
  | .place (.variable scope name subscripts) => do
    let vs ← Plan.part (.exprs subscripts)
    .step (.variablePlace scope name vs)
  | .place (.field e name subscripts) => do
    let v ← Plan.part (.expr e)
    let id ← Plan.step (.resolve v)
    let vs ← Plan.part (.exprs subscripts)
    return .field id (Value.elementName name vs)
  | .optionalText none => return none
  | .optionalText (some e) => do
    let v ← Plan.part (.expr e)
    return some v.toText
  | .className (.named name) => return name
  | .className (.computed e) => do
    let v ← Plan.part (.expr e)
    return v.toText
  | .create ⟨c, name, fields, children⟩ => do
    let c ← Plan.part (.className c)
    let name ← Plan.part (.optionalText name)
    let id ← Plan.step (.instantiate c name none false)
    .completing id do
      let _ ← Plan.part (.initFields id fields)
      .part (.createChildren id children)
  | .initFields _ [] => return ()
  | .initFields id (⟨name, subscripts, e⟩ :: rest) => do
    let vs ← Plan.part (.exprs subscripts)
    let v ← Plan.part (.expr e)
    let _ ← Plan.step (.setField id (Value.elementName name vs) v)
    .part (.initFields id rest)
  | .createChildren _ [] => return ()
  | .createChildren id (d :: rest) => do
    let child ← Plan.part (.create d)
    let _ ← Plan.step (.addChild id child)
    .part (.createChildren id rest)
  | .invoke d args => d.plan args
  | .block [] => return .normal
  | .block (s :: rest) => do
    let flow ← Plan.part (.statement s)
    match flow with
    | .normal => .part (.block rest)
    | flow => return flow
  | .statement s => s.plan
  | .condition none => return true
  | .condition (some c) => do
    let v ← Plan.part (.expr c)
    return v.isTrue
  | .loop c update body => do
    let again ← Plan.part (.condition c)
    if again then
      let flow ← Plan.part (.block body)
      match flow with
      | .break => return .normal
      | .return v => return .return v
      | _ =>
        let _ ← Plan.part (.exprs update.toList)
        .part (.loop c update body)
    else return .normal
  | .switch _ _ [] default => .part (.block (default.getD []))
  | .switch kind subject (⟨labels, body⟩ :: rest) default => do
    let found ← Plan.part (.anyMatch kind subject labels)
    if found then .part (.block body) else .part (.switch kind subject rest default)
  | .anyMatch _ _ [] => return false
  | .anyMatch kind subject (e :: rest) => do
    let label ← Plan.part (.expr e)
    if kind.matches subject label then return true else .part (.anyMatch kind subject rest)

/-- The place of a variable whose subscripts are evaluated. -/
def Effect.variablePlace (scope : Scope) (name : String) (subscripts : List Value) :
    Effect Location :=
  ofExcept fun i =>
    let key := i.fold (Value.elementName name subscripts)
    match scope with
    | .local => .ok (.local key)
    | .global => .ok (.global key)

def Task.run {α : Type} (n : Nat) : Task α → Effect α
  | .expr e => Eval.expr n e
  | .exprs es => Eval.exprs n es
  | .place p => Eval.place n p
  | .optionalText e => Eval.optionalText n e
  | .className c => Eval.className n c
  | .create d => Eval.create n d
  | .initFields id fields => Eval.initFields n id fields
  | .createChildren id children => Eval.createChildren n id children
  | .invoke d args => Eval.invoke n d args
  | .block body => Eval.block n body
  | .statement s => Eval.statement n s
  | .condition c => Eval.condition n c
  | .loop c update body => Eval.loop n c update body
  | .switch kind subject cases default => Eval.switch n kind subject cases default
  | .anyMatch kind subject labels => Eval.anyMatch n kind subject labels

def Step.effect {α : Type} : Step α → Effect α
  | .answer r => ofExcept fun _ => r
  | .resolve v => Effect.resolve v
  | .variablePlace scope name subscripts => Effect.variablePlace scope name subscripts
  | .load l => Effect.load l
  | .store l v => Effect.store l v
  | .dispatchCall qualifier name args => ofExcept fun i => i.dispatchCall qualifier name args
  | .dispatchMethod id name => ofExcept fun i => i.dispatchMethod id name
  | .dispatchStatic qualifier name args => ofExcept fun i => i.dispatchStatic qualifier name args
  | .datablockParent d => ofExcept fun i => i.datablockParent d
  | .instantiate c name parent datablock =>
    changeObjects fun o => o.instantiate c name parent datablock
  | .setField id name v => Effect.setField id name v
  | .addChild group child => Effect.addChild group child
  | .define f => changeFunctions fun r => r.define (r.key f.qualifier f.name) (.script f)
  | .declare name functions =>
    changeFunctions fun r =>
      r.declare name (functions.map fun f => (r.key f.qualifier f.name, .script f))
  | .builtin f args => ofBuiltin f args
  | .host name f args => askHost name f args

/-- Carries a plan out. Its parts run under the budget. -/
def Plan.run (n : Nat) : {α : Type} → Plan α → Effect α
  | _, .step s => s.effect
  | _, .part t => t.run n
  | _, .bind p next => do
    let a ← p.run n
    (next a).run n
  | _, .completing id p => Effect.completing id (p.run n)
  | _, .call d f args p => do
    let frame ← ofExcept fun i => i.enter d f args
    inFrame frame (p.run n)

theorem Plan.run_ite {α : Type} (n : Nat) (b : Bool) (p q : Plan α) :
    (if b then p else q).run n = if b then p.run n else q.run n := by
  cases b <;> rfl

theorem Effect.discard_bind {α β : Type} (act : Effect α) (next : Effect β) :
    (do discard act; next) = (do let _ ← act; next) := by
  show (act >>= fun _ => pure ()) >>= (fun _ => next) = _
  rw [bind_assoc]
  exact bind_congr fun _ => pure_bind _ _

theorem Task.run_zero {α : Type} (t : Task α) : t.run 0 = exhausted := by
  cases t <;> rfl

theorem Expr.run_plan (n : Nat) (e : Expr) : e.plan.run n = Eval.expr (n + 1) e := by
  cases e with
  | number x => rfl
  | text s => rfl
  | bareword s => rfl
  | read p => rfl
  | unary op e => rfl
  | binary op l r =>
    cases op with
    | logicalAnd => exact bind_congr fun v => Plan.run_ite n v.isTrue _ _
    | logicalOr => exact bind_congr fun v => Plan.run_ite n v.isTrue _ _
    | _ => rfl
  | conditional c a b => exact bind_congr fun v => Plan.run_ite n v.isTrue _ _
  | assign p op e => cases op <;> rfl
  | step p op => rfl
  | call qualifier name args => rfl
  | method e name args => rfl
  | create d => rfl

theorem Dispatch.run_plan (n : Nat) (d : Dispatch) (args : Arguments) :
    (d.plan args).run n = Eval.invoke (n + 1) d args := by
  rw [Dispatch.plan, Eval.invoke]
  cases d.definition.body with
  | script f => exact bind_assoc _ _ _
  | builtin f => rfl
  | byName => rfl
  | host f => rfl

theorem Statement.run_plan (n : Nat) (s : Statement) : s.plan.run n = Eval.statement (n + 1) s := by
  cases s with
  | branch c consequence alternative => exact bind_congr fun v => Plan.run_ite n v.isTrue _ _
  | expr e => exact (discard_bind _ _).symm
  | forLoop init c update body =>
    cases init with
    | none => rfl
    | some init => exact (discard_bind _ _).symm
  | «return» value => cases value <;> rfl
  | datablock d => exact bind_congr fun _ => bind_congr fun _ => (discard_bind _ _).symm
  | _ => rfl

/-- The evaluator does what the plans say. -/
theorem Task.run_plan {α : Type} (n : Nat) (t : Task α) : t.plan.run n = t.run (n + 1) := by
  cases t with
  | expr e => exact e.run_plan n
  | exprs es => cases es <;> rfl
  | place p => cases p <;> rfl
  | optionalText e => cases e <;> rfl
  | className c => cases c <;> rfl
  | create d =>
    cases d
    rfl
  | initFields id fields =>
    cases fields with
    | nil => rfl
    | cons field rest =>
      cases field
      rfl
  | createChildren id children => cases children <;> rfl
  | invoke d args => exact d.run_plan n args
  | block body =>
    cases body with
    | nil => rfl
    | cons s rest => exact bind_congr fun flow => by cases flow <;> rfl
  | statement s => exact s.run_plan n
  | condition c => cases c <;> rfl
  | loop c update body =>
    refine bind_congr fun again => ?_
    cases again with
    | false => rfl
    | true =>
      refine bind_congr fun flow => ?_
      cases flow with
      | normal => exact (discard_bind _ _).symm
      | «break» => rfl
      | «continue» => exact (discard_bind _ _).symm
      | «return» v => rfl
  | switch kind subject cases default =>
    cases cases with
    | nil => rfl
    | cons case rest =>
      cases case
      exact bind_congr fun found => Plan.run_ite n found _ _
  | anyMatch kind subject labels =>
    cases labels with
    | nil => rfl
    | cons e rest => exact bind_congr fun label => Plan.run_ite n (kind.matches subject label) _ _

namespace Effect

variable {α β : Type}

theorem bind_apply (act : Effect α) (next : α → Effect β) (i : Interpreter) :
    (act >>= next) i =
      match act i with
      | none => none
      | some (.ok a, i') => next a i'
      | some (.error fault, i') => some (.error fault, i') := by
  show (act i).bind _ = _
  cases hact : act i with
  | none => rfl
  | some o =>
    obtain ⟨r, i'⟩ := o
    cases r <;> rfl

theorem bind_eq_some {act : Effect α} {next : α → Effect β} {i k : Interpreter}
    {r : Except Fault β} :
    (act >>= next) i = some (r, k) ↔
      (∃ a j, act i = some (.ok a, j) ∧ next a j = some (r, k)) ∨
      ∃ fault, act i = some (.error fault, k) ∧ r = .error fault := by
  rw [bind_apply]
  constructor
  · intro hrun
    split at hrun
    · cases hrun
    · rename_i a j hfirst
      exact Or.inl ⟨a, j, hfirst, hrun⟩
    · rename_i fault j hfirst
      cases hrun
      exact Or.inr ⟨fault, hfirst, rfl⟩
  · rintro (⟨a, j, hfirst, hrun⟩ | ⟨fault, hfirst, rfl⟩)
    · rw [hfirst]
      exact hrun
    · rw [hfirst]

theorem bind_eq_ok {act : Effect α} {next : α → Effect β} {i k : Interpreter} {b : β} :
    (act >>= next) i = some (.ok b, k) ↔
      ∃ a j, act i = some (.ok a, j) ∧ next a j = some (.ok b, k) := by
  rw [bind_eq_some]
  simp

theorem changeObjects_eq_some {f : Objects → Except Fault (α × Objects)} {i j : Interpreter}
    {r : Except Fault α} :
    changeObjects f i = some (r, j) ↔
      (∃ a o, f i.objects = .ok (a, o) ∧ r = .ok a ∧ j = { i with objects := o }) ∨
      ∃ fault, f i.objects = .error fault ∧ r = .error fault ∧ j = i := by
  rw [changeObjects]
  constructor
  · intro hrun
    split at hrun
    · rename_i a o hf
      cases hrun
      exact Or.inl ⟨a, o, hf, rfl, rfl⟩
    · rename_i fault hf
      cases hrun
      exact Or.inr ⟨fault, hf, rfl, rfl⟩
  · rintro (⟨a, o, hf, rfl, rfl⟩ | ⟨fault, hf, rfl, rfl⟩)
    · rw [hf]
    · rw [hf]

theorem changeObjects_eq_ok {f : Objects → Except Fault (α × Objects)} {i j : Interpreter} {a : α} :
    changeObjects f i = some (.ok a, j) ↔
      ∃ o, f i.objects = .ok (a, o) ∧ j = { i with objects := o } := by
  rw [changeObjects_eq_some]
  constructor
  · intro hrun
    rcases hrun with ⟨b, o, hf, hb, hj⟩ | ⟨fault, -, hfault, -⟩
    · cases hb
      exact ⟨o, hf, hj⟩
    · cases hfault
  · intro hrun
    obtain ⟨o, hf, hj⟩ := hrun
    exact Or.inl ⟨a, o, hf, rfl, hj⟩

theorem changeObjects_map_eq_some {f : Objects → Except Fault Objects} {i j : Interpreter}
    {r : Except Fault Unit} :
    changeObjects (fun o => (f o).map ((), ·)) i = some (r, j) ↔
      (∃ o, f i.objects = .ok o ∧ r = .ok () ∧ j = { i with objects := o }) ∨
      ∃ fault, f i.objects = .error fault ∧ r = .error fault ∧ j = i := by
  rw [changeObjects_eq_some]
  cases f i.objects with
  | ok o =>
    have hunit : (∃ u, r = .ok u) ↔ r = .ok () := ⟨fun ⟨_, h⟩ => h, fun h => ⟨(), h⟩⟩
    simp [Except.map, hunit]
  | error fault => simp [Except.map]

theorem changeObjects_map_eq_ok {f : Objects → Except Fault Objects} {i j : Interpreter} :
    changeObjects (fun o => (f o).map ((), ·)) i = some (.ok (), j) ↔
      ∃ o, f i.objects = .ok o ∧ j = { i with objects := o } := by
  simp [changeObjects_map_eq_some]

theorem completing_eq_ok {id a : ObjectId} {act : Effect Unit} {i j : Interpreter} :
    completing id act i = some (.ok a, j) ↔ act i = some (.ok (), j) ∧ a = id := by
  rw [completing]
  constructor
  · intro hrun
    split at hrun
    · cases hrun
    · rename_i k hdone
      cases hrun
      exact ⟨hdone, rfl⟩
    · cases hrun
  · intro hrun
    rw [hrun.1, hrun.2]

/-- Wherever the first effect has an outcome, the second has the same. -/
def Approximates (act act' : Effect α) : Prop :=
  ∀ i o, act i = some o → act' i = some o

theorem Approximates.bind {act act' : Effect α} {next next' : α → Effect β}
    (hact : Approximates act act') (hnext : ∀ a, Approximates (next a) (next' a)) :
    Approximates (act >>= next) (act' >>= next') := by
  intro i o hrun
  rw [bind_apply] at hrun ⊢
  split at hrun
  · cases hrun
  · rename_i a j hfirst
    rw [hact i _ hfirst]
    exact hnext a j o hrun
  · rename_i fault j hfirst
    rw [hact i _ hfirst]
    exact hrun

theorem Approximates.completing {act act' : Effect Unit} (hact : Approximates act act')
    (id : ObjectId) : Approximates (completing id act) (completing id act') := by
  intro i o hrun
  rw [Effect.completing] at hrun ⊢
  split at hrun
  · cases hrun
  · rename_i j hdone
    rw [hact i _ hdone]
    exact hrun
  · rename_i fault j hfailed
    rw [hact i _ hfailed]
    exact hrun

theorem Approximates.inFrame {act act' : Effect α} (hact : Approximates act act') (frame : Frame) :
    Approximates (inFrame frame act) (inFrame frame act') := by
  intro i o hrun
  rw [Effect.inFrame] at hrun ⊢
  split at hrun
  · cases hrun
  · rename_i r j hbody
    rw [hact _ _ hbody]
    exact hrun

end Effect

theorem Plan.approximates {α : Type} {n m : Nat}
    (h : ∀ {β : Type} (t : Task β), Approximates (t.run n) (t.run m)) (p : Plan α) :
    Approximates (p.run n) (p.run m) := by
  induction p with
  | step s => exact fun _ _ hrun => hrun
  | part t => exact h t
  | bind p next ihp ihnext => exact ihp.bind ihnext
  | completing id p ih => exact ih.completing id
  | call d f args p ih => exact .bind (fun _ _ hrun => hrun) fun frame => ih.inFrame frame

/-- A run that ends is the same under every larger budget. -/
theorem Task.approximates {α : Type} {n m : Nat} (hle : n ≤ m) (t : Task α) :
    Approximates (t.run n) (t.run m) := by
  induction n generalizing m α with
  | zero =>
    intro i o hrun
    rw [t.run_zero] at hrun
    cases hrun
  | succ n ih =>
    obtain ⟨m, rfl⟩ : ∃ k, m = k + 1 := ⟨m - 1, by omega⟩
    rw [← t.run_plan, ← t.run_plan]
    exact Plan.approximates (fun t => ih (Nat.le_of_succ_le_succ hle) t) t.plan

theorem Plan.run_le {α : Type} {n m : Nat} (hle : n ≤ m) (p : Plan α) :
    Approximates (p.run n) (p.run m) :=
  Plan.approximates (fun t => t.approximates hle) p

/-- The plan of a statement outside functions. -/
def Statement.topPlan : Statement → Plan Value
  | .expr e => .part (.expr e)
  | s => do
    let _ ← Plan.part (.statement s)
    return .undefined

theorem Statement.run_topPlan (n : Nat) (s : Statement) :
    s.topPlan.run n = Interpreter.topLevel n s := by
  cases s with
  | expr e => rfl
  | _ => exact (discard_bind _ _).symm

namespace Interpreter

theorem runStatement_le {n m : Nat} (hle : n ≤ m) {s : Statement} {i : Interpreter}
    {o : Value × Interpreter} (h : i.runStatement n s = some o) : i.runStatement m s = some o := by
  rw [runStatement, ← s.run_topPlan] at h ⊢
  split at h
  · cases h
  · rename_i v j hrun
    rw [Plan.run_le hle _ i _ hrun]
    exact h
  · rename_i fault j hrun
    rw [Plan.run_le hle _ i _ hrun]
    exact h

theorem runStatements_le {n m : Nat} (hle : n ≤ m) {program : Program} {last : Value}
    {i : Interpreter} {o : Value × Interpreter} (h : runStatements n program last i = some o) :
    runStatements m program last i = some o := by
  induction program generalizing i last with
  | nil => exact h
  | cons s rest ih =>
    rw [runStatements] at h ⊢
    split at h
    · cases h
    · rename_i v j hfirst
      rw [runStatement_le hle hfirst]
      exact ih h

end Interpreter

/-- The run of a plan goes through the state `k`: where it begins or ends, or where one of its parts
does, and so on to every depth. -/
inductive Plan.Visits : {α : Type} → Nat → Plan α → Interpreter → Interpreter → Prop
  | start {α : Type} {n : Nat} {p : Plan α} {i : Interpreter} : Visits n p i i
  | finish {α : Type} {n : Nat} {p : Plan α} {i k : Interpreter} {r : Except Fault α} :
      p.run n i = some (r, k) → Visits n p i k
  | part {α : Type} {n : Nat} {t : Task α} {i k : Interpreter} :
      Visits n t.plan i k → Visits (n + 1) (.part t) i k
  | first {α β : Type} {n : Nat} {p : Plan α} {next : α → Plan β} {i k : Interpreter} :
      Visits n p i k → Visits n (.bind p next) i k
  | next {α β : Type} {n : Nat} {p : Plan α} {next : α → Plan β} {i j k : Interpreter} {a : α} :
      p.run n i = some (.ok a, j) → Visits n (next a) j k → Visits n (.bind p next) i k
  | completing {n : Nat} {id : ObjectId} {p : Plan Unit} {i k : Interpreter} :
      Visits n p i k → Visits n (.completing id p) i k
  | call {α : Type} {n : Nat} {d : Dispatch} {f : FunctionDecl} {args : Arguments} {p : Plan α}
      {i k : Interpreter} {frame : Frame} : i.enter d f args = .ok frame →
      Visits n p (i.pushFrame frame) k → Visits n (.call d f args p) i k

/-- What runs keep, and what is kept when a call is entered, holds all along. -/
theorem Plan.Visits.keeps {C : Interpreter → Prop}
    (hrun : ∀ {β : Type} (n : Nat) (p : Plan β) i r j, C i → p.run n i = some (r, j) → C j)
    (henter : ∀ i d f args frame, C i → i.enter d f args = .ok frame → C (i.pushFrame frame))
    {α : Type} {n : Nat} {p : Plan α} {i k : Interpreter} (h : p.Visits n i k) (hi : C i) :
    C k := by
  induction h with
  | start => exact hi
  | finish hend => exact hrun _ _ _ _ _ hi hend
  | part _ ih => exact ih hi
  | first _ ih => exact ih hi
  | next hfirst _ ih => exact ih (hrun _ _ _ _ _ hi hfirst)
  | completing _ ih => exact ih hi
  | call hframe _ ih => exact ih (henter _ _ _ _ _ hi hframe)

/-- The run of statements one after the other goes through the state `k`. -/
inductive Program.VisitsFrom (n : Nat) : Program → Interpreter → Interpreter → Prop
  | start {program : Program} {i : Interpreter} : VisitsFrom n program i i
  | statement {s : Statement} {rest : Program} {i k : Interpreter} :
      s.topPlan.Visits n i k → VisitsFrom n (s :: rest) i k
  | later {s : Statement} {rest : Program} {i j k : Interpreter} {v : Value} :
      i.runStatement n s = some (v, j) → VisitsFrom n rest j k → VisitsFrom n (s :: rest) i k

/-- The run of a program goes through the state `k`. -/
def Program.Visits (n : Nat) (program : Program) (i k : Interpreter) : Prop :=
  program.VisitsFrom n { i with topLocals := ∅ } k

end TorqueScript
