import TorqueScript.Interpreter.Builtin
import TorqueScript.Interpreter.Dispatch
import TorqueScript.Operator

/-!
Running expressions and statements. An effect changes the state, also when it ends
in a fault. Scripts need not end, so every run has a budget: how deep the run may
nest, where each round of a loop nests in the round before. A run that exhausts its
budget has no outcome.
-/

namespace TorqueScript

/-- A change of the state that ends in a result or a fault, or has no outcome. -/
abbrev Effect := ExceptT Fault (StateT Interpreter Option)

/-- How a statement ends. -/
inductive Flow where
  | normal
  | break
  | continue
  | return (v : Value)

/-- A place whose subscripts and object are evaluated. -/
inductive Location where
  | local (key : String)
  | global (key : String)
  | field (id : ObjectId) (name : String)

namespace Effect

def exhausted {α : Type} : Effect α :=
  fun _ => none

/-- An outcome that does not change the state. -/
def ofExcept {α : Type} (r : Interpreter → Except Fault α) : Effect α :=
  fun i => some (r i, i)

def ofBuiltin (f : Builtin) (args : Arguments) : Effect Value :=
  fun i => some (f.run args i)

/-- Asks a function of the host. -/
def askHost (name : String) (f : ChangingHost) (args : Arguments) : Effect Value :=
  fun i => some ((f i.asked args).mapError (.hostFailure name), i.ask)

/-- A change of the objects. -/
def changeObjects {α : Type} (f : Objects → Except Fault (α × Objects)) : Effect α :=
  fun i =>
    match f i.objects with
    | .ok (a, objects) => some (.ok a, { i with objects := objects })
    | .error fault => some (.error fault, i)

def changeFunctions (f : Functions Callable → Functions Callable) : Effect Unit :=
  fun i => some (.ok (), { i with functions := f i.functions })

def resolve (v : Value) : Effect ObjectId :=
  ofExcept fun i => i.objects.resolve v

def setField (id : ObjectId) (name : String) (v : Value) : Effect Unit :=
  changeObjects fun o => (o.setField id name v).map ((), ·)

def addChild (group child : ObjectId) : Effect Unit :=
  changeObjects fun o => (o.addChild group child).map ((), ·)

def load : Location → Effect Value
  | .local key => ofExcept fun i => .ok (i.locals.value key)
  | .global key => ofExcept fun i => .ok (i.globals.value key)
  | .field id name => ofExcept fun i => i.objects.field id name

def store (l : Location) (v : Value) : Effect Unit :=
  match l with
  | .local key => fun i => some (.ok (), i.setLocal key v)
  | .global key => fun i => some (.ok (), i.setGlobalKey key v)
  | .field id name => setField id name v

/-- Removes an object that could not be completed. -/
def rollback (id : ObjectId) (i : Interpreter) : Interpreter :=
  match i.objects.delete id with
  | .ok objects => { i with objects := objects }
  | .error _ => i

/-- Runs an effect on a new object; if it fails, the object is removed. -/
def completing (id : ObjectId) (act : Effect Unit) : Effect ObjectId :=
  fun i =>
    match act i with
    | none => none
    | some (.ok (), i) => some (.ok id, i)
    | some (.error fault, i) => some (.error fault, rollback id i)

/-- Runs an effect inside a call. The call is over when the effect is, however it ends. -/
def inFrame {α : Type} (frame : Frame) (act : Effect α) : Effect α :=
  fun i =>
    match act (i.pushFrame frame) with
    | none => none
    | some (r, i) => some (r, i.popFrame)

end Effect

/-- The local variables that a call starts with. Missing arguments are undefined and those to spare
are dropped. -/
def bindParameters (fold : String → String) : List String → Arguments → Variables → Variables
  | [], _, vars => vars
  | p :: ps, args, vars =>
    bindParameters fold ps args.tail (vars.insert (fold p) (args.headD .undefined))

/-- The call that running a script definition makes, unless calls are nested too deeply. -/
def Interpreter.enter (i : Interpreter) (d : Dispatch) (f : FunctionDecl) (args : Arguments) :
    Except Fault Frame :=
  let limit := i.settings.maxDepth
  if 0 < limit && limit ≤ i.frames.length then .error (.tooDeep limit)
  else
    .ok {
      locals := bindParameters i.fold f.parameters args ∅
      slot := d.definition.slot
      fallback := d.fallback
      receiver := d.receiver }

/-- The datablock that a declaration inherits from. -/
def Interpreter.datablockParent (i : Interpreter) (d : DatablockDecl) :
    Except Fault (Option ObjectId) :=
  match d.parent with
  | none => .ok none
  | some parent =>
    match i.objects.findByName parent with
    | none => .error (.unknownDatablock d.name parent)
    | some id =>
      match i.objects.get id with
      | .error fault => .error fault
      | .ok object =>
        if object.isDatablock then .ok (some id)
        else .error (.unknownDatablock d.name parent)

def SwitchKind.matches (kind : SwitchKind) (subject label : Value) : Bool :=
  match kind with
  | .byNumber => subject.numberEq label
  | .byText => subject.textEq label

/-- What a call answers: the value it returns, if any. -/
def Flow.result : Flow → Value
  | .return v => v
  | _ => .undefined

namespace Eval

open Effect

mutual

def expr : Nat → Expr → Effect Value
  | 0, _ => exhausted
  | n + 1, e =>
    match e with
    | .number x => return .number x
    | .text s => return .text s
    | .bareword s => return .text s
    | .read p => do
      let l ← place n p
      load l
    | .unary op e => do
      let v ← expr n e
      return op.apply v
    | .binary .logicalAnd l r => do
      let v ← expr n l
      if v.isTrue then
        let w ← expr n r
        return .ofBool w.isTrue
      else return .ofBool false
    | .binary .logicalOr l r => do
      let v ← expr n l
      if v.isTrue then return .ofBool true
      else
        let w ← expr n r
        return .ofBool w.isTrue
    | .binary op l r => do
      let v ← expr n l
      let w ← expr n r
      ofExcept fun _ => op.apply v w
    | .conditional c a b => do
      let v ← expr n c
      if v.isTrue then expr n a else expr n b
    | .assign p none e => do
      let l ← place n p
      let v ← expr n e
      store l v
      return v
    | .assign p (some op) e => do
      let l ← place n p
      let w ← expr n e
      let old ← load l
      let v ← ofExcept fun _ => op.apply old w
      store l v
      return v
    | .step p op => do
      let l ← place n p
      let old ← load l
      store l (.number (op.apply old.toNumber))
      return .number old.toNumber
    | .call qualifier name args => do
      let vs ← exprs n args
      let d ← ofExcept fun i => i.dispatchCall qualifier name vs
      invoke n d vs
    | .method e name args => do
      let v ← expr n e
      let id ← resolve v
      let vs ← exprs n args
      let d ← ofExcept fun i => i.dispatchMethod id name
      invoke n d (.object id :: vs)
    | .create d => do
      let id ← create n d
      return .object id

/-- Expressions from left to right. -/
def exprs : Nat → List Expr → Effect (List Value)
  | 0, _ => exhausted
  | _ + 1, [] => return []
  | n + 1, e :: es => do
    let v ← expr n e
    let vs ← exprs n es
    return v :: vs

def place : Nat → Place → Effect Location
  | 0, _ => exhausted
  | n + 1, .variable scope name subscripts => do
    let vs ← exprs n subscripts
    ofExcept fun i =>
      let key := i.fold (Value.elementName name vs)
      match scope with
      | .local => .ok (.local key)
      | .global => .ok (.global key)
  | n + 1, .field e name subscripts => do
    let v ← expr n e
    let id ← resolve v
    let vs ← exprs n subscripts
    return .field id (Value.elementName name vs)

/-- The text of an expression that may be missing. -/
def optionalText : Nat → Option Expr → Effect (Option String)
  | 0, _ => exhausted
  | _ + 1, none => return none
  | n + 1, some e => do
    let v ← expr n e
    return some v.toText

def className : Nat → ClassRef → Effect String
  | 0, _ => exhausted
  | _ + 1, .named name => return name
  | n + 1, .computed e => do
    let v ← expr n e
    return v.toText

/-- Creates an object: its fields are set before its children are created. -/
def create : Nat → ObjectDecl → Effect ObjectId
  | 0, _ => exhausted
  | n + 1, ⟨c, name, fields, children⟩ => do
    let c ← className n c
    let name ← optionalText n name
    let id ← changeObjects fun o => o.instantiate c name none false
    completing id do
      initFields n id fields
      createChildren n id children

def initFields : Nat → ObjectId → List FieldInit → Effect Unit
  | 0, _, _ => exhausted
  | _ + 1, _, [] => return ()
  | n + 1, id, ⟨name, subscripts, e⟩ :: rest => do
    let vs ← exprs n subscripts
    let v ← expr n e
    setField id (Value.elementName name vs) v
    initFields n id rest

def createChildren : Nat → ObjectId → List ObjectDecl → Effect Unit
  | 0, _, _ => exhausted
  | _ + 1, _, [] => return ()
  | n + 1, id, d :: rest => do
    let child ← create n d
    addChild id child
    createChildren n id rest

/-- Runs a definition. -/
def invoke : Nat → Dispatch → Arguments → Effect Value
  | 0, _, _ => exhausted
  | n + 1, d, args =>
    match d.definition.body with
    | .script f => do
      let frame ← ofExcept fun i => i.enter d f args
      let flow ← inFrame frame (block n f.body)
      return flow.result
    | .byName => do
      let (qualifier, name) := qualifiedParts (args.text 0)
      let d ← ofExcept fun i => i.dispatchStatic qualifier name args.tail
      invoke n d args.tail
    | .builtin f => ofBuiltin f args
    | .host f => askHost d.definition.slot.key.toText f args

/-- Statements in order, up to the first that does not end normally. -/
def block : Nat → List Statement → Effect Flow
  | 0, _ => exhausted
  | _ + 1, [] => return .normal
  | n + 1, s :: rest => do
    let flow ← statement n s
    match flow with
    | .normal => block n rest
    | flow => return flow

def statement : Nat → Statement → Effect Flow
  | 0, _ => exhausted
  | n + 1, s =>
    match s with
    | .expr e => do
      discard (expr n e)
      return .normal
    | .branch c consequence alternative => do
      let v ← expr n c
      if v.isTrue then block n consequence else block n (alternative.getD [])
    | .whileLoop c body => loop n (some c) none body
    | .forLoop none c update body => loop n c update body
    | .forLoop (some init) c update body => do
      discard (expr n init)
      loop n c update body
    | .switch kind subject cases default => do
      let v ← expr n subject
      switch n kind v cases default
    | .break => return .break
    | .continue => return .continue
    | .return none => return .return .undefined
    | .return (some e) => do
      let v ← expr n e
      return .return v
    | .function f => do
      changeFunctions fun r => r.define (r.key f.qualifier f.name) (.script f)
      return .normal
    | .package name functions => do
      changeFunctions fun r =>
        r.declare name (functions.map fun f => (r.key f.qualifier f.name, .script f))
      return .normal
    | .datablock d => do
      let parent ← ofExcept fun i => i.datablockParent d
      let id ← changeObjects fun o => o.instantiate d.className (some d.name) parent true
      discard (completing id (initFields n id d.fields))
      return .normal

/-- The truth of a condition. A missing condition is true. -/
def condition : Nat → Option Expr → Effect Bool
  | 0, _ => exhausted
  | _ + 1, none => return true
  | n + 1, some c => do
    let v ← expr n c
    return v.isTrue

/-- Rounds of a loop. The update runs after each round that does not leave the loop. -/
def loop : Nat → Option Expr → Option Expr → List Statement → Effect Flow
  | 0, _, _, _ => exhausted
  | n + 1, c, update, body => do
    let again ← condition n c
    if again then
      let flow ← block n body
      match flow with
      | .break => return .normal
      | .return v => return .return v
      | _ =>
        discard (exprs n update.toList)
        loop n c update body
    else return .normal

/-- Runs the first case that has a matching label, or the default. -/
def switch : Nat → SwitchKind → Value → List SwitchCase → Option (List Statement) → Effect Flow
  | 0, _, _, _, _ => exhausted
  | n + 1, _, _, [], default => block n (default.getD [])
  | n + 1, kind, subject, ⟨labels, body⟩ :: rest, default => do
    let found ← anyMatch n kind subject labels
    if found then block n body else switch n kind subject rest default

/-- Evaluates labels up to the first that matches. -/
def anyMatch : Nat → SwitchKind → Value → List Expr → Effect Bool
  | 0, _, _, _ => exhausted
  | _ + 1, _, _, [] => return false
  | n + 1, kind, subject, e :: rest => do
    let label ← expr n e
    if kind.matches subject label then return true else anyMatch n kind subject rest

end

end Eval

end TorqueScript
