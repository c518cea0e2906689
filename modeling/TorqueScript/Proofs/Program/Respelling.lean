import TorqueScript.Program
import TorqueScript.Text.Letter

/-!
Programs with other spellings of their names. The names of variables, parameters, fields,
functions, methods, packages and of the namespaces in calls and definitions are spelled
anew; texts, barewords, and the names of classes and objects stay as they are.
-/

namespace TorqueScript

variable (σ : String → String)

mutual

def Expr.respell : Expr → Expr
  | .number x => .number x
  | .text s => .text s
  | .bareword s => .bareword s
  | .read p => .read p.respell
  | .unary op e => .unary op e.respell
  | .binary op l r => .binary op l.respell r.respell
  | .conditional c a b => .conditional c.respell a.respell b.respell
  | .assign p op v => .assign p.respell op v.respell
  | .step p op => .step p.respell op
  | .call qualifier name args => .call (qualifier.map σ) (σ name) (respellExprs args)
  | .method e name args => .method e.respell (σ name) (respellExprs args)
  | .create d => .create d.respell

def respellExprs : List Expr → List Expr
  | [] => []
  | e :: es => e.respell :: respellExprs es

def Place.respell : Place → Place
  | .variable scope name subscripts => .variable scope (σ name) (respellExprs subscripts)
  | .field e name subscripts => .field e.respell (σ name) (respellExprs subscripts)

def ClassRef.respell : ClassRef → ClassRef
  | .named name => .named name
  | .computed e => .computed e.respell

def respellOption : Option Expr → Option Expr
  | none => none
  | some e => some e.respell

def ObjectDecl.respell : ObjectDecl → ObjectDecl
  | ⟨c, name, fields, children⟩ =>
    ⟨c.respell, respellOption name, respellFields fields, respellChildren children⟩

def respellFields : List FieldInit → List FieldInit
  | [] => []
  | ⟨name, subscripts, value⟩ :: rest =>
    ⟨σ name, respellExprs subscripts, value.respell⟩ :: respellFields rest

def respellChildren : List ObjectDecl → List ObjectDecl
  | [] => []
  | d :: rest => d.respell :: respellChildren rest

end

def DatablockDecl.respell (d : DatablockDecl) : DatablockDecl :=
  { d with fields := respellFields σ d.fields }

mutual

def Statement.respell : Statement → Statement
  | .expr e => .expr (e.respell σ)
  | .branch c body alternative =>
    .branch (c.respell σ) (respellBody body) (respellOptionalBody alternative)
  | .whileLoop c body => .whileLoop (c.respell σ) (respellBody body)
  | .forLoop i c u body =>
    .forLoop (respellOption σ i) (respellOption σ c) (respellOption σ u) (respellBody body)
  | .switch kind subject cases default =>
    .switch kind (subject.respell σ) (respellCases cases) (respellOptionalBody default)
  | .break => .break
  | .continue => .continue
  | .return value => .return (respellOption σ value)
  | .function f => .function f.respell
  | .package name functions => .package (σ name) (respellFunctions functions)
  | .datablock d => .datablock (d.respell σ)

def respellBody : List Statement → List Statement
  | [] => []
  | s :: rest => s.respell :: respellBody rest

def respellOptionalBody : Option (List Statement) → Option (List Statement)
  | none => none
  | some body => some (respellBody body)

def respellCases : List SwitchCase → List SwitchCase
  | [] => []
  | ⟨labels, body⟩ :: rest => ⟨respellExprs σ labels, respellBody body⟩ :: respellCases rest

def FunctionDecl.respell : FunctionDecl → FunctionDecl
  | ⟨qualifier, name, parameters, body⟩ =>
    ⟨qualifier.map σ, σ name, parameters.map σ, respellBody body⟩

def respellFunctions : List FunctionDecl → List FunctionDecl
  | [] => []
  | f :: rest => f.respell :: respellFunctions rest

end

/-- A whole program with its names spelled anew. -/
def Program.respell (p : Program) : Program :=
  respellBody σ p

/-- The programs differ at most in the case of ASCII letters in names. -/
def Program.SameButCase (p q : Program) : Prop :=
  p.respell Text.lowerAscii = q.respell Text.lowerAscii

theorem toList_respellOption (e : Option Expr) :
    (respellOption σ e).toList = respellExprs σ e.toList := by
  cases e <;> rfl

theorem getD_respellOptionalBody (body : Option (List Statement)) :
    (respellOptionalBody σ body).getD [] = respellBody σ (body.getD []) := by
  cases body with
  | none => rw [respellOptionalBody]; simp [respellBody]
  | some body => rw [respellOptionalBody]; rfl

theorem FunctionDecl.qualifier_respell (f : FunctionDecl) :
    (f.respell σ).qualifier = f.qualifier.map σ := by
  cases f
  rfl

theorem FunctionDecl.name_respell (f : FunctionDecl) : (f.respell σ).name = σ f.name := by
  cases f
  rfl

theorem FunctionDecl.parameters_respell (f : FunctionDecl) :
    (f.respell σ).parameters = f.parameters.map σ := by
  cases f
  rfl

theorem FunctionDecl.body_respell (f : FunctionDecl) :
    (f.respell σ).body = respellBody σ f.body := by
  cases f
  rfl

theorem respellFunctions_eq_map (functions : List FunctionDecl) :
    respellFunctions σ functions = functions.map (FunctionDecl.respell σ) := by
  induction functions with
  | nil => rfl
  | cons f rest ih => rw [respellFunctions, ih, List.map_cons]

end TorqueScript
