import TorqueScript.Program

/-!
The leaves of programs: the numbers, texts, names and variables that a program is
made of, from left to right. Switches are listed as well, so that one can say that
a program has none.
-/

namespace TorqueScript

inductive Leaf where
  | number (x : Float)
  | text (s : String)
  | name (s : String)
  | variable (scope : Scope) (name : String)
  | switch

mutual

def Expr.leaves : Expr → List Leaf
  | .number x => [.number x]
  | .text s => [.text s]
  | .bareword s => [.name s]
  | .read p => p.leaves
  | .unary _ e => e.leaves
  | .binary _ l r => l.leaves ++ r.leaves
  | .conditional c a b => c.leaves ++ a.leaves ++ b.leaves
  | .assign p _ v => p.leaves ++ v.leaves
  | .step p _ => p.leaves
  | .call none name args => .name name :: leavesOfList args
  | .call (some q) name args => .name q :: .name name :: leavesOfList args
  | .method e name args => e.leaves ++ .name name :: leavesOfList args
  | .create d => d.leaves

def leavesOfList : List Expr → List Leaf
  | [] => []
  | e :: es => e.leaves ++ leavesOfList es

def Place.leaves : Place → List Leaf
  | .variable scope name subscripts => .variable scope name :: leavesOfList subscripts
  | .field e name subscripts => e.leaves ++ .name name :: leavesOfList subscripts

def ClassRef.leaves : ClassRef → List Leaf
  | .named name => [.name name]
  | .computed e => e.leaves

def leavesOfOption : Option Expr → List Leaf
  | none => []
  | some e => e.leaves

def ObjectDecl.leaves : ObjectDecl → List Leaf
  | ⟨c, name, fields, children⟩ =>
    c.leaves ++ leavesOfOption name ++ leavesOfFields fields ++ leavesOfChildren children

def leavesOfFields : List FieldInit → List Leaf
  | [] => []
  | ⟨name, subscripts, value⟩ :: rest =>
    .name name :: leavesOfList subscripts ++ value.leaves ++ leavesOfFields rest

def leavesOfChildren : List ObjectDecl → List Leaf
  | [] => []
  | d :: rest => d.leaves ++ leavesOfChildren rest

end

def DatablockDecl.leaves (d : DatablockDecl) : List Leaf :=
  .name d.className :: .name d.name :: d.parent.toList.map .name ++ leavesOfFields d.fields

mutual

def Statement.leaves : Statement → List Leaf
  | .expr e => e.leaves
  | .branch c body none => c.leaves ++ leavesOfBody body
  | .branch c body (some alternative) => c.leaves ++ leavesOfBody body ++ leavesOfBody alternative
  | .whileLoop c body => c.leaves ++ leavesOfBody body
  | .forLoop i c u body =>
    leavesOfOption i ++ leavesOfOption c ++ leavesOfOption u ++ leavesOfBody body
  | .switch _ subject cases none => .switch :: subject.leaves ++ leavesOfCases cases
  | .switch _ subject cases (some body) =>
    .switch :: subject.leaves ++ leavesOfCases cases ++ leavesOfBody body
  | .break => []
  | .continue => []
  | .return value => leavesOfOption value
  | .function f => f.leaves
  | .package name functions => .name name :: leavesOfFunctions functions
  | .datablock d => d.leaves

def leavesOfBody : List Statement → List Leaf
  | [] => []
  | s :: rest => s.leaves ++ leavesOfBody rest

def leavesOfCases : List SwitchCase → List Leaf
  | [] => []
  | ⟨labels, body⟩ :: rest => leavesOfList labels ++ leavesOfBody body ++ leavesOfCases rest

def FunctionDecl.leaves : FunctionDecl → List Leaf
  | ⟨qualifier, name, parameters, body⟩ =>
    qualifier.toList.map .name ++ .name name :: parameters.map (.variable .local) ++
      leavesOfBody body

def leavesOfFunctions : List FunctionDecl → List Leaf
  | [] => []
  | f :: rest => f.leaves ++ leavesOfFunctions rest

end

/-- The leaves of a whole program. -/
def Program.leaves (p : Program) : List Leaf :=
  leavesOfBody p

end TorqueScript
