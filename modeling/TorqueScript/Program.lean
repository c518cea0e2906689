/-!
Programs as trees. Expressions include assignments, calls and object creation; a
place is an expression that can be assigned to. A program is a list of statements.
-/

namespace TorqueScript

/-- The operators that also come in an assigning form. -/
inductive Arith where
  | add | sub | mul | div | rem
deriving DecidableEq

inductive BinaryOp where
  | arith (op : Arith)
  | less | greater | lessEqual | greaterEqual
  | equal | notEqual | textEqual | textNotEqual
  | logicalAnd | logicalOr
  | bitAnd | bitOr | bitXor | shiftLeft | shiftRight
  | concat | space | tab | newline
deriving DecidableEq

inductive UnaryOp where
  | not | negate | complement
deriving DecidableEq

inductive StepOp where
  | increment | decrement
deriving DecidableEq

inductive Scope where
  | local
  | global
deriving DecidableEq

mutual

inductive Expr where
  | number (x : Float)
  | text (s : String)
  | bareword (s : String)
  | read (place : Place)
  | unary (op : UnaryOp) (e : Expr)
  | binary (op : BinaryOp) (left right : Expr)
  | conditional (condition consequence alternative : Expr)
  | assign (place : Place) (op : Option Arith) (value : Expr)
  | step (place : Place) (op : StepOp)
  | call (qualifier : Option String) (name : String) (arguments : List Expr)
  | method (receiver : Expr) (name : String) (arguments : List Expr)
  | create (declaration : ObjectDecl)

/-- What can stand on the left of an assignment. -/
inductive Place where
  | variable (scope : Scope) (name : String) (subscripts : List Expr)
  | field (object : Expr) (name : String) (subscripts : List Expr)

inductive ClassRef where
  | named (name : String)
  | computed (e : Expr)

structure FieldInit where
  name : String
  subscripts : List Expr
  value : Expr

/-- An object with its fields and its nested objects. -/
structure ObjectDecl where
  className : ClassRef
  name : Option Expr
  fields : List FieldInit
  children : List ObjectDecl

end

structure DatablockDecl where
  className : String
  name : String
  parent : Option String
  fields : List FieldInit

/-- How a switch compares its subject with the labels. -/
inductive SwitchKind where
  | byNumber
  | byText
deriving DecidableEq

mutual

inductive Statement where
  | expr (e : Expr)
  | branch (condition : Expr) (consequence : List Statement)
      (alternative : Option (List Statement))
  | whileLoop (condition : Expr) (body : List Statement)
  | forLoop (init condition update : Option Expr) (body : List Statement)
  | switch (kind : SwitchKind) (subject : Expr) (cases : List SwitchCase)
      (default : Option (List Statement))
  | break
  | continue
  | return (value : Option Expr)
  | function (f : FunctionDecl)
  | package (name : String) (functions : List FunctionDecl)
  | datablock (d : DatablockDecl)

/-- Labels, of which any one selects the body. -/
structure SwitchCase where
  labels : List Expr
  body : List Statement

structure FunctionDecl where
  qualifier : Option String
  name : String
  parameters : List String
  body : List Statement

end

abbrev Program := List Statement

/-- The place that an expression denotes, if it denotes one. -/
def Expr.place? : Expr → Option Place
  | .read p => some p
  | _ => none

end TorqueScript
