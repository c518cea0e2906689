import TorqueScript.Program
import TorqueScript.Number.Format

/-!
Programs as text. Every operator application is put in parentheses, every body in
braces, and each statement of a program on a line of its own.
-/

namespace TorqueScript

def Arith.render : Arith → String
  | add => "+"
  | sub => "-"
  | mul => "*"
  | div => "/"
  | rem => "%"

def BinaryOp.render : BinaryOp → String
  | arith op => op.render
  | less => "<"
  | greater => ">"
  | lessEqual => "<="
  | greaterEqual => ">="
  | equal => "=="
  | notEqual => "!="
  | textEqual => "$="
  | textNotEqual => "!$="
  | logicalAnd => "&&"
  | logicalOr => "||"
  | bitAnd => "&"
  | bitOr => "|"
  | bitXor => "^"
  | shiftLeft => "<<"
  | shiftRight => ">>"
  | concat => "@"
  | space => "SPC"
  | tab => "TAB"
  | newline => "NL"

def UnaryOp.render : UnaryOp → String
  | not => "!"
  | negate => "-"
  | complement => "~"

def StepOp.render : StepOp → String
  | increment => "++"
  | decrement => "--"

def Scope.sign : Scope → String
  | .local => "%"
  | .global => "$"

def qualified (qualifier : Option String) (name : String) : String :=
  match qualifier with
  | some q => q ++ "::" ++ name
  | none => name

mutual

def Expr.render : Expr → String
  | .number x => Number.toNumeral x
  | .text s => "\"" ++ s ++ "\""
  | .bareword s => s
  | .read p => p.render
  | .unary op e => "(" ++ op.render ++ e.render ++ ")"
  | .binary op l r => "(" ++ l.render ++ " " ++ op.render ++ " " ++ r.render ++ ")"
  | .conditional c a b => "(" ++ c.render ++ " ? " ++ a.render ++ " : " ++ b.render ++ ")"
  | .assign p op v =>
    "(" ++ p.render ++ " " ++ (op.map Arith.render).getD "" ++ "= " ++ v.render ++ ")"
  | .step p op => "(" ++ p.render ++ op.render ++ ")"
  | .call q name args => qualified q name ++ "(" ++ renderList ", " args ++ ")"
  | .method e name args => e.render ++ "." ++ name ++ "(" ++ renderList ", " args ++ ")"
  | .create d => d.render

/-- Expressions with a separator between them. -/
def renderList (separator : String) : List Expr → String
  | [] => ""
  | [e] => e.render
  | e :: es => e.render ++ separator ++ renderList separator es

def renderSubscripts : List Expr → String
  | [] => ""
  | e :: es => "[" ++ renderList ", " (e :: es) ++ "]"

def Place.render : Place → String
  | .variable scope name subscripts => scope.sign ++ name ++ renderSubscripts subscripts
  | .field e name subscripts => e.render ++ "." ++ name ++ renderSubscripts subscripts

def ClassRef.render : ClassRef → String
  | .named name => name
  | .computed e => "(" ++ e.render ++ ")"

def renderOption : Option Expr → String
  | none => ""
  | some e => e.render

def ObjectDecl.render : ObjectDecl → String
  | ⟨c, name, fields, children⟩ =>
    let head := "new " ++ c.render ++ "(" ++ renderOption name ++ ")"
    if fields.isEmpty && children.isEmpty then head
    else head ++ " \x7b" ++ renderFields fields ++ renderChildren children ++ " \x7d"

def renderFields : List FieldInit → String
  | [] => ""
  | ⟨name, subscripts, value⟩ :: rest =>
    " " ++ name ++ renderSubscripts subscripts ++ " = " ++ value.render ++ ";" ++
      renderFields rest

def renderChildren : List ObjectDecl → String
  | [] => ""
  | d :: rest => " " ++ d.render ++ ";" ++ renderChildren rest

end

def SwitchKind.keyword : SwitchKind → String
  | byNumber => "switch"
  | byText => "switch$"

def DatablockDecl.render (d : DatablockDecl) : String :=
  "datablock " ++ d.className ++ "(" ++ d.name ++ ")" ++
    (d.parent.map (" : " ++ ·)).getD "" ++ " \x7b" ++ renderFields d.fields ++ " \x7d;"

mutual

def Statement.render : Statement → String
  | .expr e => e.render ++ ";"
  | .branch c body alternative =>
    "if (" ++ c.render ++ ") " ++ renderBlock body ++ renderElse alternative
  | .whileLoop c body => "while (" ++ c.render ++ ") " ++ renderBlock body
  | .forLoop i c u body =>
    "for (" ++ renderOption i ++ "; " ++ renderOption c ++ "; " ++ renderOption u ++ ") " ++
      renderBlock body
  | .switch kind subject cases default =>
    kind.keyword ++ " (" ++ subject.render ++ ") \x7b" ++ renderCases cases ++
      renderDefault default ++ " \x7d"
  | .break => "break;"
  | .continue => "continue;"
  | .return none => "return;"
  | .return (some e) => "return " ++ e.render ++ ";"
  | .function f => f.render
  | .package name functions =>
    "package " ++ name ++ " \x7b" ++ renderFunctions functions ++ " \x7d;"
  | .datablock d => d.render

def renderStatements : List Statement → String
  | [] => ""
  | s :: rest => " " ++ s.render ++ renderStatements rest

def renderBlock (body : List Statement) : String :=
  "\x7b" ++ renderStatements body ++ " \x7d"

def renderElse : Option (List Statement) → String
  | none => ""
  | some body => " else " ++ renderBlock body

def renderDefault : Option (List Statement) → String
  | none => ""
  | some body => " default: " ++ renderBlock body

def renderCases : List SwitchCase → String
  | [] => ""
  | ⟨labels, body⟩ :: rest =>
    " case " ++ renderList " or " labels ++ ": " ++ renderBlock body ++ renderCases rest

def FunctionDecl.render : FunctionDecl → String
  | ⟨q, name, parameters, body⟩ =>
    "function " ++ qualified q name ++ "(" ++ ", ".intercalate (parameters.map ("%" ++ ·)) ++
      ") " ++ renderBlock body

def renderFunctions : List FunctionDecl → String
  | [] => ""
  | f :: rest => " " ++ f.render ++ renderFunctions rest

end

def Program.render (p : Program) : String :=
  "\n".intercalate (p.map Statement.render)

end TorqueScript
