import TorqueScript.Program.Parse.Basic

/-!
Reading expressions. Operators have levels; an expression is read at a level and
goes on as long as operators above that level follow. Binary operators group to
the left, assignments and conditionals to the right.
-/

namespace TorqueScript.Parse

/-- The levels of operators, from the loosest to the tightest. -/
abbrev Level := Nat

namespace Level

def lowest : Level := 0
def assignment : Level := 1
def conditional : Level := 2
def logicalOr : Level := 3
def logicalAnd : Level := 4
def bitOr : Level := 5
def bitXor : Level := 6
def bitAnd : Level := 7
def equality : Level := 8
def comparison : Level := 9
def concatenation : Level := 10
def shift : Level := 11
def sum : Level := 12
def product : Level := 13
def unary : Level := 14
def access : Level := 15

end Level

def binaryLevel : BinaryOp → Level
  | .logicalOr => Level.logicalOr
  | .logicalAnd => Level.logicalAnd
  | .bitOr => Level.bitOr
  | .bitXor => Level.bitXor
  | .bitAnd => Level.bitAnd
  | .equal | .notEqual | .textEqual | .textNotEqual => Level.equality
  | .less | .greater | .lessEqual | .greaterEqual => Level.comparison
  | .concat | .space | .tab | .newline => Level.concatenation
  | .shiftLeft | .shiftRight => Level.shift
  | .arith .add | .arith .sub => Level.sum
  | .arith .mul | .arith .div | .arith .rem => Level.product

/-- What can follow an operand and go on with it. -/
inductive Continuation where
  | assign (op : Option Arith)
  | conditional
  | binary (op : BinaryOp)
  | step (op : StepOp)
  | dot

def Continuation.level : Continuation → Level
  | assign _ => Level.assignment
  | conditional => Level.conditional
  | binary op => binaryLevel op
  | step _ => Level.access
  | dot => Level.access

/-- The continuation that a token begins. -/
def Continuation.ofToken? : Token → Option Continuation
  | .symbol .assign => some (assign none)
  | .symbol .addAssign => some (assign (some .add))
  | .symbol .subAssign => some (assign (some .sub))
  | .symbol .mulAssign => some (assign (some .mul))
  | .symbol .divAssign => some (assign (some .div))
  | .symbol .remAssign => some (assign (some .rem))
  | .symbol .question => some conditional
  | .symbol .logicalOr => some (binary .logicalOr)
  | .symbol .logicalAnd => some (binary .logicalAnd)
  | .symbol .bar => some (binary .bitOr)
  | .symbol .caret => some (binary .bitXor)
  | .symbol .ampersand => some (binary .bitAnd)
  | .symbol .equal => some (binary .equal)
  | .symbol .notEqual => some (binary .notEqual)
  | .symbol .textEqual => some (binary .textEqual)
  | .symbol .textNotEqual => some (binary .textNotEqual)
  | .symbol .less => some (binary .less)
  | .symbol .greater => some (binary .greater)
  | .symbol .lessEqual => some (binary .lessEqual)
  | .symbol .greaterEqual => some (binary .greaterEqual)
  | .symbol .concat => some (binary .concat)
  | .keyword .spc => some (binary .space)
  | .keyword .tab => some (binary .tab)
  | .keyword .nl => some (binary .newline)
  | .symbol .shiftLeft => some (binary .shiftLeft)
  | .symbol .shiftRight => some (binary .shiftRight)
  | .symbol .plus => some (binary (.arith .add))
  | .symbol .minus => some (binary (.arith .sub))
  | .symbol .star => some (binary (.arith .mul))
  | .symbol .slash => some (binary (.arith .div))
  | .symbol .percent => some (binary (.arith .rem))
  | .symbol .increment => some (step .increment)
  | .symbol .decrement => some (step .decrement)
  | .symbol .dot => some dot
  | _ => none

/-- What a token alone decides about the operand that it begins. -/
inductive Opening where
  | literal (e : Except Defect Expr)
  | variable (scope : Scope) (name : String)
  | name (text : String)
  | unary (op : UnaryOp)
  | parenthesis
  | creation

def Opening.ofToken? : Token → Option Opening
  | .numeral text =>
    match Number.ofLiteral? text.toList with
    | some x => some (literal (.ok (.number x)))
    | none => some (literal (.error (.badNumeral text)))
  | .text s => some (literal (.ok (.text s)))
  | .keyword .true => some (literal (.ok (.number 1.0)))
  | .keyword .false => some (literal (.ok (.number 0.0)))
  | .localVariable path => some (.variable .local path)
  | .globalVariable path => some (.variable .global path)
  | .name text => some (.name text)
  | .symbol .bang => some (unary .not)
  | .symbol .minus => some (unary .negate)
  | .symbol .tilde => some (unary .complement)
  | .symbol .openParen => some parenthesis
  | .keyword .new => some creation
  | _ => none

mutual

/-- An expression whose operators are all above `level`. -/
def expression (level : Level) (s : Stream) : Result Expr s.length := do
  let ⟨left, rest, _⟩ ← operand s
  let ⟨e, rest, _⟩ ← climb level left rest
  return ⟨e, rest, by omega⟩
termination_by 6 * s.length + 2

/-- Goes on with `left` while operators above `level` follow. -/
def climb (level : Level) (left : Expr) (s : Stream) : Result Expr (s.length + 1) :=
  match s with
  | .finish p => .ok ⟨left, .finish p, by omega⟩
  | .failure e => .ok ⟨left, .failure e, by omega⟩
  | .cons t rest =>
    match Continuation.ofToken? t.token with
    | none => .ok ⟨left, .cons t rest, by omega⟩
    | some c =>
      if c.level ≤ level then .ok ⟨left, .cons t rest, by omega⟩
      else
        match c with
        | .assign op =>
          match left.place? with
          | none => .error (unexpected (.cons t rest) "; (left side is not assignable)")
          | some place => do
            lookAhead rest
            let ⟨value, rest, _⟩ ← expression Level.lowest rest
            let ⟨e, rest, _⟩ ← climb level (.assign place op value) rest
            return ⟨e, rest, by simp only [Stream.length]; omega⟩
        | .conditional => do
          lookAhead rest
          let ⟨consequence, rest, _⟩ ← expression Level.lowest rest
          let ⟨_, rest, _⟩ ← expectSymbol .colon rest
          let ⟨alternative, rest, _⟩ ← expression Level.assignment rest
          let ⟨e, rest, _⟩ ← climb level (.conditional left consequence alternative) rest
          return ⟨e, rest, by simp only [Stream.length]; omega⟩
        | .binary op => do
          lookAhead rest
          let ⟨right, rest, _⟩ ← expression (binaryLevel op) rest
          let ⟨e, rest, _⟩ ← climb level (.binary op left right) rest
          return ⟨e, rest, by simp only [Stream.length]; omega⟩
        | .step op =>
          match left.place? with
          | none => .error (unexpected (.cons t rest) "; (operand is not assignable)")
          | some place => do
            lookAhead rest
            let ⟨e, rest, _⟩ ← climb level (.step place op) rest
            return ⟨e, rest, by simp only [Stream.length]; omega⟩
        | .dot => do
          lookAhead rest
          let ⟨name, rest, _⟩ ← expectName rest
          if isSymbol .openParen rest then
            let ⟨args, rest, _⟩ ← arguments rest
            let ⟨e, rest, _⟩ ← climb level (.method left name args) rest
            return ⟨e, rest, by simp only [Stream.length]; omega⟩
          else
            let ⟨subs, rest, _⟩ ← subscripts rest
            let ⟨e, rest, _⟩ ← climb level (.read (.field left name subs)) rest
            return ⟨e, rest, by simp only [Stream.length]; omega⟩
termination_by 6 * s.length
decreasing_by all_goals simp only [Stream.length] at *; omega

/-- An operand: what stands before, between and after operators. -/
def operand (s : Stream) : Result Expr s.length :=
  match s with
  | .finish p => .error (unexpected (.finish p) "expression")
  | .failure e => .error (unexpected (.failure e) "expression")
  | .cons t rest =>
    match Opening.ofToken? t.token with
    | none => .error (unexpected (.cons t rest) "expression")
    | some (.literal e) => do
      lookAhead rest
      match e with
      | .ok e => return ⟨e, rest, by simp only [Stream.length]; omega⟩
      | .error defect => throw (.scan ⟨defect, t.position⟩)
    | some (.variable scope name) => do
      lookAhead rest
      let ⟨subs, rest, _⟩ ← subscripts rest
      return ⟨.read (.variable scope name subs), rest, by simp only [Stream.length]; omega⟩
    | some (.name text) => do
      lookAhead rest
      if isSymbol .doubleColon rest then
        let ⟨_, rest, _⟩ ← expectSymbol .doubleColon rest
        let ⟨name, rest, _⟩ ← expectName rest
        let ⟨args, rest, _⟩ ← arguments rest
        return ⟨.call (some text) name args, rest, by simp only [Stream.length]; omega⟩
      else if isSymbol .openParen rest then
        let ⟨args, rest, _⟩ ← arguments rest
        return ⟨.call none text args, rest, by simp only [Stream.length]; omega⟩
      else return ⟨.bareword text, rest, by simp only [Stream.length]; omega⟩
    | some (.unary op) => do
      lookAhead rest
      let ⟨e, rest, _⟩ ← expression Level.unary rest
      return ⟨.unary op e, rest, by simp only [Stream.length]; omega⟩
    | some .parenthesis => do
      lookAhead rest
      let ⟨e, rest, _⟩ ← expression Level.lowest rest
      let ⟨_, rest, _⟩ ← expectSymbol .closeParen rest
      return ⟨e, rest, by simp only [Stream.length]; omega⟩
    | some .creation => do
      let ⟨d, rest, h⟩ ← creation (.cons t rest)
      return ⟨.create d, rest, h⟩
termination_by 6 * s.length + 1
decreasing_by all_goals simp only [Stream.length] at *; omega

/-- One or more expressions with commas between them. -/
def sequence (s : Stream) : Result (List Expr) s.length := do
  let ⟨e, rest, _⟩ ← expression Level.lowest s
  if isSymbol .comma rest then
    let ⟨_, rest, _⟩ ← expectSymbol .comma rest
    let ⟨es, rest, _⟩ ← sequence rest
    return ⟨e :: es, rest, by omega⟩
  else return ⟨[e], rest, by omega⟩
termination_by 6 * s.length + 3

/-- Expressions with commas between them, none if `close` follows at once. -/
def sequenceUntil (close : Symbol) (s : Stream) : Result (List Expr) (s.length + 1) := do
  if isSymbol close s then return ⟨[], s, by omega⟩
  else
    let ⟨es, rest, _⟩ ← sequence s
    return ⟨es, rest, by omega⟩
termination_by 6 * s.length + 4

/-- Arguments in parentheses. -/
def arguments (s : Stream) : Result (List Expr) s.length := do
  let ⟨_, rest, _⟩ ← expectSymbol .openParen s
  let ⟨es, rest, _⟩ ← sequenceUntil .closeParen rest
  let ⟨_, rest, _⟩ ← expectSymbol .closeParen rest
  return ⟨es, rest, by omega⟩
termination_by 6 * s.length

/-- Subscripts in brackets, or none. -/
def subscripts (s : Stream) : Result (List Expr) (s.length + 1) := do
  if isSymbol .openBracket s then
    let ⟨_, rest, _⟩ ← expectSymbol .openBracket s
    let ⟨es, rest, _⟩ ← sequenceUntil .closeBracket rest
    let ⟨_, rest, _⟩ ← expectSymbol .closeBracket rest
    return ⟨es, rest, by omega⟩
  else return ⟨[], s, by omega⟩
termination_by 6 * s.length

/-- The creation of an object. -/
def creation (s : Stream) : Result ObjectDecl s.length := do
  let ⟨_, rest, _⟩ ← expect (.keyword .new) s
  let ⟨c, rest, _⟩ ← classRef rest
  let ⟨_, rest, _⟩ ← expectSymbol .openParen rest
  let ⟨name, rest, _⟩ ← optional .closeParen rest
  let ⟨_, rest, _⟩ ← expectSymbol .closeParen rest
  if isSymbol .openBrace rest then
    let ⟨(fields, children), rest, _⟩ ← objectBlock rest
    return ⟨⟨c, name, fields, children⟩, rest, by omega⟩
  else return ⟨⟨c, name, [], []⟩, rest, by omega⟩
termination_by 6 * s.length

def classRef (s : Stream) : Result ClassRef s.length := do
  if isSymbol .openParen s then
    let ⟨_, rest, _⟩ ← expectSymbol .openParen s
    let ⟨e, rest, _⟩ ← expression Level.lowest rest
    let ⟨_, rest, _⟩ ← expectSymbol .closeParen rest
    return ⟨.computed e, rest, by omega⟩
  else
    let ⟨name, rest, _⟩ ← expectName s
    return ⟨.named name, rest, by omega⟩
termination_by 6 * s.length

/-- An expression, unless `close` follows at once. -/
def optional (close : Symbol) (s : Stream) : Result (Option Expr) (s.length + 1) := do
  if isSymbol close s then return ⟨none, s, by omega⟩
  else
    let ⟨e, rest, _⟩ ← expression Level.lowest s
    return ⟨some e, rest, by omega⟩
termination_by 6 * s.length + 3

/-- The fields and nested objects in braces after an object. -/
def objectBlock (s : Stream) : Result (List FieldInit × List ObjectDecl) s.length := do
  let ⟨opened, rest, _⟩ ← expectSymbol .openBrace s
  let ⟨content, rest, _⟩ ← objectItems opened rest
  return ⟨content, rest, by omega⟩
termination_by 6 * s.length

/-- The fields and nested objects up to the closing brace. -/
def objectItems (opened : Position) (s : Stream) :
    Result (List FieldInit × List ObjectDecl) s.length := do
  let ⟨_, s', h⟩ ← skipSemicolons s
  match s', h with
  | .failure e, _ => throw (unexpected (.failure e) "field assignment or new")
  | .finish p, _ => throw (.unclosed opened p)
  | .cons t rest, _ =>
    match t.token with
    | .symbol .closeBrace =>
      lookAhead rest
      return ⟨([], []), rest, by simp only [Stream.length] at *; omega⟩
    | .keyword .new =>
      let ⟨d, rest, _⟩ ← creation (.cons t rest)
      let ⟨_, rest, _⟩ ← expectSymbol .semicolon rest
      let ⟨(fields, children), rest, _⟩ ← objectItems opened rest
      return ⟨(fields, d :: children), rest, by simp only [Stream.length] at *; omega⟩
    | .name name =>
      lookAhead rest
      let ⟨subs, rest, _⟩ ← subscripts rest
      let ⟨_, rest, _⟩ ← expectSymbol .assign rest
      let ⟨value, rest, _⟩ ← expression Level.lowest rest
      let ⟨_, rest, _⟩ ← expectSymbol .semicolon rest
      let ⟨(fields, children), rest, _⟩ ← objectItems opened rest
      return ⟨(⟨name, subs, value⟩ :: fields, children), rest,
        by simp only [Stream.length] at *; omega⟩
    | _ => throw (unexpected (.cons t rest) "field assignment or new")
termination_by 6 * s.length + 5
decreasing_by all_goals simp only [Stream.length] at *; omega

end

end TorqueScript.Parse
