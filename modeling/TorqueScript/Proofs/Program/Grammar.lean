import TorqueScript.Proofs.Program.Readers

/-!
The grammar of expressions, as a relation between a phrase, the tokens that begin
with it and the tokens left after it. An expression is spelled at a rank: its own
operators, outside parentheses, are at least as tight as that rank. Nothing here
refers to the order in which a parser decides.
-/

namespace TorqueScript

open Parse

/-- The binary operators from the loosest to the tightest. -/
def precedence : List (List BinaryOp) := [
  [.logicalOr],
  [.logicalAnd],
  [.bitOr],
  [.bitXor],
  [.bitAnd],
  [.equal, .notEqual, .textEqual, .textNotEqual],
  [.less, .greater, .lessEqual, .greaterEqual],
  [.concat, .space, .tab, .newline],
  [.shiftLeft, .shiftRight],
  [.arith .add, .arith .sub],
  [.arith .mul, .arith .div, .arith .rem]]

/-- How tight a binary operator is. All are tighter than the conditional. -/
def BinaryOp.rank (op : BinaryOp) : Level :=
  Level.conditional + 1 + precedence.findIdx (op ∈ ·)

def BinaryOp.token : BinaryOp → Token
  | .logicalOr => .symbol .logicalOr
  | .logicalAnd => .symbol .logicalAnd
  | .bitOr => .symbol .bar
  | .bitXor => .symbol .caret
  | .bitAnd => .symbol .ampersand
  | .equal => .symbol .equal
  | .notEqual => .symbol .notEqual
  | .textEqual => .symbol .textEqual
  | .textNotEqual => .symbol .textNotEqual
  | .less => .symbol .less
  | .greater => .symbol .greater
  | .lessEqual => .symbol .lessEqual
  | .greaterEqual => .symbol .greaterEqual
  | .concat => .symbol .concat
  | .space => .keyword .spc
  | .tab => .keyword .tab
  | .newline => .keyword .nl
  | .shiftLeft => .symbol .shiftLeft
  | .shiftRight => .symbol .shiftRight
  | .arith .add => .symbol .plus
  | .arith .sub => .symbol .minus
  | .arith .mul => .symbol .star
  | .arith .div => .symbol .slash
  | .arith .rem => .symbol .percent

/-- The token of an assignment, plain or combined with an operator. -/
def assignToken : Option Arith → Token
  | none => .symbol .assign
  | some .add => .symbol .addAssign
  | some .sub => .symbol .subAssign
  | some .mul => .symbol .mulAssign
  | some .div => .symbol .divAssign
  | some .rem => .symbol .remAssign

def UnaryOp.token : UnaryOp → Token
  | .not => .symbol .bang
  | .negate => .symbol .minus
  | .complement => .symbol .tilde

def StepOp.token : StepOp → Token
  | .increment => .symbol .increment
  | .decrement => .symbol .decrement

def Scope.token : Scope → String → Token
  | .local, name => .localVariable name
  | .global, name => .globalVariable name

/-- What a run of tokens may spell. -/
inductive Phrase where
  | expression (rank : Level) (e : Expr)
  /-- One or more expressions with commas between them. -/
  | sequence (es : List Expr)
  /-- Any number of expressions with commas between them. -/
  | elements (es : List Expr)
  | arguments (es : List Expr)
  /-- Subscripts in brackets, or nothing. -/
  | subscripts (es : List Expr)
  | classRef (c : ClassRef)
  | optional (e : Option Expr)
  | creation (d : ObjectDecl)
  /-- The content of a block of fields and objects, with the brace that closes it. -/
  | items (fields : List FieldInit) (children : List ObjectDecl)

/-- Any number of semicolons. -/
inductive Semicolons : Stream → Stream → Prop where
  | none {s : Stream} : Semicolons s s
  | more {p : Position} {s rest : Stream} :
    Semicolons s rest → Semicolons (.cons ⟨.symbol .semicolon, p⟩ s) rest

/-- The tokens begin with the phrase, and what follows it is left. -/
inductive Spells : Phrase → Stream → Stream → Prop where
  | number {x : Float} {m : Level} {p : Position} {rest : Stream} {text : String} :
    Number.ofLiteral? text.toList = some x →
    Spells (.expression m (.number x)) (.cons ⟨.numeral text, p⟩ rest) rest
  | true {m : Level} {p : Position} {rest : Stream} :
    Spells (.expression m (.number 1.0)) (.cons ⟨.keyword .true, p⟩ rest) rest
  | false {m : Level} {p : Position} {rest : Stream} :
    Spells (.expression m (.number 0.0)) (.cons ⟨.keyword .false, p⟩ rest) rest
  | text {m : Level} {p : Position} {rest : Stream} {text : String} :
    Spells (.expression m (.text text)) (.cons ⟨.text text, p⟩ rest) rest
  | bareword {m : Level} {p : Position} {rest : Stream} {name : String} :
    Spells (.expression m (.bareword name)) (.cons ⟨.name name, p⟩ rest) rest
  | variable {scope : Scope} {subs : List Expr} {m : Level} {p : Position} {s rest : Stream}
      {name : String} :
    Spells (.subscripts subs) s rest →
    Spells (.expression m (.read (.variable scope name subs))) (.cons ⟨scope.token name, p⟩ s) rest
  | call {args : List Expr} {m : Level} {p : Position} {s rest : Stream} {name : String} :
    Spells (.arguments args) s rest →
    Spells (.expression m (.call none name args)) (.cons ⟨.name name, p⟩ s) rest
  | qualifiedCall {qualifier : String} {args : List Expr} {m : Level} {p q r : Position}
      {s rest : Stream} {name : String} :
    Spells (.arguments args) s rest →
    Spells (.expression m (.call (some qualifier) name args))
      (.cons ⟨.name qualifier, p⟩ (.cons ⟨.symbol .doubleColon, q⟩ (.cons ⟨.name name, r⟩ s))) rest
  | create {d : ObjectDecl} {m : Level} {s rest : Stream} :
    Spells (.creation d) s rest →
    Spells (.expression m (.create d)) s rest
  | parenthesized {e : Expr} {m : Level} {p q : Position} {s rest : Stream} :
    Spells (.expression Level.assignment e) s (.cons ⟨.symbol .closeParen, q⟩ rest) →
    Spells (.expression m e) (.cons ⟨.symbol .openParen, p⟩ s) rest
  | unary {op : UnaryOp} {e : Expr} {m : Level} {p : Position} {s rest : Stream} :
    m ≤ Level.unary → Spells (.expression Level.unary e) s rest →
    Spells (.expression m (.unary op e)) (.cons ⟨op.token, p⟩ s) rest
  | binary {op : BinaryOp} {left right : Expr} {m : Level} {p : Position} {s s' rest : Stream} :
    m ≤ op.rank →
    Spells (.expression op.rank left) s (.cons ⟨op.token, p⟩ s') →
    Spells (.expression (op.rank + 1) right) s' rest →
    Spells (.expression m (.binary op left right)) s rest
  | conditional {condition consequence alternative : Expr} {m : Level} {p q : Position}
      {s s' s'' rest : Stream} :
    m ≤ Level.conditional →
    Spells (.expression (Level.conditional + 1) condition) s (.cons ⟨.symbol .question, p⟩ s') →
    Spells (.expression Level.assignment consequence) s' (.cons ⟨.symbol .colon, q⟩ s'') →
    Spells (.expression Level.conditional alternative) s'' rest →
    Spells (.expression m (.conditional condition consequence alternative)) s rest
  | assign {place : Place} {op : Option Arith} {value : Expr} {m : Level} {p : Position}
      {s s' rest : Stream} :
    m ≤ Level.assignment →
    Spells (.expression Level.access (.read place)) s (.cons ⟨assignToken op, p⟩ s') →
    Spells (.expression Level.assignment value) s' rest →
    Spells (.expression m (.assign place op value)) s rest
  | step {place : Place} {op : StepOp} {m : Level} {p : Position} {s rest : Stream} :
    m ≤ Level.access →
    Spells (.expression Level.access (.read place)) s (.cons ⟨op.token, p⟩ rest) →
    Spells (.expression m (.step place op)) s rest
  | field {object : Expr} {subs : List Expr} {m : Level} {p q : Position} {s s' rest : Stream}
      {name : String} :
    m ≤ Level.access →
    Spells (.expression Level.access object) s
      (.cons ⟨.symbol .dot, p⟩ (.cons ⟨.name name, q⟩ s')) →
    Spells (.subscripts subs) s' rest →
    Spells (.expression m (.read (.field object name subs))) s rest
  | method {object : Expr} {args : List Expr} {m : Level} {p q : Position} {s s' rest : Stream}
      {name : String} :
    m ≤ Level.access →
    Spells (.expression Level.access object) s
      (.cons ⟨.symbol .dot, p⟩ (.cons ⟨.name name, q⟩ s')) →
    Spells (.arguments args) s' rest →
    Spells (.expression m (.method object name args)) s rest
  | last {e : Expr} {s rest : Stream} :
    Spells (.expression Level.assignment e) s rest →
    Spells (.sequence [e]) s rest
  | next {e : Expr} {es : List Expr} {p : Position} {s s' rest : Stream} :
    Spells (.expression Level.assignment e) s (.cons ⟨.symbol .comma, p⟩ s') →
    Spells (.sequence es) s' rest → Spells (.sequence (e :: es)) s rest
  | noElements {s : Stream} :
    Spells (.elements []) s s
  | elements {es : List Expr} {s rest : Stream} :
    Spells (.sequence es) s rest → Spells (.elements es) s rest
  | arguments {es : List Expr} {p q : Position} {s rest : Stream} :
    Spells (.elements es) s (.cons ⟨.symbol .closeParen, q⟩ rest) →
    Spells (.arguments es) (.cons ⟨.symbol .openParen, p⟩ s) rest
  | noSubscripts {s : Stream} :
    Spells (.subscripts []) s s
  | subscripts {es : List Expr} {p q : Position} {s rest : Stream} :
    Spells (.elements es) s (.cons ⟨.symbol .closeBracket, q⟩ rest) →
    Spells (.subscripts es) (.cons ⟨.symbol .openBracket, p⟩ s) rest
  | named {p : Position} {rest : Stream} {name : String} :
    Spells (.classRef (.named name)) (.cons ⟨.name name, p⟩ rest) rest
  | computed {e : Expr} {p q : Position} {s rest : Stream} :
    Spells (.expression Level.assignment e) s (.cons ⟨.symbol .closeParen, q⟩ rest) →
    Spells (.classRef (.computed e)) (.cons ⟨.symbol .openParen, p⟩ s) rest
  | absent {s : Stream} :
    Spells (.optional none) s s
  | present {e : Expr} {s rest : Stream} :
    Spells (.expression Level.assignment e) s rest →
    Spells (.optional (some e)) s rest
  | bare {c : ClassRef} {id : Option Expr} {p q r : Position} {s s' rest : Stream} :
    Spells (.classRef c) s (.cons ⟨.symbol .openParen, q⟩ s') →
    Spells (.optional id) s' (.cons ⟨.symbol .closeParen, r⟩ rest) →
    Spells (.creation ⟨c, id, [], []⟩) (.cons ⟨.keyword .new, p⟩ s) rest
  | filled {c : ClassRef} {id : Option Expr} {fields : List FieldInit}
      {children : List ObjectDecl} {o : Position} {p q r : Position} {s s' s'' rest : Stream} :
    Spells (.classRef c) s (.cons ⟨.symbol .openParen, q⟩ s') →
    Spells (.optional id) s'
      (.cons ⟨.symbol .closeParen, r⟩ (.cons ⟨.symbol .openBrace, o⟩ s'')) →
    Spells (.items fields children) s'' rest →
    Spells (.creation ⟨c, id, fields, children⟩) (.cons ⟨.keyword .new, p⟩ s) rest
  | close {p : Position} {s rest : Stream} :
    Semicolons s (.cons ⟨.symbol .closeBrace, p⟩ rest) → Spells (.items [] []) s rest
  | object {d : ObjectDecl} {fields : List FieldInit} {children : List ObjectDecl} {p : Position}
      {s s' s'' rest : Stream} :
    Semicolons s s' → Spells (.creation d) s' (.cons ⟨.symbol .semicolon, p⟩ s'') →
    Spells (.items fields children) s'' rest → Spells (.items fields (d :: children)) s rest
  | fieldValue {subs : List Expr} {value : Expr} {fields : List FieldInit}
      {children : List ObjectDecl} {s₁ s₂ s₃ : Stream} {p q r : Position} {s rest : Stream}
      {name : String} :
    Semicolons s (.cons ⟨.name name, p⟩ s₁) →
    Spells (.subscripts subs) s₁ (.cons ⟨.symbol .assign, q⟩ s₂) →
    Spells (.expression Level.assignment value) s₂ (.cons ⟨.symbol .semicolon, r⟩ s₃) →
    Spells (.items fields children) s₃ rest →
    Spells (.items (⟨name, subs, value⟩ :: fields) children) s rest

/-- The stream is made of these tokens, wherever they stand, and then of `rest`. -/
def Begins : List Token → Stream → Stream → Prop
  | [], s, rest => s = rest
  | t :: ts, s, rest => ∃ p s', s = .cons ⟨t, p⟩ s' ∧ Begins ts s' rest

theorem begins_append {ts us : List Token} {s rest : Stream} :
    Begins (ts ++ us) s rest ↔ ∃ mid, Begins ts s mid ∧ Begins us mid rest := by
  induction ts generalizing s with
  | nil => simp [Begins]
  | cons t ts ih =>
    simp only [List.cons_append, Begins, ih]
    grind

theorem BinaryOp.rank_eq (op : BinaryOp) : op.rank = binaryLevel op := by
  cases op with
  | arith op => cases op <;> decide
  | _ => decide

theorem BinaryOp.conditional_lt_rank (op : BinaryOp) : Level.conditional < op.rank :=
  Nat.lt_add_right _ (Nat.lt_succ_self _)

theorem BinaryOp.rank_lt_unary (op : BinaryOp) : op.rank < Level.unary := by
  cases op with
  | arith op => cases op <;> decide
  | _ => decide

theorem BinaryOp.ofToken?_token (op : BinaryOp) :
    Continuation.ofToken? op.token = some (.binary op) := by
  cases op with
  | arith op => cases op <;> rfl
  | _ => rfl

theorem ofToken?_assignToken (op : Option Arith) :
    Continuation.ofToken? (assignToken op) = some (.assign op) := by
  cases op with
  | none => rfl
  | some op => cases op <;> rfl

theorem UnaryOp.ofToken?_token (op : UnaryOp) : Opening.ofToken? op.token = some (.unary op) := by
  cases op <;> rfl

theorem StepOp.ofToken?_token (op : StepOp) :
    Continuation.ofToken? op.token = some (.step op) := by
  cases op <;> rfl

theorem Scope.ofToken?_token (scope : Scope) (name : String) :
    Opening.ofToken? (scope.token name) = some (.variable scope name) := by
  cases scope <;> rfl

end TorqueScript
