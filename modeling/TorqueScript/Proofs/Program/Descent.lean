import TorqueScript.Program.Parse.Statement

/-!
Reading programs by recursive descent through a window. The window shows the token at which the
reader stands and the one after it; at the end of the source it shows the end for ever. The readers
call one another and go round in loops as they like, with no bound on the tokens in their types.
Only a budget limits how deep the calls go, and there is no answer if it runs out.
-/

namespace TorqueScript

/-- What a window shows at a place: a token or the end of the source. -/
inductive Seen where
  | token (t : Located)
  | finish (position : Position)

namespace Seen

def position : Seen → Position
  | token t => t.position
  | finish p => p

def spelling : Seen → String
  | token t => t.token.spelling
  | finish _ => "end of input"

/-- What is seen is the token `t`. -/
def isToken (t : Token) : Seen → Bool
  | token u => u.token = t
  | finish _ => false

end Seen

/-- Scans the next token. A mistake is reported at once. -/
def Cursor.see (c : Cursor) : Except SourceError (Seen × Cursor) :=
  match c.step with
  | (.token t, c) => .ok (.token t, c)
  | (.finish p, c) => .ok (.finish p, c)
  | (.failure e, _) => .error (.scan e)

/-- The current token, the one after it, and where scanning goes on. -/
structure Window where
  current : Seen
  ahead : Seen
  cursor : Cursor

namespace Window

def ofText (source : String) : Except SourceError Window := do
  let (current, c) ← (Cursor.ofText source).see
  let (ahead, c) ← c.see
  return ⟨current, ahead, c⟩

/-- Moves on by one token. Nothing is scanned beyond the end. -/
def advance (w : Window) : Except SourceError Window :=
  match w.ahead with
  | .finish p => .ok ⟨.finish p, .finish p, w.cursor⟩
  | .token t => do
    let (next, c) ← w.cursor.see
    return ⟨.token t, next, c⟩

end Window

namespace Descent

open Parse (Level Continuation Opening binaryLevel)

/-- Something read through a window, or a mistake. There may be no answer. -/
abbrev Reading : Type → Type :=
  StateT Window (ExceptT SourceError Option)

/-- The loops of the parser, by what they collect. -/
inductive Loop : Type → Type
  | semicolons : Loop Unit
  | program : Loop (List Statement)
  | block (opened : Position) : Loop (List Statement)
  | switchItems (opened : Position) : Loop (List SwitchCase × Option (List Statement))
  | labels : Loop (List Expr)
  | caseBody (opened : Position) : Loop (List Statement)
  | parameters : Loop (List String)
  | functions (opened : Position) : Loop (List FunctionDecl)
  | objectItems (opened : Position) : Loop (List FieldInit × List ObjectDecl)
  | expressions : Loop (List Expr)
  | climb (level : Level) : Loop Expr

/-- What the readers call one another for. -/
inductive Goal : Type → Type 1
  | loop {σ : Type} (k : Loop σ) (state : σ) : Goal σ
  | expression (level : Level) : Goal Expr
  | operand : Goal Expr
  | expressionList (close : Symbol) : Goal (List Expr)
  | arguments : Goal (List Expr)
  | subscripts : Goal (List Expr)
  | creation : Goal ObjectDecl
  | objectBlock : Goal (List FieldInit × List ObjectDecl)
  | statement : Goal Statement
  | function : Goal FunctionDecl
  | block : Goal (List Statement)
  | body : Goal (List Statement)

def look : Reading Seen := do
  return (← get).current

def lookAhead : Reading Seen := do
  return (← get).ahead

def advance : Reading Unit := fun w =>
  some (w.advance.map ((), ·))

/-- Reports that something else is expected than the current token. -/
def mistake {α : Type} (expected : String) : Reading α := do
  let seen ← look
  throw (.unexpected expected seen.spelling seen.position)

def isNext (t : Token) : Reading Bool := do
  return (← look).isToken t

def expect (t : Token) : Reading Position := do
  let seen ← look
  if seen.isToken t then
    advance
    return seen.position
  else mistake t.spelling

def expectName : Reading String := do
  match ← look with
  | .token ⟨.name text, _⟩ =>
    advance
    return text
  | _ => mistake "identifier"

section

-- What the readers are given to call one another.
variable (self : {α : Type} → Goal α → Reading α)

def optionalExpression (close : Symbol) : Reading (Option Expr) := do
  if ← isNext (.symbol close) then return none
  else
    let e ← self (.expression Level.lowest)
    return some e

/-- Goes on with an operand, once. -/
def continued (left : Expr) : Continuation → Reading Expr
  | .assign op =>
    match left.place? with
    | none => mistake "; (left side is not assignable)"
    | some place => do
      advance
      let value ← self (.expression Level.lowest)
      return .assign place op value
  | .conditional => do
    advance
    let consequence ← self (.expression Level.lowest)
    let _ ← expect (.symbol .colon)
    let alternative ← self (.expression Level.assignment)
    return .conditional left consequence alternative
  | .binary op => do
    advance
    let right ← self (.expression (binaryLevel op))
    return .binary op left right
  | .step op =>
    match left.place? with
    | none => mistake "; (operand is not assignable)"
    | some place => do
      advance
      return .step place op
  | .dot => do
    advance
    let name ← expectName
    if ← isNext (.symbol .openParen) then
      let args ← self .arguments
      return .method left name args
    else
      let subs ← self .subscripts
      return .read (.field left name subs)

def operand : Reading Expr := do
  match ← look with
  | .finish _ => mistake "expression"
  | .token t =>
    match Opening.ofToken? t.token with
    | none => mistake "expression"
    | some (.literal e) =>
      advance
      match e with
      | .ok e => return e
      | .error defect => throw (.scan ⟨defect, t.position⟩)
    | some (.variable scope name) =>
      advance
      let subs ← self .subscripts
      return .read (.variable scope name subs)
    | some (.name text) =>
      let ahead ← lookAhead
      if ahead.isToken (.symbol .doubleColon) then
        advance
        advance
        let name ← expectName
        let args ← self .arguments
        return .call (some text) name args
      else if ahead.isToken (.symbol .openParen) then
        advance
        let args ← self .arguments
        return .call none text args
      else
        advance
        return .bareword text
    | some (.unary op) =>
      advance
      let e ← self (.expression Level.unary)
      return .unary op e
    | some .parenthesis =>
      advance
      let e ← self (.expression Level.lowest)
      let _ ← expect (.symbol .closeParen)
      return e
    | some .creation =>
      let d ← self .creation
      return .create d

def expressionList (close : Symbol) : Reading (List Expr) := do
  if ← isNext (.symbol close) then return []
  else
    let e ← self (.expression Level.lowest)
    self (.loop .expressions [e])

def arguments : Reading (List Expr) := do
  let _ ← expect (.symbol .openParen)
  let es ← self (.expressionList .closeParen)
  let _ ← expect (.symbol .closeParen)
  return es

def subscripts : Reading (List Expr) := do
  if ← isNext (.symbol .openBracket) then
    advance
    let es ← self (.expressionList .closeBracket)
    let _ ← expect (.symbol .closeBracket)
    return es
  else return []

def classRef : Reading ClassRef := do
  if ← isNext (.symbol .openParen) then
    advance
    let e ← self (.expression Level.lowest)
    let _ ← expect (.symbol .closeParen)
    return .computed e
  else
    let name ← expectName
    return .named name

def creation : Reading ObjectDecl := do
  let _ ← expect (.keyword .new)
  let c ← classRef self
  let _ ← expect (.symbol .openParen)
  let name ← optionalExpression self .closeParen
  let _ ← expect (.symbol .closeParen)
  if ← isNext (.symbol .openBrace) then
    let (fields, children) ← self .objectBlock
    return ⟨c, name, fields, children⟩
  else return ⟨c, name, [], []⟩

def objectBlock : Reading (List FieldInit × List ObjectDecl) := do
  let opened ← expect (.symbol .openBrace)
  self (.loop (.objectItems opened) ([], []))

def condition : Reading Expr := do
  let _ ← expect (.symbol .openParen)
  let e ← self (.expression Level.lowest)
  let _ ← expect (.symbol .closeParen)
  return e

def package : Reading Statement := do
  let _ ← expect (.keyword .package)
  let name ← expectName
  let opened ← expect (.symbol .openBrace)
  let functions ← self (.loop (.functions opened) [])
  return .package name functions

def parentName : Reading (Option String) := do
  if ← isNext (.symbol .colon) then
    advance
    let name ← expectName
    return some name
  else return none

def datablockFields : Reading (List FieldInit) := do
  let (fields, children) ← self .objectBlock
  if children.isEmpty then return fields
  else
    let seen ← look
    throw (.unexpected "field assignment" (Keyword.spelling .new) seen.position)

def datablock : Reading Statement := do
  let _ ← expect (.keyword .datablock)
  let className ← expectName
  let _ ← expect (.symbol .openParen)
  let name ← expectName
  let _ ← expect (.symbol .closeParen)
  let parent ← parentName
  let fields ← datablockFields self
  let _ ← expect (.symbol .semicolon)
  return .datablock ⟨className, name, parent, fields⟩

def branch : Reading Statement := do
  let _ ← expect (.keyword .if)
  let c ← condition self
  let consequence ← self .body
  if ← isNext (.keyword .else) then
    advance
    let alternative ← self .body
    return .branch c consequence (some alternative)
  else return .branch c consequence none

def whileLoop : Reading Statement := do
  let _ ← expect (.keyword .while)
  let c ← condition self
  let body ← self .body
  return .whileLoop c body

def forLoop : Reading Statement := do
  let _ ← expect (.keyword .for)
  let _ ← expect (.symbol .openParen)
  let init ← optionalExpression self .semicolon
  let _ ← expect (.symbol .semicolon)
  let c ← optionalExpression self .semicolon
  let _ ← expect (.symbol .semicolon)
  let update ← optionalExpression self .closeParen
  let _ ← expect (.symbol .closeParen)
  let body ← self .body
  return .forLoop init c update body

/-- A switch after its keyword. -/
def switch (kind : SwitchKind) : Reading Statement := do
  let subject ← condition self
  let opened ← expect (.symbol .openBrace)
  let (cases, default) ← self (.loop (.switchItems opened) ([], none))
  return .switch kind subject cases default

/-- A statement that is one keyword. -/
def bareStatement (statement : Statement) : Reading Statement := do
  advance
  let _ ← expect (.symbol .semicolon)
  return statement

def returnStatement : Reading Statement := do
  advance
  let value ← optionalExpression self .semicolon
  let _ ← expect (.symbol .semicolon)
  return .return value

def expressionStatement : Reading Statement := do
  let e ← self (.expression Level.lowest)
  let _ ← expect (.symbol .semicolon)
  return .expr e

def statement : Reading Statement := do
  match ← look with
  | .token ⟨.keyword .function, _⟩ =>
    let f ← self .function
    return .function f
  | .token ⟨.keyword .package, _⟩ => package self
  | .token ⟨.keyword .datablock, _⟩ => datablock self
  | .token ⟨.keyword .if, _⟩ => branch self
  | .token ⟨.keyword .while, _⟩ => whileLoop self
  | .token ⟨.keyword .for, _⟩ => forLoop self
  | .token ⟨.keyword .switch, _⟩ =>
    advance
    switch self .byNumber
  | .token ⟨.keyword .switchText, _⟩ =>
    advance
    switch self .byText
  | .token ⟨.keyword .break, _⟩ => bareStatement .break
  | .token ⟨.keyword .continue, _⟩ => bareStatement .continue
  | .token ⟨.keyword .return, _⟩ => returnStatement self
  | _ => expressionStatement self

def qualifiedName : Reading (Option String × String) := do
  let name ← expectName
  if ← isNext (.symbol .doubleColon) then
    advance
    let last ← expectName
    return (some name, last)
  else return (none, name)

def function : Reading FunctionDecl := do
  let _ ← expect (.keyword .function)
  let (qualifier, name) ← qualifiedName
  let _ ← expect (.symbol .openParen)
  let names ← self (.loop .parameters [])
  let _ ← expect (.symbol .closeParen)
  let body ← self .block
  return ⟨qualifier, name, names, body⟩

def block : Reading (List Statement) := do
  let opened ← expect (.symbol .openBrace)
  self (.loop (.block opened) [])

def body : Reading (List Statement) := do
  if ← isNext (.symbol .openBrace) then self .block
  else
    let only ← self .statement
    return [only]

/-- What a turn of a loop comes to: whether to go round again, and what is collected. -/
def turn {σ : Type} : Loop σ → σ → Reading (Bool × σ)
  | .semicolons, _ => do
    if ← isNext (.symbol .semicolon) then
      advance
      return (true, ())
    else return (false, ())
  | .program, done => do
    self (.loop .semicolons ())
    match ← look with
    | .finish _ => return (false, done)
    | .token _ =>
      let s ← self .statement
      return (true, done ++ [s])
  | .block opened, done => do
    self (.loop .semicolons ())
    match ← look with
    | .finish p => throw (.unclosed opened p)
    | .token t =>
      if t.token = .symbol .closeBrace then
        advance
        return (false, done)
      else
        let s ← self .statement
        return (true, done ++ [s])
  | .switchItems opened, (cases, default) => do
    self (.loop .semicolons ())
    match ← look with
    | .finish p => throw (.unclosed opened p)
    | .token t =>
      match t.token with
      | .keyword .case =>
        advance
        let labels ← self (.loop .labels [])
        let _ ← expect (.symbol .colon)
        let body ← self (.loop (.caseBody opened) [])
        return (true, (cases ++ [⟨labels, body⟩], default))
      | .keyword .default =>
        advance
        let _ ← expect (.symbol .colon)
        let body ← self (.loop (.caseBody opened) [])
        return (true, (cases, some body))
      | .symbol .closeBrace =>
        advance
        return (false, (cases, default))
      | _ => mistake "case, default or \x7d"
  | .labels, done => do
    let seen ← look
    if endsLabels seen then throw (.emptyLabel seen.position)
    else
      let e ← self (.expression Level.lowest)
      if ← isNext (.keyword .or) then
        advance
        return (true, done ++ [e])
      else return (false, done ++ [e])
  | .caseBody opened, done => do
    self (.loop .semicolons ())
    match ← look with
    | .finish p => throw (.unclosed opened p)
    | .token t =>
      if t.token ∈ [.keyword .case, .keyword .default, .symbol .closeBrace] then
        return (false, done)
      else
        let s ← self .statement
        return (true, done ++ [s])
  | .parameters, done => do
    if ← isNext (.symbol .closeParen) then return (false, done)
    else
      match ← look with
      | .token ⟨.localVariable name, _⟩ =>
        advance
        if ← isNext (.symbol .closeParen) then return (true, done ++ [name])
        else
          let _ ← expect (.symbol .comma)
          return (true, done ++ [name])
      | _ => mistake "parameter"
  | .functions opened, done => do
    self (.loop .semicolons ())
    match ← look with
    | .finish p => throw (.unclosed opened p)
    | .token t =>
      match t.token with
      | .keyword .function =>
        let f ← self .function
        return (true, done ++ [f])
      | .symbol .closeBrace =>
        advance
        return (false, done)
      | _ => mistake "function"
  | .objectItems opened, (fields, children) => do
    self (.loop .semicolons ())
    match ← look with
    | .finish p => throw (.unclosed opened p)
    | .token t =>
      match t.token with
      | .symbol .closeBrace =>
        advance
        return (false, (fields, children))
      | .keyword .new =>
        let d ← self .creation
        let _ ← expect (.symbol .semicolon)
        return (true, (fields, children ++ [d]))
      | .name name =>
        advance
        let subs ← self .subscripts
        let _ ← expect (.symbol .assign)
        let value ← self (.expression Level.lowest)
        let _ ← expect (.symbol .semicolon)
        return (true, (fields ++ [⟨name, subs, value⟩], children))
      | _ => mistake "field assignment or new"
  | .expressions, done => do
    if ← isNext (.symbol .comma) then
      advance
      let e ← self (.expression Level.lowest)
      return (true, done ++ [e])
    else return (false, done)
  | .climb level, left => do
    match ← look with
    | .finish _ => return (false, left)
    | .token t =>
      match Continuation.ofToken? t.token with
      | none => return (false, left)
      | some c =>
        if c.level ≤ level then return (false, left)
        else
          let e ← continued self left c
          return (true, e)
where
  /-- No label can begin with this. -/
  endsLabels : Seen → Bool
    | .token t => t.token ∈ [.symbol .colon, .keyword .or, .symbol .closeBrace, .symbol .semicolon]
    | .finish _ => true

/-- Goes round a loop again, or leaves it. -/
def goOn {σ : Type} (k : Loop σ) : Bool × σ → Reading σ
  | (true, state) => self (.loop k state)
  | (false, state) => return state

/-- One call, with what it calls. -/
def step {α : Type} : Goal α → Reading α
  | .loop k state => turn self k state >>= goOn self k
  | .expression level => do
    let left ← self .operand
    self (.loop (.climb level) left)
  | .operand => operand self
  | .expressionList close => expressionList self close
  | .arguments => arguments self
  | .subscripts => subscripts self
  | .creation => creation self
  | .objectBlock => objectBlock self
  | .statement => statement self
  | .function => function self
  | .block => block self
  | .body => body self

end

/-- Calls that go no deeper than the budget. -/
def read : Nat → {α : Type} → Goal α → Reading α
  | 0, _, _ => fun _ => none
  | n + 1, _, g => step (read n) g

/-- Reads a program from its source text with a budget. -/
def program (n : Nat) (source : String) : Option (Except SourceError Program) :=
  ExceptT.run do
    let w ← ExceptT.mk (some (Window.ofText source))
    let (statements, _) ← (read n (.loop .program [])).run w
    return statements

end Descent

end TorqueScript
