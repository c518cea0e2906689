import TorqueScript.Program.Parse.Expression

/-!
Reading statements and whole programs.
-/

namespace TorqueScript.Parse

/-- A condition in parentheses. -/
def condition (s : Stream) : Result Expr s.length :=
  (expectSymbol .openParen s).andThen fun _ s =>
    (expression Level.lowest s).andThen fun e s => (expectSymbol .closeParen s).map fun _ => e

/-- A token with which no label can begin. -/
def endsLabels : Stream → Bool
  | .cons t _ =>
    t.token ∈ [.symbol .colon, .keyword .or, .symbol .closeBrace, .symbol .semicolon]
  | .finish _ => true
  | .failure _ => false

/-- The labels of a case. -/
def labels (s : Stream) : Result (List Expr) s.length := do
  if endsLabels s then throw (.emptyLabel (next s).2)
  let ⟨e, rest, _⟩ ← expression Level.lowest s
  if isNext (.keyword .or) rest then
    let ⟨_, rest, _⟩ ← expect (.keyword .or) rest
    let ⟨es, rest, _⟩ ← labels rest
    return ⟨e :: es, rest, by omega⟩
  else return ⟨[e], rest, by omega⟩
termination_by s.length

/-- The parameters of a function, up to the closing parenthesis. A comma may follow the last. -/
def parameters (s : Stream) : Result (List String) (s.length + 1) :=
  if isSymbol .closeParen s then stay [] s
  else
    match s with
    | .cons ⟨.localVariable name, _⟩ rest => do
      lookAhead rest
      if isSymbol .closeParen rest then (stay [name] rest).weaken
      else
        let ⟨_, after, h⟩ ← expectSymbol .comma rest
        ((parameters after).map (name :: ·)).within (Nat.le_succ_of_le (Nat.le_succ_of_le h))
    | s => .error (unexpected s "parameter")
termination_by s.length
decreasing_by exact Nat.lt_succ_of_lt h

/-- A name, or a qualifier, `::` and a name. -/
def qualifiedName (s : Stream) : Result (Option String × String) s.length :=
  (expectName s).andThenMaybe fun name s =>
    if isSymbol .doubleColon s then
      ((expectSymbol .doubleColon s).andThen fun _ s =>
        (expectName s).map fun last => (some name, last)).weaken
    else stay (none, name) s

/-- The datablock that a datablock inherits from. -/
def parentName (s : Stream) : Result (Option String) (s.length + 1) :=
  if isSymbol .colon s then
    ((expectSymbol .colon s).andThen fun _ s => (expectName s).map some).weaken
  else stay none s

/-- The fields of a datablock. Objects cannot be nested in it. -/
def datablockFields (s : Stream) : Result (List FieldInit) s.length :=
  (objectBlock s).andThenMaybe fun (fields, children) s =>
    if children.isEmpty then stay fields s
    else .error (.unexpected "field assignment" (Keyword.spelling .new) (next s).2)

def datablock (s : Stream) : Result Statement s.length :=
  (expect (.keyword .datablock) s).andThen fun _ s =>
    (expectName s).andThen fun className s =>
      (expectSymbol .openParen s).andThen fun _ s =>
        (expectName s).andThen fun name s =>
          (expectSymbol .closeParen s).andThenMaybe fun _ s =>
            (parentName s).andThen fun parent s =>
              (datablockFields s).andThen fun fields s =>
                (expectSymbol .semicolon s).map fun _ =>
                  .datablock ⟨className, name, parent, fields⟩

/-- A statement that is one keyword. -/
def bareStatement (k : Keyword) (statement : Statement) (s : Stream) :
    Result Statement s.length :=
  (expect (.keyword k) s).andThen fun _ s => (expectSymbol .semicolon s).map fun _ => statement

def returnStatement (s : Stream) : Result Statement s.length :=
  (expect (.keyword .return) s).andThenMaybe fun _ s =>
    (optional .semicolon s).andThen fun value s =>
      (expectSymbol .semicolon s).map fun _ => .return value

def expressionStatement (s : Stream) : Result Statement s.length :=
  (expression Level.lowest s).andThen fun e s => (expectSymbol .semicolon s).map fun _ => .expr e

/-- The keyword that the next token is. -/
def nextKeyword : Stream → Option Keyword
  | .cons ⟨.keyword k, _⟩ _ => some k
  | _ => none

mutual

def statement (s : Stream) : Result Statement s.length :=
  match nextKeyword s with
  | some .function => do
    let ⟨f, rest, _⟩ ← function s
    return ⟨.function f, rest, by omega⟩
  | some .package => do
    let ⟨_, rest, _⟩ ← expect (.keyword .package) s
    let ⟨name, rest, _⟩ ← expectName rest
    let ⟨opened, rest, _⟩ ← expectSymbol .openBrace rest
    let ⟨functions, rest, _⟩ ← functionsUntilBrace opened rest
    return ⟨.package name functions, rest, by omega⟩
  | some .datablock => datablock s
  | some .if => do
    let ⟨_, rest, _⟩ ← expect (.keyword .if) s
    let ⟨c, rest, _⟩ ← condition rest
    let ⟨consequence, rest, _⟩ ← body rest
    if isNext (.keyword .else) rest then
      let ⟨_, rest, _⟩ ← expect (.keyword .else) rest
      let ⟨alternative, rest, _⟩ ← body rest
      return ⟨.branch c consequence (some alternative), rest, by omega⟩
    else return ⟨.branch c consequence none, rest, by omega⟩
  | some .while => do
    let ⟨_, rest, _⟩ ← expect (.keyword .while) s
    let ⟨c, rest, _⟩ ← condition rest
    let ⟨b, rest, _⟩ ← body rest
    return ⟨.whileLoop c b, rest, by omega⟩
  | some .for => do
    let ⟨_, rest, _⟩ ← expect (.keyword .for) s
    let ⟨_, rest, _⟩ ← expectSymbol .openParen rest
    let ⟨init, rest, _⟩ ← optional .semicolon rest
    let ⟨_, rest, _⟩ ← expectSymbol .semicolon rest
    let ⟨c, rest, _⟩ ← optional .semicolon rest
    let ⟨_, rest, _⟩ ← expectSymbol .semicolon rest
    let ⟨update, rest, _⟩ ← optional .closeParen rest
    let ⟨_, rest, _⟩ ← expectSymbol .closeParen rest
    let ⟨b, rest, _⟩ ← body rest
    return ⟨.forLoop init c update b, rest, by omega⟩
  | some .switch => do
    let ⟨_, rest, _⟩ ← expect (.keyword .switch) s
    let ⟨statement, rest, _⟩ ← switch .byNumber rest
    return ⟨statement, rest, by omega⟩
  | some .switchText => do
    let ⟨_, rest, _⟩ ← expect (.keyword .switchText) s
    let ⟨statement, rest, _⟩ ← switch .byText rest
    return ⟨statement, rest, by omega⟩
  | some .break => bareStatement .break .break s
  | some .continue => bareStatement .continue .continue s
  | some .return => returnStatement s
  | _ => expressionStatement s
termination_by 4 * s.length + 1

def function (s : Stream) : Result FunctionDecl s.length := do
  let ⟨_, rest, _⟩ ← expect (.keyword .function) s
  let ⟨(qualifier, name), rest, _⟩ ← qualifiedName rest
  let ⟨_, rest, _⟩ ← expectSymbol .openParen rest
  let ⟨names, rest, _⟩ ← parameters rest
  let ⟨_, rest, _⟩ ← expectSymbol .closeParen rest
  let ⟨b, rest, _⟩ ← block rest
  return ⟨⟨qualifier, name, names, b⟩, rest, by omega⟩
termination_by 4 * s.length

/-- The functions of a package, up to the closing brace. -/
def functionsUntilBrace (opened : Position) (s : Stream) :
    Result (List FunctionDecl) s.length := do
  let ⟨_, s', h⟩ ← skipSemicolons s
  match s', h with
  | .failure e, _ => throw (unexpected (.failure e) "function")
  | .finish p, _ => throw (.unclosed opened p)
  | .cons t rest, _ =>
    match t.token with
    | .keyword .function =>
      let ⟨f, rest, _⟩ ← function (.cons t rest)
      let ⟨fs, rest, _⟩ ← functionsUntilBrace opened rest
      return ⟨f :: fs, rest, by simp only [Stream.length] at *; omega⟩
    | .symbol .closeBrace =>
      lookAhead rest
      return ⟨[], rest, by simp only [Stream.length] at *; omega⟩
    | _ => throw (unexpected (.cons t rest) "function")
termination_by 4 * s.length + 2
decreasing_by all_goals simp only [Stream.length] at *; omega

/-- Statements in braces. -/
def block (s : Stream) : Result (List Statement) s.length := do
  let ⟨opened, rest, _⟩ ← expectSymbol .openBrace s
  let ⟨statements, rest, _⟩ ← statementsUntilBrace opened rest
  return ⟨statements, rest, by omega⟩
termination_by 4 * s.length

/-- The statements of a block, up to the closing brace. -/
def statementsUntilBrace (opened : Position) (s : Stream) :
    Result (List Statement) s.length := do
  let ⟨_, s', h⟩ ← skipSemicolons s
  match s', h with
  | .failure e, _ => throw (unexpected (.failure e) "expression")
  | .finish p, _ => throw (.unclosed opened p)
  | .cons t rest, _ =>
    if t.token = .symbol .closeBrace then
      lookAhead rest
      return ⟨[], rest, by simp only [Stream.length] at *; omega⟩
    else
      let ⟨first, rest, _⟩ ← statement (.cons t rest)
      let ⟨others, rest, _⟩ ← statementsUntilBrace opened rest
      return ⟨first :: others, rest, by simp only [Stream.length] at *; omega⟩
termination_by 4 * s.length + 2
decreasing_by all_goals simp only [Stream.length] at *; omega

/-- The body of a loop or branch: a block, or one statement. -/
def body (s : Stream) : Result (List Statement) s.length := do
  if isSymbol .openBrace s then block s
  else
    let ⟨only, rest, _⟩ ← statement s
    return ⟨[only], rest, by omega⟩
termination_by 4 * s.length + 2

/-- A switch after its keyword. -/
def switch (kind : SwitchKind) (s : Stream) : Result Statement s.length := do
  let ⟨subject, rest, _⟩ ← condition s
  let ⟨opened, rest, _⟩ ← expectSymbol .openBrace rest
  let ⟨(cases, default), rest, _⟩ ← switchItems opened none rest
  return ⟨.switch kind subject cases default, rest, by omega⟩
termination_by 4 * s.length

/-- The cases of a switch, up to the closing brace. Of several defaults the last one counts. -/
def switchItems (opened : Position) (default : Option (List Statement)) (s : Stream) :
    Result (List SwitchCase × Option (List Statement)) s.length := do
  let ⟨_, s', h⟩ ← skipSemicolons s
  match s', h with
  | .failure e, _ => throw (unexpected (.failure e) "case, default or \x7d")
  | .finish p, _ => throw (.unclosed opened p)
  | .cons t rest, _ =>
    match t.token with
    | .keyword .case =>
      lookAhead rest
      let ⟨ls, rest, _⟩ ← labels rest
      let ⟨_, rest, _⟩ ← expectSymbol .colon rest
      let ⟨b, rest, _⟩ ← caseBody opened rest
      let ⟨(cases, default), rest, _⟩ ← switchItems opened default rest
      return ⟨(⟨ls, b⟩ :: cases, default), rest, by simp only [Stream.length] at *; omega⟩
    | .keyword .default =>
      lookAhead rest
      let ⟨_, rest, _⟩ ← expectSymbol .colon rest
      let ⟨b, rest, _⟩ ← caseBody opened rest
      let ⟨content, rest, _⟩ ← switchItems opened (some b) rest
      return ⟨content, rest, by simp only [Stream.length] at *; omega⟩
    | .symbol .closeBrace =>
      lookAhead rest
      return ⟨([], default), rest, by simp only [Stream.length] at *; omega⟩
    | _ => throw (unexpected (.cons t rest) "case, default or \x7d")
termination_by 4 * s.length + 2
decreasing_by all_goals simp only [Stream.length] at *; omega

/-- The statements of a case, up to the next case, default or closing brace. -/
def caseBody (opened : Position) (s : Stream) : Result (List Statement) (s.length + 1) := do
  let ⟨_, s', h⟩ ← skipSemicolons s
  match s', h with
  | .failure e, _ => throw (unexpected (.failure e) "expression")
  | .finish p, _ => throw (.unclosed opened p)
  | .cons t rest, h =>
    if t.token ∈ [.keyword .case, .keyword .default, .symbol .closeBrace] then
      return ⟨[], .cons t rest, h⟩
    else
      let ⟨first, rest, _⟩ ← statement (.cons t rest)
      let ⟨others, rest, _⟩ ← caseBody opened rest
      return ⟨first :: others, rest, by simp only [Stream.length] at *; omega⟩
termination_by 4 * s.length + 2
decreasing_by all_goals simp only [Stream.length] at *; omega

end

/-- The statements up to the end of the source. -/
def statements (s : Stream) : Except SourceError (List Statement) := do
  let ⟨_, s', h⟩ ← skipSemicolons s
  match s', h with
  | .failure e, _ => throw (.scan e)
  | .finish _, _ => return []
  | .cons t rest, _ =>
    let ⟨first, rest, _⟩ ← statement (.cons t rest)
    let others ← statements rest
    return first :: others
termination_by s.length
decreasing_by simp only [Stream.length] at *; omega

end TorqueScript.Parse

namespace TorqueScript

/-- Reads a program from its tokens. -/
def Program.ofStream (s : Stream) : Except SourceError Program := do
  Parse.lookAhead s
  Parse.statements s

/-- Reads a program from its source text. -/
def Program.ofText (source : String) : Except SourceError Program :=
  Program.ofStream (.ofText source)

end TorqueScript
