import TorqueScript.Proofs.Program.StatementReaders

/-!
Readers as recipes. A recipe says what a reader does step by step: it looks at the next
token, passes it, reads a piece of the program by the recipe for that piece, and ends
with something read or with a mistake. The grammar stands in one table, `Piece.recipe`,
and a run of a recipe is a relation, so that what holds of every reader is proved by one
induction on runs and needs no mention of the grammar.
-/

namespace TorqueScript.Parse

/-- The pieces of a program that have a reader, with the type of what is read. -/
inductive Piece : Type → Type where
  | semicolons : Piece Unit
  | expression (level : Level) : Piece Expr
  /-- What goes on with `left`. -/
  | climb (level : Level) (left : Expr) : Piece Expr
  | operand : Piece Expr
  | sequence : Piece (List Expr)
  | sequenceUntil (close : Symbol) : Piece (List Expr)
  | arguments : Piece (List Expr)
  | subscripts : Piece (List Expr)
  | creation : Piece ObjectDecl
  | classRef : Piece ClassRef
  | optional (close : Symbol) : Piece (Option Expr)
  | objectBlock : Piece (List FieldInit × List ObjectDecl)
  | objectItems : Piece (List FieldInit × List ObjectDecl)
  | condition : Piece Expr
  | labels : Piece (List Expr)
  | parameters : Piece (List String)
  | qualifiedName : Piece (Option String × String)
  | parentName : Piece (Option String)
  | datablock : Piece Statement
  | statement : Piece Statement
  | function : Piece FunctionDecl
  | functionsUntilBrace : Piece (List FunctionDecl)
  | block : Piece (List Statement)
  | statementsUntilBrace : Piece (List Statement)
  | body : Piece (List Statement)
  | switch (kind : SwitchKind) : Piece Statement
  | switchItems (default : Option (List Statement)) :
    Piece (List SwitchCase × Option (List Statement))
  | caseBody : Piece (List Statement)

/-- What a reader can miss at a token. -/
inductive Wanted where
  | symbol (x : Symbol)
  | keyword (k : Keyword)
  | name
  | expression
  | assignable
  | steppable
  | item
  | parameter
  | function
  | switchItem

def Wanted.text : Wanted → String
  | symbol x => (Token.symbol x).spelling
  | keyword k => (Token.keyword k).spelling
  | name => "identifier"
  | expression => "expression"
  | assignable => "; (left side is not assignable)"
  | steppable => "; (operand is not assignable)"
  | item => "field assignment or new"
  | parameter => "parameter"
  | function => "function"
  | switchItem => "case, default or \x7d"

inductive Recipe (α : Type) : Type 1 where
  | done (a : α)
  /-- Goes on by the next token. -/
  | look (next : Option Token → Recipe α)
  /-- Goes on by whether `else` comes next. -/
  | ifElse (yes no : Recipe α)
  | pass (next : Recipe α)
  /-- Passes the brace that opens a block. What is not closed later was opened here. -/
  | enter (next : Recipe α)
  | read {β : Type} (piece : Piece β) (next : β → Recipe α)
  /-- Reads an object block in which no object may be nested. -/
  | readFields (next : List FieldInit → Recipe α)
  | mistake (wanted : Wanted)
  | unclosed
  | emptyLabel
  | badNumeral

namespace Recipe

variable {α : Type}

def ifNext (t : Token) (yes no : Recipe α) : Recipe α :=
  look fun u => if u = some t then yes else no

def symbol (x : Symbol) (next : Recipe α) : Recipe α :=
  ifNext (.symbol x) (pass next) (mistake (.symbol x))

def keyword (k : Keyword) (next : Recipe α) : Recipe α :=
  ifNext (.keyword k) (pass next) (mistake (.keyword k))

def brace (next : Recipe α) : Recipe α :=
  ifNext (.symbol .openBrace) (enter next) (mistake (.symbol .openBrace))

def nameOf? : Token → Option String
  | .name text => some text
  | _ => none

def name (next : String → Recipe α) : Recipe α :=
  look fun u =>
    match u.bind nameOf? with
    | some text => pass (next text)
    | none => mistake .name

/-- Reads a piece and ends with it. -/
@[simp]
def last (piece : Piece α) : Recipe α :=
  read piece done

def continuation (level : Level) (left : Expr) : Continuation → Recipe Expr
  | .assign op =>
    match left.place? with
    | none => mistake .assignable
    | some place =>
      pass <| read (.expression Level.lowest) fun value =>
        last (.climb level (.assign place op value))
  | .conditional =>
    pass <| read (.expression Level.lowest) fun consequence =>
      symbol .colon <| read (.expression Level.assignment) fun alternative =>
        last (.climb level (.conditional left consequence alternative))
  | .binary op =>
    pass <| read (.expression (binaryLevel op)) fun right =>
      last (.climb level (.binary op left right))
  | .step op =>
    match left.place? with
    | none => mistake .steppable
    | some place => pass <| last (.climb level (.step place op))
  | .dot =>
    pass <| name fun text =>
      ifNext (.symbol .openParen)
        (read .arguments fun args => last (.climb level (.method left text args)))
        (read .subscripts fun subs => last (.climb level (.read (.field left text subs))))

def opening : Opening → Recipe Expr
  | .literal (.ok e) => pass (done e)
  | .literal (.error _) => badNumeral
  | .variable scope text =>
    pass <| read .subscripts fun subs => done (.read (.variable scope text subs))
  | .name text =>
    pass <| ifNext (.symbol .doubleColon)
      (symbol .doubleColon <| name fun second =>
        read .arguments fun args => done (.call (some text) second args))
      (ifNext (.symbol .openParen)
        (read .arguments fun args => done (.call none text args))
        (done (.bareword text)))
  | .unary op => pass <| read (.expression Level.unary) fun e => done (.unary op e)
  | .parenthesis =>
    pass <| read (.expression Level.lowest) fun e => symbol .closeParen <| done e
  | .creation => read .creation fun d => done (.create d)

def objectItem : Option Token → Recipe (List FieldInit × List ObjectDecl)
  | none => unclosed
  | some (.symbol .closeBrace) => pass (done ([], []))
  | some (.keyword .new) =>
    read .creation fun d =>
      symbol .semicolon <| read .objectItems fun (fields, children) =>
        done (fields, d :: children)
  | some (.name text) =>
    pass <| read .subscripts fun subs =>
      symbol .assign <| read (.expression Level.lowest) fun value =>
        symbol .semicolon <| read .objectItems fun (fields, children) =>
          done (⟨text, subs, value⟩ :: fields, children)
  | some _ => mistake .item

def parameter : Option Token → Recipe (List String)
  | some (.localVariable text) =>
    pass <| ifNext (.symbol .closeParen) (done [text])
      (symbol .comma <| read .parameters fun names => done (text :: names))
  | _ => mistake .parameter

def keywordOf? : Token → Option Keyword
  | .keyword k => some k
  | _ => none

def statement : Option Keyword → Recipe Statement
  | some .function => read .function fun f => done (.function f)
  | some .package =>
    keyword .package <| name fun text =>
      brace <| read .functionsUntilBrace fun functions => done (.package text functions)
  | some .datablock => last .datablock
  | some .if =>
    keyword .if <| read .condition fun c =>
      read .body fun consequence =>
        ifElse
          (keyword .else <| read .body fun alternative =>
            done (.branch c consequence (some alternative)))
          (done (.branch c consequence none))
  | some .while =>
    keyword .while <| read .condition fun c => read .body fun b => done (.whileLoop c b)
  | some .for =>
    keyword .for <| symbol .openParen <| read (.optional .semicolon) fun init =>
      symbol .semicolon <| read (.optional .semicolon) fun c =>
        symbol .semicolon <| read (.optional .closeParen) fun update =>
          symbol .closeParen <| read .body fun b => done (.forLoop init c update b)
  | some .switch => keyword .switch <| last (.switch .byNumber)
  | some .switchText => keyword .switchText <| last (.switch .byText)
  | some .break => keyword .break <| symbol .semicolon <| done .break
  | some .continue => keyword .continue <| symbol .semicolon <| done .continue
  | some .return =>
    keyword .return <| read (.optional .semicolon) fun value =>
      symbol .semicolon <| done (.return value)
  | _ => read (.expression Level.lowest) fun e => symbol .semicolon <| done (.expr e)

def packageItem : Option Token → Recipe (List FunctionDecl)
  | none => unclosed
  | some (.keyword .function) =>
    read .function fun f => read .functionsUntilBrace fun fs => done (f :: fs)
  | some (.symbol .closeBrace) => pass (done [])
  | some _ => mistake .function

/-- Statements up to one of the tokens `ends`, and then `stop`. -/
def statementsUpTo (ends : List Token) (stop : Recipe (List Statement))
    (others : Piece (List Statement)) : Option Token → Recipe (List Statement)
  | none => unclosed
  | some t =>
    if t ∈ ends then stop
    else read .statement fun first => read others fun rest => done (first :: rest)

def switchItem (default : Option (List Statement)) :
    Option Token → Recipe (List SwitchCase × Option (List Statement))
  | none => unclosed
  | some (.keyword .case) =>
    pass <| read .labels fun ls =>
      symbol .colon <| read .caseBody fun b =>
        read (.switchItems default) fun (cases, default) => done (⟨ls, b⟩ :: cases, default)
  | some (.keyword .default) =>
    pass <| symbol .colon <| read .caseBody fun b => last (.switchItems (some b))
  | some (.symbol .closeBrace) => pass (done ([], default))
  | some _ => mistake .switchItem

end Recipe

open Recipe in
/-- The grammar: how each piece is read. -/
def Piece.recipe : {α : Type} → Piece α → Recipe α
  | _, .semicolons => ifNext (.symbol .semicolon) (pass (last .semicolons)) (done ())
  | _, .expression level => read .operand fun left => last (.climb level left)
  | _, .climb level left =>
    look fun u =>
      match u.bind Continuation.ofToken? with
      | none => done left
      | some c => if c.level ≤ level then done left else continuation level left c
  | _, .operand =>
    look fun u =>
      match u.bind Opening.ofToken? with
      | none => mistake .expression
      | some o => opening o
  | _, .sequence =>
    read (.expression Level.lowest) fun e =>
      ifNext (.symbol .comma) (symbol .comma <| read .sequence fun es => done (e :: es))
        (done [e])
  | _, .sequenceUntil close => ifNext (.symbol close) (done []) (last .sequence)
  | _, .arguments =>
    symbol .openParen <| read (.sequenceUntil .closeParen) fun es =>
      symbol .closeParen <| done es
  | _, .subscripts =>
    ifNext (.symbol .openBracket)
      (symbol .openBracket <| read (.sequenceUntil .closeBracket) fun es =>
        symbol .closeBracket <| done es)
      (done [])
  | _, .creation =>
    keyword .new <| read .classRef fun c =>
      symbol .openParen <| read (.optional .closeParen) fun text =>
        symbol .closeParen <|
          ifNext (.symbol .openBrace)
            (read .objectBlock fun (fields, children) => done ⟨c, text, fields, children⟩)
            (done ⟨c, text, [], []⟩)
  | _, .classRef =>
    ifNext (.symbol .openParen)
      (symbol .openParen <| read (.expression Level.lowest) fun e =>
        symbol .closeParen <| done (.computed e))
      (name fun text => done (.named text))
  | _, .optional close =>
    ifNext (.symbol close) (done none) (read (.expression Level.lowest) fun e => done (some e))
  | _, .objectBlock => brace <| last .objectItems
  | _, .objectItems => read .semicolons fun _ => look objectItem
  | _, .condition =>
    symbol .openParen <| read (.expression Level.lowest) fun e => symbol .closeParen <| done e
  | _, .labels =>
    look fun u =>
      if u ∈ [none, some (.symbol .colon), some (.keyword .or), some (.symbol .closeBrace),
          some (.symbol .semicolon)] then emptyLabel
      else
        read (.expression Level.lowest) fun e =>
          ifNext (.keyword .or) (keyword .or <| read .labels fun es => done (e :: es))
            (done [e])
  | _, .parameters => ifNext (.symbol .closeParen) (done []) (look parameter)
  | _, .qualifiedName =>
    name fun text =>
      ifNext (.symbol .doubleColon)
        (symbol .doubleColon <| name fun second => done (some text, second))
        (done (none, text))
  | _, .parentName =>
    ifNext (.symbol .colon) (symbol .colon <| name fun text => done (some text)) (done none)
  | _, .datablock =>
    keyword .datablock <| name fun className =>
      symbol .openParen <| name fun text =>
        symbol .closeParen <| read .parentName fun parent =>
          readFields fun fields =>
            symbol .semicolon <| done (.datablock ⟨className, text, parent, fields⟩)
  | _, .statement => look fun u => Recipe.statement (u.bind keywordOf?)
  | _, .function =>
    keyword .function <| read .qualifiedName fun (qualifier, text) =>
      symbol .openParen <| read .parameters fun names =>
        symbol .closeParen <| read .block fun b => done ⟨qualifier, text, names, b⟩
  | _, .functionsUntilBrace => read .semicolons fun _ => look packageItem
  | _, .block => brace <| last .statementsUntilBrace
  | _, .statementsUntilBrace =>
    read .semicolons fun _ =>
      look (statementsUpTo [.symbol .closeBrace] (pass (done [])) .statementsUntilBrace)
  | _, .body =>
    ifNext (.symbol .openBrace) (last .block)
      (read .statement fun only => done [only])
  | _, .switch kind =>
    read .condition fun subject =>
      brace <| read (.switchItems none) fun (cases, default) =>
        done (.switch kind subject cases default)
  | _, .switchItems default => read .semicolons fun _ => look (switchItem default)
  | _, .caseBody =>
    read .semicolons fun _ =>
      look (statementsUpTo [.keyword .case, .keyword .default, .symbol .closeBrace] (done [])
        .caseBody)

/-- How reading ends: with something read and the tokens after it, or with a mistake. -/
abbrev Ending (α : Type) : Type :=
  Except SourceError (α × Stream)

/-- The next token. -/
def nextToken : Stream → Option Token
  | .cons t _ => some t.token
  | .finish _ => none
  | .failure _ => none

/-- Following the recipe from `s` ends in this way, inside a block that was opened at `opened`. -/
inductive Runs : {α : Type} → Position → Recipe α → Stream → Ending α → Prop where
  | done {α : Type} {opened : Position} {s : Stream} {a : α} :
    Runs opened (.done a) s (.ok (a, s))
  | look {α : Type} {opened : Position} {s : Stream} {next : Option Token → Recipe α}
      {r : Ending α} (h : Runs opened (next (nextToken s)) s r) :
    Runs opened (.look next) s r
  | ifElse {α : Type} {opened : Position} {s : Stream} {yes no : Recipe α} {r : Ending α}
      (h : Runs opened (if isNext (.keyword .else) s then yes else no) s r) :
    Runs opened (.ifElse yes no) s r
  | pass {α : Type} {opened : Position} {t : Located} {s : Stream} {next : Recipe α}
      {r : Ending α} (hs : Settled s) (h : Runs opened next s r) :
    Runs opened (.pass next) (.cons t s) r
  | passFails {α : Type} {opened : Position} {t : Located} {s : Stream} {next : Recipe α}
      {e : SourceError} (h : lookAhead s = .error e) :
    Runs opened (.pass next) (.cons t s) (.error e)
  | enter {α : Type} {opened : Position} {t : Located} {s : Stream} {next : Recipe α}
      {r : Ending α} (hs : Settled s) (h : Runs t.position next s r) :
    Runs opened (.enter next) (.cons t s) r
  | enterFails {α : Type} {opened : Position} {t : Located} {s : Stream} {next : Recipe α}
      {e : SourceError} (h : lookAhead s = .error e) :
    Runs opened (.enter next) (.cons t s) (.error e)
  | read {α β : Type} {opened : Position} {s mid : Stream} {piece : Piece β} {b : β}
      {next : β → Recipe α} {r : Ending α} (hpiece : Runs opened piece.recipe s (.ok (b, mid)))
      (h : Runs opened (next b) mid r) :
    Runs opened (.read piece next) s r
  | readFails {α β : Type} {opened : Position} {s : Stream} {piece : Piece β}
      {next : β → Recipe α} {e : SourceError} (h : Runs opened piece.recipe s (.error e)) :
    Runs opened (.read piece next) s (.error e)
  | readFields {α : Type} {opened : Position} {s mid : Stream} {fields : List FieldInit}
      {next : List FieldInit → Recipe α} {r : Ending α}
      (hfields : Runs opened Piece.objectBlock.recipe s (.ok ((fields, []), mid)))
      (h : Runs opened (next fields) mid r) :
    Runs opened (.readFields next) s r
  | readFieldsFails {α : Type} {opened : Position} {s : Stream}
      {next : List FieldInit → Recipe α} {e : SourceError}
      (h : Runs opened Piece.objectBlock.recipe s (.error e)) :
    Runs opened (.readFields next) s (.error e)
  | nested {α : Type} {opened : Position} {s mid : Stream} {fields : List FieldInit}
      {children : List ObjectDecl} {next : List FieldInit → Recipe α}
      (hread : (objectBlock s).Reads (fields, children) mid)
      (h : Runs opened Piece.objectBlock.recipe s (.ok ((fields, children), mid)))
      (hchildren : children ≠ []) :
    Runs opened (.readFields next) s
      (.error (.unexpected "field assignment" (Keyword.spelling .new) (Parse.next mid).2))
  | mistake {α : Type} {opened : Position} {s : Stream} {wanted : Wanted} :
    Runs opened (.mistake wanted : Recipe α) s (.error (unexpected s wanted.text))
  | unclosed {α : Type} {opened p : Position} :
    Runs opened (.unclosed : Recipe α) (.finish p) (.error (.unclosed opened p))
  | emptyLabel {α : Type} {opened : Position} {s : Stream} (h : endsLabels s = true) :
    Runs opened (.emptyLabel : Recipe α) s (.error (.emptyLabel (Parse.next s).2))
  | badNumeral {α : Type} {opened p : Position} {s : Stream} {text : String} (hs : Settled s)
      (h : Number.ofLiteral? text.toList = none) :
    Runs opened (.badNumeral : Recipe α) (.cons ⟨.numeral text, p⟩ s)
      (.error (.scan ⟨.badNumeral text, p⟩))
  | badNumeralFails {α : Type} {opened : Position} {t : Located} {s : Stream} {e : SourceError}
      (h : lookAhead s = .error e) :
    Runs opened (.badNumeral : Recipe α) (.cons t s) (.error e)

namespace Runs

variable {α : Type} {opened : Position} {recipe : Recipe α} {s : Stream} {r : Ending α}

theorem settled (h : Runs opened recipe s r) (hs : Settled s) :
    ∀ a rest, r = .ok (a, rest) → Settled rest := by
  induction h with
  | done =>
    rintro a rest ⟨⟩
    exact hs
  | look _ ih | ifElse _ ih => exact ih hs
  | pass hs' _ ih | enter hs' _ ih => exact ih hs'
  | read _ _ ihpiece ih | readFields _ _ ihpiece ih => exact ih (ihpiece hs _ _ rfl)
  | _ => exact nofun

/-- A recipe has one ending. -/
theorem unique {r' : Ending α} (h : Runs opened recipe s r) (h' : Runs opened recipe s r') :
    r = r' := by
  induction h with
  | done =>
    cases h'
    rfl
  | look _ ih =>
    cases h' with
    | look h' => exact ih h'
  | ifElse _ ih =>
    cases h' with
    | ifElse h' => exact ih h'
  | pass hs _ ih =>
    cases h' with
    | pass _ h' => exact ih h'
    | passFails he => exact nomatch hs.symm.trans he
  | passFails he =>
    cases h' with
    | pass hs _ => exact nomatch hs.symm.trans he
    | passFails he' => exact congrArg _ (Except.error.inj (he.symm.trans he'))
  | enter hs _ ih =>
    cases h' with
    | enter _ h' => exact ih h'
    | enterFails he => exact nomatch hs.symm.trans he
  | enterFails he =>
    cases h' with
    | enter hs _ => exact nomatch hs.symm.trans he
    | enterFails he' => exact congrArg _ (Except.error.inj (he.symm.trans he'))
  | read _ _ ihpiece ih =>
    cases h' with
    | read hpiece h' =>
      cases ihpiece hpiece
      exact ih h'
    | readFails h' => cases ihpiece h'
  | readFails _ ih =>
    cases h' with
    | read hpiece _ => cases ih hpiece
    | readFails h' =>
      cases ih h'
      rfl
  | readFields _ _ ihpiece ih =>
    cases h' with
    | readFields hpiece h' =>
      cases ihpiece hpiece
      exact ih h'
    | readFieldsFails h' => cases ihpiece h'
    | nested _ h' hchildren =>
      cases ihpiece h'
      exact absurd rfl hchildren
  | readFieldsFails _ ih =>
    cases h' with
    | readFields hpiece _ => cases ih hpiece
    | readFieldsFails h' =>
      cases ih h'
      rfl
    | nested _ h' _ => cases ih h'
  | nested _ _ hchildren ih =>
    cases h' with
    | readFields hpiece _ =>
      cases ih hpiece
      exact absurd rfl hchildren
    | readFieldsFails h' => cases ih h'
    | nested _ h' _ =>
      cases ih h'
      rfl
  | mistake =>
    cases h'
    rfl
  | unclosed =>
    cases h'
    rfl
  | emptyLabel _ =>
    cases h'
    rfl
  | badNumeral hs _ =>
    cases h' with
    | badNumeral _ _ => rfl
    | badNumeralFails he => exact nomatch hs.symm.trans he
  | badNumeralFails he =>
    cases h' with
    | badNumeral hs _ => exact nomatch hs.symm.trans he
    | badNumeralFails he' => exact congrArg _ (Except.error.inj (he.symm.trans he'))

end Runs

end TorqueScript.Parse
