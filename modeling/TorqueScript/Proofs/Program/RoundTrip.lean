import TorqueScript.Proofs.Program.StatementSpelling
import TorqueScript.Proofs.Program.Printing
import TorqueScript.Proofs.Token.Lexical

/-!
Printed programs are read back. Statements are printed with braces around every body
and end with a semicolon or a brace, so they are read alike before any text. The main
statement is that a program that was read from some source is read again from what is
printed of it.
-/

namespace TorqueScript

open Text Scan Parse

/-- The text is read as the statement, whatever follows it. -/
def Printed (st : Statement) (text : String) : Prop :=
  ∀ rest, Takes (Says st) text.toList rest

/-- The text is read as the statements and the brace that closes them. -/
def PrintedBody (b : List Statement) (text : String) : Prop :=
  ∀ rest, Takes (Fills b) text.toList rest

/-- The text is read as the statements in braces. -/
def PrintedBlock (b : List Statement) (text : String) : Prop :=
  ∀ rest, Takes (Encloses b) text.toList rest

/-- The text is read as the function. -/
def PrintedFunction (f : FunctionDecl) (text : String) : Prop :=
  ∀ rest, Takes (Declares f) text.toList rest

/-- The text is read as the functions and the brace that closes them. -/
def PrintedPackage (fs : List FunctionDecl) (text : String) : Prop :=
  ∀ rest, Takes (Packs fs) text.toList rest

theorem lexes_closeParen_blank {rest : List Char} : Lexes [')', ' '] [.symbol .closeParen] rest :=
  lexes_closeParen.append (lexes_blank (c := ' ') rfl)

theorem lexes_semicolon_blank {rest : List Char} : Lexes [';', ' '] [.symbol .semicolon] rest :=
  lexes_semicolon.append (lexes_blank (c := ' ') rfl)

/-- A keyword with the parenthesis after it. -/
theorem lexes_keyword_openParen {k : Keyword} (hk : (Token.keyword k).isFixed = true)
    {rest : List Char} :
    Lexes (k.spelling.toList ++ [' ', '(']) [.keyword k, .symbol .openParen] rest := by
  simpa [Token.spelling] using (lexes_fixed hk).append lexes_openParen

theorem lexes_keyword_semicolon {k : Keyword} (hk : k ∈ Keyword.words) (hswitch : k ≠ .switch)
    {rest : List Char} :
    Lexes (k.spelling.toList ++ [';']) [.keyword k, .symbol .semicolon] rest :=
  (lexes_keyword hk hswitch (by exact rfl)).append lexes_semicolon

section

variable {c e : Expr} {i o u : Option Expr} {st : Statement} {b b' : List Statement}
  {f : FunctionDecl} {fs : List FunctionDecl} {a d text text' name : String}

theorem printedBody_close : PrintedBody [] " \x7d" := by
  intro rest
  refine lexes_blank_closeBrace.mono fun s t => ?_
  rintro ⟨p, _, rfl, rfl⟩
  exact fills_close

theorem printedBody_cons (h : Printed st text) (hb : PrintedBody b text') :
    PrintedBody (st :: b) (" " ++ text ++ text') := by
  intro rest
  have hall := ((lexes_blank (c := ' ') rfl).seq ((h _).seq (hb rest))).mono fun s t => by
    rintro ⟨_, rfl, _, hst, hb⟩
    exact hst.fills hb
  simpa using hall

theorem PrintedBody.block (h : PrintedBody b text) : PrintedBlock b ("\x7b" ++ text) := by
  intro rest
  have hall := (lexes_openBrace.seq (h rest)).mono fun s t => by
    rintro ⟨_, ⟨p, _, rfl, rfl⟩, hb⟩
    exact hb.encloses (p := p)
  simpa using hall

theorem printed_while (hc : Written (.expression Level.assignment c) a)
    (hb : PrintedBlock b text) :
    Printed (.whileLoop c b) ("while (" ++ a ++ ") " ++ text) := by
  intro rest
  have hhead : ∀ rest, Lexes "while (".toList _ rest := fun _ =>
    lexes_keyword_openParen (k := .while) rfl
  have hbody := lexes_closeParen_blank.seq (hb rest)
  have hall := ((hhead _).seq ((hc _ (boundary_of_parts rfl)).seq hbody)).mono fun s t => by
    rintro ⟨_, ⟨p, _, rfl, q, _, rfl, rfl⟩, _, hc, _, ⟨r, _, rfl, rfl⟩, hb⟩
    exact says_while hc hb
  simpa using hall

theorem printed_if (hc : Written (.expression Level.assignment c) a) (hb : PrintedBlock b text) :
    Printed (.branch c b none) ("if (" ++ a ++ ") " ++ text) := by
  intro rest
  have hhead : ∀ rest, Lexes "if (".toList _ rest := fun _ =>
    lexes_keyword_openParen (k := .if) rfl
  have hbody := lexes_closeParen_blank.seq (hb rest)
  have hall := ((hhead _).seq ((hc _ (boundary_of_parts rfl)).seq hbody)).mono fun s t => by
    rintro ⟨_, ⟨p, _, rfl, q, _, rfl, rfl⟩, _, hc, _, ⟨r, _, rfl, rfl⟩, hb⟩
    exact says_if hc hb
  simpa using hall

theorem printed_ifElse (hc : Written (.expression Level.assignment c) a)
    (hb : PrintedBlock b text) (hb' : PrintedBlock b' text') :
    Printed (.branch c b (some b')) ("if (" ++ a ++ ") " ++ text ++ " else " ++ text') := by
  intro rest
  have hhead : ∀ rest, Lexes "if (".toList _ rest := fun _ =>
    lexes_keyword_openParen (k := .if) rfl
  have helse : ∀ rest, Lexes " else ".toList _ rest := fun _ =>
    lexes_spaced (t := .keyword .else) rfl
  have hbody := lexes_closeParen_blank.seq ((hb _).seq ((helse _).seq (hb' rest)))
  have hall := ((hhead _).seq ((hc _ (boundary_of_parts rfl)).seq hbody)).mono fun s t => by
    rintro ⟨_, ⟨p, _, rfl, q, _, rfl, rfl⟩, _, hc, _, ⟨r, _, rfl, rfl⟩, _, hb, _,
      ⟨o, _, rfl, rfl⟩, hb'⟩
    exact says_ifElse hc hb hb'
  simpa using hall

theorem printed_for (hi : Written (.optional i) a) (ho : Written (.optional o) d)
    (hu : Written (.optional u) text') (hb : PrintedBlock b text) :
    Printed (.forLoop i o u b) ("for (" ++ a ++ "; " ++ d ++ "; " ++ text' ++ ") " ++ text) := by
  intro rest
  have hhead : ∀ rest, Lexes "for (".toList _ rest := fun _ =>
    lexes_keyword_openParen (k := .for) rfl
  have hbody := lexes_closeParen_blank.seq (hb rest)
  have hupdate := lexes_semicolon_blank.seq ((hu _ (boundary_of_parts rfl)).seq hbody)
  have hcondition := lexes_semicolon_blank.seq ((ho _ (boundary_of_parts rfl)).seq hupdate)
  have hall := ((hhead _).seq ((hi _ (boundary_of_parts rfl)).seq hcondition)).mono fun s t => by
    rintro ⟨_, ⟨p, _, rfl, q, _, rfl, rfl⟩, _, hi, _, ⟨p₁, _, rfl, rfl⟩, _, ho, _,
      ⟨p₂, _, rfl, rfl⟩, _, hu, _, ⟨p₃, _, rfl, rfl⟩, hb⟩
    exact says_for hi ho hu hb
  simpa using hall

theorem printed_expr (he : Written (.expression Level.assignment e) a) :
    Printed (.expr e) (a ++ ";") := by
  intro rest
  have hend := (he (';' :: rest) (boundary_of_parts rfl)).seq lexes_semicolon
  have hall := hend.mono fun s t => by
    rintro ⟨_, he, p, _, rfl, rfl⟩
    exact says_expr he
  simpa using hall

theorem printed_break : Printed .break "break;" := by
  intro rest
  refine (lexes_keyword_semicolon (k := .break) (by decide) (by decide)).mono fun s t => ?_
  rintro ⟨p, _, rfl, q, _, rfl, rfl⟩
  exact says_bare (by decide) fun _ _ => statement_break

theorem printed_continue : Printed .continue "continue;" := by
  intro rest
  refine (lexes_keyword_semicolon (k := .continue) (by decide) (by decide)).mono fun s t => ?_
  rintro ⟨p, _, rfl, q, _, rfl, rfl⟩
  exact says_bare (by decide) fun _ _ => statement_continue

theorem printed_returnNone : Printed (.return none) "return;" := by
  intro rest
  refine (lexes_keyword_semicolon (k := .return) (by decide) (by decide)).mono fun s t => ?_
  rintro ⟨p, _, rfl, q, _, rfl, rfl⟩
  exact says_return .absent

theorem printed_return (he : Written (.expression Level.assignment e) a) :
    Printed (.return (some e)) ("return " ++ a ++ ";") := by
  intro rest
  have hhead : ∀ rest, Lexes "return ".toList _ rest := fun _ =>
    lexes_fixed (t := .keyword .return) rfl
  have hvalue := (he (';' :: rest) (boundary_of_parts rfl)).seq lexes_semicolon
  have hall := ((hhead _).seq hvalue).mono fun s t => by
    rintro ⟨_, ⟨p, _, rfl, rfl⟩, _, he, q, _, rfl, rfl⟩
    exact says_return (p := p) (.present he)
  simpa using hall

theorem lexes_qualified {qualifier : Option String}
    (hq : ∀ q ∈ qualifier, IsName q) (hname : IsName name) {rest : List Char}
    (hrest : NoName rest) :
    Lexes (qualified qualifier name).toList (nameTokens qualifier name) rest := by
  cases qualifier with
  | none => exact lexes_name hname hrest
  | some q =>
    have hfirst : Lexes q.toList [.name q] (([':', ':'] ++ name.toList) ++ rest) :=
      lexes_name (hq q rfl) rfl
    have hall := hfirst.append (lexes_doubleColon.append (lexes_name hname hrest))
    simpa [qualified, nameTokens] using hall

/-- Parameters before the closing parenthesis. -/
theorem takes_parameters {names : List String} (h : ∀ n ∈ names, IsVariable .local n)
    (rest : List Char) :
    Takes (Lists names) (", ".intercalate (names.map ("%" ++ ·))).toList (')' :: rest) := by
  induction names with
  | nil =>
    intro p
    exact ⟨p, lists_nil⟩
  | cons n names ih =>
    obtain ⟨hn, hnames⟩ := List.forall_mem_cons.1 h
    cases names with
    | nil =>
      have hlast : Lexes (Scope.sign .local ++ n).toList [.localVariable n] (')' :: rest) :=
        lexes_variable hn rfl
      refine hlast.mono fun s t => ?_
      rintro ⟨p, _, rfl, rfl⟩
      exact lists_last
    | cons n' names =>
      have hcomma := lexes_comma.seq (ih hnames)
      have hall : Takes (Lists (n :: n' :: names)) _ _ :=
        ((lexes_variable hn (by exact rfl)).seq hcomma).mono fun s t => by
          rintro ⟨_, ⟨p, _, rfl, rfl⟩, _, ⟨q, _, rfl, rfl⟩, hnames⟩
          exact hnames.next
      simpa [String.intercalate_cons_cons, Scope.sign] using hall

theorem printedFunction_render {qualifier : Option String} {names : List String}
    (hq : ∀ q ∈ qualifier, IsName q) (hname : IsName name)
    (hnames : ∀ n ∈ names, IsVariable .local n) (hb : PrintedBlock b text) :
    PrintedFunction ⟨qualifier, name, names, b⟩ ("function " ++ qualified qualifier name ++ "(" ++
      ", ".intercalate (names.map ("%" ++ ·)) ++ ") " ++ text) := by
  intro rest
  have hhead : ∀ rest, Lexes "function ".toList _ rest := fun _ =>
    lexes_fixed (t := .keyword .function) rfl
  have hbody := lexes_closeParen_blank.seq (hb rest)
  have hparameters := lexes_openParen.seq ((takes_parameters hnames _).seq hbody)
  have hall := ((hhead _).seq ((lexes_qualified hq hname (by exact rfl)).seq hparameters)).mono
    fun s t => by
      rintro ⟨_, ⟨p, _, rfl, rfl⟩, _, hname, _, ⟨q, _, rfl, rfl⟩, _, hnames, _,
        ⟨r, _, rfl, rfl⟩, hb⟩
      exact declares_function (p := p) hname hnames hb
  simpa using hall

theorem PrintedFunction.printed (h : PrintedFunction f text) : Printed (.function f) text :=
  fun rest => (h rest).mono fun _ _ hf => hf.says

theorem printedPackage_close : PrintedPackage [] " \x7d" := by
  intro rest
  refine lexes_blank_closeBrace.mono fun s t => ?_
  rintro ⟨p, _, rfl, rfl⟩
  exact packs_close

theorem printedPackage_cons (h : PrintedFunction f text) (hfs : PrintedPackage fs text') :
    PrintedPackage (f :: fs) (" " ++ text ++ text') := by
  intro rest
  have hall := ((lexes_blank (c := ' ') rfl).seq ((h _).seq (hfs rest))).mono fun s t => by
    rintro ⟨_, rfl, _, hf, hfs⟩
    exact hf.packs hfs
  simpa using hall

theorem printed_package (hname : IsName name) (h : PrintedPackage fs text) :
    Printed (.package name fs) ("package " ++ name ++ " \x7b" ++ text ++ ";") := by
  intro rest
  have hhead : ∀ rest, Lexes "package ".toList _ rest := fun _ =>
    lexes_fixed (t := .keyword .package) rfl
  have hfunctions := lexes_blank_openBrace.seq ((h (';' :: rest)).seq lexes_semicolon)
  have hall := ((hhead _).seq ((lexes_name hname (by exact rfl)).seq hfunctions)).mono
    fun s t => by
      rintro ⟨_, ⟨p, _, rfl, rfl⟩, _, ⟨q, _, rfl, rfl⟩, _, ⟨r, _, rfl, rfl⟩, _, hfs, o, _, rfl, rfl⟩
      exact says_package hfs
  simpa using hall

theorem lexes_parent {parent : Option String} (h : ∀ n ∈ parent, IsName n) {rest : List Char}
    (hrest : NoName rest) :
    Lexes ((parent.map (" : " ++ ·)).getD "").toList (parentTokens parent) rest := by
  cases parent with
  | none => exact lexes_nil
  | some n =>
    have hall := lexes_colon.append (lexes_name (h n rfl) hrest)
    simpa [parentTokens] using hall

theorem DatablockDecl.printed_render (d : DatablockDecl) (h : ∀ l ∈ d.leaves, l.Printable) :
    Printed (.datablock d) d.render := by
  obtain ⟨className, name, parent, fields⟩ := d
  obtain ⟨h, hfields⟩ := List.forall_mem_append.1 h
  obtain ⟨hclass, h⟩ := List.forall_mem_cons.1 h
  obtain ⟨hname, hparent⟩ := List.forall_mem_cons.1 h
  have hparent : ∀ n ∈ parent, IsName n := fun n hn => hparent (.name n) (by simpa using hn)
  intro rest
  have hhead : ∀ rest, Lexes "datablock ".toList _ rest := fun _ =>
    lexes_fixed (t := .keyword .datablock) rfl
  have hitems := filled_renderFields fields hfields [] _ filled_close (';' :: rest)
  have hblock := (lexes_parent hparent (by exact rfl)).seq
    (lexes_blank_openBrace.seq (hitems.seq lexes_semicolon))
  have hobject := lexes_openParen.seq
    ((lexes_name hname (by exact rfl)).seq (lexes_closeParen.seq hblock))
  have hall := ((hhead _).seq ((lexes_name hclass (by exact rfl)).seq hobject)).mono fun s t => by
    rintro ⟨_, ⟨p, _, rfl, rfl⟩, _, ⟨p₁, _, rfl, rfl⟩, _, ⟨p₂, _, rfl, rfl⟩, _,
      ⟨p₃, _, rfl, rfl⟩, _, ⟨p₄, _, rfl, rfl⟩, _, hparent, _, ⟨q, _, rfl, rfl⟩, _, hitems, o, _,
      rfl, rfl⟩
    exact says_datablock hparent hitems
  delta DatablockDecl.render
  simpa using hall

end

mutual

theorem Statement.printed_render : (st : Statement) → (∀ l ∈ st.leaves, l.Printable) →
    Printed st st.render
  | .expr e, h => by
    rw [Statement.render]
    exact printed_expr ((e.written_render h).loosen (by decide))
  | .branch c body none, h => by
    obtain ⟨hc, hb⟩ := List.forall_mem_append.1 h
    have hall := printed_if ((c.written_render hc).loosen (by decide))
      (printedBody_render body hb).block
    simpa only [Statement.render, renderBlock, renderElse, String.append_assoc, String.append_empty]
      using hall
  | .branch c body (some alternative), h => by
    obtain ⟨hcb, halternative⟩ := List.forall_mem_append.1 h
    obtain ⟨hc, hb⟩ := List.forall_mem_append.1 hcb
    have hall := printed_ifElse ((c.written_render hc).loosen (by decide))
      (printedBody_render body hb).block (printedBody_render alternative halternative).block
    simpa only [Statement.render, renderBlock, renderElse, String.append_assoc] using hall
  | .whileLoop c body, h => by
    obtain ⟨hc, hb⟩ := List.forall_mem_append.1 h
    have hall := printed_while ((c.written_render hc).loosen (by decide))
      (printedBody_render body hb).block
    simpa only [Statement.render, renderBlock, String.append_assoc] using hall
  | .forLoop i c u body, h => by
    obtain ⟨h, hb⟩ := List.forall_mem_append.1 h
    obtain ⟨h, hu⟩ := List.forall_mem_append.1 h
    obtain ⟨hi, hc⟩ := List.forall_mem_append.1 h
    have hall := printed_for (written_renderOption i hi) (written_renderOption c hc)
      (written_renderOption u hu) (printedBody_render body hb).block
    simpa only [Statement.render, renderBlock, String.append_assoc] using hall
  | .switch _ _ _ none, h => (h .switch (by simp [Statement.leaves])).elim
  | .switch _ _ _ (some _), h => (h .switch (by simp [Statement.leaves])).elim
  | .break, _ => by
    rw [Statement.render]
    exact printed_break
  | .continue, _ => by
    rw [Statement.render]
    exact printed_continue
  | .return none, _ => by
    rw [Statement.render]
    exact printed_returnNone
  | .return (some e), h => by
    rw [Statement.render]
    exact printed_return ((e.written_render h).loosen (by decide))
  | .function f, h => by
    rw [Statement.render]
    exact (f.printed_render h).printed
  | .package name functions, h => by
    obtain ⟨hname, hfs⟩ := List.forall_mem_cons.1 h
    have hall := printed_package hname (printedPackage_render functions hfs)
    simpa [Statement.render, String.append_assoc] using hall
  | .datablock d, h => by
    rw [Statement.render]
    exact d.printed_render h

theorem printedBody_render : (b : List Statement) → (∀ l ∈ leavesOfBody b, l.Printable) →
    PrintedBody b (renderStatements b ++ " \x7d")
  | [], _ => by
    rw [renderStatements]
    exact printedBody_close
  | st :: b, h => by
    obtain ⟨hst, hb⟩ := List.forall_mem_append.1 h
    have hall := printedBody_cons (st.printed_render hst) (printedBody_render b hb)
    simpa only [renderStatements, String.append_assoc] using hall

theorem FunctionDecl.printed_render : (f : FunctionDecl) → (∀ l ∈ f.leaves, l.Printable) →
    PrintedFunction f f.render
  | ⟨qualifier, name, names, body⟩, h => by
    obtain ⟨h, hb⟩ := List.forall_mem_append.1 h
    obtain ⟨hq, h⟩ := List.forall_mem_append.1 h
    obtain ⟨hname, hnames⟩ := List.forall_mem_cons.1 h
    have hq : ∀ q ∈ qualifier, IsName q := fun q hmem => hq (.name q) (by simpa using hmem)
    have hnames : ∀ n ∈ names, IsVariable .local n := fun n hn =>
      hnames (.variable .local n) (by simpa using hn)
    have hall := printedFunction_render hq hname hnames (printedBody_render body hb).block
    simpa only [FunctionDecl.render, renderBlock, String.append_assoc] using hall

theorem printedPackage_render : (fs : List FunctionDecl) →
    (∀ l ∈ leavesOfFunctions fs, l.Printable) →
    PrintedPackage fs (renderFunctions fs ++ " \x7d")
  | [], _ => by
    rw [renderFunctions]
    exact printedPackage_close
  | f :: fs, h => by
    obtain ⟨hf, hfs⟩ := List.forall_mem_append.1 h
    have hall := printedPackage_cons (f.printed_render hf) (printedPackage_render fs hfs)
    simpa only [renderFunctions, String.append_assoc] using hall

end

theorem completes_render {b : List Statement} (h : ∀ l ∈ leavesOfBody b, l.Printable)
    (p : Position) :
    Completes b (.ofCursor ⟨("\n".intercalate (b.map Statement.render)).toList, p⟩) := by
  induction b generalizing p with
  | nil =>
    have hfinish : Stream.ofCursor ⟨[], p⟩ = .finish p := Stream.ofCursor_finish rfl
    exact hfinish ▸ completes_finish
  | cons st b ih =>
    obtain ⟨hst, hb⟩ := List.forall_mem_append.1 h
    cases b with
    | nil =>
      obtain ⟨q, hsays⟩ := st.printed_render hst [] p
      have hfinish : Stream.ofCursor ⟨[], q⟩ = .finish q := Stream.ofCursor_finish rfl
      rw [hfinish, List.append_nil] at hsays
      exact hsays.completes completes_finish
    | cons st' b =>
      generalize hothers :
        ("\n".intercalate ((st' :: b).map Statement.render)).toList = others at ih
      have hline : Lexes ['\n'] [] others := lexes_blank rfl
      obtain ⟨q, hsays⟩ := st.printed_render hst ('\n' :: others) p
      obtain ⟨r, hblank⟩ := hline q
      have hmid : Completes (st' :: b) (.ofCursor ⟨'\n' :: others, q⟩) := hblank ▸ ih hb r
      rw [List.map_cons] at hothers
      simpa [String.intercalate_cons_cons, hothers] using hsays.completes hmid

/-- What is printed of a program with printable leaves is read as that program. -/
theorem Program.ofText_render_of_printable {p : Program} (h : ∀ l ∈ p.leaves, l.Printable) :
    Program.ofText p.render = .ok p :=
  (completes_render h _).ofStream

/-- A number of a program that was read has no sign. -/
theorem unsigned_of_from {x : Float} (h : (Leaf.number x).From Token.Lexical) :
    Number.Unsigned x := by
  rcases h with ⟨text, -, hread⟩ | rfl | rfl
  · exact Number.unsigned_of_ofLiteral? hread
  · exact Number.unsigned_ofScientific _ _ _
  · exact Number.unsigned_ofScientific _ _ _

/-- A program that was read from some source is read again from what is printed of it. It must
have no switch, no text that the quotes cannot hold as it is, no number that is not finite and no
variable without a name; of its numbers it is assumed that the numeral of a finite number without
sign stands for that number. -/
theorem Program.ofText_render {source : String} {p : Program}
    (hread : Program.ofText source = .ok p)
    (hswitch : Leaf.switch ∉ p.leaves)
    (htext : ∀ s, Leaf.text s ∈ p.leaves → IsQuotable s)
    (hfinite : ∀ x, Leaf.number x ∈ p.leaves → Number.isFinite x = true)
    (hvariable : ∀ scope name, Leaf.variable scope name ∈ p.leaves → name ≠ "")
    (hnumeral : ∀ x, Leaf.number x ∈ p.leaves → Number.isFinite x = true → Number.Unsigned x →
      Number.ofLiteral? (Number.toNumeral x).toList = some x) :
    Program.ofText p.render = .ok p := by
  have hfrom := Program.from_of_ofStream hread (Stream.forall_ofCursor lexical_of_lexeme _)
  refine Program.ofText_render_of_printable fun l hl => ?_
  have hl' := hfrom l hl
  cases l with
  | number x =>
    have hsign := unsigned_of_from hl'
    exact ⟨isNumeral_toNumeral (hfinite x hl) hsign, hnumeral x hl (hfinite x hl) hsign⟩
  | text s => exact htext s hl
  | name s => exact hl'
  | «variable» scope path =>
    cases scope with
    | «local» => exact hl'
    | global => exact hl' (hvariable _ _ hl)
  | switch => exact absurd hl hswitch

/-- The expression `-%n.x @ "a" @ 1.50`. -/
def negatedField : Expr :=
  .binary .concat (.binary .concat
    (.unary .negate (.read (.field (.read (.variable .local "n" [])) "x" []))) (.text "a"))
    (.number 1.5)

theorem ofText_negatedField :
    Program.ofText "return -%n.x @ \"a\" @ 1.50;" = .ok [.return (some negatedField)] := by
  have htokens : Stream.ofText "return -%n.x @ \"a\" @ 1.50;" =
      .cons ⟨.keyword .return, ⟨1, 1⟩⟩ (.cons ⟨.symbol .minus, ⟨1, 8⟩⟩
        (.cons ⟨.localVariable "n", ⟨1, 9⟩⟩ (.cons ⟨.symbol .dot, ⟨1, 11⟩⟩
          (.cons ⟨.name "x", ⟨1, 12⟩⟩ (.cons ⟨.symbol .concat, ⟨1, 14⟩⟩
            (.cons ⟨.text "a", ⟨1, 16⟩⟩ (.cons ⟨.symbol .concat, ⟨1, 20⟩⟩
              (.cons ⟨.numeral "1.50", ⟨1, 22⟩⟩ (.cons ⟨.symbol .semicolon, ⟨1, 26⟩⟩
                (.finish ⟨1, 27⟩)))))))))) := by
    decide +kernel
  have hnumeral : Number.ofLiteral? "1.50".toList = some 1.5 := by decide +kernel
  unfold Program.ofText negatedField
  rw [htokens]
  have hvariable : ∀ {m p rest}, Spells (.expression m (.read (.variable .local "n" [])))
      (.cons ⟨.localVariable "n", p⟩ rest) rest :=
    @fun _ _ _ => @Spells.variable .local _ _ _ _ _ _ .noSubscripts
  exact Completes.ofStream (Says.completes (says_return (.present (.binary (by decide)
    (.binary (Nat.le_refl _) (.unary (by decide) (.field (by decide) hvariable .noSubscripts))
      .text)
    (.number hnumeral)))) completes_finish)

theorem ofText_render_negatedField :
    Program.ofText "return -%n.x @ \"a\" @ 1.50;" = .ok [.return (some negatedField)] ∧
      Program.ofText (Program.render [.return (some negatedField)]) =
        .ok [.return (some negatedField)] := by
  have hleaves : Program.leaves [.return (some negatedField)] =
      [.variable .local "n", .name "x", .text "a", .number 1.5] := by
    simp [Program.leaves, leavesOfBody, Statement.leaves, leavesOfOption, negatedField, Expr.leaves,
      Place.leaves, leavesOfList]
  refine ⟨ofText_negatedField, Program.ofText_render ofText_negatedField ?_ ?_ ?_ ?_ ?_⟩
  all_goals
    rw [hleaves]
    simp only [List.mem_cons, List.not_mem_nil, or_false, reduceCtorEq, false_or, or_self,
      not_false_eq_true, Leaf.text.injEq, Leaf.number.injEq, Leaf.variable.injEq]
  · rintro s rfl c hc
    obtain rfl : c = 'a' := by simpa using hc
    decide
  · rintro x rfl
    decide +kernel
  · rintro scope name ⟨rfl, rfl⟩
    decide
  · rintro x rfl _ _
    decide +kernel

end TorqueScript
