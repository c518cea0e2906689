import TorqueScript.Proofs.Program.StatementReaders
import TorqueScript.Proofs.Program.Completeness

/-!
The tokens of each kind of statement, and that they are read as that statement. A
statement is described together with what follows it: semicolons may stand in
between, and an `else` must not follow, since it would belong to the statement.
-/

namespace TorqueScript.Parse

open Result

/-- No mistake follows, and the next token neither is skipped nor goes on with a statement. -/
structure Detached (s : Stream) : Prop where
  settled : Settled s
  plain : isSymbol .semicolon s = false
  apart : isNext (.keyword .else) s = false

/-- The statement stands at the beginning of `s`, and `rest` is what follows it. -/
def Says (st : Statement) (s rest : Stream) : Prop :=
  Detached rest → Detached s ∧ isSymbol .closeBrace s = false ∧
    ∃ mid, (statement s).Reads st mid ∧ Semicolons mid rest

/-- The statements stand at the beginning of `s` with the brace that closes them. -/
def Fills (b : List Statement) (s rest : Stream) : Prop :=
  Settled rest → Detached s ∧
    ∀ opened s₀, Semicolons s₀ s → (statementsUntilBrace opened s₀).Reads b rest

/-- The statements stand at the beginning of `s` in braces. -/
def Encloses (b : List Statement) (s rest : Stream) : Prop :=
  Settled rest → Settled s ∧ (block s).Reads b rest ∧ (body s).Reads b rest

/-- The parameters stand at the beginning of `s`, and the parenthesis that closes them follows. -/
def Lists (names : List String) (s rest : Stream) : Prop :=
  Settled rest → isSymbol .closeParen rest = true → Settled s ∧ (parameters s).Reads names rest

/-- The function stands at the beginning of `s`. -/
def Declares (f : FunctionDecl) (s rest : Stream) : Prop :=
  Settled rest → ∃ p s', s = .cons ⟨.keyword .function, p⟩ s' ∧ Settled s' ∧
    (function s).Reads f rest

/-- The functions stand at the beginning of `s` with the brace that closes them. -/
def Packs (fs : List FunctionDecl) (s rest : Stream) : Prop :=
  Settled rest → Settled s ∧ ∀ opened, (functionsUntilBrace opened s).Reads fs rest

section

variable {s s' rest mid : Stream} {p q r : Position} {st : Statement} {b : List Statement}

theorem exists_cons_of_reads {α : Type} {r : Result α s.length} {a : α} (h : r.Reads a rest) :
    ∃ t s', s = .cons t s' := by
  cases s with
  | finish p => exact absurd h.lt (Nat.not_lt_zero _)
  | failure e => exact absurd h.lt (Nat.not_lt_zero _)
  | cons t s' => exact ⟨t, s', rfl⟩

theorem eq_keyword_of_nextKeyword {t : Located} {k : Keyword}
    (h : nextKeyword (.cons t s) = some k) : t.token = .keyword k := by
  obtain ⟨token, p⟩ := t
  cases token with
  | keyword k' => exact congrArg Token.keyword (Option.some.inj h)
  | _ => cases h

theorem fills_close : Fills [] (.cons ⟨.symbol .closeBrace, p⟩ rest) rest := by
  intro hrest
  have hsettled : Settled (.cons ⟨.symbol .closeBrace, p⟩ rest) := hrest.cons
  refine ⟨⟨hsettled, rfl, rfl⟩, fun opened s₀ hs₀ => ?_⟩
  refine (statementsUntilBrace_cons (skipSemicolons_reads hs₀ hsettled rfl)).2 ?_
  simp [hrest]

theorem Says.fills (h : Says st s mid) (hb : Fills b mid rest) : Fills (st :: b) s rest := by
  intro hrest
  obtain ⟨hmid, hb⟩ := hb hrest
  obtain ⟨hs, hbrace, after, hread, hafter⟩ := h hmid
  refine ⟨hs, fun opened s₀ hs₀ => ?_⟩
  have hskip := skipSemicolons_reads hs₀ hs.settled hs.plain
  obtain ⟨t, s', rfl⟩ := exists_cons_of_reads hread
  refine (statementsUntilBrace_cons hskip).2 ?_
  have ht : t.token ≠ .symbol .closeBrace := by simpa [isSymbol, isNext] using hbrace
  rw [if_neg ht]
  exact ⟨st, after, hread, b, rfl, hb opened after hafter⟩

theorem Fills.encloses (h : Fills b s rest) :
    Encloses b (.cons ⟨.symbol .openBrace, p⟩ s) rest := by
  intro hrest
  obtain ⟨hs, hb⟩ := h hrest
  have hblock : (block (.cons ⟨.symbol .openBrace, p⟩ s)).Reads b rest :=
    block_reads.2 ⟨p, s, expectSymbol_reads.2 ⟨rfl, hs.settled⟩, hb p s .none⟩
  refine ⟨hs.settled.cons, hblock, body_reads.2 ?_⟩
  rw [if_pos (by simp [isSymbol, isNext])]
  exact hblock

theorem says_of_keyword {k : Keyword} (hk : k ≠ .else)
    (h : Detached rest → Settled s ∧
      ∃ mid, (statement (.cons ⟨.keyword k, p⟩ s)).Reads st mid ∧ Semicolons mid rest) :
    Says st (.cons ⟨.keyword k, p⟩ s) rest := by
  intro hrest
  obtain ⟨hs, hread⟩ := h hrest
  exact ⟨⟨hs.cons, rfl, by simpa [isNext] using hk⟩, rfl, hread⟩

/-- A condition in parentheses. -/
theorem condition_of_spells {c : Expr}
    (hc : Spells (.expression Level.assignment c) s (.cons ⟨.symbol .closeParen, q⟩ rest))
    (hrest : Settled rest) :
    Settled s ∧ (condition (.cons ⟨.symbol .openParen, p⟩ s)).Reads c rest := by
  have hs := settled_of_spells hc hrest.cons
  have hread := (isRead_of_spells hc).lowest (ends_closer (by simp [closers]) hrest)
  exact ⟨hs, condition_reads.2 ⟨p, s, expectSymbol_reads.2 ⟨rfl, hs⟩, c, _, hread,
    ⟨q, expectSymbol_reads.2 ⟨rfl, hrest⟩⟩, rfl⟩⟩

theorem says_while {c : Expr}
    (hc : Spells (.expression Level.assignment c) s (.cons ⟨.symbol .closeParen, r⟩ mid))
    (hb : Encloses b mid rest) :
    Says (.whileLoop c b) (.cons ⟨.keyword .while, p⟩ (.cons ⟨.symbol .openParen, q⟩ s)) rest := by
  refine says_of_keyword (by decide) fun hrest => ?_
  obtain ⟨hmid, -, hbody⟩ := hb hrest.settled
  obtain ⟨hs, hcondition⟩ := condition_of_spells hc hmid
  refine ⟨hs.cons, rest, (statement_while rfl).2 ?_, .none⟩
  exact ⟨p, _, expect_reads.2 ⟨rfl, hs.cons⟩, c, mid, hcondition, b, rfl, hbody⟩

theorem says_if {c : Expr}
    (hc : Spells (.expression Level.assignment c) s (.cons ⟨.symbol .closeParen, r⟩ mid))
    (hb : Encloses b mid rest) :
    Says (.branch c b none) (.cons ⟨.keyword .if, p⟩ (.cons ⟨.symbol .openParen, q⟩ s)) rest := by
  refine says_of_keyword (by decide) fun hrest => ?_
  obtain ⟨hmid, -, hbody⟩ := hb hrest.settled
  obtain ⟨hs, hcondition⟩ := condition_of_spells hc hmid
  refine ⟨hs.cons, rest, (statement_if rfl).2 ?_, .none⟩
  refine ⟨p, _, expect_reads.2 ⟨rfl, hs.cons⟩, c, mid, hcondition, b, rest, hbody, ?_⟩
  simp [hrest.apart]

/-- A conditional on one statement, with no braces around it. -/
theorem says_if_statement {c : Expr}
    (hc : Spells (.expression Level.assignment c) s (.cons ⟨.symbol .closeParen, r⟩ mid))
    (hst : Says st mid rest) (hbrace : isSymbol .openBrace mid = false) :
    Says (.branch c [st] none) (.cons ⟨.keyword .if, p⟩ (.cons ⟨.symbol .openParen, q⟩ s))
      rest := by
  refine says_of_keyword (by decide) fun hrest => ?_
  obtain ⟨hmid, -, after, hread, hafter⟩ := hst hrest
  obtain ⟨hs, hcondition⟩ := condition_of_spells hc hmid.settled
  have hbody : (body mid).Reads [st] after := body_reads.2 (by simp [hbrace, hread])
  have hapart : isNext (.keyword .else) after = false := by
    cases hafter with
    | none => exact hrest.apart
    | more => rfl
  refine ⟨hs.cons, after, (statement_if rfl).2 ?_, hafter⟩
  refine ⟨p, _, expect_reads.2 ⟨rfl, hs.cons⟩, c, mid, hcondition, [st], after, hbody, ?_⟩
  simp [hapart]

theorem says_ifElse {c : Expr} {b' : List Statement} {o : Position}
    (hc : Spells (.expression Level.assignment c) s (.cons ⟨.symbol .closeParen, r⟩ mid))
    (hb : Encloses b mid (.cons ⟨.keyword .else, o⟩ s')) (hb' : Encloses b' s' rest) :
    Says (.branch c b (some b')) (.cons ⟨.keyword .if, p⟩ (.cons ⟨.symbol .openParen, q⟩ s))
      rest := by
  refine says_of_keyword (by decide) fun hrest => ?_
  obtain ⟨hs', -, hbody'⟩ := hb' hrest.settled
  obtain ⟨hmid, -, hbody⟩ := hb hs'.cons
  obtain ⟨hs, hcondition⟩ := condition_of_spells hc hmid
  refine ⟨hs.cons, rest, (statement_if rfl).2 ?_, .none⟩
  refine ⟨p, _, expect_reads.2 ⟨rfl, hs.cons⟩, c, mid, hcondition, b, _, hbody, ?_⟩
  rw [if_pos (by simp [isNext])]
  exact ⟨o, s', expect_reads.2 ⟨rfl, hs'⟩, b', rfl, hbody'⟩

theorem says_for {i c u : Option Expr} {s₁ s₂ s₃ : Stream} {p₁ p₂ p₃ : Position}
    (hi : Spells (.optional i) s (.cons ⟨.symbol .semicolon, p₁⟩ s₁))
    (hc : Spells (.optional c) s₁ (.cons ⟨.symbol .semicolon, p₂⟩ s₂))
    (hu : Spells (.optional u) s₂ (.cons ⟨.symbol .closeParen, p₃⟩ s₃))
    (hb : Encloses b s₃ rest) :
    Says (.forLoop i c u b) (.cons ⟨.keyword .for, p⟩ (.cons ⟨.symbol .openParen, q⟩ s)) rest := by
  refine says_of_keyword (by decide) fun hrest => ?_
  obtain ⟨hs₃, -, hbody⟩ := hb hrest.settled
  have hs₂ := settled_of_spells hu hs₃.cons
  have hs₁ := settled_of_spells hc hs₂.cons
  have hs := settled_of_spells hi hs₁.cons
  have hclose : ∀ x ∈ [Symbol.semicolon, .closeParen], x ∈ closers := by decide
  have hinit := isRead_of_spells hi .semicolon (hclose _ (by simp)) _ _ rfl hs₁
  have hcondition := isRead_of_spells hc .semicolon (hclose _ (by simp)) _ _ rfl hs₂
  have hupdate := isRead_of_spells hu .closeParen (hclose _ (by simp)) _ _ rfl hs₃
  refine ⟨hs.cons, rest, (statement_for rfl).2 ?_, .none⟩
  exact ⟨p, _, expect_reads.2 ⟨rfl, hs.cons⟩, q, s, expectSymbol_reads.2 ⟨rfl, hs⟩, i, _, hinit,
    p₁, s₁, expectSymbol_reads.2 ⟨rfl, hs₁⟩, c, _, hcondition, p₂, s₂,
    expectSymbol_reads.2 ⟨rfl, hs₂⟩, u, _, hupdate, p₃, s₃, expectSymbol_reads.2 ⟨rfl, hs₃⟩, b, rfl,
    hbody⟩

/-- A statement that is one keyword. -/
theorem says_bare {k : Keyword} (hk : k ≠ .else) (h : ∀ s rest, nextKeyword s = some k →
      ((statement s).Reads st rest ↔ (bareStatement k st s).Reads st rest)) :
    Says st (.cons ⟨.keyword k, p⟩ (.cons ⟨.symbol .semicolon, q⟩ rest)) rest := by
  refine says_of_keyword hk fun hrest => ?_
  have hs := hrest.settled
  refine ⟨hs.cons, rest, (h _ _ rfl).2 (bareStatement_reads.2 ?_), .none⟩
  exact ⟨p, _, expect_reads.2 ⟨rfl, hs.cons⟩, ⟨q, expectSymbol_reads.2 ⟨rfl, hs⟩⟩, rfl⟩

theorem says_return {value : Option Expr}
    (h : Spells (.optional value) s (.cons ⟨.symbol .semicolon, q⟩ rest)) :
    Says (.return value) (.cons ⟨.keyword .return, p⟩ s) rest := by
  refine says_of_keyword (by decide) fun hrest => ?_
  have hs := settled_of_spells h hrest.settled.cons
  have hvalue := isRead_of_spells h .semicolon (by simp [closers]) _ _ rfl hrest.settled
  refine ⟨hs, rest, (statement_return rfl).2 (returnStatement_reads.2 ?_), .none⟩
  exact ⟨p, s, expect_reads.2 ⟨rfl, hs⟩, value, _, hvalue,
    ⟨q, expectSymbol_reads.2 ⟨rfl, hrest.settled⟩⟩, rfl⟩

theorem says_expr {e : Expr}
    (h : Spells (.expression Level.assignment e) s (.cons ⟨.symbol .semicolon, q⟩ rest)) :
    Says (.expr e) s rest := by
  intro hrest
  have hs := settled_of_spells h hrest.settled.cons
  have hread := (isRead_of_spells h).lowest (ends_closer (by simp [closers]) hrest.settled)
  obtain ⟨left, mid, hleft, -⟩ := expression_reads.1 hread
  obtain ⟨t, s', rfl, ht⟩ := operand_start hleft
  have hnext : ∀ u : Token, Opening.ofToken? u = none → isNext u (.cons t s') = false := by
    intro u hu
    simp only [isNext, decide_eq_false_iff_not]
    rintro rfl
    exact ht hu
  have hkeyword : ∀ k ∈ statementKeywords, nextKeyword (.cons t s') ≠ some k := by
    intro k hk hnextk
    have hnone : ∀ k ∈ statementKeywords, (Opening.ofToken? (.keyword k)).isNone = true := by decide
    exact ht (eq_keyword_of_nextKeyword hnextk ▸ Option.isNone_iff_eq_none.1 (hnone k hk))
  refine ⟨⟨hs, hnext _ rfl, hnext _ rfl⟩, hnext _ rfl, rest, ?_, .none⟩
  exact (statement_expression hkeyword).2 (expressionStatement_reads.2 ⟨e, _, hread,
    ⟨q, expectSymbol_reads.2 ⟨rfl, hrest.settled⟩⟩, rfl⟩)

end

/-- The tokens of a name with its qualifier. -/
def nameTokens : Option String → String → List Token
  | none, name => [.name name]
  | some qualifier, name => [.name qualifier, .symbol .doubleColon, .name name]

section

variable {s s₁ s₂ rest mid : Stream} {p q r : Position} {qualifier : Option String} {name : String}
  {names : List String} {b : List Statement} {f : FunctionDecl} {fs : List FunctionDecl}

theorem qualifiedName_of_begins (h : Begins (nameTokens qualifier name) s rest)
    (hrest : Settled rest) (hcolon : isSymbol .doubleColon rest = false) :
    Settled s ∧ (qualifiedName s).Reads (qualifier, name) rest := by
  cases qualifier with
  | none =>
    obtain ⟨p, _, rfl, rfl⟩ := h
    refine ⟨hrest.cons, qualifiedName_reads.2 ⟨name, _, expectName_reads.2 ⟨p, rfl, hrest⟩, ?_⟩⟩
    simp [hcolon]
  | some first =>
    obtain ⟨p, _, rfl, q, _, rfl, r, _, rfl, rfl⟩ := h
    refine ⟨hrest.cons.cons.cons, qualifiedName_reads.2 ⟨first, _,
      expectName_reads.2 ⟨p, rfl, hrest.cons.cons⟩, ?_⟩⟩
    rw [if_pos (by simp [isSymbol, isNext])]
    exact ⟨q, _, expectSymbol_reads.2 ⟨rfl, hrest.cons⟩, expectName_reads.2 ⟨r, rfl, hrest⟩, rfl⟩

theorem lists_nil : Lists [] rest rest :=
  fun hrest hclose => ⟨hrest, (parameters_close hclose).2 ⟨rfl, rfl⟩⟩

theorem lists_last : Lists [name] (.cons ⟨.localVariable name, p⟩ rest) rest := by
  intro hrest hclose
  refine ⟨hrest.cons, parameters_cons.2 ⟨hrest, ?_⟩⟩
  simp [hclose]

theorem Lists.next (h : Lists names s rest) :
    Lists (name :: names) (.cons ⟨.localVariable name, p⟩ (.cons ⟨.symbol .comma, q⟩ s)) rest := by
  intro hrest hclose
  obtain ⟨hs, hread⟩ := h hrest hclose
  refine ⟨hs.cons.cons, parameters_cons.2 ⟨hs.cons, ?_⟩⟩
  rw [if_neg (by simp [isSymbol, isNext])]
  exact ⟨q, s, expectSymbol_reads.2 ⟨rfl, hs⟩, names, hread, rfl⟩

theorem declares_function
    (hname : Begins (nameTokens qualifier name) s (.cons ⟨.symbol .openParen, q⟩ s₁))
    (hnames : Lists names s₁ (.cons ⟨.symbol .closeParen, r⟩ s₂)) (hb : Encloses b s₂ rest) :
    Declares ⟨qualifier, name, names, b⟩ (.cons ⟨.keyword .function, p⟩ s) rest := by
  intro hrest
  obtain ⟨hs₂, hblock, -⟩ := hb hrest
  obtain ⟨hs₁, hparameters⟩ := hnames hs₂.cons (by simp [isSymbol, isNext])
  obtain ⟨hs, hqualified⟩ := qualifiedName_of_begins hname hs₁.cons rfl
  refine ⟨p, s, rfl, hs, function_reads.2 ?_⟩
  exact ⟨p, s, expect_reads.2 ⟨rfl, hs⟩, qualifier, name, _, hqualified, q, s₁,
    expectSymbol_reads.2 ⟨rfl, hs₁⟩, names, _, hparameters, r, s₂,
    expectSymbol_reads.2 ⟨rfl, hs₂⟩, b, rfl, hblock⟩

theorem Declares.says (h : Declares f s rest) : Says (.function f) s rest := by
  intro hrest
  obtain ⟨p, s', rfl, hs', hread⟩ := h hrest.settled
  exact ⟨⟨hs'.cons, rfl, rfl⟩, rfl, rest, (statement_function rfl).2 ⟨f, rfl, hread⟩, .none⟩

theorem packs_close : Packs [] (.cons ⟨.symbol .closeBrace, p⟩ rest) rest := by
  intro hrest
  have hsettled : Settled (.cons ⟨.symbol .closeBrace, p⟩ rest) := hrest.cons
  exact ⟨hsettled, fun opened =>
    (functionsUntilBrace_close (skipSemicolons_reads .none hsettled rfl)).2 ⟨hrest, rfl, rfl⟩⟩

theorem Declares.packs (h : Declares f s mid) (hfs : Packs fs mid rest) :
    Packs (f :: fs) s rest := by
  intro hrest
  obtain ⟨hmid, hothers⟩ := hfs hrest
  obtain ⟨p, s', rfl, hs', hread⟩ := h hmid
  refine ⟨hs'.cons, fun opened => ?_⟩
  exact (functionsUntilBrace_function (skipSemicolons_reads .none hs'.cons rfl)).2
    ⟨f, mid, hread, fs, rfl, hothers opened⟩

/-- The semicolon after a package is not part of it. -/
theorem says_package {o : Position} (h : Packs fs s (.cons ⟨.symbol .semicolon, o⟩ rest)) :
    Says (.package name fs) (.cons ⟨.keyword .package, p⟩ (.cons ⟨.name name, q⟩
      (.cons ⟨.symbol .openBrace, r⟩ s))) rest := by
  refine says_of_keyword (by decide) fun hrest => ?_
  obtain ⟨hs, hread⟩ := h hrest.settled.cons
  refine ⟨hs.cons.cons, .cons ⟨.symbol .semicolon, o⟩ rest, (statement_package rfl).2 ?_,
    .more .none⟩
  exact ⟨p, _, expect_reads.2 ⟨rfl, hs.cons.cons⟩, name, _, expectName_reads.2 ⟨q, rfl, hs.cons⟩, r,
    s, expectSymbol_reads.2 ⟨rfl, hs⟩, fs, rfl, hread r⟩

/-- The tokens of the datablock that another one inherits from. -/
def parentTokens : Option String → List Token
  | none => []
  | some name => [.symbol .colon, .name name]

theorem parentName_of_begins {parent : Option String} (h : Begins (parentTokens parent) s rest)
    (hrest : Settled rest) (hcolon : isSymbol .colon rest = false) :
    Settled s ∧ (parentName s).Reads parent rest := by
  cases parent with
  | none =>
    obtain rfl := h
    exact ⟨hrest, parentName_reads.2 (by simp [hcolon])⟩
  | some name =>
    obtain ⟨p, _, rfl, q, _, rfl, rfl⟩ := h
    refine ⟨hrest.cons.cons, parentName_reads.2 ?_⟩
    rw [if_pos (by simp [isSymbol, isNext])]
    exact ⟨p, _, expectSymbol_reads.2 ⟨rfl, hrest.cons⟩, name, expectName_reads.2 ⟨q, rfl, hrest⟩,
      rfl⟩

theorem says_datablock {className : String} {parent : Option String} {fields : List FieldInit}
    {p₁ p₂ p₃ p₄ o : Position}
    (hparent : Begins (parentTokens parent) s (.cons ⟨.symbol .openBrace, q⟩ s₁))
    (hfields : Spells (.items fields []) s₁ (.cons ⟨.symbol .semicolon, o⟩ rest)) :
    Says (.datablock ⟨className, name, parent, fields⟩) (.cons ⟨.keyword .datablock, p⟩
      (.cons ⟨.name className, p₁⟩ (.cons ⟨.symbol .openParen, p₂⟩ (.cons ⟨.name name, p₃⟩
        (.cons ⟨.symbol .closeParen, p₄⟩ s))))) rest := by
  refine says_of_keyword (by decide) fun hrest => ?_
  have hs₁ := settled_of_spells hfields hrest.settled.cons
  obtain ⟨hs, hread⟩ := parentName_of_begins hparent hs₁.cons rfl
  have hitems := isRead_of_spells hfields hrest.settled.cons q
  have hblock := objectBlock_reads.2 ⟨q, s₁, expectSymbol_reads.2 ⟨rfl, hs₁⟩, hitems⟩
  refine ⟨hs.cons.cons.cons.cons, rest, (statement_datablock rfl).2 (datablock_reads.2 ?_), .none⟩
  exact ⟨p, _, expect_reads.2 ⟨rfl, hs.cons.cons.cons.cons⟩, className, _,
    expectName_reads.2 ⟨p₁, rfl, hs.cons.cons.cons⟩, p₂, _,
    expectSymbol_reads.2 ⟨rfl, hs.cons.cons⟩, name, _, expectName_reads.2 ⟨p₃, rfl, hs.cons⟩, p₄, s,
    expectSymbol_reads.2 ⟨rfl, hs⟩, parent, _, hread, fields, _, datablockFields_reads.2 hblock,
    ⟨o, expectSymbol_reads.2 ⟨rfl, hrest.settled⟩⟩, rfl⟩

end

/-- The statements stand at the beginning of `s`, and nothing follows them. -/
def Completes (b : List Statement) (s : Stream) : Prop :=
  Detached s ∧ ∀ s₀, Semicolons s₀ s → statements s₀ = .ok b

theorem completes_finish {p : Position} : Completes [] (.finish p) := by
  refine ⟨⟨rfl, rfl, rfl⟩, fun s₀ hs₀ => ?_⟩
  exact statements_eq_ok.2 ⟨_, skipSemicolons_reads hs₀ rfl rfl, .inl ⟨p, rfl, rfl⟩⟩

theorem Says.completes {st : Statement} {b : List Statement} {s mid : Stream} (h : Says st s mid)
    (hb : Completes b mid) : Completes (st :: b) s := by
  obtain ⟨hs, -, after, hread, hafter⟩ := h hb.1
  refine ⟨hs, fun s₀ hs₀ => ?_⟩
  have hskip := skipSemicolons_reads hs₀ hs.settled hs.plain
  obtain ⟨t, s', rfl⟩ := exists_cons_of_reads hread
  exact statements_eq_ok.2
    ⟨_, hskip, .inr ⟨t, s', rfl, st, after, hread, b, hb.2 after hafter, rfl⟩⟩

theorem Completes.ofStream {b : List Statement} {s : Stream} (h : Completes b s) :
    Program.ofStream s = .ok b := by
  have hlook : lookAhead s = .ok () := h.1.settled
  unfold Program.ofStream
  rw [hlook]
  exact h.2 s .none

end TorqueScript.Parse
