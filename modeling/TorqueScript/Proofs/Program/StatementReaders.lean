import TorqueScript.Proofs.Program.Readers

/-!
What the readers of statements read, in terms of the readers that they call.
-/

namespace TorqueScript.Parse

open Except Result

section

variable {s rest : Stream}

@[simp]
theorem stay_reads {α : Type} {a b : α} : (stay a s).Reads b rest ↔ a = b ∧ s = rest := by
  simp [stay]

theorem condition_reads {e : Expr} :
    (condition s).Reads e rest ↔
      ∃ p mid, (expectSymbol .openParen s).Reads p mid ∧
        ∃ e' mid', (expression Level.lowest mid).Reads e' mid' ∧
          (∃ q, (expectSymbol .closeParen mid').Reads q rest) ∧ e' = e := by
  simp [condition]

theorem parameters_close {names : List String} (h : isSymbol .closeParen s = true) :
    (parameters s).Reads names rest ↔ [] = names ∧ s = rest := by
  rw [parameters.eq_def]
  simp [h]

theorem parameters_cons {name : String} {p : Position} {after : Stream} {names : List String} :
    (parameters (.cons ⟨.localVariable name, p⟩ after)).Reads names rest ↔ Settled after ∧
      if isSymbol .closeParen after then [name] = names ∧ after = rest
      else ∃ q mid, (expectSymbol .comma after).Reads q mid ∧
        ∃ others, (parameters mid).Reads others rest ∧ name :: others = names := by
  rw [parameters.eq_def, if_neg (by simp [isSymbol, isNext])]
  refine reads_lookAhead.trans (and_congr_right fun _ => reads_ite.trans ?_)
  by_cases h : isSymbol .closeParen after = true
  · rw [if_pos h, if_pos h]
    exact reads_weaken.trans stay_reads
  · rw [if_neg h, if_neg h]
    simp

theorem qualifiedName_reads {qualifier : Option String} {name : String} :
    (qualifiedName s).Reads (qualifier, name) rest ↔
      ∃ first mid, (expectName s).Reads first mid ∧
        if isSymbol .doubleColon mid then
          ∃ p mid', (expectSymbol .doubleColon mid).Reads p mid' ∧
            (expectName mid').Reads name rest ∧ some first = qualifier
        else (none = qualifier ∧ first = name) ∧ mid = rest := by
  simp [qualifiedName]

theorem parentName_reads {parent : Option String} :
    (parentName s).Reads parent rest ↔
      if isSymbol .colon s then
        ∃ p mid, (expectSymbol .colon s).Reads p mid ∧
          ∃ name, (expectName mid).Reads name rest ∧ some name = parent
      else none = parent ∧ s = rest := by
  simp [parentName]

theorem datablockFields_reads {fields : List FieldInit} :
    (datablockFields s).Reads fields rest ↔ (objectBlock s).Reads (fields, []) rest := by
  have hblock : (datablockFields s).Reads fields rest ↔
      ∃ a b mid, (objectBlock s).Reads (a, b) mid ∧ b = [] ∧ a = fields ∧ mid = rest := by
    simp [datablockFields]
  rw [hblock]
  constructor
  · rintro ⟨_, _, _, h, rfl, rfl, rfl⟩
    exact h
  · exact fun h => ⟨_, _, _, h, rfl, rfl, rfl⟩

theorem datablock_reads {st : Statement} :
    (datablock s).Reads st rest ↔
      ∃ p s₁, (expect (.keyword .datablock) s).Reads p s₁ ∧
        ∃ className s₂, (expectName s₁).Reads className s₂ ∧
          ∃ p₂ s₃, (expectSymbol .openParen s₂).Reads p₂ s₃ ∧
            ∃ name s₄, (expectName s₃).Reads name s₄ ∧
              ∃ p₄ s₅, (expectSymbol .closeParen s₄).Reads p₄ s₅ ∧
                ∃ parent s₆, (parentName s₅).Reads parent s₆ ∧
                  ∃ fields s₇, (datablockFields s₆).Reads fields s₇ ∧
                    (∃ p₇, (expectSymbol .semicolon s₇).Reads p₇ rest) ∧
                      .datablock ⟨className, name, parent, fields⟩ = st := by
  simp [datablock]

theorem bareStatement_reads {k : Keyword} {st st' : Statement} :
    (bareStatement k st s).Reads st' rest ↔
      ∃ p mid, (expect (.keyword k) s).Reads p mid ∧
        (∃ q, (expectSymbol .semicolon mid).Reads q rest) ∧ st = st' := by
  simp [bareStatement]

theorem returnStatement_reads {st : Statement} :
    (returnStatement s).Reads st rest ↔
      ∃ p mid, (expect (.keyword .return) s).Reads p mid ∧
        ∃ value mid', (optional .semicolon mid).Reads value mid' ∧
          (∃ q, (expectSymbol .semicolon mid').Reads q rest) ∧ .return value = st := by
  simp [returnStatement]

theorem expressionStatement_reads {st : Statement} :
    (expressionStatement s).Reads st rest ↔
      ∃ e mid, (expression Level.lowest s).Reads e mid ∧
        (∃ q, (expectSymbol .semicolon mid).Reads q rest) ∧ .expr e = st := by
  simp [expressionStatement]

theorem block_reads {b : List Statement} :
    (block s).Reads b rest ↔
      ∃ opened mid, (expectSymbol .openBrace s).Reads opened mid ∧
        (statementsUntilBrace opened mid).Reads b rest := by
  rw [block]
  simp

theorem body_reads {b : List Statement} :
    (body s).Reads b rest ↔
      if isSymbol .openBrace s then (block s).Reads b rest
      else ∃ only, [only] = b ∧ (statement s).Reads only rest := by
  rw [body]
  simp

theorem function_reads {f : FunctionDecl} :
    (function s).Reads f rest ↔
      ∃ p s₁, (expect (.keyword .function) s).Reads p s₁ ∧
        ∃ qualifier name s₂, (qualifiedName s₁).Reads (qualifier, name) s₂ ∧
          ∃ p₂ s₃, (expectSymbol .openParen s₂).Reads p₂ s₃ ∧
            ∃ names s₄, (parameters s₃).Reads names s₄ ∧
              ∃ p₄ s₅, (expectSymbol .closeParen s₄).Reads p₄ s₅ ∧
                ∃ b, ⟨qualifier, name, names, b⟩ = f ∧ (block s₅).Reads b rest := by
  rw [function]
  simp

end

section

variable {s rest : Stream} {st : Statement}

theorem statement_function (hk : nextKeyword s = some .function) :
    (statement s).Reads st rest ↔ ∃ f, .function f = st ∧ (function s).Reads f rest := by
  rw [statement]
  simp [hk]

theorem statement_package (hk : nextKeyword s = some .package) :
    (statement s).Reads st rest ↔
      ∃ p s₁, (expect (.keyword .package) s).Reads p s₁ ∧
        ∃ name s₂, (expectName s₁).Reads name s₂ ∧
          ∃ opened s₃, (expectSymbol .openBrace s₂).Reads opened s₃ ∧
            ∃ functions, .package name functions = st ∧
              (functionsUntilBrace opened s₃).Reads functions rest := by
  rw [statement]
  simp [hk]

theorem statement_datablock (hk : nextKeyword s = some .datablock) :
    (statement s).Reads st rest ↔ (datablock s).Reads st rest := by
  rw [statement]
  simp [hk]

theorem statement_if (hk : nextKeyword s = some .if) :
    (statement s).Reads st rest ↔
      ∃ p s₁, (expect (.keyword .if) s).Reads p s₁ ∧
        ∃ c s₂, (condition s₁).Reads c s₂ ∧
          ∃ consequence s₃, (body s₂).Reads consequence s₃ ∧
            if isNext (.keyword .else) s₃ then
              ∃ q s₄, (expect (.keyword .else) s₃).Reads q s₄ ∧
                ∃ alternative, .branch c consequence (some alternative) = st ∧
                  (body s₄).Reads alternative rest
            else .branch c consequence none = st ∧ s₃ = rest := by
  rw [statement]
  simp [hk]

theorem statement_while (hk : nextKeyword s = some .while) :
    (statement s).Reads st rest ↔
      ∃ p s₁, (expect (.keyword .while) s).Reads p s₁ ∧
        ∃ c s₂, (condition s₁).Reads c s₂ ∧
          ∃ b, .whileLoop c b = st ∧ (body s₂).Reads b rest := by
  rw [statement]
  simp [hk]

theorem statement_for (hk : nextKeyword s = some .for) :
    (statement s).Reads st rest ↔
      ∃ p s₁, (expect (.keyword .for) s).Reads p s₁ ∧
        ∃ p₁ s₂, (expectSymbol .openParen s₁).Reads p₁ s₂ ∧
          ∃ init s₃, (optional .semicolon s₂).Reads init s₃ ∧
            ∃ p₃ s₄, (expectSymbol .semicolon s₃).Reads p₃ s₄ ∧
              ∃ c s₅, (optional .semicolon s₄).Reads c s₅ ∧
                ∃ p₅ s₆, (expectSymbol .semicolon s₅).Reads p₅ s₆ ∧
                  ∃ update s₇, (optional .closeParen s₆).Reads update s₇ ∧
                    ∃ p₇ s₈, (expectSymbol .closeParen s₇).Reads p₇ s₈ ∧
                      ∃ b, .forLoop init c update b = st ∧ (body s₈).Reads b rest := by
  rw [statement]
  simp [hk]

theorem statement_break (hk : nextKeyword s = some .break) :
    (statement s).Reads st rest ↔ (bareStatement .break .break s).Reads st rest := by
  rw [statement]
  simp [hk]

theorem statement_continue (hk : nextKeyword s = some .continue) :
    (statement s).Reads st rest ↔ (bareStatement .continue .continue s).Reads st rest := by
  rw [statement]
  simp [hk]

theorem statement_return (hk : nextKeyword s = some .return) :
    (statement s).Reads st rest ↔ (returnStatement s).Reads st rest := by
  rw [statement]
  simp [hk]

/-- The keywords that only statements begin with. -/
def statementKeywords : List Keyword :=
  [.function, .package, .datablock, .if, .while, .for, .switch, .switchText, .break, .continue,
    .return]

theorem statement_expression (hk : ∀ k ∈ statementKeywords, nextKeyword s ≠ some k) :
    (statement s).Reads st rest ↔ (expressionStatement s).Reads st rest := by
  rw [statement]
  split
  all_goals simp_all [statementKeywords]

end

section

variable {opened p : Position} {s after rest : Stream}

theorem functionsUntilBrace_close {fs : List FunctionDecl}
    (h : (skipSemicolons s).Reads () (.cons ⟨.symbol .closeBrace, p⟩ after)) :
    (functionsUntilBrace opened s).Reads fs rest ↔ Settled after ∧ [] = fs ∧ after = rest := by
  rw [functionsUntilBrace, h.bind]
  simp

theorem functionsUntilBrace_function {fs : List FunctionDecl}
    (h : (skipSemicolons s).Reads () (.cons ⟨.keyword .function, p⟩ after)) :
    (functionsUntilBrace opened s).Reads fs rest ↔
      ∃ f mid, (function (.cons ⟨.keyword .function, p⟩ after)).Reads f mid ∧
        ∃ others, f :: others = fs ∧ (functionsUntilBrace opened mid).Reads others rest := by
  rw [functionsUntilBrace, h.bind]
  simp

theorem statementsUntilBrace_cons {t : Located} {b : List Statement}
    (h : (skipSemicolons s).Reads () (.cons t after)) :
    (statementsUntilBrace opened s).Reads b rest ↔
      if t.token = .symbol .closeBrace then Settled after ∧ [] = b ∧ after = rest
      else ∃ first mid, (statement (.cons t after)).Reads first mid ∧
        ∃ others, first :: others = b ∧ (statementsUntilBrace opened mid).Reads others rest := by
  rw [statementsUntilBrace, h.bind]
  simp

/-- Going on after a reading. -/
theorem bind_eq_ok {α β : Type} {n : Nat} {r : Result α n} {f : Parsed α n → Except SourceError β}
    {b : β} :
    r >>= f = .ok b ↔ ∃ a mid, ∃ h : r.Reads a mid, f ⟨a, mid, h.lt⟩ = .ok b := by
  constructor
  · intro h
    cases r with
    | error e => cases h
    | ok p => exact ⟨p.value, p.rest, ⟨p.shorter, rfl⟩, h⟩
  · rintro ⟨a, mid, ⟨_, rfl⟩, h⟩
    exact h

theorem statements_eq_ok {b : List Statement} :
    statements s = .ok b ↔ ∃ mid, (skipSemicolons s).Reads () mid ∧
      ((∃ p, mid = .finish p ∧ [] = b) ∨ ∃ t s', mid = .cons t s' ∧
        ∃ first after, (statement (.cons t s')).Reads first after ∧
          ∃ others, statements after = .ok others ∧ first :: others = b) := by
  rw [statements, bind_eq_ok]
  constructor
  · rintro ⟨_, mid, hs, h⟩
    refine ⟨mid, hs, ?_⟩
    cases mid with
    | finish p => exact .inl ⟨p, rfl, Except.ok.inj h⟩
    | failure e => cases h
    | cons t s' =>
      obtain ⟨first, after, hfirst, h⟩ := bind_eq_ok.1 h
      cases hothers : statements after with
      | error e => simp [hothers, bind, Except.bind] at h
      | ok others =>
        simp only [hothers] at h
        exact .inr ⟨t, s', rfl, first, after, hfirst, others, hothers, Except.ok.inj h⟩
  · rintro ⟨mid, hs, ⟨p, rfl, rfl⟩ | ⟨t, s', rfl, first, after, hfirst, others, hothers, rfl⟩⟩
    · exact ⟨(), _, hs, rfl⟩
    · refine ⟨(), _, hs, bind_eq_ok.2 ⟨first, after, hfirst, ?_⟩⟩
      simp only [hothers]
      rfl

end

end TorqueScript.Parse
