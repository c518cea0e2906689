import TorqueScript.Program.Parse.Statement

/-!
What each reader of the parser reads, in terms of the readers that it calls. A
reading is a value together with the tokens left after it; the bound on their
number is part of the result but not of the statements. Later proofs about
reading use these equivalences and never open a reader again.
-/

namespace TorqueScript.Parse

open Except

/-- The reading succeeds with the value `a` and leaves `rest`. -/
def Result.Reads {α : Type} {n : Nat} (r : Result α n) (a : α) (rest : Stream) : Prop :=
  ∃ h, r = .ok ⟨a, rest, h⟩

/-- No mistake is found in moving to the next token. -/
def Settled (s : Stream) : Prop :=
  lookAhead s = .ok ()

namespace Result

variable {α β : Type} {n m : Nat}

theorem Reads.lt {r : Result α n} {a : α} {rest : Stream} (h : r.Reads a rest) :
    rest.length < n :=
  h.1

@[simp]
theorem reads_ok {a b : α} {s rest : Stream} {h : s.length < n} :
    Reads (.ok ⟨a, s, h⟩ : Result α n) b rest ↔ a = b ∧ s = rest := by
  constructor
  · rintro ⟨_, hr⟩
    simpa using hr
  · rintro ⟨rfl, rfl⟩
    exact ⟨h, rfl⟩

@[simp]
theorem reads_pure {a b : α} {s rest : Stream} {h : s.length < n} :
    Reads (pure ⟨a, s, h⟩ : Result α n) b rest ↔ a = b ∧ s = rest :=
  reads_ok

@[simp]
theorem not_reads_error {e : SourceError} {b : α} {rest : Stream} :
    ¬ Reads (.error e : Result α n) b rest := by
  rintro ⟨_, hr⟩
  cases hr

@[simp]
theorem not_reads_throw {e : SourceError} {b : α} {rest : Stream} :
    ¬ Reads (throw e : Result α n) b rest :=
  not_reads_error

/-- Reading on after `r`. What follows may use the bound on what `r` leaves. -/
@[simp]
theorem reads_bind {r : Result α n} {f : Parsed α n → Result β m} {b : β} {rest : Stream} :
    Reads (r >>= f) b rest ↔
      ∃ a mid, ∃ h : r.Reads a mid, Reads (f ⟨a, mid, h.lt⟩) b rest := by
  constructor
  · intro h
    cases r with
    | error e => exact absurd h not_reads_error
    | ok p => exact ⟨p.value, p.rest, ⟨p.shorter, rfl⟩, h⟩
  · rintro ⟨a, mid, ⟨_, rfl⟩, h⟩
    exact h

/-- Reading on after a reading that is known. -/
theorem Reads.bind {r : Result α n} {f : Parsed α n → Result β m} {a : α} {b : β}
    {mid rest : Stream} (h : r.Reads a mid) :
    Result.Reads (r >>= f) b rest ↔ Result.Reads (f ⟨a, mid, h.lt⟩) b rest := by
  obtain ⟨_, rfl⟩ := h
  rfl

@[simp]
theorem reads_map_parsed {r : Result α n} {f : Parsed α n → Parsed β m} {b : β} {rest : Stream} :
    Reads (f <$> r) b rest ↔
      ∃ a mid, ∃ h : r.Reads a mid, Reads (.ok (f ⟨a, mid, h.lt⟩)) b rest := by
  rw [map_eq_pure_bind, reads_bind]
  rfl

@[simp]
theorem reads_lookAhead {s rest : Stream} {f : Unit → Result β m} {b : β} :
    Reads (lookAhead s >>= f) b rest ↔ Settled s ∧ Reads (f ()) b rest := by
  unfold Settled
  cases lookAhead s with
  | error e => simp [bind, Except.bind]
  | ok u => simp [bind, Except.bind]

@[simp]
theorem reads_map_lookAhead {s rest : Stream} {f : Unit → Parsed β m} {b : β} :
    Reads (f <$> lookAhead s) b rest ↔ Settled s ∧ Reads (.ok (f ())) b rest := by
  rw [map_eq_pure_bind, reads_lookAhead]
  rfl

@[simp]
theorem reads_ite {c : Prop} [Decidable c] {r r' : Result α n} {a : α} {rest : Stream} :
    Reads (if c then r else r') a rest ↔ if c then r.Reads a rest else r'.Reads a rest := by
  split <;> rfl

@[simp]
theorem reads_within {r : Result α n} {h : n ≤ m} {a : α} {rest : Stream} :
    (r.within h).Reads a rest ↔ r.Reads a rest := by
  cases r with
  | error e => simp [within]
  | ok p =>
    obtain ⟨_, _, _⟩ := p
    simp [within]

@[simp]
theorem reads_weaken {r : Result α n} {a : α} {rest : Stream} :
    r.weaken.Reads a rest ↔ r.Reads a rest :=
  reads_within

@[simp]
theorem reads_map {f : α → β} {r : Result α n} {b : β} {rest : Stream} :
    (r.map f).Reads b rest ↔ ∃ a, r.Reads a rest ∧ f a = b := by
  cases r with
  | error e => simp [Result.map]
  | ok p =>
    obtain ⟨a, mid, _⟩ := p
    simp only [Result.map, reads_ok]
    grind

@[simp]
theorem reads_andThenMaybe {r : Result α n} {f : α → (s : Stream) → Result β (s.length + 1)}
    {b : β} {rest : Stream} :
    (r.andThenMaybe f).Reads b rest ↔ ∃ a mid, r.Reads a mid ∧ (f a mid).Reads b rest := by
  cases r with
  | error e => simp [andThenMaybe]
  | ok p =>
    obtain ⟨a, mid, _⟩ := p
    simp only [andThenMaybe, reads_ok]
    constructor
    · intro hr
      refine ⟨a, mid, ⟨rfl, rfl⟩, ?_⟩
      cases h : f a mid with
      | error e => simp [h] at hr
      | ok q =>
        rw [h] at hr
        exact reads_ok.2 (reads_ok.1 hr)
    · rintro ⟨_, _, ⟨rfl, rfl⟩, _, hr⟩
      simp [hr]

@[simp]
theorem reads_andThen {r : Result α n} {f : α → (s : Stream) → Result β s.length} {b : β}
    {rest : Stream} :
    (r.andThen f).Reads b rest ↔ ∃ a mid, r.Reads a mid ∧ (f a mid).Reads b rest := by
  simp [andThen]

theorem andThenMaybe_eq_bind {r : Result α n} {f : α → (s : Stream) → Result β (s.length + 1)} :
    r.andThenMaybe f = r >>= fun p => (f p.value p.rest).within p.shorter := by
  cases r with
  | error e => rfl
  | ok p =>
    change andThenMaybe (.ok p) f = (f p.value p.rest).within p.shorter
    rw [andThenMaybe]
    cases f p.value p.rest <;> rfl

theorem andThen_eq_bind {r : Result α n} {f : α → (s : Stream) → Result β s.length} :
    r.andThen f = r >>= fun p => (f p.value p.rest).within (Nat.le_of_lt p.shorter) := by
  rw [andThen, andThenMaybe_eq_bind]
  cases r with
  | error e => rfl
  | ok p =>
    change ((f p.value p.rest).weaken).within p.shorter =
      (f p.value p.rest).within (Nat.le_of_lt p.shorter)
    cases f p.value p.rest <;> rfl

theorem map_eq_bind {r : Result α n} {f : α → β} :
    r.map f = r >>= fun p => .ok ⟨f p.value, p.rest, p.shorter⟩ := by
  cases r <;> rfl

end Result

open Result

theorem expect_reads {t : Token} {s rest : Stream} {p : Position} :
    (expect t s).Reads p rest ↔ s = .cons ⟨t, p⟩ rest ∧ Settled rest := by
  unfold expect
  cases s with
  | finish q => simp
  | failure e => simp
  | cons u after =>
    by_cases hu : u.token = t
    · obtain ⟨token, q⟩ := u
      obtain rfl : token = t := hu
      simp only [if_true, reads_lookAhead, Stream.cons.injEq, Located.mk.injEq, true_and]
      exact (and_congr_right fun _ => reads_pure).trans (by grind)
    · have : ∀ p, u ≠ ⟨t, p⟩ := fun p h => hu (congrArg Located.token h)
      simp [hu, this]

theorem expectSymbol_reads {x : Symbol} {s rest : Stream} {p : Position} :
    (expectSymbol x s).Reads p rest ↔ s = .cons ⟨.symbol x, p⟩ rest ∧ Settled rest :=
  expect_reads

theorem expectName_reads {s rest : Stream} {name : String} :
    (expectName s).Reads name rest ↔ ∃ p, s = .cons ⟨.name name, p⟩ rest ∧ Settled rest := by
  unfold expectName
  split
  · simp only [reads_lookAhead, Stream.cons.injEq, Located.mk.injEq, Token.name.injEq]
    exact (and_congr_right fun _ => reads_pure).trans (by grind)
  · rename_i hs
    simp only [not_reads_error, false_iff]
    rintro ⟨p, rfl, -⟩
    exact hs _ _ _ rfl

theorem skipSemicolons_cons {t : Located} {s rest : Stream} :
    (skipSemicolons (.cons t s)).Reads () rest ↔
      if t.token = .symbol .semicolon then Settled s ∧ (skipSemicolons s).Reads () rest
      else .cons t s = rest := by
  rw [skipSemicolons]
  simp only [reads_ite, reads_lookAhead, reads_bind, reads_pure, reads_ok, true_and]
  have h : (∃ u : Unit, (skipSemicolons s).Reads u rest) ↔ (skipSemicolons s).Reads () rest :=
    ⟨fun ⟨_, h⟩ => h, fun h => ⟨(), h⟩⟩
  simp [h]

theorem expression_reads {level : Level} {s rest : Stream} {e : Expr} :
    (expression level s).Reads e rest ↔
      ∃ left mid, (operand s).Reads left mid ∧ (climb level left mid).Reads e rest := by
  rw [expression]
  simp

/-- The level of the operator that comes next. -/
def nextLevel : Stream → Level
  | .cons t _ => ((Continuation.ofToken? t.token).map Continuation.level).getD Level.lowest
  | .finish _ => Level.lowest
  | .failure _ => Level.lowest

theorem climb_stop {level : Level} {left e : Expr} {s rest : Stream} (h : nextLevel s ≤ level) :
    (climb level left s).Reads e rest ↔ left = e ∧ s = rest := by
  cases s with
  | finish p => simp [climb]
  | failure e => simp [climb]
  | cons t s =>
    rw [climb]
    cases hc : Continuation.ofToken? t.token with
    | none => simp
    | some c =>
      have hlevel : c.level ≤ level := by simpa [nextLevel, hc] using h
      simp [hlevel]

section

variable {level : Level} {left e : Expr} {t : Located} {s rest : Stream}

theorem climb_assign {op : Option Arith} (hc : Continuation.ofToken? t.token = some (.assign op))
    (hlevel : level < Level.assignment) :
    (climb level left (.cons t s)).Reads e rest ↔ Settled s ∧ ∃ place, left = .read place ∧
      ∃ value mid, (expression Level.lowest s).Reads value mid ∧
        (climb level (.assign place op value) mid).Reads e rest := by
  rw [climb]
  simp only [hc, Continuation.level, Nat.not_le.2 hlevel]
  cases left <;> simp [Expr.place?]

theorem climb_conditional (hc : Continuation.ofToken? t.token = some .conditional)
    (hlevel : level < Level.conditional) :
    (climb level left (.cons t s)).Reads e rest ↔ Settled s ∧
      ∃ consequence mid, (expression Level.lowest s).Reads consequence mid ∧
        ∃ p mid', (expectSymbol .colon mid).Reads p mid' ∧
          ∃ alternative after, (expression Level.assignment mid').Reads alternative after ∧
            (climb level (.conditional left consequence alternative) after).Reads e rest := by
  rw [climb]
  simp only [hc, Continuation.level, Nat.not_le.2 hlevel]
  simp

theorem climb_binary {op : BinaryOp} (hc : Continuation.ofToken? t.token = some (.binary op))
    (hlevel : level < binaryLevel op) :
    (climb level left (.cons t s)).Reads e rest ↔ Settled s ∧
      ∃ right mid, (expression (binaryLevel op) s).Reads right mid ∧
        (climb level (.binary op left right) mid).Reads e rest := by
  rw [climb]
  simp only [hc, Continuation.level, Nat.not_le.2 hlevel]
  simp

theorem climb_step {op : StepOp} (hc : Continuation.ofToken? t.token = some (.step op))
    (hlevel : level < Level.access) :
    (climb level left (.cons t s)).Reads e rest ↔ Settled s ∧ ∃ place, left = .read place ∧
      (climb level (.step place op) s).Reads e rest := by
  rw [climb]
  simp only [hc, Continuation.level, Nat.not_le.2 hlevel]
  cases left <;> simp [Expr.place?]

theorem climb_dot (hc : Continuation.ofToken? t.token = some .dot) (hlevel : level < Level.access) :
    (climb level left (.cons t s)).Reads e rest ↔ Settled s ∧
      ∃ name mid, (expectName s).Reads name mid ∧
        if isSymbol .openParen mid then ∃ args after, (arguments mid).Reads args after ∧
          (climb level (.method left name args) after).Reads e rest
        else ∃ subs after, (subscripts mid).Reads subs after ∧
          (climb level (.read (.field left name subs)) after).Reads e rest := by
  rw [climb]
  simp only [hc, Continuation.level, Nat.not_le.2 hlevel]
  simp

theorem not_operand (ho : Opening.ofToken? t.token = none) :
    ¬ (operand (.cons t s)).Reads e rest := by
  rw [operand]
  simp [ho]

/-- An operand begins with a token that opens one. -/
theorem operand_start (h : (operand s).Reads e rest) :
    ∃ t s', s = .cons t s' ∧ Opening.ofToken? t.token ≠ none := by
  cases s with
  | finish p => simp [operand] at h
  | failure e => simp [operand] at h
  | cons t s' => exact ⟨t, s', rfl, fun ho => not_operand ho h⟩

theorem operand_literal {r : Except Defect Expr}
    (ho : Opening.ofToken? t.token = some (.literal r)) :
    (operand (.cons t s)).Reads e rest ↔ Settled s ∧ r = .ok e ∧ s = rest := by
  rw [operand]
  simp only [ho]
  cases r <;> simp

theorem operand_variable {scope : Scope} {name : String}
    (ho : Opening.ofToken? t.token = some (.variable scope name)) :
    (operand (.cons t s)).Reads e rest ↔ Settled s ∧
      ∃ subs, .read (.variable scope name subs) = e ∧ (subscripts s).Reads subs rest := by
  rw [operand]
  simp only [ho]
  simp

theorem operand_name {text : String} (ho : Opening.ofToken? t.token = some (.name text)) :
    (operand (.cons t s)).Reads e rest ↔ Settled s ∧
      if isSymbol .doubleColon s then
        ∃ p mid, (expectSymbol .doubleColon s).Reads p mid ∧
          ∃ name mid', (expectName mid).Reads name mid' ∧
            ∃ args, .call (some text) name args = e ∧ (arguments mid').Reads args rest
      else if isSymbol .openParen s then
        ∃ args, .call none text args = e ∧ (arguments s).Reads args rest
      else .bareword text = e ∧ s = rest := by
  rw [operand]
  simp only [ho]
  simp

theorem operand_unary {op : UnaryOp} (ho : Opening.ofToken? t.token = some (.unary op)) :
    (operand (.cons t s)).Reads e rest ↔ Settled s ∧
      ∃ operand, .unary op operand = e ∧ (expression Level.unary s).Reads operand rest := by
  rw [operand]
  simp only [ho]
  simp

theorem operand_parenthesis (ho : Opening.ofToken? t.token = some .parenthesis) :
    (operand (.cons t s)).Reads e rest ↔ Settled s ∧
      ∃ mid, (expression Level.lowest s).Reads e mid ∧
        ∃ p, (expectSymbol .closeParen mid).Reads p rest := by
  rw [operand]
  simp only [ho]
  simp

theorem operand_creation (ho : Opening.ofToken? t.token = some .creation) :
    (operand (.cons t s)).Reads e rest ↔
      ∃ d, .create d = e ∧ (creation (.cons t s)).Reads d rest := by
  rw [operand]
  simp only [ho]
  simp

end

section

variable {s rest : Stream}

theorem sequence_reads {es : List Expr} :
    (sequence s).Reads es rest ↔
      ∃ e mid, (expression Level.lowest s).Reads e mid ∧
        if isSymbol .comma mid then
          ∃ p after, (expectSymbol .comma mid).Reads p after ∧
            ∃ others, e :: others = es ∧ (sequence after).Reads others rest
        else [e] = es ∧ mid = rest := by
  rw [sequence]
  simp

theorem sequenceUntil_reads {close : Symbol} {es : List Expr} :
    (sequenceUntil close s).Reads es rest ↔
      if isSymbol close s then [] = es ∧ s = rest else (sequence s).Reads es rest := by
  rw [sequenceUntil]
  simp

theorem arguments_reads {es : List Expr} :
    (arguments s).Reads es rest ↔
      ∃ p mid, (expectSymbol .openParen s).Reads p mid ∧
        ∃ after, (sequenceUntil .closeParen mid).Reads es after ∧
          ∃ q, (expectSymbol .closeParen after).Reads q rest := by
  rw [arguments]
  simp

theorem subscripts_reads {es : List Expr} :
    (subscripts s).Reads es rest ↔
      if isSymbol .openBracket s then
        ∃ p mid, (expectSymbol .openBracket s).Reads p mid ∧
          ∃ after, (sequenceUntil .closeBracket mid).Reads es after ∧
            ∃ q, (expectSymbol .closeBracket after).Reads q rest
      else [] = es ∧ s = rest := by
  rw [subscripts]
  simp

theorem classRef_reads {c : ClassRef} :
    (classRef s).Reads c rest ↔
      if isSymbol .openParen s then
        ∃ p mid, (expectSymbol .openParen s).Reads p mid ∧
          ∃ e, .computed e = c ∧ ∃ after, (expression Level.lowest mid).Reads e after ∧
            ∃ q, (expectSymbol .closeParen after).Reads q rest
      else ∃ name, .named name = c ∧ (expectName s).Reads name rest := by
  rw [classRef]
  simp

theorem optional_reads {close : Symbol} {o : Option Expr} :
    (optional close s).Reads o rest ↔
      if isSymbol close s then none = o ∧ s = rest
      else ∃ e, some e = o ∧ (expression Level.lowest s).Reads e rest := by
  rw [optional]
  simp

theorem creation_reads {d : ObjectDecl} :
    (creation s).Reads d rest ↔
      ∃ p mid, (expect (.keyword .new) s).Reads p mid ∧
        ∃ c mid', (classRef mid).Reads c mid' ∧
          ∃ p' mid'', (expectSymbol .openParen mid').Reads p' mid'' ∧
            ∃ name after, (optional .closeParen mid'').Reads name after ∧
              ∃ q after', (expectSymbol .closeParen after).Reads q after' ∧
                if isSymbol .openBrace after' then
                  ∃ fields children, ⟨c, name, fields, children⟩ = d ∧
                    (objectBlock after').Reads (fields, children) rest
                else ⟨c, name, [], []⟩ = d ∧ after' = rest := by
  rw [creation]
  simp

theorem objectBlock_reads {content : List FieldInit × List ObjectDecl} :
    (objectBlock s).Reads content rest ↔
      ∃ opened mid, (expectSymbol .openBrace s).Reads opened mid ∧
        (objectItems opened mid).Reads content rest := by
  rw [objectBlock]
  simp

end

section

variable {opened p : Position} {s after rest : Stream} {content : List FieldInit × List ObjectDecl}

theorem objectItems_close (h : (skipSemicolons s).Reads () (.cons ⟨.symbol .closeBrace, p⟩ after)) :
    (objectItems opened s).Reads content rest ↔
      Settled after ∧ ([], []) = content ∧ after = rest := by
  rw [objectItems, h.bind]
  simp

theorem objectItems_object (h : (skipSemicolons s).Reads () (.cons ⟨.keyword .new, p⟩ after)) :
    (objectItems opened s).Reads content rest ↔
      ∃ d mid, (creation (.cons ⟨.keyword .new, p⟩ after)).Reads d mid ∧
        ∃ q mid', (expectSymbol .semicolon mid).Reads q mid' ∧
          ∃ fields children, (fields, d :: children) = content ∧
            (objectItems opened mid').Reads (fields, children) rest := by
  rw [objectItems, h.bind]
  simp

theorem objectItems_field {name : String}
    (h : (skipSemicolons s).Reads () (.cons ⟨.name name, p⟩ after)) :
    (objectItems opened s).Reads content rest ↔ Settled after ∧
      ∃ subs mid, (subscripts after).Reads subs mid ∧
        ∃ q mid', (expectSymbol .assign mid).Reads q mid' ∧
          ∃ value mid'', (expression Level.lowest mid').Reads value mid'' ∧
            ∃ q' next, (expectSymbol .semicolon mid'').Reads q' next ∧
              ∃ fields children, (⟨name, subs, value⟩ :: fields, children) = content ∧
                (objectItems opened next).Reads (fields, children) rest := by
  rw [objectItems, h.bind]
  simp

end

end TorqueScript.Parse
