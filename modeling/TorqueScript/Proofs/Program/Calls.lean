import TorqueScript.Proofs.Program.Lockstep

/-!
What the calls of the readers through a window stand for. Each agrees with a reader of streams if
the calls that it makes do, and those are made where fewer tokens are left or, at the same token,
have a smaller rank. Neither parser is made from the other, so the two are opened here side by side,
pair by pair.
-/

namespace TorqueScript

namespace Parse

/-- The expressions after the first of a sequence. -/
def moreExpressions (s : Stream) : Result (List Expr) (s.length + 1) :=
  if isSymbol .comma s then ((expectSymbol .comma s).andThen fun _ => sequence).weaken
  else stay [] s

theorem moreExpressions_eq (s : Stream) :
    moreExpressions s =
      if isSymbol .comma s then
        expectSymbol .comma s >>= fun p => sequence p.rest >>= fun q =>
          .ok ⟨q.value, q.rest, (q.shorter.trans p.shorter).trans (Nat.lt_succ_self _)⟩
      else stay [] s := by
  rw [moreExpressions, Result.andThen_eq_bind]
  cases expectSymbol .comma s with
  | error e => rfl
  | ok p =>
    simp only [bind, Except.bind]
    cases sequence p.rest <;> rfl

theorem sequence_eq (s : Stream) :
    sequence s = expression Level.lowest s >>= fun p => moreExpressions p.rest >>= fun q =>
      .ok ⟨p.value :: q.value, q.rest, Nat.lt_of_lt_of_le q.shorter p.shorter⟩ := by
  rw [sequence]
  cases expression Level.lowest s with
  | error e => rfl
  | ok p =>
    change (if isSymbol .comma p.rest = true then _ else _) = moreExpressions p.rest >>= _
    rw [moreExpressions_eq]
    split
    · cases expectSymbol .comma p.rest with
      | error e => rfl
      | ok q =>
        change sequence q.rest >>= _ = (sequence q.rest >>= _) >>= _
        cases sequence q.rest <;> rfl
    · rfl

end Parse

namespace Descent

open Parse (Level Parsed Result)

/-- What a call stands for: a reader of streams, and how what it reads appears in the answer. No
call gives tokens back. -/
structure Target (α : Type) where
  {Read : Stream → Type}
  reader : (s : Stream) → Except SourceError (Read s)
  relation : (s : Stream) → Except SourceError (Read s) → α → Window → Prop
  length_le : ∀ {s r a w}, relation s r a w → w.stream.length ≤ s.length

namespace Target

variable {α β : Type}

/-- A reader that takes a token, with `f` applied to what it reads. -/
def of (r : (s : Stream) → Result α s.length) (f : α → β) : Target β :=
  ⟨r, fun _ => Gives f, fun h => Nat.le_of_lt h.length_lt⟩

/-- A reader that may take no token, with `f` applied to what it reads. -/
def ofMaybe (r : (s : Stream) → Result α (s.length + 1)) (f : α → β) : Target β :=
  ⟨r, fun _ => Gives f, fun h => Nat.le_of_lt_succ h.length_lt⟩

/-- The statements up to the end, after those that are done. -/
def statements (done : List Statement) : Target (List Statement) :=
  ⟨Parse.statements, fun _ r b w => w.stream.length = 0 ∧ ∃ more, r = .ok more ∧ done ++ more = b,
    fun h => h.1 ▸ Nat.zero_le _⟩

/-- The call answers at the window as what it stands for. -/
def Meets (t : Target α) (x : Reading α) (w : Window) : Prop :=
  Agrees (t.relation w.stream) x w (t.reader w.stream)

end Target

/-- What each call stands for. A loop puts what it reads behind what it has collected. -/
def Goal.target : {α : Type} → Goal α → Target α
  | _, .loop .semicolons _ => .ofMaybe Parse.skipSemicolons id
  | _, .loop .program done => .statements done
  | _, .loop (.block opened) done => .of (Parse.statementsUntilBrace opened) (done ++ ·)
  | _, .loop (.switchItems opened) (cases, default) =>
    .of (Parse.switchItems opened default) fun (more, default) => (cases ++ more, default)
  | _, .loop .labels done => .of Parse.labels (done ++ ·)
  | _, .loop (.caseBody opened) done => .ofMaybe (Parse.caseBody opened) (done ++ ·)
  | _, .loop .parameters done => .ofMaybe Parse.parameters (done ++ ·)
  | _, .loop (.functions opened) done => .of (Parse.functionsUntilBrace opened) (done ++ ·)
  | _, .loop (.objectItems opened) (fields, children) =>
    .of (Parse.objectItems opened) fun (fs, ds) => (fields ++ fs, children ++ ds)
  | _, .loop .expressions done => .ofMaybe Parse.moreExpressions (done ++ ·)
  | _, .loop (.climb level) left => .ofMaybe (Parse.climb level left) id
  | _, .expression level => .of (Parse.expression level) id
  | _, .operand => .of Parse.operand id
  | _, .expressionList close => .ofMaybe (Parse.sequenceUntil close) id
  | _, .arguments => .of Parse.arguments id
  | _, .subscripts => .ofMaybe Parse.subscripts id
  | _, .creation => .of Parse.creation id
  | _, .objectBlock => .of Parse.objectBlock id
  | _, .statement => .of Parse.statement id
  | _, .function => .of Parse.function id
  | _, .block => .of Parse.block id
  | _, .body => .of Parse.body id

/-- How many calls can follow one another without a token being read: a call made at the same
token has a smaller rank. -/
def Goal.rank : {α : Type} → Goal α → Nat
  | _, .loop .program _ => 4
  | _, .loop (.block _) _ => 4
  | _, .loop (.caseBody _) _ => 4
  | _, .loop .labels _ => 3
  | _, .loop (.switchItems _) _ => 1
  | _, .loop (.functions _) _ => 1
  | _, .loop (.objectItems _) _ => 1
  | _, .loop _ _ => 0
  | _, .body => 4
  | _, .statement => 3
  | _, .expressionList _ => 3
  | _, .expression _ => 2
  | _, .operand => 1
  | _, _ => 0

theorem Goal.rank_le {α : Type} (g : Goal α) : g.rank ≤ 4 := by
  cases g with
  | loop k state => cases k <;> simp [rank]
  | _ => simp [rank]

section

variable {self : {α : Type} → Goal α → Reading α} {rank : Nat} {w w' : Window}

/-- The calls answer that read fewer tokens than are left in `w`, or as many but have a smaller
rank. -/
def Answers (self : {α : Type} → Goal α → Reading α) (rank : Nat) (w : Window) : Prop :=
  ∀ {α : Type} (g : Goal α) (w' : Window),
    w'.stream.length < w.stream.length ∨
      w'.stream.length ≤ w.stream.length ∧ g.rank < rank → g.target.Meets (self g) w'

theorem Answers.later {α : Type} (h : Answers self rank w) (g : Goal α)
    (hlt : w'.stream.length < w.stream.length) : g.target.Meets (self g) w' :=
  h g w' (.inl hlt)

theorem Answers.now {α : Type} (h : Answers self rank w) (g : Goal α) (hrank : g.rank < rank)
    (hle : w'.stream.length ≤ w.stream.length) : g.target.Meets (self g) w' :=
  h g w' (.inr ⟨hle, hrank⟩)

/-- A call at a token that the window shows. -/
theorem Answers.next {α : Type} {t : Located} {rest : Stream} (h : Answers self rank w)
    (g : Goal α) (hrank : g.rank < rank) (hs : w'.stream = .cons t rest)
    (hlt : rest.length < w.stream.length) :
    Agrees (g.target.relation (.cons t rest)) (self g) w' (g.target.reader (.cons t rest)) :=
  hs ▸ h.now g hrank (hs ▸ hlt)

theorem expression_meets {level : Level} (h : Answers self 2 w) :
    Agrees (Gives id) (step self (.expression level)) w (Parse.expression level w.stream) := by
  rw [Parse.expression]
  refine .bind (h.now .operand (by decide) (Nat.le_refl _)) fun left w₁ h₁ => ?_
  exact .finish (h.later (.loop (.climb level) left) h₁) fun _ _ _ => ⟨_, _, rfl, rfl⟩

theorem operand_meets {s : Stream} (hs : w.stream = s) (h : Answers self 1 w) :
    Agrees (Gives id) (operand self) w (Parse.operand s) := by
  cases s with
  | failure e => exact absurd hs Window.stream_ne_failure
  | finish p =>
    rw [Parse.operand]
    exact .look_finish hs (.mistake hs)
  | cons t rest =>
    have hw : w.stream.length = rest.length + 1 := by rw [hs]; rfl
    rw [Parse.operand]
    refine .look_token hs ?_
    dsimp only
    cases Parse.Opening.ofToken? t.token with
    | none => exact .mistake hs
    | some o =>
      cases o with
      | literal e =>
        refine .advance hs ?_
        rintro w₁ rfl
        cases e with
        | ok e => exact .ok rfl
        | error defect => exact .throw
      | «variable» scope name =>
        refine .advance hs ?_
        rintro w₁ rfl
        exact .bind (h.later .subscripts (by omega)) fun _ _ _ => .ok rfl
      | name text =>
        refine .lookAhead ?_
        simp only [Window.isToken_ahead, (Window.current_of_cons hs).2, Parse.isSymbol]
        by_cases hcolon : Parse.isNext (.symbol .doubleColon) rest = true
        · simp only [hcolon, if_true]
          refine .advance hs ?_
          rintro w₁ rfl
          refine .bind (advance_agrees hcolon) fun _ w₂ h₂ => ?_
          refine .bind expectName_agrees fun _ w₃ (h₃ : _ < w₂.stream.length) => ?_
          exact .bind (h.later .arguments (by omega)) fun _ _ _ => .ok rfl
        · by_cases hparen : Parse.isNext (.symbol .openParen) rest = true
          · simp only [hcolon, hparen, if_true]
            refine .advance hs ?_
            rintro w₁ rfl
            exact .bind (h.later .arguments (by omega)) fun _ _ _ => .ok rfl
          · simp only [hcolon, hparen]
            refine .advance hs ?_
            rintro w₁ rfl
            exact .ok rfl
      | unary op =>
        refine .advance hs ?_
        rintro w₁ rfl
        exact .bind (h.later (.expression Level.unary) (by omega)) fun _ _ _ => .ok rfl
      | parenthesis =>
        refine .advance hs ?_
        rintro w₁ rfl
        refine .bind (h.later (.expression Level.lowest) (by omega)) fun _ _ _ => ?_
        exact .bind (expect_agrees _) fun _ _ _ => .ok rfl
      | creation =>
        have hlt : rest.length < w.stream.length := by omega
        exact .bind (h.next .creation (by decide) hs hlt) fun _ _ _ => .ok rfl

theorem sequenceUntil_meets {close : Symbol} (h : Answers self 3 w) :
    Agrees (Gives id) (expressionList self close) w (Parse.sequenceUntil close w.stream) := by
  rw [Parse.sequenceUntil]
  refine .isNext (fun _ => .ok rfl) ?_
  rw [Parse.sequence_eq]
  refine .finish ?_ fun _ _ _ => ⟨_, _, rfl, rfl⟩
  refine .bind (h.now (.expression Level.lowest) (by decide) (Nat.le_refl _)) fun e w₁ h₁ => ?_
  exact .finish (h.later (.loop .expressions [e]) h₁) fun _ _ _ => ⟨_, _, rfl, rfl⟩

theorem arguments_meets (h : Answers self 0 w) :
    Agrees (Gives id) (arguments self) w (Parse.arguments w.stream) := by
  rw [Parse.arguments]
  refine .bind (expect_agrees _) fun _ w₁ h₁ => ?_
  refine .bind (h.later (.expressionList .closeParen) h₁) fun _ w₂ h₂ => ?_
  exact .bind (expect_agrees _) fun _ w₃ h₃ => .ok rfl

theorem subscripts_meets (h : Answers self 0 w) :
    Agrees (Gives id) (subscripts self) w (Parse.subscripts w.stream) := by
  rw [Parse.subscripts]
  refine .isNext (fun hnext => ?_) (.ok rfl)
  refine .bind (advance_agrees hnext) fun _ w₁ h₁ => ?_
  refine .bind (h.later (.expressionList .closeBracket) h₁) fun _ w₂ h₂ => ?_
  exact .bind (expect_agrees _) fun _ w₃ h₃ => .ok rfl

section

variable {w₀ : Window}

theorem classRef_meets (h : Answers self rank w₀) (hw : w.stream.length < w₀.stream.length) :
    Agrees (Gives id) (classRef self) w (Parse.classRef w.stream) := by
  rw [Parse.classRef]
  refine .isNext (fun hnext => ?_) ?_
  · refine .bind (advance_agrees hnext) fun _ w₁ h₁ => ?_
    refine .bind (h.later (.expression Level.lowest) (h₁.trans hw)) fun _ w₂ h₂ => ?_
    exact .bind (expect_agrees _) fun _ w₃ h₃ => .ok rfl
  · exact .bind expectName_agrees fun _ _ _ => .ok rfl

theorem optional_meets {close : Symbol} (h : Answers self rank w₀)
    (hw : w.stream.length < w₀.stream.length) :
    Agrees (Gives id) (optionalExpression self close) w (Parse.optional close w.stream) := by
  rw [Parse.optional]
  refine .isNext (fun _ => .ok rfl) ?_
  exact .bind (h.later (.expression Level.lowest) hw) fun _ _ _ => .ok rfl

end

theorem creation_meets (h : Answers self 0 w) :
    Agrees (Gives id) (creation self) w (Parse.creation w.stream) := by
  rw [Parse.creation]
  refine .bind (expect_agrees _) fun _ w₁ h₁ => ?_
  refine .bind (classRef_meets h h₁) fun c w₂ h₂ => ?_
  refine .bind (expect_agrees _) fun _ w₃ h₃ => ?_
  refine .bind (optional_meets h (by omega)) fun name w₄ h₄ => ?_
  refine .bind (expect_agrees _) fun _ w₅ h₅ => ?_
  refine .isNext (fun _ => ?_) (.ok rfl)
  exact .bind (h.later .objectBlock (by omega)) fun _ _ _ => .ok rfl

theorem objectBlock_meets (h : Answers self 0 w) :
    Agrees (Gives id) (objectBlock self) w (Parse.objectBlock w.stream) := by
  rw [Parse.objectBlock]
  refine .bind (expect_agrees _) fun opened w₁ h₁ => ?_
  exact .finish (h.later (.loop (.objectItems opened) ([], [])) h₁) fun _ _ _ => ⟨_, _, rfl, rfl⟩

section

variable {w₀ : Window}

theorem condition_meets (h : Answers self rank w₀) (hw : w.stream.length < w₀.stream.length) :
    Agrees (Gives id) (condition self) w (Parse.condition w.stream) := by
  refine .andThen (expect_agrees _) fun _ w₁ h₁ => ?_
  refine .andThen (h.later (.expression Level.lowest) (h₁.trans hw)) fun _ w₂ h₂ => ?_
  exact .map (expect_agrees _)

theorem datablockFields_meets (h : Answers self rank w₀)
    (hw : w.stream.length < w₀.stream.length) :
    Agrees (Gives id) (datablockFields self) w (Parse.datablockFields w.stream) := by
  refine .andThenMaybe (h.later .objectBlock hw) fun (fields, children) w₁ h₁ => ?_
  cases children with
  | nil => exact .ok rfl
  | cons d ds =>
    refine .look ?_
    rw [Window.next_stream]
    exact .throw

theorem parentName_meets : Agrees (Gives id) parentName w (Parse.parentName w.stream) := by
  refine .isNext (fun hnext => .within ?_) (.ok rfl)
  exact .andThen (advance_agrees hnext) fun _ w₁ h₁ => .map expectName_agrees

theorem qualifiedName_meets :
    Agrees (Gives id) qualifiedName w (Parse.qualifiedName w.stream) := by
  refine .andThenMaybe expectName_agrees fun _ w₁ h₁ => ?_
  refine .isNext (fun hnext => .within ?_) (.ok rfl)
  exact .andThen (advance_agrees hnext) fun _ w₂ h₂ => .map expectName_agrees

end

theorem package_meets (h : Answers self 3 w) (hk : Parse.nextKeyword w.stream = some .package) :
    Agrees (Gives id) (package self) w (Parse.statement w.stream) := by
  rw [Parse.statement, hk]
  refine .bind (expect_agrees _) fun _ w₁ h₁ => ?_
  refine .bind expectName_agrees fun name w₂ h₂ => ?_
  refine .bind (expect_agrees _) fun opened w₃ h₃ => ?_
  exact .bind (h.later (.loop (.functions opened) []) (by omega)) fun _ _ _ => .ok rfl

theorem datablock_meets (h : Answers self 3 w) :
    Agrees (Gives id) (datablock self) w (Parse.datablock w.stream) := by
  refine .andThen (expect_agrees _) fun _ w₁ h₁ => ?_
  refine .andThen expectName_agrees fun className w₂ h₂ => ?_
  refine .andThen (expect_agrees _) fun _ w₃ h₃ => ?_
  refine .andThen expectName_agrees fun name w₄ h₄ => ?_
  refine .andThenMaybe (expect_agrees _) fun _ w₅ h₅ => ?_
  refine .andThen parentName_meets fun parent w₆ h₆ => ?_
  refine .andThen (datablockFields_meets h (by omega)) fun fields w₇ h₇ => ?_
  exact .map (expect_agrees _)

theorem branch_meets (h : Answers self 3 w) (hk : Parse.nextKeyword w.stream = some .if) :
    Agrees (Gives id) (branch self) w (Parse.statement w.stream) := by
  rw [Parse.statement, hk]
  refine .bind (expect_agrees _) fun _ w₁ h₁ => ?_
  refine .bind (condition_meets h h₁) fun c w₂ h₂ => ?_
  refine .bind (h.later .body (by omega)) fun consequence w₃ h₃ => ?_
  refine .isNext (fun hnext => ?_) (.ok rfl)
  refine .bind (advance_agrees hnext) fun _ w₄ h₄ => ?_
  exact .bind (h.later .body (by omega)) fun _ _ _ => .ok rfl

theorem whileLoop_meets (h : Answers self 3 w) (hk : Parse.nextKeyword w.stream = some .while) :
    Agrees (Gives id) (whileLoop self) w (Parse.statement w.stream) := by
  rw [Parse.statement, hk]
  refine .bind (expect_agrees _) fun _ w₁ h₁ => ?_
  refine .bind (condition_meets h h₁) fun c w₂ h₂ => ?_
  exact .bind (h.later .body (by omega)) fun _ _ _ => .ok rfl

theorem forLoop_meets (h : Answers self 3 w) (hk : Parse.nextKeyword w.stream = some .for) :
    Agrees (Gives id) (forLoop self) w (Parse.statement w.stream) := by
  rw [Parse.statement, hk]
  refine .bind (expect_agrees _) fun _ w₁ h₁ => ?_
  refine .bind (expect_agrees _) fun _ w₂ h₂ => ?_
  refine .bind (optional_meets h (by omega)) fun init w₃ h₃ => ?_
  refine .bind (expect_agrees _) fun _ w₄ h₄ => ?_
  refine .bind (optional_meets h (by omega)) fun c w₅ h₅ => ?_
  refine .bind (expect_agrees _) fun _ w₆ h₆ => ?_
  refine .bind (optional_meets h (by omega)) fun update w₇ h₇ => ?_
  refine .bind (expect_agrees _) fun _ w₈ h₈ => ?_
  exact .bind (h.later .body (by omega)) fun _ _ _ => .ok rfl

theorem switch_meets {kind : SwitchKind} {w₀ : Window} (h : Answers self rank w₀)
    (hw : w.stream.length < w₀.stream.length) :
    Agrees (Gives id) (switch self kind) w (Parse.switch kind w.stream) := by
  rw [Parse.switch]
  refine .bind (condition_meets h hw) fun subject w₁ h₁ => ?_
  refine .bind (expect_agrees _) fun opened w₂ h₂ => ?_
  exact .bind (h.later (.loop (.switchItems opened) ([], none)) (by omega)) fun _ _ _ => .ok rfl

theorem bareStatement_meets {k : Keyword} {statement : Statement}
    (hnext : Parse.isNext (.keyword k) w.stream = true) :
    Agrees (Gives id) (bareStatement statement) w (Parse.bareStatement k statement w.stream) :=
  .andThen (advance_agrees hnext) fun _ _ _ => .map (expect_agrees _)

theorem returnStatement_meets (h : Answers self 3 w)
    (hnext : Parse.isNext (.keyword .return) w.stream = true) :
    Agrees (Gives id) (returnStatement self) w (Parse.returnStatement w.stream) := by
  refine .andThenMaybe (advance_agrees hnext) fun _ w₁ h₁ => ?_
  exact .andThen (optional_meets h h₁) fun _ _ _ => .map (expect_agrees _)

theorem expressionStatement_meets (h : Answers self 3 w) :
    Agrees (Gives id) (expressionStatement self) w (Parse.expressionStatement w.stream) :=
  .andThen (h.now (.expression Level.lowest) (by decide) (Nat.le_refl _)) fun _ _ _ =>
    .map (expect_agrees _)

theorem statement_meets (h : Answers self 3 w) :
    Agrees (Gives id) (statement self) w (Parse.statement w.stream) := by
  obtain ⟨p, hs⟩ | ⟨⟨t, p⟩, rest, hs⟩ := w.stream_cases
  · refine .look_finish hs ?_
    have hk : Parse.nextKeyword w.stream = none := by rw [hs]; rfl
    rw [Parse.statement, hk]
    exact expressionStatement_meets h
  · refine .look_token hs ?_
    cases t with
    | keyword k =>
      have hk : Parse.nextKeyword w.stream = some k := by rw [hs]; rfl
      have hnext : Parse.isNext (.keyword k) w.stream = true := by
        rw [hs]
        exact decide_eq_true rfl
      cases k with
      | function =>
        rw [Parse.statement, hk]
        exact .bind (h.now .function (by decide) (Nat.le_refl _)) fun _ _ _ => .ok rfl
      | package => exact package_meets h hk
      | datablock =>
        rw [Parse.statement, hk]
        exact datablock_meets h
      | «if» => exact branch_meets h hk
      | «while» => exact whileLoop_meets h hk
      | «for» => exact forLoop_meets h hk
      | switch =>
        rw [Parse.statement, hk]
        refine .bind (advance_agrees hnext) fun _ _ h₁ => ?_
        exact .finish (switch_meets h h₁) fun _ _ _ => ⟨_, _, rfl, rfl⟩
      | switchText =>
        rw [Parse.statement, hk]
        refine .bind (advance_agrees hnext) fun _ _ h₁ => ?_
        exact .finish (switch_meets h h₁) fun _ _ _ => ⟨_, _, rfl, rfl⟩
      | «break» =>
        rw [Parse.statement, hk]
        exact bareStatement_meets hnext
      | «continue» =>
        rw [Parse.statement, hk]
        exact bareStatement_meets hnext
      | «return» =>
        rw [Parse.statement, hk]
        exact returnStatement_meets h hnext
      | _ =>
        rw [Parse.statement, hk]
        exact expressionStatement_meets h
    | _ =>
      have hk : Parse.nextKeyword w.stream = none := by rw [hs]; rfl
      rw [Parse.statement, hk]
      exact expressionStatement_meets h

theorem function_meets (h : Answers self 0 w) :
    Agrees (Gives id) (function self) w (Parse.function w.stream) := by
  rw [Parse.function]
  refine .bind (expect_agrees _) fun _ w₁ h₁ => ?_
  refine .bind qualifiedName_meets fun (qualifier, name) w₂ h₂ => ?_
  refine .bind (expect_agrees _) fun _ w₃ h₃ => ?_
  refine .bind (h.later (.loop .parameters []) (by omega)) fun names w₄ h₄ => ?_
  refine .bind (expect_agrees _) fun _ w₅ h₅ => ?_
  exact .bind (h.later .block (by omega)) fun _ _ _ => .ok rfl

theorem block_meets (h : Answers self 0 w) :
    Agrees (Gives id) (block self) w (Parse.block w.stream) := by
  rw [Parse.block]
  refine .bind (expect_agrees _) fun opened w₁ h₁ => ?_
  exact .finish (h.later (.loop (.block opened) []) h₁) fun _ _ _ => ⟨_, _, rfl, rfl⟩

theorem body_meets (h : Answers self 4 w) :
    Agrees (Gives id) (body self) w (Parse.body w.stream) := by
  rw [Parse.body]
  refine .isNext (fun _ => h.now .block (by decide) (Nat.le_refl _)) ?_
  exact .bind (h.now .statement (by decide) (Nat.le_refl _)) fun _ _ _ => .ok rfl

end

end Descent

end TorqueScript
