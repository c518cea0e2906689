import TorqueScript.Proofs.Program.Recipes

/-!
Each reader follows its recipe. A reader is opened here once: its steps are matched with
those of the recipe in the order in which they are taken, and what the reader comes to is
what the run of the recipe ends with.
-/

namespace TorqueScript.Parse

/-- How a reading ends, without the bound on what it leaves. -/
def Result.ending {α : Type} {n : Nat} : Result α n → Ending α
  | .ok p => .ok (p.value, p.rest)
  | .error e => .error e

theorem Result.reads_iff_ending {α : Type} {n : Nat} {r : Result α n} {a : α} {rest : Stream} :
    r.Reads a rest ↔ r.ending = .ok (a, rest) := by
  cases r with
  | error e => simp [Result.ending]
  | ok p =>
    obtain ⟨b, after, _⟩ := p
    simp [Result.ending]

theorem nextToken_eq_some {s : Stream} {t : Token} : nextToken s = some t ↔ isNext t s = true := by
  cases s <;> simp [nextToken, isNext]

/-- A token that is expected comes next and can be passed, or a mistake behind it is found, or it
does not come next. -/
theorem expect_cases (t : Token) (s : Stream) :
    (∃ p rest, s = .cons ⟨t, p⟩ rest ∧ Settled rest) ∨
      (∃ p rest e, s = .cons ⟨t, p⟩ rest ∧ lookAhead rest = .error e ∧ expect t s = .error e) ∨
      (nextToken s ≠ some t ∧ expect t s = .error (unexpected s t.spelling)) := by
  cases s with
  | finish p => exact .inr (.inr ⟨nofun, rfl⟩)
  | failure e => exact .inr (.inr ⟨nofun, rfl⟩)
  | cons u rest =>
    obtain ⟨token, p⟩ := u
    by_cases htoken : token = t
    · subst htoken
      cases hrest : lookAhead rest with
      | ok u => exact .inl ⟨p, rest, rfl, hrest⟩
      | error e =>
        refine .inr (.inl ⟨p, rest, e, rfl, hrest, ?_⟩)
        simp [expect, hrest, bind, Except.bind]
    · exact .inr (.inr ⟨by simpa [nextToken] using htoken, by simp [expect, htoken]⟩)

namespace Runs

variable {α β : Type} {n m : Nat} {opened : Position} {s : Stream}

theorem of_ok {a : α} {h : s.length < n} :
    Runs opened (.done a) s (Result.ending (.ok ⟨a, s, h⟩ : Result α n)) :=
  .done

theorem within {recipe : Recipe α} {r : Result α n} {h : n ≤ m}
    (hr : Runs opened recipe s r.ending) : Runs opened recipe s (r.within h).ending := by
  cases r with
  | error e => exact hr
  | ok p => exact hr

theorem lookAhead {t : Located} {next : Recipe α} {f : Unit → Result α n}
    (h : Settled s → Runs opened next s (f ()).ending) :
    Runs opened (.pass next) (.cons t s) (Result.ending (lookAhead s >>= f)) := by
  cases hs : Parse.lookAhead s with
  | error e => exact .passFails hs
  | ok u => exact .pass hs (h hs)

/-- Reading on after a piece. -/
theorem bind {piece : Piece β} {next : β → Recipe α} {r : Result β n} {f : Parsed β n → Result α m}
    (hs : Settled s) (hr : Runs opened piece.recipe s r.ending)
    (h : ∀ b mid, ∀ hread : r.Reads b mid, Settled mid →
      Runs opened (next b) mid (f ⟨b, mid, hread.lt⟩).ending) :
    Runs opened (.read piece next) s (Result.ending (r >>= f)) := by
  cases r with
  | error e => exact .readFails hr
  | ok p => exact .read hr (h p.value p.rest ⟨p.shorter, rfl⟩ (hr.settled hs _ _ rfl))

/-- A piece that is read last ends the recipe as its own does. -/
theorem last {piece : Piece α} {r : Ending α} (h : Runs opened piece.recipe s r) :
    Runs opened (.last piece) s r := by
  cases r with
  | error e => exact .readFails h
  | ok p => exact .read h .done

theorem ifNext_yes {t : Token} {yes no : Recipe α} {r : Ending α} (ht : nextToken s = some t)
    (h : Runs opened yes s r) : Runs opened (.ifNext t yes no) s r := by
  refine .look ?_
  rw [if_pos ht]
  exact h

theorem ifNext_no {t : Token} {yes no : Recipe α} {r : Ending α} (ht : nextToken s ≠ some t)
    (h : Runs opened no s r) : Runs opened (.ifNext t yes no) s r := by
  refine .look ?_
  rw [if_neg ht]
  exact h

theorem ite {t : Token} {yes no : Recipe α} {r r' : Result α n}
    (h : Runs opened yes s r.ending) (h' : Runs opened no s r'.ending) :
    Runs opened (.ifNext t yes no) s (if isNext t s then r else r').ending := by
  by_cases ht : isNext t s = true
  · rw [if_pos ht]
    exact .ifNext_yes (nextToken_eq_some.2 ht) h
  · rw [if_neg ht]
    exact .ifNext_no (fun hs => ht (nextToken_eq_some.1 hs)) h'

theorem branch {yes no : Recipe α} {r r' : Result α n} (h : Runs opened yes s r.ending)
    (h' : Runs opened no s r'.ending) :
    Runs opened (.ifElse yes no) s (if isNext (.keyword .else) s then r else r').ending := by
  refine .ifElse ?_
  split
  · exact h
  · exact h'

theorem token {t : Token} {wanted : Wanted} {next : Recipe α}
    {f : Parsed Position s.length → Result α n} (hwanted : wanted.text = t.spelling)
    (h : ∀ p mid, ∀ hread : (expect t s).Reads p mid, Settled mid →
      Runs opened next mid (f ⟨p, mid, hread.lt⟩).ending) :
    Runs opened (.ifNext t (.pass next) (.mistake wanted)) s
      (Result.ending (expect t s >>= f)) := by
  obtain ⟨p, mid, rfl, hmid⟩ | ⟨p, mid, e, rfl, hmid, herror⟩ | ⟨hnext, herror⟩ := expect_cases t s
  · obtain ⟨hlt, heq⟩ := expect_reads.2 ⟨rfl, hmid⟩
    rw [heq]
    exact .ifNext_yes rfl (.pass hmid (h p mid ⟨hlt, heq⟩ hmid))
  · rw [herror]
    exact .ifNext_yes rfl (.passFails hmid)
  · rw [herror, ← hwanted]
    exact .ifNext_no hnext .mistake

theorem symbol {x : Symbol} {next : Recipe α} {f : Parsed Position s.length → Result α n}
    (h : ∀ p mid, ∀ hread : (expectSymbol x s).Reads p mid, Settled mid →
      Runs opened next mid (f ⟨p, mid, hread.lt⟩).ending) :
    Runs opened (.symbol x next) s (Result.ending (expectSymbol x s >>= f)) :=
  .token rfl h

theorem keyword {k : Keyword} {next : Recipe α} {f : Parsed Position s.length → Result α n}
    (h : ∀ p mid, ∀ hread : (Parse.expect (.keyword k) s).Reads p mid, Settled mid →
      Runs opened next mid (f ⟨p, mid, hread.lt⟩).ending) :
    Runs opened (.keyword k next) s (Result.ending (Parse.expect (.keyword k) s >>= f)) :=
  .token rfl h

theorem brace {next : Recipe α} {f : Parsed Position s.length → Result α n}
    (h : ∀ p mid, ∀ hread : (expectSymbol .openBrace s).Reads p mid, Settled mid →
      Runs p next mid (f ⟨p, mid, hread.lt⟩).ending) :
    Runs opened (.brace next) s (Result.ending (expectSymbol .openBrace s >>= f)) := by
  obtain ⟨p, mid, rfl, hmid⟩ | ⟨p, mid, e, rfl, hmid, herror⟩ | ⟨hnext, herror⟩ :=
    expect_cases (.symbol .openBrace) s
  · obtain ⟨hlt, heq⟩ := expectSymbol_reads.2 ⟨rfl, hmid⟩
    rw [heq]
    exact .ifNext_yes rfl (.enter hmid (h p mid ⟨hlt, heq⟩ hmid))
  · rw [expectSymbol, herror]
    exact .ifNext_yes rfl (.enterFails hmid)
  · rw [expectSymbol, herror]
    exact .ifNext_no hnext .mistake

theorem name {next : String → Recipe α} {f : Parsed String s.length → Result α n}
    (h : ∀ text mid, ∀ hread : (expectName s).Reads text mid, Settled mid →
      Runs opened (next text) mid (f ⟨text, mid, hread.lt⟩).ending) :
    Runs opened (.name next) s (Result.ending (expectName s >>= f)) := by
  refine .look ?_
  cases s with
  | finish p => exact .mistake
  | failure e => exact .mistake
  | cons t rest =>
    obtain ⟨token, p⟩ := t
    cases token with
    | name text =>
      have hrun := fun hset => h text rest (expectName_reads.2 ⟨p, rfl, hset⟩) hset
      cases hset : Parse.lookAhead rest with
      | error e =>
        rw [expectName, hset]
        exact .passFails hset
      | ok u =>
        rw [expectName, hset]
        exact .pass hset (hrun hset)
    | _ => exact .mistake

end Runs

theorem semicolons_runs {opened : Position} {s : Stream} (hs : Settled s) :
    Runs opened Piece.semicolons.recipe s (skipSemicolons s).ending := by
  induction s with
  | finish p => exact .ifNext_no nofun .done
  | failure e => exact .ifNext_no nofun .done
  | cons t rest ih =>
    rw [skipSemicolons]
    split
    · rename_i ht
      refine .ifNext_yes (congrArg some ht) (.lookAhead fun hrest => ?_)
      exact .bind hrest (ih hrest) fun _ _ _ _ => .of_ok
    · rename_i ht
      exact .ifNext_no (fun hs => ht (Option.some.inj hs)) .of_ok

theorem eq_numeral_of_opening {t : Token} {defect : Defect}
    (ho : Opening.ofToken? t = some (.literal (.error defect))) :
    ∃ text, t = .numeral text ∧ defect = .badNumeral text ∧
      Number.ofLiteral? text.toList = none := by
  unfold Opening.ofToken? at ho
  split at ho
  · split at ho
    · cases ho
    · rename_i text _ hx
      cases ho
      exact ⟨text, rfl, rfl, hx⟩
  all_goals cases ho

-- The recursion is that of the readers. Each call is on fewer tokens, or on as many and further
-- down.
mutual

theorem expression_runs {level : Level} {opened : Position} {s : Stream} (hs : Settled s) :
    Runs opened (Piece.expression level).recipe s (expression level s).ending := by
  rw [expression]
  refine .bind hs (operand_runs hs) fun left mid h hmid => ?_
  have hlt := h.lt
  exact .bind hmid (climb_runs hmid) fun _ _ _ _ => .of_ok
termination_by 6 * s.length + 2
decreasing_by all_goals omega

theorem climb_runs {level : Level} {left : Expr} {opened : Position} {s : Stream}
    (hs : Settled s) :
    Runs opened (Piece.climb level left).recipe s (climb level left s).ending := by
  refine .look ?_
  cases hcons : s with
  | finish p =>
    rw [climb]
    exact .of_ok
  | failure e => cases hcons ▸ hs
  | cons t s' =>
    have hlen : s.length = s'.length + 1 := by rw [hcons, Stream.length]
    rw [climb]
    cases hc : Continuation.ofToken? t.token with
    | none =>
      simp only [nextToken, Option.bind_some, hc]
      exact .of_ok
    | some c =>
      simp only [nextToken, Option.bind_some, hc]
      by_cases hlevel : c.level ≤ level
      · rw [if_pos hlevel, if_pos hlevel]
        exact .of_ok
      rw [if_neg hlevel, if_neg hlevel]
      cases c with
      | assign op =>
        rw [Recipe.continuation]
        cases hplace : left.place? with
        | none => exact .mistake
        | some place =>
          refine .lookAhead fun hset => ?_
          refine .bind hset (expression_runs hset) fun value mid h hmid => ?_
          have hlt := h.lt
          exact .bind hmid (climb_runs hmid) fun _ _ _ _ => .of_ok
      | conditional =>
        refine .lookAhead fun hset => ?_
        refine .bind hset (expression_runs hset) fun consequence mid h hmid => ?_
        refine .symbol fun _ mid' h' hmid' => ?_
        have hlt := h.lt
        have hlt' := h'.lt
        refine .bind hmid' (expression_runs hmid') fun alternative after h'' hafter => ?_
        have hlt'' : after.length < mid'.length := h''.lt
        exact .bind hafter (climb_runs hafter) fun _ _ _ _ => .of_ok
      | binary op =>
        refine .lookAhead fun hset => ?_
        refine .bind hset (expression_runs hset) fun right mid h hmid => ?_
        have hlt := h.lt
        exact .bind hmid (climb_runs hmid) fun _ _ _ _ => .of_ok
      | step op =>
        rw [Recipe.continuation]
        cases hplace : left.place? with
        | none => exact .mistake
        | some place =>
          refine .lookAhead fun hset => ?_
          exact .bind hset (climb_runs hset) fun _ _ _ _ => .of_ok
      | dot =>
        refine .lookAhead fun hset => ?_
        refine .name fun text mid h hmid => ?_
        have hlt := h.lt
        refine .ite ?_ ?_
        · refine .bind hmid arguments_runs fun args after h' hafter => ?_
          have hlt' : after.length < mid.length := h'.lt
          exact .bind hafter (climb_runs hafter) fun _ _ _ _ => .of_ok
        · refine .bind hmid subscripts_runs fun subs after h' hafter => ?_
          have hlt' : after.length < mid.length + 1 := h'.lt
          exact .bind hafter (climb_runs hafter) fun _ _ _ _ => .of_ok
termination_by 6 * s.length
decreasing_by all_goals omega

theorem operand_runs {opened : Position} {s : Stream} (hs : Settled s) :
    Runs opened Piece.operand.recipe s (operand s).ending := by
  refine .look ?_
  cases hcons : s with
  | finish p =>
    rw [operand]
    exact .mistake
  | failure e => cases hcons ▸ hs
  | cons t s' =>
    have hlen : s.length = s'.length + 1 := by rw [hcons, Stream.length]
    rw [hcons] at hs
    rw [operand]
    cases ho : Opening.ofToken? t.token with
    | none =>
      simp only [nextToken, Option.bind_some, ho]
      exact .mistake
    | some o =>
      simp only [nextToken, Option.bind_some, ho]
      cases o with
      | literal r =>
        cases r with
        | ok e => exact .lookAhead fun hset => .of_ok
        | error defect =>
          obtain ⟨token, p⟩ := t
          obtain ⟨text, rfl, rfl, hx⟩ := eq_numeral_of_opening ho
          -- The token after the numeral is looked at first, and a mistake there wins.
          cases hset : lookAhead s' with
          | error e => exact .badNumeralFails hset
          | ok u => exact .badNumeral hset hx
      | «variable» scope text =>
        refine .lookAhead fun hset => ?_
        exact .bind hset subscripts_runs fun _ _ _ _ => .of_ok
      | name text =>
        refine .lookAhead fun hset => .ite ?_ (.ite ?_ .of_ok)
        · refine .symbol fun _ mid h hmid => ?_
          refine .name fun second mid' h' hmid' => ?_
          have hlt := h.lt
          have hlt' := h'.lt
          exact .bind hmid' arguments_runs fun _ _ _ _ => .of_ok
        · exact .bind hset arguments_runs fun _ _ _ _ => .of_ok
      | unary op =>
        refine .lookAhead fun hset => ?_
        exact .bind hset (expression_runs hset) fun _ _ _ _ => .of_ok
      | parenthesis =>
        refine .lookAhead fun hset => ?_
        refine .bind hset (expression_runs hset) fun e mid _ hmid => ?_
        exact .symbol fun _ _ _ _ => .of_ok
      | creation => exact .bind hs creation_runs fun _ _ _ _ => .of_ok
termination_by 6 * s.length + 1
decreasing_by all_goals simp only [Stream.length] at *; omega

theorem sequence_runs {opened : Position} {s : Stream} (hs : Settled s) :
    Runs opened Piece.sequence.recipe s (sequence s).ending := by
  rw [sequence]
  refine .bind hs (expression_runs hs) fun e mid h hmid => .ite ?_ .of_ok
  refine .symbol fun _ mid' h' hmid' => ?_
  have hlt := h.lt
  have hlt' := h'.lt
  exact .bind hmid' (sequence_runs hmid') fun _ _ _ _ => .of_ok
termination_by 6 * s.length + 3
decreasing_by all_goals omega

theorem sequenceUntil_runs {close : Symbol} {opened : Position} {s : Stream} (hs : Settled s) :
    Runs opened (Piece.sequenceUntil close).recipe s (sequenceUntil close s).ending := by
  rw [sequenceUntil]
  exact .ite .of_ok (.bind hs (sequence_runs hs) fun _ _ _ _ => .of_ok)
termination_by 6 * s.length + 4
decreasing_by all_goals omega

theorem arguments_runs {opened : Position} {s : Stream} :
    Runs opened Piece.arguments.recipe s (arguments s).ending := by
  rw [arguments]
  refine .symbol fun _ mid h hmid => ?_
  have hlt := h.lt
  refine .bind hmid (sequenceUntil_runs hmid) fun es mid' _ hmid' => ?_
  exact .symbol fun _ _ _ _ => .of_ok
termination_by 6 * s.length
decreasing_by all_goals omega

theorem subscripts_runs {opened : Position} {s : Stream} :
    Runs opened Piece.subscripts.recipe s (subscripts s).ending := by
  rw [subscripts]
  refine .ite ?_ .of_ok
  refine .symbol fun _ mid h hmid => ?_
  have hlt := h.lt
  refine .bind hmid (sequenceUntil_runs hmid) fun es mid' _ hmid' => ?_
  exact .symbol fun _ _ _ _ => .of_ok
termination_by 6 * s.length
decreasing_by all_goals omega

theorem creation_runs {opened : Position} {s : Stream} :
    Runs opened Piece.creation.recipe s (creation s).ending := by
  rw [creation]
  refine .keyword fun _ s₁ h₁ hs₁ => ?_
  have hlt₁ := h₁.lt
  refine .bind hs₁ classRef_runs fun c s₂ h₂ hs₂ => ?_
  refine .symbol fun _ s₃ h₃ hs₃ => ?_
  have hlt₂ := h₂.lt
  have hlt₃ := h₃.lt
  refine .bind hs₃ (optional_runs hs₃) fun text s₄ h₄ hs₄ => ?_
  refine .symbol fun _ s₅ h₅ hs₅ => ?_
  have hlt₄ := h₄.lt
  have hlt₅ := h₅.lt
  exact .ite (.bind hs₅ objectBlock_runs fun _ _ _ _ => .of_ok) .of_ok
termination_by 6 * s.length
decreasing_by all_goals omega

theorem classRef_runs {opened : Position} {s : Stream} :
    Runs opened Piece.classRef.recipe s (classRef s).ending := by
  rw [classRef]
  refine .ite ?_ (.name fun _ _ _ _ => .of_ok)
  refine .symbol fun _ mid h hmid => ?_
  have hlt := h.lt
  refine .bind hmid (expression_runs hmid) fun e mid' _ hmid' => ?_
  exact .symbol fun _ _ _ _ => .of_ok
termination_by 6 * s.length
decreasing_by all_goals omega

theorem optional_runs {close : Symbol} {opened : Position} {s : Stream} (hs : Settled s) :
    Runs opened (Piece.optional close).recipe s (optional close s).ending := by
  rw [optional]
  exact .ite .of_ok (.bind hs (expression_runs hs) fun _ _ _ _ => .of_ok)
termination_by 6 * s.length + 3
decreasing_by all_goals omega

theorem objectBlock_runs {opened : Position} {s : Stream} :
    Runs opened Piece.objectBlock.recipe s (objectBlock s).ending := by
  rw [objectBlock]
  refine .brace fun opened mid h hmid => ?_
  have hlt := h.lt
  exact .bind hmid (objectItems_runs hmid) fun _ _ _ _ => .of_ok
termination_by 6 * s.length
decreasing_by all_goals omega

theorem objectItems_runs {opened : Position} {s : Stream} (hs : Settled s) :
    Runs opened Piece.objectItems.recipe s (objectItems opened s).ending := by
  rw [objectItems]
  refine .bind hs (semicolons_runs hs) fun _ mid h hmid => .look ?_
  have hlt := h.lt
  cases mid with
  | finish p => exact .unclosed
  | failure e => cases hmid
  | cons t s₁ =>
    obtain ⟨token, p⟩ := t
    dsimp only
    split
    · exact .lookAhead fun hset => .of_ok
    · refine .bind hmid creation_runs fun d s₂ h₂ hs₂ => ?_
      refine .symbol fun _ s₃ h₃ hs₃ => ?_
      have hlt₂ := h₂.lt
      have hlt₃ := h₃.lt
      exact .bind hs₃ (objectItems_runs hs₃) fun _ _ _ _ => .of_ok
    · refine .lookAhead fun hset => ?_
      refine .bind hset subscripts_runs fun subs s₂ h₂ hs₂ => ?_
      refine .symbol fun _ s₃ h₃ hs₃ => ?_
      have hlt₂ := h₂.lt
      have hlt₃ := h₃.lt
      refine .bind hs₃ (expression_runs hs₃) fun value s₄ h₄ hs₄ => ?_
      refine .symbol fun _ s₅ h₅ hs₅ => ?_
      have hlt₄ := h₄.lt
      have hlt₅ := h₅.lt
      exact .bind hs₅ (objectItems_runs hs₅) fun _ _ _ _ => .of_ok
    · have hitem : Recipe.objectItem (some token) = .mistake .item := by
        unfold Recipe.objectItem
        split <;> simp_all
      exact hitem ▸ .mistake
termination_by 6 * s.length + 5
decreasing_by all_goals simp only [Stream.length] at *; omega

end

section

variable {opened : Position} {s : Stream}

theorem condition_runs : Runs opened Piece.condition.recipe s (condition s).ending := by
  simp only [condition, Result.andThen_eq_bind, Result.map_eq_bind]
  refine .symbol fun _ mid _ hmid => .within ?_
  refine .bind hmid (expression_runs hmid) fun e mid' _ hmid' => .within ?_
  exact .symbol fun _ _ _ _ => .of_ok

theorem nextToken_endsLabels (hs : Settled s) :
    nextToken s ∈ [none, some (.symbol .colon), some (.keyword .or), some (.symbol .closeBrace),
      some (.symbol .semicolon)] ↔ endsLabels s = true := by
  cases s with
  | finish p => simp [nextToken, endsLabels]
  | failure e => cases hs
  | cons t rest => simp [nextToken, endsLabels]

theorem labels_runs {s : Stream} (hs : Settled s) :
    Runs opened Piece.labels.recipe s (labels s).ending := by
  rw [labels]
  refine .look ?_
  by_cases hends : endsLabels s = true
  · rw [if_pos hends, if_pos ((nextToken_endsLabels hs).2 hends)]
    exact .emptyLabel hends
  · rw [if_neg hends, if_neg fun h => hends ((nextToken_endsLabels hs).1 h)]
    refine .bind hs (expression_runs hs) fun e mid h hmid => .ite ?_ .of_ok
    refine .keyword fun _ mid' h' hmid' => ?_
    have hlt := h.lt
    have hlt' := h'.lt
    exact .bind hmid' (labels_runs hmid') fun _ _ _ _ => .of_ok
termination_by s.length
decreasing_by all_goals omega

theorem parameters_runs {s : Stream} (hs : Settled s) :
    Runs opened Piece.parameters.recipe s (parameters s).ending := by
  rw [parameters.eq_def]
  refine .ite .of_ok (.look ?_)
  generalize hcons : s = s' at hs ⊢
  split
  · rename_i name p after
    have hlen : s.length = after.length + 1 := by rw [hcons, Stream.length]
    refine .lookAhead fun hset => .ite (.within .of_ok) ?_
    refine .symbol fun _ mid h hmid => .within ?_
    have hlt := h.lt
    rw [Result.map_eq_bind]
    exact .bind hmid (parameters_runs hmid) fun _ _ _ _ => .of_ok
  · rename_i hother
    have hparameter : Recipe.parameter (nextToken s') = .mistake .parameter := by
      cases s' with
      | finish p => rfl
      | failure e => rfl
      | cons t rest =>
        obtain ⟨token, p⟩ := t
        cases token with
        | localVariable name => exact absurd rfl (hother name p rest)
        | _ => rfl
    exact hparameter ▸ .mistake
termination_by s.length
decreasing_by all_goals omega

theorem qualifiedName_runs : Runs opened Piece.qualifiedName.recipe s (qualifiedName s).ending := by
  simp only [qualifiedName, Result.andThenMaybe_eq_bind, Result.andThen_eq_bind,
    Result.map_eq_bind]
  refine .name fun text mid _ hmid => .within (.ite (.within ?_) .of_ok)
  refine .symbol fun _ mid' _ _ => .within ?_
  exact .name fun _ _ _ _ => .of_ok

theorem parentName_runs : Runs opened Piece.parentName.recipe s (parentName s).ending := by
  simp only [parentName, Result.andThen_eq_bind, Result.map_eq_bind]
  refine .ite (.within ?_) .of_ok
  refine .symbol fun _ mid _ _ => .within ?_
  exact .name fun _ _ _ _ => .of_ok

/-- The fields of a datablock are an object block, and objects in it are a mistake. -/
theorem Runs.fields {α : Type} {n : Nat} {next : List FieldInit → Recipe α}
    {f : Parsed (List FieldInit) s.length → Result α n} (hs : Settled s)
    (h : ∀ fields mid, ∀ hread : (datablockFields s).Reads fields mid, Settled mid →
      Runs opened (next fields) mid (f ⟨fields, mid, hread.lt⟩).ending) :
    Runs opened (.readFields next) s (Result.ending (datablockFields s >>= f)) := by
  have hblock : Runs opened Piece.objectBlock.recipe s (objectBlock s).ending := objectBlock_runs
  cases hread : objectBlock s with
  | error e =>
    rw [hread] at hblock
    simp only [datablockFields, hread]
    exact .readFieldsFails hblock
  | ok p =>
    obtain ⟨⟨fields, children⟩, mid, hlt⟩ := p
    rw [hread] at hblock
    have hmid := hblock.settled hs _ _ rfl
    cases children with
    | nil =>
      obtain ⟨hlt', heq⟩ := datablockFields_reads.2 ⟨hlt, hread⟩
      rw [heq]
      exact .readFields hblock (h fields mid ⟨hlt', heq⟩ hmid)
    | cons d ds =>
      have herror : datablockFields s =
          .error (.unexpected "field assignment" (Keyword.spelling .new) (Parse.next mid).2) := by
        simp [datablockFields, hread, Result.andThenMaybe]
      rw [herror]
      exact .nested ⟨hlt, hread⟩ hblock (List.cons_ne_nil d ds)

theorem datablock_runs : Runs opened Piece.datablock.recipe s (datablock s).ending := by
  simp only [datablock, Result.andThenMaybe_eq_bind, Result.andThen_eq_bind, Result.map_eq_bind]
  refine .keyword fun _ s₁ _ _ => .within ?_
  refine .name fun className s₂ _ _ => .within ?_
  refine .symbol fun _ s₃ _ _ => .within ?_
  refine .name fun text s₄ _ _ => .within ?_
  refine .symbol fun _ s₅ _ hs₅ => .within ?_
  refine .bind hs₅ parentName_runs fun parent s₆ _ hs₆ => .within ?_
  refine .fields hs₆ fun fields s₇ _ _ => .within ?_
  exact .symbol fun _ _ _ _ => .of_ok

theorem bareStatement_runs {k : Keyword} {st : Statement} :
    Runs opened (.keyword k <| .symbol .semicolon <| .done st) s (bareStatement k st s).ending := by
  simp only [bareStatement, Result.andThen_eq_bind, Result.map_eq_bind]
  refine .keyword fun _ mid _ _ => .within ?_
  exact .symbol fun _ _ _ _ => .of_ok

theorem returnStatement_runs :
    Runs opened (Recipe.statement (some .return)) s (returnStatement s).ending := by
  simp only [returnStatement, Result.andThenMaybe_eq_bind, Result.andThen_eq_bind,
    Result.map_eq_bind]
  refine .keyword fun _ mid _ hmid => .within ?_
  refine .bind hmid (optional_runs hmid) fun value mid' _ _ => .within ?_
  exact .symbol fun _ _ _ _ => .of_ok

theorem expressionStatement_runs (hs : Settled s) :
    Runs opened (Recipe.statement none) s (expressionStatement s).ending := by
  simp only [expressionStatement, Result.andThen_eq_bind, Result.map_eq_bind]
  refine .bind hs (expression_runs hs) fun e mid _ _ => .within ?_
  exact .symbol fun _ _ _ _ => .of_ok

end

theorem Runs.statementsUpTo {ends : List Token} {stop : Recipe (List Statement)}
    {others : Piece (List Statement)} {opened : Position} {t : Located} {s : Stream} {n : Nat}
    {c : Prop} [Decidable c] {r r' : Result (List Statement) n} (hc : c ↔ t.token ∈ ends)
    (h : Runs opened stop (.cons t s) r.ending)
    (h' : Runs opened (.read .statement fun first => .read others fun rest => .done (first :: rest))
      (.cons t s) r'.ending) :
    Runs opened (.statementsUpTo ends stop others (nextToken (.cons t s))) (.cons t s)
      (if c then r else r').ending := by
  rw [nextToken, Recipe.statementsUpTo]
  by_cases ht : c
  · rw [if_pos ht, if_pos (hc.1 ht)]
    exact h
  · rw [if_neg ht, if_neg fun hmem => ht (hc.2 hmem)]
    exact h'

theorem nextKeyword_eq_bind {s : Stream} :
    nextKeyword s = (nextToken s).bind Recipe.keywordOf? := by
  cases s with
  | finish p => rfl
  | failure e => rfl
  | cons t rest =>
    obtain ⟨token, p⟩ := t
    cases token <;> rfl

mutual

theorem statement_runs {opened : Position} {s : Stream} (hs : Settled s) :
    Runs opened Piece.statement.recipe s (statement s).ending := by
  rw [statement]
  refine .look ?_
  rw [← nextKeyword_eq_bind]
  -- The cases are the keywords in the order in which the reader tries them.
  generalize nextKeyword s = key
  split
  · exact .bind hs function_runs fun _ _ _ _ => .of_ok
  · refine .keyword fun _ s₁ h₁ hs₁ => ?_
    refine .name fun text s₂ h₂ hs₂ => ?_
    refine .brace fun opened s₃ h₃ hs₃ => ?_
    have hlt₁ := h₁.lt
    have hlt₂ := h₂.lt
    have hlt₃ := h₃.lt
    exact .bind hs₃ (functionsUntilBrace_runs hs₃) fun _ _ _ _ => .of_ok
  · exact .last datablock_runs
  · refine .keyword fun _ s₁ h₁ hs₁ => ?_
    refine .bind hs₁ condition_runs fun c s₂ h₂ hs₂ => ?_
    have hlt₁ := h₁.lt
    have hlt₂ := h₂.lt
    refine .bind hs₂ (body_runs hs₂) fun consequence s₃ h₃ hs₃ => ?_
    refine .branch ?_ .of_ok
    refine .keyword fun _ s₄ h₄ hs₄ => ?_
    have hlt₃ := h₃.lt
    have hlt₄ := h₄.lt
    exact .bind hs₄ (body_runs hs₄) fun _ _ _ _ => .of_ok
  · refine .keyword fun _ s₁ h₁ hs₁ => ?_
    refine .bind hs₁ condition_runs fun c s₂ h₂ hs₂ => ?_
    have hlt₁ := h₁.lt
    have hlt₂ := h₂.lt
    exact .bind hs₂ (body_runs hs₂) fun _ _ _ _ => .of_ok
  · refine .keyword fun _ s₁ h₁ hs₁ => ?_
    refine .symbol fun _ s₂ h₂ hs₂ => ?_
    refine .bind hs₂ (optional_runs hs₂) fun init s₃ h₃ hs₃ => ?_
    refine .symbol fun _ s₄ h₄ hs₄ => ?_
    refine .bind hs₄ (optional_runs hs₄) fun c s₅ h₅ hs₅ => ?_
    refine .symbol fun _ s₆ h₆ hs₆ => ?_
    refine .bind hs₆ (optional_runs hs₆) fun update s₇ h₇ hs₇ => ?_
    refine .symbol fun _ s₈ h₈ hs₈ => ?_
    have hlt₈ : s₈.length < s.length := by
      have := h₁.lt; have := h₂.lt; have := h₃.lt; have := h₄.lt
      have := h₅.lt; have := h₆.lt; have := h₇.lt; have := h₈.lt
      omega
    exact .bind hs₈ (body_runs hs₈) fun _ _ _ _ => .of_ok
  · refine .keyword fun _ mid h hmid => ?_
    have hlt := h.lt
    exact .bind hmid (switch_runs hmid) fun _ _ _ _ => .of_ok
  · refine .keyword fun _ mid h hmid => ?_
    have hlt := h.lt
    exact .bind hmid (switch_runs hmid) fun _ _ _ _ => .of_ok
  · exact bareStatement_runs
  · exact bareStatement_runs
  · exact returnStatement_runs
  · have hother : Recipe.statement key = Recipe.statement none := by
      unfold Recipe.statement
      split <;> simp_all
    rw [hother]
    exact expressionStatement_runs hs
termination_by 4 * s.length + 1
decreasing_by all_goals omega

theorem function_runs {opened : Position} {s : Stream} :
    Runs opened Piece.function.recipe s (function s).ending := by
  rw [function]
  refine .keyword fun _ s₁ h₁ hs₁ => ?_
  refine .bind hs₁ qualifiedName_runs fun name s₂ h₂ hs₂ => ?_
  refine .symbol fun _ s₃ h₃ hs₃ => ?_
  refine .bind hs₃ (parameters_runs hs₃) fun names s₄ h₄ hs₄ => ?_
  refine .symbol fun _ s₅ h₅ hs₅ => ?_
  have hlt₁ := h₁.lt
  have hlt₂ := h₂.lt
  have hlt₃ := h₃.lt
  have hlt₄ := h₄.lt
  have hlt₅ := h₅.lt
  exact .bind hs₅ block_runs fun _ _ _ _ => .of_ok
termination_by 4 * s.length
decreasing_by all_goals omega

theorem functionsUntilBrace_runs {opened : Position} {s : Stream} (hs : Settled s) :
    Runs opened Piece.functionsUntilBrace.recipe s (functionsUntilBrace opened s).ending := by
  rw [functionsUntilBrace]
  refine .bind hs (semicolons_runs hs) fun _ mid h hmid => .look ?_
  have hlt := h.lt
  cases mid with
  | finish p => exact .unclosed
  | failure e => cases hmid
  | cons t s₁ =>
    obtain ⟨token, p⟩ := t
    dsimp only
    split
    · refine .bind hmid function_runs fun f s₂ h₂ hs₂ => ?_
      have hlt₂ := h₂.lt
      exact .bind hs₂ (functionsUntilBrace_runs hs₂) fun _ _ _ _ => .of_ok
    · exact .lookAhead fun hset => .of_ok
    · have hitem : Recipe.packageItem (some token) = .mistake .function := by
        unfold Recipe.packageItem
        split <;> simp_all
      exact hitem ▸ .mistake
termination_by 4 * s.length + 2
decreasing_by all_goals simp only [Stream.length] at *; omega

theorem block_runs {opened : Position} {s : Stream} :
    Runs opened Piece.block.recipe s (block s).ending := by
  rw [block]
  refine .brace fun opened mid h hmid => ?_
  have hlt := h.lt
  exact .bind hmid (statementsUntilBrace_runs hmid) fun _ _ _ _ => .of_ok
termination_by 4 * s.length
decreasing_by all_goals omega

theorem statementsUntilBrace_runs {opened : Position} {s : Stream} (hs : Settled s) :
    Runs opened Piece.statementsUntilBrace.recipe s (statementsUntilBrace opened s).ending := by
  rw [statementsUntilBrace]
  refine .bind hs (semicolons_runs hs) fun _ mid h hmid => .look ?_
  have hlt := h.lt
  cases mid with
  | finish p => exact .unclosed
  | failure e => cases hmid
  | cons t s₁ =>
    refine .statementsUpTo (by simp) (.lookAhead fun hset => .of_ok) ?_
    refine .bind hmid (statement_runs hmid) fun first s₂ h₂ hs₂ => ?_
    have hlt₂ := h₂.lt
    exact .bind hs₂ (statementsUntilBrace_runs hs₂) fun _ _ _ _ => .of_ok
termination_by 4 * s.length + 2
decreasing_by all_goals simp only [Stream.length] at *; omega

theorem body_runs {opened : Position} {s : Stream} (hs : Settled s) :
    Runs opened Piece.body.recipe s (body s).ending := by
  rw [body]
  exact .ite (.last block_runs) (.bind hs (statement_runs hs) fun _ _ _ _ => .of_ok)
termination_by 4 * s.length + 2
decreasing_by all_goals omega

theorem switch_runs {kind : SwitchKind} {opened : Position} {s : Stream} (hs : Settled s) :
    Runs opened (Piece.switch kind).recipe s (switch kind s).ending := by
  rw [switch]
  refine .bind hs condition_runs fun subject s₁ h₁ hs₁ => ?_
  refine .brace fun opened s₂ h₂ hs₂ => ?_
  have hlt₁ := h₁.lt
  have hlt₂ := h₂.lt
  exact .bind hs₂ (switchItems_runs hs₂) fun _ _ _ _ => .of_ok
termination_by 4 * s.length
decreasing_by all_goals omega

theorem switchItems_runs {opened : Position} {default : Option (List Statement)} {s : Stream}
    (hs : Settled s) :
    Runs opened (Piece.switchItems default).recipe s (switchItems opened default s).ending := by
  rw [switchItems]
  refine .bind hs (semicolons_runs hs) fun _ mid h hmid => .look ?_
  have hlt := h.lt
  cases mid with
  | finish p => exact .unclosed
  | failure e => cases hmid
  | cons t s₁ =>
    obtain ⟨token, p⟩ := t
    dsimp only
    split
    · refine .lookAhead fun hset => ?_
      refine .bind hset (labels_runs hset) fun ls s₂ h₂ hs₂ => ?_
      refine .symbol fun _ s₃ h₃ hs₃ => ?_
      have hlt₂ := h₂.lt
      have hlt₃ := h₃.lt
      refine .bind hs₃ (caseBody_runs hs₃) fun b s₄ h₄ hs₄ => ?_
      have hlt₄ := h₄.lt
      exact .bind hs₄ (switchItems_runs hs₄) fun _ _ _ _ => .of_ok
    · refine .lookAhead fun hset => ?_
      refine .symbol fun _ s₂ h₂ hs₂ => ?_
      have hlt₂ := h₂.lt
      refine .bind hs₂ (caseBody_runs hs₂) fun b s₃ h₃ hs₃ => ?_
      have hlt₃ := h₃.lt
      exact .bind hs₃ (switchItems_runs hs₃) fun _ _ _ _ => .of_ok
    · exact .lookAhead fun hset => .of_ok
    · have hitem : Recipe.switchItem default (some token) = .mistake .switchItem := by
        unfold Recipe.switchItem
        split <;> simp_all
      exact hitem ▸ .mistake
termination_by 4 * s.length + 2
decreasing_by all_goals simp only [Stream.length] at *; omega

theorem caseBody_runs {opened : Position} {s : Stream} (hs : Settled s) :
    Runs opened Piece.caseBody.recipe s (caseBody opened s).ending := by
  rw [caseBody]
  refine .bind hs (semicolons_runs hs) fun _ mid h hmid => .look ?_
  have hlt := h.lt
  cases mid with
  | finish p => exact .unclosed
  | failure e => cases hmid
  | cons t s₁ =>
    refine .statementsUpTo Iff.rfl .of_ok ?_
    refine .bind hmid (statement_runs hmid) fun first s₂ h₂ hs₂ => ?_
    have hlt₂ := h₂.lt
    exact .bind hs₂ (caseBody_runs hs₂) fun _ _ _ _ => .of_ok
termination_by 4 * s.length + 2
decreasing_by all_goals simp only [Stream.length] at *; omega

end

end TorqueScript.Parse
