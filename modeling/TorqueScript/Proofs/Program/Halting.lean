import TorqueScript.Proofs.Program.Calls

/-!
Reading ends. A turn of a loop that goes round again has taken a token, whichever loop it is, and
so every call of a reader answers as the reader of streams that it stands for, once the budget
covers the tokens left: it is five calls deep for each of them.
-/

namespace TorqueScript

namespace Descent

open Parse (Level Parsed Result)

section

variable {self : {α : Type} → Goal α → Reading α} {rank : Nat} {w : Window}

section

variable {σ ρ : Type} {k : Loop σ} {state : σ} {bound : Nat}
  {P : Except SourceError ρ → σ → Window → Prop} {r : Except SourceError ρ}

/-- How a turn of a loop agrees with `r`: where it leaves the loop, as the relation `P` says; where
it goes round again, fewer tokens than `bound` are left, and what the loop goes on to read agrees
with `r`. -/
def Turns (self : {α : Type} → Goal α → Reading α) (k : Loop σ) (bound : Nat)
    (P : Except SourceError ρ → σ → Window → Prop) (r : Except SourceError ρ) :
    Bool × σ → Window → Prop
  | (true, state), w => w.stream.length < bound ∧ Agrees P (self (.loop k state)) w r
  | (false, state), w => P r state w

theorem Turns.again (hlt : w.stream.length < bound) (h : Agrees P (self (.loop k state)) w r) :
    Turns self k bound P r (true, state) w :=
  ⟨hlt, h⟩

theorem Agrees.again (hlt : w.stream.length < bound) (h : Agrees P (self (.loop k state)) w r) :
    Agrees (Turns self k bound P) (pure (true, state)) w r :=
  .answer (.again hlt h)

theorem Agrees.leave (h : P r state w) : Agrees (Turns self k bound P) (pure (false, state)) w r :=
  .answer h

/-- A turn and what it leads to. -/
theorem Agrees.loop (h : Agrees (Turns self k bound P) (turn self k state) w r) :
    Agrees P (step self (.loop k state)) w r := by
  obtain ⟨q, hq, hrel⟩ := h
  cases q with
  | error e => exact ⟨.error e, run_bind_error hq, hrel⟩
  | ok p =>
    obtain ⟨⟨again, state'⟩, w'⟩ := p
    cases again with
    | false => exact ⟨.ok (state', w'), run_bind_ok hq, hrel⟩
    | true =>
      obtain ⟨q, hq', hrel⟩ := hrel.2
      exact ⟨q, (run_bind_ok hq).trans hq', hrel⟩

end

/-- A turn that passes over semicolons and then looks at what comes next. -/
theorem Agrees.skip {α ρ : Type} {P : Except SourceError ρ → α → Window → Prop}
    {k : Seen → Reading α} {g : Parsed Unit (w.stream.length + 1) → Except SourceError ρ}
    (h : Answers self rank w) (hrank : 0 < rank)
    (hfinish : ∀ p w' hp, w'.stream = .finish p →
      Agrees P (k (.finish p)) w' (g ⟨(), .finish p, hp⟩))
    (htoken : ∀ t rest w' hp, w'.stream = .cons t rest → rest.length < w.stream.length →
      Agrees P (k (.token t)) w' (g ⟨(), .cons t rest, hp⟩)) :
    Agrees P (self (.loop .semicolons ()) >>= fun _ => Descent.look >>= k) w
      (Parse.skipSemicolons w.stream >>= g) := by
  refine .bind (h.now (.loop .semicolons ()) hrank (Nat.le_refl _)) fun _ w' hlt => ?_
  generalize hs : w'.stream = s at hlt
  cases s with
  | failure e => exact absurd hs Window.stream_ne_failure
  | finish p => exact .look_finish hs (hfinish p w' hlt hs)
  | cons t rest => exact .look_token hs (htoken t rest w' hlt hs (Nat.lt_of_succ_lt_succ hlt))

theorem turn_semicolons {s : Stream} (hs : w.stream = s) (h : Answers self 0 w) :
    Agrees (Turns self .semicolons w.stream.length (Gives id)) (turn self .semicolons ()) w
      (Parse.skipSemicolons s) := by
  cases s with
  | failure e => exact absurd hs Window.stream_ne_failure
  | finish p =>
    refine .isNext_eq (b := false) (by rw [hs]; rfl) ?_
    exact .leave (.ok hs rfl)
  | cons t rest =>
    rw [Parse.skipSemicolons]
    by_cases ht : t.token = .symbol .semicolon
    · rw [if_pos ht]
      refine .isNext_eq (b := true) (by rw [hs]; exact decide_eq_true ht) (.advance hs ?_)
      rintro w₁ rfl
      have hlt : w₁.stream.length < w.stream.length := by
        rw [hs]
        exact Nat.lt_succ_self _
      refine .again hlt (.finish (h.later (.loop .semicolons ()) hlt) ?_)
      exact fun _ _ _ => ⟨_, _, rfl, rfl⟩
    · rw [if_neg ht]
      refine .isNext_eq (b := false) (by rw [hs]; exact decide_eq_false ht) ?_
      exact .leave (.ok hs rfl)

section

variable {opened : Position}

theorem Agrees.statements_cons {done : List Statement} {first : Statement}
    {x : Reading (List Statement)} {s s' : Stream} {r : Except SourceError (List Statement)}
    (h : Agrees ((Target.statements (done ++ [first])).relation s) x w r) :
    Agrees ((Target.statements done).relation s') x w
      (r >>= fun others => pure (first :: others)) := by
  obtain ⟨q, hq, hrel⟩ := h
  refine ⟨q, hq, ?_⟩
  cases q with
  | error e =>
    subst hrel
    rfl
  | ok p =>
    obtain ⟨hend, others, rfl, hdone⟩ := hrel
    exact ⟨hend, first :: others, rfl, by rw [← hdone, List.append_assoc]; rfl⟩

theorem turn_program {done : List Statement} (h : Answers self 4 w) :
    Agrees (Turns self .program w.stream.length ((Target.statements done).relation w.stream))
      (turn self .program done) w (Parse.statements w.stream) := by
  rw [Parse.statements]
  refine .skip h (by decide) (fun p w₁ _ hs => ?_) fun t rest w₁ _ hs hlt => ?_
  · exact .leave ⟨by rw [hs]; rfl, [], rfl, List.append_nil _⟩
  · refine .bind (h.next .statement (by decide) hs hlt) fun first w₂ h₂ => ?_
    have hlt₂ : w₂.stream.length < w.stream.length := Nat.lt_of_lt_of_le h₂ hlt
    exact .again hlt₂ (.statements_cons (h.later (.loop .program (done ++ [first])) hlt₂))

theorem turn_block {done : List Statement} (h : Answers self 4 w) :
    Agrees (Turns self (.block opened) w.stream.length (Gives (done ++ ·)))
      (turn self (.block opened) done) w (Parse.statementsUntilBrace opened w.stream) := by
  rw [Parse.statementsUntilBrace]
  refine .skip h (by decide) (fun _ _ _ _ => .throw) fun t rest w₁ _ hs hlt => ?_
  dsimp only
  by_cases ht : t.token = .symbol .closeBrace
  · rw [if_pos ht, if_pos ht]
    refine .advance hs ?_
    rintro w₂ rfl
    exact .leave (.ok rfl (List.append_nil _))
  · rw [if_neg ht, if_neg ht]
    refine .bind (h.next .statement (by decide) hs hlt) fun first w₂ h₂ => ?_
    have hlt₂ : w₂.stream.length < w.stream.length := Nat.lt_of_lt_of_le h₂ hlt
    refine .again hlt₂ (.finish (h.later (.loop (.block opened) (done ++ [first])) hlt₂) ?_)
    exact fun _ _ _ => ⟨_, _, rfl, by simp⟩

theorem turn_caseBody {done : List Statement} (h : Answers self 4 w) :
    Agrees (Turns self (.caseBody opened) w.stream.length (Gives (done ++ ·)))
      (turn self (.caseBody opened) done) w (Parse.caseBody opened w.stream) := by
  rw [Parse.caseBody]
  refine .skip h (by decide) (fun _ _ _ _ => .throw) fun t rest w₁ _ hs hlt => ?_
  dsimp only
  by_cases ht : t.token ∈ [.keyword .case, .keyword .default, .symbol .closeBrace]
  · rw [if_pos ht, if_pos ht]
    exact .leave (.ok hs (List.append_nil _))
  · rw [if_neg ht, if_neg ht]
    refine .bind (h.next .statement (by decide) hs hlt) fun first w₂ h₂ => ?_
    have hlt₂ : w₂.stream.length < w.stream.length := Nat.lt_of_lt_of_le h₂ hlt
    refine .again hlt₂ (.finish (h.later (.loop (.caseBody opened) (done ++ [first])) hlt₂) ?_)
    exact fun _ _ _ => ⟨_, _, rfl, by simp⟩

theorem turn_switchItems {cases : List SwitchCase} {default : Option (List Statement)}
    (h : Answers self 1 w) :
    Agrees (Turns self (.switchItems opened) w.stream.length
        (Gives fun (more, default) => (cases ++ more, default)))
      (turn self (.switchItems opened) (cases, default)) w
      (Parse.switchItems opened default w.stream) := by
  rw [Parse.switchItems]
  refine .skip h (by decide) (fun _ _ _ _ => .throw) fun t rest w₁ _ hs hlt => ?_
  obtain ⟨t, p⟩ := t
  cases t with
  | keyword k =>
    cases k with
    | case =>
      refine .advance hs ?_
      rintro w₂ rfl
      refine .bind (h.later (.loop .labels []) hlt) fun labels w₃ h₃ => ?_
      refine .bind (expect_agrees _) fun _ w₄ h₄ => ?_
      refine .bind (h.later (.loop (.caseBody opened) []) (by omega)) fun body w₅ h₅ => ?_
      have hlt₅ : w₅.stream.length < w.stream.length := by omega
      refine .again hlt₅ (.finish (h.later (.loop (.switchItems opened) (_, default)) hlt₅) ?_)
      exact fun (_, _) _ _ => ⟨_, _, rfl, by simp⟩
    | default =>
      refine .advance hs ?_
      rintro w₂ rfl
      refine .bind (expect_agrees _) fun _ w₃ h₃ => ?_
      refine .bind (h.later (.loop (.caseBody opened) []) (by omega)) fun body w₄ h₄ => ?_
      have hlt₄ : w₄.stream.length < w.stream.length := by omega
      refine .again hlt₄ (.finish (h.later (.loop (.switchItems opened) (cases, _)) hlt₄) ?_)
      exact fun (_, _) _ _ => ⟨_, _, rfl, rfl⟩
    | _ => exact .mistake hs
  | symbol x =>
    cases x with
    | closeBrace =>
      refine .advance hs ?_
      rintro w₂ rfl
      exact .leave (.ok rfl (by simp))
    | _ => exact .mistake hs
  | _ => exact .mistake hs

theorem turn_functions {done : List FunctionDecl} (h : Answers self 1 w) :
    Agrees (Turns self (.functions opened) w.stream.length (Gives (done ++ ·)))
      (turn self (.functions opened) done) w (Parse.functionsUntilBrace opened w.stream) := by
  rw [Parse.functionsUntilBrace]
  refine .skip h (by decide) (fun _ _ _ _ => .throw) fun t rest w₁ _ hs hlt => ?_
  obtain ⟨t, p⟩ := t
  cases t with
  | keyword k =>
    cases k with
    | function =>
      refine .bind (h.next .function (by decide) hs hlt) fun f w₂ h₂ => ?_
      have hlt₂ : w₂.stream.length < w.stream.length := Nat.lt_of_lt_of_le h₂ hlt
      refine .again hlt₂ (.finish (h.later (.loop (.functions opened) (done ++ [f])) hlt₂) ?_)
      exact fun _ _ _ => ⟨_, _, rfl, by simp⟩
    | _ => exact .mistake hs
  | symbol x =>
    cases x with
    | closeBrace =>
      refine .advance hs ?_
      rintro w₂ rfl
      exact .leave (.ok rfl (List.append_nil _))
    | _ => exact .mistake hs
  | _ => exact .mistake hs

theorem turn_objectItems {fields : List FieldInit} {children : List ObjectDecl}
    (h : Answers self 1 w) :
    Agrees (Turns self (.objectItems opened) w.stream.length
        (Gives fun (fs, ds) => (fields ++ fs, children ++ ds)))
      (turn self (.objectItems opened) (fields, children)) w
      (Parse.objectItems opened w.stream) := by
  rw [Parse.objectItems]
  refine .skip h (by decide) (fun _ _ _ _ => .throw) fun t rest w₁ _ hs hlt => ?_
  obtain ⟨t, p⟩ := t
  cases t with
  | keyword k =>
    cases k with
    | new =>
      refine .bind (h.next .creation (by decide) hs hlt) fun d w₂ h₂ => ?_
      refine .bind (expect_agrees _) fun _ w₃ h₃ => ?_
      have hlt₃ : w₃.stream.length < w.stream.length := h₃.trans (Nat.lt_of_lt_of_le h₂ hlt)
      refine .again hlt₃ (.finish (h.later (.loop (.objectItems opened) (fields, _)) hlt₃) ?_)
      exact fun (_, _) _ _ => ⟨_, _, rfl, by simp⟩
    | _ => exact .mistake hs
  | symbol x =>
    cases x with
    | closeBrace =>
      refine .advance hs ?_
      rintro w₂ rfl
      exact .leave (.ok rfl (by simp))
    | _ => exact .mistake hs
  | name name =>
    refine .advance hs ?_
    rintro w₂ rfl
    refine .bind (h.later .subscripts hlt) fun subs w₃ h₃ => ?_
    refine .bind (expect_agrees _) fun _ w₄ h₄ => ?_
    refine .bind (h.later (.expression Level.lowest) (by omega)) fun value w₅ h₅ => ?_
    refine .bind (expect_agrees _) fun _ w₆ h₆ => ?_
    have hlt₆ : w₆.stream.length < w.stream.length := by omega
    refine .again hlt₆ (.finish (h.later (.loop (.objectItems opened) (_, children)) hlt₆) ?_)
    exact fun (_, _) _ _ => ⟨_, _, rfl, by simp⟩
  | _ => exact .mistake hs

end

theorem endsLabels_current : turn.endsLabels w.current = Parse.endsLabels w.stream := by
  obtain ⟨p, hs⟩ | ⟨t, rest, hs⟩ := w.stream_cases
  · rw [hs, Window.current_of_finish hs]
    rfl
  · rw [hs, (Window.current_of_cons hs).1]
    rfl

theorem turn_labels {done : List Expr} (h : Answers self 3 w) :
    Agrees (Turns self .labels w.stream.length (Gives (done ++ ·))) (turn self .labels done) w
      (Parse.labels w.stream) := by
  rw [Parse.labels]
  refine .look ?_
  by_cases hends : Parse.endsLabels w.stream = true
  · rw [endsLabels_current, if_pos hends, if_pos hends, Window.next_stream]
    exact .throw
  · rw [endsLabels_current, if_neg hends, if_neg hends]
    refine .bind (h.now (.expression Level.lowest) (by decide) (Nat.le_refl _)) fun e w₁ h₁ => ?_
    refine .isNext (fun hnext => ?_) (.leave (.ok rfl rfl))
    refine .bind (advance_agrees hnext) fun _ w₂ h₂ => ?_
    have hlt₂ : w₂.stream.length < w.stream.length := h₂.trans h₁
    refine .again hlt₂ (.finish (h.later (.loop .labels (done ++ [e])) hlt₂) ?_)
    exact fun _ _ _ => ⟨_, _, rfl, by simp⟩

theorem turn_parameters {done : List String} (h : Answers self 0 w) :
    Agrees (Turns self .parameters w.stream.length (Gives (done ++ ·)))
      (turn self .parameters done) w (Parse.parameters w.stream) := by
  rw [Parse.parameters.eq_def]
  refine .isNext (fun hnext => .leave (.ok rfl (List.append_nil _))) ?_
  generalize hs : w.stream = s
  cases s with
  | failure e => exact absurd hs Window.stream_ne_failure
  | finish p => exact .look_finish hs (.mistake hs)
  | cons t rest =>
    obtain ⟨t, p⟩ := t
    refine .look_token hs ?_
    cases t with
    | localVariable name =>
      refine .advance hs ?_
      rintro w₁ rfl
      have hw : w.stream.length = w₁.stream.length + 1 := by rw [hs]; rfl
      have hagain {w' : Window} (hle : w'.stream.length ≤ w₁.stream.length) :
          Agrees (Gives (done ++ ·)) (self (.loop .parameters (done ++ [name]))) w'
            ((Parse.parameters w'.stream).map (name :: ·)) :=
        .mapped (h.later (.loop .parameters (done ++ [name])) (by omega)) (by simp)
      refine .isNext (fun hclose => ?_) ?_
      · -- The next turn only finds the parenthesis again.
        have hstay : Parse.stay [name] w₁.stream =
            (Parse.parameters w₁.stream).map (name :: ·) := by
          rw [Parse.parameters.eq_def, if_pos (show Parse.isSymbol .closeParen _ = _ from hclose)]
          rfl
        rw [hstay]
        exact .again (Nat.lt_succ_self _) (hagain (Nat.le_refl _)).within
      · refine .bind (expect_agrees _) fun _ w₂ h₂ => ?_
        exact .again (Nat.lt_succ_of_lt h₂) (hagain (Nat.le_of_lt h₂)).within
    | _ => exact .mistake hs

theorem turn_expressions {done : List Expr} (h : Answers self 0 w) :
    Agrees (Turns self .expressions w.stream.length (Gives (done ++ ·)))
      (turn self .expressions done) w (Parse.moreExpressions w.stream) := by
  rw [Parse.moreExpressions_eq]
  refine .isNext (fun hnext => ?_) (.leave (.ok rfl (List.append_nil _)))
  refine .bind (advance_agrees hnext) fun _ w₁ h₁ => ?_
  dsimp only
  rw [Parse.sequence_eq, bind_assoc]
  refine .bind (h.later (.expression Level.lowest) h₁) fun e w₂ h₂ => ?_
  have hlt₂ : w₂.stream.length < w.stream.length := h₂.trans h₁
  dsimp only
  rw [bind_assoc]
  refine .again hlt₂ (.finish (h.later (.loop .expressions (done ++ [e])) hlt₂) ?_)
  exact fun _ _ _ => ⟨_, _, rfl, by simp⟩

theorem Turns.climb {level : Level} {e : Expr} {w₀ : Window} {n : Nat}
    {g : Parsed Expr (w.stream.length + 1) → Result Expr n} (h : Answers self rank w₀)
    (hlt : w.stream.length < w₀.stream.length)
    (hg : ∀ a s, ∀ hs : s.length < w.stream.length + 1, ∃ hs', g ⟨a, s, hs⟩ = .ok ⟨a, s, hs'⟩) :
    Turns self (.climb level) w₀.stream.length (Gives id) (Parse.climb level e w.stream >>= g)
      (true, e) w := by
  refine .again hlt (.finish (h.later (.loop (.climb level) e) hlt) fun a s hs => ?_)
  obtain ⟨hs', hg⟩ := hg a s hs
  exact ⟨a, hs', hg, rfl⟩

theorem turn_climb {level : Level} {left : Expr} {s : Stream} (hs : w.stream = s)
    (h : Answers self 0 w) :
    Agrees (Turns self (.climb level) w.stream.length (Gives id))
      (turn self (.climb level) left) w (Parse.climb level left s) := by
  cases s with
  | failure e => exact absurd hs Window.stream_ne_failure
  | finish p =>
    rw [Parse.climb]
    exact .look_finish hs (.leave (.ok hs rfl))
  | cons t rest =>
    have hw : w.stream.length = rest.length + 1 := by rw [hs]; rfl
    rw [Parse.climb]
    refine .look_token hs ?_
    dsimp only
    cases Parse.Continuation.ofToken? t.token with
    | none => exact .leave (.ok hs rfl)
    | some c =>
      dsimp only
      by_cases hlevel : c.level ≤ level
      · rw [if_pos hlevel, if_pos hlevel]
        exact .leave (.ok hs rfl)
      · rw [if_neg hlevel, if_neg hlevel]
        refine .post ?_
        cases c with
        | assign op =>
          rw [continued]
          cases left.place? with
          | none => exact .mistake hs
          | some place =>
            refine .advance hs ?_
            rintro w₁ rfl
            refine .bind (h.later (.expression Level.lowest) (by omega)) fun value w₂ h₂ => ?_
            exact .answer (.climb h (by omega) fun _ _ _ => ⟨_, rfl⟩)
        | conditional =>
          refine .advance hs ?_
          rintro w₁ rfl
          refine .bind (h.later (.expression Level.lowest) (by omega)) fun consequence w₂ h₂ => ?_
          refine .bind (expect_agrees _) fun _ w₃ (h₃ : _ < w₂.stream.length) => ?_
          refine .bind (h.later (.expression Level.assignment) (by omega))
            fun alternative w₄ (h₄ : _ < w₃.stream.length) => ?_
          exact .answer (.climb h (by omega) fun _ _ _ => ⟨_, rfl⟩)
        | binary op =>
          refine .advance hs ?_
          rintro w₁ rfl
          refine .bind (h.later (.expression (Parse.binaryLevel op)) (by omega))
            fun right w₂ h₂ => ?_
          exact .answer (.climb h (by omega) fun _ _ _ => ⟨_, rfl⟩)
        | step op =>
          rw [continued]
          cases left.place? with
          | none => exact .mistake hs
          | some place =>
            refine .advance hs ?_
            rintro w₁ rfl
            exact .answer (.climb h (by omega) fun _ _ _ => ⟨_, rfl⟩)
        | dot =>
          refine .advance hs ?_
          rintro w₁ rfl
          refine .bind expectName_agrees fun name w₂ h₂ => ?_
          refine .isNext (fun _ => ?_) ?_
          · refine .bind (h.later .arguments (by omega))
              fun args w₃ (h₃ : _ < w₂.stream.length) => ?_
            exact .answer (.climb h (by omega) fun _ _ _ => ⟨_, rfl⟩)
          · refine .bind (h.later .subscripts (by omega))
              fun subs w₃ (h₃ : _ < w₂.stream.length + 1) => ?_
            exact .answer (.climb h (by omega) fun _ _ _ => ⟨_, rfl⟩)

/-- A turn of any loop agrees with what the loop stands for. -/
theorem turn_meets {σ : Type} (k : Loop σ) (state : σ)
    (h : Answers self (Goal.loop k state).rank w) :
    Agrees (Turns self k w.stream.length ((Goal.loop k state).target.relation w.stream))
      (turn self k state) w ((Goal.loop k state).target.reader w.stream) := by
  cases k with
  | semicolons => exact turn_semicolons rfl h
  | program => exact turn_program h
  | block opened => exact turn_block h
  | switchItems opened => exact turn_switchItems h
  | labels => exact turn_labels h
  | caseBody opened => exact turn_caseBody h
  | parameters => exact turn_parameters h
  | functions opened => exact turn_functions h
  | objectItems opened => exact turn_objectItems h
  | expressions => exact turn_expressions h
  | climb level => exact turn_climb rfl h

/-- A call agrees with what it stands for if the calls that it makes do. -/
theorem step_meets {α : Type} (g : Goal α) (h : Answers self g.rank w) :
    g.target.Meets (step self g) w := by
  cases g with
  | loop k state => exact .loop (turn_meets k state h)
  | expression level => exact expression_meets h
  | operand => exact operand_meets rfl h
  | expressionList close => exact sequenceUntil_meets h
  | arguments => exact arguments_meets h
  | subscripts => exact subscripts_meets h
  | creation => exact creation_meets h
  | objectBlock => exact objectBlock_meets h
  | statement => exact statement_meets h
  | function => exact function_meets h
  | block => exact block_meets h
  | body => exact body_meets h

end

/-- The calls within a budget answer if it covers five calls in one another for each token left. -/
theorem answers_read {n rank : Nat} {w : Window}
    (ih : ∀ {α : Type} (g : Goal α) (w' : Window), 5 * w'.stream.length + g.rank < n →
      g.target.Meets (read n g) w')
    (h : 5 * w.stream.length + rank ≤ n) : Answers (read n) rank w := by
  intro α g w' hless
  -- A token less frees five calls, and no rank is above four.
  have hrank := g.rank_le
  exact ih g w' (by omega)

theorem meets_of_lt (n : Nat) : ∀ {α : Type} (g : Goal α) (w : Window),
    5 * w.stream.length + g.rank < n → g.target.Meets (read n g) w := by
  induction n with
  | zero =>
    intro α g w h
    omega
  | succ n ih =>
    intro α g w h
    exact step_meets g (answers_read ih (Nat.le_of_lt_succ h))

section

variable {n : Nat} {w : Window}

theorem read_meets {α : Type} (g : Goal α) (h : 5 * (w.stream.length + 1) ≤ n) :
    g.target.Meets (read n g) w := by
  have hrank := g.rank_le
  exact meets_of_lt n g w (by omega)

/-- A turn within a budget answers, and goes round again only after it has taken a token. -/
theorem turn_read {σ : Type} (k : Loop σ) (state : σ) (h : 5 * (w.stream.length + 1) ≤ n) :
    ∃ r, ((turn (read n) k state).run w).run = some r ∧
      ∀ state' w', r = .ok ((true, state'), w') → w'.stream.length < w.stream.length := by
  have hrank := (Goal.loop k state).rank_le
  have hanswers : Answers (read n) (Goal.loop k state).rank w :=
    answers_read (meets_of_lt n) (by omega)
  obtain ⟨r, hr, hrel⟩ := turn_meets k state hanswers
  refine ⟨r, hr, ?_⟩
  rintro state' w' rfl
  exact hrel.1

end

theorem program_eq {n : Nat} {source : String} (h : 5 * ((Stream.ofText source).length + 1) ≤ n) :
    program n source = some (Program.ofText source) := by
  have henters := Window.enters_ofText source
  rw [Program.ofText, Program.ofStream]
  cases hw : Window.ofText source with
  | error e =>
    rw [hw] at henters
    rw [program, hw, henters]
    rfl
  | ok w =>
    rw [hw] at henters
    obtain ⟨hsettled, hstream⟩ := henters
    rw [← hstream] at h hsettled ⊢
    obtain ⟨q, hq, hrel⟩ := read_meets (.loop .program []) h
    rw [program, hw, hsettled]
    change (StateT.run (read n (.loop .program [])) w >>= fun p => pure p.1).run =
      some (Parse.statements w.stream)
    rw [ExceptT.run_bind, hq]
    cases q with
    | error e => exact congrArg some (Eq.symm hrel)
    | ok p =>
      obtain ⟨-, more, hmore, hp⟩ := hrel
      exact congrArg some ((congrArg Except.ok hp.symm).trans hmore.symm)

end Descent

open Descent

/-- Reading ends on every source, with the answer of the parser, if the calls may go five deep for
each token and for the end. Every call answers as the reader of streams that it stands for and gives
no token back; a statement and an expression take a token. Every turn of a loop answers, and goes
round again only if it has taken a token; at the end of the source it fails or leaves the loop. -/
theorem every_reading_ends :
    (∀ source n, 5 * ((Stream.ofText source).length + 1) ≤ n →
      Descent.program n source = some (Program.ofText source)) ∧
    (∀ (α : Type) (g : Goal α) w n, 5 * (w.stream.length + 1) ≤ n →
      g.target.Meets (read n g) w ∧
        ∀ a w', ((read n g).run w).run = some (.ok (a, w')) → w'.stream.length ≤ w.stream.length) ∧
    (∀ w n, 5 * (w.stream.length + 1) ≤ n → ∀ a w',
      ((read n .statement).run w).run = some (.ok (a, w')) → w'.stream.length < w.stream.length) ∧
    (∀ level w n, 5 * (w.stream.length + 1) ≤ n → ∀ a w',
      ((read n (.expression level)).run w).run = some (.ok (a, w')) →
        w'.stream.length < w.stream.length) ∧
    ∀ (σ : Type) (k : Loop σ) state w n, 5 * (w.stream.length + 1) ≤ n →
      ∃ r, ((turn (read n) k state).run w).run = some r ∧
        (∀ state' w', r = .ok ((true, state'), w') → w'.stream.length < w.stream.length) ∧
        ∀ p, w.current = .finish p →
          (∃ e, r = .error e) ∨ ∃ state' w', r = .ok ((false, state'), w') := by
  refine ⟨fun source n h => program_eq h, fun α g w n h => ?_, fun w n h a w' hread => ?_,
    fun level w n h a w' hread => ?_, fun σ k state w n h => ?_⟩
  · have hmeets := read_meets g h
    exact ⟨hmeets, fun a w' hread => g.target.length_le (hmeets.relation hread)⟩
  · exact Gives.length_lt ((read_meets .statement h).relation hread)
  · exact Gives.length_lt ((read_meets (.expression level) h).relation hread)
  · obtain ⟨r, hr, hless⟩ := turn_read k state h
    refine ⟨r, hr, hless, fun p hp => ?_⟩
    have hend : w.stream.length = 0 := by
      rw [Window.stream, hp]
      rfl
    cases r with
    | error e => exact .inl ⟨e, rfl⟩
    | ok q =>
      obtain ⟨⟨again, state'⟩, w'⟩ := q
      cases again with
      | false => exact .inr ⟨state', w', rfl⟩
      | true =>
        have hlt := hless state' w' rfl
        omega

end TorqueScript
