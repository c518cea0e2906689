import TorqueScript.Proofs.Program.Descent
import TorqueScript.Proofs.Program.Readers
import TorqueScript.Proofs.Token.ByteSteps

/-!
Reading through a window and reading a stream, in lockstep. What a window shows, followed by what
scanning still finds, is a stream, and moving the window on is looking ahead in that stream. Two
readers agree if the one through the window gives an answer and it is the answer of the other. That
is kept by composing readers, one rule for each way in which they are composed.
-/

namespace TorqueScript

open Parse (Parsed Result)

/-- The stream that goes on with `s` after what is seen. -/
def Seen.before : Seen → Stream → Stream
  | .token t, s => .cons t s
  | .finish p, _ => .finish p

namespace Cursor

theorem ofCursor_of_see {c c' : Cursor} {seen : Seen} (h : c.see = .ok (seen, c')) :
    Stream.ofCursor c = seen.before (.ofCursor c') := by
  cases hrest : c.skipGap.rest with
  | nil =>
    simp only [see, step_finish hrest, Except.ok.injEq, Prod.mk.injEq] at h
    rw [Stream.ofCursor_finish hrest, ← h.1]
    rfl
  | cons d ds =>
    cases hlex : Scan.lexeme d ds with
    | error e => simp [see, step_failure hrest hlex] at h
    | ok r =>
      simp only [see, step_token hrest hlex, Except.ok.injEq, Prod.mk.injEq] at h
      rw [Stream.ofCursor_token hrest hlex, ← h.1, ← h.2, advance, hrest]
      rfl

/-- After the end there is only the end. -/
theorem see_of_finish {c c' : Cursor} {p : Position} (h : c.see = .ok (.finish p, c')) :
    ∃ q, c'.see = .ok (.finish q, c') := by
  cases hrest : c.skipGap.rest with
  | nil =>
    simp only [see, step_finish hrest, Except.ok.injEq, Prod.mk.injEq] at h
    obtain ⟨-, rfl⟩ := h
    have hgap : c.skipGap.skipGap = c.skipGap := by
      rw [skipGap, hrest, skip, ← hrest]
    refine ⟨c.skipGap.position, ?_⟩
    rw [see, step_finish (by rw [hgap, hrest]), hgap]
  | cons d ds =>
    cases hlex : Scan.lexeme d ds with
    | error e => simp [see, step_failure hrest hlex] at h
    | ok r => simp [see, step_token hrest hlex] at h

theorem ofCursor_of_see_error {c : Cursor} {e : SourceError} (h : c.see = .error e) :
    ∃ defect, e = .scan defect ∧ Stream.ofCursor c = .failure defect := by
  cases hrest : c.skipGap.rest with
  | nil => simp [see, step_finish hrest] at h
  | cons d ds =>
    cases hlex : Scan.lexeme d ds with
    | ok r => simp [see, step_token hrest hlex] at h
    | error r =>
      simp only [see, step_failure hrest hlex, Except.error.injEq] at h
      exact ⟨_, h.symm, Stream.ofCursor_failure hrest hlex⟩

end Cursor

namespace Window

/-- The tokens after the current one. -/
def rest (w : Window) : Stream :=
  w.ahead.before (.ofCursor w.cursor)

/-- The tokens that are left, from the current one on. -/
def stream (w : Window) : Stream :=
  w.current.before w.rest

variable {w : Window} {t : Located} {p : Position} {s : Stream}

theorem stream_ne_failure {e : ScanError} : w.stream ≠ .failure e := by
  obtain ⟨current, ahead, c⟩ := w
  cases current <;> simp [stream, Seen.before]

theorem stream_cases (w : Window) :
    (∃ p, w.stream = .finish p) ∨ ∃ t s, w.stream = .cons t s := by
  obtain ⟨current, ahead, c⟩ := w
  cases current with
  | finish p => exact .inl ⟨p, rfl⟩
  | token t => exact .inr ⟨t, _, rfl⟩

theorem current_of_cons (h : w.stream = .cons t s) : w.current = .token t ∧ w.rest = s := by
  rw [stream] at h
  cases hc : w.current with
  | token u =>
    rw [hc] at h
    cases h
    exact ⟨rfl, rfl⟩
  | finish p =>
    rw [hc] at h
    cases h

theorem current_of_finish (h : w.stream = .finish p) : w.current = .finish p := by
  obtain ⟨current, ahead, c⟩ := w
  cases current <;> simp_all [stream, Seen.before]

theorem isToken_current (t : Token) : w.current.isToken t = Parse.isNext t w.stream := by
  obtain ⟨current, ahead, c⟩ := w
  cases current <;> rfl

theorem isToken_ahead (t : Token) : w.ahead.isToken t = Parse.isNext t w.rest := by
  obtain ⟨current, ahead, c⟩ := w
  cases ahead <;> rfl

theorem next_stream : Parse.next w.stream = (w.current.spelling, w.current.position) := by
  obtain ⟨current, ahead, c⟩ := w
  cases current <;> rfl

/-- The window is at the beginning of `s`, or there is a mistake so close to it that it is found. -/
def Enters (s : Stream) : Except SourceError Window → Prop
  | .ok w => Parse.Settled s ∧ w.stream = s
  | .error e => Parse.lookAhead s = .error e

/-- Moving a window on is looking ahead. -/
theorem enters_advance (w : Window) : Enters w.rest w.advance := by
  rw [rest, advance]
  cases w.ahead with
  | finish p => exact ⟨rfl, rfl⟩
  | token t =>
    cases hsee : w.cursor.see with
    | error e =>
      obtain ⟨defect, rfl, hstream⟩ := Cursor.ofCursor_of_see_error hsee
      simp [Seen.before, hstream, Enters, Parse.lookAhead, bind, Except.bind]
    | ok r =>
      obtain ⟨seen, c⟩ := r
      rw [Cursor.ofCursor_of_see hsee]
      cases seen <;> exact ⟨rfl, rfl⟩

theorem enters_ofText (source : String) : Enters (.ofText source) (ofText source) := by
  rw [Stream.ofText, ofText]
  cases hsee : (Cursor.ofText source).see with
  | error e =>
    obtain ⟨defect, rfl, hstream⟩ := Cursor.ofCursor_of_see_error hsee
    simp [hstream, Enters, Parse.lookAhead, bind, Except.bind]
  | ok r =>
    obtain ⟨current, c⟩ := r
    rw [Cursor.ofCursor_of_see hsee]
    cases current with
    | finish p =>
      obtain ⟨q, hsee'⟩ := Cursor.see_of_finish hsee
      simp only [bind, Except.bind, hsee']
      exact ⟨rfl, rfl⟩
    | token t =>
      cases hsee' : c.see with
      | error e =>
        obtain ⟨defect, rfl, hstream⟩ := Cursor.ofCursor_of_see_error hsee'
        simp [hsee', hstream, Enters, Parse.lookAhead, bind, Except.bind, Seen.before]
      | ok r =>
        obtain ⟨ahead, c'⟩ := r
        simp only [bind, Except.bind, hsee']
        rw [Cursor.ofCursor_of_see hsee']
        cases ahead <;> exact ⟨rfl, rfl⟩

end Window

namespace Descent

section

variable {α β γ ρ : Type} {n m : Nat} {w : Window} {P : Except SourceError ρ → α → Window → Prop}

/-- The reader answers at `w`, with the mistake that `r` is or with something that stands in the
relation `P` to `r`. -/
def Agrees (P : Except SourceError ρ → α → Window → Prop) (x : Reading α) (w : Window)
    (r : Except SourceError ρ) : Prop :=
  ∃ q, (x.run w).run = some q ∧
    match q with
    | .ok (a, w') => P r a w'
    | .error e => r = .error e

/-- What `r` reads is turned into `b` by `f`, and the window shows what `r` leaves. -/
def Gives (f : α → β) (r : Result α n) (b : β) (w : Window) : Prop :=
  ∃ a, f a = b ∧ r.Reads a w.stream

theorem Gives.ok {a : α} {b : β} {f : α → β} {s : Stream} {h : s.length < n} (hs : w.stream = s)
    (hab : f a = b) : Gives f (.ok ⟨a, s, h⟩ : Result α n) b w := by
  subst hs
  exact ⟨a, hab, h, rfl⟩

theorem Gives.length_lt {f : α → β} {r : Result α n} {b : β} (h : Gives f r b w) :
    w.stream.length < n := by
  obtain ⟨_, -, hreads⟩ := h
  exact hreads.lt

theorem run_bind_ok {x : Reading β} {k : β → Reading α} {b : β} {w' : Window}
    (h : (x.run w).run = some (.ok (b, w'))) : ((x >>= k).run w).run = ((k b).run w').run := by
  rw [StateT.run_bind, ExceptT.run_bind, h]
  rfl

theorem run_bind_error {x : Reading β} {k : β → Reading α} {e : SourceError}
    (h : (x.run w).run = some (.error e)) : ((x >>= k).run w).run = some (.error e) := by
  rw [StateT.run_bind, ExceptT.run_bind, h]
  rfl

theorem Agrees.answer {a : α} {r : Except SourceError ρ} (h : P r a w) : Agrees P (pure a) w r :=
  ⟨.ok (a, w), rfl, h⟩

theorem Agrees.relation {x : Reading α} {r : Except SourceError ρ} {a : α} {w' : Window}
    (h : Agrees P x w r) (hx : (x.run w).run = some (.ok (a, w'))) : P r a w' := by
  obtain ⟨q, hq, hrel⟩ := h
  rw [hx] at hq
  cases hq
  exact hrel

theorem Agrees.throw {e : SourceError} : Agrees P (throw e) w (.error e) :=
  ⟨.error e, rfl, rfl⟩

theorem Agrees.mistake {s : Stream} {expected : String} (hs : w.stream = s) :
    Agrees P (mistake expected) w (.error (Parse.unexpected s expected)) := by
  rw [← hs, Parse.unexpected, Window.next_stream]
  exact ⟨_, rfl, rfl⟩

/-- Reading on in lockstep. -/
theorem Agrees.bind {x : Reading β} {k : β → Reading α} {r : Result γ n} {f : γ → β}
    {g : Parsed γ n → Except SourceError ρ} (hx : Agrees (Gives f) x w r)
    (hk : ∀ c w', ∀ h : w'.stream.length < n, Agrees P (k (f c)) w' (g ⟨c, w'.stream, h⟩)) :
    Agrees P (x >>= k) w (r >>= g) := by
  obtain ⟨q, hq, hrel⟩ := hx
  cases q with
  | error e =>
    subst hrel
    exact ⟨.error e, run_bind_error hq, rfl⟩
  | ok p =>
    obtain ⟨b, w'⟩ := p
    obtain ⟨c, rfl, h, rfl⟩ := hrel
    obtain ⟨q, hq', hrel⟩ := hk c w' h
    exact ⟨q, (run_bind_ok hq).trans hq', hrel⟩

/-- Reading on that only changes the answer. -/
theorem Agrees.post {x : Reading β} {f : β → α} {r : Except SourceError ρ}
    (h : Agrees (fun r b w' => P r (f b) w') x w r) :
    Agrees P (x >>= fun b => pure (f b)) w r := by
  obtain ⟨q, hq, hrel⟩ := h
  cases q with
  | error e => exact ⟨.error e, run_bind_error hq, hrel⟩
  | ok p =>
    obtain ⟨b, w'⟩ := p
    exact ⟨.ok (f b, w'), run_bind_ok hq, hrel⟩

theorem Agrees.look {k : Seen → Reading α} {r : Except SourceError ρ}
    (h : Agrees P (k w.current) w r) : Agrees P (look >>= k) w r :=
  h

theorem Agrees.look_token {k : Seen → Reading α} {r : Except SourceError ρ} {t : Located}
    {s : Stream} (hs : w.stream = .cons t s) (h : Agrees P (k (.token t)) w r) :
    Agrees P (Descent.look >>= k) w r := by
  rw [← (Window.current_of_cons hs).1] at h
  exact .look h

theorem Agrees.look_finish {k : Seen → Reading α} {r : Except SourceError ρ} {p : Position}
    (hs : w.stream = .finish p) (h : Agrees P (k (.finish p)) w r) :
    Agrees P (Descent.look >>= k) w r := by
  rw [← Window.current_of_finish hs] at h
  exact .look h

theorem Agrees.lookAhead {k : Seen → Reading α} {r : Except SourceError ρ}
    (h : Agrees P (k w.ahead) w r) : Agrees P (lookAhead >>= k) w r :=
  h

theorem Agrees.advance {k : Unit → Reading α} {g : Unit → Except SourceError ρ} {t : Located}
    {s : Stream} (hs : w.stream = .cons t s)
    (hk : ∀ w', w'.stream = s → Agrees P (k ()) w' (g ())) :
    Agrees P (advance >>= k) w (Parse.lookAhead s >>= g) := by
  obtain ⟨-, rfl⟩ := Window.current_of_cons hs
  have henters := w.enters_advance
  cases hw : w.advance with
  | error e =>
    rw [hw] at henters
    refine ⟨.error e, run_bind_error ?_, by rw [henters]; rfl⟩
    show some (w.advance.map _) = _
    rw [hw]
    rfl
  | ok w' =>
    rw [hw] at henters
    obtain ⟨q, hq, hrel⟩ := hk w' henters.2
    refine ⟨q, (run_bind_ok ?_).trans hq, by rwa [henters.1]⟩
    show some (w.advance.map _) = _
    rw [hw]
    rfl

theorem Agrees.isNext_eq {t : Token} {b : Bool} {k : Bool → Reading α} {r : Except SourceError ρ}
    (hb : Parse.isNext t w.stream = b) (h : Agrees P (k b) w r) :
    Agrees P (isNext t >>= k) w r := by
  rw [← Window.isToken_current] at hb
  subst hb
  exact h

theorem Agrees.isNext {t : Token} {x y : Reading α} {r r' : Except SourceError ρ}
    (hx : Parse.isNext t w.stream = true → Agrees P x w r) (hy : Agrees P y w r') :
    Agrees P (isNext t >>= fun b => if b = true then x else y) w
      (if Parse.isNext t w.stream = true then r else r') := by
  split
  · rename_i h
    refine .isNext_eq h ?_
    rw [if_pos rfl]
    exact hx h
  · rename_i h
    refine .isNext_eq (Bool.eq_false_iff.2 h) ?_
    rw [if_neg Bool.false_ne_true]
    exact hy

end

section

variable {α β γ δ : Type} {n m : Nat} {w : Window}

theorem Agrees.ok {a : α} {b : β} {f : α → β} {h : w.stream.length < n} (hab : f a = b) :
    Agrees (Gives f) (pure b) w (.ok ⟨a, w.stream, h⟩ : Result α n) :=
  .answer (.ok rfl hab)

theorem Agrees.within {x : Reading β} {r : Result α n} {f : α → β} {h : n ≤ m}
    (hx : Agrees (Gives f) x w r) : Agrees (Gives f) x w (r.within h) := by
  obtain ⟨q, hq, hrel⟩ := hx
  refine ⟨q, hq, ?_⟩
  cases q with
  | error e =>
    subst hrel
    rfl
  | ok p =>
    obtain ⟨a, hab, hreads⟩ := hrel
    exact ⟨a, hab, Result.reads_within.2 hreads⟩

theorem Agrees.map {x : Reading α} {r : Result α n} {f : α → β} (hx : Agrees (Gives id) x w r) :
    Agrees (Gives id) (x >>= fun a => pure (f a)) w (r.map f) := by
  rw [Result.map_eq_bind]
  exact .bind hx fun _ _ _ => .ok rfl

theorem Agrees.andThenMaybe {x : Reading β} {k : β → Reading δ} {r : Result α n} {f : α → β}
    {g : α → (s : Stream) → Result γ (s.length + 1)} {f' : γ → δ} (hx : Agrees (Gives f) x w r)
    (hk : ∀ a w', w'.stream.length < n → Agrees (Gives f') (k (f a)) w' (g a w'.stream)) :
    Agrees (Gives f') (x >>= k) w (r.andThenMaybe g) := by
  rw [Result.andThenMaybe_eq_bind]
  exact .bind hx fun a w' h => (hk a w' h).within

theorem Agrees.andThen {x : Reading β} {k : β → Reading δ} {r : Result α n} {f : α → β}
    {g : α → (s : Stream) → Result γ s.length} {f' : γ → δ} (hx : Agrees (Gives f) x w r)
    (hk : ∀ a w', w'.stream.length < n → Agrees (Gives f') (k (f a)) w' (g a w'.stream)) :
    Agrees (Gives f') (x >>= k) w (r.andThen g) :=
  hx.andThenMaybe fun a w' h => (hk a w' h).within

/-- Reading the stream on that only changes the value. -/
theorem Agrees.finish {x : Reading δ} {r : Result α n} {g : Parsed α n → Result γ m} {f : α → δ}
    {f' : γ → δ} (hx : Agrees (Gives f) x w r)
    (hg : ∀ a s, ∀ h : s.length < n, ∃ c, ∃ h', g ⟨a, s, h⟩ = .ok ⟨c, s, h'⟩ ∧ f' c = f a) :
    Agrees (Gives f') x w (r >>= g) := by
  obtain ⟨q, hq, hrel⟩ := hx
  refine ⟨q, hq, ?_⟩
  cases q with
  | error e =>
    subst hrel
    rfl
  | ok p =>
    obtain ⟨a, hab, h, rfl⟩ := hrel
    obtain ⟨c, h', hc, hca⟩ := hg a _ h
    exact ⟨c, hca.trans hab, h', hc⟩

theorem Agrees.mapped {x : Reading δ} {r : Result α n} {g : α → γ} {f : α → δ} {f' : γ → δ}
    (hx : Agrees (Gives f) x w r) (hg : ∀ a, f' (g a) = f a) :
    Agrees (Gives f') x w (r.map g) := by
  rw [Result.map_eq_bind]
  exact hx.finish fun a _ h => ⟨g a, h, rfl, hg a⟩

theorem expect_agrees (t : Token) :
    Agrees (Gives id) (expect t) w (Parse.expect t w.stream) := by
  generalize hs : w.stream = s
  cases s with
  | failure e => exact absurd hs Window.stream_ne_failure
  | finish p => exact .look_finish hs (.mistake hs)
  | cons u rest =>
    refine .look_token hs ?_
    rw [Parse.expect]
    by_cases hu : u.token = t
    · rw [if_pos hu, if_pos (by simpa [Seen.isToken] using hu)]
      refine .advance hs ?_
      rintro w' rfl
      exact .ok rfl
    · rw [if_neg hu, if_neg (by simpa [Seen.isToken] using hu)]
      exact .mistake hs

theorem advance_agrees {t : Token} (h : Parse.isNext t w.stream = true) :
    Agrees (Gives fun _ => ()) advance w (Parse.expect t w.stream) := by
  generalize hs : w.stream = s at h
  cases s with
  | failure e => exact absurd hs Window.stream_ne_failure
  | finish p => cases h
  | cons u rest =>
    rw [Parse.expect, if_pos (of_decide_eq_true h), ← bind_pure (x := Descent.advance)]
    refine .advance hs ?_
    rintro w' rfl
    exact .ok rfl

theorem expectName_agrees : Agrees (Gives id) expectName w (Parse.expectName w.stream) := by
  generalize hs : w.stream = s
  cases s with
  | failure e => exact absurd hs Window.stream_ne_failure
  | finish p => exact .look_finish hs (.mistake hs)
  | cons u rest =>
    refine .look_token hs ?_
    obtain ⟨t, p⟩ := u
    cases t with
    | name text =>
      refine .advance hs ?_
      rintro w' rfl
      exact .ok rfl
    | _ => exact .mistake hs

end

end Descent

end TorqueScript
