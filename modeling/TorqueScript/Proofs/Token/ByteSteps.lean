import TorqueScript.Proofs.Token.ByteLexemes

/-!
Any number of steps by bytes. A cursor that stands where the other cursor does, or past the end
where that one has nothing left, finds the same item there, and both stand together again. So from
the start of a source no step fails to answer, whatever was found before, and the tokens and quoted
texts read by bytes are those read by characters.
-/

namespace TorqueScript

open Text Scan

namespace Cursor

variable {c : Cursor} {d : Char} {ds : List Char} {n : Nat}

theorem step_finish (h : c.skipGap.rest = []) :
    c.step = (.finish c.skipGap.position, c.skipGap) := by
  simp [step, h]

theorem step_token {t : Token} (h : c.skipGap.rest = d :: ds)
    (hlex : lexeme d ds = .ok (t, n)) :
    c.step = (.token ⟨t, c.skipGap.position⟩, c.skipGap.advance (n + 1)) := by
  simp [step, h, hlex]

theorem step_failure {e : Defect} (h : c.skipGap.rest = d :: ds)
    (hlex : lexeme d ds = .error (e, n)) :
    c.step = (.failure ⟨e, c.skipGap.position⟩, c.skipGap.advance n) := by
  simp [step, h, hlex]

end Cursor

/-- The items of a stream are what the steps find up to the end or the first mistake. -/
theorem Stream.items_ofCursor (c : Cursor) :
    (ofCursor c).items = c.steps (ofCursor c).items.length := by
  fun_induction ofCursor c with
  | case1 c start hend => simp [items, Cursor.steps, Cursor.step_finish hend, start]
  | case2 c start d ds hstart t n hlex ih =>
    have hnext : c.skipGap.advance (n + 1) =
        ⟨ds.drop n, c.skipGap.position.after (d :: ds.take n)⟩ := by
      rw [Cursor.advance, hstart]
      rfl
    rw [items, List.length_cons, Cursor.steps, Cursor.step_token hstart hlex, hnext]
    exact congrArg _ ih
  | case3 c start d ds hstart e n hlex =>
    simp [items, Cursor.steps, Cursor.step_failure hstart hlex, start]

/-- There is at most one token to a byte. -/
theorem Stream.length_items_ofCursor (c : Cursor) :
    (ofCursor c).items.length ≤ byteLength c.rest + 1 := by
  fun_induction ofCursor c with
  | case1 => simp [items]
  | case2 c start d ds hstart t n hlex ih =>
    obtain ⟨gap, -, hrest, -⟩ := Cursor.skipGap_token hstart
    have hd := d.utf8Size_pos
    have hdrop : byteLength ds = byteLength (ds.take n) + byteLength (ds.drop n) := by
      rw [← byteLength_append, List.take_append_drop]
    rw [items, List.length_cons, hrest]
    simp only [byteLength_append, byteLength_cons]
    simp only at ih
    omega
  | case3 => simp [items]

namespace ByteCursor

variable {source : List Char} {b : ByteCursor} {c : Cursor}

theorem Stands.position (h : Stands source b c) : b.position = c.position := by
  cases h <;> rfl

theorem Stands.atEnd (h : Stands source b c) : b.atEnd = c.rest.isEmpty := by
  cases h with
  | between => exact atEnd_between
  | past _ hend => exact hend

/-- What is left to read and the offset make up the source, except past the end. -/
theorem Stands.offset (h : Stands source b c) :
    byteLength source ≤ b.offset + byteLength c.rest := by
  cases h with
  | between hsource => simp [hsource]
  | past hsource hend =>
    have hle : byteLength b.source ≤ b.offset := by simpa [ByteCursor.atEnd] using hend
    rw [← hsource]
    exact Nat.le_trans hle (Nat.le_add_right _ _)

theorem Stands.skipGap (h : Stands source b c) :
    ∃ b', b.skipGap = some b' ∧ Stands source b' c.skipGap ∧ b.offset ≤ b'.offset := by
  cases h with
  | @between before cs p hsource =>
    obtain ⟨b', hread, hstands⟩ := exists_resume .blank before cs p
    obtain ⟨gap, hgap, -⟩ := Cursor.exists_skip .blank cs p
    refine ⟨b', hread, hsource ▸ hstands, ?_⟩
    have hoffset := hstands.offset
    have hlength := congrArg byteLength hgap
    simp only [byteLength_append] at hoffset hlength
    rw [offset_between]
    omega
  | past hsource hend => exact ⟨b, skipGap_past hend, .past hsource hend, Nat.le_refl _⟩

theorem Stands.exists_between (h : Stands source b c) {d : Char} {ds : List Char}
    (hrest : c.rest = d :: ds) :
    ∃ before, source = before ++ d :: ds ∧ b = ByteCursor.between before (d :: ds) c.position := by
  cases h with
  | between hsource =>
    subst hrest
    exact ⟨_, hsource, rfl⟩
  | past => cases hrest

theorem offset_along (before cs : List Char) (p : Position) (n : Nat) :
    (along before cs p n).offset = byteLength before + byteLength (cs.take n) := by
  simp [along]

section

variable {before ds : List Char} {d : Char} {p : Position} {n : Nat}
  (hgap : b.skipGap = some (ByteCursor.between before (d :: ds) p))

include hgap

theorem step_token {t : Token} (h : Scan.lexeme d ds = .ok (t, n)) :
    b.step = some (.token ⟨t, p⟩, along before (d :: ds) p (n + 1)) := by
  have hopen : (ByteCursor.between before (d :: ds) p).atEnd = false := atEnd_between
  rw [ByteCursor.step, hgap]
  simp only [Option.bind_eq_bind, Option.bind_some, hopen, lexeme_between, reading, h]
  rfl

theorem step_failure {e : Defect} (h : Scan.lexeme d ds = .error (e, n)) :
    b.step = some (.failure ⟨e, p⟩, along before (d :: ds) p n) := by
  have hopen : (ByteCursor.between before (d :: ds) p).atEnd = false := atEnd_between
  rw [ByteCursor.step, hgap]
  simp only [Option.bind_eq_bind, Option.bind_some, hopen, lexeme_between, reading, h]
  rfl

end

/-- The steps agree, and a token takes up at least a byte within the source. -/
theorem Stands.step (h : Stands source b c) :
    ∃ b', b.step = some (c.step.1, b') ∧ Stands source b' c.step.2 ∧ b.offset ≤ b'.offset ∧
      ∀ t, c.step.1 = .token t → b.offset < b'.offset ∧ b'.offset ≤ byteLength source := by
  obtain ⟨b₁, hgap, hstands, hle⟩ := h.skipGap
  cases hrest : c.skipGap.rest with
  | nil =>
    have hend := hstands.atEnd
    have hstep := Cursor.step_finish hrest
    rw [hrest] at hend
    refine ⟨b₁, ?_, by rwa [hstep], hle, by simp [hstep]⟩
    rw [ByteCursor.step, hgap, hstep, ← hstands.position]
    simp [hend]
  | cons d ds =>
    obtain ⟨before, hsource, rfl⟩ := hstands.exists_between hrest
    have hplace (n : Nat) : Stands source (along before (d :: ds) c.skipGap.position n)
        (c.skipGap.advance n) := by
      rw [Cursor.advance, hrest]
      refine .between ?_
      rw [hsource, List.append_assoc, List.take_append_drop]
    have hoffset := offset_along before (d :: ds) c.skipGap.position
    rw [offset_between] at hle
    cases hlex : Scan.lexeme d ds with
    | ok found =>
      obtain ⟨t, n⟩ := found
      have hstep := Cursor.step_token hrest hlex
      have hd := d.utf8Size_pos
      have htaken : byteLength ds = byteLength (ds.take n) + byteLength (ds.drop n) := by
        rw [← byteLength_append, List.take_append_drop]
      refine ⟨along before (d :: ds) c.skipGap.position (n + 1), ?_, ?_, ?_, ?_⟩
      · rw [step_token hgap hlex, hstep]
      · rw [hstep]
        exact hplace (n + 1)
      · rw [hoffset]
        omega
      · intro _ _
        rw [hoffset, hsource, List.take_succ_cons]
        simp only [byteLength_append, byteLength_cons]
        omega
    | error found =>
      obtain ⟨e, n⟩ := found
      have hstep := Cursor.step_failure hrest hlex
      refine ⟨along before (d :: ds) c.skipGap.position n, ?_, ?_, ?_, by simp [hstep]⟩
      · rw [step_failure hgap hlex, hstep]
      · rw [hstep]
        exact hplace n
      · rw [hoffset]
        omega

/-- Any number of steps agree. -/
theorem Stands.steps (n : Nat) (h : Stands source b c) :
    ∃ b' c', b.steps n = some (c.steps n, b') ∧ Stands source b' c' := by
  induction n generalizing b c with
  | zero => exact ⟨b, c, rfl, h⟩
  | succ n ih =>
    obtain ⟨b₁, hstep, hstands, -⟩ := h.step
    obtain ⟨b', c', hsteps, hstands'⟩ := ih hstands
    refine ⟨b', c', ?_, hstands'⟩
    rw [ByteCursor.steps, hstep]
    simp only [Option.bind_eq_bind, Option.bind_some, hsteps]
    rfl

theorem stands_ofText (source : String) :
    Stands source.toList (.ofText source) (.ofText source) :=
  Stands.between (List.nil_append _).symm

theorem items_eq (c : Cursor) :
    ∀ b, Stands source b c → b.items = some (Stream.ofCursor c).items := by
  fun_induction Stream.ofCursor c with
  | case1 c start hend =>
    intro b h
    obtain ⟨b', hstep, -⟩ := h.step
    rw [Cursor.step_finish hend] at hstep
    rw [ByteCursor.items, hstep]
    rfl
  | case2 c start d ds hstart t n hlex ih =>
    intro b h
    obtain ⟨b', hstep, hstands, -⟩ := h.step
    rw [Cursor.step_token hstart hlex] at hstep hstands
    rw [Cursor.advance, hstart] at hstands
    rw [ByteCursor.items, hstep]
    simp only [Option.bind_eq_bind, Option.bind_some]
    rw [ih b' hstands]
    rfl
  | case3 c start d ds hstart e n hlex =>
    intro b h
    obtain ⟨b', hstep, -⟩ := h.step
    rw [Cursor.step_failure hstart hlex] at hstep
    rw [ByteCursor.items, hstep]
    rfl

theorem standsAt_of_textTo {stop : ByteCursor} {text : String} (h : b.textTo stop = some text) :
    StandsAt b.source b.offset stop.offset text.toList := by
  rw [textTo] at h
  split at h
  · rename_i hle
    obtain ⟨cs, hslice, rfl⟩ := Option.map_eq_some_iff.1 h
    rw [String.toList_ofList]
    exact standsAt_of_slice? hle hslice
  · cases h

end ByteCursor

/-- Reading by bytes is safe and ends on every source. A text is cut out only between the ends of
characters. No step fails to answer, after any number of steps and past mistakes and the end, so
nothing is cut elsewhere, no color is missing and no code outgrows a byte; what is found is what the
characters say. The offset never decreases, every token takes up at least a byte of the source, and
there are no more tokens than bytes before the end or the first mistake. -/
theorem bytes_are_read_safely (source : String) :
    let start := ByteCursor.ofText source
    (∀ b stop text, ByteCursor.textTo b stop = some text →
      StandsAt b.source b.offset stop.offset text.toList) ∧
    (∀ n, ∃ b item stop, start.steps n = some ((Cursor.ofText source).steps n, b) ∧
      b.step = some (item, stop) ∧ b.offset ≤ stop.offset ∧
      ∀ t, item = .token t → b.offset < stop.offset ∧ stop.offset ≤ byteLength source.toList) ∧
    start.items = some (Stream.ofText source).items ∧
    (Stream.ofText source).items =
      (Cursor.ofText source).steps (Stream.ofText source).items.length ∧
    (Stream.ofText source).items.length ≤ byteLength source.toList + 1 := by
  intro start
  have hstands := ByteCursor.stands_ofText source
  refine ⟨fun b stop text => ByteCursor.standsAt_of_textTo, fun n => ?_,
    ByteCursor.items_eq _ _ hstands, Stream.items_ofCursor _, Stream.length_items_ofCursor _⟩
  obtain ⟨b, c, hsteps, hreached⟩ := hstands.steps n
  obtain ⟨stop, hstep, -, hle, htoken⟩ := hreached.step
  exact ⟨b, _, stop, hsteps, hstep, hle, htoken⟩

end TorqueScript
