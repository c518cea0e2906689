import TorqueScript.Proofs.Token.ByteSteps

/-!
The content of quoted texts. Wherever a quoted text is read, past mistakes as well, its content is
what the characters between the quotes stand for. The bytes collected for it are the encoding of
that content, so that decoding them puts in no marks.
-/

namespace TorqueScript

open Text Scan

/-- The cursor stands in the source, at the position to which what comes before leads if anything
is left to read. -/
def Cursor.Follows (source : List Char) (c : Cursor) : Prop :=
  ∃ before, source = before ++ c.rest ∧ (c.rest ≠ [] → c.position = Position.start.after before)

namespace Cursor

variable {source : List Char} {c : Cursor}

theorem Follows.skipGap (h : c.Follows source) : c.skipGap.Follows source := by
  obtain ⟨before, hsource, hposition⟩ := h
  obtain ⟨gap, hgap, hend⟩ := exists_skip .blank c.rest c.position
  refine ⟨before ++ gap, ?_, fun hrest => ?_⟩
  · rw [List.append_assoc, hsource]
    exact congrArg _ hgap
  · have hne : c.rest ≠ [] := by
      intro hnil
      exact hrest (List.append_eq_nil_iff.1 (hgap.symm.trans hnil)).2
    rcases hend with ⟨-, hend⟩ | ⟨-, hnil, -⟩
    · rw [Position.after_append, ← hposition hne]
      exact hend
    · exact absurd hnil hrest

theorem Follows.advance (h : c.Follows source) (n : Nat) : (c.advance n).Follows source := by
  obtain ⟨before, hsource, hposition⟩ := h
  refine ⟨before ++ c.rest.take n, ?_, fun hrest => ?_⟩
  · rw [List.append_assoc, hsource]
    exact congrArg _ (List.take_append_drop n c.rest).symm
  · have hne : c.rest ≠ [] := by
      intro hnil
      exact hrest (by rw [Cursor.advance, hnil, List.drop_nil])
    rw [Position.after_append, ← hposition hne]
    rfl

theorem Follows.step (h : c.Follows source) : c.step.2.Follows source := by
  cases hrest : c.skipGap.rest with
  | nil =>
    rw [step_finish hrest]
    exact h.skipGap
  | cons d ds =>
    cases hlex : lexeme d ds with
    | ok found =>
      rw [step_token hrest hlex]
      exact h.skipGap.advance _
    | error found =>
      rw [step_failure hrest hlex]
      exact h.skipGap.advance _

/-- A token found by a step is read where the source goes on after its position. -/
theorem Follows.exists_lexeme (h : c.Follows source) {t : Located} (ht : c.step.1 = .token t) :
    ∃ before d ds n, source = before ++ d :: ds ∧ t.position = Position.start.after before ∧
      lexeme d ds = .ok (t.token, n) := by
  cases hrest : c.skipGap.rest with
  | nil =>
    rw [step_finish hrest] at ht
    cases ht
  | cons d ds =>
    cases hlex : lexeme d ds with
    | ok found =>
      obtain ⟨before, hsource, hposition⟩ := h.skipGap
      rw [step_token hrest hlex] at ht
      cases ht
      rw [hrest] at hsource
      exact ⟨before, d, ds, found.2, hsource, hposition (by simp [hrest]), hlex⟩
    | error found =>
      rw [step_failure hrest hlex] at ht
      cases ht

theorem Follows.exists_lexeme_of_mem (n : Nat) (h : c.Follows source) {t : Located}
    (ht : .token t ∈ c.steps n) :
    ∃ before d ds k, source = before ++ d :: ds ∧ t.position = Position.start.after before ∧
      lexeme d ds = .ok (t.token, k) := by
  induction n generalizing c with
  | zero => cases ht
  | succ n ih =>
    rcases List.mem_cons.1 ht with hfirst | hlater
    · exact h.exists_lexeme hfirst.symm
    · exact ih h.step hlater

end Cursor

/-- The inside of a quoted text is read up to the quote after it. -/
theorem quotedText_of_isQuotedBody {quote : Char} (hquote : isQuote quote = true)
    {literal : List Char} (h : IsQuotedBody quote literal) (after : List Char) :
    quotedText quote (literal ++ quote :: after) = (literal, true) := by
  induction h with
  | nil => exact quotedText_end quote after
  | plain hne hline hescape _ ih => rw [List.cons_append, quotedText_plain hne hline hescape, ih]
  | escape _ ih => rw [List.cons_append, List.cons_append, quotedText_escape hquote, ih]

theorem quotedBytes_literal {quote : Char} (hquote : isQuote quote = true) {literal : List Char}
    (h : IsQuotedBody quote literal) (before after : List Char) (p : Position) :
    ByteCursor.quotedBytes quote [] (ByteCursor.between before (literal ++ quote :: after) p) =
      some (some (encode (decode literal)),
        ByteCursor.along before (literal ++ quote :: after) p (literal.length + 1)) := by
  rw [ByteCursor.quotedBytes_between hquote, ByteCursor.collected,
    quotedText_of_isQuotedBody hquote h]
  rfl

/-- A quoted text is read as what is written between its quotes. Its bytes are collected without
loss: they encode the content, and decoding them gives it back. -/
theorem quoted_text_is_decoded (source : String) (n : Nat) (content : String) (p : Position)
    (h : .token ⟨.text content, p⟩ ∈ (Cursor.ofText source).steps n) :
    ∃ before quote literal after,
      source.toList = before ++ quote :: (literal ++ quote :: after) ∧
      p = Position.start.after before ∧ isQuote quote = true ∧ IsQuotedBody quote literal ∧
      content.toList = decode literal ∧
      ∃ buffer stop,
        ByteCursor.quotedBytes quote []
            ⟨source.toList, byteLength (before ++ [quote]), p.step quote⟩ =
          some (some buffer, stop) ∧
        stop.offset = byteLength (before ++ quote :: (literal ++ [quote])) ∧
        buffer = encode content.toList ∧ buffer.toByteArray.IsValidUTF8 ∧
        decodeLossy buffer = content.toList := by
  have hstart : (Cursor.ofText source).Follows source.toList := ⟨[], rfl, fun _ => rfl⟩
  obtain ⟨before, d, ds, k, hsource, hp, hlex⟩ := hstart.exists_lexeme_of_mem n h
  obtain ⟨quote, literal, hquote, hbody, hcovers, hcontent⟩ := covers_of_lexeme hlex
  obtain ⟨rfl, htake⟩ := List.cons.inj hcovers
  have hds : ds = literal ++ d :: ds.drop k := by
    have hsplit := List.take_append_drop k ds
    rw [htake, List.append_assoc] at hsplit
    exact hsplit.symm
  have hdecode : content.toList = decode literal := by
    rw [hcontent, String.toList_ofList, unescape_eq_decode]
  have hsource' : source.toList = (before ++ [d]) ++ (literal ++ d :: ds.drop k) := by
    rw [hsource, ← hds]
    simp
  have hread := quotedBytes_literal hquote hbody (before ++ [d]) (ds.drop k) (p.step d)
  rw [← hdecode, ByteCursor.between, ← hsource'] at hread
  refine ⟨before, d, literal, ds.drop k, by rw [hsource, ← hds], hp, hquote, hbody, hdecode,
    encode content.toList, _, hread, ?_, rfl, ByteArray.isValidUTF8_utf8Encode,
    decodeLossy_encode _⟩
  have htaken : literal.take (literal.length + 1) = literal :=
    List.take_of_length_le (Nat.le_succ _)
  simp [ByteCursor.offset_along, List.take_append, htaken, Nat.add_assoc]

theorem quoted_text_is_decoded_mixed :
    let source := String.ofList
      ['\x22', '\\', 'x', '4', '1', '\\', 'c', '1', '\\', 'é', 'ü', '\x22']
    let content := String.ofList ['A', '\x03', 'é', 'ü']
    .token ⟨.text content, .start⟩ ∈ (Cursor.ofText source).steps 1 ∧
      ∃ before quote literal after,
        source.toList = before ++ quote :: (literal ++ quote :: after) ∧
        content.toList = decode literal := by
  intro source content
  have hrest : (Cursor.ofText source).skipGap.rest =
      ['\x22', '\\', 'x', '4', '1', '\\', 'c', '1', '\\', 'é', 'ü', '\x22'] := by
    rw [Cursor.ofText, String.toList_ofList]
    rfl
  have hstep := Cursor.step_token hrest (t := .text content) (n := 11) rfl
  have hposition : (Cursor.ofText source).skipGap.position = .start := by
    rw [Cursor.ofText, String.toList_ofList]
    rfl
  have hmem : .token ⟨.text content, .start⟩ ∈ (Cursor.ofText source).steps 1 := by
    rw [Cursor.steps, hstep, hposition]
    exact List.mem_cons_self ..
  obtain ⟨before, quote, literal, after, hsource, -, -, -, hdecode, -⟩ :=
    quoted_text_is_decoded source 1 content .start hmem
  exact ⟨hmem, before, quote, literal, after, hsource, hdecode⟩

end TorqueScript
