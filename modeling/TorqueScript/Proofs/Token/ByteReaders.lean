import Mathlib.Data.List.GetD
import TorqueScript.Proofs.Token.ByteCursor
import TorqueScript.Proofs.Token.Joining

/-!
What the readers that go by bytes read. A cursor that stands between two characters is given by
the text before it and the text after it. From there every reader ends, between characters
again, and has read what the reader of characters reads. Inside a character the bytes are in no
class that a reader looks for, so that none of them stops there.
-/

namespace TorqueScript

open Text Scan

namespace ByteCursor

/-- The place between two texts that make up the source. -/
def between (before cs : List Char) (p : Position) : ByteCursor :=
  ⟨before ++ cs, byteLength before, p⟩

@[simp]
theorem offset_between (before cs : List Char) (p : Position) :
    (between before cs p).offset = byteLength before := rfl

/-- The place `n` characters on. -/
def along (before cs : List Char) (p : Position) (n : Nat) : ByteCursor :=
  between (before ++ cs.take n) (cs.drop n) (p.after (cs.take n))

variable {before cs : List Char} {p : Position} {c : Char}

@[simp]
theorem along_zero : along before cs p 0 = between before cs p := by
  simp [along]

@[simp]
theorem along_succ (n : Nat) :
    along before (c :: cs) p (n + 1) = along (before ++ [c]) cs (p.step c) n := by
  simp [along, Position.after]

theorem along_along (n m : Nat) :
    along (before ++ cs.take n) (cs.drop n) (p.after (cs.take n)) m =
      along before cs p (n + m) := by
  simp [along, List.take_add, Position.after_append, List.drop_drop]

theorem byte_between (n : Nat) : (between before cs p).byte n = (encode cs).getD n 0 := by
  have hle : (encode before).length ≤ byteLength before + n := by
    rw [length_encode]
    exact Nat.le_add_right _ _
  rw [byte, between, encode_append, List.getD_append_right _ _ _ _ hle, length_encode,
    Nat.add_sub_cancel_left]

theorem look_between : (between before cs p).look 0 = lead cs := by
  rw [look, byte_between, lead]
  cases encode cs <;> rfl

theorem look_class {P : Char → Bool} (hP : AsciiClass P) :
    P ((between before cs p).look 0) = startsWith P cs := by
  rw [look_between]
  cases cs with
  | nil => exact hP.null
  | cons c cs => exact hP.lead_cons c cs

theorem look_next (b : ByteCursor) (n : Nat) : b.next.look n = b.look (n + 1) := by
  rw [ByteCursor.look, ByteCursor.look, byte, byte, next, Nat.add_assoc, Nat.add_comm 1 n]

theorem atEnd_between : (between before cs p).atEnd = cs.isEmpty := by
  cases cs with
  | nil => simp [atEnd, between]
  | cons c cs =>
    have hc := c.utf8Size_pos
    simp [atEnd, between]
    omega

@[simp]
theorem advance_source (n : Nat) (b : ByteCursor) : (b.advance n).source = b.source := by
  induction n generalizing b with
  | zero => rfl
  | succ n ih => exact ih b.next

@[simp]
theorem advance_offset (n : Nat) (b : ByteCursor) : (b.advance n).offset = b.offset + n := by
  induction n generalizing b with
  | zero => rfl
  | succ n ih =>
    rw [advance, ih]
    exact Nat.succ_add_eq_add_succ b.offset n

theorem byte_advance (n m : Nat) (b : ByteCursor) : (b.advance n).byte m = b.byte (n + m) := by
  rw [byte, byte, advance_source, advance_offset, Nat.add_assoc]

/-- Bytes that end no line move on by columns. -/
theorem advance_position {n : Nat} {b : ByteCursor} (h : ∀ i < n, b.look i ≠ '\n') :
    (b.advance n).position = ⟨b.position.line, b.position.column + n⟩ := by
  induction n generalizing b with
  | zero => rfl
  | succ n ih =>
    have hnext : b.next.position = ⟨b.position.line, b.position.column + 1⟩ := by
      rw [next, if_neg (h 0 (Nat.succ_pos n))]
    rw [advance, ih fun i hi => look_next b i ▸ h (i + 1) (Nat.succ_lt_succ hi), hnext,
      Nat.add_right_comm, Nat.add_assoc]

theorem byte_char {i : Nat} (hi : i < c.utf8Size) :
    (between before (c :: cs) p).byte i = (String.utf8EncodeChar c).getD i 0 := by
  rw [byte_between, encode_cons, List.getD_append]
  rwa [String.length_utf8EncodeChar]

theorem not_isAscii_look (hc : ¬ IsAscii c) {i : Nat} (hi : i < c.utf8Size) :
    ¬ IsAscii ((between before (c :: cs) p).look i) := by
  refine not_isAscii_of_mem hc ?_
  rw [byte_char hi, List.getD_eq_getElem _ _ (by rwa [String.length_utf8EncodeChar])]
  exact List.getElem_mem _

/-- Moving on by the bytes of a character leads to the place after it. -/
theorem advance_char :
    (between before (c :: cs) p).advance c.utf8Size = between (before ++ [c]) cs (p.step c) := by
  have hposition : ((between before (c :: cs) p).advance c.utf8Size).position = p.step c := by
    by_cases hc : IsAscii c
    · rw [hc.utf8Size, advance, advance, next, look_between, lead_ascii hc, Position.step,
        hc.utf8Size]
      rfl
    · have hline : c ≠ '\n' := by
        rintro rfl
        exact hc (by decide)
      have hbytes : ∀ i < c.utf8Size, (between before (c :: cs) p).look i ≠ '\n' := by
        intro i hi heq
        have hascii : ¬ IsAscii ((between before (c :: cs) p).look i) := not_isAscii_look hc hi
        rw [heq] at hascii
        exact hascii (by decide)
      rw [advance_position hbytes, Position.step, if_neg hline]
      rfl
  apply ByteCursor.ext
  · simp [between]
  · simp [between]
  · exact hposition

theorem next_ascii (hc : IsAscii c) :
    (between before (c :: cs) p).next = between (before ++ [c]) cs (p.step c) := by
  rw [← advance_char, hc.utf8Size]
  rfl

theorem look_succ (hc : IsAscii c) (n : Nat) :
    (between before (c :: cs) p).look (n + 1) = (between (before ++ [c]) cs (p.step c)).look n := by
  rw [← look_next, next_ascii hc]

theorem advanceWhile_of_true {P : ByteCursor → Bool} {b : ByteCursor} (h : P b = true) :
    advanceWhile P b = advanceWhile P b.next := by
  rw [advanceWhile, if_pos h]

theorem advanceWhile_of_false {P : ByteCursor → Bool} {b : ByteCursor} (h : P b = false) :
    advanceWhile P b = some b := by
  rw [advanceWhile, if_neg (by simp [h])]

theorem advanceWhile_advance {P : ByteCursor → Bool} {n : Nat} {b : ByteCursor}
    (h : ∀ i < n, P (b.advance i) = true) : advanceWhile P b = advanceWhile P (b.advance n) := by
  induction n generalizing b with
  | zero => rfl
  | succ n ih =>
    have hfirst : P b = true := h 0 (Nat.succ_pos n)
    rw [advanceWhile_of_true hfirst, ih fun i hi => h (i + 1) (Nat.succ_lt_succ hi)]
    rfl

/-- A loop passes over the bytes of a class as it would over the characters. -/
theorem advanceOver_between {P : Char → Bool} (hP : AsciiClass P) :
    advanceOver P (between before cs p) = some (along before cs p (cs.takeWhile P).length) := by
  induction cs generalizing before p with
  | nil =>
    rw [advanceOver, advanceWhile_of_false (look_class hP), List.takeWhile_nil, List.length_nil,
      along_zero]
  | cons c cs ih =>
    have hlook : P ((between before (c :: cs) p).look 0) = P c := look_class hP
    cases hc : P c with
    | false =>
      rw [hc] at hlook
      rw [advanceOver, advanceWhile_of_false hlook, List.takeWhile_cons_of_neg (by simp [hc]),
        List.length_nil, along_zero]
    | true =>
      rw [hc] at hlook
      rw [advanceOver, advanceWhile_of_true hlook, next_ascii (hP.ascii hc),
        List.takeWhile_cons_of_pos hc, List.length_cons, along_succ]
      exact ih

theorem advanceWhile_char {P : ByteCursor → Bool}
    (h : ∀ i < c.utf8Size, P ((between before (c :: cs) p).advance i) = true) :
    advanceWhile P (between before (c :: cs) p) =
      advanceWhile P (between (before ++ [c]) cs (p.step c)) := by
  rw [advanceWhile_advance h, advance_char]

theorem look_advance (n m : Nat) (b : ByteCursor) : (b.advance n).look m = b.look (n + m) := by
  rw [look, look, byte_advance]

/-- The bytes of a character are not taken for another character. -/
theorem look_ne {d : Char} (hd : IsAscii d) (hcd : c ≠ d) {i : Nat} (hi : i < c.utf8Size) :
    (between before (c :: cs) p).look i ≠ d := by
  by_cases hc : IsAscii c
  · have hzero : i = 0 := by
      rw [hc.utf8Size] at hi
      omega
    rwa [hzero, look_between, lead_ascii hc]
  · intro heq
    have hascii : ¬ IsAscii ((between before (c :: cs) p).look i) := not_isAscii_look hc hi
    rw [heq] at hascii
    exact hascii hd

theorem atEnd_advance {i : Nat} (hi : i < c.utf8Size) :
    ((between before (c :: cs) p).advance i).atEnd = false := by
  simp [atEnd, between]
  omega

theorem asciiClass_isGapBlank : AsciiClass isGapBlank where
  ascii h := by
    simp only [isGapBlank, Bool.or_eq_true, beq_iff_eq] at h
    rcases h with (((rfl | rfl) | rfl) | rfl) | rfl <;> decide
  null := rfl

/-- The cursor stands where the other cursor does, which goes by characters, or past the end. -/
inductive Stands (source : List Char) : ByteCursor → Cursor → Prop
  | between {before cs : List Char} {p : Position} (h : source = before ++ cs) :
      Stands source (between before cs p) ⟨cs, p⟩
  | past {b : ByteCursor} (hsource : b.source = source) (hend : b.atEnd = true) :
      Stands source b ⟨[], b.position⟩

theorem look_past {b : ByteCursor} (h : b.atEnd = true) (n : Nat) : b.look n = '\x00' := by
  have hle : byteLength b.source ≤ b.offset := by simpa [atEnd] using h
  rw [look, byte, List.getD_eq_default]
  · rfl
  · rw [length_encode]
    omega

/-- Where no blank comes next, a gap goes on only with a comment. -/
theorem skipGap_comment {b : ByteCursor} (h : isGapBlank (b.look 0) = false) :
    b.skipGap =
      if b.look 0 = '/' ∧ b.look 1 = '/' then b.advanceWhile inLine >>= skipGap
      else if b.look 0 = '/' ∧ b.look 1 = '*' then
        b.next.next.advanceWhile inBlock >>= fun b => b.next.next.skipGap
      else some b := by
  rw [skipGap, advanceOver, advanceWhile_of_false h]
  simp

theorem skipGap_past {b : ByteCursor} (h : b.atEnd = true) : b.skipGap = some b := by
  have hblank : isGapBlank (b.look 0) = false := by rw [look_past h]; rfl
  have hslash : b.look 0 ≠ '/' := by rw [look_past h]; decide
  rw [skipGap_comment hblank, if_neg fun hb => hslash hb.1, if_neg fun hb => hslash hb.1]

theorem skipGap_blank (hc : isGapBlank c = true) :
    skipGap (between before (c :: cs) p) = skipGap (between (before ++ [c]) cs (p.step c)) := by
  have hlook : isGapBlank ((between before (c :: cs) p).look 0) = true := by
    rw [look_class asciiClass_isGapBlank]
    exact hc
  rw [skipGap, skipGap, advanceOver, advanceOver, advanceWhile_of_true hlook,
    next_ascii (asciiClass_isGapBlank.ascii hc)]

/-- What is left of the reader of a gap inside it. After a star in a block comment the mark that
closes it may be half read. -/
def resume (before cs : List Char) (p : Position) : Cursor.Gap → Option ByteCursor
  | .blank => skipGap (between before cs p)
  | .line => do
    let c ← (between before cs p).advanceWhile inLine
    skipGap c
  | .block star =>
    if star && startsWith (· == '/') cs then skipGap (between before cs p).next
    else do
      let c ← (between before cs p).advanceWhile inBlock
      skipGap c.next.next

theorem inLine_char (hc : c ≠ '\n') {i : Nat} (hi : i < c.utf8Size) :
    inLine ((between before (c :: cs) p).advance i) = true := by
  have hlook : (between before (c :: cs) p).look i ≠ '\n' := look_ne (by decide) hc hi
  simp [inLine, look_advance, hlook, atEnd_advance hi]

theorem asciiClass_slash : AsciiClass (· == '/') :=
  asciiClass_eq (by decide) (by decide)

theorem inBlock_char (hc : ¬ (c = '*' ∧ startsWith (· == '/') cs = true)) {i : Nat}
    (hi : i < c.utf8Size) : inBlock ((between before (c :: cs) p).advance i) = true := by
  by_cases hstar : c = '*'
  · subst hstar
    have hzero : i = 0 := Nat.lt_one_iff.mp hi
    subst hzero
    have hrest : startsWith (· == '/') cs = false := by simpa using hc
    have hlook : ((between before ('*' :: cs) p).look 1 == '/') = false := by
      rw [look_succ (by decide), look_class asciiClass_slash, hrest]
    rw [inBlock, advance, atEnd_between, hlook]
    simp
  · have hlook : (between before (c :: cs) p).look i ≠ '*' := look_ne (by decide) hstar hi
    simp [inBlock, look_advance, hlook, atEnd_advance hi]

theorem resume_blank (hc : isGapBlank c = true) :
    resume before (c :: cs) p .blank = resume (before ++ [c]) cs (p.step c) .blank :=
  skipGap_blank hc

/-- A slash may open a comment. -/
theorem skipGap_slash :
    skipGap (between before ('/' :: cs) p) =
      if startsWith (· == '/') cs then
        (between before ('/' :: cs) p).advanceWhile inLine >>= skipGap
      else if startsWith (· == '*') cs then
        (between before ('/' :: cs) p).next.next.advanceWhile inBlock >>= fun b =>
          b.next.next.skipGap
      else some (between before ('/' :: cs) p) := by
  have hlook : (between before ('/' :: cs) p).look 0 = '/' := by
    rw [look_between, lead_ascii (by decide)]
  have hsecond {d : Char} (hd : IsAscii d) (hnull : d ≠ '\x00') :
      (between before ('/' :: cs) p).look 1 = d ↔ startsWith (· == d) cs = true := by
    rw [look_succ (by decide), ← look_class (asciiClass_eq hd hnull), beq_iff_eq]
  rw [skipGap_comment (by rw [hlook]; rfl), hlook]
  simp only [true_and, hsecond (d := '/') (by decide) (by decide),
    hsecond (d := '*') (by decide) (by decide)]

theorem resume_line (hc : c ≠ '\n') :
    resume before (c :: cs) p .line = resume (before ++ [c]) cs (p.step c) .line := by
  rw [resume, advanceWhile_char fun i => inLine_char hc]
  rfl

theorem resume_line_end :
    resume before ('\n' :: cs) p .line = resume (before ++ ['\n']) cs (p.step '\n') .blank := by
  have hstop : inLine (between before ('\n' :: cs) p) = false := by
    rw [inLine, look_between, lead_ascii (by decide)]
    rfl
  simp only [resume, advanceWhile_of_false hstop]
  exact skipGap_blank rfl

theorem resume_block_end :
    resume before ('/' :: cs) p (.block true) =
      resume (before ++ ['/']) cs (p.step '/') .blank := by
  have hopen : (true && startsWith (· == '/') ('/' :: cs)) = true := rfl
  simp only [resume]
  rw [if_pos hopen, next_ascii (by decide)]

theorem resume_block {star : Bool} (h : (star && c == '/') = false) :
    resume before (c :: cs) p (.block star) =
      resume (before ++ [c]) cs (p.step c) (.block (c == '*')) := by
  have hopen : (star && startsWith (· == '/') (c :: cs)) = false := h
  rw [resume, if_neg (by simp [hopen])]
  by_cases hclose : c = '*' ∧ startsWith (· == '/') cs = true
  · obtain ⟨rfl, hslash⟩ := hclose
    have hstop : inBlock (between before ('*' :: cs) p) = false := by
      have hnext : ((between before ('*' :: cs) p).look 1 == '/') = true := by
        rw [look_succ (by decide), look_class asciiClass_slash, hslash]
      rw [inBlock, look_between, lead_ascii (by decide), hnext]
      simp
    rw [advanceWhile_of_false hstop, resume, if_pos (by simpa using hslash)]
    have hnext : (between before ('*' :: cs) p).next = between (before ++ ['*']) cs (p.step '*') :=
      next_ascii (by decide)
    rw [← hnext]
    rfl
  · rw [advanceWhile_char fun i => inBlock_char hclose, resume,
      if_neg (by simpa [Bool.and_eq_true] using hclose)]

theorem resume_stop (hblank : isGapBlank c = false) (hc : c ≠ '/') :
    resume before (c :: cs) p .blank = some (between before (c :: cs) p) := by
  have hlook : isGapBlank ((between before (c :: cs) p).look 0) = false := by
    rw [look_class asciiClass_isGapBlank]
    exact hblank
  have hslash : (between before (c :: cs) p).look 0 ≠ '/' := look_ne (by decide) hc c.utf8Size_pos
  rw [resume, skipGap_comment hlook, if_neg fun h => hslash h.1, if_neg fun h => hslash h.1]

/-- At the end of the source a comment ends, and the mark that would close a block is counted. -/
theorem exists_resume_nil (g : Cursor.Gap) (before : List Char) (p : Position) :
    ∃ b, resume before [] p g = some b ∧ Stands (before ++ []) b (Cursor.skip g [] p) := by
  have hend : (between before [] p).atEnd = true := atEnd_between
  cases g with
  | blank => exact ⟨_, skipGap_past hend, .between rfl⟩
  | line =>
    have hstop : inLine (between before [] p) = false := by simp [inLine, hend]
    refine ⟨between before [] p, ?_, .between rfl⟩
    rw [resume, advanceWhile_of_false hstop]
    exact skipGap_past hend
  | block star =>
    have hstop : inBlock (between before [] p) = false := by simp [inBlock, hend]
    have hpast : ((between before [] p).advance 2).atEnd = true := by simp [atEnd, between]
    have hposition : ((between before [] p).advance 2).position = ⟨p.line, p.column + 2⟩ :=
      advance_position fun i _ => by rw [look_past hend]; decide
    refine ⟨(between before [] p).advance 2, ?_, ?_⟩
    · rw [resume, if_neg (by simp [startsWith]), advanceWhile_of_false hstop]
      exact skipGap_past hpast
    · rw [Cursor.skip, ← hposition]
      exact .past (by simp [between]) hpast

/-- The readers of a gap agree on where it ends. -/
theorem exists_resume (g : Cursor.Gap) (before cs : List Char) (p : Position) :
    ∃ b, resume before cs p g = some b ∧ Stands (before ++ cs) b (Cursor.skip g cs p) := by
  fun_induction Cursor.skip g cs p generalizing before with
  | case1 star p => exact exists_resume_nil (.block star) before p
  | case2 p => exact exists_resume_nil .blank before p
  | case3 p => exact exists_resume_nil .line before p
  | case4 c cs p hc ih =>
    rw [resume_blank hc]
    simpa using ih (before ++ [c])
  | case5 p => exact ⟨_, skipGap_slash, .between rfl⟩
  | case6 p cs _ ih =>
    have hline : resume before ('/' :: '/' :: cs) p .blank =
        resume before ('/' :: '/' :: cs) p .line :=
      skipGap_slash
    rw [hline, resume_line (by decide), resume_line (by decide)]
    simpa using ih (before ++ ['/'] ++ ['/'])
  | case7 p cs _ _ ih =>
    have hblock : resume before ('/' :: '*' :: cs) p .blank =
        resume (before ++ ['/'] ++ ['*']) cs ((p.step '/').step '*') (.block false) := by
      rw [resume, skipGap_slash, next_ascii (by decide), next_ascii (by decide)]
      rfl
    rw [hblock]
    simpa using ih (before ++ ['/'] ++ ['*'])
  | case8 p d cs hslash hstar =>
    refine ⟨_, ?_, .between rfl⟩
    rw [resume, skipGap_slash]
    simp [startsWith, hslash, hstar]
  | case9 c cs p hblank hc => exact ⟨_, resume_stop (by simpa using hblank) hc, .between rfl⟩
  | case10 cs p ih =>
    rw [resume_line_end]
    simpa using ih (before ++ ['\n'])
  | case11 c cs p hc ih =>
    rw [resume_line hc]
    simpa using ih (before ++ [c])
  | case12 star c cs p hc ih =>
    obtain ⟨rfl, rfl⟩ : star = true ∧ c = '/' := by simpa using hc
    rw [resume_block_end]
    simpa using ih (before ++ ['/'])
  | case13 star c cs p hc ih =>
    rw [resume_block (by simpa using hc)]
    simpa using ih (before ++ [c])

end ByteCursor

end TorqueScript
