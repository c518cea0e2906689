import TorqueScript.Proofs.Token.Lexical

/-!
Reading a text that a line break divides. No token goes on past the end of its line,
unless it is a quoted text that the first part leaves open, and a line comment ends
there. So the tokens of the first part are read as before, and those of the second
part follow them, unless the first part ends inside a block comment.
-/

namespace TorqueScript

open Text Scan

namespace Scan

theorem lt_length_of_startsWith {P : Char → Bool} {cs : List Char} {n : Nat}
    (h : startsWith P (cs.drop n) = true) : n < cs.length := by
  rcases Nat.lt_or_ge n cs.length with hlt | hle
  · exact hlt
  · rw [List.drop_eq_nil_of_le hle] at h
    cases h

theorem length_takeWhile_le (P : Char → Bool) (cs : List Char) :
    (cs.takeWhile P).length ≤ cs.length :=
  (List.takeWhile_sublist P).length_le

theorem length_variablePath_le (cs : List Char) : (variablePath cs).length ≤ cs.length := by
  have hpath := variablePath_isPrefix cs
  exact hpath.length_le

theorem pointLength_le (cs : List Char) : pointLength cs ≤ cs.length := by
  unfold pointLength
  split
  · rename_i cs
    have hdigits := length_takeWhile_le Char.isDigit cs
    simp only [List.length_cons]
    split <;> omega
  · omega

theorem exponentLength_le (cs : List Char) : (exponentLength cs).1 ≤ cs.length := by
  unfold exponentLength
  split
  · rename_i c cs
    split
    · have hdigits := fun sign => length_takeWhile_le Char.isDigit (cs.drop sign)
      simp only [List.length_drop, List.length_cons] at *
      split
      · rename_i hsign
        have := lt_length_of_startsWith (n := 0) hsign
        have := hdigits 1
        omega
      · have := hdigits 0
        omega
    · exact Nat.zero_le _
  · exact Nat.le_refl _

theorem length_hexDigits?_lt {cs digits : List Char} (h : Number.hexDigits? cs = some digits) :
    digits.length + 2 ≤ cs.length := by
  unfold Number.hexDigits? at h
  split at h
  · split at h
    · cases h
      simpa using length_takeWhile_le isHexDigit _
    · cases h
  · cases h

theorem numeralLength_le (cs : List Char) : (numeralLength cs).1 ≤ cs.length := by
  unfold numeralLength
  split
  · rename_i hdigits
    have := length_hexDigits?_lt hdigits
    simp only
    omega
  · have hwhole := length_takeWhile_le Char.isDigit cs
    have hpoint := pointLength_le (cs.drop (cs.takeWhile Char.isDigit).length)
    have hexponent := exponentLength_le (cs.drop ((cs.takeWhile Char.isDigit).length +
      pointLength (cs.drop (cs.takeWhile Char.isDigit).length)))
    simp only [List.length_drop] at hpoint hexponent
    simp only
    omega

theorem length_quotedText_lt {quote : Char} {cs : List Char} (h : (quotedText quote cs).2 = true) :
    (quotedText quote cs).1.length < cs.length := by
  fun_induction quotedText quote cs with
  | case1 => cases h
  | case2 => simp
  | case3 => cases h
  | case4 => cases h
  | case5 d rest text closed heq _ _ ih =>
    rw [heq] at ih
    have : text.length < rest.length := ih h
    simp only [List.length_cons]
    omega
  | case6 c cs _ _ _ text closed heq ih =>
    rw [heq] at ih
    have : text.length < cs.length := ih h
    simp only [List.length_cons]
    omega

theorem length_spelling_le {cs : List Char} {x : Symbol} (h : Symbol.leading? cs = some x) :
    x.spelling.length ≤ cs.length := by
  have hprefix := List.find?_some h
  rw [List.isPrefixOf_iff_prefix] at hprefix
  exact String.length_toList ▸ hprefix.length_le

theorem length_lexeme_le {c : Char} {cs : List Char} {t : Token} {n : Nat}
    (h : lexeme c cs = .ok (t, n)) : n ≤ cs.length := by
  cases readsAs_of_lexeme h with
  | keyword => exact length_takeWhile_le isNameChar cs
  | switchText hswitch hdollar => exact lt_length_of_startsWith hdollar
  | name => exact length_takeWhile_le isNameChar cs
  | numeral =>
    have hnumeral := numeralLength_le (c :: cs)
    simp only [List.length_cons] at hnumeral
    omega
  | text hquote hclosed => exact length_quotedText_lt hclosed
  | localVariable => exact length_variablePath_le cs
  | globalVariable => exact length_variablePath_le cs
  | symbol hleading =>
    have hspelling := length_spelling_le hleading
    simp only [List.length_cons] at hspelling
    omega

section

variable {b : List Char}

theorem startsWith_line {P : Char → Bool} (hP : P '\n' = false) (cs : List Char) :
    startsWith P (cs ++ '\n' :: b) = startsWith P cs := by
  cases cs with
  | nil => exact hP
  | cons c cs => rfl

theorem takeWhile_line {P : Char → Bool} (hP : P '\n' = false) (cs : List Char) :
    (cs ++ '\n' :: b).takeWhile P = cs.takeWhile P := by
  induction cs with
  | nil => simp [hP]
  | cons c cs ih => simp only [List.cons_append, List.takeWhile_cons, ih]

theorem pointLength_line (cs : List Char) : pointLength (cs ++ '\n' :: b) = pointLength cs := by
  cases cs with
  | nil => rfl
  | cons c cs =>
    unfold pointLength
    rw [List.cons_append]
    split
    · rename_i heq
      cases heq
      simp only [takeWhile_line (P := Char.isDigit) (by decide)]
    · split
      · simp_all
      · rfl

theorem exponentLength_line (cs : List Char) :
    exponentLength (cs ++ '\n' :: b) = exponentLength cs := by
  cases cs with
  | nil => rfl
  | cons c cs =>
    have hsign := startsWith_line (b := b) (P := fun s => s == '+' || s == '-') (by decide) cs
    have hdigits : ∀ sign ≤ cs.length, ((cs ++ '\n' :: b).drop sign).takeWhile Char.isDigit =
        (cs.drop sign).takeWhile Char.isDigit := by
      intro sign hle
      rw [List.drop_append_of_le_length hle, takeWhile_line (by decide)]
    simp only [List.cons_append, exponentLength, hsign]
    split
    · split
      · rename_i hstart
        rw [hdigits 1 (lt_length_of_startsWith (n := 0) hstart)]
      · rw [hdigits 0 (Nat.zero_le _)]
    · rfl

theorem hexDigits?_line (cs : List Char) :
    Number.hexDigits? (cs ++ '\n' :: b) = Number.hexDigits? cs := by
  rcases cs with - | ⟨c, - | ⟨d, cs⟩⟩
  · rfl
  · by_cases hc : c = '0'
    · subst hc
      rfl
    · simp [Number.hexDigits?, hc]
  · by_cases hc : c = '0'
    · subst hc
      simp only [List.cons_append, Number.hexDigits?, takeWhile_line (P := isHexDigit) (by decide)]
    · simp [Number.hexDigits?, hc]

theorem numeralLength_line (cs : List Char) :
    numeralLength (cs ++ '\n' :: b) = numeralLength cs := by
  unfold numeralLength
  rw [hexDigits?_line]
  split
  · rfl
  · have hwhole := length_takeWhile_le Char.isDigit cs
    have hpoint := pointLength_le (cs.drop (cs.takeWhile Char.isDigit).length)
    rw [List.length_drop] at hpoint
    simp only
    rw [takeWhile_line (by decide), List.drop_append_of_le_length hwhole, pointLength_line,
      List.drop_append_of_le_length (by omega), exponentLength_line]

theorem quotedText_line {quote : Char} {cs : List Char} (h : (quotedText quote cs).2 = true) :
    quotedText quote (cs ++ '\n' :: b) = quotedText quote cs := by
  fun_induction quotedText quote cs with
  | case1 => cases h
  | case2 cs =>
    rw [List.cons_append, quotedText.eq_def]
    simp only [if_true]
  | case3 => cases h
  | case4 => cases h
  | case5 d rest text closed heq hquote hline ih =>
    rw [heq] at ih
    simp only [List.cons_append, quotedText, if_neg hquote, if_neg hline, if_true, ih h]
  | case6 c cs hquote hline hescape text closed heq ih =>
    rw [heq] at ih
    rw [List.cons_append, quotedText.eq_def]
    simp only [if_neg hquote, if_neg hline, if_neg hescape, ih h]

theorem variablePath_line (cs : List Char) :
    variablePath (cs ++ '\n' :: b) = variablePath cs := by
  fun_induction variablePath cs with
  | case1 => rfl
  | case2 c cs hc ih =>
    rw [List.cons_append, variablePath.eq_def]
    simp only [if_pos hc, ih]
  | case3 d cs hc hd ih => simp [variablePath, hc, hd, ih]
  | case4 d cs hc hd => simp [variablePath, hc, hd]
  | case5 c cs hc hother =>
    rw [List.cons_append, variablePath.eq_def]
    simp only [if_neg hc]
    split
    · rename_i d rest heq
      -- The line break can only be the character after the colons, which has to be a letter.
      rcases cs with - | ⟨x, - | ⟨y, cs⟩⟩
      · simp at heq
      · obtain ⟨-, rfl, -⟩ : x = ':' ∧ '\n' = d ∧ b = rest := by simpa using heq
        rfl
      · obtain ⟨rfl, -⟩ := List.cons.inj heq
        exact absurd rfl (hother y cs rfl)
    · rfl

theorem line_notMem_spelling : ∀ x ∈ Symbol.all, '\n' ∉ x.spelling.toList := by
  decide

theorem leading?_line (cs : List Char) :
    Symbol.leading? (cs ++ '\n' :: b) = Symbol.leading? cs := by
  have hprefix : ∀ x : Symbol, x.spelling.toList.isPrefixOf (cs ++ '\n' :: b) =
      x.spelling.toList.isPrefixOf cs := by
    intro x
    refine isPrefixOf_append fun _ c hc => beq_eq_false_iff_ne.2 ?_
    rintro rfl
    exact line_notMem_spelling x x.mem_all (List.mem_of_mem_drop (List.mem_of_mem_head? hc))
  simp only [Symbol.leading?, hprefix]

/-- What was read as a token is read as the same token. -/
theorem lexeme_line {c : Char} {cs : List Char} {t : Token} {n : Nat}
    (h : lexeme c cs = .ok (t, n)) : lexeme c (cs ++ '\n' :: b) = .ok (t, n) := by
  unfold lexeme at h ⊢
  split at h
  · rename_i hletter
    have hle := length_takeWhile_le isNameChar cs
    rw [if_pos hletter]
    simp only [takeWhile_line (P := isNameChar) (by decide), List.drop_append_of_le_length hle,
      startsWith_line (P := (· == '$')) (by decide)]
    exact h
  rename_i hletter
  rw [if_neg hletter, startsWith_line (P := Char.isDigit) (by decide)]
  split at h
  · rename_i hnumeral
    have hle := numeralLength_le (c :: cs)
    rw [if_pos hnumeral]
    simp only [← List.cons_append, numeralLength_line, List.drop_append_of_le_length hle,
      List.take_append_of_le_length hle, startsWith_line (P := isNameChar) (by decide)]
    simp only at h
    split at h
    · rename_i hcomplete
      rw [if_pos hcomplete]
      exact h
    · cases h
  rename_i hnumeral
  rw [if_neg hnumeral]
  split at h
  · rename_i hquote
    rw [if_pos hquote]
    simp only at h
    split at h
    · rename_i hclosed
      simp only [quotedText_line hclosed, if_pos hclosed]
      exact h
    · cases h
  rename_i hquote
  rw [if_neg hquote, startsWith_line (P := isLetter) (by decide),
    startsWith_line (P := fun d => isLetter d || d == ':') (by decide), variablePath_line,
    ← List.cons_append, leading?_line]
  exact h

end

end Scan

namespace Cursor

/-- A gap that goes on to the end of the text leaves a block comment open there. -/
def unclosed : Gap → List Char → Bool
  | .block _, [] => true
  | .blank, [] => false
  | .line, [] => false
  | .blank, c :: cs =>
    if Scan.isGapBlank c then unclosed .blank cs
    else if c = '/' then
      match cs with
      | [] => false
      | d :: rest =>
        if d = '/' then unclosed .line rest
        else if d = '*' then unclosed (.block false) rest
        else false
    else false
  | .line, c :: cs => if c = '\n' then unclosed .blank cs else unclosed .line cs
  | .block star, c :: cs =>
    if star && c == '/' then unclosed .blank cs else unclosed (.block (c == '*')) cs

section

variable {c : Char} {cs : List Char} {p : Position}

theorem skip_blank (hc : Scan.isGapBlank c = true) :
    skip .blank (c :: cs) p = skip .blank cs (p.step c) := by
  rw [skip.eq_def]
  simp only [if_pos hc]

theorem skip_token (h : OpensToken c cs) : skip .blank (c :: cs) p = ⟨c :: cs, p⟩ :=
  skipGap_eq h p

theorem opensToken_slash (hslash : c ≠ '/') (hstar : c ≠ '*') : OpensToken '/' (c :: cs) := by
  simp [OpensToken, Scan.isGapBlank, Scan.startsWith, hslash, hstar]

theorem opensToken_of_ne (hblank : ¬ Scan.isGapBlank c = true) (hslash : c ≠ '/') :
    OpensToken c cs :=
  ⟨Bool.eq_false_iff.2 hblank, fun h => absurd h hslash⟩

theorem skip_block {star : Bool} : skip (.block star) (c :: cs) p =
    if star && c == '/' then skip .blank cs (p.step c)
    else skip (.block (c == '*')) cs (p.step c) := by
  rw [skip.eq_def]

theorem unclosed_blank (hc : Scan.isGapBlank c = true) :
    unclosed .blank (c :: cs) = unclosed .blank cs := by
  rw [unclosed.eq_def]
  simp only [if_pos hc]

end

/-- Where a gap ends does not depend on where it began. -/
theorem rest_skip (g : Gap) (cs : List Char) (p q : Position) :
    (skip g cs p).rest = (skip g cs q).rest := by
  fun_induction skip g cs p generalizing q with
  | case1 => rfl
  | case2 => rfl
  | case3 => rfl
  | case4 c cs p hc ih => rw [skip_blank hc, ih]
  | case5 => rfl
  | case6 p cs _ ih => exact ih _
  | case7 p cs _ _ ih => exact ih _
  | case8 p c cs hslash hstar _ => rw [skip_token (opensToken_slash hslash hstar)]
  | case9 c cs p hc hslash => rw [skip_token (opensToken_of_ne hc hslash)]
  | case10 cs p ih => exact ih _
  | case11 c cs p hc ih =>
    rw [skip, if_neg hc]
    exact ih _
  | case12 star c cs p hclose ih => rw [skip_block, if_pos hclose, ih]
  | case13 star c cs p hclose ih => rw [skip_block, if_neg hclose, ih]

theorem rest_skipGap (cs : List Char) (p : Position) :
    (⟨cs, p⟩ : Cursor).skipGap.rest = (skip .blank cs .start).rest :=
  rest_skip ..

variable {b : List Char}

/-- A gap that ends before a token ends there whatever comes on later lines. -/
theorem skip_line_of_cons {g : Gap} {cs : List Char} {p : Position} {d : Char} {ds : List Char}
    (h : (skip g cs p).rest = d :: ds) :
    skip g (cs ++ '\n' :: b) p = ⟨d :: (ds ++ '\n' :: b), (skip g cs p).position⟩ := by
  fun_induction skip g cs p with
  | case1 => cases h
  | case2 => cases h
  | case3 => cases h
  | case4 c cs p hc ih => rw [List.cons_append, skip_blank hc, ih h]
  | case5 =>
    cases h
    rfl
  | case6 p cs _ ih => exact ih h
  | case7 p cs _ _ ih => exact ih h
  | case8 p c cs hslash hstar _ =>
    cases h
    exact skip_token (opensToken_slash hslash hstar)
  | case9 c cs p hc hslash =>
    cases h
    exact skip_token (opensToken_of_ne hc hslash)
  | case10 cs p ih => exact ih h
  | case11 c cs p hc ih =>
    rw [List.cons_append, skip, if_neg hc]
    exact ih h
  | case12 star c cs p hclose ih => rw [List.cons_append, skip_block, if_pos hclose, ih h]
  | case13 star c cs p hclose ih => rw [List.cons_append, skip_block, if_neg hclose, ih h]

/-- A gap at the end that leaves no comment open goes on after the line break. -/
theorem skip_line_of_nil {g : Gap} {cs : List Char} {p : Position} (h : (skip g cs p).rest = [])
    (hclosed : unclosed g cs = false) : ∃ q, skip g (cs ++ '\n' :: b) p = skip .blank b q := by
  fun_induction skip g cs p with
  | case1 => cases hclosed
  | case2 p => exact ⟨p.step '\n', skip_blank (by decide)⟩
  | case3 p => exact ⟨p.step '\n', by simp [skip]⟩
  | case4 c cs p hc ih =>
    rw [unclosed_blank hc] at hclosed
    rw [List.cons_append, skip_blank hc]
    exact ih h hclosed
  | case5 => cases h
  | case6 p cs _ ih => exact ih h hclosed
  | case7 p cs _ _ ih => exact ih h hclosed
  | case8 => cases h
  | case9 => cases h
  | case10 cs p ih => exact ih h hclosed
  | case11 c cs p hc ih =>
    rw [unclosed, if_neg hc] at hclosed
    rw [List.cons_append, skip, if_neg hc]
    exact ih h hclosed
  | case12 star c cs p hclose ih =>
    rw [unclosed, if_pos hclose] at hclosed
    rw [List.cons_append, skip_block, if_pos hclose]
    exact ih h hclosed
  | case13 star c cs p hclose ih =>
    rw [unclosed, if_neg hclose] at hclosed
    rw [List.cons_append, skip_block, if_neg hclose]
    exact ih h hclosed

end Cursor

/-- The text ends inside a block comment. -/
def endsInComment (cs : List Char) : Bool :=
  match _h : (Cursor.skip .blank cs .start).rest with
  | [] => Cursor.unclosed .blank cs
  | d :: ds =>
    match Scan.lexeme d ds with
    | .ok (_, n) => endsInComment (ds.drop n)
    | .error _ => false
termination_by cs.length
decreasing_by
  have hskip := Cursor.length_skip_le .blank cs .start
  simp only [_h, List.length_cons] at hskip
  simp only [List.length_drop]
  omega

/-- Tokens that a complete statement may stand before: they do not begin with a mistake, nor with
an `else` that would be its own. -/
structure Fresh (t : Stream) : Prop where
  settled : Parse.Settled t
  noElse : Parse.isNext (.keyword .else) t = false

/-- The tokens `s'` are those of `s`, at any positions, and then `t` in place of the end. What comes
after a mistake may be anything. -/
inductive Prolongs (t : Stream) : Stream → Stream → Prop
  | finish {p : Position} (ht : Fresh t) : Prolongs t (.finish p) t
  | failure {e : ScanError} {s' : Stream} : Prolongs t (.failure e) s'
  | cons {token : Token} {p q : Position} {s s' : Stream} (h : Prolongs t s s') :
      Prolongs t (.cons ⟨token, p⟩ s) (.cons ⟨token, q⟩ s')

namespace Stream

/-- After a line break the tokens of the second part follow those of the first. -/
theorem prolongs_ofCursor {a b : List Char} (h : endsInComment a = false)
    (hb : ∀ q, Fresh (ofCursor ⟨b, q⟩)) (p : Position) :
    ∃ q, Prolongs (ofCursor ⟨b, q⟩) (ofCursor ⟨a, p⟩) (ofCursor ⟨a ++ '\n' :: b, p⟩) := by
  fun_induction endsInComment a generalizing p with
  | case1 cs hend =>
    rw [← Cursor.rest_skipGap cs p] at hend
    obtain ⟨q, hq⟩ := Cursor.skip_line_of_nil (b := b) hend h
    have hjoin : ofCursor ⟨cs ++ '\n' :: b, p⟩ = ofCursor ⟨b, q⟩ := ofCursor_eq_of_skipGap hq
    rw [ofCursor_finish hend, hjoin]
    exact ⟨q, .finish (hb q)⟩
  | case2 cs d ds hstart t n hlex ih =>
    rw [← Cursor.rest_skipGap cs p] at hstart
    have hskip : (⟨cs ++ '\n' :: b, p⟩ : Cursor).skipGap =
        ⟨d :: (ds ++ '\n' :: b), (⟨cs, p⟩ : Cursor).skipGap.position⟩ :=
      Cursor.skip_line_of_cons hstart
    have hstart' : (⟨cs ++ '\n' :: b, p⟩ : Cursor).skipGap.rest = d :: (ds ++ '\n' :: b) := by
      rw [hskip]
    have hle := length_lexeme_le hlex
    obtain ⟨q, hq⟩ := ih h ((⟨cs, p⟩ : Cursor).skipGap.position.after (d :: ds.take n))
    rw [ofCursor_token hstart hlex, ofCursor_token hstart' (lexeme_line hlex), hskip,
      List.drop_append_of_le_length hle, List.take_append_of_le_length hle]
    exact ⟨q, .cons hq⟩
  | case3 cs d ds hstart e hlex =>
    rw [← Cursor.rest_skipGap cs p] at hstart
    rw [ofCursor_failure hstart hlex]
    exact ⟨p, .failure⟩

/-- A text has the same tokens wherever it stands. -/
theorem prolongs_moved (cs : List Char) (p p' : Position) :
    ∃ q, Prolongs (.finish q) (ofCursor ⟨cs, p⟩) (ofCursor ⟨cs, p'⟩) := by
  fun_induction endsInComment cs generalizing p p' with
  | case1 cs hend =>
    have hrest := fun p => (Cursor.rest_skipGap cs p).trans hend
    rw [ofCursor_finish (hrest p), ofCursor_finish (hrest p')]
    exact ⟨_, .finish ⟨rfl, rfl⟩⟩
  | case2 cs d ds hstart t n hlex ih =>
    have hrest := fun p => (Cursor.rest_skipGap cs p).trans hstart
    rw [ofCursor_token (hrest p) hlex, ofCursor_token (hrest p') hlex]
    obtain ⟨q, hq⟩ := ih _ _
    exact ⟨q, .cons hq⟩
  | case3 cs d ds hstart e hlex =>
    rw [ofCursor_failure ((Cursor.rest_skipGap cs p).trans hstart) hlex]
    exact ⟨p, .failure⟩

end Stream

end TorqueScript
