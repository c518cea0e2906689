import TorqueScript.Proofs.Token.Layout

/-!
What is written in quotes, decoded one written character after the other. A backslash takes the
character after it and, for codes and colors, the digits that follow. The reader that keeps track
of half-read escapes decodes every text in the same way. What stands behind the closing quote does
not matter, since no quote and no line break is a digit.
-/

namespace TorqueScript.Scan

open Text

theorem takeWhile_eq_nil {P : Char → Bool} {cs : List Char} (h : startsWith P cs = false) :
    cs.takeWhile P = [] := by
  cases cs with
  | nil => rfl
  | cons c cs => exact List.takeWhile_cons_of_neg (by simpa [startsWith] using h)

section

variable {quote : Char} {P : Char → Bool} {cs : List Char}

/-- A class of characters that can be read on in a quoted text without a look at what they are. -/
structure IsPlain (quote : Char) (P : Char → Bool) : Prop where
  quote : P quote = false
  line : P '\n' = false
  escape : P '\\' = false

theorem isPlain_isHexDigit (h : isQuote quote = true) : IsPlain quote isHexDigit where
  quote := by
    rcases Bool.or_eq_true_iff.mp h with h | h <;> rw [beq_iff_eq.mp h] <;> rfl
  line := rfl
  escape := rfl

theorem isPlain_isDigit (h : isQuote quote = true) : IsPlain quote Char.isDigit where
  quote := by
    rcases Bool.or_eq_true_iff.mp h with h | h <;> rw [beq_iff_eq.mp h] <;> rfl
  line := rfl
  escape := rfl

theorem quotedText_end (quote : Char) (cs : List Char) :
    quotedText quote (quote :: cs) = ([], true) := by
  rw [quotedText.eq_def]
  simp only [if_true]

theorem quotedText_break (h : '\n' ≠ quote) : quotedText quote ('\n' :: cs) = ([], false) := by
  rw [quotedText.eq_def]
  simp only [if_neg h, if_true]

theorem quotedText_plain {c : Char} (hquote : c ≠ quote) (hline : c ≠ '\n') (hescape : c ≠ '\\') :
    quotedText quote (c :: cs) = (c :: (quotedText quote cs).1, (quotedText quote cs).2) := by
  rw [quotedText.eq_def]
  simp only [if_neg hquote, if_neg hline, if_neg hescape]

theorem quotedText_escape {d : Char} (h : isQuote quote = true) :
    quotedText quote ('\\' :: d :: cs) =
      ('\\' :: d :: (quotedText quote cs).1, (quotedText quote cs).2) := by
  have hquote : '\\' ≠ quote := by
    rintro rfl
    exact absurd h (by decide)
  rw [quotedText, if_neg hquote, if_neg (by decide), if_pos rfl]

theorem IsPlain.quotedText_cons (hP : IsPlain quote P) {c : Char} (hc : P c = true) :
    quotedText quote (c :: cs) = (c :: (quotedText quote cs).1, (quotedText quote cs).2) := by
  have hne {d : Char} (hd : P d = false) : c ≠ d := by
    rintro rfl
    rw [hc] at hd
    cases hd
  exact quotedText_plain (hne hP.quote) (hne hP.line) (hne hP.escape)

/-- A run of plain characters at the front stands in the quoted text as a whole. -/
theorem IsPlain.takeWhile_quotedText (hP : IsPlain quote P) :
    (quotedText quote cs).1.takeWhile P = cs.takeWhile P := by
  induction cs with
  | nil => rfl
  | cons c cs ih =>
    cases hc : P c with
    | true => rw [hP.quotedText_cons hc, List.takeWhile_cons_of_pos hc, ih,
        List.takeWhile_cons_of_pos hc]
    | false =>
      have hstart : startsWith P (quotedText quote (c :: cs)).1 = false := by
        rw [quotedText.eq_def]
        dsimp only
        split
        · rfl
        · split
          · rfl
          · split
            · split
              · exact hc
              · exact hc
            · exact hc
      rw [takeWhile_eq_nil hstart, List.takeWhile_cons_of_neg (by simp [hc])]

theorem IsPlain.quotedText_drop (hP : IsPlain quote P) {n : Nat}
    (h : n ≤ (cs.takeWhile P).length) :
    quotedText quote (cs.drop n) =
      ((quotedText quote cs).1.drop n, (quotedText quote cs).2) := by
  induction n generalizing cs with
  | zero => rfl
  | succ n ih =>
    cases cs with
    | nil => cases h
    | cons c cs =>
      cases hc : P c with
      | false => simp [hc] at h
      | true =>
        rw [List.takeWhile_cons_of_pos hc] at h
        rw [hP.quotedText_cons hc, List.drop_succ_cons, ih (Nat.le_of_succ_le_succ h)]
        rfl

end

/-- What a backslash and the character `c` stand for in front of `cs`, and how many characters of
`cs` belong to that. A code has one or two hexadecimal digits, a color has one decimal digit. -/
def Escape.meaning (c : Char) (cs : List Char) : Char × Nat :=
  let code := (cs.takeWhile isHexDigit).take 2
  let color := (cs.takeWhile Char.isDigit).take 1
  if c = 'n' then ('\n', 0)
  else if c = 't' then ('\t', 0)
  else if c = 'r' then ('\r', 0)
  else if c = 'x' ∧ code ≠ [] then (Char.ofNat (hexadecimalValue code), code.length)
  else if c = 'c' ∧ color ≠ [] then (colorCodes.getD (decimalValue color) 'c', 1)
  else (c, 0)

theorem exists_cons_of_startsWith {P : Char → Bool} {cs : List Char} (h : startsWith P cs = true) :
    ∃ d ds, cs = d :: ds ∧ P d = true := by
  cases cs with
  | nil => cases h
  | cons d ds => exact ⟨d, ds, rfl, h⟩

theorem take_takeWhile_ne_nil {P : Char → Bool} {cs : List Char} (n : Nat) :
    (cs.takeWhile P).take (n + 1) ≠ [] ↔ startsWith P cs = true := by
  cases cs with
  | nil => simp [startsWith]
  | cons c cs => cases hc : P c <;> simp [startsWith, hc]

theorem meaning_code {cs : List Char} (h : startsWith isHexDigit cs = true) :
    Escape.meaning 'x' cs =
      (Char.ofNat (hexadecimalValue ((cs.takeWhile isHexDigit).take 2)),
        ((cs.takeWhile isHexDigit).take 2).length) := by
  rw [Escape.meaning, if_neg (by decide), if_neg (by decide), if_neg (by decide),
    if_pos ⟨rfl, (take_takeWhile_ne_nil 1).2 h⟩]

theorem meaning_color {d : Char} (h : d.isDigit = true) (cs : List Char) :
    Escape.meaning 'c' (d :: cs) = (colorCodes.getD (digitValue d) 'c', 1) := by
  simp [Escape.meaning, h, decimalValue]

theorem meaning_self {c : Char} {cs : List Char} (hplain : c ∉ ['n', 't', 'r'])
    (hcode : ¬ (c = 'x' ∧ startsWith isHexDigit cs = true))
    (hcolor : ¬ (c = 'c' ∧ startsWith Char.isDigit cs = true)) :
    Escape.meaning c cs = (c, 0) := by
  simp only [List.mem_cons, List.not_mem_nil, or_false, not_or] at hplain
  rw [Escape.meaning, if_neg hplain.1, if_neg hplain.2.1, if_neg hplain.2.2,
    if_neg (by rwa [take_takeWhile_ne_nil]), if_neg (by rwa [take_takeWhile_ne_nil])]

/-- The content of a quoted text. -/
def decode : List Char → List Char
  | [] => []
  | [c] => if c = '\\' then [] else [c]
  | c :: d :: cs =>
    if c = '\\' then (Escape.meaning d cs).1 :: decode (cs.drop (Escape.meaning d cs).2)
    else c :: decode (d :: cs)
termination_by cs => cs.length
decreasing_by all_goals simp only [List.length_drop, List.length_cons]; omega

theorem decode_plain {c : Char} (h : c ≠ '\\') (cs : List Char) :
    decode (c :: cs) = c :: decode cs := by
  cases cs with
  | nil => simp [decode, h]
  | cons d cs => rw [decode, if_neg h]

theorem decode_escape (d : Char) (cs : List Char) :
    decode ('\\' :: d :: cs) =
      (Escape.meaning d cs).1 :: decode (cs.drop (Escape.meaning d cs).2) := by
  rw [decode, if_pos rfl]

section

variable {cs : List Char}

theorem unescapeFrom_plain {c : Char} (h : c ≠ '\\') :
    unescapeFrom .plain (c :: cs) = c :: unescapeFrom .plain cs := by
  have hstep : Escape.step .plain c = ([c], .plain) := if_neg h
  rw [unescapeFrom, hstep]
  rfl

theorem unescapeFrom_code (h : startsWith isHexDigit cs = false) :
    unescapeFrom .code cs = 'x' :: unescapeFrom .plain cs := by
  cases cs with
  | nil => rfl
  | cons c cs =>
    have hc : isHexDigit c = false := h
    simp [unescapeFrom, Escape.step, hc]

theorem unescapeFrom_codeDigit (n : Nat) (h : startsWith isHexDigit cs = false) :
    unescapeFrom (.codeDigit n) cs = Char.ofNat n :: unescapeFrom .plain cs := by
  cases cs with
  | nil => rfl
  | cons c cs =>
    have hc : isHexDigit c = false := h
    simp [unescapeFrom, Escape.step, hc]

theorem unescapeFrom_color (h : startsWith Char.isDigit cs = false) :
    unescapeFrom .color cs = 'c' :: unescapeFrom .plain cs := by
  cases cs with
  | nil => rfl
  | cons c cs =>
    have hc : c.isDigit = false := h
    simp [unescapeFrom, Escape.step, hc]

/-- A character code is read digit by digit. -/
theorem unescapeFrom_code_eq (cs : List Char) :
    unescapeFrom .code cs =
      (Escape.meaning 'x' cs).1 :: unescapeFrom .plain (cs.drop (Escape.meaning 'x' cs).2) := by
  cases hfirst : startsWith isHexDigit cs with
  | false =>
    rw [meaning_self (by decide) (by simp [hfirst]) (by simp), unescapeFrom_code hfirst]
    rfl
  | true =>
    rw [meaning_code hfirst]
    obtain ⟨c, cs, rfl, hc⟩ := exists_cons_of_startsWith hfirst
    have hstep : unescapeFrom .code (c :: cs) = unescapeFrom (.codeDigit (hexValue c)) cs := by
      simp [unescapeFrom, Escape.step, hc]
    rw [hstep]
    cases hsecond : startsWith isHexDigit cs with
    | false =>
      simp [hc, takeWhile_eq_nil hsecond, unescapeFrom_codeDigit _ hsecond, hexadecimalValue]
    | true =>
      obtain ⟨d, cs, rfl, hd⟩ := exists_cons_of_startsWith hsecond
      simp [unescapeFrom, Escape.step, hc, hd, hexadecimalValue]

theorem unescapeFrom_color_eq (cs : List Char) :
    unescapeFrom .color cs =
      (Escape.meaning 'c' cs).1 :: unescapeFrom .plain (cs.drop (Escape.meaning 'c' cs).2) := by
  cases hfirst : startsWith Char.isDigit cs with
  | false =>
    rw [meaning_self (by decide) (by simp) (by simp [hfirst]), unescapeFrom_color hfirst]
    rfl
  | true =>
    obtain ⟨d, cs, rfl, hd⟩ := exists_cons_of_startsWith hfirst
    rw [meaning_color hd]
    simp [unescapeFrom, Escape.step, hd]

/-- After a backslash the reader goes on with what the escape stands for. -/
theorem unescapeFrom_opened (d : Char) (cs : List Char) :
    unescapeFrom .opened (d :: cs) =
      (Escape.meaning d cs).1 :: unescapeFrom .plain (cs.drop (Escape.meaning d cs).2) := by
  by_cases hx : d = 'x'
  · subst hx
    rw [← unescapeFrom_code_eq]
    rfl
  · by_cases hc : d = 'c'
    · subst hc
      rw [← unescapeFrom_color_eq]
      rfl
    · by_cases hn : d = 'n' <;> by_cases ht : d = 't' <;> by_cases hr : d = 'r' <;>
        simp [unescapeFrom, Escape.step, Escape.meaning, hx, hc, hn, ht, hr]

/-- The reader of quoted texts decodes them. -/
theorem unescape_eq_decode (cs : List Char) : unescape cs = decode cs := by
  rw [unescape]
  fun_induction decode cs with
  | case1 => rfl
  | case2 => rfl
  | case3 c hc => exact unescapeFrom_plain hc
  | case4 d cs ih =>
    rw [← ih, ← unescapeFrom_opened]
    rfl
  | case5 c d cs hc ih => rw [unescapeFrom_plain hc, ih]

end

theorem meaning_quotedText {quote : Char} (h : isQuote quote = true) (d : Char) (cs : List Char) :
    Escape.meaning d (quotedText quote cs).1 = Escape.meaning d cs := by
  rw [Escape.meaning, Escape.meaning, (isPlain_isHexDigit h).takeWhile_quotedText,
    (isPlain_isDigit h).takeWhile_quotedText]

/-- An escape takes only digits from the text after it. -/
theorem meaning_le (d : Char) (cs : List Char) :
    (Escape.meaning d cs).2 ≤ (cs.takeWhile isHexDigit).length := by
  rw [Escape.meaning]
  split_ifs with _ _ _ _ hcolor
  · exact Nat.zero_le _
  · exact Nat.zero_le _
  · exact Nat.zero_le _
  · exact List.length_take_le' 2 _
  · cases cs with
    | nil => simp at hcolor
    | cons e cs =>
      have hdigit : e.isDigit = true := by
        by_contra he
        simp [he] at hcolor
      have hhex : isHexDigit e = true := by simp [isHexDigit, hdigit]
      rw [List.takeWhile_cons_of_pos hhex]
      exact Nat.succ_pos _
  · exact Nat.zero_le _

end TorqueScript.Scan
