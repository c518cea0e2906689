import Mathlib.Data.List.Basic
import TorqueScript.Proofs.Token.Lexemes
import TorqueScript.Proofs.Number.Sign

/-!
Numerals and quoted texts. The grammar of numerals is that of source texts; printed programs
use the part of it without exponents. Every text can be quoted: a quote, a backslash and a
line end get a backslash, and all else is written as it is.
-/

namespace TorqueScript

open Text Scan

variable {rest : List Char}

/-- How a character stands in a quoted text. -/
def escapeChar (c : Char) : List Char :=
  if c = '\\' then ['\\', '\\']
  else if c = '\x22' then ['\\', '\x22']
  else if c = '\n' then ['\\', 'n']
  else [c]

/-- A text between double quotes, with escapes. -/
def quoted (s : String) : String :=
  "\"" ++ String.ofList (s.toList.flatMap escapeChar) ++ "\""

/-- A character is escaped, and what stands after the backslash means it, or is written as it is. -/
theorem escapeChar_cases (c : Char) :
    (∃ d, escapeChar c = ['\\', d] ∧ Escape.step .opened d = ([c], .plain)) ∨
      (c ≠ '\\' ∧ c ≠ '\x22' ∧ c ≠ '\n') ∧ escapeChar c = [c] := by
  by_cases hslash : c = '\\'
  · exact Or.inl ⟨'\\', by simp [escapeChar, hslash], by simp [Escape.step, hslash]⟩
  by_cases hquote : c = '\x22'
  · exact Or.inl ⟨'\x22', by simp [escapeChar, hquote], by simp [Escape.step, hquote]⟩
  by_cases hline : c = '\n'
  · exact Or.inl ⟨'n', by simp [escapeChar, hline], by simp [Escape.step, hline]⟩
  · exact Or.inr ⟨⟨hslash, hquote, hline⟩, by simp [escapeChar, hslash, hquote, hline]⟩

theorem quotedText_escaped (cs : List Char) :
    quotedText '\x22' (cs.flatMap escapeChar ++ '\x22' :: rest) =
      (cs.flatMap escapeChar, true) := by
  induction cs with
  | nil =>
    rw [List.flatMap_nil, List.nil_append, quotedText.eq_def]
    simp
  | cons c cs ih =>
    rw [List.flatMap_cons, List.append_assoc]
    rcases escapeChar_cases c with ⟨d, hc, -⟩ | ⟨⟨hslash, hquote, hline⟩, hc⟩
    · rw [hc, List.cons_append, List.singleton_append, quotedText.eq_def]
      simp [ih]
    · rw [hc, List.singleton_append, quotedText.eq_def]
      simp [hslash, hquote, hline, ih]

theorem unescape_escaped (cs : List Char) : unescape (cs.flatMap escapeChar) = cs := by
  have hplain : ∀ d, Escape.step .plain d = if d = '\\' then ([], .opened) else ([d], .plain) :=
    fun _ => rfl
  unfold unescape
  induction cs with
  | nil => rfl
  | cons c cs ih =>
    rw [List.flatMap_cons]
    rcases escapeChar_cases c with ⟨d, hc, hd⟩ | ⟨⟨hslash, -, -⟩, hc⟩
    · simp [hc, unescapeFrom, hplain, hd, ih]
    · simp [hc, unescapeFrom, hplain, hslash, ih]

theorem lexes_quoted (s : String) : Lexes (quoted s).toList [.text s] rest := by
  have hquote : "\"".toList = ['\x22'] := by decide
  rw [quoted, String.toList_append, String.toList_append, hquote, String.toList_ofList,
    List.append_assoc, List.singleton_append]
  refine lexes_lexeme (opensToken_of_class (P := (· == '\x22')) (by decide) rfl _) ?_
  have hletter : isLetter '\x22' = false := by decide
  have hdigit : Char.isDigit '\x22' = false := by decide
  simp [lexeme, hletter, hdigit, quotedText_escaped, unescape_escaped]

/-- A text that is written between double quotes as it is. -/
def IsQuotable (s : String) : Prop :=
  ∀ c ∈ s.toList, c ≠ '\x22' ∧ c ≠ '\\' ∧ c ≠ '\n'

theorem quoted_eq {s : String} (h : IsQuotable s) : quoted s = "\"" ++ s ++ "\"" := by
  have hplain : s.toList.flatMap escapeChar = s.toList.flatMap fun c => [c] := by
    refine List.flatMap_congr fun c hc => ?_
    simp [escapeChar, h c hc]
  rw [quoted, hplain, List.flatMap_singleton', String.ofList_toList]

theorem lexes_text {s : String} (h : IsQuotable s) :
    Lexes ("\"" ++ s ++ "\"").toList [.text s] rest := by
  rw [← quoted_eq h]
  exact lexes_quoted s

/-- A decimal point with digits, or nothing. -/
def IsFraction (cs : List Char) : Prop :=
  cs = [] ∨ ∃ digits : List Char, digits ≠ [] ∧ (∀ c ∈ digits, c.isDigit = true) ∧
    cs = '.' :: digits

/-- An exponent with digits, or nothing. -/
def IsExponent (cs : List Char) : Prop :=
  cs = [] ∨ ∃ (e : Char) (sign digits : List Char), (e = 'e' ∨ e = 'E') ∧
    sign ∈ [[], ['+'], ['-']] ∧ digits ≠ [] ∧ (∀ c ∈ digits, c.isDigit = true) ∧
    cs = e :: (sign ++ digits)

/-- The numerals of source texts. -/
inductive IsLiteral : List Char → Prop
  | hexadecimal {x : Char} {digits : List Char} (hx : x = 'x' ∨ x = 'X') (hne : digits ≠ [])
      (hdigits : ∀ c ∈ digits, isHexDigit c = true) : IsLiteral ('0' :: x :: digits)
  | decimal {whole fraction exponent : List Char} (hwhole : ∀ c ∈ whole, c.isDigit = true)
      (hfraction : IsFraction fraction) (hexponent : IsExponent exponent)
      (hne : whole ≠ [] ∨ fraction ≠ []) : IsLiteral (whole ++ (fraction ++ exponent))

/-- `rest` does not go on with a numeral. -/
def NoNumeral (rest : List Char) : Prop :=
  NoName rest ∧ ∀ cs, rest = '.' :: cs → startsWith Char.isDigit cs = false

theorem noDigit_of_noName {rest : List Char} (h : NoName rest) :
    startsWith Char.isDigit rest = false := by
  cases rest with
  | nil => rfl
  | cons c cs =>
    have hc : isNameChar c = false := h
    simp only [isNameChar, Bool.or_eq_false_iff] at hc
    exact hc.2

theorem isNameChar_of_isDigit {c : Char} (h : c.isDigit = true) : isNameChar c = true := by
  simp [Text.isNameChar, h]

theorem isNameChar_of_isHexDigit {c : Char} (h : isHexDigit c = true) : isNameChar c = true := by
  simp only [isHexDigit, Bool.or_eq_true, Bool.and_eq_true, decide_eq_true_eq] at h
  rcases h with (h | h) | h
  · exact isNameChar_of_isDigit h
  · have hlower : c.isLower = true :=
      (Bool.and_eq_true _ _).mpr
        ⟨decide_eq_true h.1, decide_eq_true (Char.le_trans h.2 (by decide))⟩
    have halpha : c.isAlpha = true := (Bool.or_eq_true _ _).mpr (Or.inr hlower)
    simp [Text.isNameChar, isLetter, halpha]
  · have hupper : c.isUpper = true := decide_eq_true ⟨h.1, Char.le_trans h.2 (by decide)⟩
    have halpha : c.isAlpha = true := (Bool.or_eq_true _ _).mpr (Or.inl hupper)
    simp [Text.isNameChar, isLetter, halpha]

theorem pointLength_eq_zero {rest : List Char}
    (hrest : ∀ cs, rest = '.' :: cs → startsWith Char.isDigit cs = false) :
    pointLength rest = 0 := by
  unfold pointLength
  split
  · rename_i cs
    have hcs : ([] ++ cs).takeWhile Char.isDigit = [] := takeWhile_append (by simp) (hrest cs rfl)
    rw [List.nil_append] at hcs
    simp [hcs]
  · rfl

theorem exponentLength_eq {rest : List Char} (hrest : NoName rest) :
    exponentLength rest = (0, true) := by
  cases rest with
  | nil => rfl
  | cons c cs =>
    have hc : isNameChar c = false := hrest
    have he : isNameChar 'e' = true ∧ isNameChar 'E' = true := by decide
    have hne : c ≠ 'e' ∧ c ≠ 'E' := by grind
    simp [exponentLength, hne]

namespace IsExponent

variable {cs : List Char} (h : IsExponent cs)

include h

/-- An exponent, and what comes after it, begins with a letter or not like a name. -/
theorem head (hrest : NoName rest) {P : Char → Bool} (hP : P 'e' = false ∧ P 'E' = false)
    (hname : ∀ c, P c = true → isNameChar c = true) : startsWith P (cs ++ rest) = false := by
  rcases h with rfl | ⟨e, sign, digits, he, -, -, -, rfl⟩
  · exact startsWith_mono hname hrest
  · rcases he with rfl | rfl
    · exact hP.1
    · exact hP.2

theorem exponentLength (hrest : NoName rest) :
    exponentLength (cs ++ rest) = (cs.length, true) := by
  rcases h with rfl | ⟨e, sign, digits, he, hsign, hne, hdigits, rfl⟩
  · exact exponentLength_eq hrest
  · have hmark : (e == 'e' || e == 'E') = true := by
      rcases he with rfl | rfl <;> rfl
    have hplain : startsWith (fun s => s == '+' || s == '-') (digits ++ rest) = false := by
      cases digits with
      | nil => exact absurd rfl hne
      | cons d ds =>
        have hd : d.isDigit = true := hdigits d (List.mem_cons_self ..)
        have hsigns : d ≠ '+' ∧ d ≠ '-' := by
          constructor <;> rintro rfl <;> exact absurd hd (by decide)
        simp [startsWith, hsigns]
    have hread := takeWhile_append hdigits (noDigit_of_noName hrest)
    have hlength : (digits.length != 0) = true := by simp [hne]
    rw [List.cons_append, List.append_assoc, Scan.exponentLength, if_pos hmark]
    simp only [List.mem_cons, List.not_mem_nil, or_false] at hsign
    rcases hsign with rfl | rfl | rfl
    · simp [hplain, hread, hlength, Nat.add_comm]
    · simp [startsWith, hread, hlength, Nat.add_comm, Nat.add_left_comm]
    · simp [startsWith, hread, hlength, Nat.add_comm, Nat.add_left_comm]

theorem pointLength (hrest : NoNumeral rest) : Scan.pointLength (cs ++ rest) = 0 := by
  rcases h with rfl | ⟨e, sign, digits, he, -, -, -, rfl⟩
  · exact pointLength_eq_zero hrest.2
  · rcases he with rfl | rfl <;> rfl

end IsExponent

theorem IsFraction.pointLength {cs exponent : List Char} (h : IsFraction cs)
    (hexponent : IsExponent exponent) (hrest : NoNumeral rest) :
    Scan.pointLength (cs ++ (exponent ++ rest)) = cs.length := by
  rcases h with rfl | ⟨digits, hne, hdigits, rfl⟩
  · exact hexponent.pointLength hrest
  · have htail : startsWith Char.isDigit (exponent ++ rest) = false :=
      hexponent.head hrest.1 (by decide) fun _ => isNameChar_of_isDigit
    simp [Scan.pointLength, takeWhile_append hdigits htail, hne]

/-- Digits are not the beginning of a hexadecimal numeral if no digit and no `x` follows them. -/
theorem hexDigits?_digits {whole tail : List Char} (hwhole : ∀ c ∈ whole, c.isDigit = true)
    (htail : startsWith (fun c => c.isDigit || c == 'x' || c == 'X') tail = false) :
    Number.hexDigits? (whole ++ tail) = none := by
  have hhead : ∀ cs, (∀ c ∈ cs, c.isDigit = true) → ∀ x xs, cs ++ tail = x :: xs →
      x ≠ 'x' ∧ x ≠ 'X' := by
    intro cs hcs x xs heq
    cases cs with
    | nil =>
      rw [List.nil_append] at heq
      simp only [heq, startsWith, Bool.or_eq_false_iff, beq_eq_false_iff_ne] at htail
      exact ⟨htail.1.2, htail.2⟩
    | cons c cs =>
      obtain ⟨rfl, -⟩ := List.cons.inj heq
      have hc := hcs c (List.mem_cons_self ..)
      constructor <;> rintro rfl <;> exact absurd hc (by decide)
  unfold Number.hexDigits?
  split
  · rename_i c cs heq
    cases whole with
    | nil =>
      rw [List.nil_append] at heq
      rw [heq] at htail
      cases htail
    | cons w ws =>
      obtain ⟨hx, hX⟩ := hhead ws (fun d hd => hwhole d (List.mem_cons_of_mem _ hd)) c cs
        (List.cons.inj heq).2
      simp [hx, hX]
  · rfl

theorem numeralLength_literal {cs : List Char} (h : IsLiteral cs) (hrest : NoNumeral rest) :
    numeralLength (cs ++ rest) = (cs.length, true) := by
  cases h with
  | @hexadecimal x digits hx hne hdigits =>
    have hmark : (x == 'x' || x == 'X') = true := by
      rcases hx with rfl | rfl <;> rfl
    have hread : (digits ++ rest).takeWhile isHexDigit = digits :=
      takeWhile_append hdigits (startsWith_mono (fun _ => isNameChar_of_isHexDigit) hrest.1)
    simp only [numeralLength, Number.hexDigits?, List.cons_append, hmark, if_true, hread]
    simp +arith [hne]
  | @decimal whole fraction exponent hwhole hfraction hexponent hne =>
    have htail : startsWith (fun c => c.isDigit || c == 'x' || c == 'X')
        (fraction ++ (exponent ++ rest)) = false := by
      refine startsWith_append ?_ (hexponent.head hrest.1 (by decide) fun c hc => ?_)
      · rcases hfraction with rfl | ⟨digits, -, -, rfl⟩ <;> rfl
      · simp only [Bool.or_eq_true, beq_iff_eq] at hc
        rcases hc with (hc | rfl) | rfl
        · exact isNameChar_of_isDigit hc
        · decide
        · decide
    have hdigit : startsWith Char.isDigit (fraction ++ (exponent ++ rest)) = false :=
      startsWith_mono (by simp +contextual) htail
    rw [List.append_assoc, List.append_assoc, numeralLength, hexDigits?_digits hwhole htail,
      takeWhile_append hwhole hdigit]
    simp only [List.drop_left, hfraction.pointLength hexponent hrest]
    have hdrop : (whole ++ (fraction ++ (exponent ++ rest))).drop (whole.length + fraction.length) =
        exponent ++ rest := by
      rw [← List.append_assoc, ← List.length_append, List.drop_left]
    rw [hdrop, hexponent.exponentLength hrest.1]
    simp [Nat.add_assoc]

/-- A numeral begins with a digit, or with a point and a digit. -/
theorem IsLiteral.head {cs : List Char} (h : IsLiteral cs) :
    ∃ c ds, cs = c :: ds ∧ (c.isDigit = true ∨ c = '.' ∧ startsWith Char.isDigit ds = true) := by
  cases h with
  | @hexadecimal x digits hx hne hdigits => exact ⟨'0', x :: digits, rfl, Or.inl (by decide)⟩
  | @decimal whole fraction exponent hwhole hfraction hexponent hne =>
    cases whole with
    | cons c ds => exact ⟨c, _, rfl, Or.inl (hwhole c (List.mem_cons_self ..))⟩
    | nil =>
      rcases hfraction with rfl | ⟨digits, hne', hdigits, rfl⟩
      · simp at hne
      · refine ⟨'.', digits ++ exponent, rfl, Or.inr ⟨rfl, ?_⟩⟩
        cases digits with
        | nil => exact absurd rfl hne'
        | cons d ds => exact hdigits d (List.mem_cons_self ..)

theorem lexes_literal {text : String} (h : IsLiteral text.toList) (hrest : NoNumeral rest) :
    Lexes text.toList [.numeral text] rest := by
  have hlength := numeralLength_literal h hrest
  obtain ⟨c, cs, htext, hc⟩ := h.head
  have hofList : String.ofList (c :: cs) = text := by rw [← htext, String.ofList_toList]
  have hname : startsWith isNameChar rest = false := hrest.1
  have hletter : isLetter c = false := by
    rcases hc with hc | ⟨rfl, -⟩
    · exact isLetter_of_isDigit hc
    · decide
  have hopen : (c.isDigit || c == '.' && startsWith Char.isDigit (cs ++ rest)) = true := by
    rcases hc with hc | ⟨rfl, hcs⟩
    · simp [hc]
    · cases cs with
      | nil => cases hcs
      | cons d ds => simpa [startsWith] using hcs
  rw [htext] at hlength ⊢
  rw [List.cons_append] at hlength
  refine lexes_lexeme
    (opensToken_of_class (P := fun c => c.isDigit || c == '.') (by decide) ?_ _) ?_
  · rcases hc with hc | ⟨rfl, -⟩
    · simp [hc]
    · rfl
  · simp [lexeme, hletter, hopen, hlength, hname]
    simpa using hofList

/-- Digits, or digits with a decimal point between them. -/
def IsNumeral (cs : List Char) : Prop :=
  ∃ whole : List Char, whole ≠ [] ∧ (∀ c ∈ whole, c.isDigit = true) ∧
    (cs = whole ∨ ∃ fraction : List Char, fraction ≠ [] ∧ (∀ c ∈ fraction, c.isDigit = true) ∧
      cs = whole ++ '.' :: fraction)

theorem IsNumeral.exists_digit {text : List Char} (h : IsNumeral text) :
    ∃ c cs, text = c :: cs ∧ c.isDigit = true := by
  obtain ⟨whole, hne, hwhole, htext⟩ := h
  cases whole with
  | nil => exact absurd rfl hne
  | cons c cs =>
    refine ⟨c, ?_⟩
    rcases htext with htext | ⟨fraction, -, -, htext⟩
    · exact ⟨cs, htext, hwhole c (by simp)⟩
    · exact ⟨cs ++ '.' :: fraction, htext, hwhole c (by simp)⟩

theorem IsNumeral.isLiteral {cs : List Char} (h : IsNumeral cs) : IsLiteral cs := by
  obtain ⟨whole, hne, hwhole, rfl | ⟨fraction, hne', hfraction, rfl⟩⟩ := h
  · have hliteral := IsLiteral.decimal hwhole (Or.inl rfl) (Or.inl rfl) (Or.inl hne)
    simpa using hliteral
  · have hliteral := IsLiteral.decimal hwhole (Or.inr ⟨fraction, hne', hfraction, rfl⟩) (Or.inl rfl)
      (Or.inl hne)
    simpa using hliteral

theorem lexes_numeral {text : String} (h : IsNumeral text.toList) (hrest : NoNumeral rest) :
    Lexes text.toList [.numeral text] rest :=
  lexes_literal h.isLiteral hrest

theorem isDigit_toDigits (n : Nat) : ∀ c ∈ Nat.toDigits 10 n, c.isDigit = true :=
  fun _ => Nat.isDigit_of_mem_toDigits (by decide) (by decide)

/-- A decimal that is written out is a numeral. -/
theorem isNumeral_positional (digits : Nat) (exponent : Int) :
    IsNumeral (Number.positional digits exponent) := by
  have hdigits := isDigit_toDigits digits
  have hzero : ∀ n, ∀ c ∈ List.replicate n '0', c.isDigit = true := by
    intro n c hc
    rw [List.eq_of_mem_replicate hc]
    decide
  unfold Number.positional
  simp only
  split
  · refine ⟨_, ?_, ?_, .inl rfl⟩
    · simp [Nat.toDigits_ne_nil]
    · exact List.forall_mem_append.2 ⟨hdigits, hzero _⟩
  · rename_i hneg
    generalize hpadded :
      List.replicate (exponent.natAbs + 1 - (Nat.toDigits 10 digits).length) '0' ++
        Nat.toDigits 10 digits = padded
    have hall : ∀ c ∈ padded, c.isDigit = true := by
      rw [← hpadded]
      exact List.forall_mem_append.2 ⟨hzero _, hdigits⟩
    have hlength : exponent.natAbs + 1 ≤ padded.length := by
      rw [← hpadded, List.length_append, List.length_replicate]
      omega
    refine ⟨padded.take (padded.length - exponent.natAbs), ?_, ?_, .inr
      ⟨padded.drop (padded.length - exponent.natAbs), ?_, ?_, rfl⟩⟩
    · rw [Ne, List.take_eq_nil_iff]
      rintro (h | h)
      · omega
      · simp [h] at hlength
    · exact fun c hc => hall c (List.mem_of_mem_take hc)
    · rw [Ne, List.drop_eq_nil_iff]
      omega
    · exact fun c hc => hall c (List.mem_of_mem_drop hc)

/-- The numeral of a finite number without sign is a plain decimal. -/
theorem isNumeral_toNumeral {x : Float} (hfinite : Number.isFinite x = true)
    (hsign : Number.Unsigned x) : IsNumeral (Number.toNumeral x).toList := by
  unfold Number.isFinite at hfinite
  unfold Number.toNumeral
  cases hx : Binary.ofFloat x with
  | nan => simp [hx] at hfinite
  | infinite negative => simp [hx] at hfinite
  | finite negative m e =>
    obtain rfl := hsign.ofFloat_eq hx
    simp only [Number.withSign, String.toList_ofList, Bool.false_eq_true, if_false,
      Number.shortestText]
    split
    · exact ⟨['0'], by simp, by simp, .inl rfl⟩
    · exact isNumeral_positional _ _

end TorqueScript
