import TorqueScript.Value
import TorqueScript.Proofs.Number.LeadingNumerals
import TorqueScript.Proofs.Token.QuotedTexts

/-!
Numerals of source code as texts. The text of a numeral token is one numeral from its first
character to its last, so that its number in a program is the number of the same text as a value.
Only hexadecimal numerals that are out of range have no number in a program.
-/

namespace TorqueScript

open Text Scan Numeral

/-- A decimal point is read with its digits, of which there is at least one. -/
theorem exists_pointLength (cs : List Char) :
    ∃ fraction : Option (List Char), pointText fraction = cs.take (pointLength cs) ∧
      (∀ c ∈ fraction.getD [], c.isDigit = true) ∧
      (pointLength cs ≠ 0 → fraction.getD [] ≠ []) := by
  fun_cases pointLength cs with
  | case1 cs digits h => exact ⟨none, rfl, by simp, by simp⟩
  | case2 cs digits h =>
    refine ⟨some (cs.takeWhile Char.isDigit), ?_, ?_, fun _ => ?_⟩
    · rw [List.take_succ_cons, take_takeWhile]
      rfl
    · exact fun _ => List.mem_takeWhile_imp
    · intro hnil
      exact h (List.length_eq_zero_iff.2 hnil)
  | case3 cs h => exact ⟨none, rfl, by simp, by simp⟩

/-- A complete numeral is a hexadecimal or a decimal one, without sign. -/
theorem exists_numeral {cs : List Char} {n : Nat} (h : numeralLength cs = (n, true))
    (hdigit : startsWith Char.isDigit cs = true ∨
      startsWith (· == '.') cs = true ∧ startsWith Char.isDigit (cs.drop 1) = true) :
    (∃ x : HexNumeral, x.sign = .none ∧ x.text = cs.take n) ∨
      ∃ d : DecimalNumeral, d.sign = .none ∧ d.text = cs.take n := by
  cases hhex : Number.hexDigits? cs with
  | some digits =>
    rw [numeralLength, hhex] at h
    obtain ⟨rfl, hne⟩ := Prod.mk.inj h
    obtain ⟨c, rest, hc, rfl, rfl⟩ := exists_of_hexDigits? hhex
    refine .inl ⟨⟨.none, c, rest.takeWhile isHexDigit, hc, fun _ => List.mem_takeWhile_imp,
      by simpa using hne⟩, rfl, ?_⟩
    rw [Nat.add_comm, List.take_succ_cons, List.take_succ_cons, take_takeWhile]
    rfl
  | none =>
    rw [numeralLength, hhex] at h
    simp only [Prod.mk.injEq] at h
    obtain ⟨rfl, hcomplete⟩ := h
    obtain ⟨fraction, hpoint, hfraction, hsome⟩ :=
      exists_pointLength (cs.drop (cs.takeWhile Char.isDigit).length)
    obtain ⟨exponent, hexponent, -⟩ := exists_exponent
      (cs.drop ((cs.takeWhile Char.isDigit).length +
        pointLength (cs.drop (cs.takeWhile Char.isDigit).length)))
    rw [exponentSpan, if_pos hcomplete] at hexponent
    have hne : cs.takeWhile Char.isDigit ≠ [] ∨ fraction.getD [] ≠ [] := by
      rw [Classical.or_iff_not_imp_left, not_not]
      intro hnil
      apply hsome
      rw [hnil]
      rcases hdigit with hdigit | ⟨hdot, hdigit⟩
      · obtain ⟨d, ds, rfl, hd⟩ := exists_cons_of_startsWith hdigit
        simp [hd] at hnil
      · obtain ⟨d, ds, rfl, hd⟩ := exists_cons_of_startsWith hdot
        obtain rfl : d = '.' := by simpa using hd
        exact Nat.ne_of_gt (pointLength_pos hdigit)
    refine .inr ⟨⟨.none, cs.takeWhile Char.isDigit, fraction, exponent,
      fun _ => List.mem_takeWhile_imp, hfraction, hne⟩, rfl, ?_⟩
    simp only [DecimalNumeral.text, DecimalNumeral.unsigned, Sign.text, List.nil_append]
    rw [hpoint, hexponent, List.take_add, List.take_add, take_takeWhile, List.append_assoc]

theorem exists_numeral_of_lexeme {c : Char} {cs : List Char} {text : String} {n : Nat}
    (h : lexeme c cs = .ok (.numeral text, n)) :
    (∃ x : HexNumeral, x.sign = .none ∧ x.text = text.toList) ∨
      ∃ d : DecimalNumeral, d.sign = .none ∧ d.text = text.toList := by
  cases readsAs_of_lexeme h with
  | numeral hdigit hcomplete =>
    rw [String.toList_ofList]
    refine exists_numeral (Prod.ext rfl hcomplete) ?_
    simpa [startsWith] using hdigit

/-- A hexadecimal numeral has a number in a program if it is in range. -/
theorem HexNumeral.ofLiteral?_text {x : HexNumeral} (hsign : x.sign = .none) :
    Number.ofLiteral? x.text = if 2 ^ 63 ≤ x.value then none else some (Float.ofNat x.value) := by
  have htext : x.text = '0' :: x.mark :: x.digits := by rw [text, hsign]; rfl
  have hlead : x.Leads x.text := ⟨[], (List.append_nil _).symm, rfl⟩
  obtain ⟨body, hsplit, hread⟩ := hlead.leadingHex
  rw [htext] at hsplit
  obtain ⟨-, rfl⟩ := Prod.mk.inj hsplit
  rw [Number.ofLiteral?, htext, hexDigits?_mark x.mark_eq]
  simp only [hread]
  split <;> rfl

theorem HexNumeral.ofText_text {x : HexNumeral} (hsign : x.sign = .none) {y : Float}
    (h : Number.ofLiteral? x.text = some y) : Number.ofText x.text = y := by
  have hlead : x.Leads (trimLeft x.text) := by
    refine ⟨[], ?_, rfl⟩
    rw [text, hsign]
    simp [Sign.text, trimLeft, show isBlank '0' = false by decide]
  rw [ofLiteral?_text hsign] at h
  split at h
  · cases h
  · rename_i hlt
    cases h
    rw [(denotes_iff _ _).1 (.hexadecimal x hlead (Nat.lt_of_not_le hlt)), hsign]
    rfl

/-- A decimal numeral has the number in a program that it has as a text. -/
theorem DecimalNumeral.ofLiteral?_text {d : DecimalNumeral} (hsign : d.sign = .none) :
    Number.ofLiteral? d.text = some d.reading := by
  have htext : d.text = d.unsigned := by rw [text, hsign]; rfl
  rw [htext, Number.ofLiteral?, hexDigits?_unsigned, leadingDecimal_unsigned, reading, hsign]
  rfl

/-- The number of a numeral in a program is the number of its text as a value. Every numeral has
one but the hexadecimal ones from two to the power of 63 on, and it is that of the whole text. -/
theorem numeral_is_number_of_text (source : String) (n : Nat) (text : String) (p : Position)
    (h : .token ⟨.numeral text, p⟩ ∈ (Cursor.ofText source).steps n) :
    (∀ x, Number.ofLiteral? text.toList = some x → (Value.text text).toNumber = x) ∧
    (Number.ofLiteral? text.toList = none ↔
      ∃ x : HexNumeral, x.sign = .none ∧ x.text = text.toList ∧ 2 ^ 63 ≤ x.value) ∧
    ((∃ x : HexNumeral, x.sign = .none ∧ x.text = text.toList ∧
        (x.value < 2 ^ 63 → Number.ofLiteral? text.toList = some (Float.ofNat x.value))) ∨
      ∃ d : DecimalNumeral, d.sign = .none ∧ d.text = text.toList ∧
        Number.ofLiteral? text.toList = some d.reading) := by
  have hstart : (Cursor.ofText source).Follows source.toList := ⟨[], rfl, fun _ => rfl⟩
  obtain ⟨before, c, cs, k, -, -, hlex⟩ := hstart.exists_lexeme_of_mem n h
  have hrejected : (∃ x : HexNumeral, x.sign = .none ∧ x.text = text.toList ∧ 2 ^ 63 ≤ x.value) →
      Number.ofLiteral? text.toList = none := by
    rintro ⟨x, hsign, htext, hle⟩
    rw [← htext, HexNumeral.ofLiteral?_text hsign, if_pos hle]
  rcases exists_numeral_of_lexeme hlex with ⟨x, hsign, htext⟩ | ⟨d, hsign, htext⟩
  · have hread := HexNumeral.ofLiteral?_text hsign
    rw [htext] at hread
    refine ⟨fun y hy => ?_, ⟨fun hnone => ?_, hrejected⟩, .inl ⟨x, hsign, htext, fun hlt => ?_⟩⟩
    · rw [← htext] at hy
      rw [Value.toNumber, ← htext, HexNumeral.ofText_text hsign hy]
    · refine ⟨x, hsign, htext, ?_⟩
      by_contra hlt
      rw [hread, if_neg hlt] at hnone
      cases hnone
    · rw [hread, if_neg (Nat.not_le.2 hlt)]
  · have hread := DecimalNumeral.ofLiteral?_text hsign
    rw [htext] at hread
    refine ⟨fun y hy => ?_, ⟨fun hnone => ?_, hrejected⟩, .inr ⟨d, hsign, htext, hread⟩⟩
    · rw [hread] at hy
      rw [Value.toNumber, ← htext, d.ofText_text, Option.some.inj hy]
    · rw [hread] at hnone
      cases hnone

theorem numeral_is_number_of_text_point :
    let source := String.ofList ['.', '5', '0', 'e', '-', '3', ';']
    let text := String.ofList ['.', '5', '0', 'e', '-', '3']
    .token ⟨.numeral text, .start⟩ ∈ (Cursor.ofText source).steps 1 ∧
      Number.ofLiteral? text.toList = some 0.0005 ∧ (Value.text text).toNumber = 0.0005 := by
  intro source text
  have hrest : (Cursor.ofText source).skipGap.rest = ['.', '5', '0', 'e', '-', '3', ';'] := by
    rw [Cursor.ofText, String.toList_ofList]
    rfl
  have hposition : (Cursor.ofText source).skipGap.position = .start := by
    rw [Cursor.ofText, String.toList_ofList]
    rfl
  have hstep := Cursor.step_token hrest (t := .numeral text) (n := 5) rfl
  have hmem : .token ⟨.numeral text, .start⟩ ∈ (Cursor.ofText source).steps 1 := by
    rw [Cursor.steps, hstep, hposition]
    exact List.mem_cons_self ..
  have hread : Number.ofLiteral? text.toList = some 0.0005 := by
    rw [String.toList_ofList]
    decide +kernel
  exact ⟨hmem, hread, (numeral_is_number_of_text source 1 text .start hmem).1 _ hread⟩

end TorqueScript
