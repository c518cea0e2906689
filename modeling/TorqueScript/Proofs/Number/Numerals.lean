import TorqueScript.Proofs.Number.Whole
import TorqueScript.Proofs.Token.Literals
import TorqueScript.Proofs.Token.Layout
import TorqueScript.Proofs.Token.Escapes
import TorqueScript.Proofs.Token.ByteCursor

/-!
The numerals that texts begin with. A numeral is given by its parts: a sign, and hexadecimal
digits after `0x`, or digits with a decimal point and an exponent. The number of a text is
that of the hexadecimal numeral it begins with, with all the digits that follow, if that is in
range, and else that of the longest decimal numeral it begins with.
-/

namespace TorqueScript

open Text Scan

open ByteCursor (isSign)

namespace Numeral

inductive Sign where
  | none
  | plus
  | minus

namespace Sign

def text : Sign → List Char
  | none => []
  | plus => ['+']
  | minus => ['-']

def negative : Sign → Bool
  | minus => true
  | _ => false

end Sign

structure Exponent where
  mark : Char
  sign : Sign
  digits : List Char
  mark_eq : mark = 'e' ∨ mark = 'E'
  isDigit : ∀ c ∈ digits, c.isDigit = true
  nonempty : digits ≠ []

namespace Exponent

/-- An exponent that may be left out, written down. -/
def text : Option Exponent → List Char
  | none => []
  | some e => e.mark :: (e.sign.text ++ e.digits)

def value : Option Exponent → Int
  | none => 0
  | some e =>
    let n : Int := decimalValue e.digits
    if e.sign.negative then -n else n

end Exponent

/-- A decimal point with the digits after it, which may be left out together. -/
def pointText : Option (List Char) → List Char
  | none => []
  | some digits => '.' :: digits

end Numeral

open Numeral

/-- A decimal numeral: digits before a decimal point, after it, or on both sides. -/
structure DecimalNumeral where
  sign : Sign
  whole : List Char
  fraction : Option (List Char)
  exponent : Option Exponent
  isDigit_whole : ∀ c ∈ whole, c.isDigit = true
  isDigit_fraction : ∀ c ∈ fraction.getD [], c.isDigit = true
  nonempty : whole ≠ [] ∨ fraction.getD [] ≠ []

namespace DecimalNumeral

/-- What is written after the sign. -/
def unsigned (d : DecimalNumeral) : List Char :=
  d.whole ++ (pointText d.fraction ++ Exponent.text d.exponent)

def text (d : DecimalNumeral) : List Char :=
  d.sign.text ++ d.unsigned

def value (d : DecimalNumeral) : Number.Decimal where
  digits := decimalValue (d.whole ++ d.fraction.getD [])
  exponent := Exponent.value d.exponent - (d.fraction.getD []).length

/-- The double that the numeral stands for. -/
def reading (d : DecimalNumeral) : Float :=
  Number.signed d.sign.negative d.value.toFloat

end DecimalNumeral

/-- A hexadecimal numeral: `0x` and at least one digit. -/
structure HexNumeral where
  sign : Sign
  mark : Char
  digits : List Char
  mark_eq : mark = 'x' ∨ mark = 'X'
  isHexDigit : ∀ c ∈ digits, isHexDigit c = true
  nonempty : digits ≠ []

namespace HexNumeral

def text (h : HexNumeral) : List Char :=
  h.sign.text ++ '0' :: h.mark :: h.digits

def value (h : HexNumeral) : Nat :=
  hexadecimalValue h.digits

/-- The text begins with the numeral, and the digits of the numeral end where they end there. -/
def Leads (h : HexNumeral) (cs : List Char) : Prop :=
  ∃ rest, cs = h.text ++ rest ∧ startsWith Text.isHexDigit rest = false

end HexNumeral

/-- How many characters a sign takes. -/
def signSpan (cs : List Char) : Nat :=
  if startsWith isSign cs then 1 else 0

theorem exists_sign (cs : List Char) :
    ∃ sign : Sign, sign.text = cs.take (signSpan cs) ∧
      Number.splitSign cs = (sign.negative, cs.drop (signSpan cs)) := by
  fun_cases Number.splitSign cs with
  | case1 cs => exact ⟨.minus, rfl, rfl⟩
  | case2 cs => exact ⟨.plus, rfl, rfl⟩
  | case3 cs hminus hplus =>
    have hspan : signSpan cs = 0 := by
      cases cs with
      | nil => rfl
      | cons c cs =>
        have hc : c ≠ '+' ∧ c ≠ '-' := by
          constructor <;> rintro rfl
          · exact hplus cs rfl
          · exact hminus cs rfl
        simp [signSpan, startsWith, isSign, hc]
    exact ⟨.none, by simp [hspan, Sign.text], by simp [hspan, Sign.negative]⟩

/-- A sign is split off where no other sign follows it. -/
theorem splitSign_text (sign : Sign) {rest : List Char}
    (hrest : startsWith isSign rest = false) :
    Number.splitSign (sign.text ++ rest) = (sign.negative, rest) := by
  cases sign with
  | none =>
    have hspan : signSpan rest = 0 := if_neg (by simp [hrest])
    obtain ⟨sign, htext, hsplit⟩ := exists_sign rest
    rw [hspan] at htext hsplit
    cases sign with
    | none => exact hsplit
    | plus => cases htext
    | minus => cases htext
  | plus => rfl
  | minus => rfl

/-- Digits that a text begins with are among all the digits that it begins with. -/
theorem length_le_takeWhile {P : Char → Bool} {ds cs : List Char} (hds : ∀ c ∈ ds, P c = true)
    (h : ds <+: cs) : ds.length ≤ (cs.takeWhile P).length := by
  obtain ⟨rest, rfl⟩ := h
  rw [List.takeWhile_append_of_pos hds, List.length_append]
  exact Nat.le_add_right _ _

theorem takeWhile_ne_nil {P : Char → Bool} {ds cs : List Char} (hds : ∀ c ∈ ds, P c = true)
    (hne : ds ≠ []) (h : ds <+: cs) : cs.takeWhile P ≠ [] := by
  have hpos : 0 < ds.length := List.length_pos_iff.2 hne
  have hle := length_le_takeWhile hds h
  rw [← List.length_pos_iff]
  omega

theorem drop_takeWhile (P : Char → Bool) (cs : List Char) :
    cs.drop (cs.takeWhile P).length = cs.dropWhile P :=
  calc cs.drop (cs.takeWhile P).length
      = (cs.takeWhile P ++ cs.dropWhile P).drop (cs.takeWhile P).length := by
        rw [List.takeWhile_append_dropWhile]
    _ = cs.dropWhile P := List.drop_left

/-- How many characters an exponent takes. Without digits it is none. -/
def exponentSpan (cs : List Char) : Nat :=
  if (exponentLength cs).2 then (exponentLength cs).1 else 0

theorem exponentLength_mark {c : Char} (hc : c = 'e' ∨ c = 'E') (cs : List Char) :
    exponentLength (c :: cs) =
      (1 + signSpan cs + ((cs.drop (signSpan cs)).takeWhile Char.isDigit).length,
        ((cs.drop (signSpan cs)).takeWhile Char.isDigit).length != 0) := by
  have hmark : (c == 'e' || c == 'E') = true := by simpa using hc
  rw [exponentLength, if_pos hmark]
  rfl

theorem exists_exponent (cs : List Char) :
    ∃ e : Option Exponent, Exponent.text e = cs.take (exponentSpan cs) ∧
      Exponent.value e = Number.leadingExponent cs := by
  cases cs with
  | nil => exact ⟨none, rfl, rfl⟩
  | cons c cs =>
    by_cases hc : c = 'e' ∨ c = 'E'
    · have hmark : (c == 'e' || c == 'E') = true := by simpa using hc
      obtain ⟨sign, hsign, hsplit⟩ := exists_sign cs
      have hvalue : Number.leadingExponent (c :: cs) =
          let n : Int := decimalValue ((cs.drop (signSpan cs)).takeWhile Char.isDigit)
          if sign.negative then -n else n := by
        rw [Number.leadingExponent, if_pos hmark, hsplit]
      by_cases hdigits : (cs.drop (signSpan cs)).takeWhile Char.isDigit = []
      · refine ⟨none, ?_, ?_⟩
        · simp [exponentSpan, exponentLength_mark hc, hdigits, Exponent.text]
        · rw [hvalue, hdigits]
          cases sign.negative <;> rfl
      · refine ⟨some ⟨c, sign, _, hc, fun _ => List.mem_takeWhile_imp, hdigits⟩, ?_, hvalue.symm⟩
        have hspan : exponentSpan (c :: cs) =
            signSpan cs + ((cs.drop (signSpan cs)).takeWhile Char.isDigit).length + 1 := by
          simp [exponentSpan, exponentLength_mark hc, hdigits]
          omega
        rw [hspan, List.take_succ_cons, List.take_add, take_takeWhile, ← hsign]
        rfl
    · have hmark : (c == 'e' || c == 'E') = false := by simpa using hc
      refine ⟨none, ?_, ?_⟩
      · simp [exponentSpan, exponentLength, hmark, Exponent.text]
      · simp [Number.leadingExponent, hmark, Exponent.value]

theorem signSpan_text (sign : Sign) {rest : List Char}
    (hrest : startsWith isSign rest = false) :
    signSpan (sign.text ++ rest) = sign.text.length := by
  cases sign with
  | none => exact if_neg (by simpa [Sign.text] using hrest)
  | plus => rfl
  | minus => rfl

theorem startsWith_digits {P : Char → Bool} (hP : ∀ c, c.isDigit = true → P c = false)
    {ds : List Char} (hds : ∀ c ∈ ds, c.isDigit = true) (hne : ds ≠ []) (rest : List Char) :
    startsWith P (ds ++ rest) = false := by
  cases ds with
  | nil => exact absurd rfl hne
  | cons d ds => exact hP d (hds d (List.mem_cons_self ..))

theorem not_isSign_of_isDigit {c : Char} (h : c.isDigit = true) : isSign c = false := by
  have hne : c ≠ '+' ∧ c ≠ '-' := by
    constructor <;> rintro rfl <;> exact absurd h (by decide)
  simp [isSign, hne]

/-- No exponent that a text begins with is longer than the one that is read. -/
theorem Exponent.length_text_le {e : Option Exponent} {cs : List Char}
    (h : Exponent.text e <+: cs) : (Exponent.text e).length ≤ exponentSpan cs := by
  cases e with
  | none => exact Nat.zero_le _
  | some e =>
    obtain ⟨rest, rfl⟩ := h
    have hsign : startsWith isSign (e.digits ++ rest) = false :=
      startsWith_digits (fun _ => not_isSign_of_isDigit) e.isDigit e.nonempty rest
    have hdrop : (e.sign.text ++ (e.digits ++ rest)).drop
        (signSpan (e.sign.text ++ (e.digits ++ rest))) = e.digits ++ rest := by
      rw [signSpan_text _ hsign, List.drop_left]
    have hdigits := length_le_takeWhile e.isDigit (List.prefix_append e.digits rest)
    have hfound : ((e.digits ++ rest).takeWhile Char.isDigit).length != 0 := by
      simpa using takeWhile_ne_nil e.isDigit e.nonempty (List.prefix_append e.digits rest)
    have htext : Exponent.text (some e) ++ rest =
        e.mark :: (e.sign.text ++ (e.digits ++ rest)) := by
      simp [Exponent.text]
    rw [htext, exponentSpan, exponentLength_mark e.mark_eq, hdrop, signSpan_text _ hsign,
      if_pos hfound]
    simp only [Exponent.text, List.length_cons, List.length_append]
    omega

/-- How many characters a decimal point takes with its digits, of which there may be none. -/
def pointSpan (cs : List Char) : Nat :=
  if startsWith (· == '.') cs then 1 + ((cs.drop 1).takeWhile Char.isDigit).length else 0

theorem exists_point (cs : List Char) :
    ∃ fraction : Option (List Char), pointText fraction = cs.take (pointSpan cs) ∧
      (∀ c ∈ fraction.getD [], c.isDigit = true) ∧
      Number.splitFraction cs = (fraction.getD [], cs.drop (pointSpan cs)) := by
  fun_cases Number.splitFraction cs with
  | case1 cs =>
    have hspan : pointSpan ('.' :: cs) = (cs.takeWhile Char.isDigit).length + 1 :=
      Nat.add_comm _ _
    refine ⟨some (cs.takeWhile Char.isDigit), ?_, ?_, ?_⟩
    · rw [hspan, List.take_succ_cons, take_takeWhile]
      rfl
    · exact fun _ => List.mem_takeWhile_imp
    · rw [hspan, List.drop_succ_cons, drop_takeWhile]
      rfl
  | case2 cs hcs =>
    have hspan : pointSpan cs = 0 := by
      cases cs with
      | nil => rfl
      | cons c cs =>
        have hc : c ≠ '.' := by
          rintro rfl
          exact hcs cs rfl
        simp [pointSpan, startsWith, hc]
    exact ⟨none, by simp [hspan, pointText], by simp, by simp [hspan]⟩

/-- How many characters a decimal takes that has no sign. -/
def decimalSpan (cs : List Char) : Nat :=
  let whole := (cs.takeWhile Char.isDigit).length
  let point := pointSpan (cs.drop whole)
  whole + (point + exponentSpan ((cs.drop whole).drop point))

theorem leadingDecimal_eq {cs fraction : List Char} {n : Nat}
    (h : Number.splitFraction (cs.drop (cs.takeWhile Char.isDigit).length) =
      (fraction, (cs.drop (cs.takeWhile Char.isDigit).length).drop n)) :
    Number.leadingDecimal cs =
      if cs.takeWhile Char.isDigit = [] ∧ fraction = [] then none
      else some
        { digits := decimalValue (cs.takeWhile Char.isDigit ++ fraction)
          exponent := Number.leadingExponent
            ((cs.drop (cs.takeWhile Char.isDigit).length).drop n) - fraction.length } := by
  rw [drop_takeWhile] at h ⊢
  rw [Number.leadingDecimal, h]
  simp only [Bool.and_eq_true, List.isEmpty_iff]

/-- The decimal that is read is a numeral at the beginning of the text. -/
theorem exists_decimal (sign : Sign) {cs : List Char} {v : Number.Decimal}
    (h : Number.leadingDecimal cs = some v) :
    ∃ d : DecimalNumeral, d.sign = sign ∧ d.unsigned = cs.take (decimalSpan cs) ∧ d.value = v := by
  obtain ⟨fraction, hpoint, hdigits, hsplit⟩ :=
    exists_point (cs.drop (cs.takeWhile Char.isDigit).length)
  obtain ⟨exponent, hexponent, hvalue⟩ := exists_exponent
    ((cs.drop (cs.takeWhile Char.isDigit).length).drop
      (pointSpan (cs.drop (cs.takeWhile Char.isDigit).length)))
  rw [leadingDecimal_eq hsplit] at h
  split at h
  · cases h
  · rename_i hne
    cases h
    refine ⟨⟨sign, cs.takeWhile Char.isDigit, fraction, exponent,
      fun _ => List.mem_takeWhile_imp, hdigits,
      Decidable.not_and_iff_not_or_not.1 hne⟩, rfl, ?_, ?_⟩
    · simp only [DecimalNumeral.unsigned, decimalSpan]
      rw [List.take_add, take_takeWhile, List.take_add, hpoint, hexponent]
    · rw [DecimalNumeral.value, hvalue]

theorem Exponent.startsWith_text {P : Char → Bool} (hP : P 'e' = false ∧ P 'E' = false)
    (e : Option Exponent) : startsWith P (Exponent.text e) = false := by
  cases e with
  | none => rfl
  | some e =>
    rcases e.mark_eq with h | h
    · simpa [Exponent.text, startsWith, h] using hP.1
    · simpa [Exponent.text, startsWith, h] using hP.2

/-- Digits and what follows them are no longer than all the digits there are and the longest that
can follow those. -/
theorem length_le_digits_add (next : List Char → Nat) {ds after cs : List Char}
    (hds : ∀ c ∈ ds, c.isDigit = true) (hafter : startsWith Char.isDigit after = false)
    (hnext : ∀ cs, after <+: cs → after.length ≤ next cs) (h : ds ++ after <+: cs) :
    (ds ++ after).length ≤ (cs.takeWhile Char.isDigit).length +
      next (cs.drop (cs.takeWhile Char.isDigit).length) := by
  obtain ⟨rest, rfl⟩ := h
  rw [List.append_assoc, List.length_append]
  cases hcases : after with
  | nil =>
    have hdigits := length_le_takeWhile hds (List.prefix_append ds ([] ++ rest))
    exact Nat.le_add_right_of_le hdigits
  | cons c after' =>
    have hstop : startsWith Char.isDigit (after ++ rest) = false := by
      rw [hcases] at hafter ⊢
      exact hafter
    have hall : (ds ++ (after ++ rest)).takeWhile Char.isDigit = ds := takeWhile_append hds hstop
    rw [← hcases, hall, List.drop_left]
    exact Nat.add_le_add_left (hnext _ (List.prefix_append after rest)) _

theorem length_point_le {fraction : Option (List Char)} {e : Option Exponent} {cs : List Char}
    (hdigits : ∀ c ∈ fraction.getD [], c.isDigit = true)
    (h : pointText fraction ++ Exponent.text e <+: cs) :
    (pointText fraction ++ Exponent.text e).length ≤
      pointSpan cs + exponentSpan (cs.drop (pointSpan cs)) := by
  cases fraction with
  | none =>
    rw [pointText, List.nil_append] at h ⊢
    cases e with
    | none => exact Nat.zero_le _
    | some e =>
      -- an exponent does not begin with a point, so nothing is read before it
      have hspan : pointSpan cs = 0 := by
        have hpoint := Exponent.startsWith_text (P := (· == '.')) ⟨rfl, rfl⟩ (some e)
        obtain ⟨rest, rfl⟩ := h
        exact if_neg (by simpa [Exponent.text, startsWith] using hpoint)
      rw [hspan, List.drop_zero, Nat.zero_add]
      exact Exponent.length_text_le h
  | some ds =>
    cases cs with
    | nil => simp [pointText] at h
    | cons c cs =>
      obtain ⟨rfl, hrest⟩ := List.cons_prefix_cons.1 h
      have hle := length_le_digits_add exponentSpan hdigits (Exponent.startsWith_text ⟨rfl, rfl⟩ e)
        (fun _ => Exponent.length_text_le) hrest
      have hspan : pointSpan ('.' :: cs) = (cs.takeWhile Char.isDigit).length + 1 :=
        Nat.add_comm _ _
      rw [hspan, List.drop_succ_cons, pointText, List.cons_append, List.length_cons]
      exact Nat.le_trans (Nat.succ_le_succ hle) (by omega)

namespace DecimalNumeral

/-- What follows the digits of the whole begins with a point or as an exponent does. -/
theorem startsWith_point (d : DecimalNumeral) {P : Char → Bool}
    (hP : P '.' = false ∧ P 'e' = false ∧ P 'E' = false) :
    startsWith P (pointText d.fraction ++ Exponent.text d.exponent) = false := by
  cases d.fraction with
  | none => exact Exponent.startsWith_text hP.2 d.exponent
  | some ds => exact hP.1

variable {d : DecimalNumeral} {cs : List Char}

/-- No numeral that a text begins with is longer than the one that is read. -/
theorem length_unsigned_le (h : d.unsigned <+: cs) : d.unsigned.length ≤ decimalSpan cs :=
  length_le_digits_add (fun cs => pointSpan cs + exponentSpan (cs.drop (pointSpan cs)))
    d.isDigit_whole (d.startsWith_point ⟨rfl, rfl, rfl⟩)
    (fun _ => length_point_le d.isDigit_fraction) h

/-- Where a numeral stands a decimal is read. -/
theorem leadingDecimal_ne_none (h : d.unsigned <+: cs) : Number.leadingDecimal cs ≠ none := by
  by_cases hwhole : d.whole = []
  · cases hfraction : d.fraction with
    | none => simpa [hwhole, hfraction] using d.nonempty
    | some ds =>
      have hne : ds ≠ [] := by simpa [hwhole, hfraction] using d.nonempty
      have hds : ∀ c ∈ ds, c.isDigit = true := by simpa [hfraction] using d.isDigit_fraction
      obtain ⟨rest, rfl⟩ := h
      have htext : d.unsigned ++ rest = '.' :: (ds ++ (Exponent.text d.exponent ++ rest)) := by
        simp [unsigned, hwhole, hfraction, pointText]
      have hpoint : Char.isDigit '.' = false := by decide
      have hsome : (ds ++ (Exponent.text d.exponent ++ rest)).takeWhile Char.isDigit ≠ [] :=
        takeWhile_ne_nil hds hne (List.prefix_append _ _)
      simp [htext, Number.leadingDecimal, Number.splitFraction, hpoint, hsome]
  · have hsome : cs.takeWhile Char.isDigit ≠ [] :=
      takeWhile_ne_nil d.isDigit_whole hwhole ((List.prefix_append _ _).trans h)
    simp [Number.leadingDecimal, hsome]

end DecimalNumeral

theorem Exponent.leadingExponent_text (e : Option Exponent) :
    Number.leadingExponent (Exponent.text e) = Exponent.value e := by
  cases e with
  | none => rfl
  | some e =>
    have hmark : (e.mark == 'e' || e.mark == 'E') = true := by simpa using e.mark_eq
    have hsign : startsWith isSign e.digits = false := by
      simpa using startsWith_digits (fun _ => not_isSign_of_isDigit) e.isDigit e.nonempty []
    rw [Exponent.text, Number.leadingExponent, if_pos hmark, splitSign_text _ hsign]
    simp only [List.takeWhile_eq_self_iff.2 e.isDigit]
    rfl

namespace DecimalNumeral

variable (d : DecimalNumeral)

theorem splitFraction_point :
    Number.splitFraction (pointText d.fraction ++ Exponent.text d.exponent) =
      (d.fraction.getD [], Exponent.text d.exponent) := by
  have hexponent : startsWith Char.isDigit (Exponent.text d.exponent) = false :=
    Exponent.startsWith_text ⟨rfl, rfl⟩ d.exponent
  cases hfraction : d.fraction with
  | none =>
    have hpoint := Exponent.startsWith_text (P := (· == '.')) ⟨rfl, rfl⟩ d.exponent
    rw [pointText, List.nil_append]
    unfold Number.splitFraction
    split
    · rename_i heq
      rw [heq] at hpoint
      cases hpoint
    · rfl
  | some ds =>
    have hds : ∀ c ∈ ds, c.isDigit = true := by simpa [hfraction] using d.isDigit_fraction
    have htake := takeWhile_append hds hexponent
    rw [pointText, List.cons_append, Number.splitFraction, htake, ← drop_takeWhile, htake,
      List.drop_left]
    rfl

theorem leadingDecimal_unsigned : Number.leadingDecimal d.unsigned = some d.value := by
  have htake : d.unsigned.takeWhile Char.isDigit = d.whole :=
    takeWhile_append d.isDigit_whole (d.startsWith_point ⟨rfl, rfl, rfl⟩)
  have hdrop : d.unsigned.dropWhile Char.isDigit =
      pointText d.fraction ++ Exponent.text d.exponent := by
    rw [← drop_takeWhile, htake, unsigned, List.drop_left]
  have hne : (d.whole.isEmpty && (d.fraction.getD []).isEmpty) = false := by
    rcases d.nonempty with h | h <;> simp [h]
  rw [Number.leadingDecimal, htake, hdrop, splitFraction_point]
  simp only [hne, Exponent.leadingExponent_text]
  rfl

theorem hexDigits?_unsigned : Number.hexDigits? d.unsigned = none :=
  hexDigits?_digits d.isDigit_whole (d.startsWith_point ⟨rfl, rfl, rfl⟩)

/-- After its sign a numeral begins with a digit or a point. -/
theorem startsWith_unsigned {P : Char → Bool} (hdigit : ∀ c, c.isDigit = true → P c = false)
    (hpoint : P '.' = false) (rest : List Char) : startsWith P (d.unsigned ++ rest) = false := by
  by_cases hwhole : d.whole = []
  · cases hfraction : d.fraction with
    | none => simpa [hwhole, hfraction] using d.nonempty
    | some ds => simpa [unsigned, hwhole, hfraction, pointText, startsWith] using hpoint
  · rw [unsigned, List.append_assoc]
    exact startsWith_digits hdigit d.isDigit_whole hwhole _

theorem isSign_unsigned (rest : List Char) : startsWith isSign (d.unsigned ++ rest) = false :=
  d.startsWith_unsigned (fun _ => not_isSign_of_isDigit) rfl rest

theorem trimLeft_text : trimLeft d.text = d.text := by
  have hblank : startsWith isBlank d.text = false := by
    rw [text]
    cases d.sign with
    | none =>
      have hfirst := d.startsWith_unsigned (P := isBlank)
        (fun _ => Number.isBlank_eq_false_of_isDigit) rfl []
      simpa [Sign.text] using hfirst
    | plus => rfl
    | minus => rfl
  rw [trimLeft, ← drop_takeWhile, takeWhile_eq_nil hblank]
  rfl

/-- As a whole text, a numeral stands for its reading. -/
theorem ofText_text : Number.ofText d.text = d.reading := by
  have hsign : startsWith isSign d.unsigned = false := by simpa using d.isSign_unsigned []
  have hsplit : Number.splitSign d.text = (d.sign.negative, d.unsigned) := splitSign_text _ hsign
  have hhex : Number.leadingHex d.unsigned = none := by rw [Number.leadingHex, hexDigits?_unsigned]
  rw [Number.ofText, trimLeft_text, hsplit]
  simp only [hhex, leadingDecimal_unsigned]
  rfl

end DecimalNumeral

end TorqueScript
