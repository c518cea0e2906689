import TorqueScript.Proofs.Number.Numerals

/-!
The number of a text by the numeral it begins with. A hexadecimal numeral is taken with all
the digits that follow, if it is in range; of the decimal numerals the longest one is taken; and
a text that begins with no numeral counts as zero. That this is one number for every text, and
which one, is settled here, and so is what may follow a text without changing its number.
-/

namespace TorqueScript

open Text Scan Numeral

/-- What a text without blanks before it stands for. -/
inductive Denotes (cs : List Char) : Float → Prop
  | hexadecimal (h : HexNumeral) (hlead : h.Leads cs) (hlt : h.value < 2 ^ 63) :
      Denotes cs (Number.signed h.sign.negative (Float.ofNat h.value))
  | decimal (hhex : ∀ h : HexNumeral, h.Leads cs → 2 ^ 63 ≤ h.value) (d : DecimalNumeral)
      (hd : d.text <+: cs)
      (hlongest : ∀ e : DecimalNumeral, e.text <+: cs → e.text.length ≤ d.text.length) :
      Denotes cs d.reading
  | nothing (hhex : ∀ h : HexNumeral, h.Leads cs → 2 ^ 63 ≤ h.value)
      (hnone : ∀ d : DecimalNumeral, ¬ d.text <+: cs) : Denotes cs 0.0

theorem hexDigits?_mark {c : Char} (hc : c = 'x' ∨ c = 'X') (cs : List Char) :
    Number.hexDigits? ('0' :: c :: cs) = some (cs.takeWhile isHexDigit) := by
  have hmark : (c == 'x' || c == 'X') = true := by simpa using hc
  rw [Number.hexDigits?, if_pos hmark]

theorem exists_of_hexDigits? {cs digits : List Char} (h : Number.hexDigits? cs = some digits) :
    ∃ c rest, (c = 'x' ∨ c = 'X') ∧ cs = '0' :: c :: rest ∧ digits = rest.takeWhile isHexDigit := by
  unfold Number.hexDigits? at h
  split at h
  · rename_i c rest
    split at h
    · rename_i hc
      cases h
      exact ⟨c, rest, by simpa using hc, rfl, rfl⟩
    · cases h
  · cases h

theorem startsWith_dropWhile (P : Char → Bool) (cs : List Char) :
    startsWith P (cs.dropWhile P) = false := by
  induction cs with
  | nil => rfl
  | cons c cs ih =>
    cases hc : P c with
    | true => rw [List.dropWhile_cons_of_pos hc, ih]
    | false =>
      rw [List.dropWhile_cons_of_neg (by simp [hc])]
      exact hc

/-- Further digits do not make a number smaller. -/
theorem hexadecimalValue_le_append (ds es : List Char) :
    hexadecimalValue ds ≤ hexadecimalValue (ds ++ es) := by
  have hfold : ∀ n, n ≤ es.foldl (fun n c => 16 * n + hexValue c) n := by
    induction es with
    | nil => exact fun n => Nat.le_refl n
    | cons c es ih =>
      intro n
      have hle : n ≤ 16 * n + hexValue c := by omega
      exact Nat.le_trans hle (ih _)
  rw [hexadecimalValue, hexadecimalValue, List.foldl_append]
  exact hfold _

namespace HexNumeral

variable {g h : HexNumeral} {cs : List Char}

theorem splitSign_text (h : HexNumeral) (rest : List Char) :
    Number.splitSign (h.text ++ rest) =
      (h.sign.negative, '0' :: h.mark :: (h.digits ++ rest)) := by
  rw [text, List.append_assoc]
  exact TorqueScript.splitSign_text _ rfl

/-- The numeral that a text begins with is read there, if it is in range. -/
theorem Leads.leadingHex (hlead : h.Leads cs) :
    ∃ body, Number.splitSign cs = (h.sign.negative, body) ∧
      Number.leadingHex body = if 2 ^ 63 ≤ h.value then none else some h.value := by
  obtain ⟨rest, rfl, hrest⟩ := hlead
  refine ⟨_, h.splitSign_text rest, ?_⟩
  have hdigits : (h.digits ++ rest).takeWhile Text.isHexDigit = h.digits :=
    takeWhile_append h.isHexDigit hrest
  have hne : h.digits.isEmpty = false := by simpa using h.nonempty
  rw [Number.leadingHex, hexDigits?_mark h.mark_eq, hdigits]
  simp only [hne, Bool.false_or, decide_eq_true_eq]
  rfl

theorem exists_of_leadingHex (sign : Sign) {body : List Char} {n : Nat}
    (hread : Number.leadingHex body = some n) :
    ∃ h : HexNumeral, h.sign = sign ∧ h.Leads (sign.text ++ body) ∧ h.value = n := by
  unfold Number.leadingHex at hread
  split at hread
  · rename_i digits hdigits
    obtain ⟨c, rest, hc, rfl, rfl⟩ := exists_of_hexDigits? hdigits
    simp only at hread
    split at hread
    · cases hread
    · rename_i hvalid
      have hne : rest.takeWhile Text.isHexDigit ≠ [] := by
        intro hnil
        simp [hnil] at hvalid
      cases hread
      refine ⟨⟨sign, c, rest.takeWhile Text.isHexDigit, hc,
        fun _ => List.mem_takeWhile_imp, hne⟩, rfl,
        ⟨rest.dropWhile Text.isHexDigit, ?_, ?_⟩, rfl⟩
      · simp [text, List.takeWhile_append_dropWhile]
      · exact startsWith_dropWhile _ rest
  · cases hread

/-- All digits of a numeral that a text begins with are digits of the one that is read. -/
theorem Leads.value_le (hlead : h.Leads cs) (hg : g.text <+: cs) : g.value ≤ h.value := by
  obtain ⟨rest, hcs, hrest⟩ := hlead
  obtain ⟨after, rfl⟩ := hg
  have hsplit := g.splitSign_text after
  rw [hcs, h.splitSign_text rest] at hsplit
  have hdigits : h.digits ++ rest = g.digits ++ after := by
    simpa using (List.cons.inj (List.cons.inj (Prod.ext_iff.1 hsplit).2).2).2
  have hall : g.digits ++ after.takeWhile Text.isHexDigit = h.digits := by
    rw [← List.takeWhile_append_of_pos g.isHexDigit, ← hdigits]
    exact takeWhile_append h.isHexDigit hrest
  rw [value, value, ← hall]
  exact hexadecimalValue_le_append _ _

end HexNumeral

/-- A numeral that a text begins with has the sign that is split off there. -/
theorem DecimalNumeral.after_sign {d : DecimalNumeral} {cs : List Char} (h : d.text <+: cs) :
    d.sign.text.length = signSpan cs ∧ d.unsigned <+: cs.drop (signSpan cs) := by
  obtain ⟨rest, rfl⟩ := h
  have hspan : signSpan (d.text ++ rest) = d.sign.text.length := by
    rw [text, List.append_assoc]
    exact signSpan_text _ (d.isSign_unsigned rest)
  rw [hspan, text, List.append_assoc, List.drop_left]
  exact ⟨rfl, List.prefix_append _ _⟩

/-- A text is read as one of the numerals that it begins with, or as zero. -/
theorem denotes_ofText (s : List Char) : Denotes (trimLeft s) (Number.ofText s) := by
  rw [Number.ofText]
  generalize trimLeft s = cs
  obtain ⟨sign, hsign, hsplit⟩ := exists_sign cs
  have hcs : sign.text ++ cs.drop (signSpan cs) = cs := by rw [hsign, List.take_append_drop]
  have hrange : ∀ h : HexNumeral, h.Leads cs → Number.leadingHex (cs.drop (signSpan cs)) =
      if 2 ^ 63 ≤ h.value then none else some h.value := by
    intro h hlead
    obtain ⟨body, hbody, hread⟩ := hlead.leadingHex
    rw [hsplit] at hbody
    obtain ⟨-, rfl⟩ := Prod.mk.inj hbody
    exact hread
  rw [hsplit]
  simp only
  cases hhex : Number.leadingHex (cs.drop (signSpan cs)) with
  | some n =>
    obtain ⟨h, rfl, hlead, rfl⟩ := HexNumeral.exists_of_leadingHex sign hhex
    rw [hcs] at hlead
    refine .hexadecimal h hlead (Nat.lt_of_not_le fun hle => ?_)
    rw [hrange h hlead, if_pos hle] at hhex
    cases hhex
  | none =>
    have hout : ∀ h : HexNumeral, h.Leads cs → 2 ^ 63 ≤ h.value := by
      intro h hlead
      by_contra hlt
      rw [hrange h hlead, if_neg hlt] at hhex
      cases hhex
    cases hdecimal : Number.leadingDecimal (cs.drop (signSpan cs)) with
    | some v =>
      obtain ⟨d, rfl, hunsigned, rfl⟩ := exists_decimal sign hdecimal
      have hd : d.text <+: cs := by
        rw [DecimalNumeral.text, hunsigned, hsign, ← List.take_add]
        exact List.take_prefix _ _
      refine .decimal hout d hd fun e he => ?_
      obtain ⟨hsignd, -⟩ := DecimalNumeral.after_sign hd
      obtain ⟨hsigne, hprefix⟩ := DecimalNumeral.after_sign he
      have hspan := DecimalNumeral.length_unsigned_le hprefix
      have hlength := hprefix.length_le
      rw [DecimalNumeral.text, DecimalNumeral.text, List.length_append, List.length_append, hsignd,
        hsigne, hunsigned, List.length_take]
      omega
    | none =>
      exact .nothing hout fun d hd =>
        DecimalNumeral.leadingDecimal_ne_none (DecimalNumeral.after_sign hd).2 hdecimal

/-- A text denotes one number only. -/
theorem Denotes.unique {cs : List Char} {x y : Float} (hx : Denotes cs x) (hy : Denotes cs y) :
    x = y := by
  cases hx with
  | hexadecimal h hlead hlt =>
    cases hy with
    | hexadecimal g hlead' hlt' =>
      obtain ⟨body, hsplit, hread⟩ := hlead.leadingHex
      obtain ⟨body', hsplit', hread'⟩ := hlead'.leadingHex
      obtain ⟨hsign, rfl⟩ := Prod.mk.inj (hsplit.symm.trans hsplit')
      rw [hread, if_neg (Nat.not_le.2 hlt), if_neg (Nat.not_le.2 hlt')] at hread'
      rw [hsign, Option.some.inj hread']
    | decimal hhex => exact absurd (hhex h hlead) (Nat.not_le.2 hlt)
    | nothing hhex => exact absurd (hhex h hlead) (Nat.not_le.2 hlt)
  | decimal hhex d hd hlongest =>
    cases hy with
    | hexadecimal g hlead hlt => exact absurd (hhex g hlead) (Nat.not_le.2 hlt)
    | decimal _ e he hlongest' =>
      have hde : d.text <+: e.text := List.prefix_of_prefix_length_le hd he (hlongest' d hd)
      have htext : d.text = e.text :=
        hde.eq_of_length (Nat.le_antisymm (hlongest' d hd) (hlongest e he))
      rw [← d.ofText_text, ← e.ofText_text, htext]
    | nothing _ hnone => exact absurd hd (hnone d)
  | nothing hhex hnone =>
    cases hy with
    | hexadecimal g hlead hlt => exact absurd (hhex g hlead) (Nat.not_le.2 hlt)
    | decimal _ e he => exact absurd he (hnone e)
    | nothing => rfl

theorem denotes_iff (s : List Char) (x : Float) :
    Denotes (trimLeft s) x ↔ Number.ofText s = x := by
  constructor
  · exact fun h => (denotes_ofText s).unique h
  · rintro rfl
    exact denotes_ofText s

/-- The longer text begins with no numeral that `cs` does not begin with. Further digits of a
hexadecimal numeral that is out of range already do not count. -/
structure Unextended (cs longer : List Char) : Prop where
  decimal (d : DecimalNumeral) : d.text <+: longer → d.text <+: cs
  hexadecimal (h : HexNumeral) :
    h.text <+: longer → h.text <+: cs ∨ ∃ g : HexNumeral, g.text <+: cs ∧ 2 ^ 63 ≤ g.value

namespace Unextended

variable {cs tail : List Char} (hun : Unextended cs (cs ++ tail))

include hun

/-- A numeral out of range does not come into range. -/
theorem out_of_range (hout : ∀ h : HexNumeral, h.Leads cs → 2 ^ 63 ≤ h.value) (h : HexNumeral)
    (hlead : h.Leads (cs ++ tail)) : 2 ^ 63 ≤ h.value := by
  have hprefix : h.text <+: cs ++ tail := by
    obtain ⟨rest, hrest, -⟩ := hlead
    exact ⟨rest, hrest.symm⟩
  rcases hun.hexadecimal h hprefix with hcs | ⟨g, hg, hle⟩
  · obtain ⟨rest, rfl⟩ := hcs
    obtain ⟨after, hafter, hstop⟩ := hlead
    rw [List.append_assoc, List.append_cancel_left_eq] at hafter
    refine hout h ⟨rest, rfl, ?_⟩
    cases rest with
    | nil => rfl
    | cons c rest =>
      rw [← hafter] at hstop
      exact hstop
  · exact Nat.le_trans hle (hlead.value_le (hg.trans (List.prefix_append cs tail)))

/-- A numeral in range is not given more digits. -/
theorem leads {h : HexNumeral} (hlead : h.Leads cs) (hlt : h.value < 2 ^ 63) :
    h.Leads (cs ++ tail) := by
  obtain ⟨rest, rfl, hstop⟩ := hlead
  refine ⟨rest ++ tail, List.append_assoc _ _ _, ?_⟩
  cases rest with
  | cons c rest => exact hstop
  | nil =>
    cases tail with
    | nil => rfl
    | cons c tail =>
      by_contra hc
      have hdigit : isHexDigit c = true := by simpa [startsWith] using hc
      -- with one more digit the numeral would still be one
      let longer : HexNumeral := ⟨h.sign, h.mark, h.digits ++ [c], h.mark_eq,
        List.forall_mem_append.2 ⟨h.isHexDigit, by simpa using hdigit⟩, by simp⟩
      have htext : longer.text = h.text ++ [c] := by simp [longer, HexNumeral.text]
      have hlead : h.Leads (h.text ++ []) := ⟨[], rfl, rfl⟩
      rcases hun.hexadecimal longer (by simp [htext]) with hshort | ⟨g, hg, hle⟩
      · have hlength := hshort.length_le
        simp [htext] at hlength
      · exact Nat.not_le.2 hlt (Nat.le_trans hle (hlead.value_le hg))

theorem denotes {x : Float} (h : Denotes cs x) : Denotes (cs ++ tail) x := by
  cases h with
  | hexadecimal h hlead hlt => exact .hexadecimal h (hun.leads hlead hlt) hlt
  | decimal hhex d hd hlongest =>
    exact .decimal (hun.out_of_range hhex) d (hd.trans (List.prefix_append cs tail))
      fun e he => hlongest e (hun.decimal e he)
  | nothing hhex hnone =>
    exact .nothing (hun.out_of_range hhex) fun d hd => hnone d (hun.decimal d hd)

end Unextended

/-- It can be seen from where the parts end that no numeral goes on. -/
theorem Unextended.of_span {cs longer : List Char} (hlonger : cs <+: longer)
    (hhex : Number.hexDigits? (longer.drop (signSpan longer)) = none)
    (hspan : signSpan longer + decimalSpan (longer.drop (signSpan longer)) ≤ cs.length) :
    Unextended cs longer where
  decimal d hd := by
    obtain ⟨hsign, hunsigned⟩ := DecimalNumeral.after_sign hd
    have hle := DecimalNumeral.length_unsigned_le hunsigned
    apply List.prefix_of_prefix_length_le hd hlonger
    rw [DecimalNumeral.text, List.length_append]
    omega
  hexadecimal h hh := by
    obtain ⟨rest, rfl⟩ := hh
    obtain ⟨sign, -, hsplit⟩ := exists_sign (h.text ++ rest)
    rw [h.splitSign_text] at hsplit
    rw [← (Prod.mk.inj hsplit).2, hexDigits?_mark h.mark_eq] at hhex
    cases hhex

/-- What follows a text without making its numeral longer does not change its number. -/
theorem ofText_of_unextended {s more : List Char}
    (h : Unextended (trimLeft s) (trimLeft (s ++ more))) :
    Number.ofText (s ++ more) = Number.ofText s := by
  obtain ⟨tail, htail⟩ : ∃ tail, trimLeft (s ++ more) = trimLeft s ++ tail := by
    rw [trimLeft, trimLeft, List.dropWhile_append]
    split
    · rename_i hblank
      rw [List.isEmpty_iff.1 hblank]
      exact ⟨_, rfl⟩
    · exact ⟨more, rfl⟩
  rw [htail] at h
  have hdenotes := h.denotes (denotes_ofText s)
  rw [← htail, denotes_iff] at hdenotes
  exact hdenotes

end TorqueScript
