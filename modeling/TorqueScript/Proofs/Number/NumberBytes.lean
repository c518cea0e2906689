import TorqueScript.Proofs.Number.LeadingNumerals
import TorqueScript.Proofs.Token.ByteLexemes

/-!
The number of a text read byte by byte. A cursor moves over the sign, the digits, the point and
the exponent, and what it has passed is cut out of the text and left to a reader of decimals.
There is no answer if a text is cut inside a character or beyond its end, or if the reader of
decimals has none.
-/

namespace TorqueScript

open Text Scan Numeral

namespace ByteCursor

/-- The hexadecimal numeral in range that comes next, if there is one. -/
def hexNumber (c : ByteCursor) : Option (Option Nat) := do
  let rest ← dropBytes? c.offset c.source
  if ['0', 'x'].isPrefixOf rest || ['0', 'X'].isPrefixOf rest then
    let rest ← dropBytes? 2 rest
    let digits := rest.takeWhile isHexDigit
    let n := hexadecimalValue digits
    return if digits.isEmpty || Number.hexLimit ≤ n then none else some n
  else return none

/-- The end of the digits before and after a decimal point. -/
def mantissaEnd (c : ByteCursor) : Option ByteCursor := do
  let whole ← c.advanceOver Char.isDigit
  if whole.look 0 == '.' then whole.next.advanceOver Char.isDigit else some whole

/-- The number of a text, where `parse` reads decimals. -/
def number (parse : List Char → Option Float) (text : List Char) : Option Float := do
  let start : ByteCursor := ⟨trimLeft text, 0, .start⟩
  let body := if isSign (start.look 0) then start.next else start
  let hex ← body.hexNumber
  match hex with
  | some n => return Number.signed (start.look 0 == '-') (Float.ofNat n)
  | none =>
    let stop ← body.mantissaEnd
    let mantissa ← body.textTo stop
    if (mantissa.toList.dropWhile (· == '.')).isEmpty then return 0.0
    else
      let (exponent, complete) ← stop.exponentEnd
      let numeral ← start.textTo (if complete then exponent else stop)
      parse numeral.toList

variable {before cs : List Char} {p : Position} {n : Nat}

theorem isPrefixOf_hexMark (cs : List Char) :
    (['0', 'x'].isPrefixOf cs || ['0', 'X'].isPrefixOf cs) =
      (startsWith (· == '0') cs && startsWith isHexMark (cs.drop 1)) := by
  cases cs with
  | nil => rfl
  | cons c cs =>
    cases cs with
    | nil => simp [List.isPrefixOf, startsWith]
    | cons d cs =>
      simp only [List.isPrefixOf, Bool.and_true, startsWith, isHexMark, List.drop_one,
        List.tail_cons, ← Bool.and_or_distrib_left, Bool.beq_comm]

theorem hexNumber_along :
    hexNumber (along before cs p n) = some (Number.leadingHex (cs.drop n)) := by
  have hrest : dropBytes? (along before cs p n).offset (along before cs p n).source =
      some (cs.drop n) :=
    dropBytes?_byteLength (before ++ cs.take n) (cs.drop n)
  rw [hexNumber, hrest]
  simp only [Option.bind_eq_bind, Option.bind_some, isPrefixOf_hexMark]
  rw [Number.leadingHex, hexDigits?_eq]
  cases hmark : startsWith (· == '0') (cs.drop n) && startsWith isHexMark ((cs.drop n).drop 1) with
  | false => rfl
  | true =>
    obtain ⟨hzero, hx⟩ := Bool.and_eq_true_iff.1 hmark
    obtain ⟨c, rest, hcs, hc⟩ := exists_cons_of_startsWith hzero
    rw [hcs, List.drop_one, List.tail_cons] at hx
    obtain ⟨d, rest, rfl, hd⟩ := exists_cons_of_startsWith hx
    have hlength : byteLength [c, d] = 2 := by
      have hzero : AsciiClass (· == '0') := asciiClass_eq (by decide) (by decide)
      simp [(hzero.ascii hc).utf8Size, (asciiClass_isHexMark.ascii hd).utf8Size]
    have hdrop : dropBytes? 2 (cs.drop n) = some rest := by
      rw [hcs, ← hlength]
      exact dropBytes?_byteLength [c, d] rest
    rw [hdrop, hcs]
    rfl

/-- How many characters the digits before and after a decimal point take. -/
def mantissaSpan (cs : List Char) : Nat :=
  let whole := (cs.takeWhile Char.isDigit).length
  whole + pointSpan (cs.drop whole)

theorem mantissaEnd_along :
    mantissaEnd (along before cs p n) =
      some (along before cs p (n + mantissaSpan (cs.drop n))) := by
  rw [mantissaEnd, advanceOver_along asciiClass_isDigit]
  simp only [Option.bind_eq_bind, Option.bind_some, look_along asciiClass_point]
  rw [mantissaSpan, pointSpan, List.drop_drop]
  split
  · rename_i hpoint
    rw [next_along asciiClass_point hpoint, advanceOver_along asciiClass_isDigit, List.drop_drop]
    simp only [Nat.add_assoc]
  · rfl

theorem decimalSpan_eq (cs : List Char) :
    decimalSpan cs = mantissaSpan cs + exponentSpan (cs.drop (mantissaSpan cs)) := by
  simp only [decimalSpan, mantissaSpan, List.drop_drop, Nat.add_assoc]

theorem textTo_along_add (m : Nat) :
    (along before cs p n).textTo (along before cs p (n + m)) =
      some (String.ofList ((cs.drop n).take m)) := by
  rw [← along_along]
  exact textTo_along m

/-- Digits are kept when points are passed over. -/
theorem dropWhile_point {ds : List Char} (hds : ∀ c ∈ ds, c.isDigit = true) (rest : List Char)
    (hne : ds ≠ []) : (ds ++ rest).dropWhile (· == '.') = ds ++ rest := by
  cases ds with
  | nil => exact absurd rfl hne
  | cons d ds =>
    have hd : d ≠ '.' := by
      rintro rfl
      exact absurd (hds '.' (List.mem_cons_self ..)) (by decide)
    exact List.dropWhile_cons_of_neg (by simpa using hd)

/-- Nothing but points is passed over where no decimal is read. -/
theorem isEmpty_mantissa (cs : List Char) :
    ((cs.take (mantissaSpan cs)).dropWhile (· == '.')).isEmpty = true ↔
      Number.leadingDecimal cs = none := by
  obtain ⟨fraction, hpoint, hdigits, hsplit⟩ :=
    exists_point (cs.drop (cs.takeWhile Char.isDigit).length)
  have hwhole : ∀ c ∈ cs.takeWhile Char.isDigit, c.isDigit = true :=
    fun _ => List.mem_takeWhile_imp
  have hmantissa : cs.take (mantissaSpan cs) = cs.takeWhile Char.isDigit ++ pointText fraction := by
    rw [mantissaSpan, List.take_add, take_takeWhile, hpoint]
  rw [leadingDecimal_eq hsplit, hmantissa]
  by_cases hnil : cs.takeWhile Char.isDigit = []
  · cases fraction with
    | none => simp [hnil, pointText]
    | some ds =>
      have hds : ds.dropWhile (· == '.') = ds := by
        cases ds with
        | nil => rfl
        | cons d ds => simpa using dropWhile_point hdigits [] (by simp)
      simp [hnil, pointText, hds]
  · simp [dropWhile_point hwhole _ hnil, hnil]

theorem negative_splitSign (cs : List Char) :
    (Number.splitSign cs).1 = startsWith (· == '-') cs := by
  fun_cases Number.splitSign cs with
  | case1 => rfl
  | case2 => rfl
  | case3 cs hminus =>
    cases cs with
    | nil => rfl
    | cons c cs =>
      have hc : c ≠ '-' := by
        rintro rfl
        exact hminus cs rfl
      simp [startsWith, hc]

theorem exponentEnd_span (before cs : List Char) (p : Position) (n : Nat) :
    ∃ stop complete, exponentEnd (along before cs p n) = some (stop, complete) ∧
      (if complete then stop else along before cs p n) =
        along before cs p (n + exponentSpan (cs.drop n)) := by
  refine ⟨_, _, exponentEnd_along, ?_⟩
  rw [exponentSpan]
  split <;> rfl

/-- The reader by bytes answers for every text, with the number of the text. -/
theorem number_eq {parse : List Char → Option Float}
    (hparse : ∀ d : DecimalNumeral, parse d.text = some d.reading) (s : List Char) :
    number parse s = some (Number.ofText s) := by
  rw [number, Number.ofText]
  generalize trimLeft s = cs
  obtain ⟨sign, hsign, hsplit⟩ := exists_sign cs
  have hstart : (⟨cs, 0, .start⟩ : ByteCursor) = along [] cs .start 0 := by
    rw [along_zero]
    rfl
  have hnegative : ((along [] cs .start 0).look 0 == '-') = sign.negative := by
    rw [look_along (asciiClass_eq (by decide) (by decide)), List.drop_zero, ← negative_splitSign,
      hsplit]
  have hbody : (if isSign ((along [] cs .start 0).look 0) then (along [] cs .start 0).next
      else along [] cs .start 0) = along [] cs .start (signSpan cs) := by
    rw [look_along asciiClass_isSign, List.drop_zero, signSpan]
    split
    · rename_i hsigned
      exact next_along asciiClass_isSign hsigned
    · rfl
  simp only [hstart, hbody, hnegative, hsplit, hexNumber_along, Option.bind_eq_bind,
    Option.bind_some]
  cases Number.leadingHex (cs.drop (signSpan cs)) with
  | some n => rfl
  | none =>
    simp only [mantissaEnd_along, Option.bind_some, textTo_along_add, String.toList_ofList,
      isEmpty_mantissa]
    cases hdecimal : Number.leadingDecimal (cs.drop (signSpan cs)) with
    | none => rfl
    | some v =>
      obtain ⟨d, rfl, hunsigned, rfl⟩ := exists_decimal sign hdecimal
      obtain ⟨stop, complete, hexponent, hstop⟩ :=
        exponentEnd_span [] cs .start (signSpan cs + mantissaSpan (cs.drop (signSpan cs)))
      have htext : d.text = cs.take (signSpan cs + mantissaSpan (cs.drop (signSpan cs)) +
          exponentSpan (cs.drop (signSpan cs + mantissaSpan (cs.drop (signSpan cs))))) := by
        rw [DecimalNumeral.text, hsign, hunsigned, ← List.take_add, decimalSpan_eq, List.drop_drop,
          Nat.add_assoc]
      have hcut : (along [] cs .start 0).textTo (if complete then stop
          else along [] cs .start (signSpan cs + mantissaSpan (cs.drop (signSpan cs)))) =
          some (String.ofList d.text) := by
        rw [hstop, along_zero, textTo_along, htext]
      simp only [hexponent, Option.bind_some, hcut, String.toList_ofList, hparse]
      rfl

end ByteCursor

/-- The number of a text is that of the numeral it begins with after its blanks: of a hexadecimal
numeral in range with all its digits, else of the longest decimal numeral, else zero. It is the same
for every longer text in which no numeral goes on. Read by bytes, no text is cut but between
characters, and what is left to a reader of decimals is a decimal numeral, so it has an answer. -/
theorem number_of_leading_numeral (s : List Char) :
    (∀ x, Denotes (trimLeft s) x ↔ Number.ofText s = x) ∧
    (∀ more, Unextended (trimLeft s) (trimLeft (s ++ more)) →
      Number.ofText (s ++ more) = Number.ofText s) ∧
    (∀ parse : List Char → Option Float,
      (∀ d : DecimalNumeral, parse d.text = some d.reading) →
        ByteCursor.number parse s = some (Number.ofText s)) :=
  ⟨denotes_iff s, fun _ => ofText_of_unextended, fun _ hparse => ByteCursor.number_eq hparse s⟩

theorem number_of_leading_numeral_exponent :
    let s := [' ', '-', '1', '2', '.', '5', 'e', '+', '2', 'é']
    let parse (cs : List Char) := some (Number.ofText cs)
    Number.ofText s = -1250.0 ∧
      Unextended (trimLeft s) (trimLeft (s ++ ['7'])) ∧ Number.ofText (s ++ ['7']) = -1250.0 ∧
      (∀ d : DecimalNumeral, parse d.text = some d.reading) ∧
      ByteCursor.number parse s = some (-1250.0) := by
  intro s parse
  have hnumber : Number.ofText s = -1250.0 := by decide +kernel
  have hun : Unextended (trimLeft s) (trimLeft (s ++ ['7'])) :=
    .of_span (by decide) (by decide) (by decide)
  have hparse (d : DecimalNumeral) : parse d.text = some d.reading :=
    congrArg some d.ofText_text
  obtain ⟨-, happend, hbytes⟩ := number_of_leading_numeral s
  rw [← hnumber]
  exact ⟨rfl, hun, happend _ hun, hparse, hbytes parse hparse⟩

end TorqueScript
