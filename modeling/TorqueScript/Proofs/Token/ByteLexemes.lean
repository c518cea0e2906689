import Mathlib.Tactic.Ring
import TorqueScript.Proofs.Token.ByteReaders
import TorqueScript.Proofs.Token.Literals
import TorqueScript.Proofs.Token.Escapes

/-!
Names, paths, numerals and symbols read by bytes. Each reader is followed over the characters: it
moves on by as many of them as the token has, and cuts out their text.
-/

namespace TorqueScript

open Text Scan

theorem asciiClass_isDigit : AsciiClass Char.isDigit where
  ascii h := by
    have hbounds := h
    simp only [Char.isDigit, Bool.and_eq_true, decide_eq_true_eq, UInt32.le_iff_toNat_le] at hbounds
    exact Nat.lt_of_le_of_lt hbounds.2 (by decide)
  null := rfl

theorem asciiClass_isLetter : AsciiClass isLetter where
  ascii {c} h := by
    have hz : c.toNat ≤ 'z'.toNat := by
      simp only [isLetter, Bool.or_eq_true, beq_iff_eq] at h
      rcases h with halpha | rfl
      · rcases (Bool.or_eq_true _ _).mp halpha with hupper | hlower
        · exact Nat.le_trans (UInt32.le_iff_toNat_le.mp (of_decide_eq_true hupper).2) (by decide)
        · have hbounds := (Bool.and_eq_true _ _).mp hlower
          exact UInt32.le_iff_toNat_le.mp (of_decide_eq_true hbounds.2)
      · decide
    exact Nat.lt_of_le_of_lt hz (by decide)
  null := rfl

theorem asciiClass_isNameChar : AsciiClass isNameChar :=
  asciiClass_isLetter.or asciiClass_isDigit

theorem asciiClass_isHexDigit : AsciiClass isHexDigit where
  ascii h := asciiClass_isNameChar.ascii (isNameChar_of_isHexDigit h)
  null := rfl

namespace ByteCursor

variable {before cs : List Char} {p : Position} {c : Char} {P Q R : Char → Bool} {n : Nat}

theorem look_second (hP : AsciiClass P) (hQ : AsciiClass Q) :
    (P ((between before cs p).look 0) && Q ((between before cs p).look 1)) =
      (startsWith P cs && startsWith Q (cs.drop 1)) := by
  rw [look_class hP]
  cases cs with
  | nil => rfl
  | cons c cs =>
    cases hc : P c with
    | false => simp [startsWith, hc]
    | true => rw [look_succ (hP.ascii hc), look_class hQ, List.drop_one, List.tail_cons]

theorem look_third (hP : AsciiClass P) (hQ : AsciiClass Q) (hR : AsciiClass R) :
    (P ((between before cs p).look 0) && Q ((between before cs p).look 1) &&
        R ((between before cs p).look 2)) =
      (startsWith P cs && startsWith Q (cs.drop 1) && startsWith R (cs.drop 2)) := by
  rw [Bool.and_assoc, Bool.and_assoc, look_class hP]
  cases cs with
  | nil => rfl
  | cons c cs =>
    cases hc : P c with
    | false => simp [startsWith, hc]
    | true =>
      rw [look_succ (hP.ascii hc), look_succ (hP.ascii hc), look_second hQ hR]
      rfl

theorem textTo_along (n : Nat) :
    (between before cs p).textTo (along before cs p n) = some (String.ofList (cs.take n)) := by
  have hslice : slice? (byteLength before) (byteLength (before ++ cs.take n)) (before ++ cs) =
      some (cs.take n) := by
    have hcut := slice?_byteLength before (cs.take n) (cs.drop n)
    rwa [List.take_append_drop] at hcut
  have hle : (between before cs p).offset ≤ (along before cs p n).offset := by simp [along]
  rw [textTo, if_pos hle]
  exact congrArg (Option.map String.ofList) hslice

theorem advanceOver_along (hP : AsciiClass P) :
    advanceOver P (along before cs p n) =
      some (along before cs p (n + ((cs.drop n).takeWhile P).length)) := by
  rw [along, advanceOver_between hP, along_along]

theorem look_along (hP : AsciiClass P) :
    P ((along before cs p n).look 0) = startsWith P (cs.drop n) :=
  look_class hP

theorem look_along_second (hP : AsciiClass P) (hQ : AsciiClass Q) :
    (P ((along before cs p n).look 0) && Q ((along before cs p n).look 1)) =
      (startsWith P (cs.drop n) && startsWith Q (cs.drop (n + 1))) := by
  rw [along, look_second hP hQ, List.drop_drop]

theorem next_along (hP : AsciiClass P) (h : startsWith P (cs.drop n) = true) :
    (along before cs p n).next = along before cs p (n + 1) := by
  rw [← along_along, along]
  cases hcs : cs.drop n with
  | nil => simp [hcs, startsWith] at h
  | cons d ds =>
    have hd : P d = true := by simpa [hcs, startsWith] using h
    rw [next_ascii (hP.ascii hd), along_succ, along_zero]

theorem offset_along_lt {m : Nat} (h : m ≤ (cs.drop n).length) :
    decide ((along before cs p n).offset < (along before cs p (n + m)).offset) = (m != 0) := by
  have hoffset : (along before cs p (n + m)).offset =
      (along before cs p n).offset + byteLength ((cs.drop n).take m) := by
    simp [along, between, List.take_add, Nat.add_assoc]
  rw [hoffset]
  cases m with
  | zero => simp
  | succ m =>
    cases hcs : cs.drop n with
    | nil => simp [hcs] at h
    | cons d ds =>
      have hd := d.utf8Size_pos
      simp only [List.take_succ_cons, byteLength_cons]
      exact decide_eq_true (by omega)

theorem asciiClass_colon : AsciiClass (· == ':') :=
  asciiClass_eq (by decide) (by decide)

theorem skipPath_name (hc : isNameChar c = true) :
    skipPath (between before (c :: cs) p) = skipPath (between (before ++ [c]) cs (p.step c)) := by
  have hlook : isNameChar ((between before (c :: cs) p).look 0) = true := by
    rw [look_class asciiClass_isNameChar]
    exact hc
  rw [skipPath, if_pos hlook, next_ascii (asciiClass_isNameChar.ascii hc)]

/-- Where no name goes on, two colons do if a letter comes after them. -/
theorem skipPath_eq (h : startsWith isNameChar cs = false) :
    skipPath (between before cs p) =
      if startsWith (· == ':') cs && startsWith (· == ':') (cs.drop 1) &&
        startsWith isLetter (cs.drop 2) then skipPath (between before cs p).next.next
      else some (between before cs p) := by
  have hlook : isNameChar ((between before cs p).look 0) = false := by
    rw [look_class asciiClass_isNameChar, h]
  rw [skipPath, if_neg (by simp [hlook]),
    look_third asciiClass_colon asciiClass_colon asciiClass_isLetter]

theorem skipPath_between :
    skipPath (between before cs p) = some (along before cs p (variablePath cs).length) := by
  fun_induction variablePath cs generalizing before p with
  | case1 => rw [skipPath_eq rfl, if_neg (by decide), List.length_nil, along_zero]
  | case2 c cs hc ih => rw [skipPath_name hc, ih, List.length_cons, along_succ]
  | case3 d cs hd _ ih =>
    have hname : isNameChar d = true := by simp [isNameChar, hd]
    rw [skipPath_eq rfl, if_pos (by simp [startsWith, hd]), next_ascii (by decide),
      next_ascii (by decide), skipPath_name hname, ih]
    simp
  | case4 d cs hd =>
    rw [skipPath_eq rfl, if_neg (by simp [startsWith, hd]), List.length_nil, along_zero]
  | case5 c cs hc hcolon =>
    have hjoin : ¬ (startsWith (· == ':') (c :: cs) &&
        startsWith (· == ':') ((c :: cs).drop 1) &&
        startsWith isLetter ((c :: cs).drop 2)) = true := by
      intro h
      cases cs with
      | nil => simp [startsWith] at h
      | cons d cs =>
        cases cs with
        | nil => simp [startsWith] at h
        | cons e cs =>
          simp only [List.drop_succ_cons, List.drop_zero, startsWith, Bool.and_eq_true,
            beq_iff_eq] at h
          exact hcolon e cs h.1.1 (by rw [h.1.2])
    rw [skipPath_eq (by simpa [startsWith] using hc), if_neg hjoin, List.length_nil, along_zero]

theorem sees_between {ds : List Char}
    (h : ds.all (fun d => decide (IsAscii d) && d != '\x00') = true) :
    (between before cs p).sees ds = ds.isPrefixOf cs := by
  induction ds generalizing before cs p with
  | nil => rfl
  | cons d ds ih =>
    obtain ⟨⟨hascii, hnull⟩, hds⟩ :
        (IsAscii d ∧ d ≠ '\x00') ∧ ds.all (fun d => decide (IsAscii d) && d != '\x00') = true := by
      simpa only [List.all_cons, Bool.and_eq_true, decide_eq_true_eq, bne_iff_ne] using h
    rw [sees, look_class (asciiClass_eq hascii hnull)]
    cases cs with
    | nil => rfl
    | cons c cs =>
      rw [List.isPrefixOf, startsWith]
      by_cases hc : c = d
      · subst hc
        rw [next_ascii hascii, ih hds]
      · rw [beq_false_of_ne hc, beq_false_of_ne fun h => hc h.symm]
        rfl

theorem spelling_ascii : ∀ s ∈ Symbol.all,
    s.spelling.toList.all (fun d => decide (IsAscii d) && d != '\x00') = true := by
  decide

theorem find?_sees :
    Symbol.all.find? (fun s => (between before cs p).sees s.spelling.toList) =
      Symbol.leading? cs := by
  have hsees : (fun s : Symbol => (between before cs p).sees s.spelling.toList) =
      fun s => s.spelling.toList.isPrefixOf cs :=
    funext fun s => sees_between (spelling_ascii s s.mem_all)
  rw [hsees, Symbol.leading?]

theorem hexDigits?_eq (cs : List Char) :
    Number.hexDigits? cs =
      if startsWith (· == '0') cs && startsWith isHexMark (cs.drop 1) then
        some ((cs.drop 2).takeWhile isHexDigit)
      else none := by
  fun_cases Number.hexDigits? cs with
  | case1 c cs hc => simp [startsWith, isHexMark, hc]
  | case2 c cs hc => simp [startsWith, isHexMark, hc]
  | case3 cs h =>
    rw [if_neg]
    intro hmark
    cases cs with
    | nil => simp [startsWith] at hmark
    | cons c cs =>
      cases cs with
      | nil => simp [startsWith] at hmark
      | cons d cs =>
        simp only [startsWith, Bool.and_eq_true, beq_iff_eq] at hmark
        exact h d cs (by rw [hmark.1])

theorem length_takeWhile_eq_zero (cs : List Char) :
    (cs.takeWhile P).length = 0 ↔ startsWith P cs = false := by
  cases cs with
  | nil => simp [startsWith]
  | cons c cs => cases hc : P c <;> simp [startsWith, hc]

theorem pointLength_eq (cs : List Char) :
    pointLength cs =
      if startsWith (· == '.') cs && startsWith Char.isDigit (cs.drop 1) then
        1 + ((cs.drop 1).takeWhile Char.isDigit).length
      else 0 := by
  fun_cases pointLength cs with
  | case1 cs digits h =>
    rw [length_takeWhile_eq_zero] at h
    simp [h]
  | case2 cs digits h =>
    rw [length_takeWhile_eq_zero, Bool.not_eq_false] at h
    have hpoint : startsWith (· == '.') ('.' :: cs) = true := rfl
    simp [h, hpoint, digits, Nat.add_comm]
  | case3 cs h =>
    rw [if_neg]
    intro hmark
    cases cs with
    | nil => simp [startsWith] at hmark
    | cons c cs =>
      simp only [startsWith, Bool.and_eq_true, beq_iff_eq] at hmark
      exact h cs (by rw [hmark.1])

theorem exponentLength_eq (cs : List Char) :
    exponentLength cs =
      if startsWith isExponentMark cs then
        let sign := if startsWith isSign (cs.drop 1) then 1 else 0
        let digits := ((cs.drop (1 + sign)).takeWhile Char.isDigit).length
        (1 + sign + digits, digits != 0)
      else (0, true) := by
  cases cs with
  | nil => rfl
  | cons c cs =>
    have hdrop (k : Nat) : (c :: cs).drop (1 + k) = cs.drop k := by
      rw [Nat.add_comm, List.drop_succ_cons]
    rw [exponentLength]
    simp only [hdrop]
    rfl

theorem asciiClass_isHexMark : AsciiClass isHexMark :=
  (asciiClass_eq (by decide) (by decide)).or (asciiClass_eq (by decide) (by decide))

theorem asciiClass_isExponentMark : AsciiClass isExponentMark :=
  (asciiClass_eq (by decide) (by decide)).or (asciiClass_eq (by decide) (by decide))

theorem asciiClass_isSign : AsciiClass isSign :=
  (asciiClass_eq (by decide) (by decide)).or (asciiClass_eq (by decide) (by decide))

theorem asciiClass_point : AsciiClass (· == '.') :=
  asciiClass_eq (by decide) (by decide)

theorem pointEnd_along :
    pointEnd (along before cs p n) = some (along before cs p (n + pointLength (cs.drop n))) := by
  rw [pointEnd, look_along_second asciiClass_point asciiClass_isDigit, pointLength_eq,
    List.drop_drop]
  split
  · rename_i h
    rw [Bool.and_eq_true] at h
    rw [next_along asciiClass_point h.1, advanceOver_along asciiClass_isDigit, Nat.add_assoc]
  · rfl

/-- Digits are read up to their end, and it can be seen from the offsets whether there are any. -/
theorem digits_along (hP : AsciiClass P) :
    (do
      let stop ← (along before cs p n).advanceOver P
      return (stop, decide ((along before cs p n).offset < stop.offset)) :
        Option (ByteCursor × Bool)) =
      some (along before cs p (n + ((cs.drop n).takeWhile P).length),
        ((cs.drop n).takeWhile P).length != 0) := by
  have hle : ((cs.drop n).takeWhile P).length ≤ (cs.drop n).length :=
    (List.takeWhile_prefix P).length_le
  rw [advanceOver_along hP]
  exact congrArg (fun found => some (_, found)) (offset_along_lt hle)

theorem exponentEnd_along :
    exponentEnd (along before cs p n) =
      some (along before cs p (n + (exponentLength (cs.drop n)).1),
        (exponentLength (cs.drop n)).2) := by
  rw [exponentEnd, look_along asciiClass_isExponentMark, exponentLength_eq, List.drop_drop]
  split
  · rename_i h
    rw [next_along asciiClass_isExponentMark h, look_along asciiClass_isSign]
    split
    · rename_i hsign
      rw [next_along asciiClass_isSign hsign, digits_along asciiClass_isDigit]
      simp [Nat.add_assoc]
    · rw [digits_along asciiClass_isDigit]
      simp [Nat.add_assoc]
  · rfl

/-- The readers of numerals agree on where a numeral ends. -/
theorem numeralEnd_between :
    numeralEnd (between before cs p) =
      some (along before cs p (numeralLength cs).1, (numeralLength cs).2) := by
  have hzero : AsciiClass (· == '0') := asciiClass_eq (by decide) (by decide)
  rw [numeralEnd, look_second hzero asciiClass_isHexMark, numeralLength, hexDigits?_eq]
  split
  · rename_i h
    rw [Bool.and_eq_true] at h
    have hfirst : (between before cs p).next = along before cs p 1 := by
      rw [← along_zero, next_along hzero (by simpa using h.1)]
    have hempty (digits : List Char) : (digits.length != 0) = !digits.isEmpty := by
      cases digits <;> rfl
    rw [hfirst, next_along asciiClass_isHexMark h.2, digits_along asciiClass_isHexDigit, hempty]
  · rw [advanceOver_between asciiClass_isDigit]
    change (pointEnd _ >>= exponentEnd) = _
    rw [pointEnd_along]
    change exponentEnd _ = _
    rw [exponentEnd_along]

theorem hexValue_lt (h : isHexDigit c = true) : hexValue c < 16 := by
  simp only [isHexDigit, Char.isDigit, Bool.or_eq_true, Bool.and_eq_true, decide_eq_true_eq,
    Char.le_def, ge_iff_le, UInt32.le_iff_toNat_le] at h
  simp only [hexValue, Char.isDigit, Bool.and_eq_true, decide_eq_true_eq, Char.le_def, ge_iff_le,
    UInt32.le_iff_toNat_le, Char.toNat]
  have hzero : '0'.val.toNat = 48 := rfl
  have hnine : '9'.val.toNat = 57 := rfl
  have ha : 'a'.val.toNat = 97 := rfl
  have hf : 'f'.val.toNat = 102 := rfl
  have hA : 'A'.val.toNat = 65 := rfl
  have hF : 'F'.val.toNat = 70 := rfl
  split_ifs <;> omega

/-- The digits of a code fit a byte together with those before them. -/
theorem exists_codeDigits {value : UInt8} (hc : IsAscii c)
    (hfits : (value.toNat + 1) * 16 ^ n ≤ 256) :
    ∃ code b, codeDigits n value (between before (c :: cs) p) = some (code, b) ∧
      code.toNat = ((cs.takeWhile isHexDigit).take n).foldl
        (fun v d => 16 * v + hexValue d) value.toNat ∧
      b.next = along before (c :: cs) p (1 + ((cs.takeWhile isHexDigit).take n).length) := by
  have hstop : (between before (c :: cs) p).next = along before (c :: cs) p 1 := by
    rw [next_ascii hc]
    simp
  induction n generalizing before c cs p value with
  | zero => exact ⟨value, _, rfl, rfl, hstop⟩
  | succ n ih =>
    have hlook : isHexDigit ((between before (c :: cs) p).look 1) = startsWith isHexDigit cs := by
      rw [look_succ hc, look_class asciiClass_isHexDigit]
    cases hd : startsWith isHexDigit cs with
    | false =>
      rw [codeDigits, hlook, hd, takeWhile_eq_nil hd]
      exact ⟨value, _, rfl, rfl, hstop⟩
    | true =>
      obtain ⟨d, ds, rfl, hdigit⟩ := exists_cons_of_startsWith hd
      have hascii : IsAscii d := asciiClass_isHexDigit.ascii hdigit
      have hvalue : hexValue ((between before (c :: d :: ds) p).look 1) = hexValue d := by
        rw [look_succ hc, look_between, lead_ascii hascii]
      have hlt := hexValue_lt hdigit
      have hnext : (16 * value.toNat + hexValue d + 1) * 16 ^ n ≤ 256 := by
        calc (16 * value.toNat + hexValue d + 1) * 16 ^ n
          _ ≤ ((value.toNat + 1) * 16) * 16 ^ n := Nat.mul_le_mul_right _ (by omega)
          _ = (value.toNat + 1) * 16 ^ (n + 1) := by ring
          _ ≤ 256 := hfits
      have hbyte : 16 * value.toNat + hexValue d < 256 :=
        Nat.le_trans (Nat.le_mul_of_pos_right _ (Nat.pow_pos (by decide))) hnext
      have htoNat : (UInt8.ofNat (16 * value.toNat + hexValue d)).toNat =
          16 * value.toNat + hexValue d := by
        rw [UInt8.toNat_ofNat']
        omega
      obtain ⟨code, b, hread, hcode, hb⟩ :
          ∃ code b, codeDigits n (UInt8.ofNat (16 * value.toNat + hexValue d))
            (between (before ++ [c]) (d :: ds) (p.step c)) = some (code, b) ∧ _ ∧ _ :=
        ih hascii (by rw [htoNat]; exact hnext) (by rw [next_ascii hascii]; simp)
      refine ⟨code, b, ?_, ?_, ?_⟩
      · rw [codeDigits, hlook, hd, hvalue, byte?, if_pos hbyte, next_ascii hc]
        exact hread
      · rw [hcode, htoNat, List.takeWhile_cons_of_pos hdigit, List.take_succ_cons, List.foldl_cons]
      · rw [hb, List.takeWhile_cons_of_pos hdigit, List.take_succ_cons, List.length_cons,
          Nat.add_comm, Nat.add_comm 1, along_succ, along_succ, along_succ]

theorem byte_ascii (h : IsAscii c) :
    [(between before (c :: cs) p).byte 0] = String.utf8EncodeChar c := by
  rw [byte_char c.utf8Size_pos, h.encodeChar]
  rfl

/-- Every decimal digit has a color. -/
theorem exists_color (h : c.isDigit = true) :
    ∃ color, colorCodes[digitValue c]? = some color ∧ IsAscii color := by
  have hlt : digitValue c < colorCodes.length := by
    simp only [Char.isDigit, Bool.and_eq_true, decide_eq_true_eq, ge_iff_le,
      UInt32.le_iff_toNat_le] at h
    have hnine : c.toNat ≤ 57 := h.2
    have hlength : colorCodes.length = 10 := rfl
    have hzero : '0'.toNat = 48 := rfl
    rw [digitValue]
    omega
  have hascii : colorCodes.all (fun color => decide (IsAscii color)) = true := by decide
  have hcolor := List.all_eq_true.1 hascii _ (List.getElem_mem hlt)
  exact ⟨colorCodes[digitValue c], List.getElem?_eq_getElem hlt, of_decide_eq_true hcolor⟩

theorem ofNat_toNat (b : UInt8) : Char.ofNat b.toNat = Char.ofUInt8 b := by
  have hlt := b.toNat_lt
  have hvalid : b.toNat.isValidChar := Or.inl (by omega)
  apply Char.toNat_inj.mp
  rw [toNat_ofUInt8, Char.ofNat, dif_pos hvalid]
  rfl

theorem escape_code (h : startsWith isHexDigit cs = true) :
    escape (between before ('x' :: cs) p) =
      some (String.utf8EncodeChar (Escape.meaning 'x' cs).1,
        along before ('x' :: cs) p (1 + (Escape.meaning 'x' cs).2)) := by
  have hlook : (between before ('x' :: cs) p).look 0 = 'x' := by
    rw [look_between, lead_ascii (by decide)]
  have hhex : isHexDigit ((between before ('x' :: cs) p).look 1) = true := by
    rw [look_succ (by decide), look_class asciiClass_isHexDigit, h]
  have hx : IsAscii 'x' := by decide
  obtain ⟨code, b, hread, hcode, hb⟩ :
      ∃ code b, codeDigits 2 0 (between before ('x' :: cs) p) = some (code, b) ∧ _ ∧ _ :=
    exists_codeDigits hx (by decide)
  have hvalue : hexadecimalValue ((cs.takeWhile isHexDigit).take 2) = code.toNat := hcode.symm
  rw [escape, hlook, hhex, hread, meaning_code h, hvalue, ofNat_toNat, ← hb]
  rfl

theorem escape_color (h : startsWith Char.isDigit cs = true) :
    escape (between before ('c' :: cs) p) =
      some (String.utf8EncodeChar (Escape.meaning 'c' cs).1,
        along before ('c' :: cs) p (1 + (Escape.meaning 'c' cs).2)) := by
  obtain ⟨d, cs, rfl, hd⟩ := exists_cons_of_startsWith h
  have hascii : IsAscii d := asciiClass_isDigit.ascii hd
  have hlook : (between before ('c' :: d :: cs) p).look 0 = 'c' := by
    rw [look_between, lead_ascii (by decide)]
  have hnext : (between before ('c' :: d :: cs) p).look 1 = d := by
    rw [look_succ (by decide), look_between, lead_ascii hascii]
  obtain ⟨color, hcolor, hcode⟩ := exists_color hd
  have hmeaning : colorCodes.getD (digitValue d) 'c' = color := by
    rw [List.getD_eq_getElem?_getD, hcolor, Option.getD_some]
  rw [escape, hlook, hnext, next_ascii (by decide), next_ascii hascii, hd, hcolor,
    meaning_color hd, hmeaning, hcode.encodeChar]
  simp
  rfl

theorem escape_between (hc : IsAscii c) :
    escape (between before (c :: cs) p) =
      some (String.utf8EncodeChar (Escape.meaning c cs).1,
        along before (c :: cs) p (1 + (Escape.meaning c cs).2)) := by
  have hlook : (between before (c :: cs) p).look 0 = c := by rw [look_between, lead_ascii hc]
  have hnext : (between before (c :: cs) p).next = along before (c :: cs) p 1 := by
    rw [next_ascii hc]
    simp
  by_cases hcode : c = 'x' ∧ startsWith isHexDigit cs = true
  · obtain ⟨rfl, h⟩ := hcode
    exact escape_code h
  by_cases hcolor : c = 'c' ∧ startsWith Char.isDigit cs = true
  · obtain ⟨rfl, h⟩ := hcolor
    exact escape_color h
  by_cases hplain : c ∈ ['n', 't', 'r']
  · simp only [List.mem_cons, List.not_mem_nil, or_false] at hplain
    rcases hplain with rfl | rfl | rfl <;> rw [escape, hlook, hnext] <;> rfl
  · have hhex : ¬ (c == 'x' && isHexDigit ((between before (c :: cs) p).look 1)) = true := by
      rw [look_succ hc, look_class asciiClass_isHexDigit]
      simpa using hcode
    have hdigit : ¬ (c == 'c' && ((between before (c :: cs) p).look 1).isDigit) = true := by
      rw [look_succ hc, look_class asciiClass_isDigit]
      simpa using hcolor
    have hother : c ≠ 'n' ∧ c ≠ 't' ∧ c ≠ 'r' := by simpa using hplain
    rw [meaning_self hplain hcode hcolor, escape, hlook, byte_ascii hc, hnext, if_neg hhex,
      if_neg hdigit]
    simp [hother]

theorem meaning_not_ascii (hc : ¬ IsAscii c) (cs : List Char) : Escape.meaning c cs = (c, 0) := by
  have hne {d : Char} (hd : IsAscii d) : c ≠ d := by
    rintro rfl
    exact hc hd
  refine meaning_self ?_ (fun h => hne (by decide) h.1) (fun h => hne (by decide) h.1)
  simp [hne (d := 'n') (by decide), hne (d := 't') (by decide), hne (d := 'r') (by decide)]

/-- Of a character outside ASCII the first byte is taken, as if there were no backslash. -/
theorem escape_not_ascii (hc : ¬ IsAscii c) :
    escape (between before (c :: cs) p) =
      some ([(between before (c :: cs) p).byte 0], (between before (c :: cs) p).next) := by
  have hne {d : Char} (hd : IsAscii d) : (between before (c :: cs) p).look 0 ≠ d := by
    refine look_ne hd ?_ c.utf8Size_pos
    rintro rfl
    exact hc hd
  simp [escape, hne (d := 'n') (by decide), hne (d := 't') (by decide), hne (d := 'r') (by decide),
    hne (d := 'x') (by decide), hne (d := 'c') (by decide)]

section

variable {quote : Char} {buffer : List UInt8} {b : ByteCursor}

/-- The cursor is at a byte that a quoted text goes on with. -/
structure GoesOn (quote : Char) (b : ByteCursor) : Prop where
  open_ : b.atEnd = false
  line : b.look 0 ≠ '\n'
  quote : b.look 0 ≠ quote
  escape : b.look 0 ≠ '\\'

theorem GoesOn.quotedBytes (h : GoesOn quote b) :
    quotedBytes quote buffer b = ByteCursor.quotedBytes quote (buffer ++ [b.byte 0]) b.next := by
  rw [ByteCursor.quotedBytes]
  simp [h.open_, h.line, h.quote, h.escape]

theorem goesOn_char (hquote : IsAscii quote) (hc : c ≠ quote) (hline : c ≠ '\n')
    (hescape : c ≠ '\\') {i : Nat} (hi : i < c.utf8Size) :
    GoesOn quote ((between before (c :: cs) p).advance i) where
  open_ := atEnd_advance hi
  line := by
    rw [look_advance]
    exact look_ne (by decide) hline hi
  quote := by
    rw [look_advance]
    exact look_ne hquote hc hi
  escape := by
    rw [look_advance]
    exact look_ne (by decide) hescape hi

theorem next_advance (n : Nat) (b : ByteCursor) : (b.advance n).next = b.advance (n + 1) := by
  induction n generalizing b with
  | zero => rfl
  | succ n ih => exact ih b.next

theorem quotedBytes_advance (h : ∀ i < n, GoesOn quote (b.advance i)) :
    quotedBytes quote buffer b =
      quotedBytes quote (buffer ++ (List.range n).map b.byte) (b.advance n) := by
  induction n with
  | zero => simp [advance]
  | succ n ih =>
    have hbyte : (b.advance n).byte 0 = b.byte n := byte_advance n 0 b
    rw [ih fun i hi => h i (Nat.lt_succ_of_lt hi), (h n (Nat.lt_succ_self n)).quotedBytes, hbyte,
      next_advance, List.append_assoc, List.range_succ, List.map_append, List.map_singleton]

theorem map_byte_char :
    (List.range c.utf8Size).map (between before (c :: cs) p).byte = String.utf8EncodeChar c := by
  apply List.ext_getElem
  · simp
  · intro i hi hi'
    rw [String.length_utf8EncodeChar] at hi'
    rw [List.getElem_map, List.getElem_range, byte_char hi', List.getD_eq_getElem]

/-- A character that is not special goes into the buffer with all its bytes. -/
theorem quotedBytes_plain (hquote : IsAscii quote) (hc : c ≠ quote) (hline : c ≠ '\n')
    (hescape : c ≠ '\\') :
    quotedBytes quote buffer (between before (c :: cs) p) =
      quotedBytes quote (buffer ++ String.utf8EncodeChar c)
        (between (before ++ [c]) cs (p.step c)) := by
  rw [quotedBytes_advance fun i => goesOn_char hquote hc hline hescape, map_byte_char, advance_char]

theorem isAscii_of_isQuote (h : isQuote quote = true) : IsAscii quote := by
  rcases Bool.or_eq_true_iff.mp h with h | h <;> rw [beq_iff_eq.mp h] <;> decide

/-- An escape puts the bytes of what it stands for into the buffer. -/
theorem quotedBytes_escape (hquote : isQuote quote = true) :
    quotedBytes quote buffer (between before ('\\' :: c :: cs) p) =
      quotedBytes quote (buffer ++ String.utf8EncodeChar (Escape.meaning c cs).1)
        (along before ('\\' :: c :: cs) p (2 + (Escape.meaning c cs).2)) := by
  have hlook : (between before ('\\' :: c :: cs) p).look 0 = '\\' := by
    rw [look_between, lead_ascii (by decide)]
  have hend : (between before ('\\' :: c :: cs) p).atEnd = false := atEnd_between
  have hnext : (between before ('\\' :: c :: cs) p).next =
      between (before ++ ['\\']) (c :: cs) (p.step '\\') := next_ascii (by decide)
  have hne : '\\' ≠ quote := by
    rintro rfl
    exact absurd hquote (by decide)
  have hopened : quotedBytes quote buffer (between before ('\\' :: c :: cs) p) =
      escape (between (before ++ ['\\']) (c :: cs) (p.step '\\')) >>= fun found =>
        quotedBytes quote (buffer ++ found.1) found.2 := by
    rw [quotedBytes, hend, hlook, hnext, atEnd_between]
    simp [hne]
  rw [hopened]
  by_cases hc : IsAscii c
  · have halong (n : Nat) : along before ('\\' :: c :: cs) p (2 + n) =
        along (before ++ ['\\']) (c :: cs) (p.step '\\') (1 + n) := by
      rw [Nat.add_comm, ← along_succ, Nat.add_comm 1]
    rw [escape_between hc, halong]
    rfl
  · -- The loop takes up the other bytes where the escape leaves them, as it would without escape.
    have hplain {d : Char} (hd : IsAscii d) : c ≠ d := by
      rintro rfl
      exact hc hd
    have hquote' := isAscii_of_isQuote hquote
    have hgoes : GoesOn quote (between (before ++ ['\\']) (c :: cs) (p.step '\\')) :=
      goesOn_char hquote' (hplain hquote') (hplain (by decide)) (hplain (by decide)) c.utf8Size_pos
    rw [escape_not_ascii hc, meaning_not_ascii hc]
    change quotedBytes quote _ _ = _
    rw [← hgoes.quotedBytes,
      quotedBytes_plain hquote' (hplain hquote') (hplain (by decide)) (hplain (by decide))]
    simp

/-- The outcome of collecting bytes, told by the characters of the quoted text. -/
def collected (quote : Char) (buffer : List UInt8) (before cs : List Char) (p : Position) :
    Option (List UInt8) × ByteCursor :=
  let (text, closed) := Scan.quotedText quote cs
  if closed then (some (buffer ++ encode (decode text)), along before cs p (text.length + 1))
  else (none, along before cs p text.length)

theorem collected_plain (hc : c ≠ quote) (hline : c ≠ '\n') (hescape : c ≠ '\\') :
    collected quote buffer before (c :: cs) p =
      collected quote (buffer ++ String.utf8EncodeChar c) (before ++ [c]) cs (p.step c) := by
  rw [collected, collected, quotedText_plain hc hline hescape]
  cases hclosed : (Scan.quotedText quote cs).2 <;> simp [decode_plain hescape, hclosed]

theorem collected_escape (hquote : isQuote quote = true) :
    let n := 2 + (Escape.meaning c cs).2
    collected quote buffer before ('\\' :: c :: cs) p =
      collected quote (buffer ++ String.utf8EncodeChar (Escape.meaning c cs).1)
        (before ++ ('\\' :: c :: cs).take n) (('\\' :: c :: cs).drop n)
        (p.after (('\\' :: c :: cs).take n)) := by
  intro n
  have hdrop : ('\\' :: c :: cs).drop n = cs.drop (Escape.meaning c cs).2 := by
    simp only [n, Nat.add_comm 2]
    rfl
  have hrest := (isPlain_isHexDigit hquote).quotedText_drop (meaning_le c cs)
  have hmeaning := meaning_quotedText hquote c cs
  have hle : (Escape.meaning c cs).2 ≤ (Scan.quotedText quote cs).1.length := by
    rw [← hmeaning]
    exact Nat.le_trans (meaning_le c _) (List.takeWhile_prefix _).length_le
  have hlength : n + ((Scan.quotedText quote cs).1.drop (Escape.meaning c cs).2).length =
      ('\\' :: c :: (Scan.quotedText quote cs).1).length := by
    simp only [List.length_drop, List.length_cons, n]
    omega
  rw [collected, collected, quotedText_escape hquote, hdrop, hrest, ← hdrop]
  cases (Scan.quotedText quote cs).2 with
  | false => simp [along_along, ← hlength]
  | true => simp [along_along, ← hlength, decode_escape, hmeaning, Nat.add_assoc]

/-- The bytes collected for a quoted text are those of its content. They end where the text does,
and there are none if it is not closed. -/
theorem quotedBytes_between (hquote : isQuote quote = true) :
    quotedBytes quote buffer (between before cs p) =
      some (collected quote buffer before cs p) := by
  have hascii : IsAscii quote := isAscii_of_isQuote hquote
  induction hlength : cs.length using Nat.strong_induction_on generalizing buffer before cs p with
  | _ k ih =>
    cases cs with
    | nil =>
      rw [quotedBytes, atEnd_between]
      simp [collected, Scan.quotedText]
    | cons c cs =>
      have hopen : (between before (c :: cs) p).atEnd = false := atEnd_between
      by_cases hc : c = quote
      · subst hc
        have hline : c ≠ '\n' := by
          rintro rfl
          exact absurd hquote (by decide)
        rw [quotedBytes, hopen, look_between, lead_ascii hascii, next_ascii hascii]
        simp [collected, quotedText_end, hline, decode]
      by_cases hline : c = '\n'
      · subst hline
        rw [quotedBytes, look_between, lead_ascii (by decide)]
        simp [collected, quotedText_break hc]
      by_cases hescape : c = '\\'
      · subst hescape
        cases cs with
        | nil =>
          rw [quotedBytes, hopen, look_between, lead_ascii (by decide), next_ascii (by decide),
            atEnd_between]
          simp [collected, Scan.quotedText, hc]
        | cons d ds =>
          rw [quotedBytes_escape hquote, collected_escape hquote]
          refine ih _ ?_ rfl
          simp only [← hlength, List.length_drop, List.length_cons]
          omega
      · rw [quotedBytes_plain hascii hc hline hescape, collected_plain hc hline hescape]
        exact ih _ (by simp [← hlength]) rfl

/-- A quoted text is read with the content that the reader of characters finds. -/
theorem quotedText_between (hquote : isQuote c = true) :
    quotedText (between before (c :: cs) p) =
      let found := Scan.quotedText c cs
      some (if found.2 then
        (.ok (.text (String.ofList (unescape found.1))),
          along before (c :: cs) p (found.1.length + 1 + 1))
      else (.error .unterminatedText, along before (c :: cs) p (found.1.length + 1))) := by
  have hascii : IsAscii c := isAscii_of_isQuote hquote
  rw [quotedText, look_between, lead_ascii hascii, next_ascii hascii, quotedBytes_between hquote,
    collected]
  cases hclosed : (Scan.quotedText c cs).2 with
  | false => simp [hclosed]
  | true => simp [hclosed, decodeLossy_encode, unescape_eq_decode]

end

/-- What the reader of characters finds at `c`, with the place after it. -/
def reading (before : List Char) (c : Char) (cs : List Char) (p : Position) :
    Except Defect Token × ByteCursor :=
  match Scan.lexeme c cs with
  | .ok (token, n) => (.ok token, along before (c :: cs) p (n + 1))
  | .error (defect, n) => (.error defect, along before (c :: cs) p n)

theorem numeral_between (hletter : isLetter c = false)
    (hnumeral : (c.isDigit || c == '.' && startsWith Char.isDigit cs) = true) :
    numeral (between before (c :: cs) p) = some (reading before c cs p) := by
  have hpos := numeralLength_pos hnumeral
  have hspoiled : AsciiClass fun d => isNameChar d || d == '.' :=
    asciiClass_isNameChar.or asciiClass_point
  rw [numeral, numeralEnd_between, reading, Scan.lexeme, if_neg (by simp [hletter]),
    if_pos hnumeral]
  simp only [Option.bind_eq_bind, Option.bind_some, look_along asciiClass_isNameChar,
    advanceOver_along hspoiled, textTo_along]
  split
  · have hlength : (numeralLength (c :: cs)).1 - 1 + 1 = (numeralLength (c :: cs)).1 := by omega
    simp only [hlength]
    rfl
  · rfl

theorem asciiClass_dollar : AsciiClass (· == '$') :=
  asciiClass_eq (by decide) (by decide)

theorem asciiClass_percent : AsciiClass (· == '%') :=
  asciiClass_eq (by decide) (by decide)

theorem word_between (hletter : isLetter c = true) :
    lexeme (between before (c :: cs) p) = some (reading before c cs p) := by
  have hname : isNameChar c = true := by simp [isNameChar, hletter]
  have hlook : isLetter ((between before (c :: cs) p).look 0) = true := by
    rw [look_class asciiClass_isLetter]
    exact hletter
  have hlength : ((c :: cs).takeWhile isNameChar).length =
      (cs.takeWhile isNameChar).length + 1 := by
    rw [List.takeWhile_cons_of_pos hname, List.length_cons]
  have htake : (c :: cs).take ((cs.takeWhile isNameChar).length + 1) =
      c :: cs.takeWhile isNameChar := by
    rw [List.take_succ_cons, take_takeWhile]
  rw [lexeme, if_pos hlook, advanceOver_between asciiClass_isNameChar, hlength, reading,
    Scan.lexeme, if_pos hletter]
  simp only [Option.bind_eq_bind, Option.bind_some, textTo_along, htake,
    look_along asciiClass_dollar, List.drop_succ_cons]
  cases Keyword.ofName? (String.ofList (c :: cs.takeWhile isNameChar)) with
  | none => rfl
  | some k =>
    by_cases hk : k = .switch
    · subst hk
      cases h : startsWith (· == '$') (cs.drop (cs.takeWhile isNameChar).length) with
      | false => rfl
      | true =>
        have hnext : (along before (c :: cs) p ((cs.takeWhile isNameChar).length + 1)).next =
            along before (c :: cs) p ((cs.takeWhile isNameChar).length + 1 + 1) :=
          next_along asciiClass_dollar h
        simp only [hnext]
        rfl
    · cases k <;> first | rfl | exact absurd rfl hk

theorem skipPath_sign (hc : IsAscii c) :
    (between before (c :: cs) p).next.skipPath =
      some (along before (c :: cs) p ((variablePath cs).length + 1)) := by
  rw [next_ascii hc, skipPath_between, along_succ]

theorem textTo_sign (hc : IsAscii c) :
    (between before (c :: cs) p).next.textTo
        (along before (c :: cs) p ((variablePath cs).length + 1)) =
      some (String.ofList (variablePath cs)) := by
  rw [next_ascii hc, along_succ, textTo_along,
    ← List.prefix_iff_eq_take.1 (variablePath_isPrefix cs)]

theorem advance_ascii {ds : List Char} (h : ds.all (fun d => decide (IsAscii d)) = true) :
    (between before (ds ++ cs) p).advance ds.length =
      between (before ++ ds) cs (p.after ds) := by
  induction ds generalizing before p with
  | nil => simp [advance, Position.after]
  | cons d ds ih =>
    obtain ⟨hd, hds⟩ : IsAscii d ∧ ds.all (fun d => decide (IsAscii d)) = true := by
      simpa only [List.all_cons, Bool.and_eq_true, decide_eq_true_eq] using h
    rw [List.cons_append, List.length_cons, advance, next_ascii hd, ih hds, List.append_assoc]
    rfl

theorem advance_symbol {x : Symbol} (h : Symbol.leading? cs = some x) :
    (between before cs p).advance x.spelling.length = along before cs p x.spelling.length := by
  have hprefix := List.find?_some h
  rw [List.isPrefixOf_iff_prefix] at hprefix
  obtain ⟨rest, rfl⟩ := hprefix
  have hascii : x.spelling.toList.all (fun d => decide (IsAscii d)) = true := by
    have hall := spelling_ascii x x.mem_all
    simp only [List.all_eq_true, Bool.and_eq_true] at hall ⊢
    exact fun d hd => (hall d hd).1
  rw [along, ← String.length_toList, advance_ascii hascii, List.take_left, List.drop_left]

theorem asciiClass_isQuote : AsciiClass isQuote :=
  (asciiClass_eq (by decide) (by decide)).or (asciiClass_eq (by decide) (by decide))

/-- Both readers read the same token or find the same mistake, and go on from the same place. -/
theorem lexeme_between :
    lexeme (between before (c :: cs) p) = some (reading before c cs p) := by
  cases hletter : isLetter c with
  | true => exact word_between hletter
  | false =>
    have hlook : isLetter ((between before (c :: cs) p).look 0) = false := by
      rw [look_class asciiClass_isLetter]
      exact hletter
    have hdigits : (((between before (c :: cs) p).look 0).isDigit ||
        (between before (c :: cs) p).look 0 == '.' &&
          ((between before (c :: cs) p).look 1).isDigit) =
        (c.isDigit || c == '.' && startsWith Char.isDigit cs) := by
      rw [look_second asciiClass_point asciiClass_isDigit, look_class asciiClass_isDigit]
      rfl
    rw [lexeme, if_neg (by simp [hlook]), hdigits]
    cases hnumeral : (c.isDigit || c == '.' && startsWith Char.isDigit cs) with
    | true => exact numeral_between hletter hnumeral
    | false =>
      have hquote : ((between before (c :: cs) p).look 0 == '\x22' ||
          (between before (c :: cs) p).look 0 == '\x27') = (c == '\x22' || c == '\x27') :=
        look_class asciiClass_isQuote
      have hlocal : ((between before (c :: cs) p).look 0 == '%' &&
          isLetter ((between before (c :: cs) p).look 1)) = (c == '%' && startsWith isLetter cs) :=
        look_second asciiClass_percent asciiClass_isLetter
      have hglobal : ((between before (c :: cs) p).look 0 == '$' &&
          (isLetter ((between before (c :: cs) p).look 1) ||
            (between before (c :: cs) p).look 1 == ':')) =
          (c == '$' && startsWith (fun d => isLetter d || d == ':') cs) :=
        look_second asciiClass_dollar (asciiClass_isLetter.or asciiClass_colon)
      rw [if_neg Bool.false_ne_true, hquote, hlocal, hglobal, reading, Scan.lexeme,
        if_neg (Bool.eq_false_iff.1 hletter), if_neg (Bool.eq_false_iff.1 hnumeral)]
      split
      · rename_i h
        rw [quotedText_between h]
        cases hclosed : (Scan.quotedText c cs).2 <;> simp [hclosed]
      split
      · rename_i h
        obtain ⟨rfl, -⟩ : c = '%' ∧ _ := by simpa using h
        have hsign : IsAscii '%' := by decide
        simp only [skipPath_sign hsign, textTo_sign hsign, Option.bind_eq_bind, Option.bind_some]
        rfl
      split
      · rename_i h
        obtain ⟨rfl, -⟩ : c = '$' ∧ _ := by simpa using h
        have hsign : IsAscii '$' := by decide
        simp only [skipPath_sign hsign, textTo_sign hsign, Option.bind_eq_bind, Option.bind_some]
        rfl
      rw [find?_sees]
      cases hx : Symbol.leading? (c :: cs) with
      | none =>
        have hdrop : dropBytes? (between before (c :: cs) p).offset
            (between before (c :: cs) p).source = some (c :: cs) := dropBytes?_byteLength before _
        simp only [hdrop, Option.bind_eq_bind, Option.bind_some, along_zero]
        rfl
      | some x =>
        have hpos : x.spelling.length - 1 + 1 = x.spelling.length := by
          have hne := List.length_pos_iff.2 (spelling_ne_nil x x.mem_all)
          rw [String.length_toList] at hne
          omega
        simp only [advance_symbol hx, hpos]
        rfl

end ByteCursor

end TorqueScript
