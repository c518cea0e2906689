import TorqueScript.Proofs.Token.Positions

/-!
Texts as bytes. Every byte of a character outside ASCII lies outside ASCII as well, so a
reader that goes by bytes and looks for ASCII characters finds them where they are, and
nowhere else. Cutting at the ends of characters gives back whole texts. Bytes that may be
no text at all are decoded with a mark in place of what is malformed; the bytes of a text
are decoded without any.
-/

namespace TorqueScript.Text

/-- The bytes of a text. -/
def encode (cs : List Char) : List UInt8 :=
  cs.flatMap String.utf8EncodeChar

@[simp]
theorem encode_nil : encode [] = [] := rfl

@[simp]
theorem encode_cons (c : Char) (cs : List Char) :
    encode (c :: cs) = String.utf8EncodeChar c ++ encode cs :=
  List.flatMap_cons

@[simp]
theorem encode_append (cs ds : List Char) : encode (cs ++ ds) = encode cs ++ encode ds :=
  List.flatMap_append

@[simp]
theorem length_encode (cs : List Char) : (encode cs).length = byteLength cs := by
  induction cs with
  | nil => rfl
  | cons c cs ih => simp [String.length_utf8EncodeChar, ih]

def IsAscii (c : Char) : Prop :=
  c.toNat < 128

instance (c : Char) : Decidable (IsAscii c) :=
  inferInstanceAs (Decidable (_ < _))

theorem toNat_ofUInt8 (b : UInt8) : (Char.ofUInt8 b).toNat = b.toNat :=
  UInt8.toNat_toUInt32 b

section

variable {c : Char}

theorem IsAscii.utf8Size (h : IsAscii c) : c.utf8Size = 1 := by
  rw [Char.utf8Size_eq_one_iff, UInt32.le_iff_toNat_le]
  exact Nat.le_of_lt_succ h

theorem IsAscii.encodeChar (h : IsAscii c) :
    String.utf8EncodeChar c = [UInt8.ofNat c.toNat] := by
  have hle : c.val.toNat ≤ 127 := Nat.le_of_lt_succ h
  simp only [String.utf8EncodeChar, hle, if_true]
  rfl

theorem IsAscii.ofUInt8 (h : IsAscii c) : Char.ofUInt8 (UInt8.ofNat c.toNat) = c := by
  have hlt : c.toNat < 128 := h
  apply Char.toNat_inj.mp
  rw [toNat_ofUInt8, UInt8.toNat_ofNat']
  omega

/-- The bytes of a character outside ASCII lie outside ASCII. -/
theorem not_isAscii_of_mem (h : ¬ IsAscii c) {b : UInt8} (hb : b ∈ String.utf8EncodeChar c) :
    ¬ IsAscii (Char.ofUInt8 b) := by
  have hbyte : ∀ n, 128 ≤ n → n < 256 → ¬ IsAscii (Char.ofUInt8 (UInt8.ofNat n)) := by
    intro n hle hlt
    rw [IsAscii, toNat_ofUInt8, UInt8.toNat_ofNat']
    omega
  have hc : ¬ c.val.toNat ≤ 127 := fun hle => h (Nat.lt_succ_of_le hle)
  rw [String.utf8EncodeChar, if_neg hc] at hb
  split at hb
  · simp only [List.mem_cons, List.not_mem_nil, or_false] at hb
    rcases hb with rfl | rfl <;> exact hbyte _ (by omega) (by omega)
  · split at hb
    · simp only [List.mem_cons, List.not_mem_nil, or_false] at hb
      rcases hb with rfl | rfl | rfl <;> exact hbyte _ (by omega) (by omega)
    · simp only [List.mem_cons, List.not_mem_nil, or_false] at hb
      rcases hb with rfl | rfl | rfl | rfl <;> exact hbyte _ (by omega) (by omega)

end

/-- The first byte of a text, taken for a character. Past the end it is the null character. -/
def lead (cs : List Char) : Char :=
  Char.ofUInt8 ((encode cs).headD 0)

theorem lead_ascii {c : Char} (h : IsAscii c) (cs : List Char) : lead (c :: cs) = c := by
  rw [lead, encode_cons, h.encodeChar]
  exact h.ofUInt8

theorem lead_not_ascii {c : Char} (h : ¬ IsAscii c) (cs : List Char) :
    ¬ IsAscii (lead (c :: cs)) := by
  cases hc : String.utf8EncodeChar c with
  | nil => exact absurd hc String.utf8EncodeChar_ne_nil
  | cons b bs =>
    rw [lead, encode_cons, hc]
    exact not_isAscii_of_mem h (by simp [hc])

/-- A class of characters in which there are only ASCII characters, but not the null character. -/
structure AsciiClass (P : Char → Bool) : Prop where
  ascii {c : Char} : P c = true → IsAscii c
  null : P '\x00' = false

namespace AsciiClass

variable {P Q : Char → Bool} (hP : AsciiClass P)

include hP

/-- Whether a character is in the class can be seen from its first byte. -/
theorem lead_cons (c : Char) (cs : List Char) : P (lead (c :: cs)) = P c := by
  by_cases h : IsAscii c
  · rw [lead_ascii h]
  · have hlead := lead_not_ascii h cs
    have hc : P c = false := by
      by_contra hne
      exact h (hP.ascii (by simpa using hne))
    have hl : P (lead (c :: cs)) = false := by
      by_contra hne
      exact hlead (hP.ascii (by simpa using hne))
    rw [hc, hl]

theorem or (hQ : AsciiClass Q) : AsciiClass fun c => P c || Q c where
  ascii h := by
    rcases Bool.or_eq_true_iff.mp h with h | h
    · exact hP.ascii h
    · exact hQ.ascii h
  null := by rw [hP.null, hQ.null]; rfl

end AsciiClass

theorem asciiClass_eq {d : Char} (h : IsAscii d) (hd : d ≠ '\x00') : AsciiClass (· == d) where
  ascii hc := by
    rw [beq_iff_eq] at hc
    exact hc ▸ h
  null := by simpa using hd.symm

theorem dropBytes?_byteLength (before rest : List Char) :
    dropBytes? (byteLength before) (before ++ rest) = some rest := by
  induction before with
  | nil => cases rest <;> rfl
  | cons c before ih =>
    have hc := c.utf8Size_pos
    rw [List.cons_append, dropBytes?, byteLength_cons, if_neg (by omega), if_pos (by omega),
      Nat.add_sub_cancel_left, ih]

theorem takeBytes?_byteLength (text rest : List Char) :
    takeBytes? (byteLength text) (text ++ rest) = some text := by
  induction text with
  | nil => cases rest <;> rfl
  | cons c text ih =>
    have hc := c.utf8Size_pos
    rw [List.cons_append, takeBytes?, byteLength_cons, if_neg (by omega), if_pos (by omega),
      Nat.add_sub_cancel_left, ih]
    rfl

/-- A text is cut out whole between the ends of characters. -/
theorem slice?_byteLength (before text rest : List Char) :
    slice? (byteLength before) (byteLength (before ++ text)) (before ++ (text ++ rest)) =
      some text := by
  rw [slice?, dropBytes?_byteLength, byteLength_append, Nat.add_sub_cancel_left]
  exact takeBytes?_byteLength text rest

theorem exists_of_dropBytes? {n : Nat} {cs rest : List Char} (h : dropBytes? n cs = some rest) :
    ∃ before, cs = before ++ rest ∧ n = byteLength before := by
  fun_induction dropBytes? n cs with
  | case1 =>
    cases h
    exact ⟨[], rfl, rfl⟩
  | case2 => cases h
  | case3 c cs =>
    cases h
    exact ⟨[], rfl, rfl⟩
  | case4 n c cs _ hle ih =>
    obtain ⟨before, rfl, hn⟩ := ih h
    exact ⟨c :: before, rfl, by rw [byteLength_cons]; omega⟩
  | case5 => cases h

theorem exists_of_takeBytes? {n : Nat} {cs text : List Char} (h : takeBytes? n cs = some text) :
    ∃ after, cs = text ++ after ∧ n = byteLength text := by
  fun_induction takeBytes? n cs generalizing text with
  | case1 =>
    cases h
    exact ⟨[], rfl, rfl⟩
  | case2 => cases h
  | case3 c cs =>
    cases h
    exact ⟨c :: cs, rfl, rfl⟩
  | case4 n c cs _ hle ih =>
    obtain ⟨text, htext, rfl⟩ := Option.map_eq_some_iff.1 h
    obtain ⟨after, rfl, hn⟩ := ih htext
    exact ⟨after, rfl, by rw [byteLength_cons]; omega⟩
  | case5 => cases h

/-- What is cut out stands in the text between the two bytes. -/
theorem standsAt_of_slice? {start stop : Nat} {cs text : List Char} (hle : start ≤ stop)
    (h : slice? start stop cs = some text) : StandsAt cs start stop text := by
  obtain ⟨rest, hdrop, htake⟩ := Option.bind_eq_some_iff.1 h
  obtain ⟨before, rfl, hstart⟩ := exists_of_dropBytes? hdrop
  obtain ⟨after, rfl, hstop⟩ := exists_of_takeBytes? htake
  refine ⟨before, after, (List.append_assoc ..).symm, hstart, ?_⟩
  rw [byteLength_append]
  omega

/-- The character that stands for bytes that are part of no character. -/
def replacement : Char := '\ufffd'

/-- The byte goes on with a character. -/
def isTail (b : UInt8) : Bool :=
  0x80 ≤ b && b ≤ 0xBF

/-- The byte can come second in a character of three or four bytes that begins with `first`. -/
def canFollow (first b : UInt8) : Bool :=
  if first = 0xE0 then 0xA0 ≤ b && b ≤ 0xBF
  else if first = 0xED then 0x80 ≤ b && b ≤ 0x9F
  else if first = 0xF0 then 0x90 ≤ b && b ≤ 0xBF
  else if first = 0xF4 then 0x80 ≤ b && b ≤ 0x8F
  else 0xE0 ≤ first && first ≤ 0xF4 && isTail b

/-- How many bytes one mark stands for: as many as begin a character, or else one. -/
def malformedLength : List UInt8 → Nat
  | first :: second :: rest =>
    if canFollow first second then
      if 0xF0 ≤ first && isTail (rest.headD 0) then 3 else 2
    else 1
  | _ => 1

/-- The text of bytes, with marks for those that are part of no character. -/
def decodeLossy : List UInt8 → List Char
  | [] => []
  | b :: bs =>
    match (b :: bs).toByteArray.utf8DecodeChar? 0 with
    | some c => c :: decodeLossy (bs.drop (c.utf8Size - 1))
    | none => replacement :: decodeLossy (bs.drop (malformedLength (b :: bs) - 1))
termination_by bs => bs.length
decreasing_by all_goals simp only [List.length_drop, List.length_cons]; omega

/-- The bytes of a text are decoded to it, without marks. -/
theorem decodeLossy_encode (cs : List Char) : decodeLossy (encode cs) = cs := by
  induction cs with
  | nil => rw [encode_nil, decodeLossy]
  | cons c cs ih =>
    cases hc : String.utf8EncodeChar c with
    | nil => exact absurd hc String.utf8EncodeChar_ne_nil
    | cons b bs =>
      have hencode : encode (c :: cs) = b :: (bs ++ encode cs) := by
        rw [encode_cons, hc, List.cons_append]
      have hdecode : (b :: (bs ++ encode cs)).toByteArray.utf8DecodeChar? 0 = some c := by
        rw [← hencode]
        exact List.utf8DecodeChar?_utf8Encode_cons
      have hsize : c.utf8Size - 1 = bs.length := by
        rw [← String.length_utf8EncodeChar, hc]
        rfl
      rw [hencode, decodeLossy, hdecode]
      simp only [hsize, List.drop_left, ih]

end TorqueScript.Text
