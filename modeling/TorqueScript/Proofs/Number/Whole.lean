import Mathlib.Data.List.TakeWhile
import Mathlib.Tactic.Ring
import TorqueScript.Proofs.Number.Sign

/-!
Small whole numbers are exact. A whole number that the mantissa of a double has room for is
that double and no other: it has no fraction, it is read back as it was, and doubles of such
numbers are ordered as the numbers are. Its digits stand for it, with blanks around them too.
-/

namespace TorqueScript.Number

open Float.Model Float.Model.UnpackedFloat Text

/-- Shifting out zeros leaves no trace in the bits that rounding looks at. -/
theorem shiftRight_exact (m k : Nat) :
    ExtendedMantissa.ofMantissaAndAccuracy (m * 2 ^ k) .exact >>> k =
      ExtendedMantissa.ofMantissaAndAccuracy m .exact := by
  change k.repeat ExtendedMantissa.shiftRightOne _ = _
  induction k generalizing m with
  | zero => simp [Nat.repeat]
  | succ k ih =>
    have hm : m * 2 ^ (k + 1) = m * 2 * 2 ^ k := by ring
    rw [Nat.repeat, hm, ih]
    simp [ExtendedMantissa.shiftRightOne, ExtendedMantissa.ofMantissaAndAccuracy]

/-- A mantissa with all its bits in use. -/
structure Full (m : Nat) : Prop where
  low : 2 ^ 52 ≤ m
  high : m < 2 ^ 53

theorem Full.pos {m : Nat} (h : Full m) : 0 < m :=
  Nat.lt_of_lt_of_le (by decide) h.low

theorem Full.log2 {m : Nat} (h : Full m) : m.log2 = 52 := by
  have hne : m ≠ 0 := Nat.pos_iff_ne_zero.mp h.pos
  exact (Nat.log2_eq_iff hne).mpr ⟨h.low, h.high⟩

theorem Full.shiftToTargetExponent {m : Nat} (h : Full m) (k : Nat) {e : Int} (he : -1074 ≤ e + k) :
    shiftToTargetExponent .binary64 (m * 2 ^ k) e .exact =
      (ExtendedMantissa.ofMantissaAndAccuracy m .exact, e + k) := by
  have hlog : (m * 2 ^ k).log2 = 52 + k := by
    have hpos : 0 < 2 ^ k := Nat.two_pow_pos k
    have hne : m * 2 ^ k ≠ 0 := Nat.ne_of_gt (Nat.mul_pos h.pos hpos)
    refine (Nat.log2_eq_iff hne).mpr ⟨?_, ?_⟩
    · rw [pow_add]
      exact Nat.mul_le_mul_right _ h.low
    · rw [show 52 + k + 1 = 53 + k by omega, pow_add]
      exact Nat.mul_lt_mul_of_pos_right h.high hpos
  have htarget : Format.binary64.targetExponent (totalExponent (m * 2 ^ k) e) = e + k := by
    rw [totalExponent, hlog, Format.targetExponent,
      show Format.binary64.minExponent = -1074 by decide,
      show ((Format.binary64.mantissaBits : Nat) : Int) = 53 by decide]
    omega
  have hshift : (e + k - e).toNat = k := by omega
  simp only [UnpackedFloat.shiftToTargetExponent, htarget, shiftToExponent, hshift]
  rw [shiftRight_exact]

theorem finite_congr {s : Sign} {m m' : Nat} {e e' : Int} {hm : 0 < m} {hm' : 0 < m'}
    (hmantissa : m = m') (hexponent : e = e') :
    UnpackedFloat.finite s m e hm = .finite s m' e' hm' := by
  subst hmantissa hexponent
  rfl

/-- A number that needs no more bits than there are is not changed by rounding. -/
theorem Full.roundWithAccuracy {m : Nat} (h : Full m) (s : Sign) (k : Nat) {e : Int}
    (he : -1074 ≤ e + k) :
    roundWithAccuracy .binary64 s (m * 2 ^ k) e .exact = .finite s m (e + k) h.pos := by
  have hrounded : (ExtendedMantissa.ofMantissaAndAccuracy m .exact).roundedMantissa = m := rfl
  have hagain := h.shiftToTargetExponent 0 (e := e + k) (by simpa using he)
  simp only [pow_zero, Nat.mul_one, Int.natCast_zero, Int.add_zero] at hagain
  have hne : m ≠ 0 := Nat.pos_iff_ne_zero.mp h.pos
  delta UnpackedFloat.roundWithAccuracy
  dsimp only
  rw [h.shiftToTargetExponent k he]
  dsimp only
  rw [hrounded, hagain]
  exact dif_neg hne

/-- How far a whole number is shifted until it fills the mantissa. -/
def room (n : Nat) : Nat := 52 - n.log2

/-- The whole numbers that a mantissa has room for. -/
structure Small (n : Nat) : Prop where
  pos : 0 < n
  lt : n < 2 ^ 53

variable {n : Nat}

theorem Small.log2_add_room (h : Small n) : n.log2 + room n = 52 := by
  have hlog : n.log2 < 53 := (Nat.log2_lt (Nat.pos_iff_ne_zero.mp h.pos)).mpr h.lt
  unfold room
  omega

theorem Small.full (h : Small n) : Full (n * 2 ^ room n) := by
  have hne : n ≠ 0 := Nat.pos_iff_ne_zero.mp h.pos
  have hsum := h.log2_add_room
  constructor
  · calc 2 ^ 52 = 2 ^ n.log2 * 2 ^ room n := by rw [← pow_add, hsum]
      _ ≤ n * 2 ^ room n := Nat.mul_le_mul_right _ (Nat.log2_self_le hne)
  · calc n * 2 ^ room n < 2 ^ (n.log2 + 1) * 2 ^ room n :=
          Nat.mul_lt_mul_of_pos_right Nat.lt_log2_self (Nat.two_pow_pos _)
      _ = 2 ^ 53 := by rw [← pow_add, show n.log2 + 1 + room n = 53 by omega]

/-- A small whole number taken apart. -/
def Small.unpacked (h : Small n) : UnpackedFloat :=
  .finite .positive (n * 2 ^ room n) (-room n) h.full.pos

theorem Small.ofNat_eq (h : Small n) : UnpackedFloat.ofNat .binary64 n = h.unpacked := by
  have hcompare : compare (n : Int) 0 = .gt := Int.compare_eq_gt.mpr (Int.natCast_pos.mpr h.pos)
  have hsum := h.log2_add_room
  have htarget : Format.binary64.targetExponent (totalExponent n 0) = -room n := by
    rw [totalExponent, Format.targetExponent, show Format.binary64.minExponent = -1074 by decide,
      show ((Format.binary64.mantissaBits : Nat) : Int) = 53 by decide]
    omega
  have hshift : (- -(room n : Int)).toNat = room n := by omega
  have hdecrease : decreaseExponent n 0 (-room n) = (n * 2 ^ room n, -(room n : Int)) := by
    rw [decreaseExponent, Int.zero_sub, hshift, Nat.shiftLeft_eq, Int.zero_sub]
  have hround := h.full.roundWithAccuracy .positive 0 (e := -room n) (by omega)
  rw [pow_zero, Nat.mul_one] at hround
  unfold UnpackedFloat.ofNat UnpackedFloat.ofInt UnpackedFloat.normalize
  rw [hcompare]
  delta UnpackedFloat.round
  dsimp only
  rw [Int.toNat_natCast, htarget, hdecrease]
  exact hround.trans (finite_congr rfl (Int.add_zero _))

/-- The exponents under which a full mantissa is a double. -/
structure InRange (e : Int) : Prop where
  low : -1074 ≤ e
  high : e ≤ 971

theorem Full.pack_eq {m : Nat} (h : Full m) (s : Sign) {e : Int} (he : InRange e) :
    UnpackedFloat.pack .binary64 (.finite s m e h.pos) =
      packComponents .binary64 s (BitVec.ofNat 11 (e + 1075).toNat) (BitVec.ofNat 52 m) := by
  have hbias : e + (Format.binary64.exponentBias : Nat) + (52 : Nat) = e + 1075 := by
    rw [show Format.binary64.exponentBias = 1023 by decide]
    omega
  have hfits : ¬ 2 ^ 11 ≤ (e + 1075).toNat + 1 := by
    have hhigh := he.high
    omega
  have hbits : m.log2 + 1 = Format.binary64.mantissaBits := by
    rw [h.log2]
    decide
  delta UnpackedFloat.pack
  simp only [hbias, if_neg hfits, if_pos hbits]

theorem toNat_packComponents (b f : Nat) (hb : b < 2 ^ 11) (hf : f < 2 ^ 52) :
    (packComponents .binary64 .positive (BitVec.ofNat 11 b) (BitVec.ofNat 52 f)).toNat =
      b * 2 ^ 52 + f := by
  change (0#1 ++ BitVec.ofNat 11 b ++ BitVec.ofNat 52 f).toNat = _
  have hbits : (0#1 ++ BitVec.ofNat 11 b).toNat = b := by
    rw [BitVec.toNat_append, BitVec.toNat_ofNat, BitVec.toNat_ofNat, Nat.mod_eq_of_lt hb]
    simp
  rw [BitVec.toNat_append, hbits, BitVec.toNat_ofNat, Nat.mod_eq_of_lt hf,
    ← Nat.shiftLeft_add_eq_or_of_lt hf, Nat.shiftLeft_eq]

theorem Full.ofNat_fraction {m : Nat} (h : Full m) :
    BitVec.ofNat 52 m = BitVec.ofNat 52 (m - 2 ^ 52) := by
  refine BitVec.eq_of_toNat_eq ?_
  have hlow := h.low
  have hhigh := h.high
  rw [BitVec.toNat_ofNat, BitVec.toNat_ofNat]
  omega

theorem Full.ofFloat_eq {m : Nat} (h : Full m) {e : Int} (he : InRange e) :
    Binary.ofFloat ⟨Float.Model.pack (.finite .positive m e h.pos)⟩ = .finite false m e := by
  have hlow := h.low
  have hhigh := h.high
  have helow := he.low
  have hehigh := he.high
  have hbits : (⟨Float.Model.pack (.finite .positive m e h.pos)⟩ : Float).toBits.toNat =
      (e + 1075).toNat * 2 ^ 52 + (m - 2 ^ 52) := by
    change (UnpackedFloat.pack Format.binary64 (.finite .positive m e h.pos)).toNat = _
    rw [h.pack_eq _ he, h.ofNat_fraction, toNat_packComponents _ _ (by omega) (by omega)]
  have hfraction : ((e + 1075).toNat * 2 ^ 52 + (m - 2 ^ 52)) % 2 ^ 52 = m - 2 ^ 52 := by omega
  have hexponent :
      ((e + 1075).toNat * 2 ^ 52 + (m - 2 ^ 52)) / 2 ^ 52 % 2 ^ 11 = (e + 1075).toNat := by omega
  have hsign : ¬ 2 ^ 63 ≤ (e + 1075).toNat * 2 ^ 52 + (m - 2 ^ 52) := by omega
  have hmantissa : Binary.leastNormal + (m - 2 ^ 52) = m := Nat.add_sub_of_le hlow
  have hvalue : Binary.leastExponent + ((e + 1075).toNat - 1 : Nat) = e := by
    rw [Binary.leastExponent]
    omega
  generalize (⟨Float.Model.pack (.finite .positive m e h.pos)⟩ : Float) = x at hbits ⊢
  unfold Binary.ofFloat
  simp only [hbits, Nat.pow_eq, hfraction, hexponent, hsign, decide_false, hmantissa, hvalue]
  rw [if_neg (by omega), if_neg (by omega)]

theorem unpack_normal {spec : Format} {b : BitVec spec.numBits} {s : Sign} {m : Nat} {e : Int}
    {hm : 0 < m} (hinfinite : unpackExponent b ≠ -(BitVec.ofNat spec.exponentBits 1))
    (hnonzero : unpackExponent b ≠ BitVec.ofNat spec.exponentBits 0)
    (hsign : Sign.ofBitVec (unpackSign b) = s) (hmantissa : (1#1 ++ unpackMantissa b).toNat = m)
    (hexponent : ((unpackExponent b).toNat : Int) -
      ((spec.exponentBias : Nat) + (spec.mantissaBitsWithoutImplicit : Nat)) = e) :
    UnpackedFloat.unpack spec b = .finite s m e hm := by
  subst hsign hmantissa hexponent
  exact (if_neg hinfinite).trans (if_neg hnonzero)

theorem Full.unpack_pack {m : Nat} (h : Full m) {e : Int} (he : InRange e) :
    (Float.Model.pack (.finite .positive m e h.pos)).unpack = .finite .positive m e h.pos := by
  have hlow := h.low
  have hhigh := h.high
  have helow := he.low
  have hehigh := he.high
  change UnpackedFloat.unpack Format.binary64
    (UnpackedFloat.pack Format.binary64 (.finite .positive m e h.pos)) = _
  have hexponent : (BitVec.ofNat 11 (e + 1075).toNat).toNat = (e + 1075).toNat := by
    rw [BitVec.toNat_ofNat, Nat.mod_eq_of_lt (by omega)]
  have hsign : @unpackSign Format.binary64 (packComponents .binary64 .positive
      (BitVec.ofNat 11 (e + 1075).toNat) (BitVec.ofNat 52 m)) = 0#1 := by
    refine BitVec.eq_of_toNat_eq ?_
    have hzero := Nat.shiftRight_eq_zero _ _
      (packComponents_lt (BitVec.ofNat 11 (e + 1075).toNat) (BitVec.ofNat 52 m))
    exact (BitVec.extractLsb_toNat ..).trans (congrArg (· % 2) hzero)
  have hinfinite : BitVec.ofNat 11 (e + 1075).toNat ≠ -1#11 := by
    intro heq
    have := congrArg BitVec.toNat heq
    rw [hexponent] at this
    simp at this
    omega
  have hnonzero : BitVec.ofNat 11 (e + 1075).toNat ≠ 0#11 := by
    intro heq
    have := congrArg BitVec.toNat heq
    rw [hexponent] at this
    simp at this
    omega
  have hmantissa : (1#1 ++ BitVec.ofNat 52 m).toNat = m := by
    rw [h.ofNat_fraction, BitVec.toNat_append, BitVec.toNat_ofNat, BitVec.toNat_ofNat,
      Nat.mod_eq_of_lt (by omega : m - 2 ^ 52 < 2 ^ 52),
      ← Nat.shiftLeft_add_eq_or_of_lt (by omega)]
    simp [Nat.shiftLeft_eq]
    omega
  rw [h.pack_eq _ he]
  have hvalue : ((BitVec.ofNat 11 (e + 1075).toNat).toNat : Int) -
      ((Format.binary64.exponentBias : Nat) + (52 : Nat)) = e := by
    rw [hexponent, show Format.binary64.exponentBias = 1023 by decide]
    omega
  have hpacked := @unpackExponent_packComponents .binary64 .positive
    (BitVec.ofNat 11 (e + 1075).toNat) (BitVec.ofNat 52 m)
  have hfraction := @unpackMantissa_packComponents .binary64 .positive
    (BitVec.ofNat 11 (e + 1075).toNat) (BitVec.ofNat 52 m)
  refine unpack_normal (fun heq => hinfinite (hpacked.symm.trans heq))
    (fun heq => hnonzero (hpacked.symm.trans heq)) (congrArg Sign.ofBitVec hsign) ?_ ?_
  · rw [hfraction]
    exact hmantissa
  · rw [hpacked]
    exact hvalue

theorem Small.inRange_room (h : Small n) : InRange (-room n) := by
  have hsum := h.log2_add_room
  constructor <;> omega

/-- The double that a small whole number is. -/
def Small.packed (h : Small n) : Float :=
  ⟨Float.Model.pack h.unpacked⟩

theorem Small.unpack_packed (h : Small n) : h.packed.toModel.unpack = h.unpacked :=
  h.full.unpack_pack h.inRange_room

theorem Small.ofFloat_packed (h : Small n) :
    Binary.ofFloat h.packed = .finite false (n * 2 ^ room n) (-room n) :=
  h.full.ofFloat_eq h.inRange_room

/-- The digits of a small number are multiplied by one, which is exact. -/
theorem ofScientific_eq (h : Small n) : Float.ofScientific n false 0 = h.packed := by
  have hfast : n < 2 ^ 53 ∧ 0 ≤ 22 := ⟨h.lt, Nat.zero_le _⟩
  have htoNat : n.toUInt64.toNat = n := by
    exact UInt64.toNat_ofNat_of_lt' (Nat.lt_trans h.lt (by decide))
  have hone : (Float.exactlyRepresentablePowersOfTen[0]).toModel.unpack =
      .finite .positive (2 ^ 52) (-52) (by decide) := by
    rfl
  have hfloat : n.toUInt64.toFloat = h.packed := by
    change (⟨Float.Model.pack (UnpackedFloat.ofNat .binary64 n.toUInt64.toNat)⟩ : Float) = _
    rw [htoNat, h.ofNat_eq]
    rfl
  have hsum := h.log2_add_room
  have hround := h.full.roundWithAccuracy .positive 52 (e := -room n + -52) (by omega)
  have hexponent : -(room n : Int) + -52 + (52 : Nat) = -room n := by omega
  unfold Float.ofScientific
  rw [dif_pos hfast]
  simp only [Bool.false_eq_true, if_false, hfloat]
  change (⟨Float.Model.pack (UnpackedFloat.mul .binary64 h.packed.toModel.unpack
    (Float.exactlyRepresentablePowersOfTen[0]).toModel.unpack)⟩ : Float) = _
  rw [h.unpack_packed, hone]
  change (⟨Float.Model.pack (UnpackedFloat.roundWithAccuracy .binary64 .positive
    (n * 2 ^ room n * 2 ^ 52) (-room n + -52) .exact)⟩ : Float) = _
  rw [hround]
  exact congrArg (fun u => (⟨Float.Model.pack u⟩ : Float)) (finite_congr rfl hexponent)

theorem ofNat_eq_packed (h : Small n) : Float.ofNat n = h.packed :=
  ofScientific_eq h

/-- A small whole number is read back from its double. -/
theorem toInteger_ofNat (h : Small n) : (toInteger (Float.ofNat n)).toInt.toNat = n := by
  have hpart : wholePart (n * 2 ^ room n) (-room n) = n := by
    have hpos : 0 < 2 ^ room n := Nat.two_pow_pos _
    simp [wholePart, Nat.mul_div_cancel _ hpos]
  have hmin : min n (Nat.pow 2 63 - 1) = n := by
    have hlt := h.lt
    exact Nat.min_eq_left (Nat.le_trans (Nat.le_of_lt hlt) (by decide))
  rw [toInteger, ofNat_eq_packed h, h.ofFloat_packed]
  simp only [hpart, hmin, Bool.false_eq_true, if_false]
  have hlt := h.lt
  rw [Int64.toInt_ofInt_of_le (by omega) (by omega)]
  exact Int.toNat_natCast n

theorem isWhole_ofNat (h : Small n) : isWhole (Float.ofNat n) = true := by
  rw [isWhole, ofNat_eq_packed h, h.ofFloat_packed]
  simp [isWholeProduct]

/-- Doubles of small whole numbers are ordered as the numbers are. -/
theorem not_ofNat_lt {m : Nat} (hm : Small m) (hn : Small n) (hle : n ≤ m) :
    ¬ Float.ofNat m < Float.ofNat n := by
  rw [ofNat_eq_packed hm, ofNat_eq_packed hn]
  change ¬ decide (hm.packed.toModel.unpack.lt hn.packed.toModel.unpack = true) = true
  rw [hm.unpack_packed, hn.unpack_packed]
  have hne : n ≠ 0 := Nat.pos_iff_ne_zero.mp hn.pos
  have hlog : n.log2 ≤ m.log2 :=
    (Nat.le_log2 (Nat.pos_iff_ne_zero.mp hm.pos)).mpr (Nat.le_trans (Nat.log2_self_le hne) hle)
  have hroom : room m ≤ room n := by
    unfold room
    omega
  have hcompare : (compare (-(room m : Int)) (-room n)).then
      (compare (m * 2 ^ room m) (n * 2 ^ room n)) ≠ .lt := by
    intro hlt
    rcases Ordering.then_eq_lt.mp hlt with hlt | ⟨heq, hlt⟩
    · rw [compare_lt_iff_lt] at hlt
      omega
    · have hsame : room m = room n := by
        have hexponent := compare_eq_iff_eq.mp heq
        omega
      rw [compare_lt_iff_lt, hsame] at hlt
      exact absurd hlt (Nat.not_lt.mpr (Nat.mul_le_mul_right _ hle))
  delta UnpackedFloat.lt UnpackedFloat.compare Small.unpacked
  dsimp only
  simpa using hcompare

theorem isBlank_eq_false_of_isDigit {c : Char} (h : c.isDigit = true) : isBlank c = false := by
  have hrange : 48 ≤ c.toNat ∧ c.toNat ≤ 57 := by
    simpa [Char.isDigit, UInt32.le_iff_toNat_le] using h
  simp only [isBlank, blankRanges, List.any_cons, List.any_nil, Bool.or_false, Bool.or_eq_false_iff,
    Bool.and_eq_false_iff, decide_eq_false_iff_not]
  omega

/-- The digits of a number, with blanks after them. -/
theorem isDigit_or_isBlank {after : List Char} (hafter : ∀ c ∈ after, isBlank c = true) :
    ∀ c ∈ Nat.toDigits 10 n ++ after, c.isDigit = true ∨ isBlank c = true := by
  intro c hc
  rcases List.mem_append.mp hc with hc | hc
  · exact Or.inl (Nat.isDigit_of_mem_toDigits (by decide) (by decide) hc)
  · exact Or.inr (hafter c hc)

theorem trimLeft_digits {before after : List Char} (hbefore : ∀ c ∈ before, isBlank c = true) :
    trimLeft (before ++ (Nat.toDigits 10 n ++ after)) = Nat.toDigits 10 n ++ after := by
  rw [trimLeft, List.dropWhile_append_of_pos hbefore]
  cases hdigits : Nat.toDigits 10 n with
  | nil => exact absurd hdigits Nat.toDigits_ne_nil
  | cons d ds =>
    have hd : d.isDigit = true :=
      Nat.isDigit_of_mem_toDigits (by decide) (by decide) (hdigits ▸ List.mem_cons_self ..)
    simp [isBlank_eq_false_of_isDigit hd]

/-- The blanks around a number are no part of it. -/
theorem trim_digits {before after : List Char} (hbefore : ∀ c ∈ before, isBlank c = true)
    (hafter : ∀ c ∈ after, isBlank c = true) :
    trim (before ++ (Nat.toDigits 10 n ++ after)) = Nat.toDigits 10 n := by
  have hblank : ∀ c ∈ after.reverse, isBlank c = true :=
    fun c hc => hafter c (List.mem_reverse.mp hc)
  rw [trim, trimLeft_digits hbefore, trimRight, trimLeft, List.reverse_append,
    List.dropWhile_append_of_pos hblank, List.dropWhile_eq_self_iff.mpr, List.reverse_reverse]
  intro hpos
  have hmem := List.mem_reverse.mp (List.getElem_mem hpos)
  rw [isBlank_eq_false_of_isDigit (Nat.isDigit_of_mem_toDigits (by decide) (by decide) hmem)]
  decide

theorem splitSign_eq {cs : List Char} (h : ∀ c ∈ cs, c.isDigit = true ∨ isBlank c = true) :
    splitSign cs = (false, cs) := by
  unfold splitSign
  split
  · exact absurd (h '-' (List.mem_cons_self ..)) (by decide)
  · exact absurd (h '+' (List.mem_cons_self ..)) (by decide)
  · rfl

theorem leadingHex_eq {cs : List Char} (h : ∀ c ∈ cs, c.isDigit = true ∨ isBlank c = true) :
    leadingHex cs = none := by
  have hnone : hexDigits? cs = none := by
    unfold hexDigits?
    split
    · rename_i c rest
      have hc := h c (by simp)
      have hx : c ≠ 'x' ∧ c ≠ 'X' := by
        constructor <;> rintro rfl <;> exact absurd hc (by decide)
      simp [hx]
    · rfl
  rw [leadingHex, hnone]

theorem leadingDecimal_digits {after : List Char} (hafter : ∀ c ∈ after, isBlank c = true) :
    leadingDecimal (Nat.toDigits 10 n ++ after) = some ⟨n, 0⟩ := by
  have hdigits : ∀ c ∈ Nat.toDigits 10 n, c.isDigit = true := fun c =>
    Nat.isDigit_of_mem_toDigits (by decide) (by decide)
  have hstop : ∀ c ∈ after.head?, c.isDigit = false := by
    intro c hc
    have hblank := hafter c (List.mem_of_mem_head? hc)
    cases hd : c.isDigit with
    | false => rfl
    | true => rw [isBlank_eq_false_of_isDigit hd] at hblank; cases hblank
  have hwhole : (Nat.toDigits 10 n ++ after).takeWhile Char.isDigit = Nat.toDigits 10 n := by
    rw [List.takeWhile_append_of_pos hdigits]
    cases after with
    | nil => simp
    | cons c cs => simp [hstop c (by simp)]
  have hrest : (Nat.toDigits 10 n ++ after).dropWhile Char.isDigit = after := by
    rw [List.dropWhile_append_of_pos hdigits]
    cases after with
    | nil => rfl
    | cons c cs => simp [hstop c (by simp)]
  have hfraction : splitFraction after = ([], after) := by
    unfold splitFraction
    split
    · exact absurd (hafter '.' (List.mem_cons_self ..)) (by decide)
    · rfl
  have hexponent : leadingExponent after = 0 := by
    cases after with
    | nil => rfl
    | cons c cs =>
      have hc := hafter c (List.mem_cons_self ..)
      have hne : c ≠ 'e' ∧ c ≠ 'E' := by
        constructor <;> rintro rfl <;> exact absurd hc (by decide)
      simp [leadingExponent, hne]
  have hvalue : decimalValue (Nat.toDigits 10 n) = n := Nat.ofDigitChars_ten_toDigits
  simp [leadingDecimal, hwhole, hrest, hfraction, hexponent, hvalue, Nat.toDigits_ne_nil]

theorem toFloat_whole (hn : n < 2 ^ 53) : (⟨n, 0⟩ : Decimal).toFloat = Float.ofNat n := by
  by_cases hzero : n = 0
  · subst hzero
    decide
  · have hlength : (Nat.toDigits 10 n).length ≤ 16 :=
      (Nat.length_toDigits_le_iff (by decide) (by decide)).mpr (by omega)
    have hlow : ¬ 310 ≤ (0 : Int) + (Nat.toDigits 10 n).length := by omega
    have hhigh : ¬ (0 : Int) + (Nat.toDigits 10 n).length ≤ -324 := by omega
    simp only [Decimal.toFloat, hzero, hlow, hhigh, if_false]
    rfl

/-- A text of digits with blanks around it stands for their number. -/
theorem ofText_digits {before after : List Char} (hbefore : ∀ c ∈ before, isBlank c = true)
    (hafter : ∀ c ∈ after, isBlank c = true) (hn : n < 2 ^ 53) :
    ofText (before ++ (Nat.toDigits 10 n ++ after)) = Float.ofNat n := by
  have hchars := isDigit_or_isBlank (n := n) hafter
  rw [ofText, trimLeft_digits hbefore, splitSign_eq hchars]
  simp only [leadingHex_eq hchars, leadingDecimal_digits hafter]
  exact toFloat_whole hn

end TorqueScript.Number
