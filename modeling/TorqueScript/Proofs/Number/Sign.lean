import Mathlib.Algebra.Group.Nat.Defs
import TorqueScript.Number.Numeral

/-!
Numerals have no sign, so the number that one stands for is not negative: its sign
bit is clear, and this holds of a zero as well. The arithmetic by which decimals are
read multiplies and divides numbers without sign only.
-/

namespace TorqueScript.Number

open Float.Model Float.Model.UnpackedFloat

/-- The sign bit is clear. -/
def Unsigned (x : Float) : Prop :=
  x.toBits.toNat < 2 ^ 63

theorem Unsigned.ofFloat_eq {x : Float} (hx : Unsigned x) {negative : Bool} {m : Nat} {e : Int}
    (h : Binary.ofFloat x = .finite negative m e) : negative = false := by
  have hsign : decide (Nat.pow 2 63 ≤ x.toBits.toNat) = false :=
    decide_eq_false (Nat.not_le.2 hx)
  unfold Binary.ofFloat at h
  simp only [hsign] at h
  split at h
  · split at h <;> cases h
  split at h <;> cases h <;> rfl

/-- A number taken apart is without sign. -/
def Positive : UnpackedFloat → Prop
  | .infinity s => s = .positive
  | .notANumber => True
  | .zero s => s = .positive
  | .finite s _ _ _ => s = .positive

theorem positive_dite {c : Prop} [Decidable c] {u : c → UnpackedFloat} {v : ¬ c → UnpackedFloat}
    (hu : ∀ h, Positive (u h)) (hv : ∀ h, Positive (v h)) : Positive (dite c u v) := by
  by_cases h : c
  · rw [dif_pos h]
    exact hu h
  · rw [dif_neg h]
    exact hv h

theorem positive_roundWithAccuracy (spec : Format) (m : Nat) (e : Int) (a : Accuracy) :
    Positive (roundWithAccuracy spec .positive m e a) :=
  positive_dite (fun _ => rfl) fun _ => rfl

theorem Positive.mul {spec : Format} {u v : UnpackedFloat} (hu : Positive u) (hv : Positive v) :
    Positive (UnpackedFloat.mul spec u v) := by
  cases u <;> cases v <;> cases hu <;> cases hv <;>
    first | trivial | exact positive_roundWithAccuracy _ _ _ _

theorem Positive.div {spec : Format} {u v : UnpackedFloat} (hu : Positive u) (hv : Positive v) :
    Positive (UnpackedFloat.div spec u v) := by
  cases u <;> cases v <;> cases hu <;> cases hv <;>
    first | trivial | exact positive_roundWithAccuracy _ _ _ _

theorem positive_ofNat (spec : Format) (n : Nat) : Positive (UnpackedFloat.ofNat spec n) := by
  unfold UnpackedFloat.ofNat UnpackedFloat.ofInt UnpackedFloat.normalize
  split
  · rename_i h
    rw [Int.compare_eq_lt] at h
    omega
  · rfl
  · exact positive_roundWithAccuracy _ _ _ _

theorem positive_ofScientific (spec : Format) (m : Nat) (e : Int) :
    Positive (UnpackedFloat.ofScientific spec m e) := by
  unfold UnpackedFloat.ofScientific
  refine positive_dite (fun _ => rfl) fun _ => ?_
  refine iteInduction (fun _ => rfl) fun _ => ?_
  refine iteInduction (fun _ => rfl) fun _ => ?_
  exact iteInduction (fun _ => Positive.mul rfl rfl) fun _ => Positive.div rfl rfl

theorem packComponents_lt (e : BitVec 11) (m : BitVec 52) :
    (packComponents Format.binary64 .positive e m).toNat < 2 ^ 63 := by
  change (0#1 ++ e ++ m).toNat < 2 ^ 63
  have he : e.toNat <<< 52 < 2 ^ 63 := by
    have := e.isLt
    rw [Nat.shiftLeft_eq]
    omega
  have hm : m.toNat < 2 ^ 63 := Nat.lt_trans m.isLt (by decide)
  rw [BitVec.toNat_append, BitVec.toNat_append]
  simpa using Nat.or_lt_two_pow he hm

theorem Positive.unsigned {u : UnpackedFloat} (hu : Positive u) :
    Unsigned ⟨Float.Model.pack u⟩ := by
  change (UnpackedFloat.pack Format.binary64 u).toNat < 2 ^ 63
  cases u with
  | infinity s => cases hu; exact packComponents_lt _ _
  | notANumber => exact packComponents_lt _ _
  | zero s => cases hu; exact packComponents_lt _ _
  | finite s m e hm =>
    cases hu
    delta UnpackedFloat.pack
    dsimp only
    split
    · exact packComponents_lt _ _
    · split <;> exact packComponents_lt _ _

theorem Unsigned.positive {x : Float} (hx : Unsigned x) : Positive x.toModel.unpack := by
  have hsign : @unpackSign Format.binary64 x.toModel.toBits.toBitVec = 0#1 := by
    refine BitVec.eq_of_toNat_eq ?_
    have hzero : x.toBits.toNat >>> 63 = 0 := Nat.shiftRight_eq_zero _ _ hx
    change (x.toBits.toBitVec.extractLsb 63 63).toNat = 0
    rw [BitVec.extractLsb_toNat]
    exact congrArg (· % 2) hzero
  delta Float.Model.unpack UnpackedFloat.unpack
  generalize @unpackSign Format.binary64 x.toModel.toBits.toBitVec = sign at hsign ⊢
  subst hsign
  refine iteInduction (fun _ => iteInduction (fun _ => rfl) fun _ => trivial) fun _ => ?_
  exact iteInduction (fun _ => positive_dite (fun _ => rfl) fun _ => rfl) fun _ => rfl

theorem Unsigned.mul {x y : Float} (hx : Unsigned x) (hy : Unsigned y) : Unsigned (x * y) :=
  (hx.positive.mul hy.positive).unsigned

theorem Unsigned.div {x y : Float} (hx : Unsigned x) (hy : Unsigned y) : Unsigned (x / y) :=
  (hx.positive.div hy.positive).unsigned

theorem unsigned_powersOfTen : ∀ x ∈ Float.exactlyRepresentablePowersOfTen, Unsigned x := by
  unfold Unsigned
  decide +kernel

theorem unsigned_ofScientific (m : Nat) (s : Bool) (e : Nat) :
    Unsigned (Float.ofScientific m s e) := by
  unfold Float.ofScientific
  split
  · have hm : Unsigned m.toUInt64.toFloat := (positive_ofNat _ _).unsigned
    simp only
    split
    · exact hm.div (unsigned_powersOfTen _ (Array.getElem_mem _))
    · exact hm.mul (unsigned_powersOfTen _ (Array.getElem_mem _))
  · exact (positive_ofScientific _ _ _).unsigned

theorem Decimal.unsigned_toFloat (d : Decimal) : Unsigned d.toFloat := by
  unfold Decimal.toFloat
  simp only
  split
  · exact unsigned_ofScientific _ _ _
  split
  · exact (unsigned_ofScientific _ _ _).div (unsigned_ofScientific _ _ _)
  split
  · exact unsigned_ofScientific _ _ _
  · exact unsigned_ofScientific _ _ _

/-- A numeral stands for a number without sign. -/
theorem unsigned_of_ofLiteral? {cs : List Char} {x : Float} (h : ofLiteral? cs = some x) :
    Unsigned x := by
  unfold ofLiteral? at h
  split at h
  · obtain ⟨n, -, rfl⟩ := Option.map_eq_some_iff.1 h
    exact unsigned_ofScientific _ _ _
  · obtain ⟨d, -, rfl⟩ := Option.map_eq_some_iff.1 h
    exact d.unsigned_toFloat

end TorqueScript.Number
