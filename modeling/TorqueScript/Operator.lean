import TorqueScript.Program
import TorqueScript.Value
import TorqueScript.Fault

/-!
What operators compute. Arithmetic and comparison see numbers, bitwise operators and
remainders see 64-bit integers, and joining sees texts.
-/

namespace TorqueScript

def Arith.apply (op : Arith) (v w : Value) : Except Fault Value :=
  match op with
  | .add => .ok (.number (v.toNumber + w.toNumber))
  | .sub => .ok (.number (v.toNumber - w.toNumber))
  | .mul => .ok (.number (v.toNumber * w.toNumber))
  | .div =>
    if w.toNumber == 0.0 then .error .divisionByZero
    else .ok (.number (v.toNumber / w.toNumber))
  | .rem =>
    if w.toInteger = 0 then .error .divisionByZero
    else .ok (.number (Number.ofInteger (v.toInteger % w.toInteger)))

private def onIntegers (f : Int64 → Int64 → Int64) (v w : Value) : Value :=
  .number (Number.ofInteger (f v.toInteger w.toInteger))

private def joined (separator : String) (v w : Value) : Value :=
  .text (v.toText ++ separator ++ w.toText)

/-- The value of an operator on two values. Shifts take the lowest six bits of the distance. -/
def BinaryOp.apply (op : BinaryOp) (v w : Value) : Except Fault Value :=
  match op with
  | .arith op => op.apply v w
  | .less => .ok (.ofBool (v.toNumber < w.toNumber))
  | .greater => .ok (.ofBool (w.toNumber < v.toNumber))
  | .lessEqual => .ok (.ofBool (v.toNumber ≤ w.toNumber))
  | .greaterEqual => .ok (.ofBool (w.toNumber ≤ v.toNumber))
  | .equal => .ok (.ofBool (v.numberEq w))
  | .notEqual => .ok (.ofBool !(v.numberEq w))
  | .textEqual => .ok (.ofBool (v.textEq w))
  | .textNotEqual => .ok (.ofBool !(v.textEq w))
  | .logicalAnd => .ok (.ofBool (v.isTrue && w.isTrue))
  | .logicalOr => .ok (.ofBool (v.isTrue || w.isTrue))
  | .bitAnd => .ok (onIntegers (· &&& ·) v w)
  | .bitOr => .ok (onIntegers (· ||| ·) v w)
  | .bitXor => .ok (onIntegers (· ^^^ ·) v w)
  | .shiftLeft => .ok (onIntegers (fun a b => a <<< (b &&& 63)) v w)
  | .shiftRight => .ok (onIntegers (fun a b => a >>> (b &&& 63)) v w)
  | .concat => .ok (joined "" v w)
  | .space => .ok (joined " " v w)
  | .tab => .ok (joined "\t" v w)
  | .newline => .ok (joined "\n" v w)

def UnaryOp.apply (op : UnaryOp) (v : Value) : Value :=
  match op with
  | .not => .ofBool !v.isTrue
  | .negate => .number (-v.toNumber)
  | .complement => .number (Number.ofInteger (~~~v.toInteger))

def StepOp.apply (op : StepOp) (x : Float) : Float :=
  match op with
  | .increment => x + 1.0
  | .decrement => x - 1.0

end TorqueScript
