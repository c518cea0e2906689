import TorqueScript.Value
import TorqueScript.Text.Bytes
import TorqueScript.Text.Case
import TorqueScript.Text.Words

/-!
The function library: words and fields of texts, texts in general, and numbers.
These functions depend on their arguments alone. Missing arguments are undefined.
-/

namespace TorqueScript

inductive LibraryFunction where
  | getWord | getWords | getWordCount | setWord | setWords | removeWord | firstWord | restWords
  | getField | getFields | getFieldCount | setField | setFields
  | strlen | strupr | strlwr | strcmp | stricmp | strpos | strstr | getSubStr
  | trim | ltrim | rtrim | strreplace
  | mAbs | mFloor | mCeil | mSqrt | mSin | mCos | mTan | mPow | mFloatLength | getMin | getMax
deriving DecidableEq

/-- Arguments of a call. -/
abbrev Arguments := List Value

namespace Arguments

def value (args : Arguments) (n : Nat) : Value :=
  args.getD n .undefined

def text (args : Arguments) (n : Nat) : List Char :=
  (args.value n).toText.toList

def index (args : Arguments) (n : Nat) : Nat :=
  (args.value n).toIndex

def number (args : Arguments) (n : Nat) : Float :=
  (args.value n).toNumber

/-- The position in argument `n`, if that argument is there. -/
def index? (args : Arguments) (n : Nat) : Option Nat :=
  args[n]?.map Value.toIndex

end Arguments

namespace Library

open Text

def ofChars (cs : List Char) : Value :=
  .text (String.ofList cs)

/-- Minus one, zero or one, by the order of code points. -/
def order (a b : List Char) : Value :=
  .number (if a < b then -1.0 else if a = b then 0.0 else 1.0)

/-- The byte offset of the first occurrence from `offset` on, or minus one. -/
def position (haystack needle : List Char) (offset : Nat) : Value :=
  match (dropBytes? offset haystack).bind (find? needle) with
  | some n => .ofNat (offset + n)
  | none => .number (-1.0)

/-- At most `count` bytes from `start` on; nothing if a character would be cut. -/
def substring (source : List Char) (start : Nat) (count : Option Nat) : List Char :=
  let length := byteLength source
  let start := min start length
  let stop := min (start + count.getD length) length
  (slice? start stop source).getD []

/-- A number rounded to at most nine places. -/
def toPlaces (x : Float) (places : Nat) : Float :=
  let scale := Float.ofNat (Nat.pow 10 (min places 9))
  Number.round (x * scale) / scale

end Library

namespace LibraryFunction

open Text Library

def apply (f : LibraryFunction) (args : Arguments) : Value :=
  match f with
  | getWord => ofChars (Listing.words.get (args.text 0) (args.index 1))
  | getWords => ofChars (Listing.words.range (args.text 0) (args.index 1) (args.index? 2))
  | getWordCount => .ofNat (Listing.words.count (args.text 0))
  | setWord => ofChars (Listing.words.set (args.text 0) (args.index 1) [args.text 2])
  | setWords =>
    ofChars (Listing.words.set (args.text 0) (args.index 1)
      ((args.drop 2).map fun v => v.toText.toList))
  | removeWord => ofChars (Listing.words.remove (args.text 0) (args.index 1))
  | firstWord => ofChars (Listing.words.get (args.text 0) 0)
  | restWords => ofChars (Listing.words.tail (args.text 0))
  | getField => ofChars (Listing.fields.get (args.text 0) (args.index 1))
  | getFields => ofChars (Listing.fields.range (args.text 0) (args.index 1) (args.index? 2))
  | getFieldCount => .ofNat (Listing.fields.count (args.text 0))
  | setField => ofChars (Listing.fields.set (args.text 0) (args.index 1) [args.text 2])
  | setFields =>
    ofChars (Listing.fields.set (args.text 0) (args.index 1)
      ((args.drop 2).map fun v => v.toText.toList))
  | strlen => .ofNat (byteLength (args.text 0))
  | strupr => ofChars (upper (args.text 0))
  | strlwr => ofChars (lower (args.text 0))
  | strcmp => order (args.text 0) (args.text 1)
  | stricmp => order (lower (args.text 0)) (lower (args.text 1))
  | strpos => position (args.text 0) (args.text 1) (args.index 2)
  | strstr => position (args.text 0) (args.text 1) 0
  | getSubStr => ofChars (substring (args.text 0) (args.index 1) (args.index? 2))
  | trim => ofChars (Text.trim (args.text 0))
  | ltrim => ofChars (trimLeft (args.text 0))
  | rtrim => ofChars (trimRight (args.text 0))
  | strreplace =>
    if (args.text 1).isEmpty then args.value 0
    else ofChars (replaceAll (args.text 1) (args.text 2) (args.text 0))
  | mAbs => .number (args.number 0).abs
  | mFloor => .number (Number.floor (args.number 0))
  | mCeil => .number (Number.ceil (args.number 0))
  | mSqrt => .number (args.number 0).sqrt
  | mSin => .number (args.number 0).sin
  | mCos => .number (args.number 0).cos
  | mTan => .number (args.number 0).tan
  | mPow => .number ((args.number 0).pow (args.number 1))
  | mFloatLength => .number (toPlaces (args.number 0) (args.index 1))
  | getMin => .number (Number.least (args.number 0) (args.number 1))
  | getMax => .number (Number.greatest (args.number 0) (args.number 1))

/-- The library with the names its functions are called by. -/
def named : List (String × LibraryFunction) := [
  ("getWord", getWord), ("getWords", getWords), ("getWordCount", getWordCount),
  ("setWord", setWord), ("setWords", setWords), ("removeWord", removeWord),
  ("firstWord", firstWord), ("restWords", restWords), ("getField", getField),
  ("getFields", getFields), ("getFieldCount", getFieldCount), ("setField", setField),
  ("setFields", setFields), ("strlen", strlen), ("strupr", strupr), ("strlwr", strlwr),
  ("strcmp", strcmp), ("stricmp", stricmp), ("strpos", strpos), ("strstr", strstr),
  ("getSubStr", getSubStr), ("trim", trim), ("ltrim", ltrim), ("rtrim", rtrim),
  ("strreplace", strreplace), ("mAbs", mAbs), ("mFloor", mFloor), ("mCeil", mCeil),
  ("mSqrt", mSqrt), ("mSin", mSin), ("mCos", mCos), ("mTan", mTan), ("mPow", mPow),
  ("mFloatLength", mFloatLength), ("getMin", getMin), ("getMax", getMax)]

end LibraryFunction

end TorqueScript
