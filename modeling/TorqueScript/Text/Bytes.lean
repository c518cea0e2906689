/-!
Lengths, offsets and slices in UTF-8 bytes. An offset inside a character cuts
nothing: slicing there has no answer.
-/

namespace TorqueScript.Text

/-- The number of bytes that a text takes. -/
def byteLength (cs : List Char) : Nat :=
  cs.foldl (fun n c => n + c.utf8Size) 0

/-- What follows the first `n` bytes, if they end at a character boundary. -/
def dropBytes? (n : Nat) : List Char → Option (List Char)
  | [] => if n = 0 then some [] else none
  | c :: cs =>
    if n = 0 then some (c :: cs)
    else if c.utf8Size ≤ n then dropBytes? (n - c.utf8Size) cs else none

/-- The first `n` bytes, if they end at a character boundary. -/
def takeBytes? (n : Nat) : List Char → Option (List Char)
  | [] => if n = 0 then some [] else none
  | c :: cs =>
    if n = 0 then some []
    else if c.utf8Size ≤ n then (takeBytes? (n - c.utf8Size) cs).map (c :: ·) else none

/-- The bytes from `start` to `stop`, if both are character boundaries. -/
def slice? (start stop : Nat) (cs : List Char) : Option (List Char) :=
  (dropBytes? start cs).bind (takeBytes? (stop - start))

/-- The byte offset of the first occurrence of `needle`. -/
def find? (needle : List Char) : List Char → Option Nat
  | [] => if needle.isEmpty then some 0 else none
  | c :: cs =>
    if needle.isPrefixOf (c :: cs) then some 0
    else (find? needle cs).map (c.utf8Size + ·)

/-- The occurrences of `old`, which is not empty, replaced from left to right. The count says how
many characters of an occurrence are still to be passed over. -/
private def replaceFrom (old new : List Char) : Nat → List Char → List Char
  | _, [] => []
  | skip + 1, _ :: cs => replaceFrom old new skip cs
  | 0, c :: cs =>
    if old.isPrefixOf (c :: cs) then new ++ replaceFrom old new (old.length - 1) cs
    else c :: replaceFrom old new 0 cs

def replaceAll (old new cs : List Char) : List Char :=
  replaceFrom old new 0 cs

/-- The parts before and after the last `::`, if there is one. -/
def splitQualified : List Char → Option (List Char × List Char)
  | [] => none
  | c :: cs =>
    match splitQualified cs with
    | some (qualifier, name) => some (c :: qualifier, name)
    | none =>
      match c, cs with
      | ':', ':' :: name => some ([], name)
      | _, _ => none

end TorqueScript.Text
