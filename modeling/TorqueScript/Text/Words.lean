/-!
Texts as lists of components. Scripts keep lists in texts: words are separated by
a space, a tab or a newline, fields by a tab or a newline. A text that is put
together again takes the listing's own separator throughout.
-/

namespace TorqueScript.Text

/-- What separates the components of a text, and what is written between them. -/
structure Listing where
  isSeparator : Char → Bool
  joiner : Char

namespace Listing

def words : Listing where
  isSeparator c := c == ' ' || c == '\t' || c == '\n'
  joiner := ' '

def fields : Listing where
  isSeparator c := c == '\t' || c == '\n'
  joiner := '\t'

/-- The pieces between separators; there is one more of them than of separators. -/
def pieces (l : Listing) : List Char → List (List Char)
  | [] => [[]]
  | c :: cs =>
    if l.isSeparator c then [] :: l.pieces cs
    else
      match l.pieces cs with
      | [] => [[c]]
      | p :: ps => (c :: p) :: ps

/-- The components of a text. The empty text has none. -/
def components (l : Listing) (cs : List Char) : List (List Char) :=
  if cs.isEmpty then [] else l.pieces cs

def join (l : Listing) (parts : List (List Char)) : List Char :=
  [l.joiner].intercalate parts

/-- The components from `first` to `last`, or to the end. -/
def range (l : Listing) (cs : List Char) (first : Nat) (last : Option Nat) : List Char :=
  let rest := (l.components cs).drop first
  l.join <|
    match last with
    | none => rest
    | some last => if last < first then [] else rest.take (last - first + 1)

def get (l : Listing) (cs : List Char) (n : Nat) : List Char :=
  l.range cs n (some n)

def count (l : Listing) (cs : List Char) : Nat :=
  (l.components cs).length

/-- The components from `start` on become `replacements`; missing ones are filled with empty
ones. -/
def set (l : Listing) (cs : List Char) (start : Nat) (replacements : List (List Char)) :
    List Char :=
  let parts := l.components cs
  let stop := start + replacements.length
  let padded := parts ++ List.replicate (stop - parts.length) []
  l.join (padded.take start ++ replacements ++ padded.drop stop)

def remove (l : Listing) (cs : List Char) (n : Nat) : List Char :=
  l.join ((l.components cs).eraseIdx n)

/-- What follows the first separator, as it stands. -/
def tail (l : Listing) (cs : List Char) : List Char :=
  (cs.dropWhile fun c => !l.isSeparator c).drop 1

end Listing

end TorqueScript.Text
