/-!
Places in a source text: lines and columns from one, columns counted in UTF-8
bytes.
-/

namespace TorqueScript

structure Position where
  line : Nat
  column : Nat
deriving DecidableEq

namespace Position

def start : Position := ⟨1, 1⟩

/-- The position after one character. -/
def step (p : Position) (c : Char) : Position :=
  if c = '\n' then ⟨p.line + 1, 1⟩ else ⟨p.line, p.column + c.utf8Size⟩

/-- The position after a text. -/
def after (p : Position) (cs : List Char) : Position :=
  cs.foldl step p

def toText (p : Position) : String :=
  toString p.line ++ ":" ++ toString p.column

@[simp]
theorem after_nil (p : Position) : p.after [] = p := rfl

theorem after_append (p : Position) (cs ds : List Char) :
    p.after (cs ++ ds) = (p.after cs).after ds :=
  List.foldl_append

end Position

end TorqueScript
