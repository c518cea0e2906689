import TorqueScript.Token.Scan

/-!
The tokens of a whole source text, up to its end or to the first mistake.
-/

namespace TorqueScript

/-- Tokens in order, closed by the end of the text or by a mistake. -/
inductive Stream where
  | finish (position : Position)
  | failure (e : ScanError)
  | cons (token : Located) (rest : Stream)
deriving DecidableEq

namespace Stream

/-- Reads all tokens from a cursor on. -/
def ofCursor (c : Cursor) : Stream :=
  let start := c.skipGap
  match _h : start.rest with
  | [] => .finish start.position
  | d :: ds =>
    match Scan.lexeme d ds with
    | .ok (token, n) =>
      .cons ⟨token, start.position⟩
        (ofCursor ⟨ds.drop n, start.position.after (d :: ds.take n)⟩)
    | .error (defect, _) => .failure ⟨defect, start.position⟩
termination_by c.rest.length
decreasing_by
  have hskip := Cursor.length_skip_le .blank c.rest c.position
  have hlen : start.rest.length = ds.length + 1 := by simp [_h]
  simp only [List.length_drop]
  simp only [start, Cursor.skipGap] at hlen
  omega

def ofText (source : String) : Stream :=
  ofCursor (.ofText source)

/-- The tokens and how they end, one item each. -/
def items : Stream → List Item
  | finish p => [.finish p]
  | failure e => [.failure e]
  | cons t rest => .token t :: rest.items

/-- The number of tokens. -/
def length : Stream → Nat
  | finish _ => 0
  | failure _ => 0
  | cons _ rest => rest.length + 1

end Stream

end TorqueScript
