import TorqueScript.Text.CaseTable

/-!
Upper and lower case of texts, by the full mappings of Unicode. A character may
become several. The capital sigma is the one letter whose lower case depends on
its neighbours: at the end of a word it takes its final form.
-/

namespace TorqueScript.Text

open CaseTable

private def inRanges (ranges : List (Nat × Nat)) (c : Char) : Bool :=
  ranges.any fun r => r.1 ≤ c.toNat && c.toNat ≤ r.2

def isCased (c : Char) : Bool :=
  inRanges casedRanges c

def isCaseIgnorable (c : Char) : Bool :=
  inRanges ignorableRanges c

private def Run.covers (r : Run) (c : Char) : Bool :=
  r.first ≤ c.toNat && c.toNat ≤ r.last && (c.toNat - r.first) % r.step == 0

private def mapped (expansions : List (Nat × List Nat)) (runs : List Run) (c : Char) : List Char :=
  match expansions.find? fun e => e.1 == c.toNat with
  | some e => e.2.map Char.ofNat
  | none =>
    match runs.find? fun r => Run.covers r c with
    | some r => [Char.ofNat (Int.toNat (c.toNat + r.shift))]
    | none => [c]

def upperChar (c : Char) : List Char :=
  mapped upperExpansions upperRuns c

def lowerChar (c : Char) : List Char :=
  mapped lowerExpansions lowerRuns c

def upper (cs : List Char) : List Char :=
  cs.flatMap upperChar

/-- Past the ignorable characters stands a cased one. -/
private def meetsCased (cs : List Char) : Bool :=
  match cs.dropWhile isCaseIgnorable with
  | c :: _ => isCased c
  | [] => false

/-- Lower case of `cs`, where `before` holds the characters already passed, last first. -/
private def lowerFrom (before : List Char) : List Char → List Char
  | [] => []
  | c :: rest =>
    let image :=
      if c = 'Σ' then if meetsCased before && !meetsCased rest then ['ς'] else ['σ']
      else lowerChar c
    image ++ lowerFrom (c :: before) rest

def lower (cs : List Char) : List Char :=
  lowerFrom [] cs

end TorqueScript.Text
