import TorqueScript.Token.Stream
import TorqueScript.Program

/-!
What reading programs from tokens rests on: the mistakes that a source can have,
results that carry the rest of the tokens with a bound on their number, and the
reading of single tokens.
-/

namespace TorqueScript

inductive SourceError where
  | scan (e : ScanError)
  | unexpected (expected found : String) (position : Position)
  | unclosed (opened position : Position)
  | emptyLabel (position : Position)
deriving DecidableEq

namespace SourceError

def position : SourceError → Position
  | scan e => e.position
  | unexpected _ _ p => p
  | unclosed _ p => p
  | emptyLabel p => p

def message : SourceError → String
  | scan e => e.message
  | unexpected expected found p =>
    p.toText ++ ": expected " ++ expected ++ ", got " ++ found ++ " instead"
  | unclosed opened p => p.toText ++ ": block opened at " ++ opened.toText ++ " is never closed"
  | emptyLabel p => p.toText ++ ": case label must be an expression"

/-- Which mistake a result reports can be decided, whatever the results are. -/
instance decidableReported {α : Type} (r : Except SourceError α) (e : SourceError) :
    Decidable (r = .error e) :=
  match r with
  | .ok _ => isFalse nofun
  | .error e' =>
    match decEq e' e with
    | isTrue h => isTrue (congrArg _ h)
    | isFalse h => isFalse fun h' => h (Except.error.inj h')

end SourceError

namespace Parse

/-- Something read, and the tokens after it, which are fewer than `bound`. -/
structure Parsed (α : Type) (bound : Nat) where
  value : α
  rest : Stream
  shorter : rest.length < bound

abbrev Result (α : Type) (bound : Nat) : Type :=
  Except SourceError (Parsed α bound)

namespace Result

variable {α β : Type} {n : Nat}

/-- The same reading under a larger bound. -/
def within {m : Nat} (r : Result α n) (h : n ≤ m) : Result α m :=
  match r with
  | .ok p => .ok ⟨p.value, p.rest, Nat.lt_of_lt_of_le p.shorter h⟩
  | .error e => .error e

def weaken (r : Result α n) : Result α (n + 1) :=
  r.within (Nat.le_succ n)

/-- Turns what was read into something else. -/
def map (f : α → β) (r : Result α n) : Result β n :=
  match r with
  | .ok p => .ok ⟨f p.value, p.rest, p.shorter⟩
  | .error e => .error e

/-- Reads on with something that may take no token. -/
def andThenMaybe (r : Result α n) (f : α → (s : Stream) → Result β (s.length + 1)) :
    Result β n :=
  match r with
  | .ok p =>
    match f p.value p.rest with
    | .ok q => .ok ⟨q.value, q.rest, Nat.lt_of_lt_of_le q.shorter p.shorter⟩
    | .error e => .error e
  | .error e => .error e

/-- Reads on with something that takes a token. -/
def andThen (r : Result α n) (f : α → (s : Stream) → Result β s.length) : Result β n :=
  r.andThenMaybe fun a s => (f a s).weaken

end Result

/-- Reads nothing. -/
def stay {α : Type} (a : α) (s : Stream) : Result α (s.length + 1) :=
  .ok ⟨a, s, Nat.lt_succ_self _⟩

/-- The spelling of the next token, and where it stands. -/
def next : Stream → String × Position
  | .cons t _ => (t.token.spelling, t.position)
  | .finish p => ("end of input", p)
  | .failure e => ("end of input", e.position)

def unexpected (s : Stream) (expected : String) : SourceError :=
  .unexpected expected (next s).1 (next s).2

/-- Moving to a token reads one token further, so a mistake there is found now. -/
def lookAhead : Stream → Except SourceError Unit
  | .failure e => .error (.scan e)
  | .cons _ (.failure e) => .error (.scan e)
  | .cons _ (.cons _ _) => .ok ()
  | .cons _ (.finish _) => .ok ()
  | .finish _ => .ok ()

/-- The next token is `t`. -/
def isNext (t : Token) : Stream → Bool
  | .cons u _ => u.token = t
  | .finish _ => false
  | .failure _ => false

def isSymbol (s : Symbol) : Stream → Bool :=
  isNext (.symbol s)

/-- Reads the token `t` and answers where it stood. -/
def expect (t : Token) (s : Stream) : Result Position s.length :=
  match s with
  | .cons u rest =>
    if u.token = t then do
      lookAhead rest
      return ⟨u.position, rest, Nat.lt_succ_self _⟩
    else .error (unexpected (.cons u rest) t.spelling)
  | .finish p => .error (unexpected (.finish p) t.spelling)
  | .failure e => .error (unexpected (.failure e) t.spelling)

def expectSymbol (x : Symbol) (s : Stream) : Result Position s.length :=
  expect (.symbol x) s

def expectName (s : Stream) : Result String s.length :=
  match s with
  | .cons ⟨.name text, _⟩ rest => do
    lookAhead rest
    return ⟨text, rest, Nat.lt_succ_self _⟩
  | s => .error (unexpected s "identifier")

/-- Passes over semicolons. -/
def skipSemicolons : (s : Stream) → Result Unit (s.length + 1)
  | .cons t rest =>
    if t.token = .symbol .semicolon then do
      lookAhead rest
      let ⟨_, after, h⟩ ← skipSemicolons rest
      return ⟨(), after, Nat.lt_succ_of_lt h⟩
    else .ok ⟨(), .cons t rest, Nat.lt_succ_self _⟩
  | .finish p => .ok ⟨(), .finish p, Nat.lt_succ_self _⟩
  | .failure e => .ok ⟨(), .failure e, Nat.lt_succ_self _⟩

end Parse

end TorqueScript
