import TorqueScript.Token
import TorqueScript.Number.Numeral

/-!
Reading tokens. A cursor stands somewhere in a source text; each step passes over
the gap of blanks and comments before the next token and reads that token. Reading
does not end at a mistake: the next step goes on from where it was found.
-/

namespace TorqueScript

open Text

/-- What can be wrong with a text where a token should begin. -/
inductive Defect where
  | unterminatedText
  | badNumeral (text : String)
  | unknownCharacter (c : Char)
deriving DecidableEq

structure ScanError where
  defect : Defect
  position : Position
deriving DecidableEq

def Defect.message : Defect → String
  | .unterminatedText => "unterminated string literal"
  | .badNumeral text => "invalid numeric literal '" ++ text ++ "'"
  | .unknownCharacter c => "unknown character '" ++ String.singleton c ++ "'"

def ScanError.message (e : ScanError) : String :=
  e.position.toText ++ ": " ++ e.defect.message

namespace Scan

def startsWith (p : Char → Bool) : List Char → Bool
  | c :: _ => p c
  | [] => false

/-- The blanks that may stand between tokens. -/
def isGapBlank (c : Char) : Bool :=
  c == ' ' || c == '\t' || c == '\n' || c == '\r' || c == '\x0c'

/-- A name after the sign of a variable: segments joined by `::`. -/
def variablePath : List Char → List Char
  | [] => []
  | c :: cs =>
    if isNameChar c then c :: variablePath cs
    else
      match c, cs with
      | ':', ':' :: d :: rest => if isLetter d then ':' :: ':' :: d :: variablePath rest else []
      | _, _ => []

/-- The length of a decimal point with its digits. -/
def pointLength : List Char → Nat
  | '.' :: cs =>
    let digits := (cs.takeWhile Char.isDigit).length
    if digits = 0 then 0 else digits + 1
  | _ => 0

/-- The length of an exponent, and whether it has digits. -/
def exponentLength : List Char → Nat × Bool
  | c :: cs =>
    if c == 'e' || c == 'E' then
      let sign := if startsWith (fun s => s == '+' || s == '-') cs then 1 else 0
      let digits := ((cs.drop sign).takeWhile Char.isDigit).length
      (1 + sign + digits, digits != 0)
    else (0, true)
  | [] => (0, true)

/-- The length of the numeral that a text begins with, and whether it is complete. -/
def numeralLength (cs : List Char) : Nat × Bool :=
  match Number.hexDigits? cs with
  | some digits => (2 + digits.length, !digits.isEmpty)
  | none =>
    let whole := (cs.takeWhile Char.isDigit).length
    let point := pointLength (cs.drop whole)
    let (exponent, complete) := exponentLength (cs.drop (whole + point))
    (whole + point + exponent, complete)

/-- The text of a quoted literal up to its closing quote, and whether there is one. A line end
closes nothing, unless a backslash stands before it. -/
def quotedText (quote : Char) : List Char → List Char × Bool
  | [] => ([], false)
  | c :: cs =>
    if c = quote then ([], true)
    else if c = '\n' then ([], false)
    else if c = '\\' then
      match cs with
      | [] => ([c], false)
      | d :: rest =>
        let (text, closed) := quotedText quote rest
        (c :: d :: text, closed)
    else
      let (text, closed) := quotedText quote cs
      (c :: text, closed)

/-- The control characters that stand for the colors 0 to 9. -/
def colorCodes : List Char :=
  ['\x02', '\x03', '\x04', '\x05', '\x06', '\x07', '\x08', '\x0b', '\x0c', '\x0e']

/-- How much of an escape has been read. -/
inductive Escape where
  | plain
  | opened
  | code
  | codeDigit (value : Nat)
  | color

private def Escape.stepPlain (c : Char) : List Char × Escape :=
  if c = '\\' then ([], .opened) else ([c], .plain)

/-- One character of a quoted text: what it adds to the content, and what is pending after it. -/
def Escape.step : Escape → Char → List Char × Escape
  | .plain, c => stepPlain c
  | .opened, c =>
    if c = 'n' then (['\n'], .plain)
    else if c = 't' then (['\t'], .plain)
    else if c = 'r' then (['\r'], .plain)
    else if c = 'x' then ([], .code)
    else if c = 'c' then ([], .color)
    else ([c], .plain)
  | .code, c =>
    if isHexDigit c then ([], .codeDigit (hexValue c))
    else
      let (out, next) := stepPlain c
      ('x' :: out, next)
  | .codeDigit value, c =>
    if isHexDigit c then ([Char.ofNat (16 * value + hexValue c)], .plain)
    else
      let (out, next) := stepPlain c
      (Char.ofNat value :: out, next)
  | .color, c =>
    if c.isDigit then ([colorCodes.getD (digitValue c) 'c'], .plain)
    else
      let (out, next) := stepPlain c
      ('c' :: out, next)

/-- What an escape stands for when the text ends in it. -/
def Escape.close : Escape → List Char
  | .plain => []
  | .opened => []
  | .code => ['x']
  | .codeDigit value => [Char.ofNat value]
  | .color => ['c']

def unescapeFrom (e : Escape) : List Char → List Char
  | [] => e.close
  | c :: cs =>
    let (out, next) := e.step c
    out ++ unescapeFrom next cs

/-- What a quoted text stands for. Line end, tab, return, character codes and colors have escapes;
a backslash before any other character stands for that character. -/
def unescape (cs : List Char) : List Char :=
  unescapeFrom .plain cs

/-- Reads the token that begins with `c` and goes on in `cs`. The answer is the token and how many
characters of `cs` belong to it, or the defect and how many characters from `c` on it spoils. -/
def lexeme (c : Char) (cs : List Char) : Except (Defect × Nat) (Token × Nat) :=
  if isLetter c then
    let tail := cs.takeWhile isNameChar
    let name := String.ofList (c :: tail)
    match Keyword.ofName? name with
    | some .switch =>
      if startsWith (· == '$') (cs.drop tail.length) then
        .ok (.keyword .switchText, tail.length + 1)
      else .ok (.keyword .switch, tail.length)
    | some k => .ok (.keyword k, tail.length)
    | none => .ok (.name name, tail.length)
  else if c.isDigit || c == '.' && startsWith Char.isDigit cs then
    let (length, complete) := numeralLength (c :: cs)
    let rest := (c :: cs).drop length
    if complete && !startsWith isNameChar rest then
      .ok (.numeral (String.ofList ((c :: cs).take length)), length - 1)
    else
      let spoiled := length + (rest.takeWhile fun d => isNameChar d || d == '.').length
      .error (.badNumeral (String.ofList ((c :: cs).take spoiled)), spoiled)
  else if c == '\x22' || c == '\x27' then
    let (text, closed) := quotedText c cs
    if closed then .ok (.text (String.ofList (unescape text)), text.length + 1)
    else .error (.unterminatedText, text.length + 1)
  else if c == '%' && startsWith isLetter cs then
    let path := variablePath cs
    .ok (.localVariable (String.ofList path), path.length)
  else if c == '$' && startsWith (fun d => isLetter d || d == ':') cs then
    let path := variablePath cs
    .ok (.globalVariable (String.ofList path), path.length)
  else
    match Symbol.leading? (c :: cs) with
    | some s => .ok (.symbol s, s.spelling.length - 1)
    | none => .error (.unknownCharacter c, 0)

end Scan

/-- A place in a source text: what is left to read, and where that begins. -/
structure Cursor where
  rest : List Char
  position : Position

namespace Cursor

def ofText (source : String) : Cursor :=
  ⟨source.toList, .start⟩

/-- What a gap consists of at some character. In a block comment the flag tells of a star just
before. -/
inductive Gap where
  | blank
  | line
  | block (star : Bool)

/-- Passes over a gap. A block comment that is never closed still counts the two columns of the
mark that would close it. -/
def skip : Gap → List Char → Position → Cursor
  | .block _, [], p => ⟨[], ⟨p.line, p.column + 2⟩⟩
  | .blank, [], p => ⟨[], p⟩
  | .line, [], p => ⟨[], p⟩
  | .blank, c :: cs, p =>
    if Scan.isGapBlank c then skip .blank cs (p.step c)
    else if c = '/' then
      match cs with
      | [] => ⟨[c], p⟩
      | d :: rest =>
        if d = '/' then skip .line rest ((p.step c).step d)
        else if d = '*' then skip (.block false) rest ((p.step c).step d)
        else ⟨c :: d :: rest, p⟩
    else ⟨c :: cs, p⟩
  | .line, c :: cs, p =>
    if c = '\n' then skip .blank cs (p.step c) else skip .line cs (p.step c)
  | .block star, c :: cs, p =>
    if star && c == '/' then skip .blank cs (p.step c) else skip (.block (c == '*')) cs (p.step c)

def skipGap (c : Cursor) : Cursor :=
  skip .blank c.rest c.position

def advance (c : Cursor) (n : Nat) : Cursor :=
  ⟨c.rest.drop n, c.position.after (c.rest.take n)⟩

theorem length_skip_le (g : Gap) (cs : List Char) (p : Position) :
    (skip g cs p).rest.length ≤ cs.length := by
  fun_induction skip g cs p <;> simp_all <;> omega

end Cursor

/-- What one step of reading finds. -/
inductive Item where
  | token (t : Located)
  | finish (position : Position)
  | failure (e : ScanError)

/-- Reads the next token. -/
def Cursor.step (c : Cursor) : Item × Cursor :=
  let c := c.skipGap
  match c.rest with
  | [] => (.finish c.position, c)
  | d :: ds =>
    match Scan.lexeme d ds with
    | .ok (token, n) => (.token ⟨token, c.position⟩, c.advance (n + 1))
    | .error (defect, n) => (.failure ⟨defect, c.position⟩, c.advance n)

/-- The first `n` steps of reading, past mistakes and past the end. -/
def Cursor.steps : Nat → Cursor → List Item
  | 0, _ => []
  | n + 1, c =>
    let (item, next) := c.step
    item :: next.steps n

end TorqueScript
