import TorqueScript.Token.Stream
import TorqueScript.Proofs.Text.Utf8

/-!
Reading tokens byte by byte. Here the source is taken apart into bytes, a cursor moves by one
byte at a time and sees a few bytes ahead, and texts are cut out between byte offsets. The
readers have no bounds: a loop goes on as long as its condition holds, and there is no answer
if it never ends, if a text is cut inside a character or beyond the source, if a color has no
code, or if the code of a character does not fit a byte.
-/

namespace TorqueScript

open Text Scan

/-- A place among the bytes of a source, and the line and column counted up to it. -/
@[ext]
structure ByteCursor where
  source : List Char
  offset : Nat
  position : Position

namespace ByteCursor

def ofText (source : String) : ByteCursor :=
  ⟨source.toList, 0, .start⟩

/-- The byte `n` places on. Past the end there are null bytes. -/
def byte (c : ByteCursor) (n : Nat) : UInt8 :=
  (encode c.source).getD (c.offset + n) 0

/-- The byte `n` places on, taken for a character. -/
def look (c : ByteCursor) (n : Nat) : Char :=
  Char.ofUInt8 (c.byte n)

def atEnd (c : ByteCursor) : Bool :=
  byteLength c.source ≤ c.offset

/-- Moves on by one byte, also past the end. -/
def next (c : ByteCursor) : ByteCursor where
  source := c.source
  offset := c.offset + 1
  position :=
    if c.look 0 = '\n' then ⟨c.position.line + 1, 1⟩ else ⟨c.position.line, c.position.column + 1⟩

def advance : Nat → ByteCursor → ByteCursor
  | 0, c => c
  | n + 1, c => c.next.advance n

def advanceWhile (p : ByteCursor → Bool) (c : ByteCursor) : Option ByteCursor :=
  if p c then c.next |>.advanceWhile p else some c
partial_fixpoint

/-- Moves on over the bytes of a class. -/
def advanceOver (p : Char → Bool) (c : ByteCursor) : Option ByteCursor :=
  c.advanceWhile fun c => p (c.look 0)

/-- The text between two places, if it can be cut out there. -/
def textTo (start stop : ByteCursor) : Option String :=
  if start.offset ≤ stop.offset then
    (slice? start.offset stop.offset start.source).map String.ofList
  else none

/-- The characters come next. -/
def sees (c : ByteCursor) : List Char → Bool
  | [] => true
  | d :: ds => c.look 0 == d && c.next.sees ds

/-- The condition under which a line comment goes on. -/
def inLine (c : ByteCursor) : Bool :=
  c.look 0 != '\n' && !c.atEnd

/-- The condition under which a block comment goes on. -/
def inBlock (c : ByteCursor) : Bool :=
  !c.atEnd && !(c.look 0 == '*' && c.look 1 == '/')

def skipGap (c : ByteCursor) : Option ByteCursor := do
  let c ← c.advanceOver isGapBlank
  if c.look 0 == '/' && c.look 1 == '/' then
    let c ← c.advanceWhile inLine
    c |>.skipGap
  else if c.look 0 == '/' && c.look 1 == '*' then
    let c ← c.next.next.advanceWhile inBlock
    c.next.next |>.skipGap
  else return c
partial_fixpoint

/-- Moves on over a name whose segments are joined by `::`. -/
def skipPath (c : ByteCursor) : Option ByteCursor :=
  if isNameChar (c.look 0) then c.next |>.skipPath
  else if c.look 0 == ':' && c.look 1 == ':' && isLetter (c.look 2) then c.next.next |>.skipPath
  else some c
partial_fixpoint

def isHexMark (c : Char) : Bool :=
  c == 'x' || c == 'X'

def isExponentMark (c : Char) : Bool :=
  c == 'e' || c == 'E'

def isSign (c : Char) : Bool :=
  c == '+' || c == '-'

/-- The end of a decimal point with its digits. -/
def pointEnd (c : ByteCursor) : Option ByteCursor :=
  if c.look 0 == '.' && (c.look 1).isDigit then c.next.advanceOver Char.isDigit else some c

/-- The end of an exponent, and whether it has digits. -/
def exponentEnd (c : ByteCursor) : Option (ByteCursor × Bool) :=
  if isExponentMark (c.look 0) then do
    let digits := if isSign (c.next.look 0) then c.next.next else c.next
    let stop ← digits.advanceOver Char.isDigit
    return (stop, digits.offset < stop.offset)
  else some (c, true)

/-- The end of a numeral, and whether the numeral is complete there. -/
def numeralEnd (c : ByteCursor) : Option (ByteCursor × Bool) :=
  if c.look 0 == '0' && isHexMark (c.look 1) then do
    let digits := c.next.next
    let stop ← digits.advanceOver isHexDigit
    return (stop, digits.offset < stop.offset)
  else do
    let whole ← c.advanceOver Char.isDigit
    let point ← whole.pointEnd
    point.exponentEnd

def numeral (c : ByteCursor) : Option (Except Defect Token × ByteCursor) := do
  let (stop, complete) ← c.numeralEnd
  if complete && !isNameChar (stop.look 0) then
    let text ← c.textTo stop
    return (.ok (.numeral text), stop)
  else
    let stop ← stop.advanceOver fun d => isNameChar d || d == '.'
    let text ← c.textTo stop
    return (.error (.badNumeral text), stop)

/-- The number as a byte, if it is small enough for one. -/
def byte? (n : Nat) : Option UInt8 :=
  if n < 256 then some (UInt8.ofNat n) else none

/-- Takes up to `n` hexadecimal digits after the cursor into the value, and moves to the last of
them. -/
def codeDigits : Nat → UInt8 → ByteCursor → Option (UInt8 × ByteCursor)
  | 0, value, c => some (value, c)
  | n + 1, value, c =>
    if isHexDigit (c.look 1) then do
      let value ← byte? (16 * value.toNat + hexValue (c.look 1))
      codeDigits n value c.next
    else some (value, c)

/-- The bytes that an escape adds, by what comes after its backslash. Of a character outside ASCII
this is the first byte only. -/
def escape (c : ByteCursor) : Option (List UInt8 × ByteCursor) :=
  if c.look 0 == 'n' then some (['\n'.toUInt8], c.next)
  else if c.look 0 == 't' then some (['\t'.toUInt8], c.next)
  else if c.look 0 == 'r' then some (['\r'.toUInt8], c.next)
  else if c.look 0 == 'x' && isHexDigit (c.look 1) then do
    let (value, c) ← codeDigits 2 0 c
    return (String.utf8EncodeChar (Char.ofUInt8 value), c.next)
  else if c.look 0 == 'c' && (c.look 1).isDigit then do
    let color ← colorCodes[digitValue (c.look 1)]?
    return ([color.toUInt8], c.next.next)
  else some ([c.byte 0], c.next)

/-- Collects the bytes of a quoted text, up to its closing quote. There are none if no quote closes
it. -/
def quotedBytes (quote : Char) (buffer : List UInt8) (c : ByteCursor) :
    Option (Option (List UInt8) × ByteCursor) :=
  if c.atEnd || c.look 0 == '\n' then some (none, c)
  else if c.look 0 == quote then some (some buffer, c.next)
  else if c.look 0 == '\\' then
    if c.next.atEnd then some (none, c.next)
    else do
      let (bytes, c) ← c.next.escape
      c |>.quotedBytes quote (buffer ++ bytes)
  else c.next |>.quotedBytes quote (buffer ++ [c.byte 0])
partial_fixpoint

def quotedText (c : ByteCursor) : Option (Except Defect Token × ByteCursor) := do
  let (buffer, stop) ← quotedBytes (c.look 0) [] c.next
  match buffer with
  | some bytes => return (.ok (.text (String.ofList (decodeLossy bytes))), stop)
  | none => return (.error .unterminatedText, stop)

/-- Reads the token or the mistake at a place where no gap begins. -/
def lexeme (c : ByteCursor) : Option (Except Defect Token × ByteCursor) := do
  if isLetter (c.look 0) then
    let stop ← c.advanceOver isNameChar
    let name ← c.textTo stop
    match Keyword.ofName? name with
    | some .switch =>
      if stop.look 0 == '$' then return (.ok (.keyword .switchText), stop.next)
      else return (.ok (.keyword .switch), stop)
    | some k => return (.ok (.keyword k), stop)
    | none => return (.ok (.name name), stop)
  else if (c.look 0).isDigit || c.look 0 == '.' && (c.look 1).isDigit then c.numeral
  else if c.look 0 == '\x22' || c.look 0 == '\x27' then c.quotedText
  else if c.look 0 == '%' && isLetter (c.look 1) then
    let stop ← c.next.skipPath
    let path ← c.next.textTo stop
    return (.ok (.localVariable path), stop)
  else if c.look 0 == '$' && (isLetter (c.look 1) || c.look 1 == ':') then
    let stop ← c.next.skipPath
    let path ← c.next.textTo stop
    return (.ok (.globalVariable path), stop)
  else
    match Symbol.all.find? fun s => c.sees s.spelling.toList with
    | some s => return (.ok (.symbol s), c.advance s.spelling.length)
    | none =>
      let rest ← dropBytes? c.offset c.source
      return (.error (.unknownCharacter (rest.headD '\x00')), c)

/-- Reads the next token. -/
def step (c : ByteCursor) : Option (Item × ByteCursor) := do
  let c ← c.skipGap
  if c.atEnd then return (.finish c.position, c)
  else
    let (found, stop) ← c.lexeme
    match found with
    | .ok token => return (.token ⟨token, c.position⟩, stop)
    | .error defect => return (.failure ⟨defect, c.position⟩, stop)

/-- The first `n` steps of reading, past mistakes and past the end, and the place after them. -/
def steps : Nat → ByteCursor → Option (List Item × ByteCursor)
  | 0, c => some ([], c)
  | n + 1, c => do
    let (item, c) ← c.step
    let (items, c) ← c.steps n
    return (item :: items, c)

/-- The tokens one after the other, up to the end or the first mistake. -/
def items (c : ByteCursor) : Option (List Item) := do
  let (item, c) ← c.step
  match item with
  | .token t =>
    let rest ← c |>.items
    return .token t :: rest
  | .finish p => return [.finish p]
  | .failure e => return [.failure e]
partial_fixpoint

end ByteCursor

end TorqueScript
