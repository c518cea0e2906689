import TorqueScript.Position
import TorqueScript.Text.Letter

/-!
The tokens of the language: names, variables, numerals, quoted texts, keywords and
symbols. Symbols and keywords are listed with their spelling, and reading goes by
those lists.
-/

namespace TorqueScript

inductive Symbol where
  | textNotEqual
  | equal | notEqual | textEqual | lessEqual | greaterEqual
  | logicalAnd | logicalOr | shiftLeft | shiftRight
  | increment | decrement
  | addAssign | subAssign | mulAssign | divAssign | remAssign
  | doubleColon
  | assign | plus | minus | star | slash | percent | bang | tilde | less | greater
  | ampersand | bar | caret | concat | question | colon | dot | comma | semicolon
  | openParen | closeParen | openBrace | closeBrace | openBracket | closeBracket
deriving DecidableEq

namespace Symbol

def spelling : Symbol → String
  | textNotEqual => "!$="
  | equal => "=="
  | notEqual => "!="
  | textEqual => "$="
  | lessEqual => "<="
  | greaterEqual => ">="
  | logicalAnd => "&&"
  | logicalOr => "||"
  | shiftLeft => "<<"
  | shiftRight => ">>"
  | increment => "++"
  | decrement => "--"
  | addAssign => "+="
  | subAssign => "-="
  | mulAssign => "*="
  | divAssign => "/="
  | remAssign => "%="
  | doubleColon => "::"
  | assign => "="
  | plus => "+"
  | minus => "-"
  | star => "*"
  | slash => "/"
  | percent => "%"
  | bang => "!"
  | tilde => "~"
  | less => "<"
  | greater => ">"
  | ampersand => "&"
  | bar => "|"
  | caret => "^"
  | concat => "@"
  | question => "?"
  | colon => ":"
  | dot => "."
  | comma => ","
  | semicolon => ";"
  | openParen => "("
  | closeParen => ")"
  | openBrace => "\x7b"
  | closeBrace => "\x7d"
  | openBracket => "["
  | closeBracket => "]"

/-- All symbols, longer spellings first. -/
def all : List Symbol := [
  textNotEqual,
  equal, notEqual, textEqual, lessEqual, greaterEqual, logicalAnd, logicalOr, shiftLeft,
  shiftRight, increment, decrement, addAssign, subAssign, mulAssign, divAssign, remAssign,
  doubleColon,
  assign, plus, minus, star, slash, percent, bang, tilde, less, greater, ampersand, bar, caret,
  concat, question, colon, dot, comma, semicolon, openParen, closeParen, openBrace, closeBrace,
  openBracket, closeBracket]

/-- The longest symbol that a text begins with. -/
def leading? (cs : List Char) : Option Symbol :=
  all.find? fun s => s.spelling.toList.isPrefixOf cs

end Symbol

inductive Keyword where
  | function | package | datablock | new | if | else | while | for
  | switch | switchText | case | or | default | break | continue | return
  | true | false | spc | tab | nl
deriving DecidableEq

namespace Keyword

def spelling : Keyword → String
  | function => "function"
  | package => "package"
  | datablock => "datablock"
  | new => "new"
  | .if => "if"
  | .else => "else"
  | .while => "while"
  | .for => "for"
  | switch => "switch"
  | switchText => "switch$"
  | case => "case"
  | or => "or"
  | default => "default"
  | .break => "break"
  | .continue => "continue"
  | .return => "return"
  | .true => "true"
  | .false => "false"
  | spc => "SPC"
  | tab => "TAB"
  | nl => "NL"

/-- The keywords that are written like names. -/
def words : List Keyword := [
  function, package, datablock, new, .if, .else, .while, .for, switch, case, or, default, .break,
  .continue, .return, .true, .false, spc, tab, nl]

/-- The keyword that a name is, in any case of its letters. -/
def ofName? (name : String) : Option Keyword :=
  let folded := Text.lowerAscii name
  words.find? fun k => Text.lowerAscii k.spelling = folded

end Keyword

inductive Token where
  | name (text : String)
  | localVariable (name : String)
  | globalVariable (name : String)
  | numeral (text : String)
  | text (content : String)
  | keyword (k : Keyword)
  | symbol (s : Symbol)
deriving DecidableEq

/-- How a token is shown in messages. -/
def Token.spelling : Token → String
  | .name s => s
  | .localVariable s => "%" ++ s
  | .globalVariable s => "$" ++ s
  | .numeral s => s
  | .text s => "\"" ++ s ++ "\""
  | .keyword k => k.spelling
  | .symbol s => s.spelling

/-- A token and the position of its first character. -/
structure Located where
  token : Token
  position : Position
deriving DecidableEq

end TorqueScript
