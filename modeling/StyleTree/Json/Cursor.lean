/-!
# Reading positions

A cursor is what is left of a text, with the number of characters before it. A syntax error has a
cause and the position that it points at.
-/

namespace StyleTree.Json

inductive Cause where
  | expectingValue
  | expectingName
  | expectingColon
  | expectingComma
  | extraData
  | unterminatedString
  | controlCharacter
  | unknownEscape
  | codePointEscape
  | byteOrderMark
  deriving DecidableEq, Repr

def Cause.message : Cause → String
  | expectingValue => "Expecting value"
  | expectingName => "Expecting property name enclosed in double quotes"
  | expectingColon => "Expecting ':' delimiter"
  | expectingComma => "Expecting ',' delimiter"
  | extraData => "Extra data"
  | unterminatedString => "Unterminated string starting at"
  | controlCharacter => "Invalid control character at"
  | unknownEscape => "Invalid \\escape"
  | codePointEscape => "Invalid \\uXXXX escape"
  | byteOrderMark => "Unexpected UTF-8 BOM (decode using utf-8-sig)"

structure SyntaxError where
  cause : Cause
  position : Nat
  deriving DecidableEq, Repr

/-- The cause with the line, the column and the position in `text`, where lines and columns count
from one. -/
def SyntaxError.message (text : List Char) (e : SyntaxError) : String :=
  let before := text.take e.position
  let line := before.count '\n' + 1
  let column := (before.reverse.takeWhile (· ≠ '\n')).length + 1
  s!"{e.cause.message}: line {line} column {column} (char {e.position})"

structure Cursor where
  position : Nat
  rest : List Char
  deriving DecidableEq, Repr

namespace Cursor

def isSpace (c : Char) : Bool :=
  c == ' ' || c == '\t' || c == '\n' || c == '\r'

/-- The cursor after the characters in front that satisfy `p`. -/
def skipWhile (p : Char → Bool) (cur : Cursor) : Cursor :=
  ⟨cur.position + (cur.rest.takeWhile p).length, cur.rest.dropWhile p⟩

def skipSpace (cur : Cursor) : Cursor :=
  cur.skipWhile isSpace

/-- The cursor after `word`, if the text goes on with it. -/
def skipWord? (word : List Char) (cur : Cursor) : Option Cursor :=
  if word.isPrefixOf cur.rest then
    some ⟨cur.position + word.length, cur.rest.drop word.length⟩
  else none

def error {α : Type} (cur : Cursor) (cause : Cause) : Except SyntaxError α :=
  .error ⟨cause, cur.position⟩

end Cursor

end StyleTree.Json
