import StyleTree.Json.Cursor
import StyleTree.Number.Basic
import StyleTree.Text.Hex

/-!
# Strings and numbers

A string ends at the first quote that no backslash precedes; a control character inside it is an
error. A code point is escaped by its four hexadecimal digits, one beyond the first plane by the two
escapes of its surrogates. A number is an integer unless a fraction or an exponent follows; a point
or a mark that no digit follows is left unread.
-/

namespace StyleTree.Json

/-! ## Strings -/

/-- The character that a letter stands for behind a backslash. -/
def simpleEscape? : Char → Option Char
  | '"' => some '"'
  | '\\' => some '\\'
  | '/' => some '/'
  | 'b' => some '\x08'
  | 'f' => some '\x0c'
  | 'n' => some '\n'
  | 'r' => some '\r'
  | 't' => some '\t'
  | _ => none

def isHighSurrogate (unit : Nat) : Bool :=
  0xd800 ≤ unit && unit ≤ 0xdbff

def isLowSurrogate (unit : Nat) : Bool :=
  0xdc00 ≤ unit && unit ≤ 0xdfff

def joinSurrogates (high low : Nat) : Char :=
  .ofNat (0x10000 + (high - 0xd800) * 0x400 + (low - 0xdc00))

/-- The character of a single unit; half a pair has none and is replaced. -/
def charOfUnit (unit : Nat) : Char :=
  if 0xd800 ≤ unit ∧ unit ≤ 0xdfff then '\ufffd' else .ofNat unit

/-- The low surrogate that an escape in front of the text stands for. -/
def lowSurrogate? : List Char → Option Nat
  | '\\' :: 'u' :: a :: b :: c :: d :: _ :: _ =>
    (Text.ofHexDigits? [a, b, c, d]).filter isLowSurrogate
  | _ => none

/-- A high surrogate whose low surrogate has yet to be read. -/
abbrev Pending := Option Nat

/-- The characters of a string up to its quote, and the cursor behind the quote. `start` is the
position of the quote that opens the string; `pending` is set between the two escapes of a pair. -/
def scanString (start : Nat) (pending : Pending) (position : Nat) :
    List Char → Except SyntaxError (List Char × Cursor)
  | '"' :: rest => .ok ([], ⟨position + 1, rest⟩)
  | '\\' :: 'u' :: a :: b :: c :: d :: e :: rest =>
    match Text.ofHexDigits? [a, b, c, d] with
    | none => .error ⟨.codePointEscape, position + 1⟩
    | some unit =>
      if isHighSurrogate unit ∧ (lowSurrogate? (e :: rest)).isSome then
        scanString start (some unit) (position + 6) (e :: rest)
      else do
        let (cs, cur) ← scanString start none (position + 6) (e :: rest)
        let c := match pending with
          | some high => joinSurrogates high unit
          | none => charOfUnit unit
        return (c :: cs, cur)
  | '\\' :: 'u' :: _ => .error ⟨.codePointEscape, position + 1⟩
  | '\\' :: c :: rest =>
    match simpleEscape? c with
    | none => .error ⟨.unknownEscape, position⟩
    | some c => do
      let (cs, cur) ← scanString start none (position + 2) rest
      return (c :: cs, cur)
  | ['\\'] => .error ⟨.unterminatedString, start⟩
  | c :: rest =>
    if c ≤ '\x1f' then .error ⟨.controlCharacter, position⟩
    else do
      let (cs, cur) ← scanString start none (position + 1) rest
      return (c :: cs, cur)
  | [] => .error ⟨.unterminatedString, start⟩

/-- Reads a string whose quote is in front of the cursor. -/
def string? (cur : Cursor) : Option (Except SyntaxError (String × Cursor)) :=
  match cur.rest with
  | '"' :: rest =>
    some ((scanString cur.position none (cur.position + 1) rest).map fun (cs, after) =>
      (String.ofList cs, after))
  | _ => none

/-! ## Numbers -/

/-- The digits of a whole number: a single zero, or digits that start with none. -/
def wholeDigits : List Char → List Char
  | '0' :: _ => ['0']
  | cs => cs.takeWhile Char.isDigit

/-- The fraction in front of the text, with its point, or nothing. -/
def fractionPart : List Char → List Char
  | '.' :: rest =>
    let digits := rest.takeWhile Char.isDigit
    if digits.isEmpty then [] else '.' :: digits
  | _ => []

/-- The exponent in front of the text, with its mark and sign, or nothing. -/
def exponentPart : List Char → List Char
  | mark :: rest =>
    if mark = 'e' ∨ mark = 'E' then
      let sign := match rest with
        | '+' :: _ => ['+']
        | '-' :: _ => ['-']
        | _ => []
      let digits := (rest.drop sign.length).takeWhile Char.isDigit
      if digits.isEmpty then [] else mark :: sign ++ digits
    else []
  | [] => []

/-- Reads a number in front of the cursor. -/
def number? (cur : Cursor) : Option (Number × Cursor) :=
  let sign := match cur.rest with
    | '-' :: _ => ['-']
    | _ => []
  let rest := cur.rest.drop sign.length
  let whole := wholeDigits rest
  if whole.isEmpty then none
  else
    let rest := rest.drop whole.length
    let fraction := fractionPart rest
    let rest := rest.drop fraction.length
    let exponent := exponentPart rest
    let written := sign ++ whole ++ fraction ++ exponent
    let after : Cursor := ⟨cur.position + written.length, rest.drop exponent.length⟩
    if fraction.isEmpty && exponent.isEmpty then
      let size : Int := Decimal.ofDigits whole
      some (.int (if sign.isEmpty then size else -size), after)
    else (Binary64.read? (String.ofList written)).map fun x => (.float x, after)

end StyleTree.Json
