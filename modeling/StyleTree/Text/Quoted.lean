import StyleTree.Text.Hex
import StyleTree.Text.Printable

/-!
# Quoted text

A text is quoted with single quotes, and with double quotes when it holds a single quote and no
double quote. Inside, the backslash, the quote in use and the characters without a printed form are
escaped: line feed, carriage return and tab by a letter, the rest by their code point in two, four
or eight hexadecimal digits.
-/

namespace StyleTree.Text

def codePointEscape (c : Char) : List Char :=
  let n := c.toNat
  if n ≤ 0xff then ['\\', 'x'] ++ hexDigits 2 n
  else if n ≤ 0xffff then ['\\', 'u'] ++ hexDigits 4 n
  else ['\\', 'U'] ++ hexDigits 8 n

def escapeChar (quote c : Char) : List Char :=
  if c = quote ∨ c = '\\' then ['\\', c]
  else if c = '\n' then ['\\', 'n']
  else if c = '\r' then ['\\', 'r']
  else if c = '\t' then ['\\', 't']
  else if isPrintable c then [c]
  else codePointEscape c

def quoteFor (cs : List Char) : Char :=
  if '\'' ∈ cs ∧ '"' ∉ cs then '"' else '\''

def quoted (s : String) : String :=
  let quote := quoteFor s.toList
  String.ofList (quote :: s.toList.flatMap (escapeChar quote) ++ [quote])

end StyleTree.Text
