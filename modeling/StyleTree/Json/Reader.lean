import StyleTree.Assoc
import StyleTree.Json.Token
import StyleTree.Text.Newline
import StyleTree.Value

/-!
# Reading JSON

A JSON text is one value with nothing but space around it. Beside the standard, the words `NaN`,
`Infinity` and `-Infinity` are numbers. A name that occurs again in an object keeps its first place
and takes its last value.
-/

namespace StyleTree.Json

/-- The values that are single words. -/
def words : List (List Char × Value) :=
  [("null".toList, .null), ("true".toList, .flag true), ("false".toList, .flag false),
   ("NaN".toList, .number (.float .nan)),
   ("Infinity".toList, .number (.float (.infinity false))),
   ("-Infinity".toList, .number (.float (.infinity true)))]

/-- Reads a value that holds no others: a word, a number or a string. -/
def scalar (cur : Cursor) : Except SyntaxError (Value × Cursor) :=
  match words.findSome? fun (word, v) => (cur.skipWord? word).map (v, ·) with
  | some result => .ok result
  | none =>
    match string? cur with
    | some read => read.map fun (s, after) => (.text s, after)
    | none =>
      match number? cur with
      | some (n, after) => .ok (.number n, after)
      | none => cur.error .expectingValue

mutual

/-- Reads a value. Every two calls read at least one character, which bounds their number. -/
def value : Nat → Cursor → Except SyntaxError (Value × Cursor)
  | 0, cur => cur.error .expectingValue
  | calls + 1, cur =>
    match cur.rest with
    | '[' :: rest =>
      let inside := Cursor.skipSpace ⟨cur.position + 1, rest⟩
      match inside.rest with
      | ']' :: rest => .ok (.list [], ⟨inside.position + 1, rest⟩)
      | _ => do
        let (items, after) ← elements calls inside
        return (.list items, after)
    | '\x7b' :: rest =>
      let inside := Cursor.skipSpace ⟨cur.position + 1, rest⟩
      match inside.rest with
      | '\x7d' :: rest => .ok (.mapping [], ⟨inside.position + 1, rest⟩)
      | _ => do
        let (ms, after) ← members calls inside
        return (.mapping (Assoc.ofPairs ms), after)
    | _ => scalar cur

/-- Reads the values of an array and its closing bracket. -/
def elements : Nat → Cursor → Except SyntaxError (List Value × Cursor)
  | 0, cur => cur.error .expectingValue
  | calls + 1, cur => do
    let (v, after) ← value calls cur
    let after := after.skipSpace
    match after.rest with
    | ']' :: rest => return ([v], ⟨after.position + 1, rest⟩)
    | ',' :: rest =>
      let (vs, after) ← elements calls (Cursor.skipSpace ⟨after.position + 1, rest⟩)
      return (v :: vs, after)
    | _ => after.error .expectingComma

/-- Reads the members of an object and its closing brace. -/
def members : Nat → Cursor → Except SyntaxError (List (String × Value) × Cursor)
  | 0, cur => cur.error .expectingValue
  | calls + 1, cur =>
    match string? cur with
    | none => cur.error .expectingName
    | some read => do
      let (name, after) ← read
      let after := after.skipSpace
      match after.rest with
      | ':' :: rest =>
        let (v, after) ← value calls (Cursor.skipSpace ⟨after.position + 1, rest⟩)
        let after := after.skipSpace
        match after.rest with
        | '\x7d' :: rest => return ([(name, v)], ⟨after.position + 1, rest⟩)
        | ',' :: rest =>
          let (ms, after) ← members calls (Cursor.skipSpace ⟨after.position + 1, rest⟩)
          return ((name, v) :: ms, after)
        | _ => after.error .expectingComma
      | _ => after.error .expectingColon

end

/-- Reads a whole text, which may not start with a byte order mark. -/
def read (text : List Char) : Except SyntaxError Value :=
  if text.head? = some '\ufeff' then .error ⟨.byteOrderMark, 0⟩
  else do
    let (v, after) ← value (2 * text.length + 2) (Cursor.skipSpace ⟨0, text⟩)
    let after := after.skipSpace
    if after.rest.isEmpty then return v else after.error .extraData

/-- Reads the text of a file, whatever its line ends; an error is given by its message. -/
def readText (text : String) : Except String Value :=
  let cs := Text.unifyNewlines text.toList
  (read cs).mapError (SyntaxError.message cs)

end StyleTree.Json
