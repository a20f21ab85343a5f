import StyleTree.Command.Usage
import StyleTree.Text.Similarity

/-!
# Command lines

A command line is a list of words. A word that starts with a hyphen and goes on is an option, by its
long name, or a cluster of options by their letters; the value of an option stands behind it, after
an equals sign, at the end of the cluster or in the next word. The word `--` ends the options. All
other words are operands.
-/

namespace StyleTree.Command

/-- An option: its long name, its letter, and whether it takes a value. -/
structure OptionForm where
  long : String
  letter : Option Char
  takesValue : Bool
  deriving DecidableEq, Repr

def OptionForm.letterName (letter : Char) : String :=
  String.ofList ['-', letter]

/-- The option as messages name it. -/
def OptionForm.parameter (form : OptionForm) : String :=
  match form.letter with
  | none => s!"'{form.long}'"
  | some letter => s!"'{form.long}' / '{letterName letter}'"

/-- An option that has been given. -/
structure Given where
  form : OptionForm
  value : Option String
  deriving DecidableEq, Repr

/-- An option whose value is the next word, with the name that it was given by. -/
structure Awaiting where
  form : OptionForm
  name : String

/-- The options and the operands of a command line. -/
structure Words where
  given : List Given
  operands : List String
  deriving DecidableEq, Repr

namespace Words

def flag (w : Words) (form : OptionForm) : Bool :=
  w.given.any fun g => g.form == form

/-- The value that was given last. -/
def value? (w : Words) (form : OptionForm) : Option String :=
  (w.given.filter fun g => g.form == form).getLast?.bind Given.value

end Words

/-- A word at its first equals sign: the name, and the value if there is the sign. -/
def splitValue (word : String) : String × Option String :=
  let name := word.toList.takeWhile (· ≠ '=')
  match word.toList.drop name.length with
  | [] => (word, none)
  | _ :: rest => (String.ofList name, some (String.ofList rest))

/-- Reads a cluster of letters. -/
def readLetters (forms : List OptionForm) :
    List Char → Except UsageFault (List Given × Option Awaiting)
  | [] => .ok ([], none)
  | c :: rest =>
    match forms.find? fun form => form.letter == some c with
    | none => .error (.unknownOption (OptionForm.letterName c) [])
    | some form =>
      if form.takesValue then
        if rest.isEmpty then .ok ([], some ⟨form, OptionForm.letterName c⟩)
        else .ok ([⟨form, some (String.ofList rest)⟩], none)
      else do
        let (others, awaiting) ← readLetters forms rest
        return (⟨form, none⟩ :: others, awaiting)

/-- Reads a word that starts with a hyphen. -/
def readOption (forms : List OptionForm) (word : String) :
    Except UsageFault (List Given × Option Awaiting) :=
  let (name, value) := splitValue word
  match forms.find? fun form => form.long == name with
  | some form =>
    match form.takesValue, value with
    | true, some v => .ok ([⟨form, some v⟩], none)
    | true, none => .ok ([], some ⟨form, name⟩)
    | false, some _ => .error (.valueRefused name)
    | false, none => .ok ([⟨form, none⟩], none)
  | none =>
    match word.toList with
    | '-' :: '-' :: _ =>
      .error (.unknownOption name (Text.similarTo name (forms.map OptionForm.long)))
    | _ => readLetters forms (word.toList.drop 1)

def isOptionWord (word : String) : Bool :=
  match word.toList with
  | '-' :: _ :: _ => true
  | _ => false

/-- Reads the words of a command. Unless operands and options may mix, the first operand ends the
options. -/
def readWords (forms : List OptionForm) (mixed : Bool) :
    Option Awaiting → List String → Except UsageFault Words
  | some awaiting, [] => .error (.valueMissing awaiting.name)
  | none, [] => .ok ⟨[], []⟩
  | some awaiting, word :: rest => do
    let others ← readWords forms mixed none rest
    return ⟨⟨awaiting.form, some word⟩ :: others.given, others.operands⟩
  | none, word :: rest =>
    if word = "--" then .ok ⟨[], rest⟩
    else if isOptionWord word then do
      let (given, awaiting) ← readOption forms word
      let others ← readWords forms mixed awaiting rest
      return ⟨given ++ others.given, others.operands⟩
    else if mixed then do
      let others ← readWords forms mixed none rest
      return ⟨others.given, word :: others.operands⟩
    else .ok ⟨[], word :: rest⟩

end StyleTree.Command
