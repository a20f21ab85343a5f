import StyleTree.Assoc

/-!
# Named constants

Constants give values to names, such as colours to `primary`. A declaration whose whole text is an
identifier takes the constant of that name; any other text, and an unknown name, stands for itself.
-/

namespace StyleTree

/-- Names with their values; the names are distinct. -/
abbrev Constants := List (String × String)

namespace Constants

def isIdentifierStart (c : Char) : Bool :=
  c.isAlpha || c == '_'

def isIdentifierPart (c : Char) : Bool :=
  c.isAlphanum || c == '_' || c == '-'

/-- The characters after the first one of an identifier; one line feed may end it. -/
def isIdentifierTail : List Char → Bool
  | [] => true
  | ['\n'] => true
  | c :: rest => isIdentifierPart c && isIdentifierTail rest

def isIdentifier (s : String) : Bool :=
  match s.toList with
  | [] => false
  | c :: rest => isIdentifierStart c && isIdentifierTail rest

/-- The text that `s` stands for. -/
def resolve (constants : Constants) (s : String) : String :=
  if isIdentifier s then (constants.lookup s).getD s else s

/-- The colours that come with the library. -/
def palette : Constants :=
  [("primary", "#0b5ed7"), ("secondary", "#6c757d"), ("success", "#198754"),
   ("danger", "#dc3545"), ("warning", "#ffc107"), ("info", "#0dcaf0"), ("light", "#f8f9fa"),
   ("dark", "#212529"), ("muted", "#6a6a6a"), ("border", "#e3e3e3"), ("background", "#f8f8f8"),
   ("foreground", "#1a1a1a"), ("link", "#0b5ed7"), ("offWhite", "#fcfcfc"),
   ("paleGray", "#f3f3f3")]

end Constants

end StyleTree
