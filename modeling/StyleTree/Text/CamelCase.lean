/-!
# Camel case

In camel case a capital letter starts a word. The hyphenated form has a hyphen and the small letter
in its place, so `WebkitTransition` becomes `-webkit-transition`. Only the ASCII letters count.
-/

namespace StyleTree.Text

def splitCapital (c : Char) : List Char :=
  if c.isUpper then ['-', c.toLower] else [c]

def hyphenate (s : String) : String :=
  String.ofList (s.toList.flatMap splitCapital)

end StyleTree.Text
