import StyleTree.Text.Quoted

/-!
# Files

The steps of a name lead from directory to directory. An empty step and one dot stay, two dots lead
to the directory around; every other step is a name in the directory, and only the last one may be
that of a file.
-/

namespace StyleTree.Command

/-! ## Names -/

/-- The steps of a name that do not stay. -/
def stepsOf (name : String) : List String :=
  (name.splitOn "/").filter fun step => step ≠ "" ∧ step ≠ "."

/-- The name without the steps that stay. -/
def plainName (name : String) : String :=
  let start := if name.startsWith "/" then "/" else ""
  start ++ "/".intercalate (stepsOf name)

def baseName (name : String) : String :=
  (stepsOf name).getLast?.getD ""

/-- The directories in the working directory that a name passes through, from the outermost. Of a
name that leads out of the working directory none are told. -/
def foldersOf (name : String) : List String :=
  let steps := stepsOf name
  if name.startsWith "/" ∨ steps.head? = some ".." then []
  else (List.range (steps.length - 1)).map fun n => "/".intercalate (steps.take (n + 1))

/-! ## What stands under a name -/

inductive FileState where
  | missing
  | directory
  | text (contents : String)
  deriving DecidableEq, Repr

/-- What stands under each name. -/
abbrev Files := String → FileState

/-- A directory that names start from: the working directory, or one around it. -/
inductive Folder where
  | working
  | around
  deriving DecidableEq, Repr

/-- What the steps of a name lead to, if the working directory holds only the given files, of which
the last one of a name counts, and nothing is known of the directories around it. -/
def Folder.walk (files : List (String × String)) : Folder → List String → FileState
  | _, [] => .directory
  | folder, step :: rest =>
    if step = "" ∨ step = "." then folder.walk files rest
    else if step = ".." then walk files .around rest
    else match folder, files.reverse.lookup step, rest with
      | .working, some contents, [] => .text contents
      | _, _, _ => .missing

/-- A working directory that holds only the given files. -/
def Files.ofList (files : List (String × String)) : Files := fun name =>
  match name.splitOn "/" with
  | [""] => .missing
  | "" :: steps => Folder.around.walk files steps
  | steps => Folder.working.walk files steps

/-! ## Writing -/

/-- Why a file cannot be written: a directory on its way is missing, or is a file. -/
inductive WriteFault where
  | noFolder (name : String)
  | notFolder (name : String)
  deriving DecidableEq, Repr

def WriteFault.message : WriteFault → String
  | noFolder name => s!"[Errno 2] No such file or directory: {Text.quoted name}"
  | notFolder name => s!"[Errno 20] Not a directory: {Text.quoted name}"

def Files.writeFault? (files : Files) (name : String) : Option WriteFault :=
  (foldersOf name).findSome? fun folder =>
    match files folder with
    | .missing => some (.noFolder name)
    | .text _ => some (.notFolder name)
    | .directory => none

end StyleTree.Command
