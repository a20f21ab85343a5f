/-!
# Control sequences

A control sequence tells a terminal how to show what follows. It consists of the escape character
and an opening bracket, of parameters, of intermediates and of one final character; each of the
three has a range of its own. Texts that no terminal shows go without.
-/

namespace StyleTree.Text

/-- Digits, the marks between them and the marks of private sequences. -/
def isParameter (c : Char) : Bool :=
  '0' ≤ c && c ≤ '?'

def isIntermediate (c : Char) : Bool :=
  ' ' ≤ c && c ≤ '/'

def isFinal (c : Char) : Bool :=
  '@' ≤ c && c ≤ '~'

/-- The length of the control sequence that stands first; 0 if there is none. -/
def sequenceLength : List Char → Nat
  | '\x1b' :: '[' :: rest =>
    let parameters := (rest.takeWhile isParameter).length
    let intermediates := ((rest.drop parameters).takeWhile isIntermediate).length
    match rest.drop (parameters + intermediates) with
    | c :: _ => if isFinal c then parameters + intermediates + 3 else 0
    | [] => 0
  | _ => 0

/-- Drops the first `skip` characters and, behind them, every control sequence. -/
def dropSequences (skip : Nat) : List Char → List Char
  | [] => []
  | c :: rest =>
    match skip with
    | skip + 1 => dropSequences skip rest
    | 0 =>
      match sequenceLength (c :: rest) with
      | length + 1 => dropSequences length rest
      | 0 => c :: dropSequences 0 rest

theorem sequenceLength_eq_zero {c : Char} (h : c ≠ '\x1b') (rest : List Char) :
    sequenceLength (c :: rest) = 0 := by
  unfold sequenceLength
  split
  · next heq => exact absurd (List.cons.inj heq).1 h
  · rfl

theorem dropSequences_eq_self {cs : List Char} (h : '\x1b' ∉ cs) : dropSequences 0 cs = cs := by
  induction cs with
  | nil => rfl
  | cons c rest ih =>
    obtain ⟨hc, hrest⟩ := not_or.1 (fun hor => h (List.mem_cons.2 hor))
    simp [dropSequences, sequenceLength_eq_zero (Ne.symm hc), ih hrest]

def withoutSequences (s : String) : String :=
  String.ofList (dropSequences 0 s.toList)

theorem withoutSequences_eq_self {s : String} (h : '\x1b' ∉ s.toList) :
    withoutSequences s = s := by
  simp [withoutSequences, dropSequences_eq_self h]

end StyleTree.Text
