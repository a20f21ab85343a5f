/-!
# Similar words

How alike two words are is measured by the characters that they share in order: those of their
longest common run, and in the same way those left and right of it. Of several longest runs the
first one in the first word counts, and of its places the first one in the second word.
-/

namespace StyleTree.Text

/-- The length of the longest run that both words start with. -/
def commonStart : List Char → List Char → Nat
  | a :: as, b :: bs => if a = b then commonStart as bs + 1 else 0
  | _, _ => 0

/-- A run that two words share: its two places and its length. -/
structure Run where
  first : Nat
  second : Nat
  length : Nat

/-- The first of the longest runs that two words share. -/
def longestRun (a b : List Char) : Run :=
  let places := (List.range a.length).flatMap fun i => (List.range b.length).map fun j => (i, j)
  places.foldl (fun best (i, j) =>
    let length := commonStart (a.drop i) (b.drop j)
    if best.length < length then ⟨i, j, length⟩ else best) ⟨0, 0, 0⟩

/-- The number of shared characters. Every run is shorter than what it is taken from, so the length
of the first word bounds the depth. -/
def sharedWithin : Nat → List Char → List Char → Nat
  | 0, _, _ => 0
  | depth + 1, a, b =>
    let run := longestRun a b
    if run.length = 0 then 0
    else
      run.length + sharedWithin depth (a.take run.first) (b.take run.second) +
        sharedWithin depth (a.drop (run.first + run.length)) (b.drop (run.second + run.length))

def shared (a b : String) : Nat :=
  sharedWithin a.length a.toList b.toList

/-- Twice the shared characters, out of the characters of both words. -/
def likeness (a b : String) : Nat × Nat :=
  (2 * shared a b, a.length + b.length)

/-- The words that share three fifths of their characters with `word` or more: at most three of
them, the most alike, in alphabetical order. -/
def similarTo (word : String) (words : List String) : List String :=
  let rated := words.filterMap fun w =>
    let (same, all) := likeness w word
    if 3 * all ≤ 5 * same then some (w, same, all) else none
  let best := rated.mergeSort fun (w₁, same₁, all₁) (w₂, same₂, all₂) =>
    same₂ * all₁ < same₁ * all₂ || (same₂ * all₁ == same₁ * all₂ && decide (w₂ ≤ w₁))
  ((best.take 3).map (·.1)).mergeSort fun a b => decide (a ≤ b)

end StyleTree.Text
