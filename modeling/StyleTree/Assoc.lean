/-!
# Ordered tables

A table is a list of keys with their values, in the order in which the keys were first given. A key
that is given again keeps its place and takes the new value.
-/

namespace StyleTree.Assoc

variable {β : Type}

def put (table : List (String × β)) (key : String) (v : β) : List (String × β) :=
  match table with
  | [] => [(key, v)]
  | (k, w) :: rest => if k = key then (k, v) :: rest else (k, w) :: put rest key v

/-- The table of a list of pairs. -/
def ofPairs (pairs : List (String × β)) : List (String × β) :=
  pairs.foldl (fun table pair => put table pair.1 pair.2) []

theorem lookup_put_self (table : List (String × β)) (key : String) (v : β) :
    (put table key v).lookup key = some v := by
  induction table with
  | nil => simp [put]
  | cons pair rest ih =>
    obtain ⟨k, w⟩ := pair
    by_cases h : k = key
    · simp [put, h]
    · have hne : (key == k) = false := by simpa using fun e => h e.symm
      simp [put, h, List.lookup_cons, hne, ih]

theorem lookup_put_of_ne (table : List (String × β)) {key other : String} (v : β)
    (h : other ≠ key) : (put table key v).lookup other = table.lookup other := by
  induction table with
  | nil =>
    have hne : (other == key) = false := by simpa using h
    simp [put, List.lookup_cons, hne]
  | cons pair rest ih =>
    obtain ⟨k, w⟩ := pair
    by_cases hk : k = key
    · subst hk
      have hne : (other == k) = false := by simpa using h
      simp [put, List.lookup_cons, hne]
    · simp only [put, hk, if_false, List.lookup_cons, ih]

end StyleTree.Assoc
