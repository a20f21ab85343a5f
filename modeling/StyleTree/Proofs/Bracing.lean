import Mathlib.Data.List.Basic
import StyleTree.Sheet

/-!
# Reading by braces

A scanner that counts braces takes a style sheet apart. The declarations in front end at the last
semicolon before the first brace, and each rule ends where the depth returns to zero. It finds the
rules again where each of them is balanced and closes its first brace with its last character
(`scanRules_flatten`), since then the depth is positive wherever the rule goes on after a brace.
-/

namespace StyleTree

namespace Text

/-! ## Balanced texts -/

/-- Every closing brace closes an opening one, and all are closed. -/
structure IsBalanced (cs : List Char) : Prop where
  count_eq : cs.count '\x7d' = cs.count '\x7b'
  count_le (start : List Char) : start <+: cs → start.count '\x7d' ≤ start.count '\x7b'

/-- A balanced text that ends with the brace that closes its first one. -/
structure IsRule (cs : List Char) : Prop where
  balanced : IsBalanced cs
  opens : '\x7b' ∈ cs
  /-- Up to any place before its end the first brace is open. -/
  count_lt (start : List Char) : start <+: cs → start ≠ cs → '\x7b' ∈ start →
    start.count '\x7d' < start.count '\x7b'

section Balanced

variable {cs start : List Char} {ch : Char}

theorem isBalanced_of_not_mem (hopen : '\x7b' ∉ cs) (hclose : '\x7d' ∉ cs) : IsBalanced cs := by
  refine ⟨by rw [List.count_eq_zero.mpr hopen, List.count_eq_zero.mpr hclose], fun start h => ?_⟩
  have hle := h.count_le '\x7d'
  rw [List.count_eq_zero.mpr hclose] at hle
  omega

/-- A text that starts like a rule ends in the head, in the body or where the rule does. -/
theorem prefix_rule_cases {head body : List Char}
    (h : start <+: head ++ '\x7b' :: (body ++ ['\x7d'])) :
    start <+: head ∨ start = head ++ '\x7b' :: (body ++ ['\x7d']) ∨
      ∃ inner, inner <+: body ∧ start = head ++ '\x7b' :: inner := by
  rcases List.prefix_or_prefix_of_prefix h (List.prefix_append head _) with h' | ⟨rest, rfl⟩
  · exact .inl h'
  rcases List.prefix_cons_iff.mp ((List.prefix_append_right_inj head).mp h) with
    rfl | ⟨inner, rfl, hinner⟩
  · rw [List.append_nil]
    exact .inl (List.prefix_refl head)
  rcases List.prefix_concat_iff.mp hinner with rfl | hinner
  · exact .inr (.inl rfl)
  · exact .inr (.inr ⟨inner, hinner, rfl⟩)

/-- A balanced body between braces, behind a head without any. -/
theorem IsBalanced.isRule {head body : List Char} (hbody : IsBalanced body)
    (hopen : '\x7b' ∉ head) (hclose : '\x7d' ∉ head) :
    IsRule (head ++ '\x7b' :: (body ++ ['\x7d'])) := by
  have ho : head.count '\x7b' = 0 := List.count_eq_zero.mpr hopen
  have hc : head.count '\x7d' = 0 := List.count_eq_zero.mpr hclose
  have hinside (inner : List Char) (h : inner <+: body) :
      (head ++ '\x7b' :: inner).count '\x7d' < (head ++ '\x7b' :: inner).count '\x7b' := by
    have hle := hbody.count_le inner h
    simp [ho, hc]
    omega
  have hcount : (head ++ '\x7b' :: (body ++ ['\x7d'])).count '\x7d' =
      (head ++ '\x7b' :: (body ++ ['\x7d'])).count '\x7b' := by
    simp [ho, hc, hbody.count_eq]
  refine ⟨⟨hcount, fun start h => ?_⟩, by simp, fun start h hne hmem => ?_⟩
  · rcases prefix_rule_cases h with h | rfl | ⟨inner, hinner, rfl⟩
    · exact (isBalanced_of_not_mem hopen hclose).count_le start h
    · exact Nat.le_of_eq hcount
    · exact Nat.le_of_lt (hinside inner hinner)
  · rcases prefix_rule_cases h with h | rfl | ⟨inner, hinner, rfl⟩
    · exact absurd (h.mem hmem) hopen
    · exact absurd rfl hne
    · exact hinside inner hinner

/-- The last character of a rule is the brace that closes it. -/
theorem IsRule.last_eq (h : IsRule (start ++ [ch])) : ch = '\x7d' := by
  by_contra hne
  have hclose : (start ++ [ch]).count '\x7d' = start.count '\x7d' := by
    rw [List.count_append, List.count_singleton, if_neg (by simpa using hne), Nat.add_zero]
  have heq := h.balanced.count_eq
  have hpre : start <+: start ++ [ch] := List.prefix_append start [ch]
  have hle := hpre.count_le '\x7b'
  have hpos : 0 < (start ++ [ch]).count '\x7b' := List.count_pos_iff.mpr h.opens
  by_cases hmem : '\x7b' ∈ start
  · have hlt := h.count_lt start hpre (by simp) hmem
    omega
  · have hzero := h.balanced.count_le start hpre
    rw [List.count_eq_zero.mpr hmem] at hzero
    omega

end Balanced

/-! ## The scanner -/

/-- The depth behind a character. -/
def depthAfter (depth : Nat) (ch : Char) : Nat :=
  if ch = '\x7b' then depth + 1 else if ch = '\x7d' then depth - 1 else depth

/-- The rules in a text, the first of which goes on at `depth` from the characters in `start`. A
rule ends with the brace where the depth returns to zero. -/
def scanRules (depth : Nat) (start : List Char) : List Char → List (List Char)
  | [] => if start.isEmpty then [] else [start]
  | ch :: rest =>
    if ch = '\x7d' ∧ depthAfter depth ch = 0 then (start ++ [ch]) :: scanRules 0 [] rest
    else scanRules (depthAfter depth ch) (start ++ [ch]) rest

/-- How many braces are open behind a text. -/
def depth (cs : List Char) : Nat :=
  cs.count '\x7b' - cs.count '\x7d'

theorem depthAfter_depth {cs : List Char} (h : cs.count '\x7d' ≤ cs.count '\x7b') (ch : Char) :
    depthAfter (depth cs) ch = depth (cs ++ [ch]) := by
  unfold depthAfter depth
  rw [List.count_append, List.count_append]
  split
  · rename_i hch
    rw [hch, show ['\x7b'].count '\x7b' = 1 from rfl, show ['\x7b'].count '\x7d' = 0 from rfl]
    omega
  split
  · rename_i hch
    rw [hch, show ['\x7d'].count '\x7b' = 0 from rfl, show ['\x7d'].count '\x7d' = 1 from rfl]
    omega
  · rename_i hopen hclose
    rw [List.count_singleton, List.count_singleton, if_neg (by simpa using hopen),
      if_neg (by simpa using hclose)]
    rfl

/-- The scanner reads the rest of a rule to its end, and no further. -/
theorem scanRules_of_isRule {start rest : List Char} (h : IsRule (start ++ rest)) (hne : rest ≠ [])
    (after : List Char) :
    scanRules (depth start) start (rest ++ after) = (start ++ rest) :: scanRules 0 [] after := by
  induction rest generalizing start with
  | nil => exact absurd rfl hne
  | cons ch rest ih =>
    rw [List.append_cons] at h ⊢
    have hle : start.count '\x7d' ≤ start.count '\x7b' := by
      refine h.balanced.count_le start ?_
      rw [List.append_assoc]
      exact List.prefix_append _ _
    have hpre : start ++ [ch] <+: start ++ [ch] ++ rest := List.prefix_append _ _
    rw [List.cons_append, scanRules, depthAfter_depth hle]
    by_cases hrest : rest = []
    · subst hrest
      rw [List.append_nil] at h ⊢
      have hend : depth (start ++ [ch]) = 0 := by
        rw [depth, h.balanced.count_eq, Nat.sub_self]
      rw [if_pos ⟨h.last_eq, hend⟩, List.nil_append]
    · -- before its end a rule is at a positive depth behind every closing brace
      have hopen : ¬(ch = '\x7d' ∧ depth (start ++ [ch]) = 0) := by
        rintro ⟨rfl, hzero⟩
        have hcount := h.balanced.count_le _ hpre
        have hmem : '\x7b' ∈ start ++ ['\x7d'] := by
          rw [← List.count_pos_iff]
          have : 0 < (start ++ ['\x7d']).count '\x7d' := List.count_pos_iff.mpr (by simp)
          omega
        have hlt := h.count_lt _ hpre (by simpa using hrest) hmem
        rw [depth] at hzero
        omega
      rw [if_neg hopen]
      exact ih h hrest

theorem IsRule.ne_nil {cs : List Char} (h : IsRule cs) : cs ≠ [] :=
  List.ne_nil_of_mem h.opens

/-- Rules that follow each other are found again one by one. -/
theorem scanRules_flatten {rules : List (List Char)} (h : ∀ cs ∈ rules, IsRule cs) :
    scanRules 0 [] rules.flatten = rules := by
  induction rules with
  | nil => rfl
  | cons cs rest ih =>
    have hcs : IsRule ([] ++ cs) := h cs List.mem_cons_self
    rw [List.flatten_cons, show 0 = depth [] from rfl, scanRules_of_isRule hcs hcs.ne_nil,
      ih fun other hother => h other (List.mem_cons_of_mem _ hother), List.nil_append]

/-! ## What stands in front -/

/-- The text up to the last semicolon before the first opening brace. -/
def leading (cs : List Char) : List Char :=
  ((cs.takeWhile (· ≠ '\x7b')).reverse.dropWhile (· ≠ ';')).reverse

theorem decide_ne_of_not_mem {cs : List Char} {mark : Char} (h : mark ∉ cs) :
    ∀ ch ∈ cs, decide (ch ≠ mark) = true :=
  fun _ hch => decide_eq_true (ne_of_mem_of_not_mem hch h)

theorem leading_append {front cs : List Char} (hfront : '\x7b' ∉ front)
    (hend : front = [] ∨ ∃ start, front = start ++ [';'])
    (hcs : ';' ∉ cs.takeWhile (· ≠ '\x7b')) : leading (front ++ cs) = front := by
  have hrest : ';' ∉ (cs.takeWhile (· ≠ '\x7b')).reverse := mt List.mem_reverse.mp hcs
  rw [leading, List.takeWhile_append_of_pos (decide_ne_of_not_mem hfront), List.reverse_append,
    List.dropWhile_append_of_pos (decide_ne_of_not_mem hrest)]
  rcases hend with rfl | ⟨start, rfl⟩
  · rfl
  · rw [List.reverse_append, List.reverse_singleton, List.singleton_append,
      List.dropWhile_cons_of_neg (by simp), List.reverse_cons, List.reverse_reverse]

end Text

end StyleTree
