import StyleTree.Proofs.NumberText
import StyleTree.Proofs.TreeBlock

/-!
# Parameters of pseudo blocks

A pseudo-class that takes no parameter can be given one all the same. The linter then says which
suffix will be written, and the compiler writes one (`WellFormed.itemsAt_pseudo`). A text is the same
in both, and so is a number with one writing only. But the linter quotes the literal of the number and
the compiler writes its text, and these are different for a double that is a whole number
(`pseudoParams_whole_double`), and for no other parameter (`pseudoParams_announces`).
-/

namespace StyleTree

variable {c : Config} {tree : Mapping} {scope context : Option String} {e : Entry} {body : Mapping}
  {p : Pseudo}

theorem Pseudo.suffixWith_inj {param param' : String} :
    p.suffixWith (some param) = p.suffixWith (some param') ↔ param = param' := by
  rw [suffixWith, suffixWith, String.append_left_inj, String.append_right_inj]

/-- A pseudo block of a well-formed tree is compiled as the scope with the suffix of its key and its
parameter. -/
theorem WellFormed.itemsAt_pseudo (h : WellFormed c tree) (he : e ∈ walked c tree)
    (hv : e.value = .mapping body) (hk : e.kind = .pseudo) (hp : Pseudo.ofKey? e.key = some p) :
    ∃ path inner, e.path = path ++ [e.key] ∧
      itemsAt c e.key path e.value = .ok [.scope (p.suffixWith (paramText? body)) inner] := by
  obtain ⟨path, items, hpath, hitems⟩ := h.itemsAt_eq_ok he
  have hc : classify c e.key (.mapping body) = .pseudo := by
    rw [← hv, ← kind_of_mem_walked he, hk]
  refine ⟨path, ?_⟩
  rw [hv, itemsAt, hc] at hitems
  simp only [bind_eq_ok] at hitems
  obtain ⟨suffix, hsuffix, inner, hinner, hscope⟩ := hitems
  obtain ⟨p', hp', rfl⟩ := pseudoSuffix_eq_ok hsuffix
  cases hp.symm.trans hp'
  refine ⟨inner, hpath, ?_⟩
  rw [hv, itemsAt, hc]
  simp only [bind_eq_ok]
  exact ⟨_, hsuffix, inner, hinner, rfl⟩

namespace Lint

/-- The suffix stands between quotes in the message. -/
theorem message_paramUnused (key suffix param : String) :
    Finding.message (.paramUnused key suffix param) =
      "'" ++ key ++ "' does not take a parameter; '" ++ (suffix ++ "(" ++ param ++ ")") ++
        "' will be emitted." := by
  have hend : ")' will be emitted." = ")" ++ "' will be emitted." := by decide
  show "'" ++ key ++ "' does not take a parameter; '" ++ suffix ++ "(" ++ param ++
    ")' will be emitted." = _
  rw [hend, ← String.append_assoc, ← String.append_assoc, ← String.append_assoc,
    ← String.append_assoc]

theorem check_pseudoParams (hk : e.kind = .pseudo) (hv : e.value = .mapping body)
    (hp : Pseudo.ofKey? e.key = some p) :
    pseudoParams.check c e =
      (paramFindings e p body).map (Finding.report pseudoParams.name) := by
  rw [pseudoParams, Rule.ofFindings]
  simp only [hk, hv, hp]

/-- A pseudo block that takes no parameter and has one, in a tree that compiles: there is one report,
which announces a suffix, and the block is compiled as a scope with a suffix. They are the same
exactly if the parameter is no double that is a whole number. -/
theorem pseudoParams_announces {o : Output}
    (h : compile c (.mapping tree) scope context = .ok o) (he : e ∈ entries c tree [])
    (hk : e.kind = .pseudo) (hv : e.value = .mapping body) (hp : Pseudo.ofKey? e.key = some p)
    (hplain : p.parameterized = false) {v : Value} (hparam : body.get? Pseudo.paramKey = some v)
    (hscalar : v.isScalar = true) :
    ∃ announced emitted,
      (pseudoParams.check c e).map Diagnostic.message =
        ["'" ++ e.key ++ "' does not take a parameter; '" ++ announced ++ "' will be emitted."] ∧
      (∃ path inner, e.path = path ++ [e.key] ∧
        itemsAt c e.key path e.value = .ok [.scope emitted inner]) ∧
      (announced = emitted ↔ ∀ n, v = .number n → n.isWholeDouble = false) := by
  obtain ⟨-, hwf, -⟩ := compile_eq_ok.mp h
  have hemitted := hwf.itemsAt_pseudo ((entries_sublist_walked c tree).subset he) hv hk hp
  have hunused : ¬ p.parameterized = true := by
    rw [hplain]
    exact Bool.false_ne_true
  have hmessage (quoted : String) (hfound : paramFindings e p body =
      [(e.path, .paramUnused e.key p.suffix quoted)]) :
      (pseudoParams.check c e).map Diagnostic.message =
        ["'" ++ e.key ++ "' does not take a parameter; '" ++ p.suffixWith (some quoted) ++
          "' will be emitted."] := by
    rw [check_pseudoParams hk hv hp, hfound]
    exact congrArg ([·]) (message_paramUnused e.key p.suffix quoted)
  cases v with
  | text s =>
    have htext : paramText? body = some s := by rw [paramText?, hparam]
    rw [htext] at hemitted
    refine ⟨_, _, hmessage s ?_, hemitted, fun _ n hn => (nomatch hn), fun _ => rfl⟩
    rw [paramFindings, hparam]
    exact if_neg hunused
  | number n =>
    have htext : paramText? body = some n.text := by rw [paramText?, hparam]
    rw [htext] at hemitted
    refine ⟨_, _, hmessage n.literal ?_, hemitted, ?_⟩
    · rw [paramFindings, hparam]
      exact if_neg hunused
    · rw [Pseudo.suffixWith_inj, Number.literal_eq_text]
      exact ⟨fun hn n' hn' => by cases hn'; exact hn, fun hall => hall n rfl⟩
  | _ => cases hscalar

/-- A block for `hover`, which takes no parameter, with a number for one. -/
def hoverTree (n : Number) : Mapping :=
  [("hover", .mapping [("param", .number n), ("color", .text "red")])]

def hoverEntry (n : Number) : Entry :=
  ⟨["hover"], "hover", .mapping [("param", .number n), ("color", .text "red")], .pseudo⟩

theorem pseudoParams_announces_sample :
    compile .standard (.mapping (hoverTree (.int (-2)))) none none =
        .ok ⟨"", ["&:hover(-2)\x7bcolor:red;\x7d"]⟩ ∧
      hoverEntry (.int (-2)) ∈ entries .standard (hoverTree (.int (-2))) [] ∧
      ∃ announced,
        (pseudoParams.check .standard (hoverEntry (.int (-2)))).map Diagnostic.message =
          ["'" ++ "hover" ++ "' does not take a parameter; '" ++ announced ++
            "' will be emitted."] ∧
        ∃ path inner, ["hover"] = path ++ ["hover"] ∧
          itemsAt .standard "hover" path (hoverEntry (.int (-2))).value =
            .ok [.scope announced inner] := by
  have hcompile : compile .standard (.mapping (hoverTree (.int (-2)))) none none =
    .ok ⟨"", ["&:hover(-2)\x7bcolor:red;\x7d"]⟩ := rfl
  have hmem : hoverEntry (.int (-2)) ∈ entries .standard (hoverTree (.int (-2))) [] :=
    List.mem_cons_self
  obtain ⟨announced, emitted, hmessage, hscope, hsame⟩ :=
    pseudoParams_announces hcompile hmem rfl rfl rfl rfl rfl rfl
  cases hsame.mpr fun n hn => by cases hn; rfl
  exact ⟨hcompile, hmem, announced, hmessage, hscope⟩

theorem representable_two : Representable (2 * unitsPerOne) := by
  decide +kernel

/-- The double 2.0. -/
def two : Binary64 :=
  .finite false (2 * unitsPerOne) representable_two

/-- The suffix that is announced for a double that is a whole number is not the one that is
written. -/
theorem pseudoParams_whole_double :
    (pseudoParams.run .standard (hoverTree (.float two))).map Diagnostic.message =
        ["'hover' does not take a parameter; ':hover(2.0)' will be emitted."] ∧
      compile .standard (.mapping (hoverTree (.float two))) none none =
        .ok ⟨"", ["&:hover(2)\x7bcolor:red;\x7d"]⟩ := by
  decide +kernel

end Lint

end StyleTree
