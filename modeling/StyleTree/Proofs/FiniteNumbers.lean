import StyleTree.Proofs.Lookups
import StyleTree.Proofs.PseudoParameters

/-!
# Numbers in a style sheet

A number of a style tree is written in two places: as the value of a declaration, and in the suffix
of a pseudo block that has it for a parameter. A value has to be finite (`isFinite_of_write`), so that
a tree with an infinity or with no number at all for a value does not compile. A parameter is not
looked at, and any number is written (`compile_nan_param`). So the numbers in the declarations of a
style sheet are finite, and other ones stand in its selectors only (`compile_finite`).
-/

namespace StyleTree

/-- The number that is read at an entry: the value of a declaration or the parameter of a pseudo
block. -/
def Entry.number? (e : Entry) : Option Number :=
  match e.kind, e.value with
  | .property, .number n => some n
  | .pseudo, .mapping body =>
    match Mapping.get? body Pseudo.paramKey with
    | some (.number n) => some n
    | _ => none
  | _, _ => none

variable {c : Config} {tree : Mapping} {scope context : Option String} {e : Entry} {n : Number}

theorem number?_eq_some (h : e.number? = some n) :
    (e.kind = .property ∧ e.value = .number n) ∨
      e.kind = .pseudo ∧ ∃ body, e.value = .mapping body ∧ paramText? body = some n.text := by
  unfold Entry.number? at h
  split at h
  · rename_i hk hv
    cases h
    exact .inl ⟨hk, hv⟩
  · rename_i body hk hv
    split at h
    · rename_i hparam
      cases h
      exact .inr ⟨hk, body, hv, by rw [paramText?, hparam]⟩
    · cases h
  · cases h

/-- A number that is written for a property is finite, and it has its text with or without the unit. -/
theorem ValueRules.isFinite_of_write {rules : ValueRules} {property written : String}
    (h : rules.write property (.number n) = .ok written) :
    n.isFinite = true ∧ (written = n.text ∨ written = n.text ++ rules.unit) := by
  rw [write, writeNumber] at h
  split at h
  · cases h
  split at h
  · cases h
  rename_i hfinite
  refine ⟨by simpa using hfinite, ?_⟩
  split at h
  · cases h
    exact .inl rfl
  · cases h
    exact .inr rfl

/-- The number of a property in a well-formed tree is compiled as a declaration. -/
theorem WellFormed.itemsAt_number (h : WellFormed c tree) (he : e ∈ walked c tree)
    (hk : e.kind = .property) (hv : e.value = .number n) :
    n.isFinite = true ∧ ∃ path, e.path = path ++ [e.key] ∧ ∃ unit ∈ ["", c.unit],
      itemsAt c e.key path e.value =
        .ok [.declaration ⟨Property.name e.key, n.text ++ unit⟩] := by
  obtain ⟨path, items, hpath, hitems⟩ := h.itemsAt_eq_ok he
  have hc : (classify c e.key (.number n)).specKind? = none := by
    rw [← hv, ← kind_of_mem_walked he, hk]
    rfl
  have hread := hitems
  rw [hv] at hread
  simp only [itemsAt, hc, bind_eq_ok] at hread
  obtain ⟨⟨property, written⟩, hd, hsingle⟩ := hread
  obtain ⟨-, rfl, hwritten⟩ := declarationOf_eq_ok hd
  obtain ⟨hfinite, hunit⟩ := ValueRules.isFinite_of_write hwritten
  cases hsingle
  refine ⟨hfinite, path, hpath, ?_⟩
  rcases hunit with rfl | rfl
  · refine ⟨"", List.mem_cons_self, ?_⟩
    rw [String.append_empty]
    exact hitems
  · exact ⟨c.unit, List.mem_cons_of_mem _ (List.mem_singleton_self _), hitems⟩

/-- A tree with a value that is no finite number does not compile; in a known context it is malformed.
In a compilation the numbers of declarations are finite and written with or without the unit. Those of
parameters are written in the suffix of their block, and as words where they are not finite. -/
theorem compile_finite (c : Config) (tree : Mapping) (scope context : Option String) :
    (∀ e ∈ walked c tree, ∀ n ∈ e.number?, e.kind = .property → n.isFinite = false →
      ∃ err, compile c (.mapping tree) scope context = .error err ∧
        (c.breakpoints.Admits context → ∃ f, err = .malformed f)) ∧
    ∀ o, compile c (.mapping tree) scope context = .ok o →
      ∀ e ∈ walked c tree, ∀ n ∈ e.number?,
        ∃ path, e.path = path ++ [e.key] ∧
          ((e.kind = .property ∧ n.isFinite = true ∧ ∃ unit ∈ ["", c.unit],
              itemsAt c e.key path e.value =
                .ok [.declaration ⟨Property.name e.key, n.text ++ unit⟩]) ∨
            e.kind = .pseudo ∧
              (∃ p inner, Pseudo.ofKey? e.key = some p ∧
                itemsAt c e.key path e.value = .ok [.scope (p.suffixWith (some n.text)) inner]) ∧
              (n.isFinite = false → n.text ∈ ["nan", "inf", "-inf"])) := by
  refine ⟨fun e he n hn hk hinfinite => ?_, fun o ho e he n hn => ?_⟩
  · cases hcompile : compile c (.mapping tree) scope context with
    | ok o =>
      obtain ⟨-, hwf, -⟩ := compile_eq_ok.mp hcompile
      rcases number?_eq_some hn with ⟨-, hv⟩ | ⟨hpseudo, -⟩
      · rw [(hwf.itemsAt_number he hk hv).1] at hinfinite
        cases hinfinite
      · rw [hk] at hpseudo
        cases hpseudo
    | error err =>
      refine ⟨err, rfl, fun hcontext => ?_⟩
      exact malformed_of_itemsOf ((compile_eq_error hcontext).mp hcompile)
  · obtain ⟨-, hwf, -⟩ := compile_eq_ok.mp ho
    rcases number?_eq_some hn with ⟨hk, hv⟩ | ⟨hk, body, hv, hparam⟩
    · obtain ⟨hfinite, path, hpath, hitems⟩ := hwf.itemsAt_number he hk hv
      exact ⟨path, hpath, .inl ⟨hk, hfinite, hitems⟩⟩
    · obtain ⟨p, hp⟩ := ofKey?_of_mem_walked he hk
      obtain ⟨path, inner, hpath, hitems⟩ := hwf.itemsAt_pseudo he hv hk hp
      rw [hparam] at hitems
      exact ⟨path, hpath,
        .inr ⟨hk, ⟨p, inner, hp, hitems⟩, Number.text_of_not_finite⟩⟩

/-- A width and a parameter below it. -/
def measuredTree (width param : Number) : Mapping :=
  [("nthChild", .mapping [("param", .number param), ("width", .number width)])]

theorem compile_finite_sample :
    (∃ f, compile .standard (.mapping (measuredTree (.float .nan) (.int 2))) (some "") none =
        .error (.malformed f)) ∧
      compile .standard (.mapping (measuredTree (.int 4) (.int 2))) none none =
        .ok ⟨"", ["&:nth-child(2)\x7bwidth:4px;\x7d"]⟩ ∧
      ∃ unit ∈ ["", "px"], ∃ path, ["nthChild", "width"] = path ++ ["width"] ∧
        itemsAt .standard "width" path (.number (.int 4)) =
          .ok [.declaration ⟨"width", "4" ++ unit⟩] := by
  have hcompile : compile .standard (.mapping (measuredTree (.int 4) (.int 2))) none none =
    .ok ⟨"", ["&:nth-child(2)\x7bwidth:4px;\x7d"]⟩ := rfl
  obtain ⟨err, herr, hmalformed⟩ :=
    (compile_finite .standard (measuredTree (.float .nan) (.int 2)) (some "") none).1
      ⟨["nthChild", "width"], "width", .number (.float .nan), .property⟩
      (List.mem_cons_of_mem _ List.mem_cons_self) (.float .nan) rfl rfl rfl
  obtain ⟨f, rfl⟩ := hmalformed Registry.admits_none
  obtain ⟨path, hpath, ⟨-, -, unit, hunit, hitems⟩ | ⟨hkind, -⟩⟩ :=
    (compile_finite .standard (measuredTree (.int 4) (.int 2)) none none).2 _ hcompile
      ⟨["nthChild", "width"], "width", .number (.int 4), .property⟩
      (List.mem_cons_of_mem _ List.mem_cons_self) (.int 4) rfl
  · exact ⟨⟨f, herr⟩, hcompile, unit, hunit, path, hpath, hitems⟩
  · cases hkind

/-- A parameter that is no number is written. -/
theorem compile_nan_param :
    (∃ e ∈ walked .standard (measuredTree (.int 4) (.float .nan)),
        ∃ n ∈ e.number?, n.isFinite = false) ∧
      compile .standard (.mapping (measuredTree (.int 4) (.float .nan))) none none =
        .ok ⟨"", ["&:nth-child(nan)\x7bwidth:4px;\x7d"]⟩ :=
  ⟨⟨_, List.mem_cons_self, .float .nan, rfl, rfl⟩, rfl⟩

end StyleTree
