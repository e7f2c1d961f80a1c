import ScriptToGo.Proofs.Types.NormalSpelling

/-! Shapes are read back from their texts, and no text is read as an array or as a generic type
unless the grammar derives it. -/
namespace ScriptToGo.TypeSpelling
open Text (trimBlanks)

section Derivations

variable {text : String} {t : TypeSpelling}

/-- The grammar has blanks in front of tokens, so that those at the front of a text belong to its
first token. Without them, and without those at the end, the text is derived from its first
character to its last. -/
theorem derivesText_iff_trimmed : DerivesText text t ↔ DerivesType (trimBlanks text.toList) t := by
  constructor
  · rintro ⟨_, gap, whole, derived, isGap⟩
    obtain ⟨blanks, c, core, blank, rfl, dense, inner⟩ := derived.exists_start
    rw [whole, List.append_assoc, trimBlanks_around blank dense inner.lastDense isGap]
    exact inner
  · intro derived
    obtain ⟨blanks, gap, before, after, whole⟩ := exists_around_trimBlanks text.toList
    refine ⟨blanks ++ trimBlanks text.toList, gap, ?_, derived.blanks_append before, after⟩
    rw [List.append_assoc]
    exact whole

/-- The shape of a text is the one with which the grammar derives it, and a text that it does not
derive is a name as a whole. -/
theorem parse_eq_iff : parse text = t ↔ DerivesText text t ∨
    t = named (String.ofList (trimBlanks text.toList)) ∧ ∀ u, ¬ DerivesText text u := by
  constructor
  · rintro rfl
    by_cases derivable : ∃ u, DerivesText text u
    · obtain ⟨u, derived⟩ := derivable
      rw [derived.parse_eq]
      exact .inl derived
    · have never : ∀ u, ¬ DerivesText text u := not_exists.1 derivable
      exact .inr ⟨(derivesText_parse_or text).resolve_left (never _), never⟩
  · rintro (derived | ⟨rfl, never⟩)
    · exact derived.parse_eq
    · exact (derivesText_parse_or text).resolve_left (never _)

end Derivations

/-- A shape whose names are read as names, and whose generic types have arguments, is read back from
its text. A text is read as an array or a generic type if and only if the grammar derives that from
it, blanks at both ends aside. -/
theorem shapes_read_back :
    (∀ t : TypeSpelling, t.Readable → parse t.text = t) ∧
      ∀ (text : String) (t : TypeSpelling), (∀ name, t ≠ named name) →
        (parse text = t ↔ DerivesType (trimBlanks text.toList) t) := by
  refine ⟨fun t readable => parse_text readable, fun text t structured => ?_⟩
  rw [parse_eq_iff, derivesText_iff_trimmed]
  constructor
  · rintro (derived | ⟨whole, -⟩)
    · exact derived
    · exact absurd whole (structured _)
  · exact .inl

/-- A table from quoted names to arrays of arrays. -/
def quotedTable : TypeSpelling :=
  .array (.generic "Map" [.named "'<a, b>'", .array (.array (.named "Row"))])

/-- It is read back from its own text, and from one with brackets on both sides and blanks around
tokens. -/
theorem quotedTable_read_back :
    quotedTable.Readable ∧ quotedTable.text = "[]Map<'<a, b>', [][]Row>" ∧
      parse quotedTable.text = quotedTable ∧ (∀ name, quotedTable ≠ named name) ∧
      DerivesType (trimBlanks " Map <'<a, b>' ,[]\tRow []> [] ".toList) quotedTable ∧
      parse " Map <'<a, b>' ,[]\tRow []> [] " = quotedTable := by
  have read : ∀ name ∈ ["Map", "'<a, b>'", "Row"],
      readName? name.toList = some (name.toList, []) := by
    decide +kernel
  have isName : ∀ name ∈ ["Map", "'<a, b>'", "Row"], IsName name.toList :=
    fun name mem => (exists_of_readName? (read name mem)).1
  have space : AreBlanks [' '] := List.forall_mem_singleton.2 (by decide)
  have tab : AreBlanks ['\t'] := List.forall_mem_singleton.2 (by decide)
  have readable : quotedTable.Readable :=
    ⟨isName "Map" (by simp), by simp, isName "'<a, b>'" (by simp), isName "Row" (by simp), trivial⟩
  have structured : ∀ name, quotedTable ≠ named name := fun _ => TypeSpelling.noConfusion
  have row : DerivesType "[]\tRow []".toList (.array (.array (.named "Row"))) :=
    .array areBlanks_nil (.atom (.named tab (isName "Row" (by simp))) .none)
      (.pair space .none)
  have key : DerivesType "'<a, b>'".toList (.named "'<a, b>'") :=
    .atom (.named areBlanks_nil (isName "'<a, b>'" (by simp))) .none
  have derived : DerivesType (trimBlanks " Map <'<a, b>' ,[]\tRow []> [] ".toList) quotedTable :=
    .atom (.generic areBlanks_nil (isName "Map" (by simp)) space
      (.more key space (.last row areBlanks_nil))) (.pair space .none)
  obtain ⟨back, grammar⟩ := shapes_read_back
  exact ⟨readable, by decide +kernel, back quotedTable readable, structured, derived,
    (grammar _ quotedTable structured).2 derived⟩

end ScriptToGo.TypeSpelling
