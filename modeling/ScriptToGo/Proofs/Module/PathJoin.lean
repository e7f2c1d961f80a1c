import ScriptToGo.Proofs.Module.ResolvedPath

/-! Joining paths. The normal form of a joined path depends on the normal form of the first one only,
and so does what an import path is resolved to. -/
namespace ScriptToGo.Path

/-- The steps that the pieces of a text write, wherever the text stands. -/
def innerSteps (cs : List Char) : List Step := (cs.splitOn '/').filterMap step?

/-- The step that only the front of a text can write. -/
def frontStep (cs : List Char) : List Step :=
  if cs.head? = some '/' then [.root]
  else if (cs.splitOn '/').head? = some ['.'] then [.here]
  else []

section Steps

variable {cs rest : List Char} {done : List Step} {base p : Path}

theorem isAbsolute_iff : p.isAbsolute = true ↔ p.text.toList.head? = some '/' := by
  rw [isAbsolute, decide_eq_true_iff, steps, stepsOf]
  split
  next root => simp [root]
  next relative =>
    refine iff_of_false ?_ relative
    split
    · simp
    · intro first
      have mem := List.mem_of_head? first
      obtain ⟨piece, -, written⟩ := List.mem_filterMap.1 mem
      rw [step?] at written
      split at written
      · cases written
      · split at written <;> cases written

theorem stepsOf_eq (cs : List Char) : stepsOf cs = frontStep cs ++ innerSteps cs := by
  rw [stepsOf, frontStep, innerSteps]
  split
  · rfl
  · split <;> rfl

theorem innerSteps_slash (cs rest : List Char) :
    innerSteps (cs ++ '/' :: rest) = innerSteps cs ++ innerSteps rest := by
  rw [innerSteps, List.splitOn_append_cons_self, List.filterMap_append]
  rfl

theorem head?_splitOn_slash (cs rest : List Char) :
    ((cs ++ '/' :: rest).splitOn '/').head? = (cs.splitOn '/').head? := by
  obtain ⟨piece, more, split⟩ := List.exists_cons_of_ne_nil (cs.splitOn_ne_nil '/')
  rw [List.splitOn_append_cons_self, split]
  rfl

/-- Behind a slash, the pieces of a text write the same steps whatever stands before. -/
theorem stepsOf_slash (cs rest : List Char) :
    stepsOf (cs ++ '/' :: rest) = stepsOf (cs ++ ['/']) ++ innerSteps rest := by
  have front : frontStep (cs ++ '/' :: rest) = frontStep (cs ++ ['/']) := by
    have first : (cs ++ '/' :: rest).head? = (cs ++ ['/']).head? := by cases cs <;> rfl
    rw [frontStep, frontStep, first, head?_splitOn_slash, head?_splitOn_slash]
  have nothing : innerSteps [] = [] := by decide
  rw [stepsOf_eq, stepsOf_eq, front, innerSteps_slash, innerSteps_slash, nothing, List.append_nil,
    List.append_assoc]

theorem stepsOf_closed (some : cs ≠ []) : stepsOf (cs ++ ['/']) = stepsOf cs := by
  have front : frontStep (cs ++ ['/']) = frontStep cs := by
    have first : (cs ++ ['/']).head? = cs.head? := by
      cases cs with
      | nil => exact absurd rfl some
      | cons c tail => rfl
    rw [frontStep, frontStep, first, head?_splitOn_slash]
  have nothing : innerSteps [] = [] := by decide
  rw [stepsOf_eq, stepsOf_eq, front, innerSteps_slash, nothing, List.append_nil]

/-- A dot at the front of a relative path changes nothing. -/
theorem foldl_steps (relative : p.isAbsolute = false) (done : List Step) :
    p.steps.foldl pushNormal done = (innerSteps p.text.toList).foldl pushNormal done := by
  have noRoot : p.text.toList.head? ≠ some '/' := fun root =>
    Bool.false_ne_true (relative.symm.trans (isAbsolute_iff.2 root))
  rw [steps, stepsOf_eq, frontStep, if_neg noRoot]
  split <;> rfl

theorem steps_join (relative : p.isAbsolute = false) (some : base.text ≠ "") :
    (base.join p).steps = base.steps ++ innerSteps p.text.toList := by
  have chars : base.text.toList ≠ [] := by simpa using some
  rw [join, if_neg (by simp [relative])]
  split
  next closed =>
    obtain ⟨front, whole⟩ := List.getLast?_eq_some_iff.1 (closed.resolve_left some)
    rw [steps, String.toList_append, whole, List.append_assoc, List.singleton_append, stepsOf_slash,
      steps, whole]
  · rw [steps, steps, ← stepsOf_closed chars, ← stepsOf_slash]
    simp

/-- A joined path is normalized from where the normal form of the first path leads. -/
theorem normalSteps_join (base p : Path) : normalSteps (base.join p).steps =
    if p.isAbsolute then normalSteps p.steps else p.steps.foldl pushNormal (normalSteps base.steps) := by
  split
  next absolute => rw [join, if_pos absolute]
  next other =>
    have relative := Bool.eq_false_iff.2 other
    by_cases empty : base.text = ""
    · have joined : base.join p = p := by
        rw [join, if_neg other, if_pos (.inl empty), empty, String.empty_append]
      have nothing : base.steps = [] := by
        rw [steps, empty]
        decide
      rw [joined, nothing]
      rfl
    · rw [steps_join relative empty, foldl_steps relative, normalSteps, List.foldl_append]
      rfl

end Steps

/-- The directory that holds a file, in normal form. -/
def normalDirectory (p : Path) : Path := ofSteps (normalSteps (directory p.steps))

/-- A path with the extension of source files, if it has none and ends in a name. -/
def extended (p : Path) : Path := ofSteps (withExtension p.steps)

theorem normalize_normalize (p : Path) : p.normalize.normalize = p.normalize := by
  rw [normalize, steps_normalize, normalSteps_eq (normal_normalSteps (written_steps p)), normalize]

theorem normalize_join (base p : Path) : (base.normalize.join p).normalize = (base.join p).normalize := by
  rw [normalize, normalSteps_join, steps_normalize,
    normalSteps_eq (normal_normalSteps (written_steps base)), ← normalSteps_join, normalize]

theorem resolve_eq (importer : Path) (specifier : String) :
    importer.resolve specifier = (importer.normalDirectory.join ⟨specifier⟩).normalize.extended := by
  have directorySteps : importer.normalDirectory.steps = normalSteps (directory importer.steps) :=
    steps_ofSteps (normal_normalSteps (written_directory (written_steps importer)))
  rw [extended, steps_normalize, normalSteps_join, directorySteps,
    normalSteps_eq (normal_normalSteps (written_directory (written_steps importer))), resolve]
  split
  · rfl
  · rw [normalSteps, List.foldl_append]
    rfl

theorem hasExtension_added {name : String} (some : name.toList ≠ []) :
    hasExtension (name ++ ".ts") = true := by
  obtain ⟨c, tail, chars⟩ := List.exists_cons_of_ne_nil some
  rw [hasExtension, String.toList_append, chars]
  simp

/-- Where the last step is a name, it has an extension. -/
theorem hasExtension_last {steps : List Step} (normal : Normal steps) {name : String}
    (last : (withExtension steps).getLast? = some (.entry name)) : hasExtension name = true := by
  rw [withExtension] at last
  split at last
  next written isLast =>
    split at last
    next extended =>
      obtain rfl := Step.entry.inj (Option.some.inj (isLast.symm.trans last))
      exact extended
    · rw [List.getLast?_concat] at last
      obtain rfl := Step.entry.inj (Option.some.inj last)
      exact hasExtension_added (normal.isName (List.mem_of_getLast? isLast)).ne_empty
  next other => exact absurd last (other name)

/-- What an import path is resolved to is in normal form. -/
theorem normalize_resolve (importer : Path) (specifier : String) :
    (importer.resolve specifier).normalize = importer.resolve specifier := by
  obtain ⟨steps, normal, eq⟩ := normal_resolve_steps importer specifier
  rw [eq, normalize, steps_ofSteps normal, normalSteps_eq normal]

/-- Normal forms of paths have no dots and steps up only in front of relative ones, and they are
their own normal forms. What is joined to a path has the same normal form as what is joined to the
normal form of that path. So an import path is resolved to a path in normal form, found from the
normal form of the directory alone, and to one with an extension if it ends in a name. -/
theorem normal_forms_agree :
    (∀ p : Path, Normal p.normalize.steps ∧ p.normalize.normalize = p.normalize) ∧
    (∀ base p : Path, (base.normalize.join p).normalize = (base.join p).normalize) ∧
    ∀ (importer : Path) (specifier : String),
      (importer.resolve specifier).normalize = importer.resolve specifier ∧
      importer.resolve specifier = (importer.normalDirectory.join ⟨specifier⟩).normalize.extended ∧
      ∀ name, (importer.resolve specifier).steps.getLast? = some (.entry name) →
        hasExtension name = true := by
  refine ⟨fun p => ⟨?_, normalize_normalize p⟩, normalize_join, fun importer specifier =>
    ⟨normalize_resolve importer specifier, resolve_eq importer specifier, fun name last => ?_⟩⟩
  · rw [steps_normalize]
    exact normal_normalSteps (written_steps p)
  · rw [resolve_eq, extended, steps_ofSteps] at last
    · exact hasExtension_last (normal_normalSteps (written_steps _)) (by rwa [steps_normalize] at last)
    · rw [steps_normalize]
      exact normal_withExtension (normal_normalSteps (written_steps _))

/-- An importing file whose path goes up and down again, and an import from above the root. -/
theorem detour_agrees : let importer : Path := ⟨"/app/./src/../../main.ts"⟩
    (importer.resolve "../lib/.util").steps.getLast? = some (.entry ".util.ts") ∧
      hasExtension ".util.ts" = true ∧
      (importer.resolve "../lib/.util").normalize = importer.resolve "../lib/.util" ∧
      importer.resolve "../lib/.util"
        = (importer.normalDirectory.join ⟨"../lib/.util"⟩).normalize.extended ∧
      importer.resolve "../lib/.util" = ⟨"/lib/.util.ts"⟩ := by
  intro importer
  have last : (importer.resolve "../lib/.util").steps.getLast? = some (.entry ".util.ts") := by
    decide +kernel
  have resolved : (importer.resolve "../lib/.util").text = "/lib/.util.ts" := by decide +kernel
  obtain ⟨own, found, named⟩ := normal_forms_agree.2.2 importer "../lib/.util"
  exact ⟨last, named _ last, own, found, congrArg Path.mk resolved⟩

end ScriptToGo.Path
