import ScriptToGo.Module.NormalPath

/-! Import paths are resolved to paths in normal form, written in the one shortest way. -/
namespace ScriptToGo.Path

/-- A path that is written in the shortest way. -/
def IsPlain (p : Path) : Prop := p = ofSteps p.steps

theorem IsPlain.eq {p q : Path} (hp : p.IsPlain) (hq : q.IsPlain) (h : p.steps = q.steps) : p = q := by
  rw [hp, hq, h]

theorem isPlain_ofSteps {steps : List Step} (h : Normal steps) : (ofSteps steps).IsPlain := by
  rw [IsPlain, steps_ofSteps h]

private theorem not_root_mem {p : Path} (h : p.isAbsolute = false) : .root ∉ p.steps := by
  have first := (written_steps p).root_first
  rw [isAbsolute] at h
  cases hs : p.steps with
  | nil => simp
  | cons step rest =>
    rw [hs] at h first
    simp only [List.head?_cons, Option.some.injEq, decide_eq_false_iff_not] at h
    simp only [List.drop_succ_cons, List.drop_zero] at first
    simp [first, Ne.symm h]

theorem written_directory {steps : List Step} (h : Written steps) : Written (directory steps) := by
  rw [directory]
  split
  · exact ⟨by simp, by simp⟩
  · constructor
    · intro name hn
      exact h.names name (List.dropLast_subset _ hn)
    · intro hr
      exact h.root_first (((List.dropLast_sublist steps).drop 1).subset hr)

private theorem written_append {a b : List Step} (ha : Written a) (hb : Written b)
    (h : .root ∉ b) : Written (a ++ b) := by
  constructor
  · intro name hn
    rcases List.mem_append.1 hn with hn | hn
    · exact ha.names name hn
    · exact hb.names name hn
  · cases a with
    | nil => exact hb.root_first
    | cons step rest =>
      have := ha.root_first
      simp_all

private theorem isName_withExtension {name : String} (h : IsName name) : IsName (name ++ ".ts") := by
  refine ⟨by simp, ?_, ?_, ?_⟩
  · simpa using h.no_slash
  · intro he
    have := congrArg List.length he
    simp at this
  · intro he
    have := congrArg List.length he
    simp at this

theorem Normal.isName {steps : List Step} (h : Normal steps) {name : String}
    (hm : .entry name ∈ steps) : IsName name := by
  cases h with
  | absolute names h => exact h name (by simpa using hm)
  | relative ups names h => exact h name (by simpa using hm)

theorem normal_withExtension {steps : List Step} (h : Normal steps) :
    Normal (withExtension steps) := by
  rw [withExtension]
  split
  · rename_i name hlast
    split
    · exact h
    · obtain ⟨front, rfl⟩ : ∃ front, steps = front ++ [.entry name] :=
        List.getLast?_eq_some_iff.1 hlast
      have front_normal : Normal front := by
        rw [← pushNormal_up_name front name]
        exact normal_push_up h
      have isName := isName_withExtension (h.isName (List.mem_append_right front List.mem_cons_self))
      simpa using normal_push_name front_normal isName
  · exact h

theorem normal_resolve_steps (importer : Path) (specifier : String) :
    ∃ steps, Normal steps ∧ importer.resolve specifier = ofSteps steps := by
  refine ⟨_, normal_withExtension (normal_normalSteps ?_), rfl⟩
  split
  · exact written_steps _
  · rename_i relative
    refine written_append (written_directory (written_steps _)) (written_steps _) ?_
    exact not_root_mem (by simpa using relative)

theorem isPlain_resolve (importer : Path) (specifier : String) :
    (importer.resolve specifier).IsPlain := by
  obtain ⟨steps, normal, eq⟩ := normal_resolve_steps importer specifier
  rw [eq]
  exact isPlain_ofSteps normal

end ScriptToGo.Path
