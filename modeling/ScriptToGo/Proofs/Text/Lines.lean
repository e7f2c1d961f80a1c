import Mathlib.Data.List.Basic
import ScriptToGo.Text.Uppercase

/-! Texts that stay on one line, and the lines of those that do not. -/
namespace ScriptToGo.Text

/-- A text without a line end. -/
def OneLine (text : String) : Prop := '\n' ∉ text.toList

instance (text : String) : Decidable (OneLine text) := inferInstanceAs (Decidable (_ ∉ _))

variable {first second text : String} {texts : List String} {cs : List Char}

@[simp] theorem oneLine_append : OneLine (first ++ second) ↔ OneLine first ∧ OneLine second := by
  simp [OneLine]

/-- What is filled into a text is a text itself. -/
@[simp] theorem oneLine_toString : OneLine (toString text) ↔ OneLine text := Iff.rfl

@[simp] theorem oneLine_ofList : OneLine (String.ofList cs) ↔ '\n' ∉ cs := by
  rw [OneLine, String.toList_ofList]

theorem oneLine_join (h : ∀ text ∈ texts, OneLine text) : OneLine (String.join texts) := by
  simpa [OneLine] using h

theorem oneLine_intercalate (separator : OneLine text) (h : ∀ text ∈ texts, OneLine text) :
    OneLine (text.intercalate texts) := by
  induction texts with
  | nil => exact oneLine_ofList.2 List.not_mem_nil
  | cons first rest ih =>
    obtain ⟨here, others⟩ := List.forall_mem_cons.1 h
    rcases rest with _ | ⟨second, rest⟩
    · rwa [String.intercalate_singleton]
    · rw [String.intercalate_cons_cons, oneLine_append, oneLine_append]
      exact ⟨⟨here, separator⟩, ih others⟩

theorem ofNat_ne_lineEnd {code : Nat} (other : code ≠ '\n'.toNat) : Char.ofNat code ≠ '\n' := by
  by_cases valid : code.isValidChar
  · have back : (Char.ofNat code).toNat = code := by
      rw [Char.ofNat, dif_pos valid]
      rfl
    intro same
    rw [same] at back
    exact other back.symm
  · rw [Char.ofNat, dif_neg valid]
    decide

/-- No character is a line end in upper case but the line end itself. -/
theorem lineEnd_not_mem_upperChars {c : Char} (other : c ≠ '\n') : '\n' ∉ upperChars c := by
  rw [upperChars]
  split
  next codes found =>
    obtain ⟨before, after, table, -⟩ := List.lookup_eq_some_iff.1 found
    have clean : ∀ entry ∈ upperExpansions, '\n'.toNat ∉ entry.2 := by decide +kernel
    have codes_clean := clean (c.toNat, codes) (by simp [table])
    intro mem
    obtain ⟨code, among, same⟩ := List.mem_map.1 mem
    exact ofNat_ne_lineEnd (fun is => codes_clean (is ▸ among)) same
  split
  next run found =>
    have far : ∀ run ∈ upperRuns, '\n'.toNat < run.first + run.shift := by decide +kernel
    have run_far := far run (List.mem_of_find?_eq_some found)
    have covers : run.covers c.toNat = true := by simpa using List.find?_some found
    have least : run.first ≤ c.toNat := by
      simp only [CaseRun.covers, Bool.and_eq_true, decide_eq_true_eq] at covers
      exact covers.1.1
    rw [List.mem_singleton]
    exact fun same => ofNat_ne_lineEnd (by omega) same.symm
  · rw [List.mem_singleton]
    exact fun same => other same.symm

theorem oneLine_capitalized (h : OneLine text) : OneLine (capitalized text) := by
  rw [capitalized]
  split
  · decide
  next c rest spelled =>
    rw [OneLine, spelled, List.mem_cons, not_or] at h
    rw [oneLine_ofList, List.mem_append, not_or]
    exact ⟨lineEnd_not_mem_upperChars fun is => h.1 is.symm, h.2⟩

/-- What stands between the line ends of a text. After the last of them comes one more line, which
is empty if the text ends there. -/
def lines (text : String) : List String := (text.toList.splitOn '\n').map String.ofList

theorem not_mem_splitOn {α : Type} [DecidableEq α] {separator : α} (whole : List α) :
    ∀ piece ∈ whole.splitOn separator, separator ∉ piece := by
  induction whole with
  | nil => simp
  | cons a whole ih =>
    obtain ⟨head, tail, split⟩ := List.exists_cons_of_ne_nil (whole.splitOn_ne_nil separator)
    rw [split, List.forall_mem_cons] at ih
    rw [List.splitOn_cons_eq_if_modifyHead, split]
    split
    · exact List.forall_mem_cons.2 ⟨List.not_mem_nil, List.forall_mem_cons.2 ih⟩
    next other =>
      refine List.forall_mem_cons.2 ⟨?_, ih.2⟩
      rw [List.mem_cons, not_or]
      exact ⟨fun same => other (beq_iff_eq.2 same.symm), ih.1⟩

/-- What stands in front of a text and has no separator comes to its first piece. -/
theorem splitOn_append {α : Type} [DecidableEq α] {separator : α} {front whole head : List α}
    {tail : List (List α)} (clean : separator ∉ front)
    (split : whole.splitOn separator = head :: tail) :
    (front ++ whole).splitOn separator = (front ++ head) :: tail := by
  induction front with
  | nil => exact split
  | cons a front ih =>
    rw [List.mem_cons, not_or] at clean
    have other : (a == separator) = false := beq_false_of_ne fun same => clean.1 same.symm
    rw [List.cons_append, List.splitOn_cons_eq_if_modifyHead, other, ih clean.2]
    rfl

theorem oneLine_of_mem_lines (mem : first ∈ lines text) : OneLine first := by
  obtain ⟨piece, within, rfl⟩ := List.mem_map.1 mem
  exact oneLine_ofList.2 (not_mem_splitOn text.toList piece within)

theorem lines_of_oneLine (line : OneLine text) : lines text = [text] := by
  rw [lines, List.splitOn_eq_singleton line, List.map_singleton, String.ofList_toList]

/-- A text that is closed by a line end keeps its lines, whatever comes after it. -/
theorem lines_closed (first second : String) :
    lines (first ++ "\n" ++ second) = lines first ++ lines second := by
  have chars : (first ++ "\n" ++ second).toList = first.toList ++ '\n' :: second.toList := by simp
  rw [lines, chars, List.splitOn_append_cons_self, List.map_append, lines, lines]

/-- A text has a first line. What stands in front of it and stays on one line comes to that. -/
theorem exists_lines_append (text : String) : ∃ head tail, lines text = head :: tail ∧
    ∀ first, OneLine first → lines (first ++ text) = (first ++ head) :: tail := by
  obtain ⟨head, tail, split⟩ := List.exists_cons_of_ne_nil (text.toList.splitOn_ne_nil '\n')
  refine ⟨String.ofList head, tail.map String.ofList, ?_, fun first line => ?_⟩
  · rw [lines, split, List.map_cons]
  · rw [lines, String.toList_append, splitOn_append line split, List.map_cons, String.ofList_append,
      String.ofList_toList]

end ScriptToGo.Text
