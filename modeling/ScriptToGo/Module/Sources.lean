import ScriptToGo.Module.NormalPath

/-! Where the loader gets the text of files from. -/
namespace ScriptToGo

/-- A supply of source files, which may know one file under several names. -/
structure Provider where
  /-- The text of a file, or the reason why there is none. -/
  read : Path → Except String String
  /-- The path that stands for a file in the graph of modules. -/
  canonical : Path → Path

/-- A provider of finitely many files. -/
structure Sources extends Provider where
  places : List (List Step)
  /-- Canonical paths can be read nowhere else, so that loading comes to an end. -/
  mem_places : ∀ p text, read (canonical p) = .ok text → (canonical p).steps ∈ places
  /-- Canonical paths of one place are read alike. -/
  read_eq : ∀ p q, (canonical p).steps = (canonical q).steps →
    read (canonical p) = read (canonical q)

namespace Sources

instance : Coe Sources Provider := ⟨toProvider⟩

/-- Why a file that is not held in memory cannot be read. -/
def absentReason : String := "no such file in memory sources"

/-- The text held for a path. Files are told apart by normal form, and a later file replaces an
earlier one. -/
def heldText? (files : List (Path × String)) (p : Path) : Option String :=
  (files.reverse.find? fun file => file.1.normalize.steps == p.normalize.steps).map Prod.snd

/-- The normal form of a path, or the path to which that is redirected. A later redirection
replaces an earlier one. -/
def redirected (redirects : List (Path × Path)) (p : Path) : Path :=
  match redirects.reverse.find? fun r => r.1.steps == p.normalize.steps with
  | some r => r.2
  | none => p.normalize

/-- Which text is held for a path depends on its steps alone. -/
theorem heldText?_eq (files : List (Path × String)) {p q : Path} (h : p.steps = q.steps) :
    heldText? files p = heldText? files q := by
  rw [heldText?, heldText?, Path.steps_normalize, Path.steps_normalize, h]

/-- Files held in memory, some of which may be redirected to others. -/
def ofFiles (files : List (Path × String)) (redirects : List (Path × Path)) : Sources where
  read p :=
    match heldText? files p with
    | some text => .ok text
    | none => .error absentReason
  canonical := redirected redirects
  places := files.map (·.1.normalize.steps) ++ redirects.map (·.2.steps)
  mem_places p text h := by
    rw [List.mem_append]
    rw [redirected] at h ⊢
    split
    next r hr => exact .inr (List.mem_map.2 ⟨r, by simpa using List.mem_of_find?_eq_some hr, rfl⟩)
    next hr =>
      rw [hr] at h
      left
      simp only [heldText?] at h
      split at h
      next found =>
        obtain ⟨file, hf, -⟩ := Option.map_eq_some_iff.1 found
        have steps := List.find?_some hf
        rw [beq_iff_eq, Path.steps_normalize_normalize] at steps
        exact List.mem_map.2 ⟨file, by simpa using List.mem_of_find?_eq_some hf, steps⟩
      · simp at h
  read_eq p q h := by rw [heldText?_eq files h]

end Sources

end ScriptToGo
