import ScriptToGo.Module.Path

/-! Paths in normal form. Writing one and reading it back changes nothing, and neither does
normalizing it again. -/
namespace ScriptToGo.Path

/-- A name that a single step can carry. -/
structure IsName (name : String) : Prop where
  ne_empty : name.toList ≠ []
  no_slash : '/' ∉ name.toList
  ne_dot : name.toList ≠ ['.']
  ne_dots : name.toList ≠ ['.', '.']

/-- Steps that a text can write: the root stands in front of all others or nowhere. -/
structure Written (steps : List Step) : Prop where
  names : ∀ name, .entry name ∈ steps → IsName name
  root_first : .root ∉ steps.drop 1

/-- Steps in normal form: names below the root, or names below some directory further up. -/
inductive Normal : List Step → Prop
  | absolute (names : List String) (h : ∀ n ∈ names, IsName n) :
    Normal (.root :: names.map .entry)
  | relative (ups : Nat) (names : List String) (h : ∀ n ∈ names, IsName n) :
    Normal (List.replicate ups .up ++ names.map .entry)

private theorem isName_of_step? {piece : List Char} {name : String} (hp : '/' ∉ piece)
    (h : step? piece = some (.entry name)) : IsName name := by
  rw [step?] at h
  split at h
  · simp at h
  next h₁ =>
    split at h
    · simp at h
    next h₂ =>
      simp only [Option.some.injEq, Step.entry.injEq] at h
      subst h
      simp only [not_or] at h₁
      exact ⟨by simpa using h₁.1, by simpa using hp, by simpa using h₁.2, by simpa using h₂⟩

private theorem step?_name {name : String} (h : IsName name) :
    step? name.toList = some (.entry name) := by
  simp [step?, h.ne_empty, h.ne_dot, h.ne_dots]

private theorem not_mem_piece {cs piece : List Char} (h : piece ∈ cs.splitOn '/') :
    '/' ∉ piece := by
  induction cs generalizing piece with
  | nil => simp_all
  | cons c cs ih =>
    rw [List.splitOn_cons_eq_if_modifyHead] at h
    split at h
    next hc =>
      rcases List.mem_cons.1 h with rfl | h
      · simp
      · exact ih h
    next hc =>
      match hs : cs.splitOn '/' with
      | [] => simp [hs] at h
      | first :: others =>
        rw [hs, List.modifyHead_cons] at h
        rcases List.mem_cons.1 h with rfl | h
        · simp only [List.mem_cons, not_or]
          exact ⟨fun h => hc (by simp [← h]), ih (by simp [hs])⟩
        · exact ih (by simp [hs, h])

theorem written_steps (p : Path) : Written p.steps := by
  have tail : ∀ s ∈ (p.text.toList.splitOn '/').filterMap step?,
      s ≠ .root ∧ ∀ name, s = .entry name → IsName name := by
    intro s hs
    obtain ⟨piece, hp, h⟩ := List.mem_filterMap.1 hs
    refine ⟨?_, fun name hn => isName_of_step? (not_mem_piece hp) (hn ▸ h)⟩
    rintro rfl
    rw [step?] at h
    split at h
    · simp at h
    · split at h <;> simp at h
  rw [steps, stepsOf]
  split
  · exact ⟨fun name h => (tail _ (by simpa using h)).2 _ rfl, fun h => (tail _ (by simpa using h)).1 rfl⟩
  split
  · exact ⟨fun name h => (tail _ (by simpa using h)).2 _ rfl, fun h => (tail _ (by simpa using h)).1 rfl⟩
  · exact ⟨fun name h => (tail _ h).2 _ rfl, fun h => (tail _ (List.mem_of_mem_drop h)).1 rfl⟩

private theorem filterMap_names {names : List String} (h : ∀ n ∈ names, IsName n) :
    (names.map String.toList).filterMap step? = names.map .entry := by
  induction names with
  | nil => rfl
  | cons n names ih =>
    simp [step?_name (h n (by simp)), ih fun m hm => h m (by simp [hm])]

private theorem filterMap_ups (k : Nat) :
    (List.replicate k ['.', '.']).filterMap step? = List.replicate k .up := by
  induction k with
  | zero => rfl
  | succ k ih => simp [List.replicate_succ, ih, step?]

/-- A piece that writes a step by itself. -/
private structure IsPiece (piece : List Char) : Prop where
  no_slash : '/' ∉ piece
  ne_empty : piece ≠ []
  ne_dot : piece ≠ ['.']

private theorem isPiece_name {names : List String} (h : ∀ n ∈ names, IsName n) :
    ∀ p ∈ names.map String.toList, IsPiece p := by
  intro p hp
  obtain ⟨n, hn, rfl⟩ := List.mem_map.1 hp
  exact ⟨(h n hn).no_slash, (h n hn).ne_empty, (h n hn).ne_dot⟩

private theorem splitOn_pieces {pieces : List (List Char)} (h : ∀ p ∈ pieces, '/' ∉ p)
    (hn : pieces ≠ []) : (['/'].intercalate pieces).splitOn '/' = pieces :=
  List.splitOn_intercalate _ h hn

private theorem stepsOf_relative {pieces : List (List Char)} (h : ∀ p ∈ pieces, IsPiece p) :
    stepsOf (['/'].intercalate pieces) = pieces.filterMap step? := by
  match pieces with
  | [] => decide
  | p :: rest =>
    have hp := h p (by simp)
    have root : (['/'].intercalate (p :: rest)).head? ≠ some '/' := by
      match p, hp with
      | [], hp => exact absurd rfl hp.ne_empty
      | c :: p, hp =>
        have : c ≠ '/' := fun hc => hp.no_slash (by simp [hc])
        cases rest <;> simp [List.intercalate_cons_cons, this]
    rw [stepsOf, splitOn_pieces (fun q hq => (h q hq).no_slash) (by simp), if_neg root,
      if_neg (by simpa using hp.ne_dot)]

private theorem stepsOf_absolute {pieces : List (List Char)} (h : ∀ p ∈ pieces, IsPiece p)
    (hn : pieces ≠ []) :
    stepsOf (['/'].intercalate ([] :: pieces)) = .root :: pieces.filterMap step? := by
  have root : (['/'].intercalate ([] :: pieces)).head? = some '/' := by
    cases pieces with
    | nil => exact absurd rfl hn
    | cons p rest => simp [List.intercalate_cons_cons]
  rw [stepsOf, splitOn_pieces (by simpa using fun q hq => (h q hq).no_slash) (by simp),
    if_pos root, List.filterMap_cons_none (by simp [step?])]

/-- Steps in normal form are read back as they were written. -/
theorem steps_ofSteps {s : List Step} (h : Normal s) : (ofSteps s).steps = s := by
  cases h with
  | absolute names h =>
    cases names with
    | nil => decide
    | cons n names =>
      have text : (ofSteps (.root :: (n :: names).map .entry)).text.toList
          = ['/'].intercalate ([] :: (n :: names).map String.toList) := by
        simp [ofSteps, String.toList_intercalate, stepText, Function.comp_def]
      rw [steps, text, stepsOf_absolute (isPiece_name h) (by simp), filterMap_names h]
  | relative ups names h =>
    have text : (ofSteps (List.replicate ups .up ++ names.map .entry)).text.toList
        = ['/'].intercalate (List.replicate ups ['.', '.'] ++ names.map String.toList) := by
      have : List.replicate ups .up ++ names.map Step.entry ≠ [.root] := by
        cases ups <;> cases names <;> simp [List.replicate_succ]
      simp [ofSteps, this, String.toList_intercalate, stepText, Function.comp_def]
    rw [steps, text, stepsOf_relative, List.filterMap_append, filterMap_ups, filterMap_names h]
    intro p hp
    rcases List.mem_append.1 hp with hp | hp
    · rw [List.eq_of_mem_replicate hp]
      exact ⟨by decide, by decide, by decide⟩
    · exact isPiece_name h p hp

private theorem normal_root : Normal [.root] := .absolute [] (by simp)

theorem normal_push_name {done : List Step} {name : String} (h : Normal done)
    (hn : IsName name) : Normal (done ++ [.entry name]) := by
  cases h with
  | absolute names h =>
    have := Normal.absolute (names ++ [name]) (by
      intro n hm
      rcases List.mem_append.1 hm with hm | hm
      · exact h n hm
      · rw [List.mem_singleton.1 hm]; exact hn)
    simpa using this
  | relative ups names h =>
    have := Normal.relative ups (names ++ [name]) (by
      intro n hm
      rcases List.mem_append.1 hm with hm | hm
      · exact h n hm
      · rw [List.mem_singleton.1 hm]; exact hn)
    simpa using this

theorem pushNormal_up_name (done : List Step) (name : String) :
    pushNormal (done ++ [.entry name]) .up = done := by
  simp [pushNormal]

theorem normal_push_up {done : List Step} (h : Normal done) :
    Normal (pushNormal done .up) := by
  cases h with
  | absolute names h =>
    rcases List.eq_nil_or_concat names with rfl | ⟨names, n, rfl⟩
    · exact normal_root
    · rw [List.concat_eq_append] at h ⊢
      have := pushNormal_up_name (.root :: names.map .entry) n
      rw [List.map_append, List.map_singleton, ← List.cons_append, this]
      exact .absolute names fun m hm => h m (by simp [hm])
  | relative ups names h =>
    rcases List.eq_nil_or_concat names with rfl | ⟨names, n, rfl⟩
    · have : pushNormal (List.replicate ups .up ++ ([] : List String).map .entry) .up
          = List.replicate (ups + 1) .up ++ ([] : List String).map .entry := by
        cases ups with
        | zero => rfl
        | succ k => simp [pushNormal, List.getLast?_replicate, List.replicate_succ']
      rw [this]
      exact .relative _ _ (by simp)
    · rw [List.concat_eq_append] at h ⊢
      have := pushNormal_up_name (List.replicate ups .up ++ names.map .entry) n
      rw [List.map_append, List.map_singleton, ← List.append_assoc, this]
      exact .relative _ _ fun m hm => h m (by simp [hm])

private theorem normal_foldl {todo done : List Step} (h : Normal done)
    (root : .root ∉ todo) (names : ∀ n, .entry n ∈ todo → IsName n) :
    Normal (todo.foldl pushNormal done) := by
  induction todo generalizing done with
  | nil => exact h
  | cons s todo ih =>
    rw [List.foldl_cons]
    refine ih ?_ (fun hr => root (by simp [hr])) fun n hn => names n (by simp [hn])
    match s with
    | .root => exact absurd (by simp) root
    | .here => exact h
    | .up => exact normal_push_up h
    | .entry n => exact normal_push_name h (names n (by simp))

private theorem normal_nil : Normal [] := .relative 0 [] (by simp)

theorem normal_normalSteps {s : List Step} (h : Written s) : Normal (normalSteps s) := by
  match s with
  | [] => exact normal_nil
  | first :: todo =>
    have start : Normal (pushNormal [] first) := by
      match first with
      | .root => exact normal_root
      | .here => exact normal_nil
      | .up => exact normal_push_up normal_nil
      | .entry n => exact normal_push_name normal_nil (h.names n (by simp))
    rw [normalSteps, List.foldl_cons]
    exact normal_foldl start (by simpa using h.root_first) fun n hn => h.names n (by simp [hn])

private theorem foldl_names (done : List Step) (names : List String) :
    (names.map Step.entry).foldl pushNormal done = done ++ names.map .entry := by
  induction names generalizing done with
  | nil => simp
  | cons n names ih => simp [pushNormal, ih]

private theorem foldl_ups (done ups : Nat) :
    (List.replicate ups Step.up).foldl pushNormal (List.replicate done .up)
      = List.replicate (done + ups) .up := by
  induction ups generalizing done with
  | zero => rfl
  | succ k ih =>
    have : pushNormal (List.replicate done .up) .up = List.replicate (done + 1) .up := by
      cases done with
      | zero => rfl
      | succ d => simp [pushNormal, List.getLast?_replicate, List.replicate_succ']
    rw [List.replicate_succ, List.foldl_cons, this, ih, Nat.add_assoc, Nat.add_comm 1]

theorem normalSteps_eq {s : List Step} (h : Normal s) : normalSteps s = s := by
  cases h with
  | absolute names h => simp [normalSteps, pushNormal, foldl_names]
  | relative ups names h =>
    have := foldl_ups 0 ups
    rw [List.replicate_zero, Nat.zero_add] at this
    rw [normalSteps, List.foldl_append, this, foldl_names]

/-- The steps of a normalized path are in normal form. -/
theorem steps_normalize (p : Path) : p.normalize.steps = normalSteps p.steps :=
  steps_ofSteps (normal_normalSteps (written_steps p))

/-- Normalizing twice does no more than normalizing once. -/
theorem steps_normalize_normalize (p : Path) : p.normalize.normalize.steps = p.normalize.steps := by
  rw [steps_normalize, steps_normalize,
    normalSteps_eq (normal_normalSteps (written_steps p))]

end ScriptToGo.Path
