import ScriptToGo.Proofs.Types.TypeGrammar

/-! A type text that is written from a shape is read back as that shape, and the Go spelling of a type
text is its own Go spelling. -/
namespace ScriptToGo.TypeSpelling

mutual

/-- A shape with names as they are read, in which no generic type is without arguments. -/
def Readable : TypeSpelling → Prop
  | named name => IsName name.toList
  | array element => element.Readable
  | generic name args => IsName name.toList ∧ args ≠ [] ∧ AllReadable args

def AllReadable : List TypeSpelling → Prop
  | [] => True
  | t :: rest => t.Readable ∧ AllReadable rest

end

theorem allReadable_iff {ts : List TypeSpelling} : AllReadable ts ↔ ∀ t ∈ ts, t.Readable := by
  induction ts with
  | nil => simp [AllReadable]
  | cons t rest ih => rw [AllReadable, ih, List.forall_mem_cons]

section Derived

variable {cs : List Char} {t u : TypeSpelling}

theorem DerivesSuffixes.readable (h : DerivesSuffixes cs t u) (shape : t.Readable) : u.Readable := by
  induction h with
  | none => exact shape
  | pair _ _ ih => exact ih shape

mutual

/-- The grammar derives no other shapes. -/
theorem DerivesType.readable {cs : List Char} {t : TypeSpelling} (h : DerivesType cs t) :
    t.Readable := by
  match h with
  | .array (t := element) _ inner behind => exact behind.readable (t := .array element) inner.readable
  | .atom core behind => exact behind.readable core.readable

theorem DerivesAtom.readable {cs : List Char} {t : TypeSpelling} (h : DerivesAtom cs t) :
    t.Readable := by
  match h with
  | .named _ name =>
    rw [Readable, String.toList_ofList]
    exact name
  | .generic _ name _ args =>
    rw [Readable, String.toList_ofList]
    exact ⟨name, args.readable⟩

theorem DerivesArgs.readable {cs : List Char} {ts : List TypeSpelling} (h : DerivesArgs cs ts) :
    ts ≠ [] ∧ AllReadable ts := by
  match h with
  | .last inner _ => exact ⟨List.cons_ne_nil _ _, inner.readable, trivial⟩
  | .more inner _ later => exact ⟨List.cons_ne_nil _ _, inner.readable, later.readable.2⟩

end

theorem DerivesText.readable {text : String} (h : DerivesText text t) : t.Readable := by
  obtain ⟨_, _, -, derived, -⟩ := h
  exact derived.readable

end Derived

theorem toList_generic (name : String) (args : List TypeSpelling) :
    (generic name args).text.toList = name.toList ++ '<' :: ((argsText args).toList ++ ['>']) := by
  simp [text, toString]

theorem toList_moreText (t : TypeSpelling) (ts : List TypeSpelling) :
    (moreText (t :: ts)).toList = ',' :: ' ' :: (t.text.toList ++ (moreText ts).toList) := by
  simp [moreText, toString]

/-- The grammar derives further arguments from their texts. -/
theorem derives_args {cs : List Char} {t : TypeSpelling} {ts : List TypeSpelling}
    (first : DerivesType cs t) (others : ∀ u ∈ ts, DerivesType u.text.toList u) :
    DerivesArgs (cs ++ ((moreText ts).toList ++ ['>'])) (t :: ts) := by
  induction ts generalizing cs t with
  | nil => exact .last first areBlanks_nil
  | cons u ts ih =>
    have space : AreBlanks [' '] := List.forall_mem_singleton.2 (by decide)
    obtain ⟨next, later⟩ := List.forall_mem_cons.1 others
    have behind := ih (next.blanks_append space) later
    rw [toList_moreText]
    simpa using DerivesArgs.more first areBlanks_nil behind

/-- The grammar derives a shape from its text. -/
theorem Readable.derives {t : TypeSpelling} (h : t.Readable) : DerivesType t.text.toList t := by
  match t with
  | .named name =>
    have atom := DerivesAtom.named areBlanks_nil h
    rw [String.ofList_toList] at atom
    simpa [text] using DerivesType.atom atom .none
  | .array element =>
    have inner := Readable.derives (t := element) h
    simpa [text, Target.slice] using DerivesType.array areBlanks_nil inner .none
  | .generic name [] => exact (h.2.1 rfl).elim
  | .generic name (first :: others) =>
    have each : ∀ u ∈ first :: others, DerivesType u.text.toList u := fun u mem =>
      have := List.sizeOf_lt_of_mem mem
      Readable.derives (allReadable_iff.1 h.2.2 u mem)
    obtain ⟨here, later⟩ := List.forall_mem_cons.1 each
    have atom := DerivesAtom.generic areBlanks_nil h.1 areBlanks_nil (derives_args here later)
    rw [String.ofList_toList] at atom
    simpa [toList_generic, argsText] using DerivesType.atom atom .none
termination_by sizeOf t

/-- A shape is read back from its text. -/
theorem parse_text {t : TypeSpelling} (h : t.Readable) : parse t.text = t :=
  DerivesText.parse_eq ⟨_, [], (List.append_nil _).symm, h.derives, areBlanks_nil⟩

end ScriptToGo.TypeSpelling

namespace ScriptToGo

namespace TypeSpelling

mutual

/-- A shape in which nothing is left to rewrite: no name has another spelling, and neither is there
an array in generic form, nor a pointer to an array. -/
def Normal : TypeSpelling → Prop
  | named name => goName name = name
  | array element => element.Normal
  | generic name args =>
    (name = Builtin.arrayName → args.length ≠ 1) ∧
      (∀ pointer ∈ Builtin.pointer? name, pointer = name ∧ ∀ t ∈ args, t.innermost = t) ∧
      AllNormal args

def AllNormal : List TypeSpelling → Prop
  | [] => True
  | t :: rest => t.Normal ∧ AllNormal rest

end

theorem allNormal_iff {ts : List TypeSpelling} : AllNormal ts ↔ ∀ t ∈ ts, t.Normal := by
  induction ts with
  | nil => simp [AllNormal]
  | cons t rest ih => rw [AllNormal, ih, List.forall_mem_cons]

section Names

variable {name pointer : String}

theorem pointer?_eq_some (h : Builtin.pointer? name = some pointer) :
    pointer = Builtin.pointerName := by
  rw [Builtin.pointer?] at h
  split at h
  · exact (Option.some.inj h).symm
  · cases h

/-- The Go words that names stand for, and the long name of pointers. -/
def goWords : List String :=
  [Target.float, Target.int32, Target.string, Target.bool, Builtin.pointerName]

/-- Each of them is its own Go spelling, and is read as a name. -/
theorem goWords_fixed : ∀ word ∈ goWords,
    goName word = word ∧ readName? word.toList = some (word.toList, []) := by
  decide +kernel

/-- A name is its own Go spelling, or that is one of these words. -/
theorem goName_cases (name : String) : goName name = name ∨ goName name ∈ goWords := by
  unfold goName
  extract_lets unsigned
  split
  · split <;> simp [goWords]
  split
  · simp [goWords]
  split
  · simp [goWords]
  split
  · simp [goWords]
  split
  · simp [goWords]
  · cases found : Builtin.pointer? name with
    | none => exact .inl rfl
    | some pointer =>
      rw [Option.getD_some, pointer?_eq_some found]
      simp [goWords]

theorem goName_goName (name : String) : goName (goName name) = goName name := by
  rcases goName_cases name with same | word
  · rw [same, same]
  · exact (goWords_fixed _ word).1

theorem isName_pointerName : IsName Builtin.pointerName.toList :=
  (exists_of_readName? (goWords_fixed Builtin.pointerName (by simp [goWords])).2).1

/-- A name that has another spelling has one that is read as a name. -/
theorem goName_eq_or_isName (name : String) : goName name = name ∨ IsName (goName name).toList :=
  (goName_cases name).imp_right fun word => (exists_of_readName? (goWords_fixed _ word).2).1

theorem isName_goName (h : IsName name.toList) : IsName (goName name).toList := by
  rcases goName_eq_or_isName name with same | word
  · rwa [same]
  · exact word

end Names

theorem innermost_innermost (t : TypeSpelling) : t.innermost.innermost = t.innermost := by
  match t with
  | .array element =>
    rw [innermost]
    exact innermost_innermost element
  | .named _ | .generic .. => rfl

theorem Normal.innermost {t : TypeSpelling} (h : t.Normal) : t.innermost.Normal := by
  match t with
  | .array element =>
    rw [TypeSpelling.innermost]
    exact Normal.innermost (t := element) h
  | .named _ | .generic .. => exact h

theorem Readable.innermost {t : TypeSpelling} (h : t.Readable) : t.innermost.Readable := by
  match t with
  | .array element =>
    rw [TypeSpelling.innermost]
    exact Readable.innermost (t := element) h
  | .named _ | .generic .. => exact h

theorem normalizeAll_eq_map (ts : List TypeSpelling) : normalizeAll ts = ts.map normalize := by
  induction ts with
  | nil => rfl
  | cons t rest ih => rw [normalizeAll, ih, List.map_cons]

/-- What becomes of a generic type: an array, a pointer to what is no array, or itself. -/
theorem normalize_generic (name : String) (args : List TypeSpelling) :
    (name = Builtin.arrayName ∧ ∃ element, args.map normalize = [element] ∧
      (generic name args).normalize = .array element) ∨
    (∃ pointer, Builtin.pointer? name = some pointer ∧
      (generic name args).normalize = .generic pointer ((args.map normalize).map innermost)) ∨
    ((name = Builtin.arrayName → args.length ≠ 1) ∧ Builtin.pointer? name = none ∧
      (generic name args).normalize = .generic name (args.map normalize)) := by
  rw [normalize, normalizeAll_eq_map]
  split
  next isArray one => exact .inl ⟨beq_iff_eq.1 isArray, _, one, rfl⟩
  next other =>
    split
    next pointer found => exact .inr (.inl ⟨pointer, found, rfl⟩)
    next none =>
      refine .inr (.inr ⟨?_, none, rfl⟩)
      rintro rfl single
      obtain ⟨arg, rfl⟩ := List.length_eq_one_iff.1 single
      exact other _ (by decide) rfl

/-- Nothing is left to rewrite in what has been rewritten. -/
theorem normalize_normal (t : TypeSpelling) : t.normalize.Normal := by
  match t with
  | .named name =>
    rw [normalize]
    exact goName_goName name
  | .array element =>
    rw [normalize]
    exact normalize_normal element
  | .generic name args =>
    have each : ∀ t ∈ args.map normalize, t.Normal := List.forall_mem_map.2 fun t mem =>
      have := List.sizeOf_lt_of_mem mem
      normalize_normal t
    rcases normalize_generic name args with ⟨_, element, one, eq⟩ | ⟨pointer, found, eq⟩ |
      ⟨several, none, eq⟩
    · rw [eq]
      exact each element (by simp [one])
    · rw [eq, pointer?_eq_some found]
      refine ⟨fun is => absurd is (by decide), ?_, allNormal_iff.2 ?_⟩
      · rintro _ ⟨⟩
        exact ⟨rfl, List.forall_mem_map.2 fun t _ => innermost_innermost t⟩
      · exact List.forall_mem_map.2 fun t mem => (each t mem).innermost
    · rw [eq]
      refine ⟨by simpa using several, ?_, allNormal_iff.2 each⟩
      rw [none]
      nofun
termination_by sizeOf t

/-- What is left as it is has nothing to rewrite. -/
theorem Normal.normalize_eq {t : TypeSpelling} (h : t.Normal) : t.normalize = t := by
  match t with
  | .named name =>
    rw [normalize]
    exact congrArg named h
  | .array element =>
    rw [normalize, Normal.normalize_eq (t := element) h]
  | .generic name args =>
    obtain ⟨several, pointers, normal⟩ := h
    have same : args.map normalize = args := by
      refine (List.map_congr_left fun t mem => ?_).trans (List.map_id args)
      have := List.sizeOf_lt_of_mem mem
      exact Normal.normalize_eq (allNormal_iff.1 normal t mem)
    rcases normalize_generic name args with ⟨isArray, element, one, eq⟩ | ⟨pointer, found, eq⟩ |
      ⟨_, _, eq⟩
    · have single : args.length = 1 := by rw [← same, one, List.length_singleton]
      exact absurd single (several isArray)
    · obtain ⟨rfl, inner⟩ := pointers pointer found
      rw [eq, same, List.map_congr_left inner, List.map_id']
    · rw [eq, same]
termination_by sizeOf t

theorem Readable.normalize {t : TypeSpelling} (h : t.Readable) : t.normalize.Readable := by
  match t with
  | .named name =>
    rw [TypeSpelling.normalize]
    exact isName_goName h
  | .array element =>
    rw [TypeSpelling.normalize]
    exact Readable.normalize (t := element) h
  | .generic name args =>
    obtain ⟨named, some, shapes⟩ := h
    have each : ∀ t ∈ args.map TypeSpelling.normalize, t.Readable := List.forall_mem_map.2
      fun t mem =>
        have := List.sizeOf_lt_of_mem mem
        Readable.normalize (allReadable_iff.1 shapes t mem)
    rcases normalize_generic name args with ⟨_, element, one, eq⟩ | ⟨pointer, found, eq⟩ |
      ⟨_, _, eq⟩
    · rw [eq]
      exact each element (by simp [one])
    · rw [eq, pointer?_eq_some found]
      refine ⟨isName_pointerName, by simpa using some, allReadable_iff.2 ?_⟩
      exact List.forall_mem_map.2 fun t mem => (each t mem).innermost
    · rw [eq]
      exact ⟨named, by simpa using some, allReadable_iff.2 each⟩
termination_by sizeOf t

theorem trimBlanks_trimBlanks (cs : List Char) :
    Text.trimBlanks (Text.trimBlanks cs) = Text.trimBlanks cs := by
  have left : (Text.trimBlanks cs).dropWhile Text.isBlank = Text.trimBlanks cs := by
    obtain ⟨after, whole⟩ := List.rdropWhile_prefix Text.isBlank (l := cs.dropWhile Text.isBlank)
    have starts := List.head?_dropWhile_not Text.isBlank cs
    rw [← whole] at starts
    change List.dropWhile _ (List.rdropWhile _ _) = List.rdropWhile _ _
    cases trimmed : (cs.dropWhile Text.isBlank).rdropWhile Text.isBlank with
    | nil => rfl
    | cons c rest =>
      rw [trimmed] at starts
      exact List.dropWhile_cons_of_neg (by simpa using starts)
  have right := List.rdropWhile_idempotent Text.isBlank (cs.dropWhile Text.isBlank)
  conv_lhs => rw [Text.trimBlanks, left]
  exact right

/-- The shape of a text is read from it as a whole, or it is the text without the blanks around it,
which then has that shape too. -/
theorem parse_cases (text : String) : (parse text).Readable ∨
    ∃ trimmed, parse text = named trimmed ∧ parse trimmed = named trimmed := by
  have again : parse (String.ofList (Text.trimBlanks text.toList)) = parse text := by
    rw [parse, parse, String.toList_ofList, trimBlanks_trimBlanks]
  exact (derivesText_parse_or text).imp DerivesText.readable fun kept => ⟨_, kept, again.trans kept⟩

end TypeSpelling

open TypeSpelling

/-- The Go spelling of a text is its own, whether the text has the shape of a type or not. -/
theorem normalizeTypeText_normalizeTypeText (text : String) :
    normalizeTypeText (normalizeTypeText text) = normalizeTypeText text := by
  rcases parse_cases text with shape | ⟨trimmed, kept, same⟩
  · change (parse (parse text).normalize.text).normalize.text = (parse text).normalize.text
    rw [parse_text shape.normalize, (normalize_normal _).normalize_eq]
  · have spelled (word : String) (alone : parse word = named word) :
        normalizeTypeText word = goName word := by
      rw [normalizeTypeText, alone, TypeSpelling.normalize, TypeSpelling.text]
    have first : normalizeTypeText text = goName trimmed := by
      rw [normalizeTypeText, kept, TypeSpelling.normalize, TypeSpelling.text]
    rw [first]
    rcases goName_eq_or_isName trimmed with fixed | word
    · rw [fixed, spelled trimmed same, fixed]
    · have alone : parse (goName trimmed) = named (goName trimmed) :=
        parse_text (t := named (goName trimmed)) word
      rw [spelled _ alone, goName_goName]

end ScriptToGo
