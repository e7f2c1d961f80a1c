import Mathlib.Tactic.FinCases
import ScriptToGo.Proofs.Types.NormalSpelling

/-! The Go spellings of arrays of a type and of pointers to it, and what no Go spelling contains. -/
namespace ScriptToGo.TypeSpelling

section Wrapped

variable {cs gap : List Char} {t u : TypeSpelling} {text : String}

theorem DerivesSuffixes.concat (h : DerivesSuffixes cs t u) (isGap : AreBlanks gap) :
    DerivesSuffixes (cs ++ (gap ++ ['[', ']'])) t (.array u) := by
  induction h with
  | none => exact .pair isGap .none
  | pair blank _ ih =>
    rw [List.append_assoc]
    exact .pair blank ih

/-- Brackets behind a type make it an array, also behind one that has brackets in front. -/
theorem DerivesType.suffixed (h : DerivesType cs t) (isGap : AreBlanks gap) :
    DerivesType (cs ++ (gap ++ ['[', ']'])) (.array t) := by
  cases h with
  | array blank inner behind =>
    have more := behind.concat isGap
    simpa using DerivesType.array blank inner more
  | atom core behind =>
    have more := behind.concat isGap
    simpa using DerivesType.atom core more

theorem DerivesText.suffixed (h : DerivesText text t) : DerivesText (text ++ "[]") (.array t) := by
  obtain ⟨cs, gap, whole, derived, isGap⟩ := h
  refine ⟨_, [], ?_, derived.suffixed isGap, areBlanks_nil⟩
  rw [String.toList_append, whole]
  simp

/-- A text in angle brackets is the argument of the name before them. -/
theorem DerivesText.wrapped (h : DerivesText text t) {name : String} (isName : IsName name.toList) :
    DerivesText (name ++ "<" ++ text ++ ">") (.generic name [t]) := by
  obtain ⟨cs, gap, whole, derived, isGap⟩ := h
  have atom := DerivesAtom.generic areBlanks_nil isName areBlanks_nil (.last derived isGap)
  rw [String.ofList_toList] at atom
  refine ⟨_, [], ?_, .atom atom .none, areBlanks_nil⟩
  simp [String.toList_append, whole]

end Wrapped

/-- A text without the pairs of brackets in front. -/
def withoutArrays : List Char → List Char
  | '[' :: ']' :: rest => withoutArrays rest
  | cs => cs

theorem withoutArrays_dense {c : Char} (h : '[' ≠ c) (cs : List Char) :
    withoutArrays (c :: cs) = c :: cs := by
  rw [withoutArrays]
  rintro _ ⟨⟩
  exact h rfl

theorem innermost_ne_array (t element : TypeSpelling) : t.innermost ≠ array element := by
  match t with
  | .array inner =>
    rw [innermost]
    exact innermost_ne_array inner element
  | .named _ | .generic .. => exact TypeSpelling.noConfusion

/-- The innermost element of arrays is written without the brackets. -/
theorem Readable.toList_innermost {t : TypeSpelling} (h : t.Readable) :
    t.innermost.text.toList = withoutArrays t.text.toList := by
  match t with
  | .named name =>
    obtain ⟨c, tail, chars, -, other⟩ := IsName.exists_cons h
    rw [TypeSpelling.innermost, text, chars, withoutArrays_dense other]
    exact fun _ => TypeSpelling.noConfusion
  | .array element =>
    have inner := Readable.toList_innermost (t := element) h
    rw [TypeSpelling.innermost, inner, text, String.toList_append]
    rfl
  | .generic name args =>
    obtain ⟨c, tail, chars, -, other⟩ := h.1.exists_cons
    rw [TypeSpelling.innermost, toList_generic, chars, List.cons_append, withoutArrays_dense other]
    exact fun _ => TypeSpelling.noConfusion

mutual

/-- A shape and all shapes inside of it. -/
def parts : TypeSpelling → List TypeSpelling
  | named name => [named name]
  | array element => array element :: element.parts
  | generic name args => generic name args :: allParts args

def allParts : List TypeSpelling → List TypeSpelling
  | [] => []
  | t :: rest => t.parts ++ allParts rest

end

theorem mem_allParts {ts : List TypeSpelling} {u : TypeSpelling} :
    u ∈ allParts ts ↔ ∃ t ∈ ts, u ∈ t.parts := by
  induction ts with
  | nil => simp [allParts]
  | cons t rest ih => simp [allParts, ih]

theorem Normal.parts {t : TypeSpelling} (h : t.Normal) : ∀ u ∈ t.parts, u.Normal := by
  match t with
  | .named name =>
    rw [TypeSpelling.parts]
    exact List.forall_mem_singleton.2 h
  | .array element =>
    rw [TypeSpelling.parts]
    exact List.forall_mem_cons.2 ⟨h, Normal.parts (t := element) h⟩
  | .generic name args =>
    rw [TypeSpelling.parts]
    refine List.forall_mem_cons.2 ⟨h, fun u mem => ?_⟩
    obtain ⟨t, among, inside⟩ := mem_allParts.1 mem
    have := List.sizeOf_lt_of_mem among
    exact Normal.parts (allNormal_iff.1 h.2.2 t among) u inside
termination_by sizeOf t

/-- The words that stand for others in Go, next to literals. -/
def scriptWords : List String := ["number", "boolean", "true", "false", "ptr"]

/-- A name without a minus sign in front. -/
def unsigned (name : String) : String :=
  String.ofList (match name.toList with
    | '-' :: digits => digits
    | cs => cs)

/-- A shape that is neither a literal or a word of the script language, nor one of its wrappers, nor
a pointer to an array. -/
def IsGoShape : TypeSpelling → Prop
  | named name => Text.isQuoted name = false ∧ Text.startsWithDigit (unsigned name) = false ∧
      name ∉ scriptWords
  | array _ => True
  | generic name args => name ≠ "ptr" ∧ (name = "Array" → args.length ≠ 1) ∧
      (name = "Pointer" → ∀ t ∈ args, ∀ element, t ≠ array element)

theorem isGoShape_goWords : ∀ word ∈ goWords, IsGoShape (named word) := by
  simp only [IsGoShape]
  decide +kernel

/-- A name that is its own Go spelling is no literal and none of the words. -/
theorem isGoShape_of_goName {name : String} (h : goName name = name) : IsGoShape (named name) := by
  have isWord (word : String) (is : word = name) (mem : word ∈ goWords) : IsGoShape (named name) :=
    is ▸ isGoShape_goWords word mem
  unfold goName at h
  extract_lets digits at h
  split at h
  · split at h <;> exact isWord _ h (by simp [goWords])
  next noNumber =>
    split at h
    · exact isWord _ h (by simp [goWords])
    next noText =>
      split at h
      · exact isWord _ h (by simp [goWords])
      next noTruth =>
        split at h
        · exact isWord _ h (by simp [goWords])
        next notNumber =>
          split at h
          · exact isWord _ h (by simp [goWords])
          next notBoolean =>
            obtain ⟨notTrue, notFalse⟩ := not_or.1 noTruth
            have notPointer : name ≠ "ptr" := by
              rintro rfl
              exact absurd h (by decide +kernel)
            refine ⟨Bool.eq_false_iff.2 noText, Bool.eq_false_iff.2 noNumber, ?_⟩
            simp only [scriptWords, List.mem_cons, List.not_mem_nil, or_false, not_or]
            exact ⟨notNumber, notBoolean, notTrue, notFalse, notPointer⟩

theorem Normal.isGoShape {t : TypeSpelling} (h : t.Normal) : t.IsGoShape := by
  match t with
  | .named name => exact isGoShape_of_goName h
  | .array _ => trivial
  | .generic name args =>
    obtain ⟨several, pointers, -⟩ := h
    refine ⟨?_, several, ?_⟩
    · rintro rfl
      exact absurd (pointers _ rfl).1 (by decide)
    · rintro rfl t mem element rfl
      exact innermost_ne_array _ _ ((pointers _ rfl).2 _ mem)

end TypeSpelling

open TypeSpelling

/-- Brackets behind a type and the generic array are both brackets in front of its Go spelling, and a
pointer is one to the innermost elements. What the grammar derives is rewritten everywhere. -/
theorem normalizeTypeText_wrapped {text : String} {t : TypeSpelling} (h : DerivesText text t) :
    normalizeTypeText (text ++ "[]") = "[]" ++ normalizeTypeText text ∧
      normalizeTypeText ("Array<" ++ text ++ ">") = "[]" ++ normalizeTypeText text ∧
      (∀ wrapper ∈ ["Pointer", "ptr"], normalizeTypeText (wrapper ++ "<" ++ text ++ ">")
        = "Pointer<" ++ String.ofList (withoutArrays (normalizeTypeText text).toList) ++ ">") ∧
      ∀ u ∈ (parse text).normalize.parts, u.IsGoShape := by
  have spelled {other : String} {u : TypeSpelling} (derived : DerivesText other u) :
      normalizeTypeText other = u.normalize.text := by
    rw [normalizeTypeText, derived.parse_eq]
  have arrayText : (TypeSpelling.array t).normalize.text = "[]" ++ normalizeTypeText text := by
    rw [spelled h, TypeSpelling.normalize, TypeSpelling.text]
    rfl
  have named : ∀ name ∈ ["Array", "Pointer", "ptr"], IsName name.toList := by
    have read : ∀ name ∈ ["Array", "Pointer", "ptr"],
        readName? name.toList = some (name.toList, []) := by decide +kernel
    exact fun name mem => (exists_of_readName? (read name mem)).1
  refine ⟨?_, ?_, fun wrapper mem => ?_, ?_⟩
  · rw [spelled h.suffixed, arrayText]
  · have derived := h.wrapped (named "Array" (by simp))
    have joined : "Array" ++ "<" = "Array<" := by decide
    rw [joined] at derived
    exact (spelled derived).trans arrayText
  · have inner := h.readable.normalize.toList_innermost
    rw [← spelled h] at inner
    rw [spelled (h.wrapped (named wrapper (List.mem_cons_of_mem _ mem))), ← inner,
      String.ofList_toList]
    have rewritten : (generic wrapper [t]).normalize = generic "Pointer" [t.normalize.innermost] := by
      fin_cases mem <;> rfl
    rw [rewritten, TypeSpelling.text, argsText, moreText, String.append_empty]
    rfl
  · rw [h.parse_eq]
    exact fun u mem => ((normalize_normal t).parts u mem).isGoShape

/-- Arrays of pointers to arrays, with blanks inside. -/
def nestedText : String := "Array<ptr< number []>[]>"

theorem derives_nestedText :
    DerivesText nestedText (.generic "Array" [.array (.generic "ptr" [.array (.named "number")])]) := by
  have read : ∀ name ∈ ["number", "ptr", "Array"], readName? name.toList = some (name.toList, []) := by
    decide +kernel
  have named : ∀ name ∈ ["number", "ptr", "Array"], IsName name.toList :=
    fun name mem => (exists_of_readName? (read name mem)).1
  have space : AreBlanks [' '] := List.forall_mem_singleton.2 (by decide)
  have number : DerivesText " number " (.named "number") :=
    ⟨_, [' '], rfl, .atom (.named space (named "number" (by simp))) .none, space⟩
  exact ((number.suffixed.wrapped (named "ptr" (by simp))).suffixed).wrapped (named "Array" (by simp))

theorem nestedText_wrapped :
    DerivesText nestedText (.generic "Array" [.array (.generic "ptr" [.array (.named "number")])]) ∧
      normalizeTypeText nestedText = "[][]Pointer<i32>" ∧
      normalizeTypeText (nestedText ++ "[]") = "[]" ++ normalizeTypeText nestedText ∧
      normalizeTypeText ("ptr<" ++ nestedText ++ ">") = "Pointer<Pointer<i32>>" ∧
      ∀ u ∈ (parse nestedText).normalize.parts, u.IsGoShape := by
  have spelled : normalizeTypeText nestedText = "[][]Pointer<i32>" := by
    rw [normalizeTypeText, derives_nestedText.parse_eq]
    decide +kernel
  obtain ⟨suffixed, -, pointers, shapes⟩ := normalizeTypeText_wrapped derives_nestedText
  refine ⟨derives_nestedText, spelled, suffixed, ?_, shapes⟩
  have pointer := pointers "ptr" (by simp)
  rw [spelled] at pointer
  exact pointer.trans (by decide +kernel)

end ScriptToGo
