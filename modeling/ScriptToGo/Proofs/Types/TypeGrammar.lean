import Mathlib.Data.List.DropRight
import ScriptToGo.Proofs.Token.Numerals
import ScriptToGo.Types.Spelling

/-! The grammar of type texts, and that the reader of shapes accepts exactly what it derives. -/
namespace ScriptToGo.TypeSpelling

/-- A name as it is read: a quoted text without its quote inside, or a run of characters of which
none ends a name. -/
inductive IsName : List Char → Prop
  | quoted {q : Char} {body : List Char} : q = '"' ∨ q = '\'' → q ∉ body →
      IsName (q :: (body ++ [q]))
  | run {c : Char} {rest : List Char} : ¬(c = '"' ∨ c = '\'') → endsName c = false →
      (∀ d ∈ rest, endsName d = false) → IsName (c :: rest)

def AreBlanks (cs : List Char) : Prop := ∀ c ∈ cs, Text.isBlank c = true

/-- Pairs of brackets that make another shape of the first one when they stand behind it. -/
inductive DerivesSuffixes : List Char → TypeSpelling → TypeSpelling → Prop
  | none {t : TypeSpelling} : DerivesSuffixes [] t t
  | pair {blanks cs : List Char} {t u : TypeSpelling} : AreBlanks blanks →
      DerivesSuffixes cs (.array t) u → DerivesSuffixes (blanks ++ '[' :: ']' :: cs) t u

mutual

/-- A type is brackets and a type, or a name with arguments; in both cases, brackets may follow.
Blanks may stand in front of each token. -/
inductive DerivesType : List Char → TypeSpelling → Prop
  | array {blanks cs tail : List Char} {t u : TypeSpelling} : AreBlanks blanks → DerivesType cs t →
      DerivesSuffixes tail (.array t) u → DerivesType (blanks ++ '[' :: ']' :: (cs ++ tail)) u
  | atom {cs tail : List Char} {t u : TypeSpelling} : DerivesAtom cs t → DerivesSuffixes tail t u →
      DerivesType (cs ++ tail) u

/-- A name, and arguments in angle brackets if there are any. -/
inductive DerivesAtom : List Char → TypeSpelling → Prop
  | named {blanks name : List Char} : AreBlanks blanks → IsName name →
      DerivesAtom (blanks ++ name) (.named (String.ofList name))
  | generic {blanks name gap cs : List Char} {ts : List TypeSpelling} : AreBlanks blanks →
      IsName name → AreBlanks gap → DerivesArgs cs ts →
      DerivesAtom (blanks ++ (name ++ (gap ++ '<' :: cs))) (.generic (String.ofList name) ts)

/-- Arguments with commas between them and the closing bracket. -/
inductive DerivesArgs : List Char → List TypeSpelling → Prop
  | last {cs gap : List Char} {t : TypeSpelling} : DerivesType cs t → AreBlanks gap →
      DerivesArgs (cs ++ (gap ++ ['>'])) [t]
  | more {cs gap later : List Char} {t : TypeSpelling} {ts : List TypeSpelling} : DerivesType cs t →
      AreBlanks gap → DerivesArgs later ts → DerivesArgs (cs ++ (gap ++ ',' :: later)) (t :: ts)

end

/-- A text of the grammar. Blanks may also stand at its end. -/
def DerivesText (text : String) (t : TypeSpelling) : Prop :=
  ∃ cs gap, text.toList = cs ++ gap ∧ DerivesType cs t ∧ AreBlanks gap

section Tokens

variable {blanks cs rest inner name : List Char} {c : Char}

theorem AreBlanks.drop (blank : AreBlanks blanks) (dense : Text.isBlank c = false) :
    (blanks ++ c :: rest).dropWhile Text.isBlank = c :: rest := by
  rw [List.dropWhile_append_of_pos blank, List.dropWhile_cons_of_neg (by simp [dense])]

theorem areBlanks_nil : AreBlanks [] := List.forall_mem_nil _

theorem eat?_token (token : List Char) (blank : AreBlanks blanks) (dense : Text.isBlank c = false) :
    eat? (c :: token) (blanks ++ c :: (token ++ rest)) = some rest := by
  rw [eat?, blank.drop dense]
  simp

theorem eat?_other {token : List Char} {d : Char} (blank : AreBlanks blanks)
    (dense : Text.isBlank c = false) (other : d ≠ c) :
    eat? (d :: token) (blanks ++ c :: rest) = none := by
  rw [eat?, blank.drop dense, if_neg]
  simp [other]

/-- A token that is dropped from the front stands there, after blanks. -/
theorem exists_of_eat? {token : List Char} (h : eat? token cs = some rest) :
    ∃ blanks, AreBlanks blanks ∧ cs = blanks ++ (token ++ rest) := by
  rw [eat?] at h
  split at h
  next found =>
    obtain ⟨after, whole⟩ := List.isPrefixOf_iff_prefix.1 found
    rw [← whole, List.drop_left] at h
    obtain rfl := Option.some.inj h
    refine ⟨cs.takeWhile Text.isBlank, fun c mem => List.mem_takeWhile_imp mem, ?_⟩
    rw [whole, List.takeWhile_append_dropWhile]
  · cases h

theorem endsName_of_isBlank (h : endsName c = false) : Text.isBlank c = false := by
  simp only [endsName, Bool.or_eq_false_iff] at h
  exact h.2

theorem isBlank_quote (h : c = '"' ∨ c = '\'') : Text.isBlank c = false := by
  rcases h with rfl | rfl <;> decide

theorem readName?_name (h : IsName name) (stops : rest.head?.any (!endsName ·) = false)
    (blank : AreBlanks blanks) : readName? (blanks ++ (name ++ rest)) = some (name, rest) := by
  cases h with
  | @quoted q body quote clean =>
    have inside : ∀ c ∈ body, decide (c ≠ q) = true := fun c mem => by
      rw [decide_eq_true_iff]
      rintro rfl
      exact clean mem
    have stop : (q :: rest).head?.any (fun c => decide (c ≠ q)) = false := by simp
    have ends := takeWhile_dropWhile_append inside stop
    rw [readName?, List.cons_append, List.append_assoc, List.singleton_append,
      blank.drop (isBlank_quote quote)]
    simp only [quote, if_true, ends]
    rfl
  | @run c run plain dense inside =>
    have all : ∀ d ∈ run, (!endsName d) = true := fun d mem => by simp [inside d mem]
    have ends := takeWhile_dropWhile_append all stops
    rw [readName?, List.cons_append, blank.drop (endsName_of_isBlank dense)]
    simp only [plain, if_false, dense, ends]
    rfl

/-- What is cut off as a name is one, and stands in front of what is left. -/
theorem exists_of_readName? (h : readName? cs = some (name, rest)) :
    IsName name ∧ ∃ blanks, AreBlanks blanks ∧ cs = blanks ++ (name ++ rest) := by
  have around {tail : List Char} (dropped : cs.dropWhile Text.isBlank = tail) :
      ∃ blanks, AreBlanks blanks ∧ cs = blanks ++ tail :=
    ⟨cs.takeWhile Text.isBlank, fun c mem => List.mem_takeWhile_imp mem,
      by rw [← dropped, List.takeWhile_append_dropWhile]⟩
  rw [readName?] at h
  split at h
  · cases h
  next c tail dropped =>
    split at h
    next quote =>
      split at h
      · cases h
      next q after found =>
        cases h
        have last : q = c := by
          have stop := List.head?_dropWhile_not (· ≠ c) tail
          rw [found] at stop
          simpa using stop
        refine ⟨.quoted quote fun mem => by simpa using List.mem_takeWhile_imp mem, ?_⟩
        have whole := List.takeWhile_append_dropWhile (p := (· ≠ c)) (l := tail)
        rw [found, last] at whole
        exact around (by simpa using dropped.trans (congrArg (c :: ·) whole.symm))
    next plain =>
      split at h
      · cases h
      next inside =>
        cases h
        refine ⟨.run plain (Bool.eq_false_iff.2 inside) fun d mem => ?_, around ?_⟩
        · simpa using List.mem_takeWhile_imp mem
        · rw [List.cons_append, List.takeWhile_append_dropWhile, dropped]

/-- A name starts with a character that is no blank and no bracket. -/
theorem IsName.exists_cons (h : IsName name) :
    ∃ c tail, name = c :: tail ∧ Text.isBlank c = false ∧ '[' ≠ c := by
  cases h with
  | quoted quote _ =>
    refine ⟨_, _, rfl, isBlank_quote quote, ?_⟩
    rcases quote with rfl | rfl <;> decide
  | run _ dense _ =>
    refine ⟨_, _, rfl, endsName_of_isBlank dense, ?_⟩
    rintro rfl
    revert dense
    decide

/-- The last character is no blank. -/
def LastDense (cs : List Char) : Prop := ∃ front c, cs = front ++ [c] ∧ Text.isBlank c = false

theorem lastDense_singleton (dense : Text.isBlank c = false) : LastDense [c] := ⟨[], c, rfl, dense⟩

theorem LastDense.append (h : LastDense cs) (before : List Char) : LastDense (before ++ cs) := by
  obtain ⟨front, c, rfl, dense⟩ := h
  exact ⟨before ++ front, c, (List.append_assoc _ _ _).symm, dense⟩

theorem LastDense.cons (h : LastDense cs) (c : Char) : LastDense (c :: cs) := h.append [c]

theorem IsName.lastDense (h : IsName name) : LastDense name := by
  cases h with
  | quoted quote _ => exact ((lastDense_singleton (isBlank_quote quote)).append _).cons _
  | @run c rest _ dense inside =>
    have all : ∀ d ∈ c :: rest, endsName d = false := List.forall_mem_cons.2 ⟨dense, inside⟩
    refine ⟨_, _, (List.dropLast_append_getLast (List.cons_ne_nil c rest)).symm, ?_⟩
    exact endsName_of_isBlank (all _ (List.getLast_mem _))

/-- A name is no array, whatever comes after it. -/
theorem IsName.not_array (h : IsName name) (blank : AreBlanks blanks) :
    eat? ['[', ']'] (blanks ++ (name ++ rest)) = none := by
  obtain ⟨c, tail, rfl, dense, other⟩ := h.exists_cons
  rw [List.cons_append]
  exact eat?_other blank dense other

end Tokens

/-- What may stand after a name or a type: nothing but blanks, or what ends an argument, or brackets. -/
def Ends (rest : List Char) : Prop :=
  ∀ c ∈ (rest.dropWhile Text.isBlank).head?, c = ',' ∨ c = '>' ∨ c = '['

section Ends

variable {rest gap cs : List Char} {c : Char}

theorem AreBlanks.ends (blank : AreBlanks gap) (mark : c = ',' ∨ c = '>' ∨ c = '[') :
    Ends (gap ++ c :: rest) := by
  have dense : Text.isBlank c = false := by rcases mark with rfl | rfl | rfl <;> decide
  rintro d mem
  rw [blank.drop dense] at mem
  obtain rfl := Option.some.inj mem
  exact mark

theorem AreBlanks.ends_all (blank : AreBlanks gap) : Ends gap := by
  rw [Ends, List.dropWhile_eq_nil_iff.2 blank]
  simp

theorem AreBlanks.stops (blank : AreBlanks gap) (stop : endsName c = true) :
    (gap ++ c :: rest).head?.any (!endsName ·) = false := by
  cases gap with
  | nil => simp [stop]
  | cons b gap => simp [endsName, blank b List.mem_cons_self]

/-- What ends a type ends a name. -/
theorem Ends.stops (h : Ends rest) : rest.head?.any (!endsName ·) = false := by
  cases rest with
  | nil => rfl
  | cons c rest =>
    by_cases blank : Text.isBlank c = true
    · simp [endsName, blank]
    · rw [Ends, List.dropWhile_cons_of_neg blank] at h
      rcases h c rfl with rfl | rfl | rfl <;> rfl

theorem Ends.not_eaten (h : Ends rest) (token : List Char) {d : Char} (comma : d ≠ ',')
    (angle : d ≠ '>') (bracket : d ≠ '[') : eat? (d :: token) rest = none := by
  rw [eat?, if_neg]
  rw [Ends] at h
  cases dropped : rest.dropWhile Text.isBlank with
  | nil => simp
  | cons c tail =>
    rw [dropped] at h
    have other : d ≠ c := by rcases h c rfl with rfl | rfl | rfl <;> assumption
    simp [other]

theorem DerivesSuffixes.ends {t u : TypeSpelling} (h : DerivesSuffixes cs t u) (ends : Ends rest) :
    Ends (cs ++ rest) := by
  cases h with
  | none => exact ends
  | pair blank _ =>
    rw [List.append_assoc]
    exact blank.ends (by simp)

end Ends

section Reads

variable {cs rest left inner name : List Char} {t u : TypeSpelling} {ts : List TypeSpelling}

/-- A shape with the brackets that are read behind it, and what is left of the text. -/
def suffixed (t : TypeSpelling) (cs : List Char) : TypeSpelling × List Char :=
  ((suffixes t cs).1, (suffixes t cs).2.1)

theorem suffixed_pair (eaten : eat? ['[', ']'] cs = some inner) :
    suffixed t cs = suffixed (.array t) inner := by
  rw [suffixed, suffixes]
  split
  next none =>
    rw [eaten] at none
    cases none
  next found =>
    obtain rfl := Option.some.inj (eaten.symm.trans found)
    rfl

theorem suffixed_other (other : eat? ['[', ']'] cs = none) : suffixed t cs = (t, cs) := by
  rw [suffixed, suffixes]
  split
  · rfl
  next eaten =>
    rw [other] at eaten
    cases eaten

/-- The brackets behind a type may as well be read after the type is put into an array. -/
theorem suffixed_array (t : TypeSpelling) (cs : List Char) :
    suffixed (.array (suffixed t cs).1) (suffixed t cs).2 = suffixed (.array t) cs := by
  cases eaten : eat? ['[', ']'] cs with
  | none => rw [suffixed_other (t := t) eaten]
  | some inner =>
    have shorter := eat?_length eaten (by simp)
    rw [suffixed_pair (t := t) eaten, suffixed_pair (t := .array t) eaten]
    exact suffixed_array (.array t) inner
termination_by cs.length

theorem DerivesSuffixes.suffixed_append (h : DerivesSuffixes cs t u) (rest : List Char) :
    suffixed t (cs ++ rest) = suffixed u rest := by
  induction h with
  | none => rfl
  | pair blank _ ih =>
    rw [List.append_assoc, ← ih]
    exact suffixed_pair (eat?_token [']'] blank (by decide))

/-- A reader gives a result and leaves a rest, whatever the bound on the rest. -/
def Reads {α : Type} {cs : List Char} (x : Option (α × { rest : List Char // rest.length < cs.length }))
    (a : α) (rest : List Char) : Prop := ∃ lt, x = some (a, ⟨rest, lt⟩)

theorem reads_array (prefixed : eat? ['[', ']'] cs = some inner)
    (element : Reads (readType? inner) t left) :
    Reads (readType? cs) (suffixed (.array t) left).1 (suffixed (.array t) left).2 := by
  obtain ⟨lt, read⟩ := element
  rw [Reads, readType?]
  split
  next eaten =>
    obtain rfl := Option.some.inj (prefixed.symm.trans eaten)
    have shorter := eat?_length eaten (by simp)
    rw [read]
    exact ⟨Nat.lt_of_le_of_lt (suffixes _ left).2.2 (Nat.lt_trans lt shorter), rfl⟩
  next none =>
    rw [prefixed] at none
    cases none

theorem reads_atom (other : eat? ['[', ']'] cs = none) (atom : Reads (readAtom? cs) t left) :
    Reads (readType? cs) (suffixed t left).1 (suffixed t left).2 := by
  obtain ⟨lt, read⟩ := atom
  rw [Reads, readType?]
  split
  next eaten =>
    rw [other] at eaten
    cases eaten
  · rw [read]
    exact ⟨Nat.lt_of_le_of_lt (suffixes _ left).2.2 lt, rfl⟩

theorem reads_named (named : readName? cs = some (name, rest)) (other : eat? ['<'] rest = none) :
    Reads (readAtom? cs) (.named (String.ofList name)) rest := by
  rw [Reads, readAtom?]
  split
  next missing =>
    rw [named] at missing
    cases missing
  next read =>
    obtain ⟨rfl, rfl⟩ := Prod.mk.inj (Option.some.inj (named.symm.trans read))
    split
    · exact ⟨readName?_length read, rfl⟩
    next eaten =>
      rw [other] at eaten
      cases eaten

theorem reads_generic (named : readName? cs = some (name, left)) (opened : eat? ['<'] left = some inner)
    (args : Reads (readArgs? inner) ts rest) :
    Reads (readAtom? cs) (.generic (String.ofList name) ts) rest := by
  obtain ⟨lt, read⟩ := args
  rw [Reads, readAtom?]
  split
  next missing =>
    rw [named] at missing
    cases missing
  next found =>
    obtain ⟨rfl, rfl⟩ := Prod.mk.inj (Option.some.inj (named.symm.trans found))
    split
    next none =>
      rw [opened] at none
      cases none
    next eaten =>
      obtain rfl := Option.some.inj (opened.symm.trans eaten)
      rw [read]
      have outer := readName?_length found
      have inside := eat?_length eaten (by simp)
      exact ⟨by omega, rfl⟩

theorem reads_lastArg (first : Reads (readType? cs) t left) (closed : eat? ['>'] left = some rest)
    (last : eat? [','] left = none) : Reads (readArgs? cs) [t] rest := by
  obtain ⟨lt, read⟩ := first
  rw [Reads, readArgs?, read]
  dsimp only
  split
  next eaten =>
    rw [last] at eaten
    cases eaten
  · split
    next none =>
      rw [closed] at none
      cases none
    next eaten =>
      obtain rfl := Option.some.inj (closed.symm.trans eaten)
      have := eat?_length eaten (by simp)
      exact ⟨by omega, rfl⟩

theorem reads_nextArg (first : Reads (readType? cs) t left) (more : eat? [','] left = some inner)
    (others : Reads (readArgs? inner) ts rest) : Reads (readArgs? cs) (t :: ts) rest := by
  obtain ⟨lt, read⟩ := first
  obtain ⟨later, found⟩ := others
  rw [Reads, readArgs?, read]
  dsimp only
  split
  next eaten =>
    obtain rfl := Option.some.inj (more.symm.trans eaten)
    rw [found]
    have := eat?_length eaten (by simp)
    exact ⟨by omega, rfl⟩
  next none =>
    rw [more] at none
    cases none

theorem DerivesAtom.not_array (h : DerivesAtom cs t) (rest : List Char) :
    eat? ['[', ']'] (cs ++ rest) = none := by
  cases h with
  | named blank name =>
    rw [List.append_assoc]
    exact name.not_array blank
  | generic blank name _ _ =>
    rw [List.append_assoc, List.append_assoc]
    exact name.not_array blank

mutual

/-- What the grammar derives is read, together with all brackets that follow. -/
theorem DerivesType.reads {cs : List Char} {t : TypeSpelling} (h : DerivesType cs t)
    {rest : List Char} (ends : Ends rest) :
    Reads (readType? (cs ++ rest)) (suffixed t rest).1 (suffixed t rest).2 := by
  match h with
  | @DerivesType.array _ cs tail element _ blank inner behind =>
    have first := inner.reads (behind.ends ends)
    have whole := reads_array (eat?_token [']'] blank (by decide)) first
    rw [suffixed_array, behind.suffixed_append, ← List.append_assoc cs] at whole
    rw [List.append_assoc]
    exact whole
  | @DerivesType.atom cs tail core _ atom behind =>
    have first := atom.reads (behind.ends ends)
    have whole := reads_atom (atom.not_array _) first
    rw [behind.suffixed_append] at whole
    rwa [List.append_assoc]

theorem DerivesAtom.reads {cs : List Char} {t : TypeSpelling} (h : DerivesAtom cs t)
    {rest : List Char} (ends : Ends rest) : Reads (readAtom? (cs ++ rest)) t rest := by
  match h with
  | .named blank name =>
    rw [List.append_assoc]
    exact reads_named (readName?_name name ends.stops blank)
      (ends.not_eaten [] (by decide) (by decide) (by decide))
  | @DerivesAtom.generic _ _ gap cs _ blank name isGap args =>
    have opened : (gap ++ '<' :: (cs ++ rest)).head?.any (!endsName ·) = false := isGap.stops rfl
    have read := readName?_name name opened blank
    rw [List.append_assoc, List.append_assoc, List.append_assoc]
    exact reads_generic read (eat?_token [] isGap (by decide)) (args.reads rest)

theorem DerivesArgs.reads {cs : List Char} {ts : List TypeSpelling} (h : DerivesArgs cs ts)
    (rest : List Char) : Reads (readArgs? (cs ++ rest)) ts rest := by
  match h with
  | @DerivesArgs.last _ gap _ inner isGap =>
    have ends : Ends (gap ++ '>' :: rest) := isGap.ends (by simp)
    have first := inner.reads ends
    rw [suffixed_other (eat?_other isGap (by decide) (by decide))] at first
    rw [List.append_assoc, List.append_assoc]
    exact reads_lastArg first (eat?_token [] isGap (by decide))
      (eat?_other isGap (by decide) (by decide))
  | @DerivesArgs.more _ gap later _ _ inner isGap others =>
    have ends : Ends (gap ++ ',' :: (later ++ rest)) := isGap.ends (by simp)
    have first := inner.reads ends
    rw [suffixed_other (eat?_other isGap (by decide) (by decide))] at first
    rw [List.append_assoc, List.append_assoc]
    exact reads_nextArg first (eat?_token [] isGap (by decide)) (others.reads rest)

end

end Reads

section Sound

variable {cs : List Char} {t u : TypeSpelling}

theorem exists_of_suffixes (t : TypeSpelling) (cs : List Char) :
    ∃ used, cs = used ++ (suffixed t cs).2 ∧ DerivesSuffixes used t (suffixed t cs).1 := by
  cases eaten : eat? ['[', ']'] cs with
  | none =>
    rw [suffixed_other eaten]
    exact ⟨[], rfl, .none⟩
  | some inner =>
    have shorter := eat?_length eaten (by simp)
    obtain ⟨blanks, blank, rfl⟩ := exists_of_eat? eaten
    obtain ⟨used, whole, derived⟩ := exists_of_suffixes (.array t) inner
    rw [suffixed_pair eaten]
    refine ⟨blanks ++ '[' :: ']' :: used, ?_, .pair blank derived⟩
    conv_lhs => rw [whole]
    simp
termination_by cs.length

mutual

/-- What is read as a type is derived by the grammar. -/
theorem exists_of_readType? {cs : List Char} {t : TypeSpelling}
    {rest : { rest : List Char // rest.length < cs.length }} (h : readType? cs = some (t, rest)) :
    ∃ used, cs = used ++ rest.1 ∧ DerivesType used t := by
  rw [readType?] at h
  split at h
  next inner eaten =>
    have shorter := eat?_length eaten (by simp)
    split at h
    · cases h
    next first left lt read =>
      obtain ⟨used, whole, derived⟩ := exists_of_readType? read
      obtain ⟨tail, behind, more⟩ := exists_of_suffixes (.array first) left
      obtain ⟨blanks, blank, around⟩ := exists_of_eat? eaten
      have inside : inner = used ++ (tail ++ (suffixed (.array first) left).2) :=
        whole.trans (congrArg (used ++ ·) behind)
      cases h
      exact ⟨_, around.trans (by simp [inside, suffixed]), .array blank derived more⟩
  · split at h
    · cases h
    next first left lt read =>
      obtain ⟨used, whole, derived⟩ := exists_of_readAtom? read
      obtain ⟨tail, behind, more⟩ := exists_of_suffixes first left
      have inside : cs = used ++ (tail ++ (suffixed first left).2) :=
        whole.trans (congrArg (used ++ ·) behind)
      cases h
      exact ⟨_, inside.trans (List.append_assoc _ _ _).symm, .atom derived more⟩
termination_by 2 * cs.length + 1

theorem exists_of_readAtom? {cs : List Char} {t : TypeSpelling}
    {rest : { rest : List Char // rest.length < cs.length }} (h : readAtom? cs = some (t, rest)) :
    ∃ used, cs = used ++ rest.1 ∧ DerivesAtom used t := by
  rw [readAtom?] at h
  split at h
  · cases h
  next name left read =>
    have shorter := readName?_length read
    obtain ⟨isName, blanks, blank, around⟩ := exists_of_readName? read
    split at h
    · cases h
      exact ⟨_, around.trans (List.append_assoc _ _ _).symm, .named blank isName⟩
    next inner eaten =>
      have inside := eat?_length eaten (by simp)
      obtain ⟨gap, isGap, between⟩ := exists_of_eat? eaten
      split at h
      · cases h
      next args last lt found =>
        obtain ⟨used, whole, derived⟩ := exists_of_readArgs? found
        cases h
        exact ⟨_, around.trans (by simp [between, whole]), .generic blank isName isGap derived⟩
termination_by 2 * cs.length

theorem exists_of_readArgs? {cs : List Char} {args : List TypeSpelling}
    {rest : { rest : List Char // rest.length < cs.length }}
    (h : readArgs? cs = some (args, rest)) : ∃ used, cs = used ++ rest.1 ∧ DerivesArgs used args := by
  rw [readArgs?] at h
  split at h
  · cases h
  next first left lt read =>
    obtain ⟨used, whole, derived⟩ := exists_of_readType? read
    split at h
    next inner eaten =>
      have inside := eat?_length eaten (by simp)
      obtain ⟨gap, isGap, between⟩ := exists_of_eat? eaten
      split at h
      · cases h
      next others last lt found =>
        obtain ⟨later, after, more⟩ := exists_of_readArgs? found
        cases h
        exact ⟨_, whole.trans (by simp [between, after]), .more derived isGap more⟩
    · split at h
      · cases h
      next closed =>
        obtain ⟨gap, isGap, between⟩ := exists_of_eat? closed
        cases h
        exact ⟨_, whole.trans (by simp [between]), .last derived isGap⟩
termination_by 2 * cs.length + 2

end

end Sound

section Texts

variable {cs blanks gap : List Char} {t u : TypeSpelling} {ts : List TypeSpelling} {text : String}

/-- A type starts with a character that is no blank, and is also one without the blanks before. -/
theorem DerivesType.exists_start (h : DerivesType cs t) : ∃ blanks c core, AreBlanks blanks ∧
    cs = blanks ++ c :: core ∧ Text.isBlank c = false ∧ DerivesType (c :: core) t := by
  cases h with
  | array blank inner behind =>
    exact ⟨_, _, _, blank, rfl, by decide, .array areBlanks_nil inner behind⟩
  | atom atom behind =>
    cases atom with
    | named blank name =>
      obtain ⟨c, core, rfl, dense, -⟩ := name.exists_cons
      exact ⟨_, c, _, blank, by simp, dense, .atom (.named areBlanks_nil name) behind⟩
    | generic blank name isGap args =>
      obtain ⟨c, core, rfl, dense, -⟩ := name.exists_cons
      exact ⟨_, c, _, blank, by simp, dense, .atom (.generic areBlanks_nil name isGap args) behind⟩

theorem DerivesSuffixes.eq_nil_or (h : DerivesSuffixes cs t u) : cs = [] ∨ LastDense cs := by
  induction h with
  | none => exact .inl rfl
  | pair _ _ ih =>
    rcases ih with rfl | dense
    · exact .inr (((lastDense_singleton (by decide)).cons _).append _)
    · exact .inr (((dense.cons _).cons _).append _)

theorem DerivesArgs.lastDense {cs : List Char} {ts : List TypeSpelling} (h : DerivesArgs cs ts) :
    LastDense cs := by
  match h with
  | .last _ _ => exact ((lastDense_singleton (by decide)).append _).append _
  | .more _ _ later => exact ((later.lastDense.cons _).append _).append _

theorem DerivesAtom.lastDense (h : DerivesAtom cs t) : LastDense cs := by
  cases h with
  | named _ name => exact name.lastDense.append _
  | generic _ _ _ args => exact (((args.lastDense.cons _).append _).append _).append _

theorem DerivesType.lastDense {cs : List Char} {t : TypeSpelling} (h : DerivesType cs t) :
    LastDense cs := by
  match h with
  | .array _ inner behind =>
    rcases behind.eq_nil_or with rfl | dense
    · rw [List.append_nil]
      exact ((inner.lastDense.cons _).cons _).append _
    · exact (((dense.append _).cons _).cons _).append _
  | .atom core behind =>
    rcases behind.eq_nil_or with rfl | dense
    · rw [List.append_nil]
      exact core.lastDense
    · exact dense.append _

/-- What is left without the blanks around it. -/
theorem trimBlanks_around {c : Char} {core : List Char} (before : AreBlanks blanks)
    (first : Text.isBlank c = false) (last : LastDense (c :: core)) (after : AreBlanks gap) :
    Text.trimBlanks (blanks ++ (c :: core ++ gap)) = c :: core := by
  obtain ⟨front, d, ends, dense⟩ := last
  have behind : ∀ b ∈ gap.reverse, Text.isBlank b = true := fun b mem => after b (List.mem_reverse.1 mem)
  rw [Text.trimBlanks, List.cons_append, before.drop first, ← List.cons_append, List.reverse_append,
    List.dropWhile_append_of_pos behind, ends, List.reverse_append, List.reverse_singleton,
    List.singleton_append, List.dropWhile_cons_of_neg (by simp [dense]), List.reverse_cons,
    List.reverse_reverse]

/-- A text of the grammar is read without the blanks around it. -/
theorem DerivesText.reads (h : DerivesText text t) :
    Reads (readType? (Text.trimBlanks text.toList)) t [] := by
  obtain ⟨_, gap, whole, derived, isGap⟩ := h
  obtain ⟨blanks, c, core, blank, rfl, dense, inner⟩ := derived.exists_start
  rw [whole, List.append_assoc, trimBlanks_around blank dense inner.lastDense isGap]
  have read := inner.reads areBlanks_nil.ends_all
  rwa [List.append_nil, suffixed_other (by simp [eat?])] at read

/-- The shape of a text of the grammar is that with which it is derived. -/
theorem DerivesText.parse_eq (h : DerivesText text t) : parse text = t := by
  obtain ⟨lt, read⟩ := h.reads
  rw [parse, read]
  rfl

theorem exists_around_trimBlanks (cs : List Char) :
    ∃ blanks gap, AreBlanks blanks ∧ AreBlanks gap ∧ cs = blanks ++ (Text.trimBlanks cs ++ gap) := by
  refine ⟨cs.takeWhile Text.isBlank, ((cs.dropWhile Text.isBlank).reverse.takeWhile Text.isBlank).reverse,
    fun c mem => List.mem_takeWhile_imp mem,
    fun c mem => List.mem_takeWhile_imp (List.mem_reverse.1 mem), ?_⟩
  rw [Text.trimBlanks, ← List.reverse_append, List.takeWhile_append_dropWhile, List.reverse_reverse,
    List.takeWhile_append_dropWhile]

theorem DerivesType.blanks_append (h : DerivesType cs t) (blank : AreBlanks blanks) :
    DerivesType (blanks ++ cs) t := by
  have both {more : List Char} (others : AreBlanks more) : AreBlanks (blanks ++ more) :=
    List.forall_mem_append.2 ⟨blank, others⟩
  cases h with
  | array others inner behind =>
    rw [← List.append_assoc]
    exact .array (both others) inner behind
  | atom core behind =>
    rw [← List.append_assoc]
    refine .atom ?_ behind
    cases core with
    | named others name =>
      rw [← List.append_assoc]
      exact .named (both others) name
    | generic others name isGap args =>
      rw [← List.append_assoc]
      exact .generic (both others) name isGap args

/-- A text that is read as a whole is one of the grammar. -/
theorem derivesText_of_reads {rest : List Char} (blank : AreBlanks rest)
    (h : Reads (readType? (Text.trimBlanks text.toList)) t rest) : DerivesText text t := by
  obtain ⟨lt, read⟩ := h
  obtain ⟨used, trimmed, derived⟩ := exists_of_readType? read
  obtain ⟨blanks, gap, before, after, whole⟩ := exists_around_trimBlanks text.toList
  refine ⟨blanks ++ used, rest ++ gap, ?_, derived.blanks_append before,
    List.forall_mem_append.2 ⟨blank, after⟩⟩
  rw [whole, trimmed]
  simp

/-- A text is derived by the grammar, or it is a name as a whole. -/
theorem derivesText_parse_or (text : String) : DerivesText text (parse text) ∨
    parse text = named (String.ofList (Text.trimBlanks text.toList)) := by
  rw [parse]
  split
  next t rest lt read =>
    split
    next blank =>
      have blank : AreBlanks rest := List.dropWhile_eq_nil_iff.1 (List.isEmpty_iff.1 blank)
      exact .inl (derivesText_of_reads blank ⟨lt, read⟩)
    · exact .inr rfl
  · exact .inr rfl

end Texts

end ScriptToGo.TypeSpelling
