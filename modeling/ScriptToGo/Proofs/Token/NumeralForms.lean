import ScriptToGo.Proofs.Token.Symbols

/-! The grammar of numeric literals, with two readings: one for well-formed literals, and one for
what is scanned, which leaves the digits of a radix and the places of separators open. What is left
open is all that lies between them. -/
namespace ScriptToGo.NumberScan
open Text (isDigit)

/-- The letters that mark a radix. -/
def radixMarks : List Char := ['x', 'X', 'b', 'B', 'o', 'O']

/-- Whether a character is a digit of the radix with this mark. -/
def isRadixDigit (mark c : Char) : Bool :=
  if mark = 'b' ∨ mark = 'B' then c == '0' || c == '1'
  else if mark = 'o' ∨ mark = 'O' then '0' ≤ c && c ≤ '7'
  else Escape.isHexDigit c

/-- Digits, of which a single separator may keep two apart. -/
inductive Digits (p : Char → Bool) : List Char → Prop
  | one {d : Char} : p d = true → Digits p [d]
  | next {d : Char} {ds : List Char} : p d = true → Digits p ds → Digits p (d :: ds)
  | apart {d : Char} {ds : List Char} : p d = true → Digits p ds → Digits p (d :: '_' :: ds)

/-- Whole digits, a fraction, or both. -/
inductive Mantissa (Run : List Char → Prop) : List Char → Prop
  | whole {ds : List Char} : Run ds → Mantissa Run ds
  | fraction {ds fs : List Char} : Run ds → Run fs → Mantissa Run (ds ++ '.' :: fs)
  | point {fs : List Char} : Run fs → Mantissa Run ('.' :: fs)

inductive Exponent (Run : List Char → Prop) : List Char → Prop
  | none : Exponent Run []
  | plain {mark : Char} {ds : List Char} : mark = 'e' ∨ mark = 'E' → Run ds →
      Exponent Run (mark :: ds)
  | signed {mark sign : Char} {ds : List Char} : mark = 'e' ∨ mark = 'E' →
      sign = '+' ∨ sign = '-' → Run ds → Exponent Run (mark :: sign :: ds)

/-- The forms of numeric literals, given what goes for the digits of a radix and what for decimal
digits. -/
inductive Form (RadixRun : Char → List Char → Prop) (Run : List Char → Prop) : List Char → Prop
  | radix {mark : Char} {ds : List Char} : mark ∈ radixMarks → RadixRun mark ds →
      Form RadixRun Run ('0' :: mark :: ds)
  | decimal {ms es : List Char} : Mantissa Run ms → Exponent Run es → Form RadixRun Run (ms ++ es)

/-- A well-formed numeric literal. -/
def IsWellFormed : List Char → Prop :=
  Form (fun mark => Digits (isRadixDigit mark)) (Digits isDigit)

/-- Digits and separators in any order. -/
def IsRun (p : Char → Bool) (cs : List Char) : Prop := ∀ c ∈ cs, p c = true ∨ c = '_'

/-- Decimal digits as they are scanned: only the first character must be a digit. -/
def IsDigitRun (cs : List Char) : Prop := cs.head?.any isDigit = true ∧ IsRun isDigit cs

/-- A numeric literal as it is scanned: every radix has hexadecimal digits, or none at all. -/
def IsScanned : List Char → Prop := Form (fun _ => IsRun Escape.isHexDigit) IsDigitRun

/-- Each separator stands between two digits. -/
def SeparatesDigits (p : Char → Bool) (cs : List Char) : Prop :=
  ∀ before after, cs = before ++ '_' :: after →
    before.getLast?.any p = true ∧ after.head?.any p = true

/-- The digits of a literal, told by the mark at its front. -/
def digitOf : List Char → Char → Bool
  | '0' :: mark :: _ => if mark ∈ radixMarks then isRadixDigit mark else isDigit
  | _ => isDigit

/-- What is not checked when a literal is scanned: each separator stands between two of its digits,
and behind the mark of a radix there are digits, all of them of that radix. -/
structure IsTidy (cs : List Char) : Prop where
  separators : SeparatesDigits (digitOf cs) cs
  radix : ∀ mark ds, cs = '0' :: mark :: ds → mark ∈ radixMarks →
    ds ≠ [] ∧ IsRun (isRadixDigit mark) ds

section Characters

variable {mark c : Char}

theorem radixMark_apart (mem : mark ∈ radixMarks) :
    isRadixDigit mark mark = false ∧ mark ≠ '_' ∧ isRadixDigit mark '_' = false := by
  simp only [radixMarks, List.mem_cons, List.not_mem_nil, or_false] at mem
  rcases mem with rfl | rfl | rfl | rfl | rfl | rfl <;> decide

theorem isHexDigit_of_isRadixDigit (h : isRadixDigit mark c = true) :
    Escape.isHexDigit c = true := by
  rw [isRadixDigit] at h
  split at h
  · simp only [Bool.or_eq_true, beq_iff_eq] at h
    rcases h with rfl | rfl <;> decide
  split at h
  · simp only [Bool.and_eq_true, decide_eq_true_eq] at h
    have most : c ≤ '9' := Char.le_trans h.2 (by decide)
    refine isHexDigit_of_isDigit ?_
    rw [isDigit, Bool.and_eq_true, decide_eq_true_eq, decide_eq_true_eq]
    exact ⟨h.1, most⟩
  · exact h

theorem isDigit_line : isDigit '_' = false := by decide

/-- No character of a decimal literal marks a radix. -/
theorem not_radixMark (h : isDigit c = true ∨ c ∈ ['_', '.', 'e', 'E', '+', '-']) :
    c ∉ radixMarks := by
  intro mem
  simp only [radixMarks, List.mem_cons, List.not_mem_nil, or_false] at mem
  rcases mem with rfl | rfl | rfl | rfl | rfl | rfl <;> exact absurd h (by decide)

end Characters

section Separators

variable {p : Char → Bool} {cs ds before after : List Char} {c : Char}

theorem head?_append_any (h : cs.head?.any p = true) (more : List Char) :
    (cs ++ more).head?.any p = true := by
  cases cs with
  | nil => cases h
  | cons c rest => exact h

theorem getLast?_append_of_ne_nil (h : cs ≠ []) (more : List Char) :
    (more ++ cs).getLast? = cs.getLast? := by
  rw [List.getLast?_append, Option.or_of_isSome (by simpa using h)]

theorem getLast?_append_any (h : cs.getLast?.any p = true) (more : List Char) :
    (more ++ cs).getLast?.any p = true := by
  cases cs with
  | nil => cases h
  | cons c rest => rwa [getLast?_append_of_ne_nil (List.cons_ne_nil _ _)]

theorem separatesDigits_of_not_mem (h : '_' ∉ cs) : SeparatesDigits p cs := by
  rintro before after rfl
  exact absurd (List.mem_append_right _ List.mem_cons_self) h

/-- A character that is neither a digit nor a separator cuts a text in two that do not depend on
each other. -/
theorem separatesDigits_append (noDigit : p c = false) (other : c ≠ '_') :
    SeparatesDigits p (cs ++ c :: ds) ↔ SeparatesDigits p cs ∧ SeparatesDigits p ds := by
  constructor
  · intro whole
    constructor
    · rintro before after rfl
      obtain ⟨digit, next⟩ := whole before (after ++ c :: ds) (by simp)
      refine ⟨digit, ?_⟩
      cases after with
      | nil => exact absurd (noDigit.symm.trans next) (by decide)
      | cons d rest => exact next
    · rintro before after rfl
      obtain ⟨last, digit⟩ := whole (cs ++ [c] ++ before) after (by simp)
      refine ⟨?_, digit⟩
      cases before with
      | nil => simp [noDigit] at last
      | cons d rest => rwa [getLast?_append_of_ne_nil (List.cons_ne_nil _ _)] at last
  · rintro ⟨first, second⟩ before after whole
    obtain ⟨more, rfl, rest⟩ | ⟨more, rfl, rest⟩ := List.append_eq_append_iff.1 whole
    · cases more with
      | nil => exact absurd (List.cons.inj rest).1 other
      | cons d more =>
        obtain ⟨rfl, rfl⟩ := List.cons.inj rest
        obtain ⟨last, digit⟩ := second more after rfl
        exact ⟨getLast?_append_any (getLast?_append_any last [c]) cs, digit⟩
    · cases more with
      | nil => exact absurd (List.cons.inj rest).1.symm other
      | cons d more =>
        obtain ⟨rfl, rfl⟩ := List.cons.inj rest
        obtain ⟨last, digit⟩ := first before more rfl
        exact ⟨last, head?_append_any digit _⟩

/-- What comes after some characters is separated, too, unless it starts with a separator. -/
theorem SeparatesDigits.of_append (front : List Char) (h : SeparatesDigits p (front ++ ds))
    (first : ds.head? ≠ some '_') : SeparatesDigits p ds := by
  rintro before after rfl
  obtain ⟨last, digit⟩ := h (front ++ before) after (by simp)
  cases before with
  | nil => exact absurd rfl first
  | cons d before =>
    rw [getLast?_append_of_ne_nil (List.cons_ne_nil _ _)] at last
    exact ⟨last, digit⟩

end Separators

section Runs

variable {p : Char → Bool} {ds : List Char}

theorem Digits.isRun (h : Digits p ds) : IsRun p ds := by
  induction h with
  | one digit => exact List.forall_mem_singleton.2 (.inl digit)
  | next digit _ ih => exact List.forall_mem_cons.2 ⟨.inl digit, ih⟩
  | apart digit _ ih =>
    exact List.forall_mem_cons.2 ⟨.inl digit, List.forall_mem_cons.2 ⟨.inr rfl, ih⟩⟩

theorem Digits.head (h : Digits p ds) : ds.head?.any p = true := by
  cases h <;> assumption

theorem Digits.separatesDigits (h : Digits p ds) (noLine : p '_' = false) :
    SeparatesDigits p ds := by
  have isDigit {d : Char} (digit : p d = true) : d ≠ '_' := by
    rintro rfl
    exact absurd (noLine.symm.trans digit) (by decide)
  induction h with
  | one digit => exact separatesDigits_of_not_mem (by simpa using (isDigit digit).symm)
  | @next d ds digit _ ih =>
    intro before after whole
    cases before with
    | nil => exact absurd (List.cons.inj whole).1 (isDigit digit)
    | cons b before =>
      obtain ⟨rfl, rfl⟩ := List.cons.inj whole
      obtain ⟨last, next⟩ := ih before after rfl
      exact ⟨getLast?_append_any last [d], next⟩
  | @apart d ds digit later ih =>
    intro before after whole
    match before with
    | [] => exact absurd (List.cons.inj whole).1 (isDigit digit)
    | [b] =>
      obtain ⟨rfl, rest⟩ := List.cons.inj whole
      obtain ⟨-, rfl⟩ := List.cons.inj rest
      exact ⟨digit, later.head⟩
    | b :: line :: before =>
      obtain ⟨rfl, rest⟩ := List.cons.inj whole
      obtain ⟨rfl, rfl⟩ := List.cons.inj rest
      obtain ⟨last, next⟩ := ih before after rfl
      exact ⟨getLast?_append_any last [d, '_'], next⟩

theorem digits_of_separatesDigits {ds : List Char} (noLine : p '_' = false) (filled : ds ≠ [])
    (run : IsRun p ds) (separated : SeparatesDigits p ds) : Digits p ds := by
  match ds with
  | [] => exact absurd rfl filled
  | d :: rest =>
    obtain ⟨here, later⟩ := List.forall_mem_cons.1 run
    have digit : p d = true := by
      rcases here with digit | rfl
      · exact digit
      · exact absurd (separated [] rest rfl).1 (by simp)
    match rest with
    | [] => exact .one digit
    | e :: more =>
      have isDigit {d : Char} (digit : p d = true) : some d ≠ some '_' := by
        rintro ⟨⟩
        exact absurd (noLine.symm.trans digit) (by decide)
      rcases (List.forall_mem_cons.1 later).1 with second | rfl
      · have tail : SeparatesDigits p (e :: more) := .of_append [d] separated (isDigit second)
        exact .next digit (digits_of_separatesDigits noLine (List.cons_ne_nil _ _) later tail)
      · have third : more.head?.any p = true := (separated [d] more rfl).2
        cases more with
        | nil => cases third
        | cons f more =>
          have tail : SeparatesDigits p (f :: more) :=
            .of_append [d, '_'] separated (isDigit third)
          exact .apart digit (digits_of_separatesDigits noLine (List.cons_ne_nil _ _)
            (List.forall_mem_cons.1 later).2 tail)
termination_by ds.length

theorem digits_iff (noLine : p '_' = false) :
    Digits p ds ↔ (ds ≠ [] ∧ IsRun p ds) ∧ SeparatesDigits p ds := by
  constructor
  · intro h
    refine ⟨⟨?_, h.isRun⟩, h.separatesDigits noLine⟩
    rintro rfl
    cases h
  · rintro ⟨⟨some, run⟩, separated⟩
    exact digits_of_separatesDigits noLine some run separated

theorem digits_isDigit_iff :
    Digits isDigit ds ↔ IsDigitRun ds ∧ SeparatesDigits isDigit ds := by
  constructor
  · intro h
    exact ⟨⟨h.head, h.isRun⟩, h.separatesDigits isDigit_line⟩
  · rintro ⟨⟨first, run⟩, separated⟩
    refine digits_of_separatesDigits isDigit_line ?_ run separated
    rintro rfl
    cases first

end Runs

section Decimals

variable {Run : List Char → Prop} {ms es : List Char}

/-- The separators of a mantissa are those of its runs of digits. -/
theorem mantissa_and_iff : Mantissa (fun ds => Run ds ∧ SeparatesDigits isDigit ds) ms ↔
    Mantissa Run ms ∧ SeparatesDigits isDigit ms := by
  have atPoint (ds fs : List Char) : SeparatesDigits isDigit (ds ++ '.' :: fs) ↔
      SeparatesDigits isDigit ds ∧ SeparatesDigits isDigit fs :=
    separatesDigits_append (by decide) (by decide)
  have nothing : SeparatesDigits isDigit [] := separatesDigits_of_not_mem List.not_mem_nil
  constructor
  · intro h
    cases h with
    | whole run => exact ⟨.whole run.1, run.2⟩
    | fraction ds fs => exact ⟨.fraction ds.1 fs.1, (atPoint _ _).2 ⟨ds.2, fs.2⟩⟩
    | point fs => exact ⟨.point fs.1, (atPoint [] _).2 ⟨nothing, fs.2⟩⟩
  · rintro ⟨form, separated⟩
    cases form with
    | whole run => exact .whole ⟨run, separated⟩
    | fraction ds fs =>
      obtain ⟨first, second⟩ := (atPoint _ _).1 separated
      exact .fraction ⟨ds, first⟩ ⟨fs, second⟩
    | point fs => exact .point ⟨fs, ((atPoint [] _).1 separated).2⟩

theorem separatesDigits_mark {mark : Char} {cs ds : List Char} (isMark : mark = 'e' ∨ mark = 'E') :
    SeparatesDigits isDigit (cs ++ mark :: ds) ↔
      SeparatesDigits isDigit cs ∧ SeparatesDigits isDigit ds := by
  rcases isMark with rfl | rfl <;> exact separatesDigits_append (by decide) (by decide)

theorem separatesDigits_sign {sign : Char} {ds : List Char} (isSign : sign = '+' ∨ sign = '-') :
    SeparatesDigits isDigit (sign :: ds) ↔ SeparatesDigits isDigit ds := by
  have nothing : SeparatesDigits isDigit [] := separatesDigits_of_not_mem List.not_mem_nil
  have cut : SeparatesDigits isDigit ([] ++ sign :: ds) ↔
      SeparatesDigits isDigit [] ∧ SeparatesDigits isDigit ds := by
    rcases isSign with rfl | rfl <;> exact separatesDigits_append (by decide) (by decide)
  exact cut.trans (and_iff_right nothing)

/-- The separators of an exponent are those of its digits, whatever comes before it. -/
theorem exponent_and_iff : Exponent (fun ds => Run ds ∧ SeparatesDigits isDigit ds) es ∧
      SeparatesDigits isDigit ms ↔ Exponent Run es ∧ SeparatesDigits isDigit (ms ++ es) := by
  constructor
  · rintro ⟨h, front⟩
    cases h with
    | none => exact ⟨.none, by rwa [List.append_nil]⟩
    | plain mark ds => exact ⟨.plain mark ds.1, (separatesDigits_mark mark).2 ⟨front, ds.2⟩⟩
    | signed mark sign ds =>
      have behind := (separatesDigits_sign sign).2 ds.2
      exact ⟨.signed mark sign ds.1, (separatesDigits_mark mark).2 ⟨front, behind⟩⟩
  · rintro ⟨form, separated⟩
    cases form with
    | none => exact ⟨.none, by rwa [List.append_nil] at separated⟩
    | plain mark ds =>
      obtain ⟨front, behind⟩ := (separatesDigits_mark mark).1 separated
      exact ⟨.plain mark ⟨ds, behind⟩, front⟩
    | signed mark sign ds =>
      obtain ⟨front, behind⟩ := (separatesDigits_mark mark).1 separated
      exact ⟨.signed mark sign ⟨ds, (separatesDigits_sign sign).1 behind⟩, front⟩

theorem decimal_and_iff :
    Mantissa (Digits isDigit) ms ∧ Exponent (Digits isDigit) es ↔
      (Mantissa IsDigitRun ms ∧ Exponent IsDigitRun es) ∧ SeparatesDigits isDigit (ms ++ es) := by
  have runs : Digits isDigit = fun ds => IsDigitRun ds ∧ SeparatesDigits isDigit ds :=
    funext fun _ => propext digits_isDigit_iff
  rw [runs, mantissa_and_iff, and_assoc, and_assoc, and_comm (a := SeparatesDigits isDigit ms),
    exponent_and_iff]

theorem IsDigitRun.not_radixMark {ds : List Char} (h : IsDigitRun ds) : ∀ c ∈ ds, c ∉ radixMarks :=
  fun c mem => NumberScan.not_radixMark ((h.2 c mem).imp_right fun line => by simp [line])

theorem Mantissa.not_radixMark (h : Mantissa IsDigitRun ms) : ∀ c ∈ ms, c ∉ radixMarks := by
  have point : '.' ∉ radixMarks := by decide
  cases h with
  | whole run => exact run.not_radixMark
  | fraction ds fs =>
    exact List.forall_mem_append.2
      ⟨ds.not_radixMark, List.forall_mem_cons.2 ⟨point, fs.not_radixMark⟩⟩
  | point fs => exact List.forall_mem_cons.2 ⟨point, fs.not_radixMark⟩

theorem Exponent.not_radixMark (h : Exponent IsDigitRun es) : ∀ c ∈ es, c ∉ radixMarks := by
  have letter {mark : Char} (is : mark = 'e' ∨ mark = 'E') : mark ∉ radixMarks := by
    rcases is with rfl | rfl <;> decide
  cases h with
  | none => exact List.forall_mem_nil _
  | plain mark run => exact List.forall_mem_cons.2 ⟨letter mark, run.not_radixMark⟩
  | signed mark sign run =>
    refine List.forall_mem_cons.2 ⟨letter mark, List.forall_mem_cons.2 ⟨?_, run.not_radixMark⟩⟩
    rcases sign with rfl | rfl <;> decide

/-- A decimal literal is not taken for one with a radix. -/
theorem decimal_not_radix (m : Mantissa IsDigitRun ms) (e : Exponent IsDigitRun es) :
    ∀ mark ds, ms ++ es = '0' :: mark :: ds → mark ∉ radixMarks := by
  intro mark ds whole
  have none := List.forall_mem_append.2 ⟨m.not_radixMark, e.not_radixMark⟩
  rw [whole] at none
  exact none mark (by simp)

theorem digitOf_eq_isDigit {cs : List Char}
    (h : ∀ mark ds, cs = '0' :: mark :: ds → mark ∉ radixMarks) : digitOf cs = isDigit := by
  rw [digitOf.eq_def]
  split
  next mark ds => exact if_neg (h mark ds rfl)
  · rfl

end Decimals

section Radixes

variable {mark : Char} {ds : List Char}

theorem digitOf_radix (mem : mark ∈ radixMarks) :
    digitOf ('0' :: mark :: ds) = isRadixDigit mark := if_pos mem

theorem separatesDigits_radix (mem : mark ∈ radixMarks) :
    SeparatesDigits (isRadixDigit mark) ('0' :: mark :: ds) ↔
      SeparatesDigits (isRadixDigit mark) ds := by
  obtain ⟨noDigit, other, -⟩ := radixMark_apart mem
  have zero : SeparatesDigits (isRadixDigit mark) ['0'] := separatesDigits_of_not_mem (by decide)
  have cut : SeparatesDigits (isRadixDigit mark) (['0'] ++ mark :: ds) ↔
      SeparatesDigits (isRadixDigit mark) ['0'] ∧ SeparatesDigits (isRadixDigit mark) ds :=
    separatesDigits_append noDigit other
  exact cut.trans (and_iff_right zero)

theorem radix_and_iff (mem : mark ∈ radixMarks) :
    Digits (isRadixDigit mark) ds ↔
      IsRun Escape.isHexDigit ds ∧ IsTidy ('0' :: mark :: ds) := by
  obtain ⟨-, -, noLine⟩ := radixMark_apart mem
  rw [digits_iff noLine]
  constructor
  · rintro ⟨⟨some, run⟩, separated⟩
    refine ⟨fun c inside => (run c inside).imp_left isHexDigit_of_isRadixDigit, ?_, ?_⟩
    · rw [digitOf_radix mem]
      exact (separatesDigits_radix mem).2 separated
    · rintro _ _ ⟨⟩ -
      exact ⟨some, run⟩
  · rintro ⟨-, tidy⟩
    have separated := tidy.separators
    rw [digitOf_radix mem] at separated
    exact ⟨tidy.radix mark ds rfl mem, (separatesDigits_radix mem).1 separated⟩

end Radixes

/-- A text is a well-formed literal if and only if it can be scanned and is tidy. -/
theorem isWellFormed_iff {cs : List Char} : IsWellFormed cs ↔ IsScanned cs ∧ IsTidy cs := by
  constructor
  · intro h
    cases h with
    | radix mem digits =>
      obtain ⟨run, tidy⟩ := (radix_and_iff mem).1 digits
      exact ⟨.radix mem run, tidy⟩
    | decimal m e =>
      obtain ⟨⟨m, e⟩, separated⟩ := decimal_and_iff.1 ⟨m, e⟩
      have plain := decimal_not_radix m e
      refine ⟨.decimal m e, ?_, fun mark ds whole mem => absurd mem (plain mark ds whole)⟩
      rwa [digitOf_eq_isDigit plain]
  · rintro ⟨scanned, tidy⟩
    cases scanned with
    | radix mem run => exact .radix mem ((radix_and_iff mem).2 ⟨run, tidy⟩)
    | decimal m e =>
      have separated := tidy.separators
      rw [digitOf_eq_isDigit (decimal_not_radix m e)] at separated
      obtain ⟨m, e⟩ := decimal_and_iff.2 ⟨⟨m, e⟩, separated⟩
      exact .decimal m e

end ScriptToGo.NumberScan
