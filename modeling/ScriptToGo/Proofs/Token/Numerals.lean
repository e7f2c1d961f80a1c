import ScriptToGo.Proofs.Token.NumeralForms

/-! What is scanned without a fault has the form of a numeric literal, and a text of that form is
scanned again wherever it is written. -/
namespace ScriptToGo
open Text (isDigit)

/-- A run ends where something comes after it that does not go on with it. -/
theorem takeWhile_dropWhile_append {α : Type} {p : α → Bool} {run after : List α}
    (all : ∀ a ∈ run, p a = true) (stops : after.head?.any p = false) :
    (run ++ after).takeWhile p = run ∧ (run ++ after).dropWhile p = after := by
  have none : after.takeWhile p = [] ∧ after.dropWhile p = after := by
    cases after with
    | nil => exact ⟨rfl, rfl⟩
    | cons a rest =>
      have stop : p a = false := stops
      rw [List.takeWhile_cons, List.dropWhile_cons, stop]
      exact ⟨rfl, rfl⟩
  rw [List.takeWhile_append_of_pos all, List.dropWhile_append_of_pos all, none.1, none.2,
    List.append_nil]
  exact ⟨rfl, rfl⟩

theorem isWordPart_of_isHexDigit {c : Char} (h : Escape.isHexDigit c = true) :
    isWordPart c = true := by
  rw [Escape.isHexDigit, Escape.hexValue?] at h
  have order {a b d : Char} (first : a ≤ b) (second : b ≤ d) : a ≤ d := Char.le_trans first second
  simp only [isWordPart, isWordStart, isDigit, Bool.or_eq_true, Bool.and_eq_true,
    decide_eq_true_eq, beq_iff_eq]
  split at h
  next digit => exact .inr digit
  split at h
  next lower => exact .inl (.inl (.inl (.inl ⟨lower.1, order lower.2 (by decide)⟩)))
  split at h
  next upper => exact .inl (.inl (.inl (.inr ⟨upper.1, order upper.2 (by decide)⟩)))
  · cases h

namespace NumberScan

variable {p : Char → Bool} {first : Char} {cs ds ms rest after chars : List Char}

section Sound

theorem finish_chars (clean : (finish chars rest).fault? = none) :
    (finish chars rest).chars = chars := by
  rw [finish] at clean ⊢
  split at clean
  · cases clean
  next noStart => rw [if_neg noStart]

theorem digitRun_isRun (p : Char → Bool) (cs : List Char) : IsRun p (digitRun p cs).1 := by
  intro c mem
  have part : (p c || c == '_') = true :=
    List.mem_takeWhile_imp (p := fun c => p c || c == '_') mem
  exact (Bool.or_eq_true_iff.1 part).imp_right eq_of_beq

/-- The first digit of a literal and the run behind it are a run of digits. -/
theorem cons_digitRun_isDigitRun (digit : isDigit first = true) (cs : List Char) :
    IsDigitRun (first :: (digitRun isDigit cs).1) :=
  ⟨digit, List.forall_mem_cons.2 ⟨.inl digit, digitRun_isRun _ _⟩⟩

theorem digitRun_isDigitRun (digit : cs.head?.any isDigit = true) :
    IsDigitRun (digitRun isDigit cs).1 := by
  cases cs with
  | nil => cases digit
  | cons c rest =>
    have isDigit : isDigit c = true := digit
    have part : (Text.isDigit c || c == '_') = true := by rw [isDigit, Bool.true_or]
    have run := cons_digitRun_isDigitRun isDigit rest
    rw [digitRun] at run ⊢
    dsimp only at run ⊢
    rwa [List.takeWhile_cons_of_pos (p := fun c => Text.isDigit c || c == '_') part]

theorem mantissa_form
    (start : isDigit first = true ∨ (first = '.' ∧ rest.head?.any isDigit = true)) :
    Mantissa IsDigitRun (mantissa first rest).1 := by
  rw [mantissa]
  split
  next point =>
    have noDigit : isDigit first = false := by rw [point]; decide
    obtain ⟨-, fraction⟩ := start.resolve_left (by rw [noDigit]; decide)
    rw [point]
    exact .point (digitRun_isDigitRun fraction)
  next whole =>
    have digit : isDigit first = true := start.resolve_right fun point => whole point.1
    have run := cons_digitRun_isDigitRun digit rest
    dsimp only
    split
    next fraction => exact .fraction run (digitRun_isDigitRun fraction.2)
    · exact .whole run

/-- Behind its mark, an exponent that is scanned has at most a sign and then digits. -/
theorem exponent_form {mark : Char} (isMark : mark = 'e' ∨ mark = 'E')
    (clean : (exponent (chars ++ [mark]) rest).fault? = none) :
    ∃ es, Exponent IsDigitRun es ∧ (exponent (chars ++ [mark]) rest).chars = chars ++ es := by
  rw [exponent] at clean ⊢
  dsimp only at clean ⊢
  split at clean
  next digit =>
    rw [if_pos digit, finish_chars clean]
    have run := digitRun_isDigitRun digit
    by_cases sign : rest.head? = some '+' ∨ rest.head? = some '-'
    · have one : signLength rest = 1 := if_pos sign
      cases rest with
      | nil => simp at sign
      | cons c tail =>
        rw [one] at run ⊢
        have isSign : c = '+' ∨ c = '-' := by simpa using sign
        exact ⟨_, .signed isMark isSign run, by simp⟩
    · have none : signLength rest = 0 := if_neg sign
      rw [none] at run ⊢
      exact ⟨_, .plain isMark run, by simp⟩
  · cases clean

/-- What is scanned without a fault has the form of a literal. -/
theorem isScanned_read
    (start : isDigit first = true ∨ (first = '.' ∧ rest.head?.any isDigit = true))
    (clean : (read first rest).fault? = none) : IsScanned (read first rest).chars := by
  rw [read] at clean ⊢
  split at clean
  next marked =>
    rw [if_pos marked]
    obtain ⟨rfl, marked⟩ := marked
    cases rest with
    | nil => cases marked
    | cons mark tail =>
      have mem : mark ∈ radixMarks := List.contains_iff_mem.1 marked
      have whole : (radix '0' (mark :: tail)).chars =
          '0' :: mark :: (digitRun Escape.isHexDigit tail).1 := finish_chars clean
      rw [whole]
      exact .radix mem (digitRun_isRun _ _)
  next noMark =>
    rw [if_neg noMark]
    have front := mantissa_form start
    have plain : IsScanned ((mantissa first rest).1 ++ []) := .decimal front .none
    rw [List.append_nil] at plain
    dsimp only at clean ⊢
    split at clean
    next mark tail left =>
      split at clean
      next isMark =>
        obtain ⟨es, form, whole⟩ := exponent_form isMark clean
        rw [if_pos isMark, whole]
        exact .decimal front form
      next noExponent =>
        rwa [if_neg noExponent, finish_chars clean]
    · rwa [finish_chars clean]

end Sound

section Complete

/-- What comes after a numeral does not go on with it. -/
structure Ends (after : List Char) : Prop where
  noWord : after.head?.any isWordPart = false
  noPoint : after.head? ≠ some '.'

theorem Ends.stops (h : Ends after) (word : ∀ c, p c = true → isWordPart c = true) :
    after.head?.any p = false := by
  cases after with
  | nil => rfl
  | cons c rest =>
    have noWord : isWordPart c = false := h.noWord
    exact Bool.eq_false_iff.2 fun part => Bool.false_ne_true (noWord.symm.trans (word c part))

theorem Ends.noRun (h : Ends after) (word : ∀ c, p c = true → isWordPart c = true) :
    after.head?.any (fun c => p c || c == '_') = false := by
  refine h.stops fun c part => ?_
  rcases Bool.or_eq_true_iff.1 part with digit | line
  · exact word c digit
  · rw [eq_of_beq line]
    decide

theorem finish_ends (ends : Ends after) : finish chars after = ⟨chars, after, none⟩ := by
  have noStart : after.head?.any isWordStart = false :=
    ends.stops fun c start => by rw [isWordPart, start, Bool.true_or]
  rw [finish, if_neg (by rw [noStart]; decide)]

/-- What is scanned as digits, in front of something that does not go on with them. -/
theorem digitRun_of_isRun (run : IsRun p ds)
    (stops : after.head?.any (fun c => p c || c == '_') = false) :
    digitRun p (ds ++ after) = (ds, after) := by
  have all : ∀ c ∈ ds, (p c || c == '_') = true := fun c mem => by
    rcases run c mem with digit | rfl
    · rw [digit, Bool.true_or]
    · exact Bool.or_true _
  obtain ⟨taken, left⟩ := takeWhile_dropWhile_append all stops
  rw [digitRun]
  exact Prod.ext taken left

theorem radix_complete {mark : Char} (run : IsRun Escape.isHexDigit ds) (ends : Ends after) :
    radix first (mark :: (ds ++ after)) = ⟨first :: mark :: ds, after, none⟩ := by
  have stops := ends.noRun fun _ => isWordPart_of_isHexDigit
  rw [radix, List.drop_succ_cons, List.drop_zero, digitRun_of_isRun run stops]
  exact finish_ends ends

/-- A mantissa is scanned up to its end. -/
theorem mantissa_complete (form : Mantissa IsDigitRun ms) :
    ∃ first tail, ms = first :: tail ∧
      (isDigit first = true ∨ (first = '.' ∧ tail.head?.any isDigit = true)) ∧
      ∀ after : List Char, after.head?.any (fun c => isDigit c || c == '_') = false →
        after.head? ≠ some '.' → mantissa first (tail ++ after) = (ms, after) := by
  have notPoint {c : Char} (digit : isDigit c = true) : c ≠ '.' := by
    rintro rfl
    exact absurd digit (by decide)
  have atPoint (fs : List Char) :
      ('.' :: fs).head?.any (fun c => isDigit c || c == '_') = false := by
    rw [List.head?_cons, Option.any_some]
    decide
  cases form with
  | whole run =>
    obtain ⟨digit, run⟩ := run
    cases ms with
    | nil => cases digit
    | cons first tail =>
      have more : IsRun isDigit tail := (List.forall_mem_cons.1 run).2
      refine ⟨first, tail, rfl, .inl digit, fun after stops noPoint => ?_⟩
      rw [mantissa, if_neg (notPoint digit), digitRun_of_isRun more stops]
      dsimp only
      rw [if_neg fun point => noPoint point.1]
  | @fraction ds fs run behind =>
    obtain ⟨digit, run⟩ := run
    cases ds with
    | nil => cases digit
    | cons first tail =>
      have more : IsRun isDigit tail := (List.forall_mem_cons.1 run).2
      refine ⟨first, tail ++ '.' :: fs, rfl, .inl digit, fun after stops _ => ?_⟩
      rw [mantissa, if_neg (notPoint digit), List.append_assoc, List.cons_append,
        digitRun_of_isRun more (atPoint _)]
      dsimp only
      rw [if_pos ⟨rfl, head?_append_any behind.1 after⟩, List.drop_succ_cons, List.drop_zero,
        digitRun_of_isRun behind.2 stops]
  | @point fs behind =>
    refine ⟨'.', fs, rfl, .inr ⟨rfl, behind.1⟩, fun after stops _ => ?_⟩
    rw [mantissa, if_pos rfl, digitRun_of_isRun behind.2 stops]

/-- What stands behind the mark of an exponent, with or without a sign, is scanned up to its end. -/
theorem exponent_complete {signs : List Char} (chars : List Char)
    (isSign : signs ∈ [[], ['+'], ['-']]) (run : IsDigitRun ds) (ends : Ends after) :
    exponent chars (signs ++ (ds ++ after)) = ⟨chars ++ signs ++ ds, after, none⟩ := by
  have digit := head?_append_any run.1 after
  have stops := ends.noRun fun _ => isWordPart_of_isDigit
  have signed : signLength (signs ++ (ds ++ after)) = signs.length := by
    simp only [List.mem_cons, List.not_mem_nil, or_false] at isSign
    rcases isSign with rfl | rfl | rfl
    · refine if_neg ?_
      rintro (sign | sign) <;> rw [List.nil_append] at sign <;> rw [sign] at digit <;>
        exact absurd digit (by decide)
    · rfl
    · rfl
  rw [exponent, signed]
  dsimp only
  rw [List.take_left, List.drop_left, if_pos digit, digitRun_of_isRun run.2 stops]
  exact finish_ends ends

theorem isWordPart_radixMark {c : Char}
    (h : ['x', 'X', 'b', 'B', 'o', 'O'].contains c = true) : isWordPart c = true := by
  have among : c ∈ ['x', 'X', 'b', 'B', 'o', 'O'] := List.contains_iff_mem.1 h
  simp only [List.mem_cons, List.not_mem_nil, or_false] at among
  rcases among with rfl | rfl | rfl | rfl | rfl | rfl <;> rfl

/-- The text of a numeral is read as it was wherever it is written, in front of anything that does
not go on with it. -/
def IsNumeral (text : List Char) : Prop :=
  ∃ first tail, text = first :: tail ∧
    (isDigit first = true ∨ (first = '.' ∧ tail.head?.any isDigit = true)) ∧
    ∀ after, Ends after → read first (tail ++ after) = ⟨text, after, none⟩

theorem IsScanned.isNumeral (h : IsScanned cs) : IsNumeral cs := by
  cases h with
  | @radix mark ds mem run =>
    refine ⟨'0', mark :: ds, rfl, .inl (by decide), fun after ends => ?_⟩
    rw [List.cons_append, read, if_pos ⟨rfl, List.contains_iff_mem.2 mem⟩]
    exact radix_complete run ends
  | @decimal ms es front behind =>
    obtain ⟨first, tail, rfl, start, whole⟩ := mantissa_complete front
    refine ⟨first, tail ++ es, rfl, start.imp_right fun point =>
      ⟨point.1, head?_append_any point.2 es⟩, fun after ends => ?_⟩
    have noRadix : ¬(first = '0' ∧ (tail ++ es ++ after).head?.any
        (['x', 'X', 'b', 'B', 'o', 'O'].contains ·) = true) := by
      rintro ⟨rfl, marked⟩
      cases all : tail ++ es with
      | nil =>
        rw [all, List.nil_append, ends.stops fun _ => isWordPart_radixMark] at marked
        cases marked
      | cons mark more =>
        rw [all] at marked
        exact decimal_not_radix front behind mark more (congrArg ('0' :: ·) all)
          (List.contains_iff_mem.1 marked)
    -- The mantissa ends where the numeral does, or at the mark of the exponent.
    have stops : (es ++ after).head?.any (fun c => isDigit c || c == '_') = false ∧
        (es ++ after).head? ≠ some '.' := by
      cases behind with
      | none => exact ⟨ends.noRun fun _ => isWordPart_of_isDigit, ends.noPoint⟩
      | plain mark _ | signed mark _ _ => rcases mark with rfl | rfl <;> exact ⟨rfl, by simp⟩
    rw [read, if_neg noRadix, List.append_assoc, whole _ stops.1 stops.2]
    cases behind with
    | none =>
      rw [List.nil_append, List.append_nil]
      dsimp only
      split
      next mark left =>
        have noExponent : ¬(mark = 'e' ∨ mark = 'E') := by
          have noWord : isWordPart mark = false := ends.noWord
          rintro (rfl | rfl) <;> exact absurd noWord (by decide)
        rw [if_neg noExponent]
        exact finish_ends ends
      · exact finish_ends ends
    | @plain mark ds isMark run =>
      have read := exponent_complete (first :: tail ++ [mark]) List.mem_cons_self run ends
      dsimp only [List.cons_append]
      rw [if_pos isMark]
      exact read.trans (by simp)
    | @signed mark sign ds isMark isSign run =>
      have listed : [sign] ∈ [[], ['+'], ['-']] := by simpa using isSign
      have read := exponent_complete (first :: tail ++ [mark]) listed run ends
      dsimp only [List.cons_append]
      rw [if_pos isMark]
      exact read.trans (by simp)

end Complete

/-- The texts that are read as a number again are those that have the form of what is scanned. -/
theorem isNumeral_iff : IsNumeral cs ↔ IsScanned cs := by
  constructor
  · rintro ⟨first, tail, -, start, again⟩
    have read := again [] ⟨rfl, by simp⟩
    rw [List.append_nil] at read
    have scanned := isScanned_read start (by rw [read])
    rwa [read] at scanned
  · exact IsScanned.isNumeral

end NumberScan

end ScriptToGo
