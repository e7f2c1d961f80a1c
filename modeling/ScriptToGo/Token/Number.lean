import ScriptToGo.Token.Escape

/-! Numeric literals. -/
namespace ScriptToGo

def isWordStart (c : Char) : Bool :=
  ('a' ≤ c && c ≤ 'z') || ('A' ≤ c && c ≤ 'Z') || c == '_' || c == '$'

def isWordPart (c : Char) : Bool := isWordStart c || Text.isDigit c

/-- A numeric literal cut off the front of the text. All its characters are ASCII. -/
structure NumberScan where
  chars : List Char
  rest : List Char
  fault? : Option SyntaxFault

namespace NumberScan

/-- Cuts off a run of digits, which separators may interrupt anywhere. -/
def digitRun (isDigit : Char → Bool) (cs : List Char) : List Char × List Char :=
  let p := fun c => isDigit c || c == '_'
  (cs.takeWhile p, cs.dropWhile p)

def finish (chars rest : List Char) : NumberScan :=
  if rest.head?.any isWordStart then
    ⟨chars ++ rest.takeWhile isWordPart, rest.dropWhile isWordPart, some .wordAfterNumber⟩
  else ⟨chars, rest, none⟩

/-- Reads a literal whose radix mark is still in front. Every radix takes hexadecimal digits. -/
def radix (first : Char) (rest : List Char) : NumberScan :=
  let (digits, after) := digitRun Escape.isHexDigit (rest.drop 1)
  finish (first :: rest.take 1 ++ digits) after

/-- Cuts off whole digits and a fraction. A point belongs to the literal only before a digit. -/
def mantissa (first : Char) (rest : List Char) : List Char × List Char :=
  if first = '.' then
    let (fraction, after) := digitRun Text.isDigit rest
    (first :: fraction, after)
  else
    let (whole, after) := digitRun Text.isDigit rest
    if after.head? = some '.' ∧ (after.drop 1).head?.any Text.isDigit then
      let (fraction, after) := digitRun Text.isDigit (after.drop 1)
      (first :: whole ++ '.' :: fraction, after)
    else (first :: whole, after)

/-- The number of signs, at most one, at the front of an exponent. -/
def signLength (cs : List Char) : Nat :=
  if cs.head? = some '+' ∨ cs.head? = some '-' then 1 else 0

def exponent (chars rest : List Char) : NumberScan :=
  let signs := signLength rest
  let chars := chars ++ rest.take signs
  let rest := rest.drop signs
  if rest.head?.any Text.isDigit then
    let (digits, after) := digitRun Text.isDigit rest
    finish (chars ++ digits) after
  else ⟨chars, rest, some .exponentWithoutDigits⟩

/-- Reads a literal from its first character, a digit or a point, and what follows that. -/
def read (first : Char) (rest : List Char) : NumberScan :=
  if first = '0' ∧ rest.head?.any (['x', 'X', 'b', 'B', 'o', 'O'].contains ·) then radix first rest
  else
    let (chars, after) := mantissa first rest
    match after with
    | mark :: tail =>
      if mark = 'e' ∨ mark = 'E' then exponent (chars ++ [mark]) tail else finish chars after
    | [] => finish chars after

theorem digitRun_append (isDigit : Char → Bool) (cs : List Char) :
    (digitRun isDigit cs).1 ++ (digitRun isDigit cs).2 = cs := by
  simp [digitRun]

theorem finish_append (chars rest : List Char) :
    (finish chars rest).chars ++ (finish chars rest).rest = chars ++ rest := by
  rw [finish]; split <;> simp

theorem exponent_append (chars rest : List Char) :
    (exponent chars rest).chars ++ (exponent chars rest).rest = chars ++ rest := by
  rw [exponent]
  split
  · simp only [finish_append, List.append_assoc, digitRun_append, List.take_append_drop]
  · simp

theorem mantissa_append (first : Char) (rest : List Char) :
    (mantissa first rest).1 ++ (mantissa first rest).2 = first :: rest := by
  have run := digitRun_append Text.isDigit
  rw [mantissa]
  split
  · simp [run]
  · simp only
    split
    next h =>
      obtain ⟨tail, ht⟩ := List.head?_eq_some_iff.1 h.1
      have whole := run rest
      rw [ht] at whole
      simp only [ht, List.drop_succ_cons, List.drop_zero, List.cons_append, List.append_assoc, run,
        whole]
    · simp [run]

theorem read_append (first : Char) (rest : List Char) :
    (read first rest).chars ++ (read first rest).rest = first :: rest := by
  have whole := mantissa_append first rest
  rw [read]
  split
  · simp only [radix, finish_append, List.cons_append, List.append_assoc, digitRun_append,
      List.take_append_drop]
  · simp only
    split
    next mark tail h =>
      split
      · rw [h] at whole; simp [exponent_append, whole]
      · rw [finish_append, whole]
    · rw [finish_append, whole]

theorem read_chars_ne_nil (first : Char) (rest : List Char) : (read first rest).chars ≠ [] := by
  have finish_ne {chars : List Char} (after : List Char) (h : chars ≠ []) :
      (finish chars after).chars ≠ [] := by rw [finish]; split <;> simp [h]
  have mantissa_ne : (mantissa first rest).1 ≠ [] := by
    rw [mantissa]; split
    · simp
    · simp only; split <;> simp
  rw [read]
  split
  · exact finish_ne _ (by simp)
  · simp only
    split
    · split
      · rw [exponent]; split
        · exact finish_ne _ (by simp)
        · simp
      · exact finish_ne _ mantissa_ne
    · exact finish_ne _ mantissa_ne

end NumberScan

end ScriptToGo
