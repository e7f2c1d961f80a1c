import ScriptToGo.Proofs.Text.Literal

/-! Formats of `fmt.Sprintf`, and the static text in them. -/
namespace ScriptToGo

/-- What a format asks for: a character, or the next argument. -/
inductive FormatItem
  | char (c : Char)
  | argument
deriving DecidableEq

/-- Reads a format in which a percent sign is written twice and `%v` takes an argument. There are
no other verbs. -/
def readFormat : List Char → Option (List FormatItem)
  | [] => some []
  | [c] => if c = '%' then none else some [.char c]
  | c :: verb :: rest =>
    if c = '%' then
      if verb = '%' then (readFormat rest).map (.char '%' :: ·)
      else if verb = 'v' then (readFormat rest).map (.argument :: ·)
      else none
    else (readFormat (verb :: rest)).map (.char c :: ·)

/-- How an item is written in a format. -/
def FormatItem.written : FormatItem → List Char
  | char c => if c = '%' then ['%', '%'] else [c]
  | argument => ['%', 'v']

theorem readFormat_cons {c : Char} (h : c ≠ '%') (rest : List Char) :
    readFormat (c :: rest) = (readFormat rest).map (.char c :: ·) := by
  cases rest with
  | nil => simp [readFormat, h]
  | cons verb rest => rw [readFormat, if_neg h]

theorem readFormat_written (item : FormatItem) (rest : List Char) :
    readFormat (item.written ++ rest) = (readFormat rest).map (item :: ·) := by
  cases item with
  | argument => rfl
  | char c =>
    rw [FormatItem.written]
    split
    next percent =>
      subst percent
      rfl
    next other => exact readFormat_cons other rest

/-- A format asks for just what it is written for. -/
theorem readFormat_eq_some_iff {cs : List Char} {items : List FormatItem} :
    readFormat cs = some items ↔ cs = items.flatMap FormatItem.written := by
  constructor
  · intro h
    induction cs using readFormat.induct generalizing items with
    | case1 =>
      cases h
      rfl
    | case2 => cases h
    | case3 c other =>
      rw [readFormat, if_neg other] at h
      cases h
      simp [FormatItem.written, other]
    | case4 rest ih =>
      obtain ⟨others, read, rfl⟩ := Option.map_eq_some_iff.1 h
      rw [ih read]
      rfl
    | case5 rest _ ih =>
      obtain ⟨others, read, rfl⟩ := Option.map_eq_some_iff.1 h
      rw [ih read]
      rfl
    | case6 verb rest noPercent noVerb =>
      rw [readFormat, if_pos rfl, if_neg noPercent, if_neg noVerb] at h
      cases h
    | case7 c verb rest other ih =>
      rw [readFormat_cons other] at h
      obtain ⟨others, read, rfl⟩ := Option.map_eq_some_iff.1 h
      rw [ih read, List.flatMap_cons, FormatItem.written, if_neg other]
      rfl
  · rintro rfl
    induction items with
    | nil => rfl
    | cons item rest ih => rw [List.flatMap_cons, readFormat_written, ih]; rfl

namespace GoLiteral
open Text

/-- A percent sign that is written as it is. -/
def Piece.percent : Piece := .plain '%'

theorem Piece.Form.percent {p : Piece} (h : p.Form) : p = .percent ∨ '%' ∉ p.written := by
  cases h with
  | @plain c =>
    by_cases percent : c = '%'
    · exact .inl (congrArg Piece.plain percent)
    · exact .inr (by simpa [Piece.plain] using Ne.symm percent)
  | @named mark value uncoded names =>
    refine .inr fun mem => ?_
    obtain rfl : '%' = mark := by simpa [Piece.named] using mem
    cases names
  | @coded mark limit code digits marks read =>
    refine .inr fun mem => ?_
    have noMark : '%' ≠ mark := by
      rintro rfl
      exact absurd marks (by simp [codeMarks])
    have inDigits : '%' ∈ digits := by simpa [Piece.coded, noMark] using mem
    obtain ⟨value, found⟩ := exists_digit_of_code? read '%' inDigits
    have noDigit : digit? '%' = none := by decide
    rw [noDigit] at found
    cases found

end GoLiteral

end ScriptToGo
