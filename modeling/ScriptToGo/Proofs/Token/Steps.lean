import ScriptToGo.Token.Stream

/-! Cutting a text into tokens, one lexeme at a time. -/
namespace ScriptToGo
open Text (byteLength)

namespace HoleText

/-- The tokens of an interpolation together with the text after it. -/
def lexed (hole : HoleText) : Hole :=
  .mk (lexFrom hole.pos hole.chars).tokens ⟨hole.pos, hole.pos + byteLength hole.chars⟩
    (String.ofList hole.after.chars)

/-- What is wrong in an interpolation and in the text after it. -/
def errors (hole : HoleText) : List SyntaxError :=
  (lexFrom hole.pos hole.chars).errors ++ hole.after.faults

end HoleText

theorem lexHoles_eq (holes : List HoleText) :
    lexHoles holes = ⟨holes.map HoleText.lexed, holes.flatMap HoleText.errors⟩ := by
  induction holes with
  | nil => rw [lexHoles, List.map_nil, List.flatMap_nil]
  | cons hole rest ih =>
    rw [lexHoles, ih, List.map_cons, List.flatMap_cons]
    rfl

theorem length_lt_of_mem_holes {hole : HoleText} {holes : List HoleText} (h : hole ∈ holes) :
    hole.chars.length < holesLength holes := by
  induction holes with
  | nil => cases h
  | cons first rest ih =>
    rw [holesLength]
    rcases List.mem_cons.1 h with rfl | later
    · omega
    · have := ih later
      omega

namespace Lexeme

/-- The token that a lexeme gives, if it gives one. -/
def tokens (span : Span) : Lexeme → List Token
  | skipped | faulty _ => []
  | token kind => [.mk kind span]
  | template head holes =>
    [.mk (.template (String.ofList head.chars) (holes.map HoleText.lexed)) span]

/-- What is wrong with a lexeme. -/
def errors : Lexeme → List SyntaxError
  | skipped | token _ => []
  | template head holes => head.faults ++ holes.flatMap HoleText.errors
  | faulty errors => errors

/-- Nothing is wrong with the static text of a lexeme. What is inside of interpolations is not
looked at. -/
def Clean : Lexeme → Prop
  | skipped | token _ => True
  | template head holes => head.faults = [] ∧ ∀ hole ∈ holes, hole.after.faults = []
  | faulty _ => False

end Lexeme

theorem lexFrom_nil (pos : Nat) : lexFrom pos [] = ⟨[.mk .eof ⟨pos, pos⟩], []⟩ := by
  rw [lexFrom]

/-- Cutting up a text gives what its first lexeme gives, followed by what the rest of it gives. -/
theorem lexFrom_cons (pos : Nat) (c : Char) (rest : List Char) :
    lexFrom pos (c :: rest) =
      let s := Scan.next pos c rest
      let tail := lexFrom s.pos s.rest
      ⟨s.lexeme.tokens ⟨pos, s.pos⟩ ++ tail.tokens, s.lexeme.errors ++ tail.errors⟩ := by
  rw [lexFrom]
  dsimp only
  split
  next is => rw [is]; rfl
  next kind is => rw [is]; rfl
  next head holes is => rw [is, lexHoles_eq]; rfl
  next errors is => rw [is]; rfl

/-- What holds of a text when it holds of what is left after its first lexeme, and of the text in
its interpolations, holds of every text. -/
theorem lexFrom_induction {motive : Nat → List Char → Prop} (nil : ∀ pos, motive pos [])
    (cons : ∀ pos c rest, motive (Scan.next pos c rest).pos (Scan.next pos c rest).rest →
      (∀ head holes, (Scan.next pos c rest).lexeme = .template head holes →
        ∀ hole ∈ holes, motive hole.pos hole.chars) →
      motive pos (c :: rest))
    (pos : Nat) (cs : List Char) : motive pos cs := by
  match cs with
  | [] => exact nil pos
  | c :: rest =>
    have shorter := Scan.next_rest_length pos c rest
    apply cons
    · exact lexFrom_induction nil cons _ _
    · intro head holes is hole mem
      have := length_lt_of_mem_holes mem
      have := Scan.next_holes_length is
      exact lexFrom_induction nil cons _ _
termination_by cs.length
decreasing_by all_goals simp only [List.length_cons]; omega

/-- What holds of every way to read a lexeme holds of how it is read. Which way is taken does not
depend on the offset. -/
theorem Scan.next_cases {c : Char} {rest : List Char} {motive : (Nat → Scan) → Prop}
    (blank : c = ' ' ∨ c = '\t' ∨ c = '\r' ∨ c = '\n' →
      motive fun pos => ⟨.skipped, pos + 1, rest⟩)
    (lineComment : c = '/' ∧ rest.head? = some '/' → motive fun pos => lineComment pos rest)
    (blockComment : c = '/' ∧ rest.head? = some '*' →
      motive fun pos => blockComment pos (rest.drop 1))
    (string : c = '"' ∨ c = '\'' → motive fun pos => string pos c rest)
    (template : c = '\x60' → motive fun pos => template pos rest)
    (number : Text.isDigit c = true ∨ (c = '.' ∧ rest.head?.any Text.isDigit = true) →
      motive fun pos => number pos c rest)
    (word : isWordStart c = true → motive fun pos => word pos c rest)
    (symbol : motive fun pos => symbol pos c rest) : motive fun pos => next pos c rest := by
  unfold next
  split
  next h => exact blank h
  split
  next h => exact lineComment h
  split
  next h => exact blockComment h
  split
  next h => exact string h
  split
  next h => exact template h
  split
  next h => exact number h
  split
  next h => exact word h
  · exact symbol

/-- A lexeme that is faulty tells what is wrong. -/
theorem Scan.next_faulty {pos : Nat} {c : Char} {rest : List Char} {errors : List SyntaxError}
    (h : (next pos c rest).lexeme = .faulty errors) : errors ≠ [] := by
  refine next_cases (motive := fun scan => (scan pos).lexeme = .faulty errors → errors ≠ [])
    ?blank ?lineComment ?blockComment ?string ?template ?number ?word ?symbol h
  case blank | lineComment | template | word => rintro - ⟨⟩
  case blockComment =>
    intro _ h
    simp only [blockComment] at h
    split at h <;> cases h
    exact List.cons_ne_nil _ _
  case string =>
    intro _ h
    simp only [string] at h
    split at h <;> cases h
    next faults => exact mt List.isEmpty_iff.2 faults
  case number =>
    intro _ h
    simp only [number] at h
    split at h <;> cases h
    exact List.cons_ne_nil _ _
  case symbol =>
    intro h
    simp only [symbol] at h
    split at h <;> cases h
    exact List.cons_ne_nil _ _

/-- Where nothing is wrong with a text, nothing is wrong with its first lexeme, with the text in
its interpolations, nor with the rest. -/
theorem clean_of_lexFrom {pos : Nat} {c : Char} {rest : List Char}
    (h : (lexFrom pos (c :: rest)).errors = []) :
    let s := Scan.next pos c rest
    s.lexeme.Clean ∧ (lexFrom s.pos s.rest).errors = [] ∧
      ∀ head holes, s.lexeme = .template head holes →
        ∀ hole ∈ holes, (lexFrom hole.pos hole.chars).errors = [] := by
  rw [lexFrom_cons] at h
  obtain ⟨here, later⟩ := List.append_eq_nil_iff.1 h
  refine ⟨?_, later, ?_⟩
  · cases is : (Scan.next pos c rest).lexeme with
    | skipped => trivial
    | token kind => trivial
    | template head holes =>
      rw [is] at here
      obtain ⟨inHead, inHoles⟩ := List.append_eq_nil_iff.1 here
      refine ⟨inHead, fun hole mem => ?_⟩
      exact (List.append_eq_nil_iff.1 (List.flatMap_eq_nil_iff.1 inHoles hole mem)).2
    | faulty errors =>
      rw [is] at here
      exact absurd here (Scan.next_faulty is)
  · intro head holes is hole mem
    rw [is] at here
    obtain ⟨-, inHoles⟩ := List.append_eq_nil_iff.1 here
    exact (List.append_eq_nil_iff.1 (List.flatMap_eq_nil_iff.1 inHoles hole mem)).1

end ScriptToGo
