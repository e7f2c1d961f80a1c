import Mathlib.Data.List.TakeWhile
import ScriptToGo.Proofs.Text.Position
import ScriptToGo.Token.Lexer

/-! Which characters of the source language take a single byte. -/
namespace ScriptToGo

namespace Text

/-- A text starts with at least `n` characters of one byte each. -/
def AsciiFront (n : Nat) (cs : List Char) : Prop := n ≤ cs.length ∧ ∀ c ∈ cs.take n, c.utf8Size = 1

theorem utf8Size_of_le {c : Char} (h : c ≤ '~') : c.utf8Size = 1 := by
  rw [Char.utf8Size_eq_one_iff]
  exact UInt32.le_trans h (by decide)

theorem utf8Size_of_isDigit {c : Char} (h : isDigit c = true) : c.utf8Size = 1 := by
  rw [isDigit, Bool.and_eq_true, decide_eq_true_eq, decide_eq_true_eq] at h
  exact utf8Size_of_le (Char.le_trans h.2 (by decide))

namespace AsciiFront

variable {m n : Nat} {cs : List Char}

theorem zero (cs : List Char) : AsciiFront 0 cs := ⟨Nat.zero_le _, by simp⟩

theorem cons {c : Char} (ascii : c.utf8Size = 1) (h : AsciiFront n cs) :
    AsciiFront (n + 1) (c :: cs) := by
  refine ⟨Nat.succ_le_succ h.1, ?_⟩
  rw [List.take_succ_cons, List.forall_mem_cons]
  exact ⟨ascii, h.2⟩

theorem append (first : AsciiFront m cs) (next : AsciiFront n (cs.drop m)) :
    AsciiFront (m + n) cs := by
  refine ⟨?_, ?_⟩
  · have := next.1
    rw [List.length_drop] at this
    have := first.1
    omega
  · rw [List.take_add, List.forall_mem_append]
    exact ⟨first.2, next.2⟩

theorem of_append {taken : List Char} (ascii : ∀ c ∈ taken, c.utf8Size = 1) (rest : List Char) :
    AsciiFront taken.length (taken ++ rest) := by
  refine ⟨by simp, ?_⟩
  rwa [List.take_left]

theorem of_head? {c : Char} (h : cs.head? = some c) (ascii : c.utf8Size = 1) : AsciiFront 1 cs := by
  obtain ⟨rest, rfl⟩ := List.head?_eq_some_iff.1 h
  exact (zero rest).cons ascii

end AsciiFront

theorem StandsAt.drop {text cs : List Char} {pos n : Nat} (h : StandsAt text pos cs)
    (ascii : AsciiFront n cs) : StandsAt text (pos + n) (cs.drop n) := by
  have size : byteLength (cs.take n) = n := by
    rw [byteLength_of_ascii ascii.2, List.length_take, Nat.min_eq_left ascii.1]
  rw [← List.take_append_drop n cs] at h
  have := h.skip
  rwa [size] at this

end Text

open Text (AsciiFront)

namespace Escape

theorem utf8Size_of_isHexDigit {c : Char} (h : isHexDigit c = true) : c.utf8Size = 1 := by
  rw [isHexDigit, hexValue?] at h
  split at h
  next range => exact Text.utf8Size_of_le (Char.le_trans range.2 (by decide))
  split at h
  next range => exact Text.utf8Size_of_le (Char.le_trans range.2 (by decide))
  split at h
  next range => exact Text.utf8Size_of_le (Char.le_trans range.2 (by decide))
  · cases h

theorem leadingHex_ascii (limit : Nat) (cs : List Char) :
    AsciiFront (leadingHex limit cs).length cs := by
  have front : leadingHex limit cs <+: cs :=
    (List.takeWhile_prefix isHexDigit).trans (List.take_prefix limit cs)
  obtain ⟨rest, whole⟩ := front
  have ascii : ∀ c ∈ leadingHex limit cs, c.utf8Size = 1 := fun c hc =>
    utf8Size_of_isHexDigit (List.mem_takeWhile_imp hc)
  have := AsciiFront.of_append ascii rest
  rwa [whole] at this

theorem boundedHex_ascii (value : Nat) (cs : List Char) :
    AsciiFront (boundedHex value cs).length cs := by
  induction cs generalizing value with
  | nil => exact AsciiFront.zero []
  | cons c rest ih =>
    rw [boundedHex]
    split
    · exact AsciiFront.zero _
    next digit found =>
      have ascii : c.utf8Size = 1 := utf8Size_of_isHexDigit (by rw [isHexDigit, found]; rfl)
      dsimp only
      split
      · exact (ih _).cons ascii
      · exact (AsciiFront.zero rest).cons ascii

theorem readByte_ascii (cs : List Char) : AsciiFront (readByte cs).extra cs := by
  have digits := leadingHex_ascii 2 cs
  rw [readByte]
  dsimp only
  split
  next two => rwa [two] at digits
  · exact digits

/-- The opening brace counts among the characters of a braced escape. -/
theorem readBraced_ascii (cs : List Char) : AsciiFront (readBraced cs).extra ('\x7b' :: cs) := by
  have digits := boundedHex_ascii 0 cs
  rw [readBraced]
  split
  next closed =>
    have closing : AsciiFront 1 (cs.drop (boundedHex 0 cs).length) :=
      AsciiFront.of_head? closed.2.2 (by decide)
    exact (digits.append closing).cons (by decide)
  · exact digits.cons (by decide)

theorem lowSurrogate?_ascii {cs : List Char} {low : Nat} (h : lowSurrogate? cs = some low) :
    AsciiFront 6 cs := by
  rw [lowSurrogate?.eq_def] at h
  split at h
  next rest =>
    have digits := leadingHex_ascii 4 rest
    dsimp only at h
    split at h
    next four =>
      rw [four.1] at digits
      exact (digits.cons (by decide)).cons (by decide)
    · cases h
  · cases h

theorem readUnit_ascii (cs : List Char) : AsciiFront (readUnit cs).extra cs := by
  have digits := leadingHex_ascii 4 cs
  rw [readUnit]
  dsimp only
  split
  next four =>
    rw [four] at digits
    split
    next low found =>
      split at found
      · exact digits.append (lowSurrogate?_ascii found)
      · cases found
    · exact digits
  · exact digits

/-- The characters of an escape sequence after the one that names it take a byte each. -/
theorem read_ascii (c : Char) (rest : List Char) : AsciiFront (read c rest).extra rest := by
  rw [read]
  split
  · exact AsciiFront.zero rest
  split
  · dsimp only
    split
    next newline => exact AsciiFront.of_head? newline (by decide)
    · exact AsciiFront.zero rest
  split
  · exact AsciiFront.zero rest
  split
  · exact AsciiFront.zero rest
  split
  · exact AsciiFront.zero rest
  split
  · exact AsciiFront.zero rest
  split
  · exact readByte_ascii rest
  split
  · split
    next opening =>
      obtain ⟨inside, rfl⟩ := List.head?_eq_some_iff.1 opening
      exact readBraced_ascii inside
    · exact readUnit_ascii rest
  · exact AsciiFront.zero rest

end Escape

theorem utf8Size_of_isWordStart {c : Char} (h : isWordStart c = true) : c.utf8Size = 1 := by
  simp only [isWordStart, Bool.or_eq_true, Bool.and_eq_true, decide_eq_true_eq, beq_iff_eq] at h
  rcases h with ((lower | upper) | rfl) | rfl
  · exact Text.utf8Size_of_le (Char.le_trans lower.2 (by decide))
  · exact Text.utf8Size_of_le (Char.le_trans upper.2 (by decide))
  · decide
  · decide

theorem utf8Size_of_isWordPart {c : Char} (h : isWordPart c = true) : c.utf8Size = 1 := by
  rw [isWordPart, Bool.or_eq_true] at h
  rcases h with start | digit
  · exact utf8Size_of_isWordStart start
  · exact Text.utf8Size_of_isDigit digit

theorem utf8Size_of_mem_word {c : Char} (start : isWordStart c = true) (rest : List Char) :
    ∀ d ∈ c :: rest.takeWhile isWordPart, d.utf8Size = 1 := by
  rw [List.forall_mem_cons]
  exact ⟨utf8Size_of_isWordStart start,
    fun d mem => utf8Size_of_isWordPart (List.mem_takeWhile_imp mem)⟩

theorem Operator.spelling_ascii (op : Operator) : ∀ c ∈ op.spelling.toList, c.utf8Size = 1 := by
  cases op <;> simp [Operator.spelling] <;> decide

theorem Punctuation.spelling_ascii (mark : Punctuation) :
    ∀ c ∈ mark.spelling.toList, c.utf8Size = 1 := by
  cases mark <;> simp [Punctuation.spelling] <;> decide

/-- A spelling of a symbol is that of an operator or of a punctuation mark. -/
theorem exists_of_symbol? {spelling : String} {kind : TokenKind} (h : symbol? spelling = some kind) :
    (∃ op : Operator, op.spelling = spelling ∧ kind = .operator op) ∨
      ∃ mark : Punctuation, mark.spelling = spelling ∧ kind = .punctuation mark := by
  rw [symbol?, Option.or_eq_some_iff] at h
  rcases h with found | ⟨-, found⟩
  · obtain ⟨op, ho, rfl⟩ := Option.map_eq_some_iff.1 found
    have same := List.find?_some (p := fun o : Operator => o.spelling == spelling) ho
    exact .inl ⟨op, eq_of_beq same, rfl⟩
  · obtain ⟨mark, hm, rfl⟩ := Option.map_eq_some_iff.1 found
    have same := List.find?_some (p := fun m : Punctuation => m.spelling == spelling) hm
    exact .inr ⟨mark, eq_of_beq same, rfl⟩

/-- A symbol at the front of a text is spelled by the first characters of the text. -/
theorem exists_of_symbolAt? {cs : List Char} {kind : TokenKind} {length : Nat}
    (h : symbolAt? cs = some (kind, length)) :
    ∃ front rest, cs = front ++ rest ∧ front.length = length ∧
      symbol? (String.ofList front) = some kind := by
  obtain ⟨size, -, found⟩ := List.exists_of_findSome?_eq_some h
  obtain ⟨k, hk, pair⟩ := Option.map_eq_some_iff.1 found
  obtain ⟨rfl, same⟩ := Prod.mk.inj pair
  exact ⟨cs.take size, cs.drop size, (List.take_append_drop size cs).symm, same, hk⟩

/-- Symbols are spelled with characters of one byte. -/
theorem symbol?_ascii {spelling : String} {kind : TokenKind} (h : symbol? spelling = some kind) :
    ∀ c ∈ spelling.toList, c.utf8Size = 1 := by
  rcases exists_of_symbol? h with ⟨op, rfl, -⟩ | ⟨mark, rfl, -⟩
  · exact op.spelling_ascii
  · exact mark.spelling_ascii

theorem symbolAt?_ascii {cs : List Char} {kind : TokenKind} {length : Nat}
    (h : symbolAt? cs = some (kind, length)) : AsciiFront length cs := by
  obtain ⟨front, rest, rfl, rfl, found⟩ := exists_of_symbolAt? h
  have ascii := symbol?_ascii found
  rw [String.toList_ofList] at ascii
  exact AsciiFront.of_append ascii rest

end ScriptToGo
