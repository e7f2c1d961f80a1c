import ScriptToGo.Proofs.Token.Ascii
import ScriptToGo.Token.Number

/-! Where a numeric literal ends, and the longest operator or punctuation mark at the front of a text. -/
namespace ScriptToGo
open Text (isDigit)

theorem isWordPart_of_isDigit {c : Char} (h : isDigit c = true) : isWordPart c = true := by
  rw [isWordPart, h, Bool.or_true]

/-- What is left after a run does not go on with it. -/
theorem any_head?_dropWhile {α : Type} (p : α → Bool) (xs : List α) :
    (xs.dropWhile p).head?.any p = false := by
  have stop := List.head?_dropWhile_not p xs
  cases left : xs.dropWhile p with
  | nil => rfl
  | cons x rest =>
    rw [left] at stop
    exact stop

namespace NumberScan

theorem digitRun_stops (isDigit : Char → Bool) (cs : List Char) :
    (digitRun isDigit cs).2.head?.any isDigit = false := by
  have stop := any_head?_dropWhile (fun c => isDigit c || c == '_') cs
  rw [digitRun]
  generalize cs.dropWhile _ = left at stop ⊢
  cases left with
  | nil => rfl
  | cons c rest => exact (Bool.or_eq_false_iff.1 stop).1

theorem finish_stops {chars rest : List Char} (noDigit : rest.head?.any isDigit = false)
    (clean : (finish chars rest).fault? = none) :
    (finish chars rest).rest.head?.any isWordPart = false := by
  rw [finish] at clean ⊢
  split at clean
  · cases clean
  next noStart =>
    rw [if_neg noStart]
    cases rest with
    | nil => rfl
    | cons c rest =>
      rw [Bool.not_eq_true] at noStart
      exact Bool.or_eq_false_iff.2 ⟨noStart, noDigit⟩

theorem isHexDigit_of_isDigit {c : Char} (h : isDigit c = true) : Escape.isHexDigit c = true := by
  rw [isDigit, Bool.and_eq_true, decide_eq_true_eq, decide_eq_true_eq] at h
  rw [Escape.isHexDigit, Escape.hexValue?, if_pos h]
  rfl

theorem radix_stops {first : Char} {rest : List Char} (clean : (radix first rest).fault? = none) :
    (radix first rest).rest.head?.any isWordPart = false := by
  refine finish_stops ?_ clean
  have stop := digitRun_stops Escape.isHexDigit (rest.drop 1)
  rw [digitRun] at stop
  generalize (rest.drop 1).dropWhile _ = left at stop ⊢
  cases left with
  | nil => rfl
  | cons c more =>
    cases digit : isDigit c with
    | false => exact digit
    | true =>
      have hex : Escape.isHexDigit c = false := stop
      rw [isHexDigit_of_isDigit digit] at hex
      cases hex

theorem exponent_stops {chars rest : List Char} (clean : (exponent chars rest).fault? = none) :
    (exponent chars rest).rest.head?.any isWordPart = false := by
  rw [exponent] at clean ⊢
  dsimp only at clean ⊢
  split at clean
  next digits =>
    rw [if_pos digits]
    exact finish_stops (digitRun_stops _ _) clean
  · cases clean

theorem mantissa_stops (first : Char) (rest : List Char) :
    (mantissa first rest).2.head?.any isDigit = false := by
  rw [mantissa]
  split
  · exact digitRun_stops _ _
  · dsimp only
    split
    · exact digitRun_stops _ _
    · exact digitRun_stops _ _

/-- Neither a letter nor a digit follows a literal that is read without fault. -/
theorem read_stops {first : Char} {rest : List Char} (clean : (read first rest).fault? = none) :
    (read first rest).rest.head?.any isWordPart = false := by
  have whole := mantissa_stops first rest
  rw [read] at clean ⊢
  split at clean
  next mark =>
    rw [if_pos mark]
    exact radix_stops clean
  next noMark =>
    rw [if_neg noMark]
    dsimp only at clean ⊢
    split at clean
    · split at clean
      next exp =>
        rw [if_pos exp]
        exact exponent_stops clean
      next noExp =>
        rw [if_neg noExp]
        exact finish_stops whole clean
    · exact finish_stops whole clean

end NumberScan

/-- The spellings of operators and of punctuation marks. -/
def IsSymbol (spelling : List Char) : Prop :=
  (∃ op : Operator, op.spelling.toList = spelling) ∨
    ∃ mark : Punctuation, mark.spelling.toList = spelling

variable {cs front : List Char} {kind : TokenKind} {length : Nat}

theorem isSymbol_of_symbol? (h : symbol? (String.ofList front) = some kind) : IsSymbol front := by
  rcases exists_of_symbol? h with ⟨op, same, -⟩ | ⟨mark, same, -⟩
  · exact .inl ⟨op, by rw [same, String.toList_ofList]⟩
  · exact .inr ⟨mark, by rw [same, String.toList_ofList]⟩

theorem IsSymbol.exists_symbol? (h : IsSymbol front) :
    ∃ kind, symbol? (String.ofList front) = some kind := by
  rw [← Option.isSome_iff_exists]
  rcases h with ⟨op, rfl⟩ | ⟨mark, rfl⟩
  · rw [String.ofList_toList]
    cases op <;> decide
  · rw [String.ofList_toList]
    cases mark <;> decide

theorem IsSymbol.length_le (h : IsSymbol front) : 0 < front.length ∧ front.length ≤ 3 := by
  rcases h with ⟨op, rfl⟩ | ⟨mark, rfl⟩
  · cases op <;> decide
  · cases mark <;> decide

/-- The characters that symbols are spelled with. -/
def symbolChars : List Char :=
  ['+', '-', '*', '/', '%', '<', '=', '>', '!', '&', '|', '.', ',', ':', ';', '?', '(', ')', '[',
    ']', '\x7b', '\x7d']

theorem IsSymbol.mem_symbolChars (h : IsSymbol front) : ∀ c ∈ front, c ∈ symbolChars := by
  have all : front.all (symbolChars.contains ·) = true := by
    rcases h with ⟨op, rfl⟩ | ⟨mark, rfl⟩
    · cases op <;> decide
    · cases mark <;> decide
  exact fun c mem => List.contains_iff_mem.1 (List.all_eq_true.1 all c mem)

/-- A symbol of this kind and length is in front of a text, and no longer one is. -/
structure LongestSymbol (cs : List Char) (kind : TokenKind) (length : Nat) : Prop where
  spelled : ∃ front rest, cs = front ++ rest ∧ front.length = length ∧
    symbol? (String.ofList front) = some kind
  longest : ∀ front, IsSymbol front → front <+: cs → front.length ≤ length

theorem LongestSymbol.unique {other : TokenKind} {otherLength : Nat}
    (h : LongestSymbol cs kind length) (h' : LongestSymbol cs other otherLength) :
    kind = other ∧ length = otherLength := by
  obtain ⟨front, rest, rfl, rfl, spelled⟩ := h.spelled
  obtain ⟨front', rest', whole, rfl, spelled'⟩ := h'.spelled
  have below := h'.longest front (isSymbol_of_symbol? spelled) (List.prefix_append front rest)
  have above := h.longest front' (isSymbol_of_symbol? spelled') ⟨rest', whole.symm⟩
  have same := Nat.le_antisymm below above
  obtain ⟨rfl, -⟩ := List.append_inj whole same
  exact ⟨Option.some.inj (spelled.symm.trans spelled'), rfl⟩

theorem symbolAt?_longest (h : symbolAt? cs = some (kind, length)) :
    LongestSymbol cs kind length := by
  refine ⟨exists_of_symbolAt? h, fun front symbol inFront => ?_⟩
  obtain ⟨kind', spelled⟩ := symbol.exists_symbol?
  obtain ⟨some, few⟩ := symbol.length_le
  obtain ⟨longer, size, shorter, sizes, found, none⟩ := List.findSome?_eq_some_iff.1 h
  obtain ⟨_, -, pair⟩ := Option.map_eq_some_iff.1 found
  obtain ⟨-, rfl⟩ := Prod.mk.inj pair
  have fits := inFront.length_le
  -- the sizes are tried from the longest on, and that of `front` has not failed
  have tried : front.length ∈ longer ++ size :: shorter := by
    rw [← sizes]
    simp only [List.mem_cons, List.not_mem_nil, or_false]
    omega
  have falling : (longer ++ size :: shorter).Pairwise (· > ·) := by
    rw [← sizes]
    decide
  rcases List.mem_append.1 tried with earlier | later
  · have failed := none _ earlier
    dsimp only at failed
    rw [← List.prefix_iff_eq_take.1 inFront, spelled] at failed
    cases failed
  · rcases List.mem_cons.1 later with same | later
    · rw [List.length_take, same]
      omega
    · have smaller := (List.pairwise_cons.1 (List.pairwise_append.1 falling).2.1).1 _ later
      rw [List.length_take]
      omega

/-- A symbol is found as long as it goes on. -/
theorem symbolAt?_eq_some_iff : symbolAt? cs = some (kind, length) ↔ LongestSymbol cs kind length := by
  refine ⟨symbolAt?_longest, fun longest => ?_⟩
  cases found : symbolAt? cs with
  | none =>
    obtain ⟨front, rest, rfl, rfl, spelled⟩ := longest.spelled
    obtain ⟨some, few⟩ := (isSymbol_of_symbol? spelled).length_le
    have size : front.length ∈ [3, 2, 1] := by
      simp only [List.mem_cons, List.not_mem_nil, or_false]
      omega
    have failed := List.findSome?_eq_none_iff.1 found _ size
    dsimp only at failed
    rw [List.take_left, spelled] at failed
    cases failed
  | some pair =>
    obtain ⟨rfl, rfl⟩ := longest.unique (symbolAt?_longest found)
    rfl

/-- Operators are tried with longer spellings before shorter ones, and none is left out. -/
theorem byLength_falls : Operator.byLength.Perm Operator.all ∧
    (Operator.byLength.map (·.spelling.length)).Pairwise (· ≥ ·) := by
  decide

/-- The symbols in the order in which they are tried, each with its token. -/
def symbolsInOrder : List (List Char × TokenKind) :=
  Operator.byLength.map (fun op => (op.spelling.toList, .operator op)) ++
    Punctuation.all.map fun mark => (mark.spelling.toList, .punctuation mark)

theorem IsSymbol.mem_symbolsInOrder (h : IsSymbol front) : ∃ kind, (front, kind) ∈ symbolsInOrder := by
  rcases h with ⟨op, rfl⟩ | ⟨mark, rfl⟩
  · have listed : op ∈ Operator.byLength := by cases op <;> decide
    exact ⟨.operator op, List.mem_append_left _ (List.mem_map_of_mem listed)⟩
  · have listed : mark ∈ Punctuation.all := by cases mark <;> decide
    exact ⟨.punctuation mark, List.mem_append_right _ (List.mem_map_of_mem listed)⟩

theorem symbol?_of_mem {entry : List Char × TokenKind} (h : entry ∈ symbolsInOrder) :
    symbol? (String.ofList entry.1) = some entry.2 := by
  rcases List.mem_append.1 h with listed | listed
  · obtain ⟨op, -, rfl⟩ := List.mem_map.1 listed
    rw [String.ofList_toList]
    cases op <;> rfl
  · obtain ⟨mark, -, rfl⟩ := List.mem_map.1 listed
    rw [String.ofList_toList]
    cases mark <;> rfl

/-- No symbol comes before a longer one that starts with the same character. -/
theorem symbolsInOrder_fall : symbolsInOrder.Pairwise fun first later =>
    first.1.head? = later.1.head? → later.1.length ≤ first.1.length := by
  decide +kernel

theorem head?_eq_of_front (h : front <+: cs) (some : 0 < front.length) : front.head? = cs.head? := by
  obtain ⟨rest, rfl⟩ := h
  rw [List.head?_append_of_ne_nil _ (List.ne_nil_of_length_pos some)]

/-- The first symbol that is there is the longest. -/
theorem symbolAt?_eq_find (cs : List Char) :
    symbolAt? cs = (symbolsInOrder.find? fun entry => entry.1.isPrefixOf cs).map
      fun entry => (entry.2, entry.1.length) := by
  cases found : symbolsInOrder.find? fun entry => entry.1.isPrefixOf cs with
  | none =>
    cases longest : symbolAt? cs with
    | none => rfl
    | some pair =>
      obtain ⟨⟨front, rest, rfl, -, spelled⟩, -⟩ := symbolAt?_longest longest
      obtain ⟨kind, listed⟩ := (isSymbol_of_symbol? spelled).mem_symbolsInOrder
      exact absurd (List.isPrefixOf_iff_prefix.2 (List.prefix_append front rest))
        (List.find?_eq_none.1 found _ listed)
  | some entry =>
    obtain ⟨inFront, before, after, order, earlier⟩ := List.find?_eq_some_iff_append.1 found
    have listed : entry ∈ symbolsInOrder := order ▸ List.mem_append_right _ List.mem_cons_self
    obtain ⟨rest, whole⟩ := List.isPrefixOf_iff_prefix.1 inFront
    refine symbolAt?_eq_some_iff.2 ⟨⟨entry.1, rest, whole.symm, rfl, symbol?_of_mem listed⟩, ?_⟩
    intro front symbol there
    obtain ⟨kind, place⟩ := symbol.mem_symbolsInOrder
    rw [order, List.mem_append, List.mem_cons] at place
    rcases place with tried | same | later
    · have failed : (!front.isPrefixOf cs) = true := earlier _ tried
      rw [List.isPrefixOf_iff_prefix.2 there] at failed
      cases failed
    · exact Nat.le_of_eq (congrArg (·.1.length) same)
    · have fall := order ▸ symbolsInOrder_fall
      have isSymbol := isSymbol_of_symbol? (symbol?_of_mem listed)
      refine (List.pairwise_cons.1 (List.pairwise_append.1 fall).2.1).1 _ later ?_
      rw [head?_eq_of_front ⟨rest, whole⟩ isSymbol.length_le.1,
        head?_eq_of_front there symbol.length_le.1]

/-- A text that goes on with a character of no symbol starts with the same symbol. -/
theorem symbolAt?_append (more : List Char) (h : symbolAt? cs = some (kind, length)) :
    symbolAt? (cs ++ '\n' :: more) = some (kind, length) := by
  obtain ⟨⟨front, rest, whole, size, spelled⟩, longest⟩ := symbolAt?_eq_some_iff.1 h
  refine symbolAt?_eq_some_iff.2 ⟨⟨front, rest ++ '\n' :: more, ?_, size, spelled⟩, ?_⟩
  · rw [whole, List.append_assoc]
  · intro other symbol inFront
    have noLineEnd : '\n' ∉ other := fun mem => absurd (symbol.mem_symbolChars _ mem) (by decide)
    obtain ⟨left, whole⟩ := inFront
    rcases List.append_eq_append_iff.1 whole with ⟨beyond, inside, -⟩ | ⟨beyond, outside, beginning⟩
    · exact longest other symbol ⟨beyond, inside.symm⟩
    · cases beyond with
      | nil =>
        rw [List.append_nil] at outside
        exact longest other symbol (outside ▸ List.prefix_refl _)
      | cons c others =>
        obtain ⟨rfl, -⟩ := List.cons.inj beginning
        exact absurd (outside ▸ List.mem_append_right cs List.mem_cons_self) noLineEnd

end ScriptToGo
