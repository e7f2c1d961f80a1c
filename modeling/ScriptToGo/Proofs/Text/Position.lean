import ScriptToGo.Text.Position
import Mathlib.Data.List.DropRight

/-! Offsets that fall between characters have a position: a line and a column, counted in the text before
them. Positions go up as offsets do, so that no two places of a text share one, and offsets inside a
character have none. -/
namespace ScriptToGo.Text

/-- An offset falls between two characters of a file, or on one of its ends. -/
def IsBoundary (source : String) (offset : Nat) : Prop := (⟨offset⟩ : String.Pos.Raw).IsValid source

/-- Characters stand at an offset of a text, whatever stands around them. -/
def StandsAt (text : List Char) (pos : Nat) (cs : List Char) : Prop :=
  ∃ before after, text = before ++ (cs ++ after) ∧ pos = byteLength before

theorem byteLength_append (front back : List Char) :
    byteLength (front ++ back) = byteLength front + byteLength back := by
  induction front with
  | nil => simp [byteLength]
  | cons c rest ih => rw [List.cons_append, byteLength, byteLength, ih, Nat.add_assoc]

theorem byteLength_ofList (cs : List Char) : (String.ofList cs).utf8ByteSize = byteLength cs := by
  induction cs with
  | nil => rfl
  | cons c rest ih =>
    rw [String.ofList_cons, String.utf8ByteSize_append, ih, String.utf8ByteSize_singleton, byteLength]

theorem byteLength_toList (text : String) : byteLength text.toList = text.utf8ByteSize := by
  rw [← byteLength_ofList, String.ofList_toList]

/-- Characters of one byte each take as many bytes as there are characters. -/
theorem byteLength_of_ascii {cs : List Char} (h : ∀ c ∈ cs, c.utf8Size = 1) :
    byteLength cs = cs.length := by
  induction cs with
  | nil => rfl
  | cons c rest ih =>
    have first := h c List.mem_cons_self
    have others := ih fun d hd => h d (List.mem_cons_of_mem c hd)
    rw [byteLength, List.length_cons, first, others, Nat.add_comm]

theorem isBoundary_iff {source : String} {offset : Nat} :
    IsBoundary source offset ↔
      ∃ before after, source.toList = before ++ after ∧ offset = byteLength before := by
  rw [IsBoundary, String.Pos.Raw.isValid_iff_exists_append]
  constructor
  · rintro ⟨s₁, s₂, rfl, h⟩
    refine ⟨s₁.toList, s₂.toList, String.toList_append, ?_⟩
    rw [← byteLength_ofList, String.ofList_toList]
    exact congrArg String.Pos.Raw.byteIdx h
  · rintro ⟨before, after, h, rfl⟩
    refine ⟨String.ofList before, String.ofList after, ?_, ?_⟩
    · rw [← String.ofList_append, ← h, String.ofList_toList]
    · rw [String.Pos.Raw.ext_iff, String.byteIdx_rawEndPos, byteLength_ofList]

namespace StandsAt

variable {text taken cs : List Char} {pos : Nat}

theorem start (text : List Char) : StandsAt text 0 text :=
  ⟨[], [], by simp, rfl⟩

/-- What follows some characters stands as many bytes further as these take. -/
theorem skip (h : StandsAt text pos (taken ++ cs)) : StandsAt text (pos + byteLength taken) cs := by
  obtain ⟨before, after, rfl, rfl⟩ := h
  exact ⟨before ++ taken, after, by simp, (byteLength_append before taken).symm⟩

theorem front (h : StandsAt text pos (taken ++ cs)) : StandsAt text pos taken := by
  obtain ⟨before, after, rfl, rfl⟩ := h
  exact ⟨before, cs ++ after, by simp, rfl⟩

theorem tail {c : Char} (h : StandsAt text pos (c :: cs)) :
    StandsAt text (pos + c.utf8Size) cs := by
  obtain ⟨before, after, rfl, rfl⟩ := h
  refine ⟨before ++ [c], after, by simp, ?_⟩
  rw [byteLength_append]
  rfl

/-- A character of one byte is followed by what stands one byte further. -/
theorem tail_ascii {c : Char} (h : StandsAt text pos (c :: cs)) (ascii : c.utf8Size = 1) :
    StandsAt text (pos + 1) cs := ascii ▸ h.tail

theorem isBoundary {source : String} (h : StandsAt source.toList pos cs) : IsBoundary source pos := by
  obtain ⟨before, after, text, rfl⟩ := h
  exact isBoundary_iff.2 ⟨before, cs ++ after, text, rfl⟩

end StandsAt

/-- Where a text is after some characters: one line further for each line end among them, and one
column further for each character behind the last line end. -/
def Position.behind (before : List Char) : Position where
  line := before.count '\n' + 1
  column := (before.rtakeWhile (· ≠ '\n')).length + 1

theorem foldl_after (before : List Char) :
    before.foldl Position.after ⟨1, 1⟩ = .behind before := by
  induction before using List.reverseRecOn with
  | nil => rfl
  | append_singleton before c ih =>
    rw [List.foldl_append, ih]
    by_cases ends : c = '\n'
    · subst ends
      simp [Position.after, Position.behind]
    · have other : '\n' ≠ c := fun same => ends same.symm
      simp [Position.after, Position.behind, ends]

theorem positionFrom_byteLength (here : Position) (before after : List Char) :
    positionFrom here (byteLength before) (before ++ after)
      = some (before.foldl Position.after here) := by
  induction before generalizing here with
  | nil => cases after <;> rfl
  | cons c before ih =>
    have size := c.utf8Size_pos
    rw [List.cons_append, positionFrom, byteLength, if_neg (by omega), if_neg (by omega),
      Nat.add_sub_cancel_left, ih, List.foldl_cons]

/-- The position of the place behind some characters of a text. -/
theorem position?_byteLength {source : String} {before after : List Char}
    (text : source.toList = before ++ after) :
    position? source (byteLength before) = some (.behind before) := by
  rw [position?, text, positionFrom_byteLength, foldl_after]

theorem exists_position {source : String} {offset : Nat} (h : IsBoundary source offset) :
    ∃ position, position? source offset = some position := by
  obtain ⟨before, after, text, rfl⟩ := isBoundary_iff.1 h
  exact ⟨_, position?_byteLength text⟩

/-- An offset falls behind the start of a character and before its end. -/
def InsideCharacter (source : String) (offset : Nat) : Prop :=
  ∃ before c after, source.toList = before ++ c :: after ∧ byteLength before < offset ∧
    offset < byteLength before + c.utf8Size

/-- A position comes before another: on an earlier line, or further left on the same line. -/
def Position.Precedes (p q : Position) : Prop :=
  p.line < q.line ∨ (p.line = q.line ∧ p.column < q.column)

namespace Position

variable {p q r : Position}

theorem Precedes.trans (first : p.Precedes q) (second : q.Precedes r) : p.Precedes r := by
  rw [Precedes] at *
  omega

theorem Precedes.ne (h : p.Precedes q) : p ≠ q := by
  rintro rfl
  rw [Precedes] at h
  omega

/-- A character more is a position further. -/
theorem precedes_after (p : Position) (c : Char) : p.Precedes (p.after c) := by
  rw [after, Precedes]
  split
  · exact .inl (Nat.lt_succ_self _)
  · exact .inr ⟨rfl, Nat.lt_succ_self _⟩

theorem precedes_foldl_after (p : Position) {cs : List Char} (some : cs ≠ []) :
    p.Precedes (cs.foldl after p) := by
  induction cs generalizing p with
  | nil => exact absurd rfl some
  | cons c rest ih =>
    rw [List.foldl_cons]
    cases rest with
    | nil => exact p.precedes_after c
    | cons d rest => exact (p.precedes_after c).trans (ih _ (List.cons_ne_nil _ _))

theorem behind_precedes (before : List Char) {more : List Char} (some : more ≠ []) :
    (behind before).Precedes (behind (before ++ more)) := by
  rw [← foldl_after (before ++ more), List.foldl_append, foldl_after]
  exact precedes_foldl_after _ some

end Position

variable {here : Position} {offset : Nat}

/-- Past the end of a text the walk stops at the end. -/
theorem positionFrom_past {cs : List Char} (past : byteLength cs ≤ offset) :
    positionFrom here offset cs = some (cs.foldl Position.after here) := by
  induction cs generalizing here offset with
  | nil => rfl
  | cons c rest ih =>
    have size := c.utf8Size_pos
    rw [byteLength] at past
    rw [positionFrom, if_neg (by omega), if_neg (by omega), ih (by omega), List.foldl_cons]

/-- The walk does not stop inside of a character. -/
theorem positionFrom_inside {before after : List Char} {c : Char} (behind : byteLength before < offset)
    (inside : offset < byteLength before + c.utf8Size) :
    positionFrom here offset (before ++ c :: after) = none := by
  induction before generalizing here offset with
  | nil =>
    rw [byteLength] at behind inside
    rw [List.nil_append, positionFrom, if_neg (by omega), if_pos (by omega)]
  | cons d before ih =>
    have size := d.utf8Size_pos
    rw [byteLength] at behind inside
    rw [List.cons_append, positionFrom, if_neg (by omega), if_neg (by omega),
      ih (by omega) (by omega)]

/-- An offset of a text stands between two characters or inside of one. -/
theorem split_or_inside {cs : List Char} (within : offset ≤ byteLength cs) :
    (∃ before after, cs = before ++ after ∧ byteLength before = offset) ∨
      ∃ before c after, cs = before ++ c :: after ∧ byteLength before < offset ∧
        offset < byteLength before + c.utf8Size := by
  induction cs generalizing offset with
  | nil =>
    rw [byteLength] at within
    exact .inl ⟨[], [], rfl, by rw [byteLength]; omega⟩
  | cons c rest ih =>
    rw [byteLength] at within
    rcases Nat.lt_or_ge offset c.utf8Size with less | enough
    · rcases Nat.eq_zero_or_pos offset with rfl | some
      · exact .inl ⟨[], c :: rest, rfl, rfl⟩
      · refine .inr ⟨[], c, rest, rfl, some, ?_⟩
        rwa [byteLength, Nat.zero_add]
    · have left : offset - c.utf8Size ≤ byteLength rest := by omega
      rcases ih left with ⟨before, after, rfl, length⟩ | ⟨before, d, after, rfl, behind, inside⟩
      · exact .inl ⟨c :: before, after, rfl, by rw [byteLength]; omega⟩
      · exact .inr ⟨c :: before, d, after, rfl, by rw [byteLength]; omega,
          by rw [byteLength]; omega⟩

variable {source : String}

/-- An offset past the end of a text counts as the end. -/
theorem position?_clamped (source : String) (offset : Nat) :
    position? source offset = position? source (min offset source.utf8ByteSize) := by
  rcases Nat.le_total offset source.utf8ByteSize with within | past
  · rw [Nat.min_eq_left within]
  · rw [← byteLength_toList] at past
    rw [← byteLength_toList, Nat.min_eq_right past, position?, position?, positionFrom_past past,
      positionFrom_past (Nat.le_refl _)]

theorem position?_inside (inside : InsideCharacter source offset) :
    position? source offset = none := by
  obtain ⟨before, c, after, text, behind, inside⟩ := inside
  rw [position?, text]
  exact positionFrom_inside behind inside

/-- Where the offset is not inside of a character, some characters end there, and the position is
counted in them. -/
theorem exists_counted (outside : ¬InsideCharacter source (min offset source.utf8ByteSize)) :
    ∃ before after, source.toList = before ++ after ∧
      byteLength before = min offset source.utf8ByteSize ∧
      position? source offset = some
        ⟨1 + before.count '\n', 1 + (before.rtakeWhile (· ≠ '\n')).length⟩ := by
  have within : min offset source.utf8ByteSize ≤ byteLength source.toList := by
    rw [byteLength_toList]
    exact Nat.min_le_right _ _
  obtain ⟨before, after, text, length⟩ := (split_or_inside within).resolve_right outside
  refine ⟨before, after, text, length, ?_⟩
  rw [position?_clamped, ← length, position?_byteLength text, Position.behind, Nat.add_comm 1,
    Nat.add_comm 1]

/-- Of two places in a text the first one has less text before it. -/
theorem exists_between {first second : Nat} (h : IsBoundary source first)
    (h' : IsBoundary source second) (less : first < second) :
    ∃ before between after, source.toList = before ++ (between ++ after) ∧ between ≠ [] ∧
      first = byteLength before ∧ second = byteLength (before ++ between) := by
  obtain ⟨before, after, text, rfl⟩ := isBoundary_iff.1 h
  obtain ⟨before', after', text', rfl⟩ := isBoundary_iff.1 h'
  rcases List.append_eq_append_iff.1 (text.symm.trans text') with
    ⟨between, rfl, rfl⟩ | ⟨between, rfl, rfl⟩
  · refine ⟨before, between, after', text, ?_, rfl, rfl⟩
    rintro rfl
    rw [List.append_nil] at less
    exact absurd less (Nat.lt_irrefl _)
  · rw [byteLength_append] at less
    omega

theorem position?_precedes {first second : Nat} (h : IsBoundary source first)
    (h' : IsBoundary source second) (less : first < second) : ∃ p q,
      position? source first = some p ∧ position? source second = some q ∧ p.Precedes q := by
  obtain ⟨before, between, after, text, some, rfl, rfl⟩ := exists_between h h' less
  refine ⟨_, _, position?_byteLength text, ?_, Position.behind_precedes before some⟩
  rw [← List.append_assoc] at text
  exact position?_byteLength text

/-- Places of a text that have the same position are the same. -/
theorem eq_of_position? {first second : Nat} (h : IsBoundary source first)
    (h' : IsBoundary source second) (same : position? source first = position? source second) :
    first = second := by
  rcases Nat.lt_trichotomy first second with less | rfl | more
  · obtain ⟨p, q, left, right, precedes⟩ := position?_precedes h h' less
    exact absurd (Option.some.inj (left.symm.trans (same.trans right))) precedes.ne
  · rfl
  · obtain ⟨q, p, left, right, precedes⟩ := position?_precedes h' h more
    exact absurd (Option.some.inj (left.symm.trans (same.symm.trans right))) precedes.ne

/-- An offset, counted as the end if it is past that, has no position just if it falls inside of a
character. Else its line is one more than the number of line ends before it, and its column is one
more than the number of characters behind the last of these. From one place between characters to a
later one the position goes up, so that no two places share one. -/
theorem positions_ascend (source : String) :
    (∀ offset, position? source offset = none ↔
      InsideCharacter source (min offset source.utf8ByteSize)) ∧
    (∀ offset, ¬InsideCharacter source (min offset source.utf8ByteSize) →
      ∃ before after, source.toList = before ++ after ∧
        byteLength before = min offset source.utf8ByteSize ∧
        position? source offset = some
          ⟨1 + before.count '\n', 1 + (before.rtakeWhile (· ≠ '\n')).length⟩) ∧
    (∀ first second, IsBoundary source first → IsBoundary source second → first < second →
      ∃ p q, position? source first = some p ∧ position? source second = some q ∧ p.Precedes q) ∧
    ∀ first second, IsBoundary source first → IsBoundary source second →
      position? source first = position? source second → first = second := by
  refine ⟨fun offset => ⟨fun nowhere => ?_, fun inside => ?_⟩, fun _ => exists_counted,
    fun _ _ h h' => position?_precedes h h', fun _ _ h h' => eq_of_position? h h'⟩
  · by_contra outside
    obtain ⟨_, _, _, _, found⟩ := exists_counted outside
    rw [nowhere] at found
    cases found
  · rw [position?_clamped]
    exact position?_inside inside

/-- In a text of two lines there is no position inside of the first letter, and the place behind the
line end is at the start of the second line. -/
theorem umlauts_ascend :
    position? "ä\nö" 1 = none ∧ InsideCharacter "ä\nö" (min 1 "ä\nö".utf8ByteSize) ∧
      ¬InsideCharacter "ä\nö" (min 3 "ä\nö".utf8ByteSize) ∧ position? "ä\nö" 3 = some ⟨2, 1⟩ ∧
      IsBoundary "ä\nö" 2 ∧ IsBoundary "ä\nö" 3 ∧
      ∃ p q, position? "ä\nö" 2 = some p ∧ position? "ä\nö" 3 = some q ∧ p.Precedes q := by
  obtain ⟨nowhere, -, ascend, -⟩ := positions_ascend "ä\nö"
  have inner : position? "ä\nö" 1 = none := by decide +kernel
  have second : position? "ä\nö" 3 = some ⟨2, 1⟩ := by decide +kernel
  have start : IsBoundary "ä\nö" 2 := isBoundary_iff.2 ⟨['ä'], ['\n', 'ö'], by decide +kernel, rfl⟩
  have next : IsBoundary "ä\nö" 3 := isBoundary_iff.2 ⟨['ä', '\n'], ['ö'], by decide +kernel, rfl⟩
  refine ⟨inner, (nowhere 1).1 inner, fun inside => ?_, second, start, next,
    ascend 2 3 start next (by decide)⟩
  rw [(nowhere 3).2 inside] at second
  cases second

end ScriptToGo.Text
