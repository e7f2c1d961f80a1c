import ScriptToGo.Output.TextTree

/-! What is done to a text keeps its slots where they are. -/
namespace ScriptToGo

/-- A segment without what is in its slot. -/
def Segment.bare : Segment → Segment
  | .line text => .line text
  | .slot _ => .slot (.empty 0 "")

@[simp] theorem Segment.bare_slot (t : TextTree) : (slot t).bare = slot (.empty 0 "") := rfl

@[simp] theorem Segment.bare_bare (s : Segment) : s.bare.bare = s.bare := by
  cases s <;> rfl

/-- Segments are the same if they are the same in what they hold. -/
theorem Segment.eq_of_bare {a b : Segment} (bare : a.bare = b.bare)
    (content : ∀ t, a = .slot t ↔ b = .slot t) : a = b := by
  cases a with
  | line text =>
    cases b with
    | line text' => exact congrArg Segment.line (Segment.line.inj bare)
    | slot t => cases bare
  | slot t => exact ((content t).1 rfl).symm

/-- What is done to a text at once. -/
inductive Edit
  | append (s : String)
  | appendLine (s : String)
  | newLine
  | removeLine
  | indent
  | unindent
  | reserve
deriving DecidableEq

/-- A reserved slot is given out. -/
def Edit.apply : Edit → TextTree → Option SlotId × TextTree
  | append s, t => (none, t.append s)
  | appendLine s, t => (none, t.appendLine s)
  | newLine, t => (none, t.newLine)
  | removeLine, t => (none, t.removeLine)
  | indent, t => (none, t.indent)
  | unindent, t => (none, t.unindent)
  | reserve, t => (some t.reserve.1, t.reserve.2)

namespace TextTree

variable {t content : TextTree} {id : SlotId}

theorem slot_eq (h : t.segments[id.index]? = some (.slot content)) : t.slot id = .ok content := by
  rw [slot, h]

theorem segment_of_slot (h : t.slot id = .ok content) :
    t.segments[id.index]? = some (.slot content) := by
  rw [slot] at h
  split at h
  · next eq => rw [eq, Except.ok.inj h]
  · cases h

theorem slot_eq_error (h : ∀ content, t.segments[id.index]? ≠ some (.slot content)) :
    t.slot id = .error .foreignSlot := by
  rw [slot]
  split
  · next eq => exact absurd eq (h _)
  · rfl

theorem slot_eq_error_of_ne_ok (h : ∀ content, t.slot id ≠ .ok content) :
    t.slot id = .error .foreignSlot :=
  slot_eq_error fun content eq => h content (slot_eq eq)

theorem fill_eq (h : t.segments[id.index]? = some (.slot content)) (filling : TextTree) :
    t.fill id filling
      = .ok (mk (t.segments.set id.index (.slot filling)) t.openLine t.depth t.unit) := by
  rw [fill, slot_eq h]
  rfl

theorem take_eq (h : t.segments[id.index]? = some (.slot content)) :
    t.take id = .ok (content,
      mk (t.segments.set id.index (.slot (empty content.depth content.unit)))
        t.openLine t.depth t.unit) := by
  rw [take, slot_eq h]
  change (t.fill id _ >>= _) = _
  rw [fill_eq h]
  rfl

theorem slot_congr {t' : TextTree} (h : t.segments[id.index]? = t'.segments[id.index]?) :
    t.slot id = t'.slot id := by
  rw [slot, slot, h]

/-- A closed line is no slot, and it is behind the slots that are there. -/
theorem slot_concat_line {t' : TextTree} {text : String}
    (h : t'.segments = t.segments ++ [.line text]) : t'.slot id = t.slot id := by
  rcases Nat.lt_trichotomy id.index t.segments.length with lt | eq | gt
  · exact slot_congr (by rw [h, List.getElem?_append_left lt])
  · rw [slot_eq_error (by simp [h, eq]), slot_eq_error (by simp [eq])]
  · exact slot_congr (by
      rw [List.getElem?_eq_none (Nat.le_of_lt gt), List.getElem?_eq_none (by simp [h]; omega)])

theorem slot_newLine : t.newLine.slot id = t.slot id := slot_concat_line rfl

theorem slot_appendLine (s : String) : (t.appendLine s).slot id = t.slot id := by
  rw [appendLine]
  split
  · exact slot_newLine
  · exact slot_newLine

theorem slot_removeLine : t.removeLine.slot id = t.slot id := by
  rw [removeLine]
  split
  · rfl
  · split
    · next text last =>
      obtain ⟨before, eq⟩ := List.getLast?_eq_some_iff.1 last
      have dropped : t.segments = t.segments.dropLast ++ [.line text] := by
        rw [eq, List.dropLast_concat]
      exact (slot_concat_line dropped).symm
    · rfl

/-- The text that a slot is put behind. -/
def closeLine (t : TextTree) : TextTree := if t.openLine = "" then t else t.newLine

theorem slot_closeLine : t.closeLine.slot id = t.slot id := by
  rw [closeLine]
  split
  · rfl
  · exact slot_newLine

theorem reserve_eq (t : TextTree) :
    t.reserve = (⟨t.closeLine.segments.length⟩,
      mk (t.closeLine.segments ++ [.slot (empty t.depth t.unit)]) "" t.depth t.unit) := by
  rw [reserve, closeLine]
  split <;> rfl

/-- An edit changes no slot. The slot that it gives out is empty, at the depth of the text. -/
theorem slot_apply (e : Edit) (t : TextTree) (id : SlotId) :
    (e.apply t).2.slot id
      = if (e.apply t).1 = some id then .ok (empty t.depth t.unit) else t.slot id := by
  cases e with
  | append s => rfl
  | appendLine s => exact slot_appendLine s
  | newLine => exact slot_newLine
  | removeLine => exact slot_removeLine
  | indent => rfl
  | unindent => rfl
  | reserve =>
    simp only [Edit.apply, reserve_eq, Option.some.injEq]
    obtain ⟨i⟩ := id
    rw [← slot_closeLine (t := t)]
    rcases Nat.lt_trichotomy i t.closeLine.segments.length with lt | rfl | gt
    · rw [if_neg (by simp; omega)]
      exact slot_congr (List.getElem?_append_left lt)
    · rw [if_pos rfl]
      exact slot_eq (List.getElem?_concat_length ..)
    · rw [if_neg (by simp; omega)]
      refine slot_congr ?_
      rw [List.getElem?_eq_none (Nat.le_of_lt gt)]
      refine List.getElem?_eq_none (Nat.le_trans (Nat.le_of_eq ?_) (Nat.succ_le_of_lt gt))
      exact List.length_append

/-- The slot that an edit gives out was none before. -/
theorem slot_of_apply {e : Edit} (h : (e.apply t).1 = some id) :
    t.slot id = .error .foreignSlot := by
  cases e with
  | reserve =>
    simp only [Edit.apply, reserve_eq, Option.some.injEq] at h
    subst h
    rw [← slot_closeLine]
    exact slot_eq_error (by simp)
  | _ => cases h

theorem slot_apply_of_ok (e : Edit) (h : t.slot id = .ok content) :
    (e.apply t).2.slot id = .ok content := by
  rw [slot_apply, if_neg, h]
  intro given
  cases (slot_of_apply given).symm.trans h

/-- A text without what is in its slots. -/
def frame (t : TextTree) : TextTree :=
  mk (t.segments.map Segment.bare) t.openLine t.depth t.unit

theorem frame_frame (t : TextTree) : t.frame.frame = t.frame := by
  simp [frame, segments, openLine, depth, unit]

theorem frame_newLine (t : TextTree) : t.frame.newLine = t.newLine.frame := by
  simp [frame, newLine, segments, openLine, depth, unit, Segment.bare]

theorem frame_appendLine (s : String) (t : TextTree) :
    t.frame.appendLine s = (t.appendLine s).frame := by
  rw [appendLine, appendLine]
  split
  · exact frame_newLine t
  · exact frame_newLine (t.append s)

theorem frame_removeLine (t : TextTree) : t.frame.removeLine = t.removeLine.frame := by
  cases t with
  | mk segments openLine depth unit =>
    rcases List.eq_nil_or_concat segments with rfl | ⟨before, last, rfl⟩
    · by_cases h : openLine = "" <;>
        simp [frame, removeLine, TextTree.segments, TextTree.openLine, TextTree.depth,
          TextTree.unit, h]
    · by_cases h : openLine = "" <;> cases last <;>
        simp [frame, removeLine, TextTree.segments, TextTree.openLine, TextTree.depth,
          TextTree.unit, Segment.bare, h]

theorem frame_closeLine (t : TextTree) : t.frame.closeLine = t.closeLine.frame := by
  rw [closeLine, closeLine, frame_newLine]
  exact (apply_ite frame (t.openLine = "") t t.newLine).symm

/-- What an edit does, and what it gives out, is the same whatever is in the slots. -/
theorem apply_frame (e : Edit) (t : TextTree) :
    (e.apply t.frame).1 = (e.apply t).1 ∧ (e.apply t.frame).2.frame = (e.apply t).2.frame := by
  cases e with
  | append s => exact ⟨rfl, frame_frame (t.append s)⟩
  | appendLine s =>
    refine ⟨rfl, ?_⟩
    simp only [Edit.apply, frame_appendLine, frame_frame]
  | newLine =>
    refine ⟨rfl, ?_⟩
    simp only [Edit.apply, frame_newLine, frame_frame]
  | removeLine =>
    refine ⟨rfl, ?_⟩
    simp only [Edit.apply, frame_removeLine, frame_frame]
  | indent => exact ⟨rfl, frame_frame t.indent⟩
  | unindent => exact ⟨rfl, frame_frame t.unindent⟩
  | reserve =>
    simp only [Edit.apply, reserve_eq, frame_closeLine]
    constructor
    · simp [frame, segments]
    · change mk ((t.closeLine.segments.map Segment.bare ++ [_]).map Segment.bare) "" t.depth t.unit
        = mk ((t.closeLine.segments ++ [_]).map Segment.bare) "" t.depth t.unit
      simp

theorem margin_of_frame {a b : TextTree} (frames : a.frame = b.frame) :
    a.depth = b.depth ∧ a.unit = b.unit := by
  obtain ⟨-, -, depths, units⟩ := mk.inj frames
  exact ⟨depths, units⟩

/-- Texts are the same if they only might differ in their slots, but do not. -/
theorem eq_of_frame {a b : TextTree} (frames : a.frame = b.frame)
    (slots : ∀ id, a.slot id = b.slot id) : a = b := by
  cases a with
  | mk segments openLine depth unit =>
  cases b with
  | mk segments' openLine' depth' unit' =>
  obtain ⟨bare, openLines, depths, units⟩ := mk.inj frames
  obtain rfl : openLine = openLine' := openLines
  obtain rfl : depth = depth' := depths
  obtain rfl : unit = unit' := units
  refine congrArg (mk · openLine depth unit) (List.ext_getElem? fun i => ?_)
  have bare : segments[i]?.map Segment.bare = segments'[i]?.map Segment.bare := by
    rw [← List.getElem?_map, ← List.getElem?_map]
    exact congrArg (·[i]?) bare
  have content (t : TextTree) : segments[i]? = some (.slot t) ↔ segments'[i]? = some (.slot t) :=
    ⟨fun h => segment_of_slot ((slots ⟨i⟩).symm.trans (slot_eq h)),
      fun h => segment_of_slot ((slots ⟨i⟩).trans (slot_eq h))⟩
  cases left : segments[i]? with
  | none =>
    rw [left] at bare
    exact (Option.map_eq_none_iff.1 bare.symm).symm
  | some s =>
    rw [left] at bare content
    obtain ⟨s', right, bare⟩ := Option.map_eq_some_iff.1 bare.symm
    rw [right] at content ⊢
    rw [Segment.eq_of_bare bare.symm fun t => by simpa using content t]

/-- A slot can be filled if it can be looked into. -/
theorem fill_of_slot (h : t.slot id = .ok content) (filling : TextTree) :
    ∃ t', t.fill id filling = .ok t' ∧ t'.frame = t.frame ∧ t'.slot id = .ok filling
      ∧ ∀ other, other ≠ id → t'.slot other = t.slot other := by
  have segment := segment_of_slot h
  have lt := (List.getElem?_eq_some_iff.1 segment).1
  refine ⟨_, fill_eq segment filling, ?_, ?_, fun other ne => ?_⟩
  · have bare : (t.segments.set id.index (.slot filling)).map Segment.bare
        = t.segments.map Segment.bare := by
      refine List.ext_getElem? fun i => ?_
      rw [List.getElem?_map, List.getElem?_map, List.getElem?_set]
      split
      · next eq =>
        rw [← eq, segment]
        rfl
      · rfl
    rw [frame, frame, ← bare]
    rfl
  · exact slot_eq (List.getElem?_set_self lt)
  · refine slot_congr (List.getElem?_set_ne fun eq => ne ?_)
    cases id; cases other; simp_all

end TextTree

end ScriptToGo
