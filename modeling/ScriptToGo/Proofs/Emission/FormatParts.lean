import Mathlib.Algebra.Order.BigOperators.Group.List
import Mathlib.Algebra.Order.Group.Nat
import Mathlib.Data.List.Basic
import ScriptToGo.Go.Expr
import ScriptToGo.Proofs.Text.Format

/-! The formats that templates become, part by part. -/
namespace ScriptToGo
open GoLiteral (Piece)

/-- A percent sign is never written by an escape in a static text. -/
def NoEscapedPercent (body : List Char) : Prop :=
  ∀ ps, GoLiteral.pieces body = some ps → ∀ p ∈ ps, p.value = '%' → p.written = ['%']

/-- What the format of a template should ask for: the characters of its static texts, and an
argument between each two of these. -/
def templateItems (head : List Char) (texts : List (List Char)) : List FormatItem :=
  head.map .char ++ texts.flatMap fun text => .argument :: text.map .char

/-- A part of a template: a piece of static text, or an interpolation. -/
inductive FormatPart
  | static (p : Piece)
  | argument

namespace FormatPart

/-- What a part should ask for. -/
def item : FormatPart → FormatItem
  | static p => .char p.value
  | argument => .argument

/-- How a part is written in the Go literal of the format. -/
def pieces : FormatPart → List Piece
  | static p => if p.written = ['%'] then [.percent, .percent] else [p]
  | argument => [.percent, .plain 'v']

/-- The parts of a template, given the pieces of its static texts. -/
def ofTexts (head : List Piece) (texts : List (List Piece)) : List FormatPart :=
  head.map .static ++ texts.flatMap fun ps => .argument :: ps.map .static

theorem items_ofTexts (head : List Piece) (texts : List (List Piece)) :
    (ofTexts head texts).map item
      = templateItems (head.map Piece.value) (texts.map (·.map Piece.value)) := by
  rw [ofTexts, templateItems, List.map_append, List.map_flatMap, List.flatMap_map, List.map_map,
    List.map_map]
  simp only [List.map_cons, List.map_map]
  rfl

theorem mem_ofTexts {head : List Piece} {texts : List (List Piece)} {p : Piece} :
    static p ∈ ofTexts head texts ↔ p ∈ head ∨ ∃ ps ∈ texts, p ∈ ps := by
  simp [ofTexts]

theorem pieces_form {part : FormatPart} (form : ∀ p, part = static p → p.Form) :
    ∀ p ∈ part.pieces, p.Form := by
  have percent : Piece.percent.Form := .plain (by decide) (by decide)
  have verb : (Piece.plain 'v').Form := .plain (by decide) (by decide)
  cases part with
  | argument => simpa [pieces] using ⟨percent, verb⟩
  | static p =>
    rw [pieces]
    split
    · simpa using percent
    · simpa using form p rfl

/-- A part is written as what it should ask for, or as less than that. -/
theorem values_pieces {part : FormatPart} (form : ∀ p, part = static p → p.Form) :
    part.pieces.map Piece.value = part.item.written ∨
      (part.pieces.map Piece.value).length < part.item.written.length := by
  cases part with
  | argument => exact .inl rfl
  | static p =>
    rw [pieces, item, FormatItem.written]
    rcases (form p rfl).percent with rfl | other
    · exact .inl rfl
    · have escaped : p.written ≠ ['%'] := fun same => other (same ▸ List.mem_cons_self)
      rw [if_neg escaped]
      split
      · exact .inr (by decide : 1 < 2)
      · exact .inl rfl

theorem values_pieces_iff {p : Piece} (form : p.Form) :
    (static p).pieces.map Piece.value = (static p).item.written ↔
      (p.value = '%' → p.written = ['%']) := by
  rw [pieces, item, FormatItem.written]
  rcases form.percent with rfl | other
  · exact ⟨fun _ _ => rfl, fun _ => rfl⟩
  · have escaped : p.written ≠ ['%'] := fun same => other (same ▸ List.mem_cons_self)
    rw [if_neg escaped]
    by_cases percent : p.value = '%'
    · simp [percent, escaped]
    · simp [percent]

end FormatPart

theorem length_flatMap_le {α β : Type} {f g : α → List β} {xs : List α}
    (h : ∀ x ∈ xs, (f x).length ≤ (g x).length) :
    (xs.flatMap f).length ≤ (xs.flatMap g).length := by
  rw [List.length_flatMap, List.length_flatMap]
  exact List.sum_le_sum h

/-- Lists of which no part is longer in the second are the same only part by part. -/
theorem flatMap_eq_iff {α β : Type} {f g : α → List β} {xs : List α}
    (h : ∀ x ∈ xs, f x = g x ∨ (f x).length < (g x).length) :
    xs.flatMap f = xs.flatMap g ↔ ∀ x ∈ xs, f x = g x := by
  refine ⟨fun same => ?_, fun each => List.flatMap_congr each⟩
  induction xs with
  | nil => exact List.forall_mem_nil _
  | cons x rest ih =>
    obtain ⟨first, others⟩ := List.forall_mem_cons.1 h
    rw [List.flatMap_cons, List.flatMap_cons] at same
    have below : (rest.flatMap f).length ≤ (rest.flatMap g).length :=
      length_flatMap_le fun y mem =>
        (others y mem).elim (fun same => Nat.le_of_eq (congrArg List.length same)) Nat.le_of_lt
    rcases first with equal | shorter
    · rw [equal] at same
      exact List.forall_mem_cons.2 ⟨equal, ih others (List.append_cancel_left same)⟩
    · have size := congrArg List.length same
      rw [List.length_append, List.length_append] at size
      omega

/-- Static text with each of its percent signs written twice. -/
def doublePercent (text : List Char) : List Char :=
  text.flatMap fun c => if c = '%' then ['%', '%'] else [c]

theorem doublePercent_eq_self {text : List Char} (h : '%' ∉ text) : doublePercent text = text := by
  induction text with
  | nil => rfl
  | cons c rest ih =>
    obtain ⟨first, others⟩ := not_or.1 (mt List.mem_cons.2 h)
    have same := ih others
    rw [doublePercent] at same ⊢
    rw [List.flatMap_cons, if_neg (Ne.symm first), same]
    rfl

/-- Doubling the percent signs of static text doubles the pieces that are percent signs. -/
theorem doublePercent_written {ps : List Piece} (form : ∀ p ∈ ps, p.Form) :
    doublePercent (ps.flatMap Piece.written)
      = ((ps.map FormatPart.static).flatMap FormatPart.pieces).flatMap Piece.written := by
  induction ps with
  | nil => rfl
  | cons p rest ih =>
    obtain ⟨first, others⟩ := List.forall_mem_cons.1 form
    have later := ih others
    rw [doublePercent] at later
    rw [doublePercent, List.flatMap_cons, List.flatMap_append, later, List.map_cons,
      List.flatMap_cons, List.flatMap_append]
    congr 1
    rcases first.percent with rfl | other
    · rfl
    · have escaped : p.written ≠ ['%'] := fun same => other (same ▸ List.mem_cons_self)
      rw [FormatPart.pieces, if_neg escaped, List.flatMap_singleton]
      exact doublePercent_eq_self other

theorem toList_formatText (text : String) : (formatText text).toList = doublePercent text.toList := by
  rw [formatText, String.toList_ofList]
  rfl

theorem written_verb (text : String) {ps : List Piece} (form : ∀ p ∈ ps, p.Form)
    (is : text.toList = ps.flatMap Piece.written) :
    (Target.verb ++ formatText text).toList
      = ((FormatPart.argument :: ps.map .static).flatMap FormatPart.pieces).flatMap
          Piece.written := by
  rw [String.toList_append, toList_formatText, is, doublePercent_written form, List.flatMap_cons,
    List.flatMap_append]
  rfl

/-- A format is written piece by piece, as its parts are. -/
theorem toList_templateFormat {head : String} {holes : List TemplateHole} {ps : List Piece}
    {texts : List (List Piece)} (form : ∀ p ∈ ps, p.Form) (forms : ∀ ps ∈ texts, ∀ p ∈ ps, p.Form)
    (starts : head.toList = ps.flatMap Piece.written)
    (others : holes.map (·.after.toList) = texts.map (·.flatMap Piece.written)) :
    (templateFormat head holes).toList
      = ((FormatPart.ofTexts ps texts).flatMap FormatPart.pieces).flatMap Piece.written := by
  rw [templateFormat, String.toList_append, toList_formatText, starts, doublePercent_written form,
    String.toList_join, FormatPart.ofTexts, List.flatMap_append, List.flatMap_append]
  congr 1
  induction holes generalizing texts with
  | nil =>
    cases texts with
    | nil => rfl
    | cons text rest => cases others
  | cons hole rest ih =>
    cases texts with
    | nil => cases others
    | cons text more =>
      obtain ⟨here, later⟩ := List.cons.inj others
      obtain ⟨formHere, formLater⟩ := List.forall_mem_cons.1 forms
      rw [List.map_cons, List.flatMap_cons, List.flatMap_cons, List.flatMap_append,
        List.flatMap_append, written_verb hole.after formHere here, ih formLater later]

/-- What the format of a template is read as: what its parts are written as. -/
theorem decode_templateFormat {head : String} {holes : List TemplateHole} {ps : List Piece}
    {texts : List (List Piece)} (form : ∀ p ∈ ps, p.Form) (forms : ∀ ps ∈ texts, ∀ p ∈ ps, p.Form)
    (starts : head.toList = ps.flatMap Piece.written)
    (others : holes.map (·.after.toList) = texts.map (·.flatMap Piece.written)) :
    GoLiteral.decode (templateFormat head holes).toList
      = some ((FormatPart.ofTexts ps texts).flatMap (·.pieces.map Piece.value)) := by
  rw [toList_templateFormat form forms starts others, GoLiteral.decode_written, List.map_flatMap]
  intro p mem
  obtain ⟨part, isPart, inPart⟩ := List.mem_flatMap.1 mem
  refine FormatPart.pieces_form ?_ p inPart
  rintro q rfl
  rcases FormatPart.mem_ofTexts.1 isPart with inHead | ⟨text, isText, inText⟩
  · exact form q inHead
  · exact forms text isText q inText

/-- A format is read as its template is meant if and only if no percent sign is written by an
escape. -/
theorem readFormat_templateFormat_iff {head : String} {holes : List TemplateHole} {ps : List Piece}
    {texts : List (List Piece)} (form : ∀ p ∈ ps, p.Form) (forms : ∀ ps ∈ texts, ∀ p ∈ ps, p.Form)
    (starts : head.toList = ps.flatMap Piece.written)
    (others : holes.map (·.after.toList) = texts.map (·.flatMap Piece.written)) :
    (GoLiteral.decode (templateFormat head holes).toList).bind readFormat
        = some (templateItems (ps.map Piece.value) (texts.map (·.map Piece.value))) ↔
      (∀ p ∈ ps, p.value = '%' → p.written = ['%']) ∧
        ∀ ps ∈ texts, ∀ p ∈ ps, p.value = '%' → p.written = ['%'] := by
  have formOf : ∀ part ∈ FormatPart.ofTexts ps texts, ∀ p, part = .static p → p.Form := by
    rintro part mem p rfl
    rcases FormatPart.mem_ofTexts.1 mem with inHead | ⟨text, isText, inText⟩
    · exact form p inHead
    · exact forms text isText p inText
  rw [decode_templateFormat form forms starts others, Option.bind_some, readFormat_eq_some_iff,
    ← FormatPart.items_ofTexts, List.flatMap_map,
    flatMap_eq_iff fun part mem => FormatPart.values_pieces (formOf part mem)]
  constructor
  · intro each
    have static : ∀ p, FormatPart.static p ∈ FormatPart.ofTexts ps texts →
        p.value = '%' → p.written = ['%'] := fun p mem =>
      (FormatPart.values_pieces_iff (formOf _ mem p rfl)).1 (each _ mem)
    refine ⟨fun p mem => static p (FormatPart.mem_ofTexts.2 (.inl mem)), fun text isText p mem => ?_⟩
    exact static p (FormatPart.mem_ofTexts.2 (.inr ⟨text, isText, mem⟩))
  · rintro ⟨inHead, inTexts⟩ part mem
    cases part with
    | argument => rfl
    | static p =>
      refine (FormatPart.values_pieces_iff (formOf _ mem p rfl)).2 ?_
      rcases FormatPart.mem_ofTexts.1 mem with isHead | ⟨text, isText, inText⟩
      · exact inHead p isHead
      · exact inTexts text isText p inText

theorem noEscapedPercent_iff {ps : List Piece} (form : ∀ p ∈ ps, p.Form) :
    NoEscapedPercent (ps.flatMap Piece.written) ↔ ∀ p ∈ ps, p.value = '%' → p.written = ['%'] := by
  have read := GoLiteral.pieces_eq_some_iff.2 ⟨rfl, fun p mem => (form p mem).valid⟩
  refine ⟨fun h => h ps read, fun h others same => ?_⟩
  rw [read] at same
  cases same
  exact h

end ScriptToGo
