import ScriptToGo.Proofs.Emission.Lines
import ScriptToGo.Proofs.Output.Growth

/-! Where a text stands in the text around it. What is in a slot is on lines of its own, between two
texts that stay the same whatever is done in the slot. -/
namespace ScriptToGo

/-- A text that leaves no line open. -/
def EndsClosed (s : String) : Prop := s = "" ∨ ∃ lines, s = lines ++ "\n"

theorem EndsClosed.append {s s' : String} (h : EndsClosed s) (h' : EndsClosed s') :
    EndsClosed (s ++ s') := by
  rcases h' with rfl | ⟨lines, rfl⟩
  · rwa [String.append_empty]
  · exact .inr ⟨s ++ lines, (String.append_assoc ..).symm⟩

namespace TextTree

/-- What is written for the open line of a text in a slot. -/
def lastLine (t : TextTree) : String := if t.openLine = "" then "" else t.openLine ++ "\n"

theorem endsClosed_lastLine (t : TextTree) : EndsClosed t.lastLine := by
  rw [lastLine]
  split
  · exact .inl rfl
  · exact .inr ⟨_, rfl⟩

theorem lastLine_eq_empty {t : TextTree} : t.lastLine = "" ↔ t.openLine = "" := by
  rw [lastLine]
  split
  next none => simp [none]
  next some => simp [some]

end TextTree

namespace Segment

theorem render_slot (t : TextTree) : (slot t).render = renderAll t.segments ++ t.lastLine := by
  cases t
  rfl

mutual

theorem endsClosed_render : ∀ s : Segment, EndsClosed s.render
  | .line text => .inr ⟨text, rfl⟩
  | .slot (.mk segments openLine depth unit) => by
    rw [render_slot]
    exact (endsClosed_renderAll segments).append (TextTree.endsClosed_lastLine _)

theorem endsClosed_renderAll : ∀ segments : List Segment, EndsClosed (renderAll segments)
  | [] => .inl rfl
  | s :: rest => (endsClosed_render s).append (endsClosed_renderAll rest)

end

mutual

theorem isEmpty_iff : ∀ s : Segment, s.isEmpty = true ↔ s.render = ""
  | .line text => by simp [isEmpty, render]
  | .slot (.mk segments openLine depth unit) => by
    rw [render_slot, String.append_eq_empty_iff, TextTree.lastLine_eq_empty, isEmpty,
      Bool.and_eq_true, allEmpty_iff segments, beq_iff_eq, and_comm]
    rfl

theorem allEmpty_iff : ∀ segments : List Segment,
    allEmpty segments = true ↔ renderAll segments = ""
  | [] => by simp [allEmpty, renderAll]
  | s :: rest => by
    rw [allEmpty, renderAll, Bool.and_eq_true, String.append_eq_empty_iff, isEmpty_iff s,
      allEmpty_iff rest]

end

end Segment

namespace TextTree

variable {t t' t'' content filling : TextTree} {id : SlotId} {path : List SlotId}

theorem isEmpty_iff (t : TextTree) : t.isEmpty = true ↔ t.render = "" := by
  rw [isEmpty, render, Bool.and_eq_true, Segment.allEmpty_iff, beq_iff_eq,
    String.append_eq_empty_iff, and_comm]

/-- A text in a slot is empty if nothing is seen of it from outside. -/
theorem render_slot_eq_empty (t : TextTree) :
    (Segment.slot t).render = "" ↔ t.isEmpty = true := by
  rw [← Segment.isEmpty_iff]
  cases t
  rfl

/-- What is done to one of the texts. -/
inductive Operation
  | edit (e : Edit)
  | fill (id : SlotId) (content : TextTree)
  | take (id : SlotId)

namespace Operation

def apply : Operation → TextTree → Except Misuse TextTree
  | edit e, t => .ok (e.apply t).2
  | fill id content, t => t.fill id content
  | take id, t => do return (← t.take id).2

end Operation

/-- An operation, and the slots through which its text is reached. -/
structure Command where
  site : List SlotId
  operation : Operation

namespace Command

/-- The text that becomes another. -/
def target (c : Command) : List SlotId :=
  match c.operation with
  | .edit _ => c.site
  | .fill id _ => c.site ++ [id]
  | .take id => c.site ++ [id]

/-- A text after a command. If there is no such slot, the text is as before. -/
def perform (c : Command) (t : TextTree) : TextTree :=
  match within (fun t => do return ((), ← c.operation.apply t)) c.site t with
  | .ok (_, t') => t'
  | .error _ => t

end Command

def run (t : TextTree) (commands : List Command) : TextTree :=
  commands.foldl (fun t c => c.perform t) t

/-- Texts that differ at most in what is in one slot. -/
def AgreeAround : List SlotId → TextTree → TextTree → Prop
  | [], _, _ => True
  | id :: inner, t, t' => ∃ content content', t.slot id = .ok content ∧ t.fill id content' = .ok t' ∧
      AgreeAround inner content content'

/-- A slot stands between the segments that are before it and those after it. -/
theorem exists_segments (h : t.slot id = .ok content) : ∃ front back,
    t.segments = front ++ .slot content :: back ∧ ∀ filling, t.fill id filling
      = .ok (mk (front ++ .slot filling :: back) t.openLine t.depth t.unit) := by
  have segment := segment_of_slot h
  obtain ⟨lt, eq⟩ := List.getElem?_eq_some_iff.1 segment
  refine ⟨t.segments.take id.index, t.segments.drop (id.index + 1), ?_, fun filling => ?_⟩
  · rw [← eq, List.getElem_cons_drop, List.take_append_drop]
  · rw [fill_eq segment, List.set_eq_take_append_cons_drop, if_pos lt]

/-- To fill a slot with what is in it changes nothing. -/
theorem fill_self (h : t.slot id = .ok content) : t.fill id content = .ok t := by
  obtain ⟨front, back, segments, fill⟩ := exists_segments h
  rw [fill, ← segments]
  cases t
  rfl

theorem fill_fill (h : t.fill id content = .ok t') : t'.slot id = .ok content ∧
    ∀ filling, t'.fill id filling = t.fill id filling := by
  obtain ⟨old, slot, -⟩ := bind_eq_ok.1 h
  have segment := segment_of_slot slot
  have lt := (List.getElem?_eq_some_iff.1 segment).1
  rw [fill_eq segment] at h
  obtain rfl := Except.ok.inj h
  have slot' : (mk (t.segments.set id.index (.slot content)) t.openLine t.depth t.unit).slot id
      = .ok content := slot_eq (List.getElem?_set_self lt)
  refine ⟨slot', fun filling => ?_⟩
  rw [fill_eq segment, fill_eq (segment_of_slot slot')]
  simp only [segments, List.set_set, openLine, depth, unit]

namespace AgreeAround

theorem refl (h : t.follow path = .ok content) : AgreeAround path t t := by
  induction path generalizing t with
  | nil => trivial
  | cons id inner ih =>
    obtain ⟨inSlot, slot, h⟩ := bind_eq_ok.1 h
    exact ⟨inSlot, inSlot, slot, fill_self slot, ih h⟩

theorem trans (h : AgreeAround path t t') (h' : AgreeAround path t' t'') :
    AgreeAround path t t'' := by
  induction path generalizing t t' t'' with
  | nil => trivial
  | cons id inner ih =>
    obtain ⟨content, content', slot, fill, agree⟩ := h
    obtain ⟨other, content'', slot', fill', agree'⟩ := h'
    obtain ⟨filled, refill⟩ := fill_fill fill
    obtain rfl := Except.ok.inj (filled.symm.trans slot')
    exact ⟨content, content'', slot, refill _ ▸ fill', ih agree agree'⟩

theorem follow (h : AgreeAround path t t') : ∃ content, t'.follow path = .ok content := by
  induction path generalizing t t' with
  | nil => exact ⟨t', rfl⟩
  | cons id inner ih =>
    obtain ⟨_, content', -, fill, agree⟩ := h
    obtain ⟨inSlot, followed⟩ := ih agree
    exact ⟨inSlot, bind_eq_ok.2 ⟨content', (fill_fill fill).1, followed⟩⟩

end AgreeAround

theorem within_cons {α : Type} {work : TextTree → Except Misuse (α × TextTree)}
    (h : t.slot id = .ok content) (site : List SlotId) :
    within work (id :: site) t = (within work site content >>= fun result =>
      t.fill id result.2 >>= fun t' => .ok (result.1, t')) := by
  rw [within, h]
  rfl

/-- What is done through a slot is done to the text in it. -/
theorem fill_perform (h : t.slot id = .ok content) (site : List SlotId) (o : Operation) :
    t.fill id (Command.perform ⟨site, o⟩ content) = .ok (Command.perform ⟨id :: site, o⟩ t) := by
  obtain ⟨front, back, -, fill⟩ := exists_segments h
  rw [Command.perform, Command.perform, within_cons h]
  cases within (fun t => do return ((), ← o.apply t)) site content with
  | error misuse => exact fill_self h
  | ok result =>
    simp only [bind, Except.bind, fill]

/-- A slot that is filled, or from which its text is taken, is filled with something. -/
theorem exists_filling (h : t.slot id = .ok content) {o : Operation}
    (inside : [id] <+: Command.target ⟨[], o⟩) :
    ∃ filling, t.fill id filling = .ok (Command.perform ⟨[], o⟩ t) := by
  obtain ⟨front, back, segments, fill⟩ := exists_segments h
  cases o with
  | edit e => simp [Command.target] at inside
  | fill other filling =>
    obtain rfl : id = other := by simpa [Command.target] using inside
    refine ⟨filling, ?_⟩
    simp only [Command.perform, within, Operation.apply, fill, bind, Except.bind, pure, Except.pure]
  | take other =>
    obtain rfl : id = other := by simpa [Command.target] using inside
    refine ⟨empty content.depth content.unit, ?_⟩
    simp only [Command.perform, within, Operation.apply, take, h, fill, bind, Except.bind, pure,
      Except.pure]

/-- What is done inside of a slot does not reach what is around it. -/
theorem agreeAround_perform {c : Command} (h : t.follow path = .ok content)
    (inside : path <+: c.target) : AgreeAround path t (c.perform t) := by
  obtain ⟨site, o⟩ := c
  induction path generalizing t site with
  | nil => trivial
  | cons id inner ih =>
    obtain ⟨inSlot, slot, h⟩ := bind_eq_ok.1 h
    cases site with
    | nil =>
      have outermost : [id] <+: Command.target ⟨[], o⟩ :=
        (List.prefix_append [id] inner).trans inside
      have last : inner = [] := by
        have short : (Command.target ⟨[], o⟩).length ≤ 1 := by cases o <;> simp [Command.target]
        have := inside.length_le
        rw [List.length_cons] at this
        exact List.eq_nil_of_length_eq_zero (by omega)
      obtain ⟨filling, filled⟩ := exists_filling slot outermost
      exact ⟨inSlot, filling, slot, filled, by rw [last]; trivial⟩
    | cons first site =>
      have target : Command.target ⟨first :: site, o⟩ = first :: Command.target ⟨site, o⟩ := by
        cases o <;> rfl
      rw [target, List.cons_prefix_cons] at inside
      obtain ⟨rfl, inside⟩ := inside
      exact ⟨inSlot, _, slot, fill_perform slot site o, ih h site inside⟩

theorem agreeAround_run (h : t.follow path = .ok content) {commands : List Command}
    (inside : ∀ c ∈ commands, path <+: c.target) : AgreeAround path t (t.run commands) := by
  induction commands generalizing t content with
  | nil => exact .refl h
  | cons c rest ih =>
    have step := agreeAround_perform h (inside c List.mem_cons_self)
    obtain ⟨_, h⟩ := step.follow
    exact step.trans (ih h fun c mem => inside c (List.mem_cons_of_mem _ mem))

/-- What a slot adds to a text comes between two others, the first of which leaves no line open. They
are the same for all texts that differ only in the slot. -/
structure Places (text : TextTree → String) (path : List SlotId) (t : TextTree)
    (before after : String) : Prop where
  closed : EndsClosed before
  render : ∀ t', AgreeAround path t t' → ∃ content, t'.follow path = .ok content ∧
    text t' = before ++ (Segment.slot content).render ++ after

theorem Places.step {inner : List SlotId} {before after : String} (slot : t.slot id = .ok content)
    (h : Places (fun t => (Segment.slot t).render) inner content before after) :
    ∃ before' after', Places (fun t => Segment.renderAll t.segments) (id :: inner) t before' after' ∧
      ∀ t', AgreeAround (id :: inner) t t' → t'.openLine = t.openLine := by
  obtain ⟨front, back, segments, fill⟩ := exists_segments slot
  refine ⟨Segment.renderAll front ++ before, after ++ Segment.renderAll back,
    ⟨(Segment.endsClosed_renderAll front).append h.closed, ?_⟩, ?_⟩
  · rintro t' ⟨_, content', slot', filled, agree⟩
    obtain rfl := Except.ok.inj (slot.symm.trans slot')
    obtain ⟨inSlot, followed, rendered⟩ := h.render content' agree
    refine ⟨inSlot, bind_eq_ok.2 ⟨content', (fill_fill filled).1, followed⟩, ?_⟩
    rw [fill] at filled
    obtain rfl := Except.ok.inj filled
    change Segment.renderAll (front ++ Segment.slot content' :: back) = _
    rw [Segment.renderAll_append, Segment.renderAll, rendered]
    simp only [String.append_assoc]
  · rintro t' ⟨_, content', -, filled, -⟩
    rw [fill] at filled
    obtain rfl := Except.ok.inj filled
    rfl

/-- In a text that is in a slot itself, a slot is placed by the segments around it on each level. -/
theorem exists_places_slot (h : t.follow path = .ok content) :
    ∃ before after, Places (fun t => (Segment.slot t).render) path t before after := by
  induction path generalizing t with
  | nil =>
    refine ⟨"", "", .inl rfl, fun t' _ => ⟨t', rfl, ?_⟩⟩
    rw [String.empty_append, String.append_empty]
  | cons id inner ih =>
    obtain ⟨inSlot, slot, h⟩ := bind_eq_ok.1 h
    obtain ⟨_, _, placed⟩ := ih h
    obtain ⟨before, after, placed, openLine⟩ := placed.step slot
    refine ⟨before, after ++ t.lastLine, placed.closed, fun t' agree => ?_⟩
    obtain ⟨content', followed, rendered⟩ := placed.render t' agree
    refine ⟨content', followed, ?_⟩
    rw [Segment.render_slot, rendered, lastLine, openLine t' agree, ← lastLine, String.append_assoc]

theorem exists_places (h : t.follow path = .ok content) (inSlot : path ≠ []) :
    ∃ before after, Places render path t before after := by
  obtain ⟨id, inner, rfl⟩ := List.exists_cons_of_ne_nil inSlot
  obtain ⟨_, slot, h⟩ := bind_eq_ok.1 h
  obtain ⟨_, _, placed⟩ := exists_places_slot h
  obtain ⟨before, after, placed, openLine⟩ := placed.step slot
  refine ⟨before, after ++ t.openLine, placed.closed, fun t' agree => ?_⟩
  obtain ⟨content', followed, rendered⟩ := placed.render t' agree
  refine ⟨content', followed, ?_⟩
  rw [render, rendered, openLine t' agree, String.append_assoc]

/-- What is in a slot neither joins the lines around it nor splits them. -/
structure KeepsLines (t : TextTree) : Prop where
  isEmpty : t.isEmpty = true ↔ t.render = ""
  /-- What a slot adds leaves no line open, and it is nothing just where the text in it is empty. -/
  slot : ∀ path content, path ≠ [] → t.follow path = .ok content →
    EndsClosed (Segment.slot content).render ∧
      ((Segment.slot content).render = "" ↔ content.isEmpty = true)
  /-- What a slot adds stands between two texts, whatever is done in it later and whatever else might
  be in it. -/
  around : ∀ path content, path ≠ [] → t.follow path = .ok content →
    ∃ before after, Places render path t before after ∧
      ∀ later, (∀ c ∈ later, path <+: c.target) → ∃ content',
        (t.run later).follow path = .ok content' ∧
        (t.run later).render = before ++ (Segment.slot content').render ++ after

theorem keepsLines (t : TextTree) : t.KeepsLines where
  isEmpty := isEmpty_iff t
  slot _ content _ _ := ⟨Segment.endsClosed_render _, render_slot_eq_empty content⟩
  around path content inSlot h := by
    obtain ⟨before, after, placed⟩ := exists_places h inSlot
    exact ⟨before, after, placed, fun later inside => placed.render _ (agreeAround_run h inside)⟩

/-- The open line of a text comes after what is written in its slot later. -/
example : ((empty 0 tab).run [⟨[], .edit .reserve⟩, ⟨[], .edit (.append "tail")⟩,
    ⟨[⟨0⟩], .edit (.append "head")⟩]).render = "head\ntail" := by decide +kernel

end TextTree

end ScriptToGo
