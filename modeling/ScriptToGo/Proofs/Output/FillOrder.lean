import ScriptToGo.Proofs.Output.Growth

/-! Texts inside of each other can be written in any order. -/
namespace ScriptToGo

open Write

namespace Growth

variable {g g' c c' : Growth} {k : Nat} {id : SlotId}

/-- What has become of an empty text: its own edits have made what is around the slots, and what
has been written inside of a slot has made what is in it. -/
structure Parts (depth : Nat) (unit : String) (run : List Write) (g outer : Growth) : Prop where
  own : (new (.empty depth unit)).run (run.filter (·.site = [])) = .ok outer
  frame : g.tree.frame = outer.tree.frame
  handles : g.handles [] = outer.handles []
  count : (g.handles []).length = run.count ⟨[], .reserve⟩
  nodup : (g.handles []).Nodup
  mem : ∀ id, id ∈ g.handles [] ↔ ∃ content, g.tree.slot id = .ok content
  child : ∀ k id, (g.handles [])[k]? = some id → ∃ d u c, outer.tree.slot id = .ok (.empty d u)
    ∧ (new (.empty d u)).run (inside [k] run) = .ok c ∧ g.child k = .ok c
  unborn : ∀ k site, (g.handles []).length ≤ k → g.handles (k :: site) = []

theorem Parts.start (depth : Nat) (unit : String) :
    Parts depth unit [] (new (.empty depth unit)) (new (.empty depth unit)) where
  own := rfl
  frame := rfl
  handles := rfl
  count := rfl
  nodup := .nil
  mem := by simp [new, TextTree.slot, TextTree.empty, TextTree.segments]
  child := by simp [new]
  unborn _ _ _ := rfl

variable {depth : Nat} {unit : String} {run : List Write} {outer : Growth}

theorem handles_edit (g : Growth) (e : Edit) :
    (g.edit e).handles [] = g.handles [] ++ (e.apply g.tree).1.toList := by
  simp [edit]

theorem handles_edit_cons (g : Growth) (e : Edit) (k : Nat) (site : Site) :
    (g.edit e).handles (k :: site) = g.handles (k :: site) := by
  simp [edit]

/-- The slots after an edit are those before it, and the one that it has reserved. -/
theorem handle_edit {e : Edit} (handle : ((g.edit e).handles [])[k]? = some id) :
    (g.handles [])[k]? = some id ∨ k = (g.handles []).length ∧ (e.apply g.tree).1 = some id := by
  rw [handles_edit] at handle
  rcases Nat.lt_or_ge k (g.handles []).length with old | new
  · rw [List.getElem?_append_left old] at handle
    exact .inl handle
  · have within := (List.getElem?_eq_some_iff.1 handle).1
    rw [List.getElem?_append_right new] at handle
    have reserved := Option.mem_toList.1 (List.mem_of_getElem? handle)
    rw [reserved, List.length_append] at within
    exact .inr ⟨Nat.le_antisymm (Nat.le_of_lt_succ within) new, reserved⟩

/-- What is in a slot stays as it is when the text around it is edited. -/
theorem child_edit (child : g.child k = .ok c) (e : Edit) : (g.edit e).child k = .ok c := by
  obtain ⟨id, handle, slot, handles⟩ := child_eq_ok.1 child
  refine child_eq_ok.2 ⟨id, ?_, TextTree.slot_apply_of_ok e slot, handles.trans ?_⟩
  · have old := (List.getElem?_eq_some_iff.1 handle).1
    rw [handles_edit, List.getElem?_append_left old, handle]
  · exact funext fun below => (handles_edit_cons g e k below).symm

/-- Nothing is written inside of a slot before it is reserved. -/
theorem Parts.unwritten (parts : Parts depth unit run g outer) (orderly : Orderly run) :
    inside [(g.handles []).length] run = [] := by
  refine List.eq_nil_iff_forall_not_mem.2 fun w mem => ?_
  have lt := orderly.reserved_of_mem (mem_inside.1 mem)
  rw [parts.count] at lt
  exact Nat.lt_irrefl _ lt

/-- A slot that is given out is the last one, and nothing is in it. -/
theorem Parts.child_reserved (parts : Parts depth unit run g outer) {e : Edit}
    (reserved : (e.apply g.tree).1 = some id) :
    (g.edit e).child (g.handles []).length = .ok (new (.empty g.tree.depth g.tree.unit)) := by
  refine child_eq_ok.2 ⟨id, ?_, ?_, funext fun site => ?_⟩
  · rw [handles_edit, reserved]
    exact List.getElem?_concat_length ..
  · exact (TextTree.slot_apply e g.tree id).trans (if_pos reserved)
  · rw [handles_edit_cons, parts.unborn _ _ (Nat.le_refl _)]
    rfl

theorem Parts.edit (parts : Parts depth unit run g outer) (orderly : Orderly run) (e : Edit) :
    Parts depth unit (run ++ [⟨[], e⟩]) (g.edit e) (outer.edit e) := by
  have given : (e.apply g.tree).1 = (e.apply outer.tree).1 := by
    rw [← (TextTree.apply_frame e g.tree).1, parts.frame, (TextTree.apply_frame e outer.tree).1]
  constructor
  case own =>
    rw [List.filter_append, run_append, parts.own]
    rfl
  case frame =>
    change (e.apply g.tree).2.frame = (e.apply outer.tree).2.frame
    rw [← (TextTree.apply_frame e g.tree).2, parts.frame, (TextTree.apply_frame e outer.tree).2]
  case handles => rw [handles_edit, handles_edit, parts.handles, given]
  case count =>
    rw [handles_edit, List.length_append, List.count_append, parts.count]
    cases e <;> rfl
  case nodup =>
    rw [handles_edit]
    refine List.nodup_append.2 ⟨parts.nodup, ?_, ?_⟩
    · cases (e.apply g.tree).1 <;> simp
    · rintro old mem _ new rfl
      obtain ⟨content, slot⟩ := (parts.mem old).1 mem
      cases (TextTree.slot_of_apply (Option.mem_toList.1 new)).symm.trans slot
  case mem =>
    intro id
    rw [handles_edit, List.mem_append, parts.mem, Option.mem_toList]
    change _ ↔ ∃ content, (e.apply g.tree).2.slot id = _
    rw [TextTree.slot_apply]
    by_cases h : (e.apply g.tree).1 = some id
    · simp [h]
    · simp [h]
  case child =>
    intro k id handle
    have unwritten : inside [k] (run ++ [⟨[], e⟩]) = inside [k] run := by
      rw [inside_append, inside_root, List.append_nil]
    rw [unwritten]
    rcases handle_edit handle with old | ⟨rfl, reserved⟩
    · obtain ⟨d, u, c, born, grown, child⟩ := parts.child k id old
      exact ⟨d, u, c, TextTree.slot_apply_of_ok e born, grown, child_edit child e⟩
    · have born := (TextTree.slot_apply e outer.tree id).trans (if_pos (given ▸ reserved))
      obtain ⟨depths, units⟩ := TextTree.margin_of_frame parts.frame
      refine ⟨outer.tree.depth, outer.tree.unit, _, born, ?_, parts.child_reserved reserved⟩
      rw [parts.unwritten orderly, depths, units]
      rfl
  case unborn =>
    intro k site le
    rw [handles_edit, List.length_append] at le
    rw [handles_edit_cons, parts.unborn k site (by omega)]

/-- Where only one slot differs, what is in the others is the same. -/
theorem Differs.child_other (differs : g.Differs k g' c') (nodup : (g.handles []).Nodup) {j : Nat}
    (other : j ≠ k) (child : g.child j = .ok c) : g'.child j = .ok c := by
  obtain ⟨id, handle, slot, handles⟩ := child_eq_ok.1 child
  have within := (List.getElem?_eq_some_iff.1 handle).1
  have apart : (g.handles [])[k]? ≠ some id := fun handle' =>
    other ((List.getElem?_inj within nodup).1 (handle.trans handle'.symm))
  exact child_eq_ok.2 ⟨id, differs.handles ▸ handle, (differs.slot id apart).trans slot,
    handles.trans (funext fun below => (differs.below j other below).symm)⟩

/-- The same slots are there when one differs. -/
theorem Differs.exists_slot_iff (differs : g.Differs k g' c') (child : g.child k = .ok c)
    (id : SlotId) :
    (∃ content, g.tree.slot id = .ok content) ↔ ∃ content, g'.tree.slot id = .ok content := by
  by_cases filled : (g.handles [])[k]? = some id
  · obtain ⟨_, handle, slot, -⟩ := child_eq_ok.1 child
    obtain ⟨_, handle', slot', -⟩ := child_eq_ok.1 differs.child
    obtain rfl := Option.some.inj (handle.symm.trans filled)
    rw [differs.handles] at handle'
    obtain rfl := Option.some.inj (handle'.symm.trans filled)
    exact iff_of_true ⟨_, slot⟩ ⟨_, slot'⟩
  · rw [differs.slot id filled]

theorem Parts.differs (parts : Parts depth unit run g outer) {s : Site} {e : Edit}
    (child : g.child k = .ok c) (written : c.write ⟨s, e⟩ = .ok c') (differs : g.Differs k g' c') :
    Parts depth unit (run ++ [⟨k :: s, e⟩]) g' outer := by
  constructor
  case own => simpa using parts.own
  case frame => rw [differs.frame, parts.frame]
  case handles => rw [differs.handles, parts.handles]
  case count => simp [differs.handles, parts.count]
  case nodup => rw [differs.handles]; exact parts.nodup
  case mem =>
    intro id
    rw [differs.handles, parts.mem, differs.exists_slot_iff child]
  case child =>
    intro j id handle
    rw [differs.handles] at handle
    obtain ⟨d, u, c₀, born, grown, child₀⟩ := parts.child j id handle
    refine ⟨d, u, ?_⟩
    rw [inside_append]
    by_cases same : j = k
    · subst same
      obtain rfl : c₀ = c := Except.ok.inj (child₀.symm.trans child)
      refine ⟨c', born, ?_, differs.child⟩
      rw [inside_same, run_append, grown]
      exact (run_singleton c₀ _).trans written
    · refine ⟨c₀, born, ?_, differs.child_other parts.nodup same child₀⟩
      rw [inside_other same, List.append_nil, grown]
  case unborn =>
    intro j site le
    rw [differs.handles] at le
    have lt : k < (g.handles []).length := by
      obtain ⟨id, handle, -, -⟩ := child_eq_ok.1 child
      exact (List.getElem?_eq_some_iff.1 handle).1
    rw [differs.below j (by omega), parts.unborn j site le]

/-- Handles are never refused, and what a run has grown comes apart. -/
theorem exists_parts (n : Nat) (depth : Nat) (unit : String) {run : List Write}
    (bound : ∀ w ∈ run, w.site.length < n) (orderly : Orderly run) :
    ∃ g outer, (new (.empty depth unit)).run run = .ok g ∧ Parts depth unit run g outer := by
  induction n generalizing depth unit run with
  | zero =>
    obtain rfl := eq_nil_of_bound bound
    exact ⟨_, _, rfl, .start depth unit⟩
  | succ n ihn =>
    induction orderly with
    | nil => exact ⟨_, _, rfl, .start depth unit⟩
    | @snoc run w orderly reserved ih =>
      obtain ⟨g, outer, grown, parts⟩ := ih fun w mem => bound w (List.mem_append_left _ mem)
      rw [run_append, grown]
      rcases w with ⟨_ | ⟨k, s⟩, e⟩
      · exact ⟨_, _, rfl, parts.edit orderly e⟩
      · have all := orderly.snoc reserved
        have lt := all.reserved_of_mem (List.mem_append_right _ (List.mem_singleton_self _))
        have lt : k < (g.handles []).length := by
          rw [parts.count]
          simpa using lt
        obtain ⟨d, u, c, born, below, child⟩ := parts.child k _ (List.getElem?_eq_getElem lt)
        obtain ⟨c', _, below', -⟩ := ihn d u (length_inside bound k) (all.inside k)
        rw [inside_append, inside_same, run_append, below] at below'
        have written : c.write ⟨s, e⟩ = .ok c' := (run_singleton c _).symm.trans below'
        obtain ⟨g', written', differs⟩ := write_slot child written
        exact ⟨g', outer, (run_singleton g _).trans written', parts.differs child written differs⟩

theorem exists_bound (run : List Write) : ∃ n, ∀ w ∈ run, w.site.length < n := by
  induction run with
  | nil => exact ⟨0, by simp⟩
  | cons w run ih =>
    obtain ⟨n, bound⟩ := ih
    refine ⟨max n (w.site.length + 1), List.forall_mem_cons.2 ⟨by omega, fun w' mem => ?_⟩⟩
    exact Nat.lt_of_lt_of_le (bound w' mem) (Nat.le_max_left ..)

theorem parts_of_run (orderly : Orderly run) (grown : (new (.empty depth unit)).run run = .ok g) :
    ∃ outer, Parts depth unit run g outer := by
  obtain ⟨n, bound⟩ := exists_bound run
  obtain ⟨g', outer, grown', parts⟩ := exists_parts n depth unit bound orderly
  obtain rfl := Except.ok.inj (grown.symm.trans grown')
  exact ⟨outer, parts⟩

theorem Parts.exists_child (parts : Parts depth unit run g outer)
    (lt : k < run.count ⟨[], .reserve⟩) : ∃ id d u c, (g.handles [])[k]? = some id
      ∧ outer.tree.slot id = .ok (.empty d u) ∧ (new (.empty d u)).run (inside [k] run) = .ok c
      ∧ g.child k = .ok c := by
  have handle := List.getElem?_eq_getElem (parts.count ▸ lt)
  obtain ⟨d, u, c, born, grown, child⟩ := parts.child k _ handle
  exact ⟨_, d, u, c, handle, born, grown, child⟩

/-- A text is known from what its own edits have made and what is in its slots. -/
theorem Parts.ext {first second : List Write} (parts : Parts depth unit first g outer)
    (parts' : Parts depth unit second g' outer)
    (child : ∀ k id, (g.handles [])[k]? = some id → ∃ c, g.child k = .ok c ∧ g'.child k = .ok c) :
    g = g' := by
  have handles : g.handles [] = g'.handles [] := parts.handles.trans parts'.handles.symm
  refine Growth.ext (TextTree.eq_of_frame (parts.frame.trans parts'.frame.symm) fun id => ?_)
    (funext fun site => ?_)
  · by_cases mem : id ∈ g.handles []
    · obtain ⟨k, handle⟩ := List.mem_iff_getElem?.1 mem
      obtain ⟨c, child, child'⟩ := child k id handle
      obtain ⟨_, handle₁, slot, -⟩ := child_eq_ok.1 child
      obtain ⟨_, handle₂, slot', -⟩ := child_eq_ok.1 child'
      rw [← handles] at handle₂
      obtain rfl := Option.some.inj (handle.symm.trans handle₁)
      obtain rfl := Option.some.inj (handle.symm.trans handle₂)
      rw [slot, slot']
    · have mem' := mem
      rw [handles, parts'.mem] at mem'
      rw [parts.mem] at mem
      rw [TextTree.slot_eq_error_of_ne_ok (not_exists.1 mem),
        TextTree.slot_eq_error_of_ne_ok (not_exists.1 mem')]
  · cases site with
    | nil => exact handles
    | cons k site =>
      cases handle : (g.handles [])[k]? with
      | none =>
        have le := List.getElem?_eq_none_iff.1 handle
        rw [parts.unborn k site le, parts'.unborn k site (handles ▸ le)]
      | some id =>
        obtain ⟨c, child, child'⟩ := child k id handle
        obtain ⟨_, -, -, below⟩ := child_eq_ok.1 child
        obtain ⟨_, -, -, below'⟩ := child_eq_ok.1 child'
        exact congrFun (below.symm.trans below') site

/-- What a run grows depends on what each text receives, and on nothing else. -/
theorem run_eq_run (n : Nat) (depth : Nat) (unit : String) {first second : List Write}
    (bound : ∀ w ∈ first, w.site.length < n) (bound' : ∀ w ∈ second, w.site.length < n)
    (orderly : Orderly first) (orderly' : Orderly second)
    (received : ∀ site, first.filter (·.site = site) = second.filter (·.site = site)) :
    (new (.empty depth unit)).run first = (new (.empty depth unit)).run second := by
  induction n generalizing depth unit first second with
  | zero =>
    rw [eq_nil_of_bound bound, eq_nil_of_bound bound']
  | succ n ih =>
    obtain ⟨g, outer, grown, parts⟩ := exists_parts (n + 1) depth unit bound orderly
    obtain ⟨g', outer', grown', parts'⟩ := exists_parts (n + 1) depth unit bound' orderly'
    obtain rfl : outer = outer' := by
      have own := parts'.own
      rw [← received] at own
      exact Except.ok.inj (parts.own.symm.trans own)
    rw [grown, grown', parts.ext parts' fun k id handle => ?_]
    obtain ⟨d, u, c, born, below, child⟩ := parts.child k id handle
    obtain ⟨d', u', c', born', below', child'⟩ :=
      parts'.child k id (parts'.handles ▸ parts.handles ▸ handle)
    obtain ⟨-, -, rfl, rfl⟩ := TextTree.mk.inj (Except.ok.inj (born.symm.trans born'))
    have same := ih d u (length_inside bound k) (length_inside bound' k) (orderly.inside k)
      (orderly'.inside k) fun site => by rw [filter_inside, filter_inside, received]
    obtain rfl := Except.ok.inj (below.symm.trans (same.trans below'))
    exact ⟨c, child, child'⟩

/-- The outermost text keeps its slots and its handles when it is edited. -/
theorem run_root {writes : List Write} (root : ∀ w ∈ writes, w.site = [])
    (grown : g.run writes = .ok g') : g.handles [] <+: g'.handles []
      ∧ ∀ id content, g.tree.slot id = .ok content → g'.tree.slot id = .ok content := by
  induction writes generalizing g with
  | nil =>
    obtain rfl := Except.ok.inj grown
    exact ⟨List.prefix_refl _, fun _ _ slot => slot⟩
  | cons w writes ih =>
    obtain ⟨first, rest⟩ := List.forall_mem_cons.1 root
    obtain ⟨site, e⟩ := w
    obtain rfl : site = [] := first
    have edited : (g.edit e).run writes = .ok g' := grown
    obtain ⟨kept, slots⟩ := ih rest edited
    refine ⟨List.IsPrefix.trans ?_ kept, fun id content slot => slots id content ?_⟩
    · rw [handles_edit]
      exact List.prefix_append ..
    · exact TextTree.slot_apply_of_ok e slot

/-- A slot that has been reserved is found under the same handle later, and what is in it is what
has been written inside of it from the start. -/
theorem child_run {before after : List Write} (orderly : Orderly (before ++ after))
    (grown : (new (.empty depth unit)).run before = .ok g)
    (grown' : (new (.empty depth unit)).run (before ++ after) = .ok g')
    (lt : k < before.count ⟨[], .reserve⟩) :
    ∃ id d u c c', (g.handles [])[k]? = some id ∧ (g'.handles [])[k]? = some id
      ∧ g.child k = .ok c ∧ g'.child k = .ok c'
      ∧ (new (.empty d u)).run (inside [k] before) = .ok c
      ∧ (new (.empty d u)).run (inside [k] before ++ inside [k] after) = .ok c' := by
  obtain ⟨outer, parts⟩ := parts_of_run orderly.of_append grown
  obtain ⟨outer', parts'⟩ := parts_of_run orderly grown'
  obtain ⟨id, d, u, c, handle, born, below, child⟩ := parts.exists_child lt
  have rest : outer.run (after.filter (·.site = [])) = .ok outer' := by
    have own := parts'.own
    rw [List.filter_append, run_append, parts.own] at own
    exact own
  obtain ⟨kept, slots⟩ := run_root (by simp) rest
  have handle' : (g'.handles [])[k]? = some id := by
    rw [parts.handles] at handle
    obtain ⟨since, eq⟩ := kept
    have lt := (List.getElem?_eq_some_iff.1 handle).1
    rw [parts'.handles, ← eq, List.getElem?_append_left lt, handle]
  obtain ⟨d', u', c', born', below', child'⟩ := parts'.child k id handle'
  obtain ⟨-, -, rfl, rfl⟩ := TextTree.mk.inj (Except.ok.inj ((slots _ _ born).symm.trans born'))
  exact ⟨id, d, u, c, c', handle, handle', child, child', below, inside_append _ _ _ ▸ below'⟩

theorem path_cons {s : Site} (handle : (g.handles [])[k]? = some id) (child : g.child k = .ok c) :
    g.path (k :: s) = (do return id :: (← c.path s)) := by
  obtain ⟨_, -, -, handles⟩ := child_eq_ok.1 child
  simp only [Growth.path, pathIn, handle, handles]

theorem reach_path {site : Site} (reached : g.reach site = .ok c) :
    ∃ path, g.path site = .ok path ∧ g.tree.follow path = .ok c.tree := by
  induction site generalizing g with
  | nil =>
    obtain rfl := Except.ok.inj reached
    exact ⟨[], rfl, rfl⟩
  | cons k s ih =>
    obtain ⟨c₁, child, reached⟩ := bind_eq_ok.1 reached
    obtain ⟨path, eq, followed⟩ := ih reached
    obtain ⟨id, handle, slot, -⟩ := child_eq_ok.1 child
    refine ⟨id :: path, ?_, ?_⟩
    · rw [path_cons handle child, eq]
      rfl
    · exact bind_eq_ok.2 ⟨c₁.tree, slot, followed⟩

/-- A handle keeps its text: what the text is later is what has been written in it since. -/
theorem reach_run (site : Site) {depth : Nat} {unit : String} {before after : List Write}
    (orderly : Orderly (before ++ after)) (grown : (new (.empty depth unit)).run before = .ok g)
    (grown' : (new (.empty depth unit)).run (before ++ after) = .ok g')
    (reached : g.reach site = .ok c) :
    ∃ c', g'.reach site = .ok c' ∧ c.run (inside site after) = .ok c'
      ∧ g'.path site = g.path site := by
  induction site generalizing g g' depth unit before after with
  | nil =>
    obtain rfl := Except.ok.inj reached
    rw [run_append, grown] at grown'
    exact ⟨g', rfl, by rw [inside_nil]; exact grown', rfl⟩
  | cons k s ih =>
    obtain ⟨c₁, child, reached⟩ := bind_eq_ok.1 reached
    have lt : k < before.count ⟨[], .reserve⟩ := by
      obtain ⟨_, parts⟩ := parts_of_run orderly.of_append grown
      obtain ⟨_, handle, -, -⟩ := child_eq_ok.1 child
      exact parts.count ▸ (List.getElem?_eq_some_iff.1 handle).1
    obtain ⟨id, d, u, c₂, c', handle, handle', child₂, child', below, below'⟩ :=
      child_run orderly grown grown' lt
    obtain rfl : c₂ = c₁ := Except.ok.inj (child₂.symm.trans child)
    obtain ⟨c'', reached', since, path⟩ := ih (inside_append [k] before after ▸ orderly.inside k)
      below below' reached
    refine ⟨c'', bind_eq_ok.2 ⟨c', child', reached'⟩, ?_, ?_⟩
    · rwa [inside_cons]
    · rw [path_cons handle child, path_cons handle' child', path]

/-- A slot that is reserved is empty, and it is found through the handle that is given out. -/
theorem reach_reserve (site : Site) {depth : Nat} {unit : String} {before : List Write}
    (orderly : Orderly (before ++ [⟨site, .reserve⟩]))
    (grown : (new (.empty depth unit)).run before = .ok g)
    (grown' : (new (.empty depth unit)).run (before ++ [⟨site, .reserve⟩]) = .ok g') :
    ∃ outer path, g.reach site = .ok outer ∧ g.path site = .ok path
      ∧ g'.reach (site ++ [before.count ⟨site, .reserve⟩])
        = .ok (new (.empty outer.tree.depth outer.tree.unit))
      ∧ g'.path (site ++ [before.count ⟨site, .reserve⟩])
        = .ok (path ++ [outer.tree.reserve.1]) := by
  induction site generalizing g g' depth unit before with
  | nil =>
    obtain ⟨_, parts⟩ := parts_of_run orderly.of_append grown
    rw [run_append, grown] at grown'
    obtain rfl : g.edit .reserve = g' := Except.ok.inj grown'
    rw [← parts.count]
    have given : (Edit.reserve.apply g.tree).1 = some g.tree.reserve.1 := rfl
    have child := parts.child_reserved given
    refine ⟨g, [], rfl, rfl, bind_eq_ok.2 ⟨_, child, rfl⟩, path_cons ?_ child⟩
    rw [handles_edit]
    exact List.getElem?_concat_length ..
  | cons k s ih =>
    have lt : k < before.count ⟨[], .reserve⟩ := by
      have := orderly.reserved_of_mem (List.mem_append_right _ (List.mem_singleton_self _))
      simpa using this
    obtain ⟨id, d, u, c, c', handle, handle', child, child', below, below'⟩ :=
      child_run orderly grown grown' lt
    have orderly' := orderly.inside k
    rw [inside_append, inside_same] at orderly'
    rw [inside_same] at below'
    obtain ⟨outer, path, reached, found, reached', found'⟩ := ih orderly' below below'
    rw [count_inside] at reached' found'
    refine ⟨outer, id :: path, bind_eq_ok.2 ⟨c, child, reached⟩, ?_,
      bind_eq_ok.2 ⟨c', child', reached'⟩, ?_⟩
    · rw [path_cons handle child, found]
      rfl
    · rw [List.cons_append, path_cons handle' child', found']
      rfl

/-- The handle of each slot that a run reserves leads to this slot from then on: to an empty text at
the depth of the text that has reserved it, and later to what has been written in it since. -/
def HandlesKept (start : Growth) (run : List Write) : Prop :=
  ∀ before site after, run = before ++ ⟨site, .reserve⟩ :: after →
    let slot := site ++ [before.count ⟨site, .reserve⟩]
    ∃ g path outer, start.run before = .ok g ∧ g.path site = .ok path
      ∧ g.tree.follow path = .ok outer
      ∧ ∀ since, since <+: after → ∃ later content,
        start.run (before ++ ⟨site, .reserve⟩ :: since) = .ok later
        ∧ later.path slot = .ok (path ++ [outer.reserve.1])
        ∧ (new (.empty outer.depth outer.unit)).run (inside slot since) = .ok content
        ∧ later.tree.follow (path ++ [outer.reserve.1]) = .ok content.tree

theorem handlesKept (depth : Nat) (unit : String) (orderly : Orderly run) :
    HandlesKept (new (.empty depth unit)) run := by
  rintro before site after rfl
  have grows (writes : List Write) (orderly : Orderly writes) :
      ∃ g, (new (.empty depth unit)).run writes = .ok g := by
    obtain ⟨n, bound⟩ := exists_bound writes
    obtain ⟨g, -, grown, -⟩ := exists_parts n depth unit bound orderly
    exact ⟨g, grown⟩
  have split (since : List Write) : before ++ ⟨site, .reserve⟩ :: since
      = (before ++ [⟨site, .reserve⟩]) ++ since := by simp
  have reserved : Orderly (before ++ [⟨site, .reserve⟩]) := (split after ▸ orderly).of_append
  obtain ⟨g, grown⟩ := grows before reserved.of_append
  obtain ⟨made, grown'⟩ := grows _ reserved
  obtain ⟨outer, path, reached, found, empty, handle⟩ := reach_reserve site reserved grown grown'
  obtain ⟨path', found', followed⟩ := reach_path reached
  obtain rfl := Except.ok.inj (found'.symm.trans found)
  refine ⟨g, path', outer.tree, grown, found, followed, ?_⟩
  rintro since ⟨rest, rfl⟩
  rw [split]
  have orderly : Orderly ((before ++ [⟨site, .reserve⟩]) ++ since) := by
    rw [← List.cons_append, ← List.append_assoc, split] at orderly
    exact orderly.of_append
  obtain ⟨later, grownLater⟩ := grows _ orderly
  obtain ⟨content, reachedLater, written, same⟩ := reach_run _ orderly grown' grownLater empty
  have handleLater := same.trans handle
  obtain ⟨path, foundLater, followedLater⟩ := reach_path reachedLater
  obtain rfl := Except.ok.inj (foundLater.symm.trans handleLater)
  exact ⟨later, content, grownLater, handleLater, written, followedLater⟩

/-- Texts inside of each other can be written in any order. If each of them receives the same edits,
and slots are reserved before they are written, no handle is refused, every handle keeps its slot,
and the texts are the same in the end. -/
theorem fill_order_irrelevant (depth : Nat) (unit : String) {first second : List Write}
    (orderly : Orderly first) (orderly' : Orderly second)
    (received : ∀ site, first.filter (·.site = site) = second.filter (·.site = site)) :
    ∃ g, (new (.empty depth unit)).run first = .ok g ∧ (new (.empty depth unit)).run second = .ok g
      ∧ HandlesKept (new (.empty depth unit)) first
      ∧ HandlesKept (new (.empty depth unit)) second := by
  obtain ⟨n, bound⟩ := exists_bound (first ++ second)
  have bound₁ := fun w mem => bound w (List.mem_append_left _ mem)
  have bound₂ := fun w mem => bound w (List.mem_append_right _ mem)
  obtain ⟨g, _, grown, -⟩ := exists_parts n depth unit bound₁ orderly
  have same := run_eq_run n depth unit bound₁ bound₂ orderly orderly' received
  exact ⟨g, grown, same ▸ grown, handlesKept depth unit orderly, handlesKept depth unit orderly'⟩

/-- A slot and a slot in it, filled as soon as they are there. -/
def filledAtOnce : List Write :=
  [⟨[], .append "a"⟩, ⟨[], .indent⟩, ⟨[], .reserve⟩, ⟨[0], .reserve⟩, ⟨[0, 0], .append "x"⟩,
    ⟨[0], .append "y"⟩, ⟨[], .removeLine⟩, ⟨[], .appendLine "z"⟩]

/-- The same slots, filled when all else is written. -/
def filledLater : List Write :=
  [⟨[], .append "a"⟩, ⟨[], .indent⟩, ⟨[], .reserve⟩, ⟨[], .removeLine⟩, ⟨[], .appendLine "z"⟩,
    ⟨[0], .reserve⟩, ⟨[0], .append "y"⟩, ⟨[0, 0], .append "x"⟩]

theorem filledLater_fills :
    Orderly filledAtOnce ∧ Orderly filledLater
      ∧ (∀ site, filledAtOnce.filter (·.site = site) = filledLater.filter (·.site = site))
      ∧ ∃ g, (new (.empty 0 "\t")).run filledAtOnce = .ok g
        ∧ (new (.empty 0 "\t")).run filledLater = .ok g
        ∧ HandlesKept (new (.empty 0 "\t")) filledAtOnce
        ∧ HandlesKept (new (.empty 0 "\t")) filledLater := by
  have orderly : Orderly filledAtOnce :=
    (((((((Orderly.nil.root _).root _).root _).inSlot [] (by decide) _).inSlot [0] (by decide)
      _).inSlot [] (by decide) _).root _).root _
  have orderly' : Orderly filledLater :=
    (((((((Orderly.nil.root _).root _).root _).root _).root _).inSlot [] (by decide) _).inSlot
      [] (by decide) _).inSlot [0] (by decide) _
  have received (site : Site) :
      filledAtOnce.filter (·.site = site) = filledLater.filter (·.site = site) := by
    by_cases root : [] = site
    · subst root
      rfl
    · by_cases slot : [0] = site
      · subst slot
        rfl
      · simp [filledAtOnce, filledLater, List.filter_cons, root, slot]
  exact ⟨orderly, orderly', received, fill_order_irrelevant 0 "\t" orderly orderly' received⟩

end Growth

end ScriptToGo
