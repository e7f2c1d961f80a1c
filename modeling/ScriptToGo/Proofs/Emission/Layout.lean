import ScriptToGo.Go.Unit
import ScriptToGo.Proofs.Output.Slots

/-! The Go code of a program is laid out from the code of its functions in the order of the walk. -/
namespace ScriptToGo

namespace WalkStep

/-- The statements that steps write, each with its module, when they start in a module and return
to those that import it. -/
def written (m : Module) (callers : List Module) : List WalkStep → List (Module × Statement)
  | [] => []
  | .statement s :: rest => (m, s) :: written m callers rest
  | .enter n :: rest => written n (m :: callers) rest
  | .leave :: rest =>
    match callers with
    | [] => []
    | caller :: callers => written caller callers rest

end WalkStep

namespace ModuleGraph

/-- The statements of a program in the order in which they are written, each with its module. -/
def written (g : ModuleGraph) : List (Module × Statement) := WalkStep.written g.entry [] g.walk

end ModuleGraph

/-- The code of statements, each seen from its module. -/
def codesOf (types : TypeTable) (statements : List (Module × Statement)) : Except Failure (List Code) :=
  statements.mapM fun written => written.2.toGoTopLevel ⟨written.1, types⟩

theorem codesOf_cons (types : TypeTable) (m : Module) (s : Statement)
    (rest : List (Module × Statement)) :
    codesOf types ((m, s) :: rest)
      = (s.toGoTopLevel ⟨m, types⟩).bind fun code => (codesOf types rest).map (code :: ·) := by
  rw [codesOf, List.mapM_cons]
  cases s.toGoTopLevel ⟨m, types⟩ with
  | error failure => rfl
  | ok code =>
    change (codesOf types rest).bind _ = (codesOf types rest).map _
    cases codesOf types rest <;> rfl

theorem codesOf_append (types : TypeTable) (a b : List (Module × Statement)) :
    codesOf types (a ++ b)
      = (codesOf types a).bind fun first => (codesOf types b).map (first ++ ·) := by
  induction a with
  | nil =>
    change codesOf types b = (codesOf types b).map _
    cases codesOf types b <;> rfl
  | cons w a ih =>
    obtain ⟨m, s⟩ := w
    rw [List.cons_append, codesOf_cons, codesOf_cons, ih]
    cases s.toGoTopLevel ⟨m, types⟩ with
    | error failure => rfl
    | ok code => cases codesOf types a <;> cases codesOf types b <;> rfl

theorem exists_of_codesOf_error {types : TypeTable} {statements : List (Module × Statement)}
    {failure : Failure} (h : codesOf types statements = .error failure) :
    ∃ w ∈ statements, w.2.toGoTopLevel ⟨w.1, types⟩ = .error failure := by
  induction statements with
  | nil => cases h
  | cons w rest ih =>
    obtain ⟨m, s⟩ := w
    rw [codesOf_cons] at h
    cases first : s.toGoTopLevel ⟨m, types⟩ with
    | error other =>
      rw [first] at h
      cases h
      exact ⟨(m, s), List.mem_cons_self, first⟩
    | ok code =>
      rw [first] at h
      cases others : codesOf types rest with
      | error other =>
        rw [Except.bind, others] at h
        cases h
        obtain ⟨w, hw, eq⟩ := ih others
        exact ⟨w, List.mem_cons_of_mem _ hw, eq⟩
      | ok codes =>
        rw [Except.bind, others] at h
        cases h

namespace TextTree

/-- Writes the code of a function, and an empty line after it. -/
def place (t : TextTree) (code : Code) : TextTree := (code.write t).newLine

end TextTree

/-- A text with the package and an empty slot for imports. -/
def Options.opening (o : Options) : TextTree :=
  (((TextTree.empty 0 o.indent).appendLine s!"package {o.package}").newLine.reserve).2

/-- The package, the imports that the code of the functions needs, and that code. -/
def Options.layout (o : Options) (codes : List Code) : String :=
  let body := (codes.foldl TextTree.place o.opening).removeLine
  let imports := (TextTree.empty 0 o.indent).writeImports (o.importsFor (codes.flatMap Code.imports))
  (TextTree.mk (body.segments.set 2 (.slot imports)) body.openLine body.depth body.unit).render

namespace WalkStep

variable {g : ModuleGraph}

/-- Once it has gone through the statements of a module, a walk goes on in that module. -/
theorem written_append (chain : List FileId) (m : Module) (statements : List Statement)
    (callers : List Module) (rest : List WalkStep) :
    written m callers (g.walkFrom chain m statements ++ rest)
      = written m [] (g.walkFrom chain m statements) ++ written m callers rest := by
  induction chain, m, statements using ModuleGraph.walkFrom.induct g generalizing callers rest with
  | case1 chain m => simp [written]
  | case2 chain m s others other ih =>
    rw [ModuleGraph.walkFrom_other other, List.cons_append, written, ih, written, List.cons_append]
  | case3 chain m s others decl importing unresolved ih =>
    rw [ModuleGraph.walkFrom_unresolved importing unresolved, List.cons_append, written, ih, written,
      List.cons_append]
  | case4 chain m s others decl importing target resolved new ihInner ih =>
    rw [ModuleGraph.walkFrom_entered importing resolved new]
    simp only [List.append_assoc, List.cons_append, written]
    rw [ihInner, ihInner]
    simp only [written, List.append_assoc, ih]
  | case5 chain m s others decl importing target resolved seen ih =>
    rw [ModuleGraph.walkFrom_skipped importing resolved (Decidable.not_not.1 seen), ih]

/-- The statements of a module that is entered come before those that follow the import. -/
theorem written_enter (chain : List FileId) (m target : Module) (statements : List Statement)
    (rest : List WalkStep) :
    written m [] (.enter target :: g.walkFrom chain target statements ++ .leave :: rest)
      = written target [] (g.walkFrom chain target statements) ++ written m [] rest := by
  rw [List.cons_append, written, written_append, written]

/-- A statement that a walk writes is one of a module of the program. It is no import, unless one
that leads nowhere. -/
structure IsWritten (g : ModuleGraph) (w : Module × Statement) : Prop where
  mem : w.1 ∈ g.modules
  statement : w.2 ∈ w.1.program
  unresolved : ∀ decl, w.2.import? = some decl →
    g.resolveImport w.1.id decl.specifier.text = none

theorem isWritten_of_mem (chain : List FileId) (m : Module) (statements : List Statement)
    (hm : m ∈ g.modules) (own : ∀ s ∈ statements, s ∈ m.program) :
    ∀ w ∈ written m [] (g.walkFrom chain m statements), IsWritten g w := by
  induction chain, m, statements using ModuleGraph.walkFrom.induct g with
  | case1 chain m => simp [written]
  | case2 chain m s others other ih =>
    rw [ModuleGraph.walkFrom_other other, written]
    intro w hw
    rcases List.mem_cons.1 hw with rfl | hw
    · exact ⟨hm, own s List.mem_cons_self, by simp [other]⟩
    · exact ih hm (fun s hs => own s (List.mem_cons_of_mem _ hs)) w hw
  | case3 chain m s others decl importing unresolved ih =>
    rw [ModuleGraph.walkFrom_unresolved importing unresolved, written]
    intro w hw
    rcases List.mem_cons.1 hw with rfl | hw
    · exact ⟨hm, own s List.mem_cons_self, by simpa [importing] using unresolved⟩
    · exact ih hm (fun s hs => own s (List.mem_cons_of_mem _ hs)) w hw
  | case4 chain m s others decl importing target resolved new ihInner ih =>
    rw [ModuleGraph.walkFrom_entered importing resolved new, written_enter]
    intro w hw
    rcases List.mem_append.1 hw with hw | hw
    · exact ihInner (ModuleGraph.mem_of_resolveImport resolved) (fun _ hs => hs) w hw
    · exact ih hm (fun s hs => own s (List.mem_cons_of_mem _ hs)) w hw
  | case5 chain m s others decl importing target resolved seen ih =>
    rw [ModuleGraph.walkFrom_skipped importing resolved (Decidable.not_not.1 seen)]
    exact ih hm fun s hs => own s (List.mem_cons_of_mem _ hs)

end WalkStep

theorem ModuleGraph.isWritten {g : ModuleGraph} {w : Module × Statement} (h : w ∈ g.written) :
    WalkStep.IsWritten g w :=
  WalkStep.isWritten_of_mem _ _ _ (List.head_mem g.ne_nil) (fun _ hs => hs) w h

namespace Session

/-- Writes the code of a function, and an empty line after it. -/
def place (s : Session) (code : Code) : Session := (s.write code).modifyOutput .newLine

@[simp] theorem place_types (s : Session) (code : Code) : (s.place code).types = s.types := rfl

theorem foldl_place (s : Session) (codes : List Code) :
    codes.foldl place s = { s with
      outputs := s.outputs.modifyTop fun t => codes.foldl .place t
      needed := s.needed ++ codes.flatMap Code.imports } := by
  induction codes generalizing s with
  | nil => simp [Stack.modifyTop_id]
  | cons code codes ih =>
    rw [List.foldl_cons, ih]
    simp only [place, write, need, modifyOutput, Stack.modifyTop_modifyTop, List.flatMap_cons,
      List.append_assoc, List.foldl_cons, TextTree.place]

@[simp] theorem pushFile_types (s : Session) (m : Module) : (s.pushFile m).types = s.types := rfl

theorem emit_statement (s : Session) (written : Statement) :
    (WalkStep.statement written).emit s = (written.toGoTopLevel s.view).map s.place := by
  rw [WalkStep.emit]
  cases written.toGoTopLevel s.view <;> rfl

/-- Leaving a module gives back the session in which it was entered, with more code. -/
theorem popFile_foldl_place (s : Session) (m : Module) (codes : List Code) :
    (codes.foldl place (s.pushFile m)).popFile = .ok (m, codes.foldl place s) := by
  rw [foldl_place, foldl_place]
  rfl

theorem emit_leave (s : Session) (m : Module) (codes : List Code) :
    WalkStep.leave.emit (codes.foldl place (s.pushFile m)) = .ok (codes.foldl place s) := by
  rw [WalkStep.emit, popFile_foldl_place]
  rfl

private theorem foldlM_statement {s : Session} {statement : Statement} {m : Module}
    {steps : List WalkStep} {rest : List (Module × Statement)} (here : s.files.top = m)
    (ih : ∀ s : Session, s.files.top = m →
      steps.foldlM WalkStep.emit s = (codesOf s.types rest).map fun codes => codes.foldl place s) :
    (.statement statement :: steps).foldlM WalkStep.emit s
      = (codesOf s.types ((m, statement) :: rest)).map fun codes => codes.foldl place s := by
  have view : s.view = ⟨m, s.types⟩ := by rw [Session.view, here]
  rw [List.foldlM_cons, emit_statement, view, codesOf_cons]
  cases statement.toGoTopLevel ⟨m, s.types⟩ with
  | error failure => rfl
  | ok code =>
    simp only [Except.map, bind, Except.bind]
    rw [ih (s.place code) here, Session.place_types]
    cases codesOf s.types rest <;> rfl

/-- A walk through statements of the module that is being written writes their code one after the
other, and ends in that module. -/
theorem foldlM_emit (g : ModuleGraph) (chain : List FileId) (m : Module) (statements : List Statement)
    (s : Session) (here : s.files.top = m) :
    (g.walkFrom chain m statements).foldlM WalkStep.emit s
      = (codesOf s.types (WalkStep.written m [] (g.walkFrom chain m statements))).map
          fun codes => codes.foldl place s := by
  induction chain, m, statements using ModuleGraph.walkFrom.induct g generalizing s with
  | case1 chain m =>
    rw [ModuleGraph.walkFrom_nil]
    rfl
  | case2 chain m statement others other ih =>
    rw [ModuleGraph.walkFrom_other other, WalkStep.written]
    exact foldlM_statement here ih
  | case3 chain m statement others decl importing unresolved ih =>
    rw [ModuleGraph.walkFrom_unresolved importing unresolved, WalkStep.written]
    exact foldlM_statement here ih
  | case4 chain m statement others decl importing target resolved new ihInner ih =>
    rw [ModuleGraph.walkFrom_entered importing resolved new, WalkStep.written_enter, codesOf_append]
    change (g.walkFrom _ target target.program ++ _).foldlM WalkStep.emit (s.pushFile target) = _
    rw [List.foldlM_append, ihInner (s.pushFile target) (Stack.top_push _ _), pushFile_types]
    cases codesOf s.types (WalkStep.written target [] (g.walkFrom _ target target.program)) with
    | error failure => rfl
    | ok codes =>
      change (.leave :: g.walkFrom chain m others).foldlM WalkStep.emit (codes.foldl place (s.pushFile target)) = _
      rw [List.foldlM_cons, emit_leave]
      change (g.walkFrom chain m others).foldlM WalkStep.emit (codes.foldl place s) = _
      have back : (codes.foldl place s).files.top = m := by
        rw [foldl_place]
        exact here
      have types : (codes.foldl place s).types = s.types := by rw [foldl_place]
      rw [ih _ back, types]
      cases codesOf s.types (WalkStep.written m [] (g.walkFrom chain m others)) with
      | error failure => rfl
      | ok later => exact congrArg Except.ok (List.foldl_append ..).symm
  | case5 chain m statement others decl importing target resolved seen ih =>
    rw [ModuleGraph.walkFrom_skipped importing resolved (Decidable.not_not.1 seen)]
    exact ih s here

/-- Writes statements of the newest of the modules that are being written, which are the chain of
imports to it. -/
def emitAll (s : Session) (g : ModuleGraph) (statements : List Statement) : Except Failure Session :=
  (g.walkFrom (s.files.toList.map Module.id) s.files.top statements).foldlM WalkStep.emit s

section

variable {s : Session} {g : ModuleGraph} {statement : Statement} {rest : List Statement}

theorem isWriting_iff {id : FileId} : s.isWriting id = true ↔ id ∈ s.files.toList.map Module.id := by
  simp only [isWriting, List.any_eq_true, beq_iff_eq, List.mem_map]

theorem files_foldl_place (s : Session) (codes : List Code) :
    (codes.foldl place s).files = s.files := by
  rw [foldl_place]

theorem emitAll_eq (s : Session) (g : ModuleGraph) (statements : List Statement) :
    s.emitAll g statements
      = (codesOf s.types (WalkStep.written s.files.top []
          (g.walkFrom (s.files.toList.map Module.id) s.files.top statements))).map
          fun codes => codes.foldl place s :=
  foldlM_emit g _ _ statements s rfl

theorem emitAll_statement (other : ∀ decl, statement.import? = some decl →
      g.resolveImport s.files.top.id decl.specifier.text = none) :
    s.emitAll g (statement :: rest)
      = (WalkStep.statement statement).emit s >>= fun next => next.emitAll g rest := by
  have walked (chain : List FileId) : g.walkFrom chain s.files.top (statement :: rest)
      = .statement statement :: g.walkFrom chain s.files.top rest := by
    cases importing : statement.import? with
    | none => exact ModuleGraph.walkFrom_other importing
    | some decl => exact ModuleGraph.walkFrom_unresolved importing (other decl importing)
  rw [emitAll, walked, List.foldlM_cons, emit_statement]
  cases statement.toGoTopLevel s.view with
  | error failure => rfl
  | ok code => rfl

/-- Whether an imported module is entered is decided by the modules that are being written. -/
theorem emitAll_import {decl : ImportDecl} {target : Module} (importing : statement.import? = some decl)
    (resolved : g.resolveImport s.files.top.id decl.specifier.text = some target) :
    s.emitAll g (statement :: rest) =
      if s.isWriting target.id = true then s.emitAll g rest
      else (do
        let inner ← (s.pushFile target).emitAll g target.program
        let (_, next) ← guarded inner.popFile
        next.emitAll g rest) := by
  split
  next writing =>
    rw [emitAll, ModuleGraph.walkFrom_skipped importing resolved (isWriting_iff.1 writing), emitAll]
  next entered =>
    have new : target.id ∉ s.files.toList.map Module.id := fun old => entered (isWriting_iff.2 old)
    rw [emitAll, ModuleGraph.walkFrom_entered importing resolved new, List.foldlM_append]
    change (s.pushFile target).emitAll g target.program >>= _ = _
    rw [emitAll_eq]
    cases codesOf (s.pushFile target).types _ with
    | error failure => rfl
    | ok codes =>
      change (WalkStep.leave :: _).foldlM WalkStep.emit (codes.foldl place (s.pushFile target))
        = (guarded (codes.foldl place (s.pushFile target)).popFile).bind fun left =>
            left.2.emitAll g rest
      rw [List.foldlM_cons, emit_leave, popFile_foldl_place]
      -- The modules that are being written are those from before, and so is the chain.
      change _ = (codes.foldl place s).emitAll g rest
      rw [emitAll, files_foldl_place]
      rfl

end

end Session

/-- A program is written by writing the statements of its entry. -/
theorem ModuleGraph.toGo_eq_emitAll (g : ModuleGraph) (types : TypeTable) (options : Options) :
    g.toGo types options = (do
      let (slot, s) := (Session.start g types options).writePreamble
      let s ← s.emitAll g g.entry.program
      let s ← guarded ((s.modifyOutput .removeLine).fillImports slot)
      return (← guarded s.finish).render) := rfl

namespace TextTree

private theorem appendLine_grows (text : String) (t : TextTree) :
    t.segments <+: (t.appendLine text).segments := by
  rw [appendLine]
  split <;> exact List.prefix_append _ _

end TextTree

namespace Code

mutual

theorem write_grows (c : Code) (t : TextTree) : t.segments <+: (c.write t).segments := by
  match c with
  | .line content => exact List.prefix_append _ _
  | .block head body =>
    have opened := (t.append head.text).appendLine_grows "\x7b"
    have inside := writeAll_grows body ((t.append head.text).appendLine "\x7b").indent
    exact (opened.trans inside).trans (List.prefix_append _ _)

theorem writeAll_grows (codes : List Code) (t : TextTree) :
    t.segments <+: (writeAll codes t).segments := by
  match codes with
  | [] => exact List.prefix_refl _
  | c :: rest => exact (write_grows c t).trans (writeAll_grows rest (c.write t))

end

end Code

namespace TextTree

theorem place_grows (t : TextTree) (codes : List Code) :
    t.segments <+: (codes.foldl place t).segments := by
  induction codes generalizing t with
  | nil => exact List.prefix_refl _
  | cons code codes ih =>
    have first : t.segments <+: (t.place code).segments :=
      (code.write_grows t).trans (List.prefix_append _ _)
    exact first.trans (ih (t.place code))

theorem removeLine_keeps {t : TextTree} {before : List Segment} {content : TextTree}
    (h : before ++ [.slot content] <+: t.segments) :
    before ++ [.slot content] <+: t.removeLine.segments := by
  obtain ⟨after, eq⟩ := h
  rw [removeLine]
  split
  · exact ⟨after, eq⟩
  · split
    · rename_i text last
      rcases List.eq_nil_or_concat after with rfl | ⟨others, _, rfl⟩
      · rw [← eq] at last
        simp at last
      · refine ⟨others, ?_⟩
        change _ = t.segments.dropLast
        rw [← eq, List.concat_eq_append, ← List.append_assoc, List.dropLast_concat]
    · exact ⟨after, eq⟩

end TextTree

namespace Options

theorem segments_opening (o : Options) :
    ∃ package empty, o.opening.segments
      = [.line package] ++ [.line empty] ++ [.slot (.empty 0 o.indent)] := by
  rw [opening, TextTree.appendLine]
  split <;> exact ⟨_, _, rfl⟩

end Options

namespace Session

theorem writePreamble_start (g : ModuleGraph) (types : TypeTable) (o : Options) :
    (start g types o).writePreamble
      = (⟨2⟩, { start g types o with outputs := .start "output" o.opening }) := by
  rw [Options.opening, writePreamble, start]
  simp only [Stack.modifyTop_start, Stack.top_start, TextTree.appendLine]
  split <;> rfl

/-- The slot for imports is still there when all functions are written. -/
theorem fillImports_ok {s : Session} {t content : TextTree} (outputs : s.outputs = .start "output" t)
    (slot : t.segments[2]? = some (.slot content)) :
    s.fillImports ⟨2⟩ = .ok { s with
      outputs := .start "output" (.mk (t.segments.set 2 (.slot (content.writeImports s.imports)))
        t.openLine t.depth t.unit) } := by
  have lt : 2 < t.segments.length := (List.getElem?_eq_some_iff.1 slot).1
  let emptied := TextTree.mk
    (t.segments.set 2 (.slot (.empty content.depth content.unit))) t.openLine t.depth t.unit
  have taken : t.take ⟨2⟩ = .ok (content, emptied) := TextTree.take_eq slot
  have slot' : emptied.segments[(⟨2⟩ : SlotId).index]?
      = some (.slot (.empty content.depth content.unit)) := List.getElem?_set_self lt
  have filled := TextTree.fill_eq slot' (content.writeImports s.imports)
  have top : s.outputs.top = t := by rw [outputs, Stack.top_start]
  rw [fillImports, top, taken]
  simp only [modifyOutput, outputs, Stack.modifyTop_start]
  change (emptied.fill ⟨2⟩ (content.writeImports s.imports) >>= _) = _
  rw [filled]
  simp only [emptied, TextTree.segments, List.set_set]
  rfl

end Session

/-- The Go code of a program is the layout of the code of its functions, and is refused when one of
them is. -/
theorem ModuleGraph.toGo_eq (g : ModuleGraph) (types : TypeTable) (options : Options) :
    g.toGo types options = (codesOf types g.written).map options.layout := by
  have emitted := Session.foldlM_emit g [g.entry.id] g.entry g.entry.program
    { Session.start g types options with outputs := .start "output" options.opening } rfl
  rw [ModuleGraph.toGo, Session.writePreamble_start]
  change (List.foldlM WalkStep.emit _ g.walk >>= _) = _
  rw [ModuleGraph.walk, emitted]
  change ((codesOf types g.written).map _ >>= _) = _
  cases codesOf types g.written with
  | error failure => rfl
  | ok codes =>
    obtain ⟨package, empty, opening⟩ := options.segments_opening
    have kept : options.opening.segments <+: (codes.foldl TextTree.place options.opening).removeLine.segments := by
      rw [opening]
      apply TextTree.removeLine_keeps
      rw [← opening]
      exact TextTree.place_grows _ _
    obtain ⟨after, eq⟩ := kept
    have slot : (codes.foldl TextTree.place options.opening).removeLine.segments[2]?
        = some (.slot (.empty 0 options.indent)) := by
      rw [← eq, opening]
      rfl
    change (guarded (Session.fillImports ⟨2⟩ ((codes.foldl Session.place _).modifyOutput _)) >>= _) = _
    rw [Session.foldl_place, Session.fillImports_ok rfl slot]
    rfl

/-- The code of a program is found along a walk of bounded depth. -/
theorem ModuleGraph.toGo_eq_within (g : ModuleGraph) (types : TypeTable) (options : Options) :
    g.toGo types options = (codesOf types (WalkStep.written g.entry []
      (g.walkWithin g.modules.length [g.entry.id] g.entry))).map options.layout := by
  rw [toGo_eq, written, walk_eq]

theorem ModuleGraph.toGo_eq_ok {g : ModuleGraph} {types : TypeTable} {options : Options} {code : String}
    (h : ((codesOf types (WalkStep.written g.entry []
      (g.walkWithin g.modules.length [g.entry.id] g.entry))).map options.layout).toOption = some code) :
    g.toGo types options = .ok code := by
  rw [← toGo_eq_within] at h
  cases emitted : g.toGo types options with
  | error failure =>
    rw [emitted] at h
    cases h
  | ok found =>
    rw [emitted] at h
    exact congrArg Except.ok (Option.some.inj h)

/-- What is written is the layout of the code of the statements that the walk writes. -/
theorem ModuleGraph.exists_codes_of_toGo {g : ModuleGraph} {types : TypeTable} {options : Options}
    {code : String} (h : g.toGo types options = .ok code) :
    ∃ codes, codesOf types g.written = .ok codes ∧ code = options.layout codes := by
  rw [toGo_eq] at h
  cases written : codesOf types g.written with
  | error failure =>
    rw [written] at h
    cases h
  | ok codes =>
    rw [written] at h
    exact ⟨codes, rfl, (Except.ok.inj h).symm⟩

/-- A program is not written because of one of the statements that the walk writes. -/
theorem ModuleGraph.exists_written_of_toGo_error {g : ModuleGraph} {types : TypeTable}
    {options : Options} {failure : Failure} (h : g.toGo types options = .error failure) :
    ∃ w ∈ g.written, w.2.toGoTopLevel ⟨w.1, types⟩ = .error failure := by
  rw [toGo_eq] at h
  cases codes : codesOf types g.written with
  | error other =>
    rw [codes] at h
    cases h
    exact exists_of_codesOf_error codes
  | ok codes' =>
    rw [codes] at h
    cases h

theorem ModuleGraph.exists_of_toGo_error {g : ModuleGraph} {types : TypeTable} {options : Options}
    {failure : Failure} (h : g.toGo types options = .error failure) :
    ∃ w, WalkStep.IsWritten g w ∧ w.2.toGoTopLevel ⟨w.1, types⟩ = .error failure := by
  obtain ⟨w, mem, eq⟩ := exists_written_of_toGo_error h
  exact ⟨w, isWritten mem, eq⟩

end ScriptToGo
