import ScriptToGo.Module.Walk
import ScriptToGo.Proofs.Check.Declared
import ScriptToGo.Proofs.Program.Signatures

/-! The types that checking finds are proper, in expressions, statements and whole programs. -/
namespace ScriptToGo
open Check

/-- The type that a value should have is proper. -/
def Use.Proper (Good : String → Prop) (failed : Prop) (use : Use) : Prop :=
  ∀ type ∈ use.expected?, type.Proper Good failed

variable {Good : String → Prop} {s : CheckState}

theorem Use.Proper.mono {use : Use} {failed later : Prop} (h : use.Proper Good failed)
    (more : failed → later) : use.Proper Good later :=
  fun type some => (h type some).mono more

theorem Use.Proper.free {failed : Prop} : (Use.value none).Proper Good failed := nofun

theorem Use.Proper.target {failed : Prop} {fault : TypeFault} :
    (Use.target fault).Proper Good failed := nofun

theorem Use.Proper.some {failed : Prop} {type : Ty} (h : type.Proper Good failed) :
    (Use.value (some type)).Proper Good failed := by
  rintro _ ⟨⟩
  exact h

theorem Check.Yields.settle {find : Check Ty} (h : Yields Good s find (IsType Good)) {file : FileId}
    {use : Use} {span : Span} : Yields Good s (Check.settle file use span find) (IsType Good) := by
  refine h.recording.bind fun type t sound _ proper => ?_
  split
  · exact .pure sound proper
  · exact yields_fault sound

mutual

theorem Expr.yields_check (signs : IgnoresSign Good) {file : FileId} {s : CheckState}
    (sound : s.Sound Good) {use : Use} (wanted : use.Proper Good s.Failed) (e : Expr)
    (good : e.AllTexts Good) : Yields Good s (e.check file use) (IsType Good) := by
  match e with
  | .ident span name =>
    rw [Expr.check]
    refine (yields_typeOfName sound).recording.bind fun type t sound _ proper => ?_
    split
    · exact .pure sound proper
    · exact (yields_requireWritable sound).bind fun _ _ sound more _ =>
        .pure sound (proper.mono more)
  | .member span object property =>
    rw [Expr.check]
    refine (Yields.bind (Expr.yields_check signs sound .free object good.1) ?_).recording
    exact fun type _ sound _ proper => yields_typeOfMember sound proper
  | .index span object index =>
    rw [Expr.check]
    refine (Yields.bind (Expr.yields_check signs sound .free object good.1) ?_).recording
    intro type t sound _ proper
    refine (Expr.yields_check signs sound .free index good.2).discard.bind fun _ _ sound more _ => ?_
    exact .pure sound (proper_typeOfElement (proper.mono more))
  | .paren span inner =>
    rw [Expr.check]
    exact (Expr.yields_check signs sound wanted inner good).recording
  | .number .. | .string .. =>
    rw [Expr.check]
    exact (Yields.pure sound good).settle
  | .boolean .. | .null .. =>
    rw [Expr.check]
    exact (Yields.pure sound trivial).settle
  | .template span head holes =>
    rw [Expr.check]
    refine (Yields.bind (TemplateHole.yields_checkAll signs sound holes good.2) ?_).settle
    exact fun _ _ sound _ _ => .pure sound trivial
  | .array span elements =>
    rw [Expr.check]
    have element : ∀ type ∈ use.expected?.bind Ty.element?, type.Proper Good s.Failed := by
      intro type found
      obtain ⟨whole, some, inner⟩ := Option.bind_eq_some_iff.1 found
      exact (wanted whole some).of_element? inner
    refine (Yields.bind (Expr.yields_checkElements signs sound element elements good) ?_).settle
    intro types t sound more proper
    split
    next _ type found =>
      obtain ⟨some, -⟩ := Option.filter_eq_some_iff.1 found
      exact .pure sound ((wanted type some).mono more)
    · exact .pure sound trivial
    · exact .pure sound proper.1.widened
  | .object span properties =>
    rw [Expr.check]
    refine (Yields.bind (Property.yields_checkAll signs sound .nil properties good) ?_).settle
    exact fun _ _ sound _ proper => .pure sound proper
  | .leading span op opSpan operand =>
    rw [Expr.check]
    have inner : (if op.isUpdate then Use.target .badStepTarget else .value none).Proper Good
        s.Failed := by
      split
      · exact .target
      · exact .free
    refine (Yields.bind (Expr.yields_check signs sound inner operand good) ?_).settle
    intro type t sound _ proper
    split
    · exact .pure sound trivial
    · exact .pure sound (proper_negated signs proper)
    · exact .pure sound trivial
    · exact .pure sound trivial
    · exact .pure sound trivial
  | .trailing span operand op opSpan =>
    rw [Expr.check]
    refine (Yields.bind (Expr.yields_check signs sound .target operand good).discard ?_).settle
    exact fun _ _ sound _ _ => .pure sound trivial
  | .binary span left op opSpan right =>
    rw [Expr.check]
    apply Yields.settle
    split
    · refine (Expr.yields_check signs sound .target left good.1).bind fun target t sound _ first => ?_
      refine (Expr.yields_check signs sound (.some first) right good.2).bind fun _ _ sound more second => ?_
      exact .pure sound (proper_typeOfAssignment op (first.mono more) second)
    · refine (Expr.yields_check signs sound .free left good.1).bind fun _ _ sound _ _ => ?_
      refine (Expr.yields_check signs sound .free right good.2).bind fun _ _ sound _ _ => ?_
      exact .pure sound (proper_typeOfOperation op _ _)
  | .call span callee args =>
    rw [Expr.check]
    refine (Yields.bind (Expr.yields_check signs sound .free callee good.1) ?_).settle
    intro type t sound _ proper
    have inner := proper.resolved
    split
    next params returns is =>
      rw [is] at inner
      refine .callsGlobal fun isGlobal => ?_
      split
      · refine (yields_report sound).bind fun _ _ sound more _ => ?_
        refine (Expr.yields_checkArgs signs sound (inner.1.mono more) args good.2).bind ?_
        exact fun _ _ sound later _ => .pure sound ((inner.2.mono more).mono later)
      · refine (Expr.yields_checkArgs signs sound inner.1 args good.2).bind ?_
        exact fun _ _ sound more _ => .pure sound (inner.2.mono more)
    · refine (Expr.yields_checkArgs signs sound .nil args good.2).bind fun _ _ sound more _ => ?_
      split
      · exact .pure sound (inner.mono more)
      · exact yields_fault sound
  | .conditional span condition whenTrue whenFalse =>
    rw [Expr.check]
    apply Yields.settle
    refine (Expr.yields_check signs sound .free condition good.1).discard.bind fun _ t sound more _ => ?_
    have wanted : (Use.value use.expected?).Proper Good t.Failed :=
      fun type some => (wanted type some).mono more
    refine (Expr.yields_check signs sound wanted whenTrue good.2.1).bind fun _ _ sound more first => ?_
    have wanted := Use.Proper.mono wanted more
    refine (Expr.yields_check signs sound wanted whenFalse good.2.2).discard.bind ?_
    exact fun _ _ sound more _ => .pure sound (first.mono more).widened
  | .cast span operand type =>
    rw [Expr.check]
    refine (Yields.bind (Expr.yields_check signs sound .free operand good.1).discard ?_).settle
    exact fun _ _ sound _ _ => yields_resolveType sound good.2

theorem Expr.yields_checkElements (signs : IgnoresSign Good) {file : FileId} {s : CheckState}
    (sound : s.Sound Good) {expected? : Option Ty}
    (wanted : ∀ type ∈ expected?, type.Proper Good s.Failed) (elements : List Expr)
    (good : Expr.AllTextsOf Good elements) :
    Yields Good s (Expr.checkElements file expected? elements) (AreTypes Good) := by
  match elements with
  | [] =>
    rw [Expr.checkElements]
    exact .pure sound trivial
  | e :: rest =>
    rw [Expr.checkElements]
    have use : (Use.value expected?).Proper Good s.Failed := wanted
    refine (Expr.yields_check signs sound use e good.1).bind fun _ _ sound more first => ?_
    have wanted := fun type some => (wanted type some).mono more
    refine (Expr.yields_checkElements signs sound wanted rest good.2).bind ?_
    exact fun _ _ sound more others => .pure sound ⟨first.mono more, others⟩

theorem Expr.yields_checkArgs (signs : IgnoresSign Good) {file : FileId} {s : CheckState}
    (sound : s.Sound Good) {params : List Field} (wanted : Field.AllProper Good s.Failed params)
    (args : List Expr) (good : Expr.AllTextsOf Good args) :
    Yields Good s (Expr.checkArgs file params args) Anything := by
  match args with
  | [] =>
    rw [Expr.checkArgs]
    exact .pure sound trivial
  | e :: rest =>
    rw [Expr.checkArgs]
    have use : (Use.value (params.head?.map Field.type)).Proper Good s.Failed := by
      cases params with
      | nil => exact .free
      | cons field rest => exact .some (wanted.of_mem field List.mem_cons_self).2
    have left : Field.AllProper Good s.Failed params.tail := by
      cases params with
      | nil => trivial
      | cons field rest => cases field; exact wanted.2.2
    refine (Expr.yields_check signs sound use e good.1).discard.bind fun _ _ sound more _ => ?_
    exact Expr.yields_checkArgs signs sound (left.mono more) rest good.2

theorem Property.yields_checkAll (signs : IgnoresSign Good) {file : FileId} {s : CheckState}
    (sound : s.Sound Good) {fields : List Field} (proper : Field.AllProper Good s.Failed fields)
    (properties : List Property) (good : Property.AllTextsOf Good properties) :
    Yields Good s (Property.checkAll file fields properties) (AreFields Good) := by
  match properties with
  | [] =>
    rw [Property.checkAll]
    exact .pure sound proper
  | .assign _ name value :: rest =>
    rw [Property.checkAll]
    refine (Expr.yields_check signs sound .free value good.2.1).bind fun _ _ sound more type => ?_
    exact Property.yields_checkAll signs sound ((proper.mono more).set good.1 type.widened) rest
      good.2.2
  | .shorthand _ name :: rest =>
    rw [Property.checkAll]
    have type : Yields Good s (do return (← typeOfName file name.text name.span).widened)
        (IsType Good) := (yields_typeOfName sound).bind fun _ _ sound _ type =>
      .pure sound type.widened
    refine type.recording.bind fun _ _ sound more type => ?_
    exact Property.yields_checkAll signs sound ((proper.mono more).set good.1 type) rest good.2
  | .spread _ value :: rest =>
    rw [Property.checkAll]
    refine (Expr.yields_check signs sound .free value good.1).bind fun type t sound more known => ?_
    have proper := proper.mono more
    refine (yields_fields? sound known).bind fun new? u sound more found => ?_
    have proper := proper.mono more
    split
    next new =>
      exact Property.yields_checkAll signs sound (proper.setAll (found new rfl)) rest good.2
    · split
      · exact Property.yields_checkAll signs sound proper rest good.2
      · refine (yields_report sound).bind fun _ _ sound more _ => ?_
        exact Property.yields_checkAll signs sound (proper.mono more) rest good.2

theorem TemplateHole.yields_checkAll (signs : IgnoresSign Good) {file : FileId} {s : CheckState}
    (sound : s.Sound Good) (holes : List TemplateHole)
    (good : TemplateHole.AllTextsOf Good holes) :
    Yields Good s (TemplateHole.checkAll file holes) Anything := by
  match holes with
  | [] =>
    rw [TemplateHole.checkAll]
    exact .pure sound trivial
  | .mk value _ :: rest =>
    rw [TemplateHole.checkAll]
    refine (Expr.yields_check signs sound .free value good.1).discard.bind fun _ _ sound _ _ => ?_
    exact TemplateHole.yields_checkAll signs sound rest good.2.2

end

section

variable (signs : IgnoresSign Good)
include signs

namespace Check

theorem yields_checkValue (sound : s.Sound Good) {file : FileId} {e : Expr}
    (good : e.AllTexts Good) : Yields Good s (checkValue file e) Anything :=
  (Expr.yields_check signs sound .free e good).discard

omit signs in
theorem yields_bindParams (sound : s.Sound Good) {file : FileId} (params : List Param)
    {fields : List Field} (proper : Field.AllProper Good s.Failed fields) :
    Yields Good s (bindParams file params fields) Anything := by
  induction params generalizing s fields with
  | nil => exact .pure sound trivial
  | cons p rest ih =>
    cases fields with
    | nil => exact .pure sound trivial
    | cons field fields =>
      have here := (proper.of_mem field List.mem_cons_self).2
      refine (yields_bindName sound here).bind fun _ _ sound more _ => ih sound ?_
      cases field
      exact proper.2.2.mono more

omit signs in
theorem yields_inFunction (sound : s.Sound Good) {file : FileId} {head : FunctionHead}
    (good : head.AllTexts Good) {work : Check PUnit}
    (h : ∀ t, t.Sound Good → Yields Good t work Anything) :
    Yields Good s (inFunction file head work) Anything := by
  refine (yields_recordedParams sound head.params good.params).bind fun params t sound _ first => ?_
  refine (yields_recordedReturns sound).bind fun returns u sound more second => ?_
  refine yields_inScope sound fun v sound later => ?_
  refine (yields_setReturnType sound (second.mono later)).bind fun _ w sound further _ => ?_
  have params := ((first.mono more).mono later).mono further
  exact (yields_bindParams sound head.params params).bind fun _ x sound _ _ => h x sound

omit signs in
theorem yields_inBranch (sound : s.Sound Good) {branch : Statement} {work : Check PUnit}
    (h : ∀ t, t.Sound Good → Yields Good t work Anything) :
    Yields Good s (inBranch branch work) Anything := by
  rw [inBranch.eq_def]
  split
  · exact h s sound
  · exact yields_inScope sound fun t sound _ => h t sound

end Check

theorem Declarator.yields_check (sound : s.Sound Good) {file : FileId} {keyword : VariableKeyword}
    {d : Declarator} (good : d.AllTexts Good) : Yields Good s (d.check file keyword) Anything := by
  have written := yields_optionMapM (f := resolveType file) sound fun type some =>
    yields_resolveType sound (good.type type some)
  refine written.bind fun written? t sound _ written => ?_
  have inferred := yields_optionMapM (f := (·.check file (.value written?))) sound fun e some =>
    have wanted : (Use.value written?).Proper Good t.Failed := written
    Expr.yields_check signs sound wanted e (good.initializer e some)
  refine inferred.bind fun inferred? u sound more inferred => ?_
  have type := proper_declaredType keyword (fun type some => (written type some).mono more) inferred
  split
  · refine (yields_report sound).bind fun _ v sound more _ => ?_
    refine (yields_record sound (type.mono more)).bind fun _ w sound later _ => ?_
    exact yields_bindName sound ((type.mono more).mono later)
  · refine (yields_record sound type).bind fun _ w sound more _ => ?_
    exact yields_bindName sound (type.mono more)

theorem VariableList.yields_check (sound : s.Sound Good) {file : FileId} {list : VariableList}
    (good : ∀ d ∈ list.declarators, d.AllTexts Good) : Yields Good s (list.check file) Anything :=
  yields_forM sound fun d mem _ sound _ => Declarator.yields_check signs sound (good d mem)

theorem LoopStart.yields_check (sound : s.Sound Good) {file : FileId} {start : LoopStart}
    (good : start.AllTexts Good) : Yields Good s (start.check file) Anything := by
  cases start with
  | nothing => exact .pure sound trivial
  | «variables» _ list => exact VariableList.yields_check signs sound good
  | expression value => exact yields_checkValue signs sound good

theorem LoopClauses.yields_check (sound : s.Sound Good) {file : FileId} {clauses : LoopClauses}
    (good : clauses.AllTexts Good) : Yields Good s (clauses.check file) Anything := by
  refine (LoopStart.yields_check signs sound good.start).bind fun _ _ sound _ _ => ?_
  refine (yields_optionForM sound fun e some => ?_).bind fun _ _ sound _ _ => ?_
  · exact yields_checkValue signs sound (good.condition e some)
  · exact yields_optionForM sound fun e some => yields_checkValue signs sound (good.step e some)

end

mutual

theorem Statement.yields_check (signs : IgnoresSign Good) {s : CheckState} (sound : s.Sound Good) {file : FileId}
    (statement : Statement) (good : statement.AllTexts Good) :
    Yields Good s (statement.check file) Anything := by
  match statement with
  | .function _ head _ body =>
    rw [Statement.check]
    refine (yields_collectFunction sound good.1).bind fun _ _ sound _ _ => ?_
    exact yields_inFunction sound good.1 fun _ sound => Statement.yields_checkAll signs sound body good.2
  | .overload _ head =>
    rw [Statement.check]
    refine (yields_collectFunction sound good).bind fun _ _ sound _ _ => ?_
    exact yields_inFunction sound good fun _ sound => .pure sound trivial
  | .importing .. | .interface .. | .typeAlias .. =>
    rw [Statement.check]
    exact (yields_report sound).anyway
  | .block _ body =>
    rw [Statement.check]
    exact yields_inScope sound fun _ sound _ => Statement.yields_checkAll signs sound body good
  | .expression _ value =>
    rw [Statement.check]
    exact yields_checkValue signs sound good
  | .forLoop _ clauses body =>
    rw [Statement.check]
    refine yields_inScope sound fun _ sound _ => ?_
    refine (LoopClauses.yields_check signs sound good.1).bind fun _ _ sound _ _ => ?_
    exact yields_inBranch sound fun _ sound => Statement.yields_check signs sound body good.2
  | .returning _ value? =>
    rw [Statement.check]
    refine .get ?_
    dsimp only
    have value : ∀ t, t.Sound Good → (s.Failed → t.Failed) →
        Yields Good t (value?.forM fun value =>
          discard (value.check file (.value s.symbols.returnType?))) Anything := by
      refine fun t sound' more => yields_optionForM sound' fun e some => ?_
      have wanted : (Use.value s.symbols.returnType?).Proper Good t.Failed :=
        fun type found => (sound.returnType found).mono more
      exact (Expr.yields_check signs sound' wanted e (good e some)).discard
    split
    · exact (yields_report sound).bind fun _ t sound more _ => value t sound more
    · exact value s sound id
  | .«variables» _ list =>
    rw [Statement.check]
    exact VariableList.yields_check signs sound good
  | .ifThen _ condition thenBranch =>
    rw [Statement.check]
    refine (yields_checkValue signs sound good.1).bind fun _ _ sound _ _ => ?_
    exact yields_inBranch sound fun _ sound => Statement.yields_check signs sound thenBranch good.2
  | .ifElse _ condition thenBranch elseBranch =>
    rw [Statement.check]
    refine (yields_checkValue signs sound good.1).bind fun _ _ sound _ _ => ?_
    refine (yields_inBranch sound fun _ sound =>
      Statement.yields_check signs sound thenBranch good.2.1).bind fun _ _ sound _ _ => ?_
    exact yields_inBranch sound fun _ sound => Statement.yields_check signs sound elseBranch good.2.2
  | .whileLoop _ condition body =>
    rw [Statement.check]
    refine (yields_checkValue signs sound good.1).bind fun _ _ sound _ _ => ?_
    exact yields_inBranch sound fun _ sound => Statement.yields_check signs sound body good.2
  | .doLoop _ body condition =>
    rw [Statement.check]
    refine (yields_inBranch sound fun _ sound =>
      Statement.yields_check signs sound body good.2).bind fun _ _ sound _ _ => ?_
    exact yields_checkValue signs sound good.1
  | .empty _ =>
    rw [Statement.check]
    exact .pure sound trivial

theorem Statement.yields_checkAll (signs : IgnoresSign Good) {s : CheckState} (sound : s.Sound Good) {file : FileId}
    (statements : List Statement) (good : Statement.AllTextsOf Good statements) :
    Yields Good s (Statement.checkAll file statements) Anything := by
  match statements with
  | [] =>
    rw [Statement.checkAll]
    exact .pure sound trivial
  | statement :: rest =>
    rw [Statement.checkAll]
    refine (Statement.yields_check signs sound statement good.1).bind fun _ _ sound _ _ => ?_
    exact Statement.yields_checkAll signs sound rest good.2

end

namespace Check

theorem yields_bindImported (sound : s.Sound Good) {file : FileId} {name : Name} {owner : FileId}
    {head : FunctionHead} {hasBody : Bool} (good : head.AllTexts Good) :
    Yields Good s (bindImported file name owner head hasBody) Anything := by
  refine (yields_recordedParams sound head.params good.params).bind fun _ _ sound _ params => ?_
  refine (yields_recordedReturns sound).bind fun _ _ sound more returns => ?_
  exact yields_define sound ⟨params.mono more, returns⟩

end Check

/-- What a statement declares as a function has good texts. -/
theorem Statement.AllTexts.of_function? {statement : Statement} (good : statement.AllTexts Good)
    {head : FunctionHead} {hasBody : Bool} (found : statement.function? = some (head, hasBody)) :
    head.AllTexts Good := by
  cases statement with
  | function => cases found; exact good.1
  | overload => cases found; exact good
  | _ => cases found

namespace Check

theorem yields_checkImportedName (sound : s.Sound Good) {file : FileId} {specifier : String}
    {m : Module} (good : Statement.AllTextsOf Good m.program) {entry : ImportedName} :
    Yields Good s (checkImportedName file specifier m entry) Anything := by
  rw [checkImportedName]
  split
  next found =>
    obtain ⟨statement, mem, exported⟩ := List.exists_of_findSome?_eq_some found
    exact yields_bindImported sound
      ((good.of_mem statement mem).of_function? (Statement.function?_of_export? exported))
  · split
    · refine .kind? ?_
      split
      next found => exact yields_define sound (sound.kind found)
      · exact .pure sound trivial
    · exact .pure sound trivial
  · exact (yields_report sound).anyway

theorem yields_checkImport {g : ModuleGraph} (sound : s.Sound Good)
    (good : ∀ m ∈ g.modules, Statement.AllTextsOf Good m.program) {file : FileId}
    {decl : ImportDecl} : Yields Good s (checkImport g file decl) Anything := by
  rw [checkImport]
  split
  · exact (yields_report sound).anyway
  next m resolved =>
    have here := good m (ModuleGraph.mem_of_resolveImport resolved)
    refine (yields_optionForM sound fun _ _ => (yields_report sound).anyway).bind
      fun _ t sound _ _ => ?_
    refine (yields_optionForM sound fun name _ => ?_).bind fun _ u sound _ _ => ?_
    · split
      next found =>
        obtain ⟨statement, mem, exported⟩ := List.exists_of_findSome?_eq_some found
        have function := Statement.function?_of_defaultExport? exported
        exact yields_bindImported sound ((here.of_mem statement mem).of_function? function)
      · exact (yields_report sound).anyway
    · exact yields_forM sound fun _ _ _ sound _ => yields_checkImportedName sound here

theorem yields_checkTopLevel (signs : IgnoresSign Good) {g : ModuleGraph} (sound : s.Sound Good)
    (good : ∀ m ∈ g.modules, Statement.AllTextsOf Good m.program) {file : FileId}
    (statement : Statement) (texts : statement.AllTexts Good) :
    Yields Good s (checkTopLevel g file statement) Anything := by
  match statement with
  | .function _ head _ body =>
    exact yields_inFunction sound texts.1 fun _ sound =>
      Statement.yields_checkAll signs sound body texts.2
  | .overload _ head => exact yields_inFunction sound texts fun _ sound => .pure sound trivial
  | .importing _ decl => exact yields_checkImport sound good
  | .interface .. | .typeAlias .. => exact .pure sound trivial
  | .block .. | .expression .. | .forLoop .. | .returning .. | .«variables» .. | .ifThen ..
  | .ifElse .. | .whileLoop .. | .doLoop .. | .empty .. =>
    exact Statement.yields_check signs sound _ texts

theorem yields_checkModules (signs : IgnoresSign Good) {g : ModuleGraph} (sound : s.Sound Good)
    (good : ∀ m ∈ g.modules, Statement.AllTextsOf Good m.program) :
    Yields Good s (checkModules g) Anything := by
  refine (yields_collect sound good).bind fun _ _ sound _ _ => ?_
  refine yields_forM sound fun m mem _ sound _ => yields_inScope sound fun _ sound _ => ?_
  exact yields_forM sound fun statement inside _ sound _ =>
    yields_checkTopLevel signs sound good statement ((good m mem).of_mem statement inside)

end Check

/-- When checking accepts a program whose texts are good, all recorded types are proper, and none
of them is unknown in any part. -/
theorem ModuleGraph.proper_of_check {g : ModuleGraph} {types : TypeTable}
    (signs : IgnoresSign Good)
    (builtins : ∀ entry ∈ SymbolTable.builtins, entry.2.Proper Good False)
    (good : ∀ m ∈ g.modules, Statement.AllTextsOf Good m.program) (h : g.check = .ok types) :
    ∀ file span type, types.typeAt file span = some type → type.Proper Good False := by
  have final := (Check.yields_checkModules signs (CheckState.sound_initial builtins) good).sound
  rw [ModuleGraph.check] at h
  split at h
  next clean =>
    cases h
    intro file span type found
    exact (final.typeAt found).mono fun failed => failed (List.isEmpty_iff.1 clean)
  · cases h

end ScriptToGo
