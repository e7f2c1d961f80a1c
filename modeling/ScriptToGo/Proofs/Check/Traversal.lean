import ScriptToGo.Proofs.Check.OpenScopes
import ScriptToGo.Proofs.Check.Steps

/-! What every step of checking keeps is kept through expressions, statements and modules. -/
namespace ScriptToGo
open Check

/-- A use whose fault, if it has one, is neither about modules nor about aliases. -/
def Use.IsLocal (use : Use) : Prop :=
  ∀ fault, use = .target fault →
    (∀ specifier, fault ≠ .unknownModule specifier) ∧ ∀ name, fault ≠ .circularAlias name

theorem Use.IsLocal.value (expected? : Option Ty) : (Use.value expected?).IsLocal := nofun

theorem Use.IsLocal.badStepTarget : (Use.target .badStepTarget).IsLocal := by
  rintro _ ⟨⟩
  simp

theorem Use.IsLocal.badAssignmentTarget : (Use.target .badAssignmentTarget).IsLocal := by
  rintro _ ⟨⟩
  simp

section

variable {R : CheckState → CheckState → Prop} (hR : StepRelation R)
include hR

theorem Check.keeps_settle (file : FileId) {use : Use} (span : Span) {find : Check Ty}
    (known : use.IsLocal) (h : Keeps R find) : Keeps R (settle file use span find) := by
  refine keeps_bind hR (keeps_recording hR file span h) fun type => ?_
  split
  · exact keeps_pure hR _
  · exact keeps_fault hR (known _ rfl).1

mutual

theorem Expr.keeps_check (file : FileId) {use : Use} (known : use.IsLocal) (e : Expr) :
    Keeps R (e.check file use) := by
  match e with
  | .ident span name =>
    rw [Expr.check]
    refine keeps_bind hR (keeps_recording hR _ _ (keeps_typeOfName hR _ _ _)) fun type => ?_
    split
    · exact keeps_pure hR _
    · exact keeps_bind hR (keeps_requireWritable hR _ _ _) fun _ => keeps_pure hR _
  | .member span base property =>
    rw [Expr.check]
    refine keeps_recording hR _ _ (keeps_bind hR (Expr.keeps_check file (.value _) base) fun _ => ?_)
    exact keeps_typeOfMember hR _ _ _
  | .index span base place =>
    rw [Expr.check]
    refine keeps_recording hR _ _ (keeps_bind hR (Expr.keeps_check file (.value _) base) fun _ => ?_)
    exact keeps_bind hR (keeps_discard (Expr.keeps_check file (.value _) place)) fun _ =>
      keeps_pure hR _
  | .paren span inner =>
    rw [Expr.check]
    exact keeps_recording hR _ _ (Expr.keeps_check file known inner)
  | .number .. | .string .. | .boolean .. | .null .. =>
    rw [Expr.check]
    exact keeps_settle hR _ _ known (keeps_pure hR _)
  | .template span head holes =>
    rw [Expr.check]
    exact keeps_settle hR _ _ known (keeps_bind hR (TemplateHole.keeps_checkAll file holes) fun _ =>
      keeps_pure hR _)
  | .array span elements =>
    rw [Expr.check]
    refine keeps_settle hR _ _ known (keeps_bind hR (Expr.keeps_checkElements file _ elements) fun _ => ?_)
    split <;> exact keeps_pure hR _
  | .object span properties =>
    rw [Expr.check]
    exact keeps_settle hR _ _ known (keeps_bind hR (Property.keeps_checkAll file _ properties) fun _ =>
      keeps_pure hR _)
  | .leading span op opSpan operand =>
    rw [Expr.check]
    refine keeps_settle hR _ _ known (keeps_bind hR (Expr.keeps_check file ?_ operand) fun _ => ?_)
    · split
      · exact .badStepTarget
      · exact .value _
    · split <;> exact keeps_pure hR _
  | .trailing span operand op opSpan =>
    rw [Expr.check]
    refine keeps_settle hR _ _ known (keeps_bind hR (keeps_discard ?_) fun _ => keeps_pure hR _)
    exact Expr.keeps_check file .badStepTarget operand
  | .binary span left op opSpan right =>
    rw [Expr.check]
    apply keeps_settle hR _ _ known
    split
    · refine keeps_bind hR (Expr.keeps_check file .badAssignmentTarget left) fun _ => ?_
      exact keeps_bind hR (Expr.keeps_check file (.value _) right) fun _ => keeps_pure hR _
    · refine keeps_bind hR (Expr.keeps_check file (.value _) left) fun _ => ?_
      exact keeps_bind hR (Expr.keeps_check file (.value _) right) fun _ => keeps_pure hR _
  | .call span callee args =>
    rw [Expr.check]
    refine keeps_settle hR _ _ known (keeps_bind hR (Expr.keeps_check file (.value _) callee) fun _ => ?_)
    split
    · refine keeps_bind hR (keeps_callsGlobal hR _ _) fun _ => ?_
      split
      · refine keeps_bind hR (keeps_report hR (by simp)) fun _ => ?_
        exact keeps_bind hR (Expr.keeps_checkArgs file _ args) fun _ => keeps_pure hR _
      · exact keeps_bind hR (Expr.keeps_checkArgs file _ args) fun _ => keeps_pure hR _
    · refine keeps_bind hR (Expr.keeps_checkArgs file _ args) fun _ => ?_
      split
      · exact keeps_pure hR _
      · exact keeps_fault hR (by simp)
  | .conditional span condition whenTrue whenFalse =>
    rw [Expr.check]
    apply keeps_settle hR _ _ known
    refine keeps_bind hR (keeps_discard (Expr.keeps_check file (.value _) condition)) fun _ => ?_
    refine keeps_bind hR (Expr.keeps_check file (.value _) whenTrue) fun _ => ?_
    exact keeps_bind hR (keeps_discard (Expr.keeps_check file (.value _) whenFalse)) fun _ =>
      keeps_pure hR _
  | .cast span operand type =>
    rw [Expr.check]
    apply keeps_settle hR _ _ known
    exact keeps_bind hR (keeps_discard (Expr.keeps_check file (.value _) operand)) fun _ =>
      keeps_resolveType hR _ _

theorem Expr.keeps_checkElements (file : FileId) (expected? : Option Ty) (elements : List Expr) :
    Keeps R (Expr.checkElements file expected? elements) := by
  match elements with
  | [] =>
    rw [Expr.checkElements]
    exact keeps_pure hR _
  | e :: rest =>
    rw [Expr.checkElements]
    refine keeps_bind hR (Expr.keeps_check file (.value _) e) fun _ => ?_
    exact keeps_bind hR (Expr.keeps_checkElements file _ rest) fun _ => keeps_pure hR _

theorem Expr.keeps_checkArgs (file : FileId) (params : List Field) (args : List Expr) :
    Keeps R (Expr.checkArgs file params args) := by
  match args with
  | [] =>
    rw [Expr.checkArgs]
    exact keeps_pure hR _
  | e :: rest =>
    rw [Expr.checkArgs]
    refine keeps_bind hR (keeps_discard (Expr.keeps_check file (.value _) e)) fun _ => ?_
    exact Expr.keeps_checkArgs file _ rest

theorem Property.keeps_checkAll (file : FileId) (fields : List Field) (properties : List Property) :
    Keeps R (Property.checkAll file fields properties) := by
  match properties with
  | [] =>
    rw [Property.checkAll]
    exact keeps_pure hR _
  | .assign _ name value :: rest =>
    rw [Property.checkAll]
    refine keeps_bind hR (Expr.keeps_check file (.value _) value) fun _ => ?_
    exact Property.keeps_checkAll file _ rest
  | .shorthand _ name :: rest =>
    rw [Property.checkAll]
    refine keeps_bind hR (keeps_recording hR _ _ ?_) fun _ => Property.keeps_checkAll file _ rest
    exact keeps_bind hR (keeps_typeOfName hR _ _ _) fun _ => keeps_pure hR _
  | .spread _ value :: rest =>
    rw [Property.checkAll]
    refine keeps_bind hR (Expr.keeps_check file (.value _) value) fun _ => ?_
    refine keeps_bind hR (keeps_fields? hR _) fun _ => ?_
    split
    · exact Property.keeps_checkAll file _ rest
    · split
      · exact Property.keeps_checkAll file _ rest
      · exact keeps_bind hR (keeps_report hR (by simp)) fun _ => Property.keeps_checkAll file _ rest

theorem TemplateHole.keeps_checkAll (file : FileId) (holes : List TemplateHole) :
    Keeps R (TemplateHole.checkAll file holes) := by
  match holes with
  | [] =>
    rw [TemplateHole.checkAll]
    exact keeps_pure hR _
  | .mk value _ :: rest =>
    rw [TemplateHole.checkAll]
    refine keeps_bind hR (keeps_discard (Expr.keeps_check file (.value _) value)) fun _ => ?_
    exact TemplateHole.keeps_checkAll file rest

end

theorem Check.keeps_bindParams (file : FileId) (params : List Param) (fields : List Field) :
    Keeps R (bindParams file params fields) := by
  induction params generalizing fields with
  | nil => exact keeps_pure hR _
  | cons p rest ih =>
    cases fields with
    | nil => exact keeps_pure hR _
    | cons f fields => exact keeps_bind hR (keeps_bindName hR _ _ _ _) fun _ => ih fields

theorem Check.keeps_inFunction (file : FileId) (head : FunctionHead) {work : Check PUnit}
    (h : Keeps R work) : Keeps R (inFunction file head work) := by
  refine keeps_bind hR (keeps_recordedParams hR _ _) fun params => ?_
  refine keeps_bind hR (keeps_recordedReturns hR _ _) fun returns => keeps_inScope hR _ ?_
  refine keeps_bind hR (keeps_setReturnType hR _) fun _ => ?_
  exact keeps_bind hR (keeps_bindParams hR _ _ _) fun _ => h

theorem Check.keeps_inBranch (branch : Statement) {work : Check PUnit} (h : Keeps R work) :
    Keeps R (inBranch branch work) := by
  rw [inBranch.eq_def]
  split
  · exact h
  · exact keeps_inScope hR _ h

theorem Check.keeps_checkValue (file : FileId) (e : Expr) : Keeps R (checkValue file e) :=
  keeps_discard (Expr.keeps_check hR file (.value _) e)

theorem Declarator.keeps_check (file : FileId) (keyword : VariableKeyword) (d : Declarator) :
    Keeps R (d.check file keyword) := by
  refine keeps_bind hR (keeps_optionMapM hR fun t => keeps_resolveType hR file t) fun written => ?_
  refine keeps_bind hR (keeps_optionMapM hR fun e => Expr.keeps_check hR file (.value _) e) fun _ => ?_
  split
  · refine keeps_bind hR (keeps_report hR (by simp)) fun _ => ?_
    exact keeps_bind hR (keeps_record hR _ _ _) fun _ => keeps_bindName hR _ _ _ _
  · exact keeps_bind hR (keeps_record hR _ _ _) fun _ => keeps_bindName hR _ _ _ _

theorem VariableList.keeps_check (file : FileId) (list : VariableList) : Keeps R (list.check file) :=
  keeps_forM hR fun d _ => Declarator.keeps_check hR file _ d

theorem LoopStart.keeps_check (file : FileId) (start : LoopStart) : Keeps R (start.check file) := by
  cases start with
  | nothing => exact keeps_pure hR _
  | «variables» _ list => exact VariableList.keeps_check hR file list
  | expression value => exact keeps_checkValue hR file value

theorem LoopClauses.keeps_check (file : FileId) (clauses : LoopClauses) :
    Keeps R (clauses.check file) := by
  refine keeps_bind hR (LoopStart.keeps_check hR file clauses.start) fun _ => ?_
  refine keeps_bind hR (keeps_optionForM hR fun e => keeps_checkValue hR file e) fun _ => ?_
  exact keeps_optionForM hR fun e => keeps_checkValue hR file e

mutual

theorem Statement.keeps_check (file : FileId) (s : Statement) : Keeps R (s.check file) := by
  match s with
  | .function _ head _ body =>
    rw [Statement.check]
    refine keeps_bind hR (keeps_collectFunction hR _ _ _) fun _ => ?_
    exact keeps_inFunction hR _ _ (Statement.keeps_checkAll file body)
  | .overload _ head =>
    rw [Statement.check]
    refine keeps_bind hR (keeps_collectFunction hR _ _ _) fun _ => ?_
    exact keeps_inFunction hR _ _ (keeps_pure hR _)
  | .importing .. | .interface .. | .typeAlias .. =>
    rw [Statement.check]
    exact keeps_report hR (by simp)
  | .block _ body =>
    rw [Statement.check]
    exact keeps_inScope hR _ (Statement.keeps_checkAll file body)
  | .expression _ value =>
    rw [Statement.check]
    exact keeps_checkValue hR file value
  | .forLoop _ clauses body =>
    rw [Statement.check]
    refine keeps_inScope hR _ (keeps_bind hR (LoopClauses.keeps_check hR file clauses) fun _ => ?_)
    exact keeps_inBranch hR body (Statement.keeps_check file body)
  | .returning _ value? =>
    rw [Statement.check]
    refine keeps_bind hR (keeps_get hR) fun s => ?_
    dsimp only
    have value : ∀ expected?, Keeps R (value?.forM fun value =>
        discard (value.check file (.value expected?))) := fun expected? =>
      keeps_optionForM hR fun e => keeps_discard (Expr.keeps_check hR file (.value _) e)
    split
    · exact keeps_bind hR (keeps_report hR (by simp)) fun _ => value _
    · exact value _
  | .«variables» _ list =>
    rw [Statement.check]
    exact VariableList.keeps_check hR file list
  | .ifThen _ condition thenBranch =>
    rw [Statement.check]
    refine keeps_bind hR (keeps_checkValue hR file condition) fun _ => ?_
    exact keeps_inBranch hR thenBranch (Statement.keeps_check file thenBranch)
  | .ifElse _ condition thenBranch elseBranch =>
    rw [Statement.check]
    refine keeps_bind hR (keeps_checkValue hR file condition) fun _ => ?_
    refine keeps_bind hR (keeps_inBranch hR thenBranch (Statement.keeps_check file thenBranch)) fun _ => ?_
    exact keeps_inBranch hR elseBranch (Statement.keeps_check file elseBranch)
  | .whileLoop _ condition body =>
    rw [Statement.check]
    refine keeps_bind hR (keeps_checkValue hR file condition) fun _ => ?_
    exact keeps_inBranch hR body (Statement.keeps_check file body)
  | .doLoop _ body condition =>
    rw [Statement.check]
    refine keeps_bind hR (keeps_inBranch hR body (Statement.keeps_check file body)) fun _ => ?_
    exact keeps_checkValue hR file condition
  | .empty _ =>
    rw [Statement.check]
    exact keeps_pure hR _

theorem Statement.keeps_checkAll (file : FileId) (statements : List Statement) :
    Keeps R (Statement.checkAll file statements) := by
  match statements with
  | [] =>
    rw [Statement.checkAll]
    exact keeps_pure hR _
  | s :: rest =>
    rw [Statement.checkAll]
    exact keeps_bind hR (Statement.keeps_check file s) fun _ => Statement.keeps_checkAll file rest

end

namespace Check

theorem keeps_bindImported (file : FileId) (name : Name) (owner : FileId) (head : FunctionHead)
    (hasBody : Bool) : Keeps R (bindImported file name owner head hasBody) := by
  refine keeps_bind hR (keeps_recordedParams hR _ _) fun _ => ?_
  exact keeps_bind hR (keeps_recordedReturns hR _ _) fun _ => keeps_define hR _ _ _ _

theorem keeps_checkImportedName (file : FileId) (specifier : String) (m : Module)
    (entry : ImportedName) : Keeps R (checkImportedName file specifier m entry) := by
  rw [checkImportedName]
  split
  · exact keeps_bindImported hR _ _ _ _ _
  · split
    · refine keeps_bind hR (keeps_kind? hR _) fun kind => ?_
      split
      · exact keeps_define hR _ _ _ _
      · exact keeps_pure hR _
    · exact keeps_pure hR _
  · exact keeps_report hR (by simp)

/-- Reporting that a module is unknown is the one step that an import may add. -/
theorem keeps_checkImport (g : ModuleGraph) (file : FileId) (decl : ImportDecl)
    (unknown : g.resolveImport file decl.specifier.text = none →
      Keeps R (report file (.unknownModule decl.specifier.text) decl.specifier.span)) :
    Keeps R (checkImport g file decl) := by
  rw [checkImport]
  split
  · exact unknown ‹_›
  · refine keeps_bind hR (keeps_optionForM hR fun _ => keeps_report hR (by simp)) fun _ => ?_
    refine keeps_bind hR (keeps_optionForM hR fun name => ?_) fun _ => ?_
    · split
      · exact keeps_bindImported hR _ _ _ _ _
      · exact keeps_report hR (by simp)
    · exact keeps_forM hR fun entry _ => keeps_checkImportedName hR _ _ _ entry

/-- What holds over every step of checking holds over that of a statement. -/
theorem keeps_checkTopLevel (g : ModuleGraph) (file : FileId) (s : Statement)
    (unknown : ∀ decl, s.import? = some decl →
      g.resolveImport file decl.specifier.text = none →
        Keeps R (report file (.unknownModule decl.specifier.text) decl.specifier.span)) :
    Keeps R (checkTopLevel g file s) := by
  match s with
  | .function _ head _ body => exact keeps_inFunction hR _ _ (Statement.keeps_checkAll hR _ body)
  | .overload _ head => exact keeps_inFunction hR _ _ (keeps_pure hR _)
  | .importing span decl => exact keeps_checkImport hR g file decl (unknown decl rfl)
  | .interface .. | .typeAlias .. => exact keeps_pure hR _
  | .block .. | .expression .. | .forLoop .. | .returning .. | .«variables» .. | .ifThen ..
  | .ifElse .. | .whileLoop .. | .doLoop .. | .empty .. => exact Statement.keeps_check hR file _

theorem keeps_checkModule (g : ModuleGraph) (m : Module)
    (unknown : ∀ decl ∈ m.program.imports, g.resolveImport m.id decl.specifier.text = none →
      Keeps R (report m.id (.unknownModule decl.specifier.text) decl.specifier.span)) :
    Keeps R (checkModule g m) := by
  refine keeps_inScope hR _ (keeps_forM hR fun s hs => keeps_checkTopLevel hR g m.id s ?_)
  exact fun decl importing => unknown decl (List.mem_filterMap.2 ⟨s, hs, importing⟩)

/-- What holds over every step of checking holds over the checking of all modules. -/
theorem keeps_checkModules (g : ModuleGraph)
    (unknown : ∀ m ∈ g.modules, ∀ decl ∈ m.program.imports,
      g.resolveImport m.id decl.specifier.text = none →
        Keeps R (report m.id (.unknownModule decl.specifier.text) decl.specifier.span)) :
    Keeps R (checkModules g) :=
  keeps_bind hR (keeps_collect hR g) fun _ => keeps_forM hR fun m hm =>
    keeps_checkModule hR g m (unknown m hm)

end Check

end

namespace SymbolTable

variable {s t u : SymbolTable}

/-- A later table is back in the scope of an earlier one, and every scope of that lies where it
did. -/
structure BackIn (s t : SymbolTable) : Prop where
  current : t.currentId = s.currentId
  parents : ∀ (id : ScopeId) (node : NestedScope), s.arena[id]? = some node →
    ∃ later, t.arena[id]? = some later ∧ later.parent? = node.parent?

theorem BackIn.refl (t : SymbolTable) : t.BackIn t := ⟨rfl, fun _ node has => ⟨node, has, rfl⟩⟩

theorem BackIn.trans (first : s.BackIn t) (second : t.BackIn u) : s.BackIn u where
  current := second.current.trans first.current
  parents id node has := by
    obtain ⟨later, there, same⟩ := first.parents id node has
    obtain ⟨last, there, same'⟩ := second.parents id later there
    exact ⟨last, there, same'.trans same⟩

theorem backIn_modifyCurrent {f : Scope → Scope} {symbols : Array Symbol}
    {grows : t.symbols.size ≤ symbols.size} {fits : (f t.current).Fits symbols.size} :
    t.BackIn (t.modifyCurrent f symbols grows fits) where
  current := rfl
  parents id node has := by
    have within := t.current_lt
    by_cases here : id = t.currentId
    · subst here
      obtain rfl := Option.some.inj ((Array.getElem?_eq_getElem within).symm.trans has)
      exact ⟨_, Array.getElem?_set_self within, rfl⟩
    · exact ⟨node, (arena_modifyCurrent_of_ne here).trans has, rfl⟩

/-- A scope that is closed again gives way to the one in which it was opened. -/
theorem BackIn.exit {kind : ScopeKind} (h : (s.enter kind).BackIn t) : s.BackIn t.exit := by
  have within := t.current_lt
  obtain ⟨later, there, same⟩ := h.parents s.arena.size _ Array.getElem?_push_size
  have here : t.currentId = s.arena.size := h.current
  rw [← here, Array.getElem?_eq_getElem within, Option.some_inj] at there
  refine ⟨currentId_exit_of_parent (there ▸ same), fun id node has => h.parents id node ?_⟩
  obtain ⟨inside, -⟩ := Array.getElem?_eq_some_iff.1 has
  exact ((Array.getElem?_push_lt inside).trans (Array.getElem?_eq_getElem inside).symm).trans has

end SymbolTable

open SymbolTable

/-- Every step of checking ends in the scope in which it began. -/
theorem stepRelation_backIn : StepRelation fun s t => s.symbols.BackIn t.symbols where
  refl s := .refl s.symbols
  trans := BackIn.trans
  report s _ _ := .refl s.symbols
  record s _ _ _ := .refl s.symbols
  define s name kind span file? := by
    change s.symbols.BackIn (s.symbols.define name kind span file?)
    rw [SymbolTable.define]
    exact backIn_modifyCurrent
  setKind s _ _ := ⟨rfl, fun _ node has => ⟨node, has, rfl⟩⟩
  setReturnType s type := by
    change s.symbols.BackIn (s.symbols.setReturnType type)
    rw [SymbolTable.setReturnType]
    exact backIn_modifyCurrent
  scope _ _ _ inside := inside.exit

/-- When all modules are checked, only the global scope is open. -/
theorem ModuleGraph.currentId_checkModules (g : ModuleGraph) :
    ((Check.checkModules g).run .initial).2.symbols.currentId = 0 :=
  (Check.keeps_checkModules stepRelation_backIn g (fun _ _ _ _ _ _ => .refl _) .initial).current

end ScriptToGo
