import ScriptToGo.Check.Module

/-! What every step of checking keeps, all of checking keeps. -/
namespace ScriptToGo

/-- A relation between the states before and after some checking that holds over every single step
of work that only looks at what is known. -/
structure ReportRelation (R : CheckState → CheckState → Prop) : Prop where
  refl : ∀ s, R s s
  trans : ∀ {s t u}, R s t → R t u → R s u
  report : ∀ (s : CheckState) (e : TypeError), (∀ specifier, e.fault ≠ .unknownModule specifier) →
    R s (s.report e)

/-- A relation between the states before and after some checking that holds over every single step
of finding what a written type stands for. -/
structure LookupRelation (R : CheckState → CheckState → Prop) : Prop extends ReportRelation R where
  record : ∀ (s : CheckState) (file : FileId) (span : Span) (type : Ty), R s (s.record file span type)
  expand : ∀ (s : CheckState) (id : SymbolId) (written : TypeExpr) (target : Ty),
    R s { s with symbols := s.symbols.setKind id (.«alias» written (some target)) }

/-- A relation between the states before and after some checking that holds over every single
step. Work inside a scope is a single step once the scope is closed. -/
structure StepRelation (R : CheckState → CheckState → Prop) : Prop extends LookupRelation R where
  define : ∀ (s : CheckState) (name : String) (kind : SymbolKind) (span : Span) (file? : Option FileId),
    R s { s with symbols := s.symbols.define name kind span file? }
  setKind : ∀ (s : CheckState) (id : SymbolId) (kind : SymbolKind),
    R s { s with symbols := s.symbols.setKind id kind }
  setReturnType : ∀ (s : CheckState) (type : Ty),
    R s { s with symbols := s.symbols.setReturnType type }
  scope : ∀ (s t : CheckState) (kind : ScopeKind), R { s with symbols := s.symbols.enter kind } t →
    R s { t with symbols := t.symbols.exit }
  expand := fun s id _ _ => setKind s id _

instance {R : CheckState → CheckState → Prop} : Coe (LookupRelation R) (ReportRelation R) :=
  ⟨LookupRelation.toReportRelation⟩

instance {R : CheckState → CheckState → Prop} : Coe (StepRelation R) (LookupRelation R) :=
  ⟨StepRelation.toLookupRelation⟩

namespace Check

variable {R : CheckState → CheckState → Prop} {α β : Type}

/-- The states before and after some checking are related. -/
def Keeps (R : CheckState → CheckState → Prop) (work : Check α) : Prop := ∀ s, R s (work.run s).2

theorem keeps_map {x : Check α} (f : α → β) (h : Keeps R x) : Keeps R (f <$> x) := h

theorem keeps_discard {x : Check α} (h : Keeps R x) : Keeps R (discard x) := h

/-- Work that begins with a look at the state may use what it sees there. -/
theorem keeps_read {f : CheckState → Check β} (h : ∀ s, R s ((f s).run s).2) :
    Keeps R ((get : Check CheckState) >>= f) := h

section

variable (hR : ReportRelation R)
include hR

theorem keeps_pure (a : α) : Keeps R (pure a) := fun s => hR.refl s

theorem keeps_bind {x : Check α} {f : α → Check β} (first : Keeps R x) (next : ∀ a, Keeps R (f a)) :
    Keeps R (x >>= f) :=
  fun s => hR.trans (first s) (next _ _)

theorem keeps_get : Keeps R (get : Check CheckState) := fun s => hR.refl s

theorem keeps_report {file : FileId} {fault : TypeFault} {span : Span}
    (known : ∀ specifier, fault ≠ .unknownModule specifier) :
    Keeps R (report file fault span) :=
  fun s => hR.report s ⟨file, fault, span⟩ known

theorem keeps_fault {file : FileId} {fault : TypeFault} {span : Span}
    (known : ∀ specifier, fault ≠ .unknownModule specifier) :
    Keeps R (Check.fault file fault span) :=
  keeps_bind hR (keeps_report hR known) fun _ => keeps_pure hR _

theorem keeps_recorded? (file : FileId) (span : Span) : Keeps R (recorded? file span) :=
  keeps_bind hR (keeps_get hR) fun _ => keeps_pure hR _

theorem keeps_kind? (name : String) : Keeps R (kind? name) :=
  keeps_bind hR (keeps_get hR) fun _ => keeps_pure hR _

theorem keeps_forM {list : List α} {f : α → Check PUnit} (h : ∀ a ∈ list, Keeps R (f a)) :
    Keeps R (list.forM f) := by
  induction list with
  | nil => exact keeps_pure hR _
  | cons a rest ih =>
    exact keeps_bind hR (h a List.mem_cons_self) fun _ => ih fun b hb => h b (List.mem_cons_of_mem a hb)

theorem keeps_optionForM {a? : Option α} {f : α → Check PUnit} (h : ∀ a, Keeps R (f a)) :
    Keeps R (a?.forM f) := by
  cases a? with
  | none => exact keeps_pure hR _
  | some a => exact h a

theorem keeps_optionMapM {a? : Option α} {f : α → Check β} (h : ∀ a, Keeps R (f a)) :
    Keeps R (a?.mapM f) := by
  cases a? with
  | none => exact keeps_pure hR _
  | some a => exact keeps_map _ (h a)

mutual

theorem keeps_typeOf (file : FileId) {expand : String → Span → Check Ty}
    (h : ∀ name span, Keeps R (expand name span)) (t : TypeExpr) : Keeps R (typeOf file expand t) := by
  match t with
  | .named span name args =>
    rw [typeOf]
    refine keeps_bind hR (keeps_typesOf file h args) fun types => ?_
    split
    · split
      · exact keeps_pure hR _
      · exact keeps_fault hR (by simp)
    · refine keeps_bind hR (keeps_kind? hR name) fun kind => ?_
      split
      · split
        · exact keeps_bind hR (keeps_report hR (by simp)) fun _ => keeps_pure hR _
        · exact keeps_pure hR _
      · exact keeps_pure hR _
      · exact h name span
      · exact keeps_fault hR (by simp)
      · exact keeps_fault hR (by simp)
  | .array span element =>
    rw [typeOf]
    exact keeps_bind hR (keeps_typeOf file h element) fun _ => keeps_pure hR _
  | .object span members =>
    rw [typeOf]
    exact keeps_bind hR (keeps_fieldsOf file h members) fun _ => keeps_pure hR _
  | .string .. | .number .. | .boolean .. | .null .. =>
    rw [typeOf]
    exact keeps_pure hR _

theorem keeps_typesOf (file : FileId) {expand : String → Span → Check Ty}
    (h : ∀ name span, Keeps R (expand name span)) (types : List TypeExpr) :
    Keeps R (typesOf file expand types) := by
  match types with
  | [] =>
    rw [typesOf]
    exact keeps_pure hR _
  | t :: rest =>
    rw [typesOf]
    refine keeps_bind hR (keeps_typeOf file h t) fun _ => ?_
    exact keeps_bind hR (keeps_typesOf file h rest) fun _ => keeps_pure hR _

theorem keeps_fieldsOf (file : FileId) {expand : String → Span → Check Ty}
    (h : ∀ name span, Keeps R (expand name span)) (members : List Member) :
    Keeps R (fieldsOf file expand members) := by
  match members with
  | [] =>
    rw [fieldsOf]
    exact keeps_pure hR _
  | .mk _ name _ t :: rest =>
    rw [fieldsOf]
    refine keeps_bind hR (keeps_typeOf file h t) fun _ => ?_
    exact keeps_bind hR (keeps_fieldsOf file h rest) fun _ => keeps_pure hR _

end

theorem keeps_definedNames : Keeps R definedNames :=
  keeps_bind hR (keeps_get hR) fun _ => keeps_pure hR _

theorem keeps_ownGlobal? (file : FileId) (name : Name) : Keeps R (ownGlobal? file name) :=
  keeps_bind hR (keeps_get hR) fun _ => keeps_pure hR _

theorem keeps_recordedParams (file : FileId) (params : List Param) :
    Keeps R (recordedParams file params) := by
  induction params with
  | nil => exact keeps_pure hR _
  | cons p rest ih =>
    exact keeps_bind hR (keeps_recorded? hR _ _) fun _ => keeps_bind hR ih fun _ => keeps_pure hR _

theorem keeps_recordedReturns (file : FileId) (head : FunctionHead) :
    Keeps R (recordedReturns file head) := by
  rw [recordedReturns]
  split
  · exact keeps_pure hR _
  · exact keeps_bind hR (keeps_recorded? hR _ _) fun _ => keeps_pure hR _

theorem keeps_typeOfName (file : FileId) (name : String) (span : Span) :
    Keeps R (typeOfName file name span) := by
  refine keeps_bind hR (keeps_kind? hR name) fun kind => ?_
  split
  · exact keeps_pure hR _
  · exact keeps_pure hR _
  · exact keeps_pure hR _
  · exact keeps_fault hR (by simp)
  · exact keeps_fault hR (by simp)
  · exact keeps_fault hR (by simp)
  · exact keeps_fault hR (by simp)

theorem keeps_requireWritable (file : FileId) (name : String) (span : Span) :
    Keeps R (requireWritable file name span) := by
  refine keeps_bind hR (keeps_kind? hR name) fun kind => ?_
  split
  · exact keeps_report hR (by simp)
  · exact keeps_report hR (by simp)
  · exact keeps_pure hR _

theorem keeps_fields? (type : Ty) : Keeps R (fields? type) := by
  rw [fields?]
  split
  · exact keeps_pure hR _
  · refine keeps_bind hR (keeps_kind? hR _) fun kind => ?_
    split <;> exact keeps_pure hR _
  · exact keeps_pure hR _

theorem keeps_typeOfMember (file : FileId) (object : Ty) (property : Name) :
    Keeps R (typeOfMember file object property) := by
  refine keeps_bind hR (keeps_fields? hR _) fun fields => ?_
  dsimp only
  split
  · exact keeps_pure hR _
  · split
    · exact keeps_pure hR _
    · split
      · exact keeps_pure hR _
      · split
        · exact keeps_pure hR _
        · exact keeps_fault hR (by simp)
      · exact keeps_fault hR (by simp)

theorem keeps_callsGlobal (file : FileId) (e : Expr) : Keeps R (callsGlobal file e) := by
  rw [callsGlobal.eq_def]
  split
  · exact keeps_bind hR (keeps_recorded? hR _ _) fun _ => keeps_pure hR _
  · exact keeps_pure hR _

end

section

variable (hR : LookupRelation R)
include hR

theorem keeps_record (file : FileId) (span : Span) (type : Ty) : Keeps R (record file span type) :=
  fun s => hR.record s file span type

theorem keeps_expand (id : SymbolId) (written : TypeExpr) (target : Ty) :
    Keeps R (modifySymbols (·.setKind id (.«alias» written (some target)))) :=
  fun s => hR.expand s id written target

theorem keeps_recording (file : FileId) (span : Span) {find : Check Ty} (h : Keeps R find) :
    Keeps R (recording file span find) :=
  keeps_bind hR h fun type => keeps_bind hR (keeps_record hR file span type) fun _ => keeps_pure hR _

theorem keeps_aliasType (free : List String) (file : FileId) (name : String) (span : Span) :
    Keeps R (aliasType free file name span) := by
  rw [aliasType]
  refine keeps_bind hR (keeps_get hR) fun s => ?_
  dsimp only
  split
  · exact keeps_pure hR _
  · split
    · exact keeps_pure hR _
    · rename_i written _ file? _ _
      split
      · rename_i here
        have shorter := length_without_lt here
        refine keeps_bind hR ?_ fun target => ?_
        · apply keeps_recording hR
          exact keeps_typeOf hR _ (fun name span => keeps_aliasType _ _ name span) written
        · exact keeps_bind hR (keeps_expand hR _ _ _) fun _ => keeps_pure hR _
      · exact keeps_fault hR (by simp)
    · exact keeps_pure hR _
termination_by free.length

theorem keeps_resolveAlias (file : FileId) (name : String) (span : Span) :
    Keeps R (resolveAlias file name span) :=
  keeps_bind hR (keeps_definedNames hR) fun free => keeps_aliasType hR free file name span

theorem keeps_resolveType (file : FileId) (t : TypeExpr) : Keeps R (resolveType file t) := by
  refine keeps_bind hR (keeps_definedNames hR) fun free => keeps_recording hR _ _ ?_
  exact keeps_typeOf hR file (fun name span => keeps_aliasType hR free file name span) t

theorem keeps_resolveOptional (file : FileId) (t? : Option TypeExpr) :
    Keeps R (resolveOptional file t?) := by
  cases t? with
  | none => exact keeps_pure hR _
  | some t => exact keeps_resolveType hR file t

theorem keeps_collectMembers (file : FileId) (members : List Member) :
    Keeps R (collectMembers file members) := by
  induction members with
  | nil => exact keeps_pure hR _
  | cons m rest ih =>
    exact keeps_bind hR (keeps_resolveType hR file m.type) fun _ =>
      keeps_bind hR ih fun _ => keeps_pure hR _

theorem keeps_collectParams (file : FileId) (params : List Param) :
    Keeps R (collectParams file params) := by
  induction params with
  | nil => exact keeps_pure hR _
  | cons p rest ih =>
    refine keeps_bind hR (keeps_recording hR _ _ (keeps_resolveOptional hR file p.type?)) fun _ => ?_
    exact keeps_bind hR ih fun _ => keeps_pure hR _

end

/-- Defines a function whose types are known. -/
def defineFunction (file : FileId) (name : Name) (params : List Field) (returns : Ty)
    (hasBody : Bool) : Check PUnit := do
  let symbols := (← get).symbols
  match symbols.lookupLocal name.text with
  | none => define file name.text (.function params returns hasBody) name.span
  | some id =>
    match symbols.symbol? id with
    | some ⟨_, .function params returns hadBody, _, owner, _⟩ =>
      if owner == some file then
        modifySymbols (·.setKind id (.function params returns (hadBody || hasBody)))
        if hadBody && hasBody then
          report file (.duplicateImplementation name.text) name.span
    | _ => report file (.duplicateIdentifier name.text) name.span

/-- A function is collected by finding the types of its parameters and of its result, and then
defining its name. -/
theorem collectFunction_eq (file : FileId) (head : FunctionHead) (hasBody : Bool) :
    collectFunction file head hasBody = (do
      let params ← collectParams file head.params
      let returns ← resolveOptional file head.returns?
      head.name?.forM fun name => defineFunction file name params returns hasBody) := by
  rw [collectFunction]
  cases head.name? <;> rfl

section

variable (hR : StepRelation R)
include hR

theorem keeps_define (file : FileId) (name : String) (kind : SymbolKind) (span : Span) :
    Keeps R (define file name kind span) :=
  fun s => hR.define s name kind span (some file)

theorem keeps_setKind (id : SymbolId) (kind : SymbolKind) :
    Keeps R (modifySymbols (·.setKind id kind)) :=
  fun s => hR.setKind s id kind

theorem keeps_setReturnType (type : Ty) : Keeps R (modifySymbols (·.setReturnType type)) :=
  fun s => hR.setReturnType s type

theorem keeps_inScope (kind : ScopeKind) {work : Check PUnit} (h : Keeps R work) :
    Keeps R (inScope kind work) :=
  fun s => hR.scope s _ kind (h _)

theorem keeps_bindName (file : FileId) (name : Name) (type : Ty) (keyword? : Option VariableKeyword) :
    Keeps R (Check.bind file name type keyword?) := by
  refine keeps_bind hR (keeps_get hR) fun s => ?_
  split
  · cases keyword? with
    | none => exact keeps_report hR (by simp)
    | some keyword => exact keeps_report hR (by simp)
  · exact keeps_define hR _ _ _ _

theorem keeps_defineGlobal (file : FileId) (name : Name) (kind : SymbolKind) :
    Keeps R (defineGlobal file name kind) := by
  refine keeps_bind hR (keeps_get hR) fun s => ?_
  dsimp only
  split
  · exact keeps_define hR _ _ _ _
  · split
    · exact keeps_report hR (by simp)
    · exact keeps_pure hR _

theorem keeps_collectTypeName (file : FileId) (s : Statement) : Keeps R (collectTypeName file s) := by
  rw [collectTypeName.eq_def]
  split
  · exact keeps_defineGlobal hR _ _ _
  · exact keeps_defineGlobal hR _ _ _
  · exact keeps_pure hR _

theorem keeps_defineFunction (file : FileId) (name : Name) (params : List Field) (returns : Ty)
    (hasBody : Bool) : Keeps R (defineFunction file name params returns hasBody) := by
  refine keeps_bind hR (keeps_get hR) fun s => ?_
  dsimp only
  split
  · exact keeps_define hR _ _ _ _
  · split
    · split
      · refine keeps_bind hR (keeps_setKind hR _ _) fun _ => ?_
        split
        · exact keeps_report hR (by simp)
        · exact keeps_pure hR _
      · exact keeps_pure hR _
    · exact keeps_report hR (by simp)

theorem keeps_collectFunction (file : FileId) (head : FunctionHead) (hasBody : Bool) :
    Keeps R (collectFunction file head hasBody) := by
  rw [collectFunction_eq]
  refine keeps_bind hR (keeps_collectParams hR file head.params) fun params => ?_
  refine keeps_bind hR (keeps_resolveOptional hR file head.returns?) fun returns => ?_
  exact keeps_optionForM hR fun name => keeps_defineFunction hR file name params returns hasBody

theorem keeps_collectDeclaration (file : FileId) (s : Statement) :
    Keeps R (collectDeclaration file s) := by
  rw [collectDeclaration.eq_def]
  split
  · refine keeps_bind hR (keeps_collectMembers hR _ _) fun members => ?_
    refine keeps_bind hR (keeps_ownGlobal? hR _ _) fun own => ?_
    split
    · exact keeps_pure hR _
    · refine keeps_bind hR (keeps_get hR) fun s => ?_
      split
      · exact keeps_setKind hR _ _
      · exact keeps_pure hR _
  · refine keeps_bind hR (keeps_ownGlobal? hR _ _) fun own => ?_
    split
    · exact keeps_discard (keeps_resolveAlias hR _ _ _)
    · exact keeps_pure hR _
  · exact keeps_collectFunction hR _ _ _
  · exact keeps_collectFunction hR _ _ _
  · exact keeps_pure hR _

theorem keeps_collect (g : ModuleGraph) : Keeps R (collect g) := by
  refine keeps_bind hR ?_ fun _ => ?_
  · exact keeps_forM hR fun m _ => keeps_forM hR fun s _ => keeps_collectTypeName hR m.id s
  · exact keeps_forM hR fun m _ => keeps_forM hR fun s _ => keeps_collectDeclaration hR m.id s

end

end Check

end ScriptToGo
