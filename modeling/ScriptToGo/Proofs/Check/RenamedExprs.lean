import ScriptToGo.Proofs.Check.Parallel
import ScriptToGo.Proofs.Check.Reruns
import ScriptToGo.Proofs.Program.Renaming

/-! Expressions are checked alike whatever local name an import has. -/
namespace ScriptToGo

namespace Rerun

/-- The same moment of both runs. Something is wrong with both or with none. -/
structure Alike (p : Rerun) (sight : Sight) (s t : CheckState) : Prop where
  tables : p.Tables sight s.symbols t.symbols
  errors : s.errors = [] ↔ t.errors = []
  types : ∀ file span,
    Ty.OptionAlike p.back (s.types.typeAt file span) (t.types.typeAt file span)

/-- The fresh name is not among those that nodes, and nodes inside of them, refer to. -/
def Lacks (p : Rerun) (nodes : List Node) : Prop :=
  ∀ n ∈ nodes.flatMap Node.all, p.fresh ∉ n.mentions

variable {p : Rerun} {sight : Sight} {s t : CheckState}

theorem lacks_singleton {n : Node} : p.Lacks [n] ↔ p.fresh ∉ n.mentions ∧ p.Lacks n.inner := by
  rw [Lacks, List.flatMap_singleton, Node.all_eq, List.forall_mem_cons, Lacks]

theorem lacks_append {nodes more : List Node} :
    p.Lacks (nodes ++ more) ↔ p.Lacks nodes ∧ p.Lacks more := by
  rw [Lacks, List.flatMap_append, List.forall_mem_append, Lacks, Lacks]

theorem lacks_cons {n : Node} {rest : List Node} : p.Lacks (n :: rest) ↔ p.Lacks [n] ∧ p.Lacks rest := by
  rw [← List.singleton_append, lacks_append]

namespace Alike

theorem report (h : p.Alike sight s t) (e e' : TypeError) : p.Alike sight (s.report e) (t.report e') :=
  { h with errors := by simp [CheckState.report] }

theorem record (h : p.Alike sight s t) (file : FileId) (span : Span) {type type' : Ty}
    (alike : type.Alike p.back type') :
    p.Alike sight (s.record file span type) (t.record file span type') := by
  refine { h with types := fun other place => ?_ }
  rw [CheckState.record, CheckState.record, TypeTable.typeAt, TypeTable.typeAt, TypeTable.record,
    TypeTable.record, List.lookup_cons, List.lookup_cons]
  split
  · exact alike.some
  · exact h.types other place

/-- Both runs go on with other tables of symbols. -/
theorem withSymbols {later : Sight} (h : p.Alike sight s t) {symbols symbols' : SymbolTable}
    (tables : p.Tables later symbols symbols') :
    p.Alike later { s with symbols } { t with symbols := symbols' } :=
  { tables, errors := h.errors, types := h.types }

end Alike

end Rerun

namespace Check

/-- Two pieces of work that go alike in both runs, with results that are related. -/
def Agrees (p : Rerun) (sight later : Sight) {α β : Type} (rel : α → β → Prop) (x : Check α)
    (y : Check β) : Prop :=
  ∀ s t, p.Alike sight s t → rel (x.run s).1 (y.run t).1 ∧ p.Alike later (x.run s).2 (y.run t).2

/-- Nothing is said about the results. -/
def Whatever {α β : Type} (_ : α) (_ : β) : Prop := True

namespace Agrees

variable {p : Rerun} {sight mid later : Sight} {α β γ δ : Type} {rel : α → β → Prop}
  {rel' : γ → δ → Prop} {x : Check α} {y : Check β} {f : α → Check γ} {g : β → Check δ}

theorem pure {a : α} {b : β} (h : rel a b) :
    Agrees p sight sight rel (Pure.pure a) (Pure.pure b) := fun _ _ alike => ⟨h, alike⟩

theorem nothing : Agrees p sight sight Whatever (Pure.pure ⟨⟩ : Check PUnit) (Pure.pure ⟨⟩ : Check PUnit) :=
  pure trivial

theorem bind (first : Agrees p sight mid rel x y)
    (next : ∀ a b, rel a b → Agrees p mid later rel' (f a) (g b)) :
    Agrees p sight later rel' (x >>= f) (y >>= g) := by
  intro s t alike
  obtain ⟨same, after⟩ := first s t alike
  exact next _ _ same _ _ after

theorem returns (h : Agrees p sight later rel x y) {f : α → γ} {g : β → δ}
    (same : ∀ a b, rel a b → rel' (f a) (g b)) :
    Agrees p sight later rel' (x >>= fun a => Pure.pure (f a)) (y >>= fun b => Pure.pure (g b)) :=
  h.bind fun a b related => pure (same a b related)

theorem discard (h : Agrees p sight later rel x y) :
    Agrees p sight later Whatever (Functor.discard x) (Functor.discard y) := fun s t alike =>
  ⟨trivial, (h s t alike).2⟩

/-- Work that begins with a look at the state. -/
theorem read {f : CheckState → Check γ} {g : CheckState → Check δ}
    (h : ∀ s t, p.Alike sight s t → Agrees p sight later rel' (f s) (g t)) :
    Agrees p sight later rel' (get >>= f) (get >>= g) := fun s t alike => h s t alike s t alike

/-- Work that looks at the state and may use that it starts there. -/
theorem readHere {f : CheckState → Check γ} {g : CheckState → Check δ}
    (h : ∀ s t, p.Alike sight s t → rel' ((f s).run s).1 ((g t).run t).1 ∧
      p.Alike later ((f s).run s).2 ((g t).run t).2) :
    Agrees p sight later rel' (get >>= f) (get >>= g) := h

theorem report {file file' : FileId} {fault fault' : TypeFault} {span span' : Span} :
    Agrees p sight sight Whatever (Check.report file fault span) (Check.report file' fault' span') :=
  fun _ _ alike => ⟨trivial, alike.report _ _⟩

theorem fault {file file' : FileId} {fault fault' : TypeFault} {span span' : Span} :
    Agrees p sight sight (Ty.Alike p.back) (Check.fault file fault span)
      (Check.fault file' fault' span') := report.bind fun _ _ _ => pure rfl

theorem record {type type' : Ty} (same : type.Alike p.back type') (file : FileId) (span : Span) :
    Agrees p sight sight Whatever (Check.record file span type) (Check.record file span type') :=
  fun _ _ alike => ⟨trivial, alike.record file span same⟩

theorem recording {file : FileId} {span : Span} {x y : Check Ty}
    (h : Agrees p sight later (Ty.Alike p.back) x y) :
    Agrees p sight later (Ty.Alike p.back) (Check.recording file span x)
      (Check.recording file span y) :=
  h.bind fun _ _ same => (record same file span).bind fun _ _ _ => pure same

theorem recorded? (file : FileId) (span : Span) :
    Agrees p sight sight (Ty.OptionAlike p.back) (Check.recorded? file span)
      (Check.recorded? file span) := fun _ _ alike => ⟨alike.types file span, alike⟩

/-- What a name stands for is alike. If it is an interface, what the name is in types of the second run
stands for what it is in types of the first. -/
theorem kind?_bind {name : String} (ne : name ≠ p.fresh) {f : Option SymbolKind → Check γ}
    {g : Option SymbolKind → Check δ}
    (h : ∀ a? b?, Option.Rel (SymbolKind.Alike p.back) a? b? →
      ((b?.bind SymbolKind.members?).isSome → name = p.back (p.inSight sight name)) →
        Agrees p sight later rel' (f a?) (g b?)) :
    Agrees p sight later rel' (Check.kind? name >>= f)
      (Check.kind? (p.inSight sight name) >>= g) := fun s t alike =>
  h _ _ (alike.tables.kind?_alike ne) (alike.tables.back_inSight ne) s t alike

/-- What a name stands for at the top level is alike, even if it is not renamed. -/
theorem ownKind?_bind {name : String} (ne : name ≠ p.fresh) (stays : name = p.old → p.Stays)
    {f : Option SymbolKind → Check γ} {g : Option SymbolKind → Check δ}
    (h : ∀ a? b?, Option.Rel (SymbolKind.Alike p.back) a? b? → Agrees p [] later rel' (f a?) (g b?)) :
    Agrees p [] later rel' (Check.kind? name >>= f) (Check.kind? name >>= g) := fun s t alike =>
  h _ _ (alike.tables.kind?_own ne stays) s t alike

theorem define {name : String} (may : Rerun.Tables.MayDefine p sight name) {file : FileId}
    {kind kind' : SymbolKind} (alike : kind.Alike p.back kind') (span : Span) (binding : Binding) :
    Agrees p sight (sight.define name binding) Whatever (Check.define file name kind span)
      (Check.define file name kind' span) := fun _ _ h =>
  ⟨trivial, h.withSymbols (h.tables.define may alike span (some file) binding)⟩

theorem setReturnType (inside : sight ≠ []) {type type' : Ty} (alike : type.Alike p.back type') :
    Agrees p sight sight Whatever (modifySymbols (·.setReturnType type))
      (modifySymbols (·.setReturnType type')) := fun _ _ h =>
  ⟨trivial, h.withSymbols (h.tables.setReturnType inside alike)⟩

theorem setKind {id : SymbolId} (new : p.here.symbols.size ≤ id) {kind kind' : SymbolKind}
    (alike : kind.Alike p.back kind') :
    Agrees p sight sight Whatever (modifySymbols (·.setKind id kind))
      (modifySymbols (·.setKind (id + p.shift) kind')) := fun _ _ h =>
  ⟨trivial, h.withSymbols (h.tables.setKind new alike)⟩

theorem inScope {kind : ScopeKind} {x y : Check PUnit} {later : Sight}
    (h : Agrees p ([] :: sight) later Whatever x y) (outer : later.tail = sight)
    (inside : later ≠ []) :
    Agrees p sight sight Whatever (Check.inScope kind x) (Check.inScope kind y) := by
  obtain ⟨known, rest, rfl⟩ := List.exists_cons_of_ne_nil inside
  obtain rfl : rest = sight := outer
  intro s t alike
  have after := (h _ _ (alike.withSymbols (alike.tables.enter kind))).2
  exact ⟨trivial, after.withSymbols after.tables.exit⟩

theorem optionForM {a? : Option α} {f g : α → Check PUnit}
    (h : ∀ a ∈ a?, Agrees p sight sight Whatever (f a) (g a)) :
    Agrees p sight sight Whatever (a?.forM f) (a?.forM g) := by
  cases a? with
  | none => exact nothing
  | some a => exact h a rfl

theorem forM {list : List α} {f g : α → Check PUnit}
    (h : ∀ a ∈ list, Agrees p sight sight Whatever (f a) (g a)) :
    Agrees p sight sight Whatever (list.forM f) (list.forM g) := by
  induction list with
  | nil => exact nothing
  | cons a rest ih =>
    obtain ⟨here, others⟩ := List.forall_mem_cons.1 h
    exact here.bind fun _ _ _ => ih others

end Agrees

variable {p : Rerun} {sight : Sight}

theorem isWrapper_inSight {name : String} (noWrapper : TypeExpr.isWrapper name = false) :
    TypeExpr.isWrapper (p.inSight sight name) = false := by
  rw [LocalName.inSight]
  split
  next is =>
    rcases p.new_or with new | new
    · rw [new, p.freshPlain]
    · rw [new, ← is.1, noWrapper]
  · exact noWrapper

/-- What the aliases stand for that expanding a name leads to is alike. -/
def ExpandsAlike (p : Rerun) (sight : Sight) (expand expand' : String → Span → Check Ty) : Prop :=
  ∀ name, name ≠ p.fresh → ∀ span, Agrees p sight sight (Ty.Alike p.back) (expand name span)
    (expand' (p.inSight sight name) span)

mutual

theorem agrees_typeOf {file : FileId} {expand expand' : String → Span → Check Ty}
    (h : ExpandsAlike p sight expand expand') (t : TypeExpr) (lacks : p.fresh ∉ t.mentions) :
    Agrees p sight sight (Ty.Alike p.back) (typeOf file expand t)
      (typeOf file expand' (t.renamed (p.inSight sight))) := by
  match t with
  | .named span name args =>
    rw [TypeExpr.renamed, typeOf, typeOf]
    refine (agrees_typesOf h args fun mem => lacks (TypeExpr.mentionsOf_subset mem)).bind ?_
    intro types types' same
    cases wrapper : TypeExpr.isWrapper name with
    | true =>
      have wrapper' : (name == Builtin.arrayName || (Builtin.pointer? name).isSome) = true := wrapper
      rw [if_pos rfl, if_pos wrapper', if_pos wrapper']
      rcases same.single_or with ⟨a, b, rfl, rfl, alike⟩ | ⟨several, several'⟩
      · dsimp only
        split
        · exact .pure alike.array
        · exact .pure (Ty.alike_reference (alike.cons .nil) (p.back_wrapper name wrapper).symm)
      · split
        next a => exact (several a rfl).elim
        · exact .fault
    | false =>
      have ne : name ≠ p.fresh := by
        rintro rfl
        refine lacks ?_
        rw [TypeExpr.mentions, wrapper]
        exact List.mem_cons_self
      have wrapper' : TypeExpr.isWrapper (p.inSight sight name) = false := isWrapper_inSight wrapper
      rw [TypeExpr.isWrapper] at wrapper wrapper'
      rw [if_neg Bool.false_ne_true, wrapper, wrapper', if_neg Bool.false_ne_true,
        if_neg Bool.false_ne_true]
      refine .kind?_bind ne fun a? b? alike back => ?_
      cases alike with
      | none => exact .fault
      | some alike =>
        cases alike with
        | builtin same =>
          have empty : (TypeExpr.renamedAll (p.inSight sight) args).isEmpty = args.isEmpty := by
            cases args <;> rfl
          dsimp only
          rw [empty]
          split
          · exact Agrees.report.bind fun _ _ _ => .pure same
          · exact .pure same
        | interface => exact .pure (Ty.alike_reference same (back rfl))
        | «alias» => exact h name ne span
        | «variable» | function | global => exact .fault
  | .array span element =>
    rw [TypeExpr.renamed, typeOf, typeOf]
    exact (agrees_typeOf h element lacks).returns fun _ _ same => same.array
  | .object span members =>
    rw [TypeExpr.renamed, typeOf, typeOf]
    exact (agrees_fieldsOf h members lacks).returns fun _ _ same => Ty.alike_object same
  | .string .. | .number .. | .boolean .. | .null .. =>
    rw [TypeExpr.renamed, typeOf, typeOf]
    exact .pure rfl

theorem agrees_typesOf {file : FileId} {expand expand' : String → Span → Check Ty}
    (h : ExpandsAlike p sight expand expand') (types : List TypeExpr)
    (lacks : p.fresh ∉ TypeExpr.mentionsOf types) :
    Agrees p sight sight (Ty.AllAlike p.back) (typesOf file expand types)
      (typesOf file expand' (TypeExpr.renamedAll (p.inSight sight) types)) := by
  match types with
  | [] =>
    rw [TypeExpr.renamedAll, typesOf, typesOf]
    exact .pure rfl
  | t :: rest =>
    rw [TypeExpr.mentionsOf, List.mem_append, not_or] at lacks
    rw [TypeExpr.renamedAll, typesOf, typesOf]
    refine (agrees_typeOf h t lacks.1).bind fun _ _ first => ?_
    exact (agrees_typesOf h rest lacks.2).returns fun _ _ others => first.cons others

theorem agrees_fieldsOf {file : FileId} {expand expand' : String → Span → Check Ty}
    (h : ExpandsAlike p sight expand expand') (members : List Member)
    (lacks : p.fresh ∉ TypeExpr.memberMentions members) :
    Agrees p sight sight (Field.AllAlike p.back) (fieldsOf file expand members)
      (fieldsOf file expand' (Member.renamedAll (p.inSight sight) members)) := by
  match members with
  | [] =>
    rw [Member.renamedAll, fieldsOf, fieldsOf]
    exact .pure rfl
  | .mk _ name _ t :: rest =>
    rw [TypeExpr.memberMentions, List.mem_append, not_or] at lacks
    rw [Member.renamedAll, fieldsOf, fieldsOf]
    refine (agrees_typeOf h t lacks.1).bind fun _ _ first => ?_
    exact (agrees_fieldsOf h rest lacks.2).returns fun _ _ others => Field.AllAlike.cons first others name

end

/-- Once it is known what aliases stand for, they stand for something alike. -/
theorem expandsAlike_aliasType (free free' : List String) (file : FileId) :
    ExpandsAlike p sight (aliasType free file) (aliasType free' file) := by
  intro name ne span s t alike
  have same := alike.tables.kind?_alike ne
  generalize here : s.symbols.kind? name = a? at same
  generalize there : t.symbols.kind? (p.inSight sight name) = b? at same
  have known : ∀ written, s.symbols.kind? name ≠ some (.«alias» written none) := by
    rintro written is
    cases same with
    | none => cases here.symm.trans is
    | some same =>
      cases same <;> cases here.symm.trans is
  have known' : ∀ written, t.symbols.kind? (p.inSight sight name) ≠ some (.«alias» written none) := by
    rintro written is
    cases same with
    | none => cases there.symm.trans is
    | some same =>
      cases same <;> cases there.symm.trans is
  rw [run_aliasType known, run_aliasType known', here, there]
  refine ⟨?_, alike⟩
  cases same with
  | none => exact rfl
  | some same =>
    cases same with
    | «alias» same => exact same.alias _ _
    | _ => exact rfl

theorem agrees_resolveType {file : FileId} (t : TypeExpr) (lacks : p.fresh ∉ t.mentions) :
    Agrees p sight sight (Ty.Alike p.back) (resolveType file t)
      (resolveType file (t.renamed (p.inSight sight))) := by
  refine Agrees.read fun s u _ => ?_
  rw [TypeExpr.span_renamed]
  exact (agrees_typeOf (expandsAlike_aliasType _ _ file) t lacks).recording

theorem agrees_resolveOptional {file : FileId} (type? : Option TypeExpr)
    (lacks : p.Lacks (Node.ofType? type?)) :
    Agrees p sight sight (Ty.Alike p.back) (resolveOptional file type?)
      (resolveOptional file (type?.map (·.renamed (p.inSight sight)))) := by
  cases type? with
  | none => exact .pure rfl
  | some type => exact agrees_resolveType type (Rerun.lacks_singleton.1 lacks).1

theorem agrees_typeOfName {file : FileId} {name : String} (ne : name ≠ p.fresh) (span : Span) :
    Agrees p sight sight (Ty.Alike p.back) (typeOfName file name span)
      (typeOfName file (p.inSight sight name) span) := by
  refine .kind?_bind ne fun a? b? alike _ => ?_
  cases alike with
  | none => exact .fault
  | some alike =>
    cases alike with
    | «variable» same => exact .pure same
    | function params returns => exact .pure (Ty.alike_function params returns)
    | global same => exact .pure (Ty.alike_reference rfl same.symm)
    | builtin | interface | «alias» => exact .fault

theorem agrees_requireWritable {file : FileId} {name : String} (ne : name ≠ p.fresh) (span : Span) :
    Agrees p sight sight Whatever (requireWritable file name span)
      (requireWritable file (p.inSight sight name) span) := by
  refine .kind?_bind ne fun a? b? alike _ => ?_
  cases alike with
  | none => exact .nothing
  | some alike =>
    cases alike with
    | @«variable» _ _ keyword? =>
      match keyword? with
      | some .constant => exact .report
      | none | some .letWord | some .varWord => exact .nothing
    | function => exact .report
    | builtin | interface | «alias» | global => exact .nothing

/-- A type that is neither an object type nor a reference has no fields. -/
theorem fields?_of_ne {type : Ty} (object : ∀ fields, type.resolved ≠ .object fields)
    (reference : ∀ name args, type.resolved ≠ .reference name args) : fields? type = pure none := by
  rw [fields?]
  split
  next fields is => exact (object fields is).elim
  next name args is => exact (reference name args is).elim
  · rfl

/-- The fields of an interface are its members, wherever its name is taken from. -/
theorem run_fields?_reference {type : Ty} {name : String} {args : List Ty}
    (is : type.resolved = .reference name args) (s : CheckState) :
    (fields? type).run s = (s.symbols.members? name, s) := by
  have looked : (kind? name).run s = (s.symbols.kind? name, s) := rfl
  rw [SymbolTable.members?, fields?, is, StateT.run_bind, looked]
  cases s.symbols.kind? name with
  | none => rfl
  | some kind => cases kind <;> rfl

theorem agrees_fields? {type type' : Ty} (h : type.Alike p.back type') :
    Agrees p sight sight (Field.OptionAlike p.back) (fields? type) (fields? type') := by
  have same := h.resolved
  by_cases object : ∃ fields, type.resolved = .object fields
  · obtain ⟨fields, is⟩ := object
    rw [is] at same
    obtain ⟨fields', is', alike⟩ := Ty.exists_object same
    rw [fields?, fields?, is, is']
    exact .pure (congrArg some alike)
  by_cases reference : ∃ name args, type.resolved = .reference name args
  · obtain ⟨name, args, is⟩ := reference
    rw [is] at same
    obtain ⟨name', args', is', rfl⟩ := Ty.exists_reference same
    intro s t alike
    rw [run_fields?_reference is, run_fields?_reference is']
    exact ⟨alike.tables.members?_alike name', alike⟩
  · have none fields is := object ⟨fields, is⟩
    have none' name args is := reference ⟨name, args, is⟩
    rw [fields?_of_ne none none', fields?_of_ne (same.ne_object none) (same.ne_reference none')]
    exact .pure rfl

theorem isGlobalMethod_back (name method : String) :
    isGlobalMethod (p.back name) method = isGlobalMethod name method := by
  rw [isGlobalMethod, isGlobalMethod, Bool.eq_iff_iff, List.any_eq_true, List.any_eq_true]
  refine exists_congr fun g => and_congr_right fun mem => ?_
  rw [Bool.and_eq_true, Bool.and_eq_true, beq_iff_eq, beq_iff_eq, eq_comm, p.back_global g mem name,
    eq_comm]

theorem isGlobal_alike {type? type'? : Option Ty} (h : Ty.OptionAlike p.back type? type'?) :
    isGlobal type'? = isGlobal type? := by
  match type?, type'? with
  | none, none => rfl
  | some _, none | none, some _ => cases h
  | some type, some type' =>
    have same : type.Alike p.back type' := Option.some.inj h
    by_cases reference : ∃ name args, type = .reference name args
    · obtain ⟨name, args, rfl⟩ := reference
      obtain ⟨name', args', rfl, rfl⟩ := Ty.exists_reference same
      rw [isGlobal, isGlobal, Bool.eq_iff_iff, List.any_eq_true, List.any_eq_true]
      refine exists_congr fun g => and_congr_right fun mem => ?_
      rw [beq_iff_eq, beq_iff_eq, eq_comm, ← p.back_global g mem name', eq_comm]
    · have none name args is := reference ⟨name, args, is⟩
      have none' := same.ne_reference none
      rw [isGlobal.eq_def, isGlobal.eq_def]
      split
      next is => exact (none' _ _ (Option.some.inj is)).elim
      · split
        next is => exact (none _ _ (Option.some.inj is)).elim
        · rfl

theorem agrees_typeOfMember {file : FileId} {object object' : Ty} (h : object.Alike p.back object')
    (property : Name) : Agrees p sight sight (Ty.Alike p.back) (typeOfMember file object property)
      (typeOfMember file object' property) := by
  have same := h.resolved
  refine (agrees_fields? same).bind fun fields? fields'? found => ?_
  dsimp only
  rw [same.isDynamic_eq, same.isArrayLike_eq, same.isStringLike_eq]
  split
  · exact .pure same
  · split
    · exact .pure rfl
    · have field := found.typeIn? property.text
      generalize fields?.bind (Field.typeIn? property.text) = a? at field ⊢
      generalize fields'?.bind (Field.typeIn? property.text) = b? at field ⊢
      match a?, b? with
      | some a, none | none, some b => cases field
      | some a, some b => exact .pure (Option.some.inj field)
      | none, none =>
        generalize object.resolved = type at same ⊢
        generalize object'.resolved = type' at same ⊢
        by_cases reference : ∃ name args, type = .reference name args
        · obtain ⟨name, args, rfl⟩ := reference
          obtain ⟨name', args', rfl, rfl⟩ := Ty.exists_reference same
          dsimp only
          rw [isGlobalMethod_back]
          split
          · exact .pure rfl
          · exact .fault
        · have none name args is := reference ⟨name, args, is⟩
          have none' := same.ne_reference none
          split
          next is => cases is
          next is => exact (none _ _ rfl).elim
          · exact .fault

theorem agrees_callsGlobal {file : FileId} (f : String → String) (e : Expr) :
    Agrees p sight sight Eq (callsGlobal file e) (callsGlobal file (e.renamed f)) := by
  match e with
  | .member _ object _ =>
    rw [Expr.renamed, callsGlobal, callsGlobal, Expr.span_renamed]
    exact (Agrees.recorded? file object.span).returns fun _ _ same => (isGlobal_alike same).symm
  | .array .. | .cast .. | .binary .. | .call .. | .conditional .. | .index .. | .ident .. | .number ..
  | .object .. | .paren .. | .leading .. | .trailing .. | .string .. | .template .. | .boolean ..
  | .null _ => exact .pure rfl

end Check

/-- Two uses of an expression that checking cannot tell apart. -/
inductive Use.Alike (f : String → String) : Use → Use → Prop
  | value {a? b? : Option Ty} : Ty.OptionAlike f a? b? → Alike f (.value a?) (.value b?)
  | target {fault : TypeFault} : Alike f (.target fault) (.target fault)

theorem Use.Alike.expected? {f : String → String} {use use' : Use} (h : use.Alike f use') :
    Ty.OptionAlike f use.expected? use'.expected? := by
  cases h with
  | value same => exact same
  | target => exact .none

theorem Use.Alike.free {f : String → String} : Use.Alike f (.value none) (.value none) := .value .none

namespace Check

theorem agrees_settle {file : FileId} {use use' : Use} (wanted : use.Alike p.back use') {span : Span}
    {x y : Check Ty} (h : Agrees p sight sight (Ty.Alike p.back) x y) :
    Agrees p sight sight (Ty.Alike p.back) (settle file use span x) (settle file use' span y) := by
  refine h.recording.bind fun type type' same => ?_
  cases wanted with
  | value => exact .pure same
  | target => exact .fault

end Check

open Check

mutual

theorem Expr.agrees_check {file : FileId} {use use' : Use} (wanted : use.Alike p.back use') (e : Expr)
    (lacks : p.Lacks [.expression e]) :
    Agrees p sight sight (Ty.Alike p.back) (e.check file use)
      ((e.renamed (p.inSight sight)).check file use') := by
  obtain ⟨here, inner⟩ := Rerun.lacks_singleton.1 lacks
  match e with
  | .ident span name =>
    have ne : name ≠ p.fresh := fun is => here (List.mem_singleton.2 is.symm)
    rw [Expr.renamed, Expr.check, Expr.check]
    refine (agrees_typeOfName ne span).recording.bind fun type type' same => ?_
    cases wanted with
    | value => exact .pure same
    | target => exact (agrees_requireWritable ne span).bind fun _ _ _ => .pure same
  | .member span object property =>
    rw [Expr.renamed, Expr.check, Expr.check]
    refine Agrees.recording ((Expr.agrees_check .free object inner).bind fun _ _ same => ?_)
    exact agrees_typeOfMember same property
  | .index span object index =>
    rw [Expr.renamed, Expr.check, Expr.check]
    obtain ⟨first, second⟩ := Rerun.lacks_cons.1 inner
    refine Agrees.recording ((Expr.agrees_check .free object first).bind fun _ _ same => ?_)
    exact (Expr.agrees_check .free index second).discard.returns fun _ _ _ => alike_typeOfElement same
  | .paren span operand =>
    rw [Expr.renamed, Expr.check, Expr.check]
    exact (Expr.agrees_check wanted operand inner).recording
  | .number .. | .string .. | .boolean .. | .null .. =>
    rw [Expr.renamed, Expr.check, Expr.check]
    exact agrees_settle wanted (.pure rfl)
  | .template span head holes =>
    rw [Expr.renamed, Expr.check, Expr.check]
    exact agrees_settle wanted ((TemplateHole.agrees_checkAll holes inner).returns fun _ _ _ => rfl)
  | .array span elements =>
    rw [Expr.renamed, Expr.check, Expr.check]
    have element := Ty.OptionAlike.bind_element? wanted.expected?
    refine agrees_settle wanted ((Expr.agrees_checkElements element elements inner).bind ?_)
    intro types types' same
    have whole := Ty.OptionAlike.filter_isArrayLike wanted.expected?
    generalize use.expected?.filter Ty.isArrayLike = a? at whole ⊢
    generalize use'.expected?.filter Ty.isArrayLike = b? at whole ⊢
    match a?, b?, types, types' with
    | some _, none, _, _ | none, some _, _, _ => cases whole
    | none, none, [], _ :: _ | none, none, _ :: _, [] => cases same
    | some a, some b, _, _ => exact .pure (Option.some.inj whole)
    | none, none, [], [] => exact .pure rfl
    | none, none, first :: _, first' :: _ =>
      have element : first.Alike p.back first' := (List.cons.inj same).1
      exact .pure element.widened.array
  | .object span properties =>
    rw [Expr.renamed, Expr.check, Expr.check]
    exact agrees_settle wanted ((Property.agrees_checkAll .nil properties inner).returns
      fun _ _ same => Ty.alike_object same)
  | .leading span op opSpan operand =>
    rw [Expr.renamed, Expr.check, Expr.check]
    refine agrees_settle wanted ((Expr.agrees_check ?_ operand inner).bind fun type type' same => ?_)
    · split
      · exact .target
      · exact .free
    · cases op with
      | negate => exact .pure (alike_negated same)
      | not | plus | increment | decrement => exact .pure rfl
  | .trailing span operand op opSpan =>
    rw [Expr.renamed, Expr.check, Expr.check]
    exact agrees_settle wanted
      ((Expr.agrees_check .target operand inner).discard.returns fun _ _ _ => rfl)
  | .binary span left op opSpan right =>
    rw [Expr.renamed, Expr.check, Expr.check]
    obtain ⟨first, second⟩ := Rerun.lacks_cons.1 inner
    refine agrees_settle wanted ?_
    split
    · refine (Expr.agrees_check .target left first).bind fun _ _ target => ?_
      exact (Expr.agrees_check (.value target.some) right second).returns fun _ _ value =>
        alike_typeOfAssignment target value op
    · refine (Expr.agrees_check .free left first).bind fun _ _ left => ?_
      exact (Expr.agrees_check .free right second).returns fun _ _ right =>
        alike_typeOfOperation left right op
  | .call span callee args =>
    rw [Expr.renamed, Expr.check, Expr.check]
    obtain ⟨first, others⟩ := Rerun.lacks_cons.1 inner
    refine agrees_settle wanted ?_
    refine (Expr.agrees_check .free callee first).bind fun type type' same => ?_
    have called := same.resolved
    have length : (Expr.renamedAll (p.inSight sight) args).length = args.length := by
      rw [Expr.renamedAll_eq_map, List.length_map]
    by_cases function : ∃ params returns, type.resolved = .function params returns
    · obtain ⟨params, returns, is⟩ := function
      rw [is] at called
      obtain ⟨params', returns', is', wanted, result⟩ := Ty.exists_function called
      rw [is, is']
      dsimp only
      refine (agrees_callsGlobal _ callee).bind fun isGlobal _ same => ?_
      subst same
      rw [length, wanted.length_eq]
      split
      · refine Agrees.report.bind fun _ _ _ => ?_
        exact (Expr.agrees_checkArgs wanted args others).returns fun _ _ _ => result
      · exact (Expr.agrees_checkArgs wanted args others).returns fun _ _ _ => result
    · have none params returns is := function ⟨params, returns, is⟩
      have none' := called.ne_function none
      split
      next is => exact (none _ _ is).elim
      · refine (Expr.agrees_checkArgs .nil args others).bind fun _ _ _ => ?_
        rw [called.isDynamic_eq]
        split
        · exact .pure called
        · exact .fault
  | .conditional span condition whenTrue whenFalse =>
    rw [Expr.renamed, Expr.check, Expr.check]
    obtain ⟨first, others⟩ := Rerun.lacks_cons.1 inner
    obtain ⟨second, third⟩ := Rerun.lacks_cons.1 others
    have branch : (Use.value use.expected?).Alike p.back (.value use'.expected?) :=
      .value wanted.expected?
    refine agrees_settle wanted ?_
    refine (Expr.agrees_check .free condition first).discard.bind fun _ _ _ => ?_
    refine (Expr.agrees_check branch whenTrue second).bind fun _ _ same => ?_
    exact (Expr.agrees_check branch whenFalse third).discard.returns fun _ _ _ => same.widened
  | .cast span operand type =>
    rw [Expr.renamed, Expr.check, Expr.check]
    obtain ⟨first, second⟩ := Rerun.lacks_cons.1 inner
    refine agrees_settle wanted ?_
    refine (Expr.agrees_check .free operand first).discard.bind fun _ _ _ => ?_
    exact agrees_resolveType type (Rerun.lacks_singleton.1 second).1

theorem Expr.agrees_checkElements {file : FileId} {expected? expected'? : Option Ty}
    (wanted : Ty.OptionAlike p.back expected? expected'?) (elements : List Expr)
    (lacks : p.Lacks (elements.map .expression)) :
    Agrees p sight sight (Ty.AllAlike p.back) (Expr.checkElements file expected? elements)
      (Expr.checkElements file expected'? (Expr.renamedAll (p.inSight sight) elements)) := by
  match elements with
  | [] =>
    rw [Expr.renamedAll, Expr.checkElements, Expr.checkElements]
    exact .pure .nil
  | e :: rest =>
    rw [Expr.renamedAll, Expr.checkElements, Expr.checkElements]
    obtain ⟨first, others⟩ := Rerun.lacks_cons.1 lacks
    refine (Expr.agrees_check (.value wanted) e first).bind fun _ _ type => ?_
    exact (Expr.agrees_checkElements wanted rest others).returns fun _ _ types => type.cons types

theorem Expr.agrees_checkArgs {file : FileId} {params params' : List Field}
    (wanted : Field.AllAlike p.back params params') (args : List Expr)
    (lacks : p.Lacks (args.map .expression)) :
    Agrees p sight sight Whatever (Expr.checkArgs file params args)
      (Expr.checkArgs file params' (Expr.renamedAll (p.inSight sight) args)) := by
  match args with
  | [] =>
    rw [Expr.renamedAll, Expr.checkArgs, Expr.checkArgs]
    exact .nothing
  | e :: rest =>
    rw [Expr.renamedAll, Expr.checkArgs, Expr.checkArgs]
    obtain ⟨first, others⟩ := Rerun.lacks_cons.1 lacks
    exact (Expr.agrees_check (.value wanted.head_type) e first).discard.bind fun _ _ _ =>
      Expr.agrees_checkArgs wanted.tail rest others

theorem Property.agrees_checkAll {file : FileId} {fields fields' : List Field}
    (before : Field.AllAlike p.back fields fields') (properties : List Property)
    (lacks : p.Lacks (properties.map Property.node)) :
    Agrees p sight sight (Field.AllAlike p.back) (Property.checkAll file fields properties)
      (Property.checkAll file fields' (Property.renamedAll (p.inSight sight) properties)) := by
  match properties with
  | [] =>
    rw [Property.renamedAll, Property.checkAll, Property.checkAll]
    exact .pure before
  | .assign _ name value :: rest =>
    rw [Property.renamedAll, Property.checkAll, Property.checkAll]
    obtain ⟨first, others⟩ := Rerun.lacks_cons.1 lacks
    refine (Expr.agrees_check .free value first).bind fun _ _ same => ?_
    exact Property.agrees_checkAll (before.set same.widened name.text) rest others
  | .shorthand _ name :: rest =>
    obtain ⟨first, others⟩ := Rerun.lacks_cons.1 lacks
    have ne : name.text ≠ p.fresh := fun is =>
      (Rerun.lacks_singleton.1 first).1 (List.mem_singleton.2 is.symm)
    have named : Agrees p sight sight (Ty.Alike p.back) (typeOfName file name.text name.span)
        (typeOfName file (p.inSight sight name.text) name.span) := agrees_typeOfName ne name.span
    rw [Property.renamedAll]
    split
    next same =>
      rw [Property.checkAll, Property.checkAll]
      rw [same] at named
      refine (named.returns fun _ _ same => same.widened).recording.bind fun _ _ same => ?_
      exact Property.agrees_checkAll (before.set same name.text) rest others
    · rw [Property.checkAll, Property.checkAll, Expr.check]
      have widened : Agrees p sight sight (Ty.Alike p.back)
          (do return (← typeOfName file name.text name.span).widened)
          (typeOfName file (p.inSight sight name.text) name.span) :=
        named.bind fun _ _ same => .pure same.widened_left
      refine widened.recording.bind fun _ _ same => ?_
      exact Property.agrees_checkAll (before.set same.widened_right name.text) rest others
  | .spread _ value :: rest =>
    rw [Property.renamedAll, Property.checkAll, Property.checkAll]
    obtain ⟨first, others⟩ := Rerun.lacks_cons.1 lacks
    refine (Expr.agrees_check .free value first).bind fun type type' same => ?_
    refine (agrees_fields? same).bind fun new? new'? found => ?_
    match new?, new'? with
    | some _, none | none, some _ => cases found
    | some new, some new' =>
      exact Property.agrees_checkAll (before.setAll (Option.some.inj found)) rest others
    | none, none =>
      dsimp only
      rw [same.isDynamic_eq]
      split
      · exact Property.agrees_checkAll before rest others
      · exact Agrees.report.bind fun _ _ _ => Property.agrees_checkAll before rest others

theorem TemplateHole.agrees_checkAll {file : FileId} (holes : List TemplateHole)
    (lacks : p.Lacks (holes.map fun hole => .expression hole.value)) :
    Agrees p sight sight Whatever (TemplateHole.checkAll file holes)
      (TemplateHole.checkAll file (TemplateHole.renamedAll (p.inSight sight) holes)) := by
  match holes with
  | [] =>
    rw [TemplateHole.renamedAll, TemplateHole.checkAll]
    exact .nothing
  | .mk value _ :: rest =>
    rw [TemplateHole.renamedAll, TemplateHole.checkAll, TemplateHole.checkAll]
    obtain ⟨first, others⟩ := Rerun.lacks_cons.1 lacks
    exact (Expr.agrees_check .free value first).discard.bind fun _ _ _ =>
      TemplateHole.agrees_checkAll rest others

end

end ScriptToGo
