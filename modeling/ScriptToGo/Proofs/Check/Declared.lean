import ScriptToGo.Proofs.Check.Yields

/-! What is declared, and what names stand for, is made of proper types. -/
namespace ScriptToGo.Check

variable {Good : String → Prop} {s : CheckState}

theorem yields_defineGlobal (sound : s.Sound Good) {file : FileId} {name : Name} {kind : SymbolKind}
    (proper : kind.Proper Good s.Failed) :
    Yields Good s (defineGlobal file name kind) Anything := by
  refine .get ?_
  dsimp only
  split
  · exact yields_define sound proper
  · split
    · exact (yields_report sound).anyway
    · exact .pure sound trivial

/-- Looking up the symbol of a declaration changes nothing. -/
theorem Yields.ownGlobal? {β : Type} {last : β → CheckState → Prop} {file : FileId} {name : Name}
    {f : Option SymbolId → Check β} (h : ∀ own, Yields Good s (f own) last) :
    Yields Good s (Check.ownGlobal? file name >>= f) last :=
  ⟨(h _).sound, (h _).more, (h _).result⟩

theorem yields_collectTypeName (sound : s.Sound Good) {file : FileId} (statement : Statement)
    (good : statement.AllTexts Good) : Yields Good s (collectTypeName file statement) Anything := by
  rw [collectTypeName.eq_def]
  split
  · exact yields_defineGlobal sound trivial
  · exact yields_defineGlobal sound ⟨good.2, nofun⟩
  · exact .pure sound trivial

theorem yields_collectMembers (sound : s.Sound Good) {file : FileId} (members : List Member)
    (good : Member.AllTextsOf Good members) :
    Yields Good s (collectMembers file members) (AreFields Good) := by
  induction members generalizing s with
  | nil => exact .pure sound trivial
  | cons member rest ih =>
    obtain ⟨_, name, _, type⟩ := member
    refine (yields_resolveType sound good.2.1).bind fun _ _ sound _ first => ?_
    exact (ih sound good.2.2).bind fun _ _ sound more others =>
      .pure sound ⟨good.1, first.mono more, others⟩

theorem yields_collectParams (sound : s.Sound Good) {file : FileId} (params : List Param)
    (good : ∀ p ∈ params, p.AllTexts Good) :
    Yields Good s (collectParams file params) (AreFields Good) := by
  induction params generalizing s with
  | nil => exact .pure sound trivial
  | cons p rest ih =>
    obtain ⟨here, others⟩ := List.forall_mem_cons.1 good
    refine (yields_resolveOptional sound here.type).recording.bind fun _ _ sound _ first => ?_
    exact (ih sound others).bind fun _ _ sound more others =>
      .pure sound ⟨here.name, first.mono more, others⟩

theorem yields_collectFunction (sound : s.Sound Good) {file : FileId} {head : FunctionHead}
    {hasBody : Bool} (good : head.AllTexts Good) :
    Yields Good s (collectFunction file head hasBody) Anything := by
  refine (yields_collectParams sound head.params good.params).bind fun params _ sound _ first => ?_
  refine (yields_resolveOptional sound good.returns).bind fun returns t sound more second => ?_
  have kind (isKnown : Bool) : (SymbolKind.function params returns isKnown).Proper Good t.Failed :=
    ⟨first.mono more, second⟩
  split
  · exact .pure sound trivial
  · refine .get ?_
    dsimp only
    split
    · exact yields_define sound (kind _)
    · split
      next _ former result _ _ _ _ has =>
        split
        · -- The parameters and the result that a name has first are the ones that stay.
          have proper := sound.kinds _ (SymbolTable.mem_of_symbol? has)
          have same (isKnown : Bool) :
            (SymbolKind.function former result isKnown).Proper Good t.Failed := proper
          refine (yields_setKind sound (same _)).bind fun _ _ sound _ _ => ?_
          split
          · exact (yields_report sound).anyway
          · exact .pure sound trivial
        · exact .pure sound trivial
      · exact (yields_report sound).anyway

theorem yields_collectDeclaration (sound : s.Sound Good) {file : FileId} (statement : Statement)
    (good : statement.AllTexts Good) :
    Yields Good s (collectDeclaration file statement) Anything := by
  rw [collectDeclaration.eq_def]
  split
  · refine (yields_collectMembers sound _ good.2).bind fun members t sound _ proper => ?_
    refine .ownGlobal? fun own => ?_
    split
    · exact .pure sound trivial
    · refine .get ?_
      split
      · exact yields_setKind sound proper
      · exact .pure sound trivial
  · refine .ownGlobal? fun own => ?_
    split
    · exact (Yields.definedNames fun free => yields_aliasType free file sound good.1).discard
    · exact .pure sound trivial
  · exact yields_collectFunction sound good.1
  · exact yields_collectFunction sound good
  · exact .pure sound trivial

theorem yields_collect {g : ModuleGraph} (sound : s.Sound Good)
    (good : ∀ m ∈ g.modules, Statement.AllTextsOf Good m.program) :
    Yields Good s (collect g) Anything := by
  refine (yields_forM sound fun m mem t sound _ => yields_forM sound ?_).bind fun _ t sound _ _ => ?_
  · exact fun statement inside _ sound _ =>
      yields_collectTypeName sound statement ((good m mem).of_mem statement inside)
  · refine yields_forM sound fun m mem _ sound _ => yields_forM sound ?_
    exact fun statement inside _ sound _ =>
      yields_collectDeclaration sound statement ((good m mem).of_mem statement inside)

theorem yields_recordedParams (sound : s.Sound Good) {file : FileId} (params : List Param)
    (good : ∀ p ∈ params, p.AllTexts Good) :
    Yields Good s (recordedParams file params) (AreFields Good) := by
  induction params with
  | nil => exact .pure sound trivial
  | cons p rest ih =>
    obtain ⟨here, others⟩ := List.forall_mem_cons.1 good
    refine .recorded? ((ih others).bind fun fields t sound more others => .pure sound ?_)
    refine ⟨here.name, ?_, others⟩
    cases found : s.types.typeAt file p.span with
    | none => trivial
    | some type => exact (‹s.Sound Good›.typeAt found).mono more

theorem yields_recordedReturns (sound : s.Sound Good) {file : FileId} {head : FunctionHead} :
    Yields Good s (recordedReturns file head) (IsType Good) := by
  rw [recordedReturns]
  split
  · exact .pure sound trivial
  next type _ =>
    refine .recorded? (.pure sound ?_)
    cases found : s.types.typeAt file type.span with
    | none => trivial
    | some type => exact sound.typeAt found

theorem yields_typeOfName (sound : s.Sound Good) {file : FileId} {name : String} {span : Span} :
    Yields Good s (typeOfName file name span) (IsType Good) := by
  refine .kind? ?_
  split
  next found => exact .pure sound (sound.kind found)
  next found => exact .pure sound (sound.kind found)
  next found => exact .pure sound ⟨sound.kind found, trivial⟩
  · exact yields_fault sound
  · exact yields_fault sound
  · exact yields_fault sound
  · exact yields_fault sound

theorem yields_requireWritable (sound : s.Sound Good) {file : FileId} {name : String} {span : Span} :
    Yields Good s (requireWritable file name span) Anything := by
  refine .kind? ?_
  split
  · exact (yields_report sound).anyway
  · exact (yields_report sound).anyway
  · exact .pure sound trivial

theorem yields_fields? (sound : s.Sound Good) {type : Ty} (proper : type.Proper Good s.Failed) :
    Yields Good s (fields? type) fun fields? t =>
      ∀ fields ∈ fields?, Field.AllProper Good t.Failed fields := by
  have inner := proper.resolved
  rw [fields?]
  split
  next fields is =>
    rw [is] at inner
    exact .pure sound (by rintro _ ⟨⟩; exact inner)
  · refine .kind? ?_
    split
    next found => exact .pure sound (by rintro _ ⟨⟩; exact sound.kind found)
    · exact .pure sound nofun
  · exact .pure sound nofun

theorem yields_typeOfMember (sound : s.Sound Good) {file : FileId} {object : Ty} {property : Name}
    (proper : object.Proper Good s.Failed) :
    Yields Good s (typeOfMember file object property) (IsType Good) := by
  refine (yields_fields? sound proper.resolved).bind fun fields? t sound more found => ?_
  dsimp only
  split
  · exact .pure sound (proper.resolved.mono more)
  · split
    · exact .pure sound trivial
    · split
      next field is =>
        obtain ⟨fields, some, is⟩ := Option.bind_eq_some_iff.1 is
        exact .pure sound ((found fields some).typeIn is)
      · split
        · exact .pure sound ⟨trivial, trivial⟩
        · exact yields_fault sound
      · exact yields_fault sound

/-- Asking where a call goes changes nothing. -/
theorem Yields.callsGlobal {β : Type} {last : β → CheckState → Prop} {file : FileId} {e : Expr}
    {f : Bool → Check β} (h : ∀ isGlobal, Yields Good s (f isGlobal) last) :
    Yields Good s (Check.callsGlobal file e >>= f) last := by
  cases e <;> exact ⟨(h _).sound, (h _).more, (h _).result⟩

end ScriptToGo.Check
