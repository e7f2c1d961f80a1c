import ScriptToGo.Proofs.Check.Renumbering

/-! Once all declarations are collected, it is known what every type alias stands for. -/
namespace ScriptToGo

/-- An alias that has not been looked into. -/
def Symbol.IsUnfound (s : Symbol) : Prop := ∃ written, s.kind = .«alias» written none

theorem SymbolTable.aliasesFound_iff {t : SymbolTable} :
    t.AliasesFound ↔ ∀ id symbol, t.symbol? id = some symbol → ¬symbol.IsUnfound :=
  ⟨fun h id symbol has ⟨written, is⟩ => h id symbol has written is,
    fun h id symbol has written is => h id symbol has ⟨written, is⟩⟩

/-- An alias that has yet to be looked into has been there before, and its name still stands for it
if it did so then. -/
def CheckState.StaysFound (s t : CheckState) : Prop :=
  ∀ id symbol, t.symbols.symbol? id = some symbol → symbol.IsUnfound →
    s.symbols.symbol? id = some symbol ∧
      (s.symbols.lookupLocal symbol.name = some id → t.symbols.lookupLocal symbol.name = some id)

namespace CheckState

variable {s : CheckState}

theorem staysFound_of_symbols {t : CheckState} (same : t.symbols = s.symbols) : s.StaysFound t := by
  intro id symbol has _
  rw [same] at has ⊢
  exact ⟨has, fun named => named⟩

theorem staysFound_setKind {id : SymbolId} {kind : SymbolKind}
    (found : ∀ written, kind ≠ .«alias» written none) :
    s.StaysFound { s with symbols := s.symbols.setKind id kind } := by
  rintro other symbol has ⟨written, is⟩
  rw [SymbolTable.symbol?_setKind] at has
  split at has
  · obtain ⟨_, -, rfl⟩ := Option.map_eq_some_iff.1 has
    exact (found written is).elim
  · exact ⟨has, fun named => named⟩

theorem staysFound_define {name : String} (new : s.symbols.lookupLocal name = none)
    {kind : SymbolKind} (found : ∀ written, kind ≠ .«alias» written none) (span : Span)
    (file? : Option FileId) :
    s.StaysFound { s with symbols := s.symbols.define name kind span file? } := by
  rintro id symbol has ⟨written, is⟩
  rw [SymbolTable.symbol?_define_eq] at has
  split at has
  · obtain rfl := Option.some.inj has
    exact (found written is).elim
  · exact ⟨has, fun local? => SymbolTable.lookupLocal_define local? new⟩

theorem collectRelation_staysFound : CollectRelation StaysFound where
  refl _ := staysFound_of_symbols rfl
  trans first second id symbol has unfound := by
    obtain ⟨before, stays⟩ := second id symbol has unfound
    exact (first id symbol before unfound).imp_right fun stays' named => stays (stays' named)
  report _ _ _ := staysFound_of_symbols rfl
  record _ _ _ _ := staysFound_of_symbols rfl
  expand _ _ _ _ := staysFound_setKind nofun
  define _ _ _ span file? new other :=
    staysFound_define new (fun written is => other ⟨written, none, is⟩) span file?
  setKind _ _ _ _ _ _ other := staysFound_setKind fun written is => other ⟨written, none, is⟩

/-- A symbol stands for the alias that a statement of a module declares. -/
structure DeclaredAs (symbol : Symbol) (file : FileId) (decl : AliasDecl) : Prop where
  name : symbol.name = decl.name.text
  span : symbol.span = decl.name.span
  file : symbol.file? = some file

/-- Each alias that has yet to be looked into is that of a declaration, and its name stands for
it. -/
def OpenAliases (g : ModuleGraph) (s : CheckState) : Prop :=
  ∀ id symbol, s.symbols.symbol? id = some symbol → symbol.IsUnfound →
    s.symbols.lookupLocal symbol.name = some id ∧
      ∃ m ∈ g.modules, ∃ span decl, .typeAlias span decl ∈ m.program ∧ DeclaredAs symbol m.id decl

variable {g : ModuleGraph}

/-- If a statement of a module declares an alias, it is known what that stands for. -/
def KnowsAliasOf (s : CheckState) (file : FileId) (statement : Statement) : Prop :=
  ∀ span decl, statement = .typeAlias span decl → ∀ id symbol, s.symbols.symbol? id = some symbol →
    DeclaredAs symbol file decl → ¬symbol.IsUnfound

theorem KnowsAliasOf.mono {t : CheckState} {file : FileId} {statement : Statement}
    (h : s.KnowsAliasOf file statement) (stays : s.StaysFound t) : t.KnowsAliasOf file statement :=
  fun span decl is id symbol has declared unfound =>
    h span decl is id symbol (stays id symbol has unfound).1 declared unfound

theorem OpenAliases.mono {t : CheckState} (h : OpenAliases g s) (stays : s.StaysFound t) :
    OpenAliases g t := by
  intro id symbol has unfound
  obtain ⟨before, named⟩ := stays id symbol has unfound
  exact (h id symbol before unfound).imp_left named

/-- No step of looking up what types stand for adds an alias. -/
theorem lookupRelation_openAliases :
    LookupRelation fun s t => OpenAliases g s → OpenAliases g t where
  refl _ opened := opened
  trans first second opened := second (first opened)
  report _ _ _ opened := opened.mono (staysFound_of_symbols rfl)
  record _ _ _ _ opened := opened.mono (staysFound_of_symbols rfl)
  expand _ _ _ _ opened := opened.mono (staysFound_setKind nofun)

/-- At first there are no aliases that could be looked into. -/
theorem aliasesFound_initial : initial.symbols.AliasesFound := by
  have none : ∀ entry ∈ SymbolTable.builtins, ∀ written, entry.2 ≠ .«alias» written none := by
    refine List.forall_mem_append.2 ⟨List.forall_mem_append.2 ⟨?_, ?_⟩, ?_⟩
    · exact List.forall_mem_map.2 fun _ _ => nofun
    · exact List.forall_mem_map.2 fun _ _ => nofun
    · exact List.forall_mem_map.2 fun _ _ => nofun
  have known := kinds_initial (P := fun kind => ∀ written, kind ≠ .«alias» written .none) none
  exact fun id symbol has => known symbol (SymbolTable.mem_of_symbol? has)

end CheckState

namespace Check

open CheckState

variable {g : ModuleGraph} {m : Module} {statement : Statement}

theorem openAliases_defineGlobal {name : Name} {kind : SymbolKind} (hm : m ∈ g.modules)
    (declares : ∀ written, kind = .«alias» written none → ∃ span decl,
      .typeAlias span decl ∈ m.program ∧ decl.name = name) :
    Keeps (fun s t => OpenAliases g s → OpenAliases g t) (defineGlobal m.id name kind) := by
  refine keeps_read fun s opened => ?_
  dsimp only
  split
  next new =>
    rintro id symbol has ⟨written, is⟩
    change (s.symbols.define name.text kind name.span (some m.id)).symbol? id = some symbol at has
    rw [SymbolTable.symbol?_define_eq] at has
    split at has
    next last =>
      obtain rfl := Option.some.inj has
      obtain ⟨span, decl, inside, rfl⟩ := declares written is
      exact ⟨last ▸ SymbolTable.lookupLocal_define_self, m, hm, span, decl, inside, rfl, rfl, rfl⟩
    next =>
      refine (opened id symbol has ⟨written, is⟩).imp_left fun named => ?_
      exact SymbolTable.lookupLocal_define named new
  · split
    · exact opened
    · exact opened

theorem openAliases_collectTypeName (hm : m ∈ g.modules) (inside : statement ∈ m.program) :
    Keeps (fun s t => OpenAliases g s → OpenAliases g t) (collectTypeName m.id statement) := by
  rw [collectTypeName.eq_def]
  split
  · refine openAliases_defineGlobal hm fun written is => ?_
    cases is
  next span decl => exact openAliases_defineGlobal hm fun _ _ => ⟨span, decl, inside, rfl⟩
  · exact fun _ => id

/-- Looking into an alias ends with what it stands for. -/
theorem found_aliasType {s : CheckState} {free : List String} {name : String} {id : SymbolId}
    {symbol : Symbol} (named : s.symbols.lookup name = some id)
    (has : s.symbols.symbol? id = some symbol) (unfound : symbol.IsUnfound) (isFree : name ∈ free)
    (file : FileId) (span : Span) :
    ∀ later, ((aliasType free file name span).run s).2.symbols.symbol? id = some later →
      ¬later.IsUnfound := by
  obtain ⟨written, is⟩ := unfound
  obtain ⟨_, kind, _, _, _⟩ := symbol
  obtain rfl : kind = _ := is
  have ends : ∃ (t : CheckState) (target : Ty), ((aliasType free file name span).run s).2
      = { t with symbols := t.symbols.setKind id (.«alias» written (some target)) } := by
    rw [aliasType]
    simp only [StateT.run_bind, StateT.run_get, pure_bind, named, has, dif_pos isFree]
    exact ⟨_, _, rfl⟩
  obtain ⟨t, target, ends⟩ := ends
  rw [ends]
  dsimp only
  rintro later has' ⟨written', is⟩
  rw [SymbolTable.symbol?_setKind, if_pos rfl] at has'
  obtain ⟨_, -, rfl⟩ := Option.map_eq_some_iff.1 has'
  cases is

theorem run_ownGlobal? {s : CheckState} {file : FileId} {decl : AliasDecl} {id : SymbolId}
    {symbol : Symbol} (named : s.symbols.lookupLocal decl.name.text = some id)
    (has : s.symbols.symbol? id = some symbol) (declared : DeclaredAs symbol file decl) :
    (ownGlobal? file decl.name).run s = (some id, s) := by
  have own : (s.symbols.symbol? id).any
      fun s => s.file? == some file && s.span == decl.name.span := by
    simp [has, declared.file, declared.span]
  change ((s.symbols.lookupLocal decl.name.text).filter _, s) = _
  rw [named, Option.filter_some, if_pos own]

/-- When the declaration of an alias is collected, it is found what the alias stands for. -/
theorem knowsAlias_collectDeclaration (m : Module) (statement : Statement) :
    Keeps (fun s t => OpenAliases g s → t.KnowsAliasOf m.id statement)
      (collectDeclaration m.id statement) := by
  rintro s opened span decl rfl id symbol has declared unfound
  have stays := keeps_collectDeclaration_of collectRelation_staysFound m.id (.typeAlias span decl) s
  obtain ⟨before, -⟩ := stays id symbol has unfound
  obtain ⟨named, -⟩ := opened id symbol before unfound
  rw [declared.name] at named
  have goes : ((collectDeclaration m.id (.typeAlias span decl)).run s).2
      = ((resolveAlias m.id decl.name.text decl.name.span).run s).2 := by
    rw [collectDeclaration, StateT.run_bind, run_ownGlobal? named before declared]
    rfl
  have free : decl.name.text ∈ s.symbols.symbols.toList.map Symbol.name :=
    declared.name ▸ List.mem_map_of_mem (Array.mem_toList_iff.2 (SymbolTable.mem_of_symbol? before))
  have found := found_aliasType (SymbolTable.lookup_of_lookupLocal named) before unfound free m.id
    decl.name.span
  exact found symbol (goes ▸ has) unfound

end Check

namespace ModuleGraph

open Check CheckState

variable {g : ModuleGraph}

theorem openAliases_named : OpenAliases g
    ((g.modules.forM fun m => m.program.forM (collectTypeName m.id)).run .initial).2 := by
  have hR := (lookupRelation_openAliases (g := g)).toReportRelation
  refine keeps_forM hR (fun m hm => keeps_forM hR fun s hs => ?_) .initial ?_
  · exact openAliases_collectTypeName hm hs
  · intro id symbol has unfound
    exact (SymbolTable.aliasesFound_iff.1 aliasesFound_initial id symbol has unfound).elim

/-- When everything is collected, it is known what all aliases stand for. -/
theorem aliasesFound_collect (g : ModuleGraph) :
    ((collect g).run .initial).2.symbols.AliasesFound := by
  have keeps : ∀ m ∈ g.modules, ∀ statement ∈ m.program,
      Keeps StaysFound (collectDeclaration m.id statement) :=
    fun m _ statement _ => keeps_collectDeclaration_of collectRelation_staysFound m.id statement
  have hR := collectRelation_staysFound.toLookupRelation
  let named := ((g.modules.forM fun m => m.program.forM (collectTypeName m.id)).run .initial).2
  have opened : OpenAliases g ((collect g).run .initial).2 := openAliases_named.mono <|
    keeps_forM hR (fun m hm => keeps_forM hR (keeps m hm)) named
  have known := collecting_establishes (I := OpenAliases g)
    (P := fun file statement t => t.KnowsAliasOf file statement) hR keeps
    (fun _ _ stays opened => opened.mono stays)
    (fun _ _ _ _ stays known => known.mono stays) fun m _ statement _ =>
      knowsAlias_collectDeclaration m statement
  refine SymbolTable.aliasesFound_iff.2 fun id symbol has unfound => ?_
  obtain ⟨-, m, hm, span, decl, inside, declared⟩ := opened id symbol has unfound
  exact known m hm _ inside named openAliases_named span decl rfl id symbol has declared unfound

end ModuleGraph

end ScriptToGo
