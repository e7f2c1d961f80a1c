import ScriptToGo.Proofs.Check.Steps
import ScriptToGo.Proofs.Check.Sound

/-! What every step of collecting declarations keeps, all of collecting them keeps: the name of a type
alias keeps standing for that alias. -/
namespace ScriptToGo

def SymbolKind.IsAlias (kind : SymbolKind) : Prop :=
  ∃ written target?, kind = .«alias» written target?

/-- A relation that holds over every single step of collecting a declaration. Names that are there
are not defined again, and nothing turns into an alias or stops being one. -/
structure CollectRelation (R : CheckState → CheckState → Prop) : Prop extends LookupRelation R where
  define : ∀ (s : CheckState) (name : String) (kind : SymbolKind) (span : Span)
    (file? : Option FileId), s.symbols.lookupLocal name = none → ¬kind.IsAlias →
      R s { s with symbols := s.symbols.define name kind span file? }
  setKind : ∀ (s : CheckState) (id : SymbolId) (symbol : Symbol) (kind : SymbolKind),
    s.symbols.symbol? id = some symbol → ¬symbol.kind.IsAlias → ¬kind.IsAlias →
      R s { s with symbols := s.symbols.setKind id kind }

namespace Check

section

variable {R : CheckState → CheckState → Prop} (cR : CollectRelation R)
include cR

theorem keeps_collectFunction_of (file : FileId) (head : FunctionHead) (hasBody : Bool) :
    Keeps R (collectFunction file head hasBody) := by
  have hR := cR.toLookupRelation
  have function (params : List Field) (returns : Ty) (hasBody : Bool) :
      ¬(SymbolKind.function params returns hasBody).IsAlias := by
    rintro ⟨_, _, other⟩
    cases other
  refine keeps_bind hR (keeps_collectParams hR file head.params) fun params => ?_
  refine keeps_bind hR (keeps_resolveOptional hR file head.returns?) fun returns => ?_
  split
  · exact keeps_pure hR _
  next name _ =>
    refine keeps_read fun s => ?_
    dsimp only
    split
    next new => exact cR.define s _ _ _ _ new (function _ _ _)
    next id found =>
      split
      next has =>
        split
        · have rest (twice : Bool) : Keeps R
              (if twice then report file (.duplicateImplementation name.text) name.span
                else pure ⟨⟩) := by
            split
            · exact keeps_report hR (by simp)
            · exact keeps_pure hR _
          exact hR.trans (cR.setKind s id _ _ has (function _ _ _) (function _ _ _)) (rest _ _)
        · exact hR.refl s
      · exact hR.report s _ (by simp)

theorem keeps_collectDeclaration_of (file : FileId) (statement : Statement) :
    Keeps R (collectDeclaration file statement) := by
  have hR := cR.toLookupRelation
  rw [collectDeclaration.eq_def]
  split
  · refine keeps_bind hR (keeps_collectMembers hR _ _) fun members => ?_
    refine keeps_bind hR (keeps_ownGlobal? hR _ _) fun own => ?_
    split
    · exact keeps_pure hR _
    next id =>
      refine keeps_read fun s => ?_
      split
      next is =>
        obtain ⟨symbol, has, kind⟩ := Option.map_eq_some_iff.1 is
        refine cR.setKind s id symbol _ has ?_ ?_
        · rw [kind]
          rintro ⟨_, _, other⟩
          cases other
        · rintro ⟨_, _, other⟩
          cases other
      · exact hR.refl s
  · refine keeps_bind hR (keeps_ownGlobal? hR _ _) fun own => ?_
    split
    · exact keeps_discard (keeps_resolveAlias hR _ _ _)
    · exact keeps_pure hR _
  · exact keeps_collectFunction_of cR _ _ _
  · exact keeps_collectFunction_of cR _ _ _
  · exact keeps_pure hR _

end

/-- What work on each of several things brings about for one of them, and the work on the others
keeps, holds of all of them in the end. What it takes must hold from the start, and be kept, too. -/
theorem forM_establishes {α : Type} {R : CheckState → CheckState → Prop} (hR : LookupRelation R)
    {I : CheckState → Prop} {P : α → CheckState → Prop} {list : List α} {f : α → Check PUnit}
    (keeps : ∀ a ∈ list, Keeps R (f a)) (takes : ∀ s t, R s t → I s → I t)
    (stays : ∀ a s t, R s t → P a s → P a t)
    (made : ∀ a ∈ list, Keeps (fun s t => I s → P a t) (f a)) :
    ∀ a ∈ list, Keeps (fun s t => I s → P a t) (list.forM f) := by
  induction list with
  | nil => exact List.forall_mem_nil _
  | cons first rest ih =>
    obtain ⟨here, others⟩ := List.forall_mem_cons.1 made
    obtain ⟨keep, keeps⟩ := List.forall_mem_cons.1 keeps
    refine List.forall_mem_cons.2 ⟨fun s start => ?_, fun a mem s start => ?_⟩
    · exact stays first _ _ (keeps_forM hR keeps _) (here s start)
    · exact ih keeps others a mem _ (takes _ _ (keep s) start)

/-- What collecting a statement brings about, and the others keep, holds of all statements of all
modules in the end. -/
theorem collecting_establishes {R : CheckState → CheckState → Prop} (hR : LookupRelation R)
    {I : CheckState → Prop} {P : FileId → Statement → CheckState → Prop} {modules : List Module}
    {f : FileId → Statement → Check PUnit}
    (keeps : ∀ m ∈ modules, ∀ statement ∈ m.program, Keeps R (f m.id statement))
    (takes : ∀ s t, R s t → I s → I t)
    (stays : ∀ file statement s t, R s t → P file statement s → P file statement t)
    (made : ∀ m ∈ modules, ∀ statement ∈ m.program,
      Keeps (fun s t => I s → P m.id statement t) (f m.id statement)) :
    ∀ m ∈ modules, ∀ statement ∈ m.program, Keeps (fun s t => I s → P m.id statement t)
      (modules.forM fun m => m.program.forM (f m.id)) := by
  have inside (m : Module) (mem : m ∈ modules) : ∀ statement ∈ m.program,
      Keeps (fun s t => I s → P m.id statement t) (m.program.forM (f m.id)) :=
    forM_establishes (P := fun statement t => P m.id statement t) hR (keeps m mem) takes
      (fun statement => stays m.id statement) (made m mem)
  have all := forM_establishes
    (P := fun (m : Module) t => ∀ statement ∈ m.program, P m.id statement t) hR
    (fun m mem => keeps_forM hR (keeps m mem)) takes
    (fun m s t keep known statement among => stays m.id statement s t keep (known statement among))
    fun m mem s start statement among => inside m mem statement among s start
  exact fun m mem statement among s start => all m mem s start statement among

end Check

namespace SymbolTable

variable {t : SymbolTable} {name : String} {id : SymbolId}

theorem names_define {other : String} {kind : SymbolKind} {span : Span} {file? : Option FileId} :
    (t.define other kind span file?).current.names =
      (other, t.symbols.size) :: t.current.names := by
  rw [current_define]

/-- A new name hides none of those that the current scope defines. -/
theorem lookupLocal_define {other : String} {kind : SymbolKind} {span : Span}
    {file? : Option FileId} (found : t.lookupLocal name = some id)
    (new : t.lookupLocal other = none) :
    (t.define other kind span file?).lookupLocal name = some id := by
  have differ : name ≠ other := by
    rintro rfl
    rw [found] at new
    cases new
  rw [lookupLocal, names_define, List.lookup_cons, beq_false_of_ne differ]
  exact found

theorem lookupLocal_define_self {kind : SymbolKind} {span : Span} {file? : Option FileId} :
    (t.define name kind span file?).lookupLocal name = some t.symbols.size := by
  rw [lookupLocal, names_define, List.lookup_cons, beq_self_eq_true]

theorem symbol?_define_eq (t : SymbolTable) (name : String) (kind : SymbolKind) (span : Span)
    (file? : Option FileId) (id : SymbolId) : (t.define name kind span file?).symbol? id
      = if id = t.symbols.size then some ⟨name, kind, span, file?, t.currentId⟩
        else t.symbol? id := by
  rw [symbol?, symbols_define, Array.getElem?_push]
  rfl

theorem symbol?_setKind (t : SymbolTable) (id other : SymbolId) (kind : SymbolKind) :
    (t.setKind id kind).symbol? other
      = if id = other then (t.symbol? other).map fun s => { s with kind } else t.symbol? other := by
  rw [symbol?, setKind, Array.getElem?_modify]
  rfl

theorem symbol?_define {symbol : Symbol} {kind : SymbolKind} {span : Span}
    {file? : Option FileId} (found : t.symbol? id = some symbol) :
    (t.define name kind span file?).symbol? id = some symbol := by
  obtain ⟨within, -⟩ := Array.getElem?_eq_some_iff.1 found
  rw [symbol?_define_eq, if_neg (Nat.ne_of_lt within), found]

theorem symbol?_define_self {kind : SymbolKind} {span : Span} {file? : Option FileId} :
    (t.define name kind span file?).symbol? t.symbols.size =
      some ⟨name, kind, span, file?, t.currentId⟩ := by
  rw [symbol?_define_eq, if_pos rfl]

/-- A name of the current scope is seen first. -/
theorem lookup_of_lookupLocal (found : t.lookupLocal name = some id) : t.lookup name = some id := by
  rw [lookupLocal] at found
  rw [lookup_eq, scopes_eq_cons, List.findSome?_cons, found]

end SymbolTable

/-- The current scope defines a name. If the module is the one that declares it, it is that of an
alias, unless an error has been reported. -/
def CheckState.NamesAlias (s : CheckState) (file : FileId) (name : String) : Prop :=
  ∃ id symbol, s.symbols.lookupLocal name = some id ∧ s.symbols.symbol? id = some symbol ∧
    (symbol.file? = some file → symbol.kind.IsAlias ∨ s.Failed)

/-- If a statement of a module declares an alias, it is named so. -/
def CheckState.NamesAliasOf (s : CheckState) (file : FileId) (statement : Statement) : Prop :=
  ∀ span decl, statement = .typeAlias span decl → s.NamesAlias file decl.name.text

/-- Names of aliases stay names of aliases. -/
def CheckState.KeepsAliases (s t : CheckState) : Prop :=
  ∀ file name, s.NamesAlias file name → t.NamesAlias file name

namespace CheckState

variable {s t : CheckState}

theorem NamesAliasOf.mono {file : FileId} {statement : Statement}
    (h : s.NamesAliasOf file statement) (keeps : s.KeepsAliases t) : t.NamesAliasOf file statement :=
  fun span decl is => keeps file decl.name.text (h span decl is)

theorem keepsAliases_report (s : CheckState) (e : TypeError) : s.KeepsAliases (s.report e) := by
  rintro file name ⟨id, symbol, found, has, known⟩
  exact ⟨id, symbol, found, has, fun own => (known own).imp_right fun _ => s.failed_report e⟩

theorem keepsAliases_define {other : String} (new : s.symbols.lookupLocal other = none)
    (kind : SymbolKind) (span : Span) (file? : Option FileId) :
    s.KeepsAliases { s with symbols := s.symbols.define other kind span file? } := by
  rintro file name ⟨id, symbol, found, has, known⟩
  exact ⟨id, symbol, SymbolTable.lookupLocal_define found new, SymbolTable.symbol?_define has, known⟩

/-- What a symbol stands for may change as long as it stays an alias if it was one. -/
theorem keepsAliases_setKind {id : SymbolId} {kind : SymbolKind}
    (stays : ∀ symbol, s.symbols.symbol? id = some symbol → symbol.kind.IsAlias → kind.IsAlias) :
    s.KeepsAliases { s with symbols := s.symbols.setKind id kind } := by
  rintro file name ⟨other, symbol, found, has, known⟩
  have changed : (s.symbols.setKind id kind).symbol? other =
      if id = other then some { symbol with kind } else some symbol := by
    rw [SymbolTable.symbol?_setKind, has]
    rfl
  split at changed
  next same =>
    subst same
    refine ⟨id, _, found, changed, fun own => (known own).imp_left ?_⟩
    exact stays symbol has
  · exact ⟨other, symbol, found, changed, known⟩

/-- Finding what written types stand for keeps all aliases. -/
theorem lookupRelation_keepsAliases : LookupRelation KeepsAliases where
  refl _ _ _ := id
  trans first second file name named := second file name (first file name named)
  report s e _ := keepsAliases_report s e
  record _ _ _ _ _ _ := id
  expand _ _ written target := keepsAliases_setKind fun _ _ _ => ⟨written, some target, rfl⟩

/-- Collecting declarations keeps all aliases. -/
theorem collectRelation_keepsAliases : CollectRelation KeepsAliases where
  toLookupRelation := lookupRelation_keepsAliases
  define _ _ kind span file? new _ := keepsAliases_define new kind span file?
  setKind _ id symbol kind has other _ := keepsAliases_setKind fun symbol' has' isAlias => by
    obtain rfl := Option.some.inj (has.symm.trans has')
    exact (other isAlias).elim

end CheckState

namespace Check

open CheckState

theorem keepsAliases_defineGlobal (file : FileId) (name : Name) (kind : SymbolKind) :
    Keeps KeepsAliases (defineGlobal file name kind) := by
  refine keeps_read fun s => ?_
  dsimp only
  split
  next new => exact keepsAliases_define new kind name.span (some file)
  · split
    · exact keepsAliases_report s _
    · exact lookupRelation_keepsAliases.refl s

theorem keepsAliases_collectTypeName (file : FileId) (statement : Statement) :
    Keeps KeepsAliases (collectTypeName file statement) := by
  rw [collectTypeName.eq_def]
  split
  · exact keepsAliases_defineGlobal file _ _
  · exact keepsAliases_defineGlobal file _ _
  · exact keeps_pure lookupRelation_keepsAliases _

/-- Where a module declares an alias, its name is that of an alias from then on. -/
theorem namesAlias_collectTypeName (file : FileId) (statement : Statement) :
    Keeps (fun _ t => t.NamesAliasOf file statement) (collectTypeName file statement) := by
  rintro s span decl rfl
  apply keeps_read (R := fun _ t => t.NamesAlias file decl.name.text)
  intro s
  dsimp only
  split
  next new =>
    have isAlias : (SymbolKind.«alias» decl.type none).IsAlias := ⟨decl.type, none, rfl⟩
    exact ⟨_, _, SymbolTable.lookupLocal_define_self, SymbolTable.symbol?_define_self,
      fun _ => .inl isAlias⟩
  next id found =>
    obtain ⟨symbol, has⟩ := SymbolTable.exists_symbol (SymbolTable.lookup_of_lookupLocal found)
    split
    · -- The module has two declarations of the name, which is an error.
      exact ⟨id, symbol, found, has, fun _ => .inr (s.failed_report _)⟩
    next other =>
      refine ⟨id, symbol, found, has, fun own => ?_⟩
      rw [has, Option.bind_some, own] at other
      simp at other

end Check

namespace ModuleGraph

open Check

/-- The states in which the declarations of a program are collected: the names of all its types
are known, and some declarations have been looked at. -/
inductive Collecting (g : ModuleGraph) : CheckState → Prop
  | named : Collecting g
      ((g.modules.forM fun m => m.program.forM (collectTypeName m.id)).run .initial).2
  | declared {s m statement} : Collecting g s → m ∈ g.modules → statement ∈ m.program →
      Collecting g ((collectDeclaration m.id statement).run s).2

/-- While declarations are collected, the name of an alias that counts stands for an alias. -/
theorem Collecting.namesAlias {g : ModuleGraph} {s : CheckState} (h : g.Collecting s) :
    ∀ m ∈ g.modules, ∀ statement ∈ m.program, s.NamesAliasOf m.id statement := by
  induction h with
  | named =>
    have named := collecting_establishes (I := fun _ => True)
      (P := fun file statement t => t.NamesAliasOf file statement)
      CheckState.lookupRelation_keepsAliases
      (fun m _ statement _ => keepsAliases_collectTypeName m.id statement) (fun _ _ _ _ => trivial)
      (fun _ _ _ _ keeps named => named.mono keeps)
      fun m (_ : m ∈ g.modules) statement _ s _ => namesAlias_collectTypeName m.id statement s
    exact fun m mem statement among => named m mem statement among .initial trivial
  | declared _ _ _ ih =>
    intro m mem statement among
    have keeps := keeps_collectDeclaration_of CheckState.collectRelation_keepsAliases
    exact (ih m mem statement among).mono (keeps _ _ _)

end ModuleGraph

end ScriptToGo
