import ScriptToGo.Check.Module
import ScriptToGo.Proofs.Grammar.NodePlaces
import ScriptToGo.Proofs.Grammar.Program
import ScriptToGo.Proofs.Grammar.ProgramTexts

/-! The tokens that write the names of functions and variables. -/
namespace ScriptToGo

/-- The name of the variable that a node declares or takes the value of. -/
def Node.name? : Node → Option Name
  | expression (.ident span text) => some ⟨text, span⟩
  | shorthand name => some name
  | param p => some p.name
  | declarator d => some d.name
  | _ => none

/-- The name of the function that a statement declares, if it is one that has a name. -/
def Statement.functionName? (s : Statement) : Option Name :=
  s.function?.bind fun (head, _) => head.name?

/-- A name is written as an identifier. -/
def Name.token (name : Name) : Token := .mk (.ident name.text) name.span

theorem Node.WrittenBy.name_mem {n : Node} {own : List Token} (h : n.WrittenBy own)
    (ordered : Ordered own) {name : Name} (named : n.name? = some name) : name.token ∈ own := by
  cases h with
  | writtenType => cases named
  | param whole | declarator whole =>
    obtain rfl := Option.some.inj named
    rw [whole]
    exact List.mem_cons_self
  | shorthand =>
    obtain rfl := Option.some.inj named
    exact List.mem_singleton_self _
  | expression written =>
    cases written with
    | ident =>
      obtain rfl := Option.some.inj named
      rw [spanOf_one ordered]
      exact List.mem_singleton_self _
    | _ => cases named

namespace Reading

variable {α : Type} {n : Nat}

theorem ensures_any (r : Reading α n) : r.Ensures fun _ _ => True :=
  ensures_of fun _ _ _ => trivial

end Reading

namespace Grammar
open Cursor

variable {tokens : List Token} {c : Cursor}

theorem functionHead_named {isExported isDefault : Bool} (inside : c.In tokens) :
    (functionHead isExported isDefault c).Ensures fun head _ =>
      ∀ name ∈ head.name?, name.token ∈ tokens := by
  have signature (name? : Option Name) (named : ∀ name ∈ name?, name.token ∈ tokens) (c : Cursor) :
      (functionSignature isExported isDefault name? c).Ensures fun head _ =>
        ∀ name ∈ head.name?, name.token ∈ tokens := by
    rw [functionSignature]
    refine (Reading.ensures_any _).andThen fun _ _ _ _ => ?_
    refine (Reading.ensures_any _).andMaybe fun _ _ _ _ => ?_
    exact (Reading.ensures_any _).map fun _ _ _ => named
  rw [functionHead]
  split
  next taken =>
    obtain ⟨kind, accepted, passed⟩ := passes_of_take? taken
    apply Reading.Ensures.past
    apply signature
    rintro _ ⟨⟩
    cases kind with
    | ident text =>
      cases accepted
      refine inside.rest.subset ?_
      rw [passed.rest]
      exact List.mem_cons_self
    | _ => cases accepted
  · split
    · exact signature none (by simp) c
    · trivial

theorem function_named {start : Nat} {isExported isDefault : Bool} (inside : c.In tokens) :
    (function start isExported isDefault c).Ensures fun s _ =>
      ∀ name ∈ s.functionName?, name.token ∈ tokens := by
  rw [function]
  refine (functionHead_named inside).andMaybe fun head c₁ _ named => ?_
  split
  · apply Reading.Ensures.pastOptional
    exact (Reading.ensures_any _).mapAt fun _ _ _ => named
  · have read : (Reading.stay head c₁).thenSemicolon.Ensures fun other _ => other = head := rfl
    exact read.mapAt fun _ _ is => is ▸ named

/-- A statement that is no function has no name of this kind, whatever it is made of. -/
theorem named_of_none {s : Statement} (none : s.functionName? = none) :
    ∀ name ∈ s.functionName?, name.token ∈ tokens := by
  rw [none]
  simp

theorem ensures_nameless {α : Type} {n : Nat} (r : Reading α n) {make : α → Cursor → Statement}
    (nameless : ∀ value next, (make value next).functionName? = none) :
    (r.mapAt make).Ensures fun s _ => ∀ name ∈ s.functionName?, name.token ∈ tokens :=
  (Reading.ensures_any _).mapAt fun value next _ => named_of_none (nameless value next)

theorem exported_named {start : Nat} (inside : c.In tokens) :
    (exported start c).Ensures fun s _ => ∀ name ∈ s.functionName?, name.token ∈ tokens := by
  rw [exported]
  split
  next byDefault =>
    have inside := (inside.take byDefault).1
    split
    next word =>
      apply Reading.Ensures.past
      apply Reading.Ensures.past
      exact function_named (inside.take word).1
    · trivial
  split
  next found =>
    apply Reading.Ensures.past
    exact function_named (inside.next found).1
  · exact (ensures_nameless _ fun _ _ => rfl).past
  · exact (ensures_nameless _ fun _ _ => rfl).past
  · trivial

theorem statement_named (inside : c.In tokens) :
    (statement c).Ensures fun s _ => ∀ name ∈ s.functionName?, name.token ∈ tokens := by
  rw [statement]
  split
  · exact (ensures_nameless _ fun _ _ => rfl).past
  next found => exact (exported_named (inside.next found).1).past
  next found => exact (function_named (inside.next found).1).past
  · exact (ensures_nameless _ fun _ _ => rfl).past
  · exact (ensures_nameless _ fun _ _ => rfl).past
  · apply Reading.Ensures.past
    exact (Reading.ensures_any _).andThen fun _ _ _ _ => ensures_nameless _ fun _ _ => rfl
  · exact (ensures_nameless _ fun _ _ => rfl).weaken
  · apply Reading.Ensures.past
    refine (Reading.ensures_any _).andThen fun _ _ _ _ => ?_
    refine (Reading.ensures_any _).andMaybe fun _ _ _ _ => ?_
    split
    · exact (ensures_nameless _ fun _ _ => rfl).pastOptional
    · exact named_of_none rfl
  · apply Reading.Ensures.past
    exact (Reading.ensures_any _).andThen fun _ _ _ _ => ensures_nameless _ fun _ _ => rfl
  · apply Reading.Ensures.past
    refine (Reading.ensures_any _).andThen fun _ _ _ _ => ?_
    exact (Reading.ensures_any _).andThen fun _ _ _ _ => ensures_nameless _ fun _ _ => rfl
  · exact (ensures_nameless _ fun _ _ => rfl).past
  · exact named_of_none rfl
  · split
    · exact (ensures_nameless _ fun _ _ => rfl).past
    · exact ensures_nameless _ fun _ _ => rfl

/-- The names of functions are among the tokens, also of those that are read after an error. -/
theorem program_named (inside : c.In tokens) :
    ∀ s ∈ (program c).statements, ∀ name ∈ s.functionName?, name.token ∈ tokens := by
  fun_induction program c with
  | case1 => exact List.forall_mem_nil _
  | case2 c _ first next shorter read others ih =>
    have stays := statement_staysIn inside
    have named := statement_named inside
    rw [read] at stays named
    exact List.forall_mem_cons.2 ⟨named, ih stays.2⟩
  | case3 => exact List.forall_mem_nil _
  | case4 c _ error place within read _ _ others ih =>
    have stays := statement_staysIn inside
    rw [read] at stays
    exact ih (recover_in stays)

end Grammar

/-- The names of functions and variables of a program are identifiers of its text. -/
theorem Program.name_mem {source : String} {base : Nat} {tokens : List Token} {program : Program}
    (lexed : tokenize source base = .ok tokens) (parsed : ofTokens tokens = .ok program) :
    (∀ s ∈ program, ∀ name ∈ s.functionName?, name.token ∈ allTokens tokens) ∧
      ∀ n ∈ program.nodes, ∀ name ∈ n.name?, name.token ∈ allTokens tokens := by
  constructor
  · obtain ⟨start, opened, read⟩ := Program.ofTokens_eq_ok_iff.1 parsed
    have named := Grammar.program_named (Cursor.in_ofTokens? opened)
    rw [read] at named
    intro s among name mem
    exact allTokens_subset (named s among name mem) (Token.mem_all _)
  · intro n among name mem
    obtain ⟨own, within, ordered, written⟩ := node_writtenBy lexed parsed among
    exact within.mem (written.name_mem ordered mem)

end ScriptToGo
