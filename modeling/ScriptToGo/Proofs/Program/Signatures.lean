import ScriptToGo.Check.Module
import ScriptToGo.Proofs.Program.Nodes
import Mathlib.Data.List.Nodup

/-! What a statement shows to other modules, apart from what is inside of it. -/
namespace ScriptToGo

namespace Statement

/-- The outermost nodes of the function that a statement declares, but for its body. -/
def signature (s : Statement) : List Node :=
  match s.function? with
  | some (head, _) => head.outerNodes
  | none => []

variable {s : Statement} {head : FunctionHead} {hasBody : Bool}

theorem signature_of_function? (h : s.function? = some (head, hasBody)) :
    s.signature = head.outerNodes := by
  rw [signature, h]

theorem function?_of_defaultExport? (h : s.defaultExport? = some (head, hasBody)) :
    s.function? = some (head, hasBody) := (Option.filter_eq_some_iff.1 h).1

theorem function?_of_export? {name : String}
    (h : s.export? name = some (.function head hasBody)) : s.function? = some (head, hasBody) := by
  rw [export?.eq_def] at h
  split at h
  · split at h <;> cases h
  · split at h <;> cases h
  · split at h
    next some =>
      split at h
      · cases h
        exact some
      · cases h
    · cases h

/-- The outermost nodes of a statement that no other statement holds, but for those of what it
declares for all modules. -/
def checkedNodes : Statement → List Node
  | function _ _ _ body => allOuterNodes body
  | overload .. | interface .. | typeAlias .. => []
  | s => s.outerNodes

/-- No node of a statement is both. -/
theorem count_signature (span : Span) (s : Statement) :
    ((s.signature.flatMap Node.all).map Node.span).count span
        + ((s.checkedNodes.flatMap Node.all).map Node.span).count span
      ≤ ((s.outerNodes.flatMap Node.all).map Node.span).count span := by
  cases s with
  | function _ head _ body =>
    rw [outerNodes, List.flatMap_append, List.map_append, List.count_append]
    exact Nat.le_refl _
  | overload _ head => simp [signature, function?, checkedNodes, outerNodes]
  | _ => simp [signature, function?, checkedNodes]

end Statement

/-- No expression is inside of a written type. -/
theorem Node.expression_notMem_writtenType (e : Expr) (type : TypeExpr) :
    expression e ∉ (writtenType type).all := by
  rw [all_eq]
  simp [inner]

theorem FunctionHead.expression_notMem (e : Expr) (head : FunctionHead) :
    Node.expression e ∉ head.outerNodes.flatMap Node.all := by
  have optional (type? : Option TypeExpr) :
      Node.expression e ∉ (Node.ofType? type?).flatMap Node.all := by
    cases type? with
    | none => exact List.not_mem_nil
    | some type =>
      rw [Node.ofType?, Option.map_some, Option.toList_some, List.flatMap_singleton]
      exact Node.expression_notMem_writtenType e type
  rw [outerNodes, List.flatMap_append, List.mem_append, List.flatMap_map]
  rintro (mem | mem)
  · obtain ⟨p, -, mem⟩ := List.mem_flatMap.1 mem
    rw [Node.all_eq, List.mem_cons] at mem
    exact mem.elim Node.noConfusion (optional p.type?)
  · exact optional head.returns? mem

/-- Whatever a statement declares for all modules, its expressions are checked later. -/
theorem Statement.expression_mem_checkedNodes {e : Expr} {s : Statement}
    (mem : Node.expression e ∈ s.outerNodes.flatMap Node.all) :
    Node.expression e ∈ s.checkedNodes.flatMap Node.all := by
  cases s with
  | function _ head _ body =>
    rw [outerNodes, List.flatMap_append, List.mem_append] at mem
    exact mem.resolve_left (head.expression_notMem e)
  | overload _ head =>
    rw [outerNodes] at mem
    exact (head.expression_notMem e mem).elim
  | interface _ decl =>
    rw [outerNodes, List.flatMap_map] at mem
    obtain ⟨member, -, mem⟩ := List.mem_flatMap.1 mem
    exact (Node.expression_notMem_writtenType e member.type mem).elim
  | typeAlias _ decl =>
    rw [outerNodes, List.flatMap_singleton] at mem
    exact (Node.expression_notMem_writtenType e decl.type mem).elim
  | _ => exact mem

namespace Program

/-- The nodes of what functions of a program show before their bodies. -/
def signatures (program : Program) : List Node :=
  program.flatMap fun s => s.signature.flatMap Node.all

/-- The nodes that get their types when a module is checked. -/
def checkedNodes (program : Program) : List Node :=
  program.flatMap fun s => s.checkedNodes.flatMap Node.all

theorem count_signatures (span : Span) (program : Program) :
    (program.signatures.map Node.span).count span
        + (program.checkedNodes.map Node.span).count span
      ≤ (program.nodes.map Node.span).count span := by
  induction program with
  | nil => exact Nat.le_refl _
  | cons s rest ih =>
    have here := s.count_signature span
    have nodes : Program.nodes (s :: rest)
        = s.outerNodes.flatMap Node.all ++ Program.nodes rest := by
      rw [Program.nodes, outerNodes, Statement.allOuterNodes, List.flatMap_append]
      rfl
    rw [nodes, signatures, checkedNodes, List.flatMap_cons, List.flatMap_cons, List.map_append,
      List.map_append, List.map_append, List.count_append, List.count_append, List.count_append]
    rw [signatures, checkedNodes] at ih
    omega

/-- All expressions of a program are checked. -/
theorem expression_mem_checkedNodes {program : Program} {e : Expr}
    (mem : Node.expression e ∈ program.nodes) : Node.expression e ∈ program.checkedNodes := by
  have each (statements : List Statement) :
      Statement.allOuterNodes statements = statements.flatMap Statement.outerNodes := by
    induction statements with
    | nil => rfl
    | cons s rest ih => rw [Statement.allOuterNodes, ih, List.flatMap_cons]
  rw [nodes, outerNodes, each, List.flatMap_assoc] at mem
  obtain ⟨s, here, mem⟩ := List.mem_flatMap.1 mem
  exact List.mem_flatMap.2 ⟨s, here, Statement.expression_mem_checkedNodes mem⟩

/-- What functions show does not take the same ranges as what is checked later. -/
theorem signature_span_ne {program : Program} (distinct : (program.nodes.map Node.span).Nodup) :
    ∀ n ∈ program.signatures, ∀ m ∈ program.checkedNodes, n.span ≠ m.span := by
  intro n shown m checked same
  have once := List.nodup_iff_count_le_one.1 distinct n.span
  have both := program.count_signatures n.span
  have first : 0 < (program.signatures.map Node.span).count n.span :=
    List.count_pos_iff.2 (List.mem_map_of_mem shown)
  have second : 0 < (program.checkedNodes.map Node.span).count n.span :=
    List.count_pos_iff.2 (same ▸ List.mem_map_of_mem checked)
  omega

end Program

end ScriptToGo
