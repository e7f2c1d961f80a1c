import ScriptToGo.Proofs.Emission.Emitted
import ScriptToGo.Proofs.Emission.NodeCode

/-! The lines of a function hold the code of the nodes inside of it, and need what it needs. -/
namespace ScriptToGo
open Node (GoCode Make makes_one)

namespace Code

theorem importsAll_append (first second : List Code) :
    importsAll (first ++ second) = importsAll first ++ importsAll second := by
  induction first with
  | nil => rfl
  | cons c rest ih => rw [List.cons_append, importsAll, importsAll, ih, List.append_assoc]

theorem importsAll_singleton (c : Code) : importsAll [c] = c.imports := by
  rw [importsAll, importsAll, List.append_nil]

end Code

/-- Lines of code hold that of some nodes, and need what it needs. -/
structure Fill (v : View) (nodes : List Node) (codes : List Code) : Prop where
  stands : ∀ n ∈ nodes, n.isType = false → ∃ inner, n.GoCode v inner ∧
    ∀ depth, ∃ l ∈ Code.linesAll depth codes, inner.text.toList <:+: l.text.toList
  imports : ∀ path, path ∈ Code.importsAll codes ↔
    ∃ n ∈ nodes, ∃ inner, n.GoCode v inner ∧ path ∈ inner.imports

namespace Fill

variable {v : View} {nodes others : List Node} {codes more : List Code}

theorem nil : Fill v [] [] :=
  ⟨List.forall_mem_nil _, fun path => by simp [Code.importsAll]⟩

theorem append (first : Fill v nodes codes) (second : Fill v others more) :
    Fill v (nodes ++ others) (codes ++ more) where
  stands n mem value := by
    simp only [Code.linesAll_append, List.mem_append, or_and_right, exists_or]
    rcases List.mem_append.1 mem with mem | mem
    · obtain ⟨inner, given, stands⟩ := first.stands n mem value
      exact ⟨inner, given, fun depth => .inl (stands depth)⟩
    · obtain ⟨inner, given, stands⟩ := second.stands n mem value
      exact ⟨inner, given, fun depth => .inr (stands depth)⟩
  imports path := by
    rw [Code.importsAll_append, List.mem_append, first.imports, second.imports]
    simp only [List.mem_append, or_and_right, exists_or]

theorem line {content : Snippet} (h : Make v nodes content []) : Fill v nodes [.line content] where
  stands n mem value := by
    obtain ⟨inner, given, within⟩ := h.stands n mem value
    refine ⟨inner, given, fun depth => ⟨⟨depth, content.text⟩, ?_, within.text⟩⟩
    rw [Code.linesAll_singleton, Code.lines]
    exact List.mem_singleton_self _
  imports path := by
    rw [Code.importsAll_singleton, Code.imports, h.imports]
    simp

theorem block {head : Snippet} {body : List Code} (h : Make v nodes head [])
    (inside : Fill v others body) : Fill v (nodes ++ others) [.block head body] where
  stands n mem value := by
    simp only [Code.linesAll_singleton, Code.lines_block, bracedLines, List.mem_cons,
      List.mem_append]
    rcases List.mem_append.1 mem with mem | mem
    · obtain ⟨inner, given, within⟩ := h.stands n mem value
      refine ⟨inner, given, fun depth => ⟨⟨depth, head.text ++ "\x7b"⟩, .inl rfl, ?_⟩⟩
      exact (within.left "\x7b").text
    · obtain ⟨inner, given, stands⟩ := inside.stands n mem value
      refine ⟨inner, given, fun depth => ?_⟩
      obtain ⟨l, among, within⟩ := stands (depth + 1)
      exact ⟨l, .inr (.inl among), within⟩
  imports path := by
    rw [Code.importsAll_singleton, Code.imports, List.mem_append, h.imports, inside.imports]
    simp only [List.not_mem_nil, false_or, List.mem_append, or_and_right, exists_or]

/-- A block whose head is the code of no node. -/
theorem plainBlock {body : List Code} (text : String) (inside : Fill v nodes body) :
    Fill v nodes [.block text body] :=
  block (.ofText text) inside

end Fill

variable {v : View}

theorem makes_clause (e? : Option Expr) :
    Returns (fun code => Make v (Node.ofExpr? e?) code []) (clauseToGo v e?) := by
  cases e? with
  | none => exact Make.ofText ""
  | some e => exact makes_one e

theorem LoopStart.makes (start : LoopStart) :
    Returns (fun code => Make v start.outerNodes code []) (start.toGo v) := by
  cases start with
  | nothing => exact Make.ofText ""
  | expression value => exact makes_one value
  | «variables» span list =>
    rw [LoopStart.toGo, LoopStart.outerNodes, VariableList.outerNodes]
    split
    next d is =>
      rw [is]
      exact (Returns.self _).mono fun _ given => .one (.declarator given)
    · exact View.returns_refuse

theorem LoopClauses.makes (clauses : LoopClauses) :
    Returns (fun code => Make v clauses.outerNodes code []) (clauses.toGo v) := by
  rw [LoopClauses.toGo]
  refine clauses.start.makes.bind fun start first => ?_
  refine (makes_clause clauses.condition?).bind fun condition second => ?_
  refine (makes_clause clauses.step?).bind fun step third => ?_
  have head := (((Make.ofText "for ").append first).append (.ofText "; ")).append second
  have whole := ((head.append (.ofText "; ")).append third).append (.ofText " ")
  exact whole.returned (by simp [LoopClauses.outerNodes]) rfl

theorem fills_declarators (declarators : List Declarator) :
    Returns (Fill v (declarators.map .declarator))
      (declarators.mapM fun d => return .line (← d.toGo v)) := by
  induction declarators with
  | nil => exact .nil
  | cons d rest ih =>
    rw [List.mapM_cons]
    have first : Returns (fun code => Fill v [.declarator d] [code])
        (do return .line (← d.toGo v)) :=
      (Returns.self (d.toGo v)).bind fun code given => .line (.one (.declarator given))
    exact first.bind fun code fills => ih.bind fun codes others => fills.append others

mutual

theorem Statement.fills (s : Statement) : Returns (Fill v s.outerNodes) (s.toGo v) := by
  match s with
  | .block _ body =>
    rw [Statement.toGo]
    exact (Statement.allFill body).bind fun codes inside => inside.plainBlock ""
  | .expression _ value =>
    rw [Statement.toGo]
    exact (makes_one value).bind fun code made => .line made
  | .forLoop _ clauses body =>
    cases body with
    | block _ body =>
      rw [Statement.toGo]
      refine clauses.makes.bind fun head made => ?_
      exact (Statement.allFill body).bind fun codes inside => .block made inside
    | _ =>
      rw [Statement.toGo]
      · refine clauses.makes.bind fun head made => ?_
        exact (Statement.fills _).bind fun codes inside => .block made inside
      all_goals simp
  | .returning _ none =>
    rw [Statement.toGo]
    exact Fill.line (.ofText "return")
  | .returning _ (some value) =>
    rw [Statement.toGo]
    exact (makes_one value).bind fun code made => .line ((Make.ofText "return ").append made)
  | .«variables» _ list =>
    rw [Statement.toGo]
    exact fills_declarators list.declarators
  | .function .. | .overload .. | .importing .. | .interface .. | .typeAlias .. | .empty .. |
    .ifThen .. | .ifElse .. | .whileLoop .. | .doLoop .. =>
    rw [Statement.toGo]
    · exact View.returns_refuse
    all_goals simp

theorem Statement.allFill (statements : List Statement) :
    Returns (Fill v (Statement.allOuterNodes statements)) (Statement.allToGo v statements) := by
  match statements with
  | [] =>
    rw [Statement.allToGo]
    exact Fill.nil
  | s :: rest =>
    rw [Statement.allToGo]
    refine (Statement.fills s).bind fun first fills => ?_
    exact (Statement.allFill rest).bind fun others fill => fills.append fill

end

theorem Snippet.commaSeparated_ofText (texts : List String) :
    commaSeparated (texts.map ofText) = ofText (", ".intercalate texts) := by
  induction texts with
  | nil => rfl
  | cons first rest ih =>
    rcases rest with _ | ⟨second, rest⟩
    · rw [String.intercalate_singleton]
      rfl
    · rw [String.intercalate_cons_cons]
      exact congrArg (ofText first ++ ofText ", " ++ ·) ih

/-- The names and types of parameters stand in the line on which a function starts. -/
theorem makes_params (params : List Param) :
    Returns (fun texts => Make v (params.map .param) (.ofText (", ".intercalate texts)) [])
      (params.mapM (Param.toGo v)) := by
  refine (Returns.mapM_forall₂ fun p _ => Returns.self (p.toGo v)).mono fun texts given => ?_
  rw [← Snippet.commaSeparated_ofText]
  refine .commaSeparated (List.forall₂_map_left_iff.2 (List.forall₂_map_right_iff.2 ?_))
  exact given.imp fun _ _ given => .one (.param given)

theorem FunctionHead.fills (head : FunctionHead) (span : Span) (body : List Statement) :
    Returns (fun code => Fill v (head.outerNodes ++ Statement.allOuterNodes body) [code])
      (head.toGo v span (some body)) := by
  rw [FunctionHead.toGo]
  split
  next name named =>
    refine (Returns.self _).bind fun goName _ => ?_
    split
    next returns declared =>
      refine (makes_params head.params).bind fun params made => ?_
      refine (Returns.self _).bind fun result _ => ?_
      refine (Statement.allFill body).bind fun codes inside => ?_
      generalize (if result = Target.void then "" else result ++ " ") = tail
      generalize ", ".intercalate params = list at made ⊢
      have start := (Make.ofText s!"{Target.func} {goName}(").append made
      have line := start.append (.types (Node.isType_ofType? head.returns?) s!") {tail}")
      have text : s!"{Target.func} {goName}(" ++ list ++ s!") {tail}"
          = s!"{Target.func} {goName}({list}) {tail}" := by
        simp only [String.append_assoc]
        rfl
      exact Fill.block (text ▸ line) inside
    · exact View.returns_refuse
  · exact View.returns_refuse

/-- Functions are all that is written at the top level. -/
theorem Statement.fillsTopLevel (s : Statement) :
    Returns (fun code => Fill v s.outerNodes [code]) (s.toGoTopLevel v) := by
  match s with
  | .function span head _ body => exact head.fills span body
  | .overload _ head => exact head.refused_bodiless
  | .importing .. | .interface .. | .typeAlias .. | .empty .. | .block .. | .expression .. |
    .forLoop .. | .returning .. | .«variables» .. | .ifThen .. | .ifElse .. | .whileLoop .. |
    .doLoop .. => exact View.returns_refuse

/-- The code of each node of a function stands in a line of it, and the function needs what its nodes
need by themselves. -/
theorem Fill.deep {nodes : List Node} {codes : List Code} (h : Fill v nodes codes) :
    (∀ m ∈ nodes.flatMap Node.all, m.isType = false → ∃ inner, m.GoCode v inner ∧
      ∀ depth, ∃ l ∈ Code.linesAll depth codes, inner.text.toList <:+: l.text.toList) ∧
    ∀ path, path ∈ Code.importsAll codes ↔ ∃ m ∈ nodes.flatMap Node.all, path ∈ m.needs v := by
  constructor
  · intro m mem value
    obtain ⟨n, among, outer, inside⟩ := Node.exists_outer mem value
    obtain ⟨code, given, stands⟩ := h.stands n among outer
    obtain ⟨inner, given', within⟩ := given.all.1 m inside value
    refine ⟨inner, given', fun depth => ?_⟩
    obtain ⟨l, line, here⟩ := stands depth
    exact ⟨l, line, within.text.trans here⟩
  · intro path
    rw [h.imports, Node.exists_imports_iff]
    · intro n among outer
      obtain ⟨code, given, _⟩ := h.stands n among outer
      exact ⟨code, given⟩
    · intro n _ code given
      exact given.all.2 path

end ScriptToGo
