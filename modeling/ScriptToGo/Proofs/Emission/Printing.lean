import ScriptToGo.Proofs.Emission.InLine
import ScriptToGo.Proofs.Emission.Lines

/-! The lines of functions, read off their statements. -/
namespace ScriptToGo
open Text (OneLine oneLine_append oneLine_toString)

/-- Lines inside of braces, the first of which stands behind a head. -/
def bracedLines (depth : Nat) (head : String) (inside : List CodeLine) : List CodeLine :=
  ⟨depth, head ++ "\x7b"⟩ :: (inside ++ [⟨depth, "\x7d"⟩])

mutual

/-- The lines of a statement that stands in a number of blocks. What is inside of a block or a loop
stands in one block more. -/
inductive Statement.Prints (v : View) : Nat → Statement → List CodeLine → Prop
  | block {n span body inside} : Statement.AllPrint v (n + 1) body inside →
      Statement.Prints v n (.block span body) (bracedLines n "" inside)
  | expression {n span value code} : value.toGo v = .ok code →
      Statement.Prints v n (.expression span value) [⟨n, code.text⟩]
  | loop {n span clauses head blockSpan body inside} : clauses.toGo v = .ok head →
      Statement.AllPrint v (n + 1) body inside →
      Statement.Prints v n (.forLoop span clauses (.block blockSpan body))
        (bracedLines n head.text inside)
  /-- A single statement gets braces of its own. -/
  | bareLoop {n span clauses head body inside} :
      (∀ blockSpan statements, body ≠ .block blockSpan statements) →
      clauses.toGo v = .ok head → Statement.Prints v (n + 1) body inside →
      Statement.Prints v n (.forLoop span clauses body) (bracedLines n head.text inside)
  | returning {n span} : Statement.Prints v n (.returning span none) [⟨n, "return"⟩]
  | returningValue {n span value code} : value.toGo v = .ok code →
      Statement.Prints v n (.returning span (some value)) [⟨n, "return " ++ code.text⟩]
  | «variables» {n span list codes} : list.declarators.mapM (·.toGo v) = .ok codes →
      Statement.Prints v n (.«variables» span list) (codes.map fun code => ⟨n, code.text⟩)

/-- The lines of statements follow each other. -/
inductive Statement.AllPrint (v : View) : Nat → List Statement → List CodeLine → Prop
  | nil {n} : Statement.AllPrint v n [] []
  | cons {n s rest first others} : Statement.Prints v n s first →
      Statement.AllPrint v n rest others → Statement.AllPrint v n (s :: rest) (first ++ others)

end

/-- The line on which a function starts, up to its brace. Go writes no type where nothing comes
back. -/
def functionLine (name : String) (params : List String) (result : String) : String :=
  let list := ", ".intercalate params
  let tail := if result = Target.void then "" else result ++ " "
  s!"func {name}({list}) {tail}"

/-- The lines of a function. The first and the last of them start at the margin. -/
inductive Statement.PrintsFunction (v : View) : Statement → List CodeLine → Prop
  | mk {span head bodySpan body name returns params result inside} :
      head.name? = some name → head.returns? = some returns →
      head.params.mapM (Param.toGo v) = .ok params →
      v.types.goNameAt v.module.id returns.span = .ok result →
      Statement.AllPrint v 1 body inside →
      Statement.PrintsFunction v (.function span head bodySpan body)
        (bracedLines 0 (functionLine name.text params result) inside)

namespace Code

theorem linesAll_append (depth : Nat) (first second : List Code) :
    linesAll depth (first ++ second) = linesAll depth first ++ linesAll depth second := by
  induction first with
  | nil => rfl
  | cons c rest ih => rw [List.cons_append, linesAll, linesAll, ih, List.append_assoc]

theorem lines_block (depth : Nat) (head : Snippet) (body : List Code) :
    (block head body).lines depth = bracedLines depth head.text (linesAll (depth + 1) body) := by
  rw [lines, bracedLines]

theorem linesAll_singleton (depth : Nat) (c : Code) : linesAll depth [c] = c.lines depth := by
  rw [linesAll, linesAll, List.append_nil]

theorem linesAll_map_line (depth : Nat) (list : List Snippet) :
    linesAll depth (list.map line) = list.map fun code => ⟨depth, code.text⟩ := by
  induction list with
  | nil => rfl
  | cons s rest ih =>
    rw [List.map_cons, linesAll, ih, lines]
    rfl

end Code

/-- Pieces of code that are each put on a line. -/
theorem Declarator.mapM_line (v : View) (declarators : List Declarator) :
    (declarators.mapM fun d => return Code.line (← d.toGo v))
      = declarators.mapM (·.toGo v) >>= fun list => pure (list.map Code.line) := by
  induction declarators with
  | nil => rfl
  | cons d rest ih =>
    rw [List.mapM_cons, List.mapM_cons, ih]
    simp only [bind_assoc, pure_bind, List.map_cons]

mutual

theorem Statement.prints {v : View} (n : Nat) (s : Statement) :
    Returns (fun codes => Statement.Prints v n s (Code.linesAll n codes)) (s.toGo v) := by
  match s with
  | .block _ body =>
    rw [Statement.toGo]
    refine (Statement.allPrint (n + 1) body).bind fun codes inside => ?_
    change Statement.Prints v n _ (Code.linesAll n [_])
    rw [Code.linesAll_singleton, Code.lines_block]
    exact .block inside
  | .expression _ value =>
    rw [Statement.toGo]
    exact (Returns.self (value.toGo v)).bind fun code written => .expression written
  | .forLoop _ clauses body =>
    cases body with
    | block _ body =>
      rw [Statement.toGo]
      refine (Returns.self (clauses.toGo v)).bind fun head written => ?_
      refine (Statement.allPrint (n + 1) body).bind fun codes inside => ?_
      change Statement.Prints v n _ (Code.linesAll n [_])
      rw [Code.linesAll_singleton, Code.lines_block]
      exact .loop written inside
    | _ =>
      rw [Statement.toGo]
      · refine (Returns.self (clauses.toGo v)).bind fun head written => ?_
        refine (Statement.prints (n + 1) _).bind fun codes inside => ?_
        change Statement.Prints v n _ (Code.linesAll n [_])
        rw [Code.linesAll_singleton, Code.lines_block]
        exact .bareLoop (by simp) written inside
      all_goals simp
  | .returning _ none =>
    rw [Statement.toGo]
    exact .returning
  | .returning _ (some value) =>
    rw [Statement.toGo]
    exact (Returns.self (value.toGo v)).bind fun code written => .returningValue written
  | .«variables» _ list =>
    rw [Statement.toGo]
    rw [Declarator.mapM_line]
    refine (Returns.self (list.declarators.mapM _)).bind fun codes written => ?_
    change Statement.Prints v n _ (Code.linesAll n (codes.map Code.line))
    rw [Code.linesAll_map_line]
    exact .«variables» written
  | .function .. | .overload .. | .importing .. | .interface .. | .typeAlias .. | .empty .. |
    .ifThen .. | .ifElse .. | .whileLoop .. | .doLoop .. =>
    rw [Statement.toGo]
    · exact View.returns_refuse
    all_goals simp

theorem Statement.allPrint {v : View} (n : Nat) (statements : List Statement) :
    Returns (fun codes => Statement.AllPrint v n statements (Code.linesAll n codes))
      (Statement.allToGo v statements) := by
  match statements with
  | [] =>
    rw [Statement.allToGo]
    exact .nil
  | s :: rest =>
    rw [Statement.allToGo]
    refine (Statement.prints n s).bind fun first prints => ?_
    refine (Statement.allPrint n rest).bind fun others allPrint => ?_
    change Statement.AllPrint v n _ (Code.linesAll n (first ++ others))
    rw [Code.linesAll_append]
    exact .cons prints allPrint

end

theorem FunctionHead.printsFunction {v : View} {span bodySpan : Span} (head : FunctionHead)
    (body : List Statement) :
    Returns (fun code => Statement.PrintsFunction v (.function span head bodySpan body)
      (code.lines 0)) (head.toGo v span (some body)) := by
  rw [FunctionHead.toGo]
  split
  next name named =>
    refine (View.plainName_self name.text).bind ?_
    rintro _ rfl
    split
    next returns declared =>
      refine (Returns.self (head.params.mapM (Param.toGo v))).bind fun params written => ?_
      refine (View.typeName_recorded _).bind fun result recorded => ?_
      refine (Statement.allPrint 1 body).bind fun codes inside => ?_
      change Statement.PrintsFunction v _ ((Code.block _ codes).lines 0)
      rw [Code.lines_block]
      exact .mk named declared written recorded inside
    · exact View.returns_refuse
  · exact View.returns_refuse

theorem FunctionHead.refused_bodiless {v : View} {span : Span} {Good : Code → Prop}
    (head : FunctionHead) : Returns Good (head.toGo v span none) := by
  rw [FunctionHead.toGo]
  split
  · refine (View.plainName_self _).bind fun _ _ => ?_
    split
    · exact View.returns_refuse
    · exact View.returns_refuse
  · exact View.returns_refuse

/-- Functions are all that is written at the top level. -/
theorem Statement.printsFunction {v : View} (s : Statement) :
    Returns (fun code => Statement.PrintsFunction v s (code.lines 0)) (s.toGoTopLevel v) := by
  match s with
  | .function _ head _ body =>
    rw [Statement.toGoTopLevel]
    exact head.printsFunction body
  | .overload _ head =>
    rw [Statement.toGoTopLevel]
    exact head.refused_bodiless
  | .importing .. =>
    rw [Statement.toGoTopLevel]
    exact View.returns_refuse
  | .interface .. | .typeAlias .. | .empty .. | .block .. | .expression .. | .forLoop .. |
    .returning .. | .«variables» .. | .ifThen .. | .ifElse .. | .whileLoop .. | .doLoop .. =>
    rw [Statement.toGoTopLevel]
    · exact View.returns_refuse
    all_goals simp

section InLine

variable {v : View}

theorem oneLine_bracedLines {depth : Nat} {head : String} {inside : List CodeLine}
    (line : OneLine head) (lines : ∀ l ∈ inside, OneLine l.text) :
    ∀ l ∈ bracedLines depth head inside, OneLine l.text := by
  have opening : OneLine (head ++ "\x7b") := oneLine_append.2 ⟨line, by decide⟩
  have closing : OneLine "\x7d" := by decide
  refine List.forall_mem_cons.2 ⟨opening, List.forall_mem_append.2 ⟨lines, ?_⟩⟩
  exact List.forall_mem_singleton.2 closing

mutual

theorem Statement.Prints.inLine (names : v.InLine) {n : Nat} {s : Statement}
    {lines : List CodeLine} (h : Statement.Prints v n s lines) (good : s.AllTexts OneLine) :
    ∀ l ∈ lines, OneLine l.text := by
  match h with
  | .block inside =>
    have lines := Statement.AllPrint.inLine names inside good
    exact oneLine_bracedLines (by decide) lines
  | .expression written =>
    exact List.forall_mem_singleton.2 ((Expr.toGo_inLine names _ good).of_ok written)
  | .loop written inside =>
    have head := (LoopClauses.toGo_inLine names good.1).of_ok written
    exact oneLine_bracedLines head (Statement.AllPrint.inLine names inside good.2)
  | .bareLoop _ written inside =>
    have head := (LoopClauses.toGo_inLine names good.1).of_ok written
    exact oneLine_bracedLines head (Statement.Prints.inLine names inside good.2)
  | .returning => exact List.forall_mem_singleton.2 (by decide : OneLine "return")
  | .returningValue written =>
    have value := (Expr.toGo_inLine names _ (good _ rfl)).of_ok written
    exact List.forall_mem_singleton.2 (oneLine_append.2 ⟨by decide, value⟩)
  | .«variables» written =>
    have each := (Returns.mapM fun d mem => Declarator.toGo_inLine names (good d mem)).of_ok written
    exact List.forall_mem_map.2 each

theorem Statement.AllPrint.inLine (names : v.InLine) {n : Nat} {statements : List Statement}
    {lines : List CodeLine} (h : Statement.AllPrint v n statements lines)
    (good : Statement.AllTextsOf OneLine statements) : ∀ l ∈ lines, OneLine l.text := by
  match h with
  | .nil => exact List.forall_mem_nil _
  | .cons first others =>
    exact List.forall_mem_append.2 ⟨Statement.Prints.inLine names first good.1,
      Statement.AllPrint.inLine names others good.2⟩

end

theorem Statement.PrintsFunction.inLine (names : v.InLine) {s : Statement}
    {lines : List CodeLine} (h : s.PrintsFunction v lines) (good : s.AllTexts OneLine) :
    ∀ l ∈ lines, OneLine l.text := by
  obtain ⟨named, declared, written, recorded, inside⟩ := h
  have name := good.1.name _ named
  have params := (Returns.mapM fun p mem => Param.toGo_inLine names (good.1.params p mem)).of_ok
    written
  have result := (names _).of_ok recorded
  have separator : OneLine ", " := by decide
  have list := Text.oneLine_intercalate separator params
  refine oneLine_bracedLines ?_ (inside.inLine names good.2)
  simp only [functionLine, oneLine_append, oneLine_toString, name, list]
  refine ⟨by decide, ?_⟩
  split
  · decide
  · exact oneLine_append.2 ⟨result, by decide⟩

end InLine

end ScriptToGo
