import ScriptToGo.Go.Statement
import ScriptToGo.Proofs.Types.GoNames

/-! The pieces that code is made of stay on one line each. -/
namespace ScriptToGo
open Text (OneLine oneLine_append oneLine_toString)

namespace Snippet

def InLine (s : Snippet) : Prop := OneLine s.text

@[simp] theorem inLine_append {a b : Snippet} : (a ++ b).InLine ↔ a.InLine ∧ b.InLine :=
  oneLine_append

@[simp] theorem inLine_ofText {text : String} : (ofText text).InLine ↔ OneLine text := Iff.rfl

theorem inLine_commaSeparated {list : List Snippet} (h : ∀ s ∈ list, s.InLine) :
    (commaSeparated list).InLine := by
  match list with
  | [] =>
    change OneLine ""
    decide
  | [s] => exact h s List.mem_cons_self
  | s :: next :: rest =>
    obtain ⟨first, others⟩ := List.forall_mem_cons.1 h
    have separator : OneLine ", " := by decide
    exact inLine_append.2 ⟨inLine_append.2 ⟨first, separator⟩, inLine_commaSeparated others⟩

theorem inLine_sprintf {format : String} {args : List Snippet} (line : OneLine format)
    (h : ∀ s ∈ args, s.InLine) : (sprintf format args).InLine := by
  have quoted : (ofText s!"\"{format}\"").InLine := by
    simp only [inLine_ofText, oneLine_append, oneLine_toString, line]
    decide
  have items := inLine_commaSeparated (List.forall_mem_cons.2 ⟨quoted, h⟩)
  have opening : OneLine s!"{Target.sprintf}(" := by decide
  have closing : OneLine ")" := by decide
  exact inLine_append.2 ⟨inLine_append.2 ⟨opening, items⟩, closing⟩

end Snippet

theorem oneLine_formatText {text : String} (line : OneLine text) : OneLine (formatText text) := by
  rw [formatText, Text.oneLine_ofList, List.mem_flatMap]
  rintro ⟨c, mem, among⟩
  split at among
  · simp at among
  · obtain rfl := List.mem_singleton.1 among
    exact line mem

theorem oneLine_templateFormat {head : String} {holes : List TemplateHole} (line : OneLine head)
    (texts : ∀ hole ∈ holes, OneLine hole.after) : OneLine (templateFormat head holes) := by
  rw [templateFormat, oneLine_append]
  refine ⟨oneLine_formatText line, Text.oneLine_join (List.forall_mem_map.2 fun hole mem => ?_)⟩
  exact oneLine_append.2 ⟨by decide, oneLine_formatText (texts hole mem)⟩

theorem TemplateHole.AllTextsOf.texts {holes : List TemplateHole} (h : AllTextsOf OneLine holes) :
    ∀ hole ∈ holes, OneLine hole.after := by
  induction holes with
  | nil => exact List.forall_mem_nil _
  | cons hole rest ih =>
    cases hole
    exact List.forall_mem_cons.2 ⟨h.2.1, ih h.2.2⟩

theorem BinaryOp.spelling_oneLine (op : BinaryOp) : OneLine op.spelling := by
  cases op <;> decide

theorem UnaryOp.spelling_oneLine (op : UnaryOp) : OneLine op.spelling := by
  cases op <;> decide

namespace View

/-- All Go names of types that the module may need stay on one line. -/
def InLine (v : View) : Prop := ∀ span, Returns OneLine (v.types.goNameAt v.module.id span)

variable {v : View} {span : Span} {α : Type} {Good : α → Prop}

/-- Where code is refused, none is returned. -/
theorem returns_refuse {cause : RefusalCause} : Returns Good (v.refuse span cause) := by
  rw [refuse]
  cases v.location span <;> trivial

theorem returns_refuse_bind {β : Type} {Fine : β → Prop} {cause : RefusalCause}
    {f : α → Except Failure β} : Returns Fine (v.refuse span cause >>= f) := by
  have refused : Returns (fun _ : α => False) (v.refuse span cause) := returns_refuse
  exact refused.bind fun _ never => never.elim

theorem plainName_self (name : String) : Returns (· = name) (v.plainName name span) := by
  rw [plainName]
  split
  · exact returns_refuse
  · rfl

theorem typeName_recorded (what : String) :
    Returns (fun name => v.types.goNameAt v.module.id span = .ok name) (v.typeName span what) := by
  rw [typeName]
  split
  next found => exact found
  · exact returns_refuse

theorem returns_plainName {name : String} (line : OneLine name) :
    Returns OneLine (v.plainName name span) :=
  (plainName_self name).mono fun _ is => is ▸ line

theorem InLine.typeName (h : v.InLine) (what : String) :
    Returns OneLine (v.typeName span what) :=
  (typeName_recorded what).mono fun _ recorded => (h span).of_ok recorded

end View

mutual

theorem Expr.toGo_inLine {v : View} (names : v.InLine) (e : Expr) (good : e.AllTexts OneLine) :
    Returns Snippet.InLine (e.toGo v) := by
  match e with
  | .array span elements =>
    rw [Expr.toGo]
    refine (names.typeName _).bind fun type line => ?_
    refine (Expr.allToGo_inLine names elements good).bind fun items lines => ?_
    have list := Snippet.inLine_commaSeparated lines
    change Snippet.InLine _
    simp only [Snippet.inLine_append, Snippet.inLine_ofText, line, list]
    decide
  | .binary span left op opSpan right =>
    rw [Expr.toGo]
    split
    · refine (Expr.toGo_inLine names left good.1).bind fun first line => ?_
      refine (Expr.toGo_inLine names right good.2).bind fun second lines => ?_
      have sign : OneLine s!" {op.spelling} " := by
        simp only [oneLine_append, oneLine_toString, op.spelling_oneLine]
        decide
      have verb : OneLine Target.verb := by decide
      refine Snippet.inLine_append.2 ⟨Snippet.inLine_append.2 ⟨line, sign⟩, ?_⟩
      split
      · exact Snippet.inLine_sprintf verb (List.forall_mem_singleton.2 lines)
      · exact lines
    · exact View.returns_refuse_bind
  | .call span callee args =>
    rw [Expr.toGo]
    refine (Expr.toGo_inLine names callee good.1).bind fun function line => ?_
    refine (Expr.allToGo_inLine names args good.2).bind fun items lines => ?_
    have list := Snippet.inLine_commaSeparated lines
    change Snippet.InLine _
    simp only [Snippet.inLine_append, Snippet.inLine_ofText, line, list]
    decide
  | .index span base index =>
    rw [Expr.toGo]
    refine (Expr.toGo_inLine names base good.1).bind fun first line => ?_
    refine (Expr.toGo_inLine names index good.2).bind fun second lines => ?_
    change Snippet.InLine _
    simp only [Snippet.inLine_append, Snippet.inLine_ofText, line, lines]
    decide
  | .ident span name =>
    rw [Expr.toGo]
    exact (View.returns_plainName good).bind fun name line => line
  | .number span text => exact good
  | .object span properties =>
    rw [Expr.toGo]
    refine (names.typeName _).bind fun type line => ?_
    refine (Property.allToGo_inLine names properties good).bind fun items lines => ?_
    have list := Snippet.inLine_commaSeparated lines
    change Snippet.InLine _
    simp only [Snippet.inLine_append, Snippet.inLine_ofText, line, list]
    decide
  | .paren span inner =>
    rw [Expr.toGo]
    refine (Expr.toGo_inLine names inner good).bind fun inside line => ?_
    change Snippet.InLine _
    simp only [Snippet.inLine_append, Snippet.inLine_ofText, line]
    decide
  | .leading span op opSpan operand =>
    rw [Expr.toGo]
    split
    · exact View.returns_refuse_bind
    · refine (Expr.toGo_inLine names operand good).bind fun inside line => ?_
      exact Snippet.inLine_append.2 ⟨op.spelling_oneLine, line⟩
  | .trailing span operand op opSpan =>
    rw [Expr.toGo]
    split
    · refine (Expr.toGo_inLine names operand good).bind fun inside line => ?_
      exact Snippet.inLine_append.2 ⟨line, op.spelling_oneLine⟩
    · exact View.returns_refuse_bind
  | .member span base property =>
    rw [Expr.toGo]
    split
    · refine (Expr.toGo_inLine names base good.1).bind fun inside line => ?_
      have opening : OneLine s!"{Target.len}(" := by decide
      change Snippet.InLine _
      simp only [Snippet.inLine_append, Snippet.inLine_ofText, line, opening]
      decide
    · refine (View.returns_plainName good.2).bind fun name field => ?_
      refine (Expr.toGo_inLine names base good.1).bind fun inside line => ?_
      have capital := Text.oneLine_capitalized field
      change Snippet.InLine _
      simp only [Snippet.inLine_append, Snippet.inLine_ofText, line, capital]
      decide
  | .string span body =>
    have inside : OneLine body := good
    rw [Expr.toGo]
    change OneLine s!"\"{body}\""
    simp only [oneLine_append, oneLine_toString, inside]
    decide
  | .template span head holes =>
    rw [Expr.toGo]
    refine (TemplateHole.allToGo_inLine names holes good.2).bind fun items lines => ?_
    exact Snippet.inLine_sprintf (oneLine_templateFormat good.1 good.2.texts) lines
  | .boolean span value =>
    rw [Expr.toGo]
    cases value with
    | true => exact (by decide : OneLine "true")
    | false => exact (by decide : OneLine "false")
  | .cast .. | .conditional .. | .null .. =>
    rw [Expr.toGo]
    exact View.returns_refuse

theorem Expr.allToGo_inLine {v : View} (names : v.InLine) (list : List Expr)
    (good : Expr.AllTextsOf OneLine list) :
    Returns (fun items => ∀ s ∈ items, s.InLine) (Expr.allToGo v list) := by
  match list with
  | [] =>
    rw [Expr.allToGo]
    exact List.forall_mem_nil _
  | e :: rest =>
    rw [Expr.allToGo]
    refine (Expr.toGo_inLine names e good.1).bind fun first line => ?_
    exact (Expr.allToGo_inLine names rest good.2).bind fun others lines =>
      List.forall_mem_cons.2 ⟨line, lines⟩

theorem Property.allToGo_inLine {v : View} (names : v.InLine) (list : List Property)
    (good : Property.AllTextsOf OneLine list) :
    Returns (fun items => ∀ s ∈ items, s.InLine) (Property.allToGo v list) := by
  match list with
  | [] =>
    rw [Property.allToGo]
    exact List.forall_mem_nil _
  | .assign _ name value :: rest =>
    rw [Property.allToGo]
    refine (View.returns_plainName good.1).bind fun field named => ?_
    refine (Expr.toGo_inLine names value good.2.1).bind fun first line => ?_
    refine (Property.allToGo_inLine names rest good.2.2).bind fun others lines => ?_
    refine List.forall_mem_cons.2 ⟨Snippet.inLine_append.2 ⟨?_, line⟩, lines⟩
    exact oneLine_append.2 ⟨Text.oneLine_capitalized named, by decide⟩
  | .shorthand _ name :: rest =>
    rw [Property.allToGo]
    refine (View.returns_plainName good.1).bind fun field named => ?_
    refine (Property.allToGo_inLine names rest good.2).bind fun others lines => ?_
    refine List.forall_mem_cons.2 ⟨Snippet.inLine_append.2 ⟨?_, named⟩, lines⟩
    exact oneLine_append.2 ⟨Text.oneLine_capitalized named, by decide⟩
  | .spread .. :: _ =>
    rw [Property.allToGo]
    exact View.returns_refuse

theorem TemplateHole.allToGo_inLine {v : View} (names : v.InLine) (list : List TemplateHole)
    (good : TemplateHole.AllTextsOf OneLine list) :
    Returns (fun items => ∀ s ∈ items, s.InLine) (TemplateHole.allToGo v list) := by
  match list with
  | [] =>
    rw [TemplateHole.allToGo]
    exact List.forall_mem_nil _
  | .mk value _ :: rest =>
    rw [TemplateHole.allToGo]
    refine (Expr.toGo_inLine names value good.1).bind fun first line => ?_
    exact (TemplateHole.allToGo_inLine names rest good.2.2).bind fun others lines =>
      List.forall_mem_cons.2 ⟨line, lines⟩

end

variable {v : View}

theorem clauseToGo_inLine (names : v.InLine) {e? : Option Expr}
    (good : ∀ e ∈ e?, e.AllTexts OneLine) : Returns Snippet.InLine (clauseToGo v e?) := by
  cases e? with
  | none => exact (by decide : OneLine "")
  | some e => exact Expr.toGo_inLine names e (good e rfl)

theorem Declarator.toGo_inLine (names : v.InLine) {d : Declarator} (good : d.AllTexts OneLine) :
    Returns Snippet.InLine (d.toGo v) := by
  rw [Declarator.toGo]
  refine (View.returns_plainName good.name).bind fun name line => ?_
  dsimp only
  split
  next value is =>
    have value := Expr.toGo_inLine names value (good.initializer value is)
    split
    · refine (names.typeName _).bind fun type typed => ?_
      refine value.bind fun code inside => ?_
      change Snippet.InLine _
      simp only [Snippet.inLine_append, Snippet.inLine_ofText, oneLine_append, oneLine_toString,
        line, typed, inside]
      decide
    · refine value.bind fun code inside => ?_
      change Snippet.InLine _
      simp only [Snippet.inLine_append, Snippet.inLine_ofText, oneLine_append, oneLine_toString,
        line, inside]
      decide
  · refine (names.typeName _).bind fun type typed => ?_
    change OneLine s!"{Target.var} {name} {type}"
    simp only [oneLine_append, oneLine_toString, line, typed]
    decide

theorem LoopStart.toGo_inLine (names : v.InLine) {start : LoopStart}
    (good : start.AllTexts OneLine) : Returns Snippet.InLine (start.toGo v) := by
  rw [LoopStart.toGo.eq_def]
  split
  · exact (by decide : OneLine "")
  next value => exact Expr.toGo_inLine names value good
  next list =>
    split
    next d is => exact Declarator.toGo_inLine names (good d (is ▸ List.mem_cons_self))
    · exact View.returns_refuse

theorem LoopClauses.toGo_inLine (names : v.InLine) {clauses : LoopClauses}
    (good : clauses.AllTexts OneLine) : Returns Snippet.InLine (clauses.toGo v) := by
  refine (LoopStart.toGo_inLine names good.start).bind fun start first => ?_
  refine (clauseToGo_inLine names good.condition).bind fun condition second => ?_
  refine (clauseToGo_inLine names good.step).bind fun step third => ?_
  change Snippet.InLine _
  simp only [Snippet.inLine_append, Snippet.inLine_ofText, first, second, third]
  decide

theorem Param.toGo_inLine (names : v.InLine) {p : Param} (good : p.AllTexts OneLine) :
    Returns OneLine (p.toGo v) := by
  refine (View.returns_plainName good.name).bind fun name line => ?_
  refine (names.typeName _).bind fun type typed => ?_
  change OneLine s!"{name} {type}"
  simp only [oneLine_append, oneLine_toString, line, typed]
  decide

end ScriptToGo
