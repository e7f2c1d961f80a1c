import ScriptToGo.Proofs.Emission.InLine
import ScriptToGo.Proofs.Program.Nodes

/-! The code of a node is made of the code of the nodes inside of it and of what it needs itself. -/
namespace ScriptToGo

namespace Snippet

variable {a b c : Snippet}

/-- A piece of code stands in another one, which needs all that it needs. -/
structure Within (inner outer : Snippet) : Prop where
  text : inner.text.toList <:+: outer.text.toList
  imports : inner.imports ⊆ outer.imports

namespace Within

theorem refl (a : Snippet) : a.Within a := ⟨List.infix_rfl, List.Subset.refl _⟩

theorem trans (first : a.Within b) (second : b.Within c) : a.Within c :=
  ⟨first.text.trans second.text, List.Subset.trans first.imports second.imports⟩

theorem left (h : a.Within b) (c : Snippet) : a.Within (b ++ c) := by
  refine ⟨h.text.trans ?_, List.Subset.trans h.imports (List.subset_append_left _ _)⟩
  change b.text.toList <:+: (b.text ++ c.text).toList
  rw [String.toList_append]
  exact (List.prefix_append _ _).isInfix

theorem right (h : a.Within c) (b : Snippet) : a.Within (b ++ c) := by
  refine ⟨h.text.trans ?_, List.Subset.trans h.imports (List.subset_append_right _ _)⟩
  change c.text.toList <:+: (b.text ++ c.text).toList
  rw [String.toList_append]
  exact (List.suffix_append _ _).isInfix

end Within

@[simp] theorem imports_append (a b : Snippet) : (a ++ b).imports = a.imports ++ b.imports := rfl

@[simp] theorem imports_ofText (text : String) : (ofText text).imports = [] := rfl

end Snippet

namespace Node

variable {v : View}

/-- The code that is written for a node. A whole written type has none of its own. -/
inductive GoCode (v : View) : Node → Snippet → Prop
  | expression {e code} : e.toGo v = .ok code → GoCode v (.expression e) code
  | param {p text} : p.toGo v = .ok text → GoCode v (.param p) (.ofText text)
  | declarator {d code} : d.toGo v = .ok code → GoCode v (.declarator d) code
  | shorthand {name} : v.plainName name.text name.span = .ok name.text →
      GoCode v (.shorthand name)
        (s!"{Text.capitalized name.text}: " ++ ⟨name.text, v.importsOfName name.text name.span⟩)

theorem GoCode.unique {n : Node} {a b : Snippet} (first : n.GoCode v a) (second : n.GoCode v b) :
    b = a := by
  cases first with
  | shorthand => cases second; rfl
  | expression given | param given | declarator given =>
    cases second with | _ same => rw [Except.ok.inj (same.symm.trans given)]

/-- The modules that a node needs by itself, whatever is inside of it: the one with `Sprintf` where
values are put into a text, and that of a global value where a name means it. -/
def needs (v : View) : Node → List String
  | expression (.template ..) => [Target.fmtModule]
  | expression (.binary _ left _ _ right) =>
    if v.isString left.span && !v.isString right.span then [Target.fmtModule] else []
  | expression (.ident span name) => v.importsOfName name span
  | shorthand name => v.importsOfName name.text name.span
  | _ => []

/-- Whether a node is a written type. -/
def isType : Node → Bool
  | writtenType _ => true
  | _ => false

/-- A piece of code is made of that of some nodes, and needs some modules besides. -/
structure Make (v : View) (nodes : List Node) (code : Snippet) (own : List String) : Prop where
  stands : ∀ n ∈ nodes, n.isType = false → ∃ inner, n.GoCode v inner ∧ inner.Within code
  imports : ∀ path, path ∈ code.imports ↔
    path ∈ own ∨ ∃ n ∈ nodes, ∃ inner, n.GoCode v inner ∧ path ∈ inner.imports

namespace Make

variable {nodes others : List Node} {a b : Snippet} {own more : List String}

theorem needing (text : String) (own : List String) : Make v [] ⟨text, own⟩ own :=
  ⟨List.forall_mem_nil _, fun path => by simp⟩

theorem ofText (text : String) : Make v [] text [] := needing text []

theorem one {n : Node} {code : Snippet} (h : n.GoCode v code) : Make v [n] code [] where
  stands m mem _ := by
    obtain rfl := List.mem_singleton.1 mem
    exact ⟨code, h, .refl code⟩
  imports path := by
    constructor
    · intro mem
      exact .inr ⟨n, List.mem_singleton_self n, code, h, mem⟩
    · rintro (none | ⟨m, mem, inner, given, inside⟩)
      · cases none
      · obtain rfl := List.mem_singleton.1 mem
        exact h.unique given ▸ inside

theorem append (first : Make v nodes a own) (second : Make v others b more) :
    Make v (nodes ++ others) (a ++ b) (own ++ more) where
  stands n mem value := by
    rcases List.mem_append.1 mem with mem | mem
    · obtain ⟨inner, code, within⟩ := first.stands n mem value
      exact ⟨inner, code, within.left b⟩
    · obtain ⟨inner, code, within⟩ := second.stands n mem value
      exact ⟨inner, code, within.right a⟩
  imports path := by
    rw [Snippet.imports_append, List.mem_append, first.imports, second.imports, List.mem_append]
    simp only [List.mem_append, or_and_right, exists_or]
    exact or_or_or_comm

theorem types {nodes : List Node} (types : ∀ n ∈ nodes, n.isType = true) (text : String) :
    Make v nodes text [] where
  stands n mem value := by
    rw [types n mem] at value
    cases value
  imports path := by
    simp only [Snippet.imports_ofText, List.not_mem_nil, false_or, false_iff]
    rintro ⟨n, mem, inner, code, _⟩
    have is := types n mem
    cases code <;> cases is

theorem commaSeparated_cons (first : Make v nodes a []) {rest : List Node} {items : List Snippet}
    (each : List.Forall₂ (fun n item => Make v [n] item []) rest items) :
    Make v (nodes ++ rest) (.commaSeparated (a :: items)) [] := by
  induction each generalizing nodes a with
  | nil => simpa [Snippet.commaSeparated] using first
  | @cons n item rest items next _ ih =>
    have whole := (first.append (ofText ", ")).append (ih next)
    rw [Snippet.commaSeparated]
    · simpa using whole
    · simp

theorem commaSeparated {items : List Snippet}
    (each : List.Forall₂ (fun n item => Make v [n] item []) nodes items) :
    Make v nodes (.commaSeparated items) [] := by
  cases each with
  | nil => exact ofText ""
  | cons first rest => exact first.commaSeparated_cons rest

theorem sprintf (format : String) {items : List Snippet}
    (each : List.Forall₂ (fun n item => Make v [n] item []) nodes items) :
    Make v nodes (.sprintf format items) [Target.fmtModule] := by
  have args := (ofText s!"\"{format}\"").commaSeparated_cons each
  have whole := ((needing s!"{Target.sprintf}(" [Target.fmtModule]).append args).append (ofText ")")
  rw [Snippet.sprintf]
  simpa using whole

/-- What is returned is made so, up to how the lists are put together. -/
theorem returned {code : Snippet} (h : Make v others code more) (same : nodes = others)
    (needed : own = more) :
    Returns (fun code => Make v nodes code own) (pure code : Except Failure Snippet) := by
  subst same needed
  exact h

end Make

theorem makes_one (e : Expr) : Returns (fun code => Make v [.expression e] code []) (e.toGo v) :=
  (Returns.self _).mono fun _ given => .one (.expression given)

theorem makes_all (elements : List Expr) :
    Returns (List.Forall₂ (fun n item => Make v [n] item []) (elements.map .expression))
      (Expr.allToGo v elements) := by
  induction elements with
  | nil => exact .nil
  | cons e rest ih =>
    rw [Expr.allToGo]
    refine (Returns.self (e.toGo v)).bind fun first given => ?_
    exact ih.bind fun others codes => .cons (.one (.expression given)) codes

theorem makes_properties (properties : List Property) :
    Returns (List.Forall₂ (fun n item => Make v [n] item []) (properties.map Property.node))
      (Property.allToGo v properties) := by
  induction properties with
  | nil => exact .nil
  | cons p rest ih =>
    cases p with
    | assign _ name value =>
      rw [Property.allToGo]
      refine (Returns.self _).bind fun field _ => ?_
      refine (Returns.self (value.toGo v)).bind fun code given => ?_
      refine ih.bind fun others codes => .cons ?_ codes
      exact (Make.ofText s!"{Text.capitalized field}: ").append (.one (.expression given))
    | shorthand _ name =>
      rw [Property.allToGo]
      refine (Returns.self (v.plainName name.text name.span)).bind fun field plain => ?_
      obtain rfl : field = name.text := (View.plainName_self name.text).of_ok plain
      exact ih.bind fun others codes => .cons (.one (.shorthand plain)) codes
    | spread =>
      rw [Property.allToGo]
      exact View.returns_refuse

theorem makes_holes (holes : List TemplateHole) :
    Returns (List.Forall₂ (fun n item => Make v [n] item [])
      (holes.map fun hole => .expression hole.value)) (TemplateHole.allToGo v holes) := by
  induction holes with
  | nil => exact .nil
  | cons hole rest ih =>
    obtain ⟨value, after⟩ := hole
    rw [TemplateHole.allToGo]
    refine (Returns.self (value.toGo v)).bind fun first given => ?_
    exact ih.bind fun others codes => .cons (.one (.expression given)) codes

/-- The code of an expression is made of that of the nodes right inside of it. -/
theorem makes_expression (e : Expr) :
    Returns (fun code => Make v e.inner code ((expression e).needs v)) (e.toGo v) := by
  cases e with
  | array span elements =>
    rw [Expr.toGo]
    refine (Returns.self _).bind fun type _ => (makes_all elements).bind fun items each => ?_
    have list := ((Make.ofText type).append (.ofText "\x7b")).append (.commaSeparated each)
    exact (list.append (.ofText "\x7d")).returned (by simp [Expr.inner]) (by simp [needs])
  | binary span left op opSpan right =>
    rw [Expr.toGo]
    split
    · refine (makes_one left).bind fun first given => (makes_one right).bind fun second given' => ?_
      have sign := given.append (Make.ofText s!" {op.spelling} ")
      by_cases wrapped : (v.isString left.span && !v.isString right.span) = true
      · have second : Make v [.expression right] _ _ := .sprintf Target.verb (.cons given' .nil)
        rw [if_pos wrapped]
        exact (sign.append second).returned (by simp [Expr.inner]) (by simp [needs, wrapped])
      · rw [if_neg wrapped]
        exact (sign.append given').returned (by simp [Expr.inner]) (by simp [needs, wrapped])
    · exact View.returns_refuse_bind
  | call span callee args =>
    rw [Expr.toGo]
    refine (makes_one callee).bind fun function given => (makes_all args).bind fun items each => ?_
    have list := (given.append (.ofText "(")).append (.commaSeparated each)
    exact (list.append (.ofText ")")).returned (by simp [Expr.inner]) (by simp [needs])
  | index span base place =>
    rw [Expr.toGo]
    refine (makes_one base).bind fun first given => (makes_one place).bind fun second given' => ?_
    have whole := ((given.append (.ofText "[")).append given').append (.ofText "]")
    exact whole.returned (by simp [Expr.inner]) (by simp [needs])
  | ident span name =>
    rw [Expr.toGo]
    refine (View.plainName_self name).bind ?_
    rintro _ rfl
    exact .needing _ _
  | number span text => exact .ofText text
  | object span properties =>
    rw [Expr.toGo]
    refine (Returns.self _).bind fun type _ => (makes_properties properties).bind fun items each => ?_
    have list := ((Make.ofText type).append (.ofText "\x7b")).append (.commaSeparated each)
    exact (list.append (.ofText "\x7d")).returned (by simp [Expr.inner]) (by simp [needs])
  | paren span inner =>
    rw [Expr.toGo]
    refine (makes_one inner).bind fun code given => ?_
    have whole := ((Make.ofText "(").append given).append (.ofText ")")
    exact whole.returned (by simp [Expr.inner]) (by simp [needs])
  | leading span op opSpan operand =>
    rw [Expr.toGo]
    split
    · exact View.returns_refuse_bind
    · exact (makes_one operand).bind fun code given => (Make.ofText op.spelling).append given
  | trailing span operand op opSpan =>
    rw [Expr.toGo]
    split
    · refine (makes_one operand).bind fun code given => ?_
      exact (given.append (.ofText op.spelling)).returned (by simp [Expr.inner]) (by simp [needs])
    · exact View.returns_refuse_bind
  | member span base property =>
    rw [Expr.toGo]
    split
    · refine (makes_one base).bind fun code given => ?_
      have whole := ((Make.ofText s!"{Target.len}(").append given).append (.ofText ")")
      exact whole.returned (by simp [Expr.inner]) (by simp [needs])
    · refine (Returns.self _).bind fun name _ => (makes_one base).bind fun code given => ?_
      have whole := (given.append (.ofText ".")).append (.ofText (Text.capitalized name))
      exact whole.returned (by simp [Expr.inner]) (by simp [needs])
  | string span body => exact .ofText _
  | template span head holes =>
    rw [Expr.toGo]
    exact (makes_holes holes).bind fun items each => .sprintf _ each
  | boolean span value => cases value <;> exact Make.ofText _
  | cast | conditional | null =>
    rw [Expr.toGo]
    exact View.returns_refuse

theorem isType_ofType? (type? : Option TypeExpr) : ∀ n ∈ ofType? type?, n.isType = true := by
  cases type? with
  | none => exact List.forall_mem_nil _
  | some type => exact List.forall_mem_singleton.2 rfl

theorem makes_declarator (d : Declarator) :
    Returns (fun code => Make v (declarator d).inner code []) (d.toGo v) := by
  have types (text : String) : Make v (ofType? d.type?) text [] := .types (isType_ofType? d.type?) text
  rw [Declarator.toGo]
  refine (Returns.self _).bind fun name _ => ?_
  dsimp only
  split
  next value is =>
    have inner : (declarator d).inner = ofType? d.type? ++ [.expression value] := by
      rw [Node.inner, is]
      rfl
    split
    · refine (Returns.self _).bind fun type _ => (makes_one value).bind fun code given => ?_
      have start := types s!"{name} {Target.shortDeclaration} {type}("
      exact ((start.append given).append (.ofText ")")).returned (by simp [inner]) rfl
    · refine (makes_one value).bind fun code given => ?_
      exact ((types _).append given).returned inner rfl
  next without =>
    have inner : (declarator d).inner = ofType? d.type? := by
      rw [Node.inner]
      cases is : d.initializer? with
      | none => exact List.append_nil _
      | some value => cases without.symm.trans is
    refine (Returns.self _).bind fun type _ => ?_
    exact (types _).returned inner rfl

/-- One step inwards: the code of a node is made of that of the nodes right inside of it. -/
theorem GoCode.make {n : Node} {code : Snippet} (h : n.GoCode v code) :
    Make v n.inner code (n.needs v) := by
  cases h with
  | expression given => exact (makes_expression _).of_ok given
  | declarator given => exact (makes_declarator _).of_ok given
  | param given => exact .types (isType_ofType? _) _
  | shorthand plain => exact (Make.ofText _).append (.needing _ _)

theorem isType_eq_false {n : Node} {code : Snippet} (h : n.GoCode v code) : n.isType = false := by
  cases h <;> rfl

theorem all_of_isType {n : Node} (type : n.isType = true) : n.all = [n] := by
  cases n with
  | writtenType => rw [all_eq]; rfl
  | _ => cases type

theorem needs_of_isType {n : Node} (type : n.isType = true) : n.needs v = [] := by
  cases n with
  | writtenType => rfl
  | _ => cases type

/-- A node that has code of its own is inside of one that has. -/
theorem exists_outer {nodes : List Node} {m : Node} (mem : m ∈ nodes.flatMap all)
    (value : m.isType = false) : ∃ n ∈ nodes, n.isType = false ∧ m ∈ n.all := by
  obtain ⟨n, among, inside⟩ := List.mem_flatMap.1 mem
  refine ⟨n, among, ?_, inside⟩
  cases type : n.isType with
  | false => rfl
  | true =>
    rw [all_of_isType type, List.mem_singleton] at inside
    rw [inside, type] at value
    cases value

/-- What the code of some nodes needs is what the nodes inside of them need by themselves. -/
theorem exists_imports_iff {nodes : List Node} {path : String}
    (coded : ∀ n ∈ nodes, n.isType = false → ∃ code, n.GoCode v code)
    (each : ∀ n ∈ nodes, ∀ code, n.GoCode v code →
      (path ∈ code.imports ↔ ∃ m ∈ n.all, path ∈ m.needs v)) :
    (∃ n ∈ nodes, ∃ code, n.GoCode v code ∧ path ∈ code.imports) ↔
      ∃ m ∈ nodes.flatMap all, path ∈ m.needs v := by
  constructor
  · rintro ⟨n, among, code, given, mem⟩
    obtain ⟨m, inside, needed⟩ := (each n among code given).1 mem
    exact ⟨m, List.mem_flatMap.2 ⟨n, among, inside⟩, needed⟩
  · rintro ⟨m, mem, needed⟩
    have value : m.isType = false := by
      cases type : m.isType with
      | false => rfl
      | true =>
        rw [needs_of_isType type] at needed
        cases needed
    obtain ⟨n, among, outer, inside⟩ := exists_outer mem value
    obtain ⟨code, given⟩ := coded n among outer
    exact ⟨n, among, code, given, (each n among code given).2 ⟨m, inside, needed⟩⟩

/-- All the way inwards: the code of each node inside stands in that of the node around it, which
needs what these nodes need by themselves. -/
theorem GoCode.all {n : Node} {code : Snippet} (h : n.GoCode v code) :
    (∀ m ∈ n.all, m.isType = false → ∃ inner, m.GoCode v inner ∧ inner.Within code) ∧
      ∀ path, path ∈ code.imports ↔ ∃ m ∈ n.all, path ∈ m.needs v := by
  have smaller : ∀ child ∈ n.inner, sizeOf child < sizeOf n := fun _ => sizeOf_lt_of_mem_inner
  rw [all_eq]
  constructor
  · intro m mem value
    rcases List.mem_cons.1 mem with rfl | mem
    · exact ⟨code, h, .refl code⟩
    · obtain ⟨child, isChild, outer, inside⟩ := exists_outer mem value
      have := smaller child isChild
      obtain ⟨inner, given, within⟩ := h.make.stands child isChild outer
      obtain ⟨deep, given', within'⟩ := given.all.1 m inside value
      exact ⟨deep, given', within'.trans within⟩
  · intro path
    rw [h.make.imports, exists_imports_iff]
    · simp only [List.mem_cons, exists_eq_or_imp]
    · intro child isChild outer
      obtain ⟨inner, given, _⟩ := h.make.stands child isChild outer
      exact ⟨inner, given⟩
    · intro child isChild inner given
      have := smaller child isChild
      exact given.all.2 path
termination_by sizeOf n

end Node

end ScriptToGo
