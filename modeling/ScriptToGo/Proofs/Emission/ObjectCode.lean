import ScriptToGo.Proofs.Check.Noted
import ScriptToGo.Proofs.Emission.FunctionCode
import ScriptToGo.Proofs.Emission.TemplateFormat

/-! Which fields are written for an object: those that its type declares, and those that get values. -/
namespace ScriptToGo

theorem intercalate_eq_join (sep first : String) (others : List String) :
    sep.intercalate (first :: others) = first ++ String.join (others.map (sep ++ ·)) := by
  induction others generalizing first with
  | nil =>
    rw [String.intercalate_singleton]
    exact String.append_empty.symm
  | cons second rest ih =>
    rw [String.intercalate_cons_cons, ih, List.map_cons, String.join_cons]
    simp only [String.append_assoc]

/-- The Go type of an object: the names and types of its fields. -/
def structText : List (String × String) → String
  | [] => "struct\x7b\x7d"
  | fields => "struct\x7b " ++ "; ".intercalate (fields.map fun f => s!"{f.1} {f.2}") ++ " \x7d"

/-- The Go code of an object: its type, and the names and values of fields. -/
def objectText (declared given : List (String × String)) : String :=
  structText declared ++ "\x7b" ++ ", ".intercalate (given.map fun f => s!"{f.1}: {f.2}") ++ "\x7d"

/-- A field is declared under its name, which starts with an uppercase letter, with its type. -/
def Field.DeclaredAs (f : Field) (declared : String × String) : Prop :=
  declared.1 = Text.capitalized f.name ∧ f.type.goName = .ok declared.2

theorem Ty.goFields_declared (fields : List Field) :
    Returns (fun text => ∃ declared, List.Forall₂ Field.DeclaredAs fields declared ∧
      text = String.join (declared.map fun f => "; " ++ s!"{f.1} {f.2}")) (goFields fields) := by
  induction fields with
  | nil => exact ⟨[], .nil, rfl⟩
  | cons f rest ih =>
    obtain ⟨name, type⟩ := f
    rw [goFields]
    refine (Returns.self type.goName).bind fun first named => ih.bind ?_
    rintro _ ⟨declared, each, rfl⟩
    refine ⟨(Text.capitalized name, first) :: declared, .cons ⟨rfl, named⟩ each, ?_⟩
    rw [List.map_cons, String.join_cons]
    simp only [String.append_assoc]
    rfl

theorem Ty.goName_object (fields : List Field) :
    Returns (fun text => ∃ declared, List.Forall₂ Field.DeclaredAs fields declared ∧
      text = structText declared) (object fields).goName := by
  cases fields with
  | nil => exact ⟨[], .nil, rfl⟩
  | cons f rest =>
    obtain ⟨name, type⟩ := f
    rw [goName]
    refine (Returns.self type.goName).bind fun first named => (goFields_declared rest).bind ?_
    rintro _ ⟨declared, each, rfl⟩
    refine ⟨(Text.capitalized name, first) :: declared, .cons ⟨rfl, named⟩ each, ?_⟩
    rw [structText, List.map_cons, intercalate_eq_join, List.map_map]
    · simp only [String.append_assoc]
      rfl
    · simp

/-- What is written for a property: the name of its field, which starts with an uppercase letter, and
its value. -/
inductive Property.GivenAs (v : View) : Property → String × String → Prop
  | assign {span name value code} : value.toGo v = .ok code →
      Property.GivenAs v (.assign span name value) (Text.capitalized name.text, code.text)
  | shorthand {span name} :
      Property.GivenAs v (.shorthand span name) (Text.capitalized name.text, name.text)

section

variable {v : View}

theorem Property.allToGo_given (properties : List Property) :
    Returns (fun items => ∃ given, List.Forall₂ (GivenAs v) properties given ∧
      items.map Snippet.text = given.map fun f => s!"{f.1}: {f.2}") (allToGo v properties) := by
  induction properties with
  | nil => exact ⟨[], .nil, rfl⟩
  | cons p rest ih =>
    cases p with
    | assign span name value =>
      rw [allToGo]
      refine (View.plainName_self name.text).bind ?_
      rintro _ rfl
      refine (Returns.self (value.toGo v)).bind fun code written => ih.bind ?_
      rintro items ⟨given, each, same⟩
      refine ⟨_, .cons (.assign written) each, ?_⟩
      rw [List.map_cons, List.map_cons, same]
      rfl
    | shorthand span name =>
      rw [allToGo]
      refine (View.plainName_self name.text).bind ?_
      rintro _ rfl
      refine ih.bind ?_
      rintro items ⟨given, each, same⟩
      refine ⟨_, .cons .shorthand each, ?_⟩
      rw [List.map_cons, List.map_cons, same]
      rfl
    | spread =>
      rw [allToGo]
      exact View.returns_refuse

theorem Snippet.text_commaSeparated_eq (items : List Snippet) :
    (commaSeparated items).text = ", ".intercalate (items.map text) := by
  cases items with
  | nil => rfl
  | cons first others =>
    rw [text_commaSeparated, List.map_cons, intercalate_eq_join, List.map_map]
    rfl

theorem Property.GivenAs.name {p : Property} {given : String × String} (h : p.GivenAs v given) :
    ∃ name, p.name? = some name ∧ given.1 = Text.capitalized name.text := by
  cases h with
  | assign => exact ⟨_, rfl, rfl⟩
  | shorthand => exact ⟨_, rfl, rfl⟩

theorem map_fst_of_given {properties : List Property} {given : List (String × String)}
    (h : List.Forall₂ (Property.GivenAs v) properties given) :
    (∀ p ∈ properties, p.name?.isSome = true) ∧
      given.map Prod.fst = (Property.fieldNames properties).map Text.capitalized := by
  induction h with
  | nil => exact ⟨List.forall_mem_nil _, rfl⟩
  | cons first _ ih =>
    obtain ⟨name, named, same⟩ := first.name
    refine ⟨List.forall_mem_cons.2 ⟨Option.isSome_of_eq_some named, ih.1⟩, ?_⟩
    rw [List.map_cons, ih.2, same]
    simp only [Property.fieldNames, List.filterMap_cons, named, Option.map_some, List.map_cons]

theorem map_fst_of_declared {fields : List Field} {declared : List (String × String)}
    (h : List.Forall₂ Field.DeclaredAs fields declared) :
    declared.map Prod.fst = (fields.map Field.name).map Text.capitalized := by
  induction h with
  | nil => rfl
  | cons first _ ih =>
    rw [List.map_cons, ih, first.1]
    rfl

/-- An object is written as its type and its fields. -/
theorem Expr.toGo_object (span : Span) (properties : List Property) :
    Returns (fun code => ∃ type given, v.types.goNameAt v.module.id span = .ok type ∧
      List.Forall₂ (Property.GivenAs v) properties given ∧
      code.text = type ++ "\x7b" ++ ", ".intercalate (given.map fun f => s!"{f.1}: {f.2}") ++ "\x7d")
      ((object span properties).toGo v) := by
  rw [toGo]
  refine (View.typeName_recorded _).bind fun type recorded => ?_
  refine (Property.allToGo_given properties).bind ?_
  rintro items ⟨given, each, texts⟩
  refine ⟨type, given, recorded, each, ?_⟩
  rw [← texts, ← Snippet.text_commaSeparated_eq]
  rfl

end

/-- The fields that are declared get values, in order and once each, just when the names of the
properties stay different when they start with uppercase letters. -/
theorem fields_agree_iff {names : List String} {declared given : List (String × String)}
    (declares : declared.map Prod.fst = (firstUses names).map Text.capitalized)
    (gives : given.map Prod.fst = names.map Text.capitalized) :
    (given.map Prod.fst = declared.map Prod.fst ∧ (given.map Prod.fst).Nodup) ↔
      (names.map Text.capitalized).Nodup := by
  rw [gives]
  refine ⟨And.right, fun distinct => ⟨?_, distinct⟩⟩
  rw [declares, firstUses_eq_self (List.Nodup.of_map _ distinct)]

/-- The names of the properties of an object. -/
def Node.fieldNames? : Node → Option (List String)
  | .expression (.object _ properties) => some (Property.fieldNames properties)
  | _ => none

theorem Node.exists_of_fieldNames? {n : Node} {names : List String} (h : n.fieldNames? = some names) :
    ∃ span properties, n = .expression (.object span properties) ∧
      Property.fieldNames properties = names := by
  unfold fieldNames? at h
  split at h
  next span properties => exact ⟨span, properties, rfl, Option.some.inj h⟩
  next => cases h

namespace ModuleGraph

variable {s : Sources} {entry : Path} {g : ModuleGraph} {types : TypeTable}

/-- In an accepted program, an object without spreads has the fields that its properties name. -/
theorem typeAt_object (loaded : load s entry = .ok g) (accepted : g.check = .ok types) {m : Module}
    (hm : m ∈ g.modules) {span : Span} {properties : List Property}
    (mem : Node.expression (.object span properties) ∈ m.program.nodes)
    (plain : ∀ p ∈ properties, p.name?.isSome = true) :
    ∃ fields, types.typeAt m.id span = some (.object fields) ∧
      fields.map Field.name = firstUses (Property.fieldNames properties) := by
  obtain ⟨sight, seen⟩ := exists_sight (g := g) mem
  obtain ⟨type, typed, suits⟩ := outlooks_hold loaded accepted hm seen
  obtain ⟨fields, rfl, names⟩ := suits.fields span properties rfl plain
  exact ⟨fields, typed, names⟩

/-- In the code of an accepted program, each object is written as a type that declares each field
that the properties name once, where it is named first, and behind it a field with a value for each
property, in order. These are the same fields, without repetition, just when the names of the
properties stay different when they start with uppercase letters. -/
theorem toGo_objects (loaded : load s entry = .ok g) (accepted : g.check = .ok types)
    {options : Options} {code : String} (emitted : g.toGo types options = .ok code) :
    ∃ codes, codesOf types g.written = .ok codes ∧
      code = CodeLine.textOf options.indent (options.document codes) ∧
      List.Forall₂ (fun w c => ∀ span properties,
        Node.expression (.object span properties) ∈ w.2.outerNodes.flatMap Node.all →
        ∃ fields declared given, types.typeAt w.1.id span = some (.object fields) ∧
          List.Forall₂ Field.DeclaredAs fields declared ∧
          List.Forall₂ (Property.GivenAs ⟨w.1, types⟩) properties given ∧
          declared.map Prod.fst
            = (firstUses (Property.fieldNames properties)).map Text.capitalized ∧
          given.map Prod.fst = (Property.fieldNames properties).map Text.capitalized ∧
          ((given.map Prod.fst = declared.map Prod.fst ∧ (given.map Prod.fst).Nodup) ↔
            ((Property.fieldNames properties).map Text.capitalized).Nodup) ∧
          ∃ l ∈ c.lines 0, (objectText declared given).toList <:+: l.text.toList)
        g.written codes := by
  obtain ⟨codes, written, rfl⟩ := exists_codes_of_toGo emitted
  refine ⟨codes, written, options.layout_eq codes, (Returns.mapM_forall₂ fun w among => ?_).of_ok written⟩
  refine w.2.fillsTopLevel.mono fun c fill span properties mem => ?_
  obtain ⟨inner, coded, stands⟩ := fill.deep.1 _ mem rfl
  cases coded with | expression given =>
  obtain ⟨type, given, named, each, text⟩ := (Expr.toGo_object span properties).of_ok given
  obtain ⟨plain, gives⟩ := map_fst_of_given each
  have statement := (isWritten among).statement
  obtain ⟨fields, typed, names⟩ := typeAt_object loaded accepted (isWritten among).mem
    (Statement.nodes_subset statement mem) plain
  rw [TypeTable.goNameAt, typed] at named
  obtain ⟨declared, declares, rfl⟩ := (Ty.goName_object fields).of_ok named
  have same := map_fst_of_declared declares
  rw [names] at same
  obtain ⟨l, line, here⟩ := stands 0
  rw [Code.linesAll_singleton] at line
  rw [text] at here
  exact ⟨fields, declared, given, typed, declares, each, same, gives, fields_agree_iff same gives,
    l, line, here⟩

/-- An object in which a property is named again. -/
def againSource : String :=
  "function f(): number \x7b let x = \x7ba: 1, a: 2\x7d; return 1; \x7d"

def againGraph : ModuleGraph := .ofFile ⟨"main.ts"⟩ againSource (programOf againSource)

def againTypes : TypeTable := againGraph.check.toOption.getD .empty

def againCode : String :=
  "package main\n\nimport (\n\t\"fmt\"\n\t\"ts2go/console\"\n)\n\nfunc f() int \x7b\n" ++
    "\tx := struct\x7b A int \x7d\x7bA: 1, A: 2\x7d\n\treturn 1\n\x7d\n"

theorem again_loads :
    load (.ofFiles [(⟨"main.ts"⟩, againSource)] []) ⟨"main.ts"⟩ = .ok againGraph :=
  load_ofText rfl (by decide +kernel)

theorem again_checks : againGraph.check = .ok againTypes :=
  eq_ok_of_isSome TypeTable.empty (by decide +kernel)

theorem again_emits : againGraph.toGo againTypes .standard = .ok againCode :=
  toGo_eq_ok (by decide +kernel)

/-- A field that is declared once gets two values. -/
theorem again_objects :
    load (.ofFiles [(⟨"main.ts"⟩, againSource)] []) ⟨"main.ts"⟩ = .ok againGraph ∧
      againGraph.check = .ok againTypes ∧
      againGraph.toGo againTypes .standard = .ok againCode ∧
      ∃ c declared given, codesOf againTypes againGraph.written = .ok [c] ∧
        declared.map Prod.fst = ["A"] ∧ given.map Prod.fst = ["A", "A"] ∧
        ∃ l ∈ c.lines 0, (objectText declared given).toList <:+: l.text.toList := by
  obtain ⟨codes, coded, -, each⟩ := toGo_objects again_loads again_checks again_emits
  have alone : againGraph.written.length = 1 := by
    rw [written, walk_eq]
    decide +kernel
  have found : ∃ w ∈ againGraph.written, ∃ n ∈ w.2.outerNodes.flatMap Node.all,
      n.fieldNames? = some ["a", "a"] := by
    rw [written, walk_eq]
    decide +kernel
  obtain ⟨w, only⟩ := List.length_eq_one_iff.1 alone
  rw [only] at each found
  obtain ⟨c, _, objects, rest, rfl⟩ := List.forall₂_cons_left_iff.1 each
  obtain rfl := List.forall₂_nil_left_iff.1 rest
  obtain ⟨_, here, n, inside, named⟩ := found
  obtain rfl := List.mem_singleton.1 here
  obtain ⟨span, properties, rfl, names⟩ := Node.exists_of_fieldNames? named
  obtain ⟨_, declared, given, -, -, -, declares, gives, -, stands⟩ := objects span properties inside
  rw [names] at declares gives
  refine ⟨again_loads, again_checks, again_emits, c, declared, given, coded, ?_, ?_, stands⟩
  · exact declares.trans (by decide +kernel)
  · exact gives.trans (by decide +kernel)

end ModuleGraph

end ScriptToGo
