import ScriptToGo.Proofs.Types.Parts

/-! Aliases that are no numeric types do not show in the Go names of types, as long as no reference
has them in its arguments. -/
namespace ScriptToGo

namespace Ty

/-- An alias that a program has declared, or that has the name of one. -/
def isUserAlias : Ty → Bool
  | «alias» name _ => !Builtin.isNumericAlias name
  | _ => false

mutual

/-- A type with the targets of its aliases in their place, those of numeric types excepted. The
arguments of references are left as they are unless this is to be done `inside` of them too. -/
def expanded (inside : Bool) : Ty → Ty
  | array element => array (element.expanded inside)
  | «alias» name target =>
    if Builtin.isNumericAlias name then «alias» name (target.expanded inside)
    else target.expanded inside
  | reference name args => reference name (if inside then expandedAll inside args else args)
  | object fields => object (expandedFields inside fields)
  | function params returns => function (expandedFields inside params) (returns.expanded inside)
  | type => type

def expandedAll (inside : Bool) : List Ty → List Ty
  | [] => []
  | type :: rest => type.expanded inside :: expandedAll inside rest

def expandedFields (inside : Bool) : List Field → List Field
  | [] => []
  | .mk name type :: rest => .mk name (type.expanded inside) :: expandedFields inside rest

end

/-- No alias shows among parts but the numeric types. -/
def Unaliased (parts : List Part) : Prop :=
  ∀ part ∈ parts, part.standing = .spelled → part.type.isUserAlias = false

theorem unaliased_cons {part : Part} {parts : List Part} :
    Unaliased (part :: parts) ↔
      (part.standing = .spelled → part.type.isUserAlias = false) ∧ Unaliased parts :=
  List.forall_mem_cons

theorem unaliased_append {parts more : List Part} :
    Unaliased (parts ++ more) ↔ Unaliased parts ∧ Unaliased more :=
  List.forall_mem_append

variable (inside : Bool)

theorem resolved_expanded (type : Ty) :
    (type.expanded inside).resolved = type.resolved.expanded inside := by
  match type with
  | .«alias» name target =>
    rw [expanded]
    split
    · exact resolved_expanded target
    · exact resolved_expanded target
  | .number | .numberLit _ | .string | .stringLit _ | .boolean | .booleanLit _ | .void | .null
  | .any | .unknown | .array _ | .reference .. | .object _ | .function .. => rfl

theorem resolved_ne_alias (type : Ty) (name : String) (target : Ty) :
    type.resolved ≠ «alias» name target := by
  match type with
  | .«alias» _ inner =>
    rw [resolved]
    exact resolved_ne_alias inner name target
  | .number | .numberLit _ | .string | .stringLit _ | .boolean | .booleanLit _ | .void | .null
  | .any | .unknown | .array _ | .reference .. | .object _ | .function .. => exact nofun

theorem isArrayLike_expanded (type : Ty) :
    (type.expanded inside).isArrayLike = type.isArrayLike := by
  have shown := resolved_ne_alias type
  rw [isArrayLike, element?, resolved_expanded, isArrayLike, element?]
  cases target : type.resolved with
  | «alias» name other => exact (shown name other target).elim
  | _ => rfl

theorem isFunction_expanded {type : Ty} (h : type.isUserAlias = false) :
    (type.expanded inside).isFunction = type.isFunction := by
  cases type with
  | «alias» name target =>
    rw [isUserAlias, Bool.not_eq_false'] at h
    rw [expanded, if_pos h]
    rfl
  | _ => rfl

mutual

/-- Where no alias shows, the spelling of a type stays as it is. -/
theorem text_expanded {type : Ty} (h : Unaliased (parts .spelled type)) :
    text (expanded inside type) = text type := by
  match type with
  | .array element =>
    rw [parts, unaliased_cons] at h
    have itself := h.2 _ (mem_parts .spelled element) rfl
    rw [expanded, text, isFunction_expanded inside itself, text_expanded h.2, ← text]
  | .«alias» name target =>
    rw [parts, unaliased_cons, isUserAlias, Bool.not_eq_false'] at h
    rw [expanded, if_pos (h.1 rfl), text, text]
  | .reference name args =>
    rw [parts, unaliased_cons] at h
    rw [expanded]
    split
    · match args with
      | [] => rfl
      | first :: rest =>
        obtain ⟨here, others⟩ := unaliased_append.1 h.2
        rw [expandedAll, text, text_expanded here, argsText_expanded others, ← text]
    · rfl
  | .object [] => rfl
  | .object (.mk name type :: rest) =>
    rw [parts, unaliased_cons] at h
    have fields := fieldsText_expanded h.2
    rw [expanded, expandedFields, text, ← expandedFields, fields, ← text]
    all_goals exact nofun
  | .function [] returns =>
    rw [parts, unaliased_cons] at h
    rw [expanded, expandedFields, text, text_expanded h.2, ← text]
  | .function (.mk name type :: rest) returns =>
    rw [parts, unaliased_cons, Field.parts, unaliased_append, unaliased_append] at h
    obtain ⟨-, ⟨first, others⟩, result⟩ := h
    rw [expanded, expandedFields, text, text_expanded first,
      paramsText_expanded others, text_expanded result, ← text]
  | .number | .numberLit _ | .string | .stringLit _ | .boolean | .booleanLit _ | .void | .null
  | .any | .unknown => rfl

theorem argsText_expanded {types : List Ty} (h : Unaliased (partsAll .spelled types)) :
    argsText (expandedAll inside types) = argsText types := by
  match types with
  | [] => rfl
  | type :: rest =>
    rw [partsAll, unaliased_append] at h
    rw [expandedAll, argsText, argsText, text_expanded h.1, argsText_expanded h.2]

theorem fieldsText_expanded {fields : List Field} (h : Unaliased (Field.parts .spelled fields)) :
    fieldsText (expandedFields inside fields) = fieldsText fields := by
  match fields with
  | [] => rfl
  | .mk name type :: rest =>
    rw [Field.parts, unaliased_append] at h
    rw [expandedFields, fieldsText, fieldsText, text_expanded h.1, fieldsText_expanded h.2]

theorem paramsText_expanded {params : List Field} (h : Unaliased (Field.parts .spelled params)) :
    paramsText (expandedFields inside params) = paramsText params := by
  match params with
  | [] => rfl
  | .mk name type :: rest =>
    rw [Field.parts, unaliased_append] at h
    rw [expandedFields, paramsText, paramsText, text_expanded h.1, paramsText_expanded h.2]

end

/-- The target of an alias enters under its own name unless the alias is a numeric type. -/
theorem ofTarget_named {name : String} {target : Ty}
    (h : (target.isArrayLike || !Builtin.isNumericAlias name) = true) :
    Standing.ofTarget name target .named = .named := if_pos h

variable {inside}

mutual

theorem goName_expanded_of {type : Ty} (h : inside = true → Unaliased (parts .named type)) :
    goName (expanded inside type) = goName type := by
  match type with
  | .array element =>
    have inner := goName_expanded_of fun on => (unaliased_cons.1 (h on)).2
    rw [expanded, goName, goName, inner]
  | .«alias» name target =>
    have inner (seen : (target.isArrayLike || !Builtin.isNumericAlias name) = true) :
        goName (expanded inside target) = goName target := by
      refine goName_expanded_of fun on => ?_
      have unaliased := (unaliased_cons.1 (h on)).2
      rwa [ofTarget_named seen] at unaliased
    rw [expanded]
    -- A numeric alias stays, but as one of an array it is seen through like any other.
    split
    · rw [goName, goName, isArrayLike_expanded]
      split
      next seen => exact inner seen
      · rfl
    next user =>
      have seen : (target.isArrayLike || !Builtin.isNumericAlias name) = true := by simp [user]
      rw [goName, if_pos seen, inner seen]
  | .reference name args =>
    cases on : inside with
    | false => rfl
    | true =>
      have unaliased : Unaliased (parts .spelled (reference name args)) :=
        unaliased_cons.2 ⟨fun _ => rfl, (unaliased_cons.1 (h on)).2⟩
      have same := text_expanded true unaliased
      rw [expanded] at same ⊢
      rw [goName_of_isSpelled rfl, goName_of_isSpelled rfl, same]
  | .object [] => rfl
  | .object (.mk name type :: rest) =>
    have fields (on : inside = true) := unaliased_append.1 (unaliased_cons.1 (h on)).2
    rw [expanded, expandedFields, goName, goName, goName_expanded_of fun on => (fields on).1,
      goFields_expanded fun on => (fields on).2]
  | .function params returns =>
    have signature (on : inside = true) := unaliased_append.1 (unaliased_cons.1 (h on)).2
    rw [expanded, goName, goName, goParams_expanded fun on => (signature on).1,
      goName_expanded_of fun on => (signature on).2]
  | .number | .numberLit _ | .string | .stringLit _ | .boolean | .booleanLit _ | .void | .null
  | .any | .unknown => rfl

theorem goFields_expanded {fields : List Field}
    (h : inside = true → Unaliased (Field.parts .named fields)) :
    goFields (expandedFields inside fields) = goFields fields := by
  match fields with
  | [] => rfl
  | .mk name type :: rest =>
    rw [expandedFields, goFields, goFields,
      goName_expanded_of fun on => (unaliased_append.1 (h on)).1,
      goFields_expanded fun on => (unaliased_append.1 (h on)).2]

theorem goParams_expanded {params : List Field}
    (h : inside = true → Unaliased (Field.parts .named params)) :
    goParams (expandedFields inside params) = goParams params := by
  match params with
  | [] => rfl
  | .mk name type :: rest =>
    rw [expandedFields, goParams, goParams,
      goName_expanded_of fun on => (unaliased_append.1 (h on)).1,
      goParams_expanded fun on => (unaliased_append.1 (h on)).2]

end

/-- The Go name of a type is the same with the targets of its aliases in their place. Among the
arguments of references they may only take it if no alias shows there but the numeric types. -/
theorem goName_expanded (type : Ty) :
    (type.expanded false).goName = type.goName ∧
      ((∀ part ∈ type.parts .named, part.standing = .spelled → part.type.isUserAlias = false) →
        (type.expanded true).goName = type.goName) :=
  ⟨goName_expanded_of nofun, fun unaliased => goName_expanded_of fun _ => unaliased⟩

/-- The type of a function from some names and a pointer to a number to a name. -/
def lookupType : Ty :=
  function [.mk "names" («alias» "Names" (array («alias» "Label" string))),
    .mk "place" (reference Builtin.pointerName [«alias» "int32" number])] («alias» "Label" string)

theorem lookupType_expanded :
    (∀ part ∈ lookupType.parts .named, part.standing = .spelled → part.type.isUserAlias = false) ∧
      (lookupType.expanded true).goName = lookupType.goName ∧
      ∃ place, lookupType.expanded true = function [.mk "names" (array string), place] string := by
  have unaliased : ∀ part ∈ lookupType.parts .named, part.standing = .spelled →
      part.type.isUserAlias = false := by decide +kernel
  exact ⟨unaliased, (goName_expanded lookupType).2 unaliased, _, rfl⟩

/-- The name of an alias shows in the Go name of a pointer to it. -/
theorem pointerToLabel_shows :
    (reference Builtin.pointerName [«alias» "Label" string]).goName = .ok "Pointer<Label>" ∧
      ((reference Builtin.pointerName [«alias» "Label" string]).expanded true).goName =
        .ok "Pointer<string>" :=
  ⟨(goName_of_isSpelled rfl).trans (congrArg Except.ok (by decide +kernel)),
    (goName_of_isSpelled rfl).trans (congrArg Except.ok (by decide +kernel))⟩

end Ty

end ScriptToGo
