import ScriptToGo.Types.Target

/-! Which types stand inside of others, and how they enter their Go names. -/
namespace ScriptToGo

/-- How a type that stands inside of another one, or is that one, enters its Go name. -/
inductive Ty.Standing
  /-- Under a Go name of its own. -/
  | named
  /-- In the spelling of the source language, among the arguments of a reference. -/
  | spelled
  /-- Not at all, because an alias around it enters under the name of that alias. -/
  | hidden
deriving DecidableEq

namespace Ty.Standing

/-- How the target of an alias enters, where the alias itself has this standing. -/
def ofTarget (name : String) (target : Ty) : Standing → Standing
  | named => if target.isArrayLike || !Builtin.isNumericAlias name then named else hidden
  | spelled | hidden => hidden

/-- How the arguments of a reference enter, where the reference itself has this standing. -/
def ofArgument : Standing → Standing
  | named | spelled => spelled
  | hidden => hidden

theorem ofTarget_ne_named {standing : Standing} (h : standing ≠ named) (name : String)
    (target : Ty) : standing.ofTarget name target ≠ named := by
  cases standing with
  | named => exact absurd rfl h
  | spelled | hidden => exact nofun

theorem ofArgument_ne_named (standing : Standing) : standing.ofArgument ≠ named := by
  cases standing <;> exact nofun

end Ty.Standing

/-- A type that stands inside of another one. -/
structure Ty.Part where
  type : Ty
  standing : Ty.Standing

mutual

/-- A type and all that stand inside of it: elements, targets of aliases, arguments, fields,
parameters and results. -/
def Ty.parts (standing : Ty.Standing) : Ty → List Ty.Part
  | .array element => ⟨.array element, standing⟩ :: element.parts standing
  | .«alias» name target =>
    ⟨.«alias» name target, standing⟩ :: target.parts (standing.ofTarget name target)
  | .reference name args => ⟨.reference name args, standing⟩ :: Ty.partsAll standing.ofArgument args
  | .object fields => ⟨.object fields, standing⟩ :: Field.parts standing fields
  | .function params returns =>
    ⟨.function params returns, standing⟩ :: (Field.parts standing params ++ returns.parts standing)
  | type => [⟨type, standing⟩]

def Ty.partsAll (standing : Ty.Standing) : List Ty → List Ty.Part
  | [] => []
  | type :: rest => type.parts standing ++ Ty.partsAll standing rest

def Field.parts (standing : Ty.Standing) : List Field → List Ty.Part
  | [] => []
  | .mk _ type :: rest => type.parts standing ++ Field.parts standing rest

end

theorem Ty.mem_parts (standing : Ty.Standing) (type : Ty) :
    ⟨type, standing⟩ ∈ type.parts standing := by
  cases type <;> exact List.mem_cons_self

/-- Nothing is known of a type: anything goes with it, by choice or after an error. -/
def Ty.isUninferred : Ty → Bool
  | .any | .unknown => true
  | _ => false

/-- The part keeps a type from having a Go name. -/
def Ty.Part.Blocks (part : Ty.Part) : Prop :=
  part.type.isUninferred = true ∧ part.standing = .named

namespace Ty

mutual

/-- No part blocks a type whose own name is not asked for. -/
theorem not_blocks {standing : Standing} (h : standing ≠ .named) (type : Ty) :
    ∀ part ∈ parts standing type, ¬part.Blocks := by
  have self (type : Ty) : ¬(Part.mk type standing).Blocks := fun blocks => h blocks.2
  match type with
  | .array element => exact List.forall_mem_cons.2 ⟨self _, not_blocks h element⟩
  | .«alias» name target =>
    have inner := not_blocks (Standing.ofTarget_ne_named h name target) target
    exact List.forall_mem_cons.2 ⟨self _, inner⟩
  | .reference _ args =>
    exact List.forall_mem_cons.2 ⟨self _, not_blocksAll standing.ofArgument_ne_named args⟩
  | .object fields => exact List.forall_mem_cons.2 ⟨self _, not_blocksFields h fields⟩
  | .function params returns =>
    refine List.forall_mem_cons.2 ⟨self _, List.forall_mem_append.2 ?_⟩
    exact ⟨not_blocksFields h params, not_blocks h returns⟩
  | .number | .numberLit _ | .string | .stringLit _ | .boolean | .booleanLit _ | .void | .null
  | .any | .unknown => exact List.forall_mem_singleton.2 (self _)

theorem not_blocksAll {standing : Standing} (h : standing ≠ .named) (types : List Ty) :
    ∀ part ∈ partsAll standing types, ¬part.Blocks := by
  match types with
  | [] => exact List.forall_mem_nil _
  | type :: rest => exact List.forall_mem_append.2 ⟨not_blocks h type, not_blocksAll h rest⟩

theorem not_blocksFields {standing : Standing} (h : standing ≠ .named) (fields : List Field) :
    ∀ part ∈ Field.parts standing fields, ¬part.Blocks := by
  match fields with
  | [] => exact List.forall_mem_nil _
  | .mk _ type :: rest =>
    exact List.forall_mem_append.2 ⟨not_blocks h type, not_blocksFields h rest⟩

end

end Ty

section Succeeding

variable {ε α β : Type}

/-- Something is returned. -/
def Succeeds (x : Except ε α) : Prop := ∃ a, x = .ok a

theorem succeeds_ok (a : α) : Succeeds (.ok a : Except ε α) := ⟨a, rfl⟩

theorem not_succeeds_error (e : ε) : ¬Succeeds (.error e : Except ε α) := nofun

/-- Where the second step always returns something, the first decides. -/
theorem succeeds_bind {x : Except ε α} {f : α → Except ε β} (h : ∀ a, Succeeds (f a)) :
    Succeeds (x >>= f) ↔ Succeeds x := by
  cases x with
  | error e => exact iff_of_false (not_succeeds_error e) (not_succeeds_error e)
  | ok a => exact iff_of_true (h a) (succeeds_ok a)

theorem succeeds_bind₂ {γ : Type} {x : Except ε α} {y : Except ε β} {f : α → β → Except ε γ}
    (h : ∀ a b, Succeeds (f a b)) :
    Succeeds (do f (← x) (← y)) ↔ Succeeds x ∧ Succeeds y := by
  cases x with
  | error e => exact iff_of_false (not_succeeds_error e) fun both => not_succeeds_error e both.1
  | ok a => exact (succeeds_bind (h a)).trans (and_iff_right (succeeds_ok a)).symm

end Succeeding

namespace Ty

/-- The Go name of a type is found by its spelling in the source language. -/
def isSpelled : Ty → Bool
  | string | boolean | booleanLit _ | void | null | reference .. => true
  | _ => false

theorem goName_of_isSpelled {type : Ty} (h : type.isSpelled = true) :
    type.goName = .ok (normalizeTypeText type.text) := by
  cases type with
  | string | boolean | booleanLit | void | null | reference =>
    rw [goName]
    all_goals exact nofun
  | _ => cases h

/-- A type of which something is known blocks nothing itself. -/
theorem not_blocks_cons {type : Ty} (known : type.isUninferred = false) {rest : List Part} :
    (∀ part ∈ ⟨type, .named⟩ :: rest, ¬part.Blocks) ↔ ∀ part ∈ rest, ¬part.Blocks := by
  rw [List.forall_mem_cons]
  exact and_iff_right fun blocks => Bool.false_ne_true (known.symm.trans blocks.1)

mutual

/-- A type has a Go name unless a part of it blocks that. -/
theorem succeeds_goName (type : Ty) :
    Succeeds type.goName ↔ ∀ part ∈ parts .named type, ¬part.Blocks := by
  match type with
  | .any | .unknown =>
    rw [goName, parts, List.forall_mem_singleton]
    · exact iff_of_false (not_succeeds_error _) fun inferred => inferred ⟨rfl, rfl⟩
    all_goals exact nofun
  | .array element =>
    rw [goName, parts, not_blocks_cons rfl]
    exact (succeeds_bind fun _ => succeeds_ok _).trans (succeeds_goName element)
  | .«alias» name target =>
    rw [goName, parts, not_blocks_cons rfl, Standing.ofTarget]
    split
    · exact succeeds_goName target
    · have unnamed : Standing.hidden ≠ .named := nofun
      exact iff_of_true (succeeds_ok _) (not_blocks unnamed target)
  | .object [] =>
    rw [goName, parts, not_blocks_cons rfl]
    exact iff_of_true (succeeds_ok _) (List.forall_mem_nil _)
  | .object (.mk name type :: rest) =>
    rw [goName, parts, not_blocks_cons rfl, Field.parts, List.forall_mem_append]
    exact (succeeds_bind₂ fun _ _ => succeeds_ok _).trans
      (and_congr (succeeds_goName type) (succeeds_goFields rest))
  | .function params returns =>
    rw [goName, parts, not_blocks_cons rfl, List.forall_mem_append]
    exact (succeeds_bind₂ fun _ _ => succeeds_ok _).trans
      (and_congr (succeeds_goParams params) (succeeds_goName returns))
  | .reference name args =>
    rw [goName_of_isSpelled rfl, parts, not_blocks_cons rfl]
    exact iff_of_true (succeeds_ok _) (not_blocksAll (Standing.ofArgument_ne_named _) args)
  | .string | .boolean | .booleanLit _ | .void | .null =>
    rw [goName_of_isSpelled rfl, parts, not_blocks_cons rfl]
    · exact iff_of_true (succeeds_ok _) (List.forall_mem_nil _)
    all_goals exact nofun
  | .number | .numberLit _ | .stringLit _ =>
    rw [goName, parts, not_blocks_cons rfl]
    · exact iff_of_true (succeeds_ok _) (List.forall_mem_nil _)
    all_goals exact nofun

theorem succeeds_goFields (fields : List Field) :
    Succeeds (goFields fields) ↔ ∀ part ∈ Field.parts .named fields, ¬part.Blocks := by
  match fields with
  | [] => exact iff_of_true (succeeds_ok _) (List.forall_mem_nil _)
  | .mk name type :: rest =>
    rw [goFields, Field.parts, List.forall_mem_append]
    exact (succeeds_bind₂ fun _ _ => succeeds_ok _).trans
      (and_congr (succeeds_goName type) (succeeds_goFields rest))

theorem succeeds_goParams (params : List Field) :
    Succeeds (goParams params) ↔ ∀ part ∈ Field.parts .named params, ¬part.Blocks := by
  match params with
  | [] => exact iff_of_true (succeeds_ok _) (List.forall_mem_nil _)
  | .mk name type :: rest =>
    rw [goParams, Field.parts, List.forall_mem_append]
    exact (succeeds_bind₂ fun _ _ => succeeds_ok _).trans
      (and_congr (succeeds_goName type) (succeeds_goParams rest))

end

/-- A type has a Go name if and only if something is known of every part that needs a name too. What
is spelled out among the arguments of a reference needs none, and neither does what an alias hides. -/
theorem exists_goName_iff (type : Ty) :
    (∃ name, type.goName = .ok name) ↔
      ∀ part ∈ type.parts .named, part.type.isUninferred = true → part.standing ≠ .named :=
  (succeeds_goName type).trans (forall₂_congr fun _ _ => not_and)

/-- A pointer to anything has a Go name, in which that anything is spelled out. -/
theorem pointerToAny_named :
    (reference Builtin.pointerName [any]).goName = .ok "Pointer<any>" ∧
      ⟨any, .spelled⟩ ∈ (reference Builtin.pointerName [any]).parts .named ∧
      any.isUninferred = true :=
  ⟨(goName_of_isSpelled rfl).trans (congrArg Except.ok (by decide +kernel)), .tail _ (.head _), rfl⟩

end Ty

end ScriptToGo
