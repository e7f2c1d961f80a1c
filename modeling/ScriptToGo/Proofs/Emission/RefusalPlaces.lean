import ScriptToGo.Proofs.Emission.Emitted
import ScriptToGo.Proofs.Emission.Refusals
import ScriptToGo.Proofs.Module.FirstFailure
import ScriptToGo.Proofs.Text.Position

/-! A refusal tells where the refused part stands, in whichever file it is met, and every error in a
program is shown beside its source. -/
namespace ScriptToGo
open Text (byteLength)

/-- A place is that of a part of a module. It names the file of the module and the range of the part,
and its line and column are counted in what stands before the part. -/
structure Location.IsOf (place : Location) (m : Module) (part : Part) : Prop where
  path : place.path = m.path
  inside : part ∈ Statement.allParts m.program
  span : place.span = part.span
  position : ∃ before after, m.source.toList = before ++ after ∧
    place.span.start = byteLength before ∧ place.position = .behind before

namespace ModuleGraph

variable {sources : Sources} {entry : Path} {g : ModuleGraph} {types : TypeTable}

theorem isOf_of_refuse (loaded : load sources entry = .ok g) {m : Module} (among : m ∈ g.modules)
    {part : Part} (inside : part ∈ Statement.allParts m.program) {cause : RefusalCause}
    {refusal : Refusal} {α : Type}
    (refused : View.refuse ⟨m, types⟩ part.span cause
      = (.error (.refused refusal) : Except Failure α)) :
    refusal.cause = cause ∧ refusal.location.IsOf m part := by
  obtain ⟨same, span, path, position⟩ := View.refusal_eq refused
  have stands : part.span ∈ Statement.allSpans m.program :=
    (Statement.allParts_sublist m.program).subset (List.mem_map_of_mem inside)
  have parsed := (isFrom_of_load loaded among).program
  obtain ⟨before, after, text, start⟩ :=
    Text.isBoundary_iff.1 (isBoundary_of_ofSource parsed stands)
  refine ⟨same, path, inside, span, before, after, text, span ▸ start, ?_⟩
  rw [start, Text.position?_byteLength text] at position
  exact (Option.some.inj position).symm

/-- When a loaded program is not written in Go, whatever the types and the options, it is refused, and
the refusal names the place of a part of a module that imports lead to from the entry. The part is of
a kind that its cause is about. -/
theorem toGo_error_place (loaded : load sources entry = .ok g) {options : Options}
    {failure : Failure} (failed : g.toGo types options = .error failure) :
    ∃ refusal chain m part, failure = .refused refusal ∧ g.Visits chain m ∧
      refusal.location.IsOf m part ∧ part.kind ∈ refusal.cause.kinds := by
  cases failure with
  | misused misuse => exact (toGo_ne_misused loaded types options misuse failed).elim
  | refused refusal =>
    obtain ⟨w, met, refused⟩ := exists_written_of_toGo_error failed
    obtain ⟨⟨chain, visited⟩, own, _⟩ := mem_written.1 met
    obtain ⟨part, inside, cause, about, refused⟩ := Statement.refusedPart ⟨w.1, types⟩ refused
    obtain ⟨rfl, place⟩ :=
      isOf_of_refuse loaded (isWritten met).mem (Statement.parts_subset own inside) refused
    exact ⟨refusal, chain, w.1, part, rfl, visited, place, about⟩

/-- The file in which code is refused is found among the modules. -/
theorem exists_lookup_of_refused (hs : sources.Idempotent) (loaded : load sources entry = .ok g)
    {options : Options} {refusal : Refusal} (failed : g.toGo types options = .error (.refused refusal)) :
    ∃ m ∈ g.modules, g.lookup refusal.location.path = some m := by
  obtain ⟨w, written, refused⟩ := exists_of_toGo_error failed
  obtain ⟨part, -, cause, -, refused⟩ := Statement.refusedPart ⟨w.1, types⟩ refused
  obtain ⟨-, -, path, -⟩ := View.refusal_eq refused
  exact ⟨w.1, written.mem, path ▸ lookup_of_load hs loaded written.mem⟩

end ModuleGraph

/-- An excerpt shows a range of a text that was read, in the file that it was read from. -/
structure Diagnostic.Excerpt.IsFrom (e : Diagnostic.Excerpt) (s : Sources) : Prop where
  read : ∃ p : Path, s.read p = .ok e.source ∧ e.file = p.text
  inside : e.offset + e.length ≤ e.source.utf8ByteSize

theorem Diagnostic.isFrom_excerpt {s : Sources} (d : Diagnostic) {p : Path} {text : String}
    (readable : s.read p = .ok text) : (d.excerpt p.text text).IsFrom s :=
  ⟨⟨p, readable, rfl⟩, d.span.clamp_le _⟩

theorem Diagnostic.Excerpt.isFrom_plain {s : Sources} (message : String) (span : Span) {p : Path}
    {text : String} (readable : s.read p = .ok text) : (plain message p.text text span).IsFrom s :=
  ⟨⟨p, readable, rfl⟩, span.clamp_le _⟩

/-- When a program is not compiled, a file of it cannot be read, or all that is shown of the failure is
shown beside the source of a file. -/
theorem CompileFailure.reports_isFrom {s : Sources} {entry : Path} {options : Options}
    {failure : CompileFailure} (hs : s.Idempotent) (failed : compile s entry options = .error failure) :
    (∃ p reason, failure = .load (.unreadable p reason)) ∨
      ∀ report ∈ failure.reports, ∃ e, report = .excerpt e ∧ e.IsFrom s := by
  cases comesFrom failed with
  | load stopped =>
    obtain ⟨p, fails⟩ := ModuleGraph.failsAs_of_load stopped
    cases fails with
    | unreadable => exact .inl ⟨_, _, rfl⟩
    | faultyTokens readable | noProgram readable =>
      exact .inr (List.forall_mem_map.2 fun e _ => ⟨_, rfl, e.diagnostic.isFrom_excerpt readable⟩)
  | @check g errors loaded =>
    refine .inr (List.forall_mem_map.2 fun e _ => ⟨_, rfl, e.diagnostic.isFrom_excerpt ?_⟩)
    have among : (g.module? e.file).getD g.entry ∈ g.modules := by
      cases found : g.module? e.file with
      | none => exact ModuleGraph.entry_mem g
      | some m => exact List.mem_of_getElem? found
    exact (ModuleGraph.isFrom_of_load loaded among).source
  | @write g types reason loaded stopped =>
    cases reason with
    | misused misuse => exact (ModuleGraph.toGo_ne_misused loaded types options misuse stopped).elim
    | refused refusal =>
      obtain ⟨m, among, found⟩ := ModuleGraph.exists_lookup_of_refused hs loaded stopped
      have readable := (ModuleGraph.isFrom_of_load loaded among).source
      rw [reports, found]
      exact .inr (List.forall_mem_singleton.2 ⟨_, rfl, Diagnostic.Excerpt.isFrom_plain _ _ readable⟩)

namespace ModuleGraph

/-- A file with a loop that starts with two variables. -/
def pairLoopSource : String := "function f(): number \x7b for (let i = 0, j = 1;;) \x7b\x7d \x7d"

def pairLoopGraph : ModuleGraph :=
  .ofFile ⟨"main.ts"⟩ pairLoopSource (programOf pairLoopSource)

def pairLoopTypes : TypeTable := pairLoopGraph.check.toOption.getD .empty

theorem pairLoop_loads :
    load (.ofFiles [(⟨"main.ts"⟩, pairLoopSource)] []) ⟨"main.ts"⟩ = .ok pairLoopGraph :=
  load_ofText rfl (by decide +kernel)

theorem pairLoop_checks : pairLoopGraph.check = .ok pairLoopTypes :=
  eq_ok_of_isSome TypeTable.empty (by decide +kernel)

/-- The refusal that a run ends in, if it does. -/
def refusal? {α : Type} : Except Failure α → Option Refusal
  | .error (.refused refusal) => some refusal
  | _ => none

theorem exists_of_refusal? {α β : Type} {x : Except Failure α} {told : Refusal → β} {b : β}
    (h : (refusal? x).map told = some b) :
    ∃ refusal, x = .error (.refused refusal) ∧ told refusal = b := by
  match x with
  | .error (.refused refusal) => exact ⟨refusal, rfl, Option.some.inj h⟩
  | .error (.misused _) | .ok _ => cases h

theorem pairLoop_refused : ∃ refusal,
    pairLoopGraph.toGo pairLoopTypes .standard = .error (.refused refusal) ∧
      refusal.location.span = ⟨28, 44⟩ :=
  exists_of_refusal? (by rw [toGo_eq_within]; decide +kernel)

/-- What is refused are both variables together. Neither a statement nor an expression, an operator,
a name, a parameter, a declared variable, a property or a written type takes their range. -/
theorem pairLoop_refused_whole :
    load (.ofFiles [(⟨"main.ts"⟩, pairLoopSource)] []) ⟨"main.ts"⟩ = .ok pairLoopGraph ∧
      pairLoopGraph.check = .ok pairLoopTypes ∧
      ∃ refusal, pairLoopGraph.toGo pairLoopTypes .standard = .error (.refused refusal) ∧
        ∀ m ∈ pairLoopGraph.modules, ∀ part ∈ Statement.allParts m.program,
          part.span = refusal.location.span → part.kind = .loopVariables := by
  obtain ⟨refusal, refused, range⟩ := pairLoop_refused
  refine ⟨pairLoop_loads, pairLoop_checks, refusal, refused, ?_⟩
  rw [range]
  decide +kernel

/-- The refusal of both variables names their place in the one file there is. -/
theorem pairLoop_place :
    load (.ofFiles [(⟨"main.ts"⟩, pairLoopSource)] []) ⟨"main.ts"⟩ = .ok pairLoopGraph ∧
      ∃ refusal chain m part,
        pairLoopGraph.toGo pairLoopTypes .standard = .error (.refused refusal) ∧
          pairLoopGraph.Visits chain m ∧ refusal.location.IsOf m part ∧
          part.kind ∈ refusal.cause.kinds := by
  obtain ⟨refusal, refused, _⟩ := pairLoop_refused
  obtain ⟨same, chain, m, part, is, visited, place, about⟩ :=
    toGo_error_place pairLoop_loads refused
  obtain rfl : refusal = same := Failure.refused.inj is
  exact ⟨pairLoop_loads, refusal, chain, m, part, refused, visited, place, about⟩

end ModuleGraph

end ScriptToGo
