import ScriptToGo.Proofs.Check.Traversal
import ScriptToGo.Proofs.Emission.Layout
import ScriptToGo.Proofs.Emission.Refusals
import ScriptToGo.Proofs.Module.Preorder

/-! Every import of a loaded program leads to a module. -/
namespace ScriptToGo.ModuleGraph

variable {s : Sources} {entry : Path} {g : ModuleGraph}

/-- Whether errors are about something else than an unknown module. -/
private def Resolved (errors : List TypeError) : Prop :=
  ∀ e ∈ errors, ∀ specifier, e.fault ≠ .unknownModule specifier

/-- No step of checking but an import reports an unknown module. -/
private theorem stepRelation_resolved :
    StepRelation fun s t => Resolved s.errors → Resolved t.errors where
  refl _ h := h
  trans first second h := second (first h)
  report s e known h := by
    intro e' he
    rcases List.mem_append.1 he with he | he
    · exact h e' he
    · obtain rfl := List.mem_singleton.1 he
      exact known
  record _ _ _ _ h := h
  define _ _ _ _ _ h := h
  setKind _ _ _ h := h
  setReturnType _ _ h := h
  scope _ _ _ inside h := inside h

private theorem resolved_check (hs : s.Idempotent) (h : load s entry = .ok g) {errors : List TypeError}
    (failed : g.check = .error errors) : Resolved errors := by
  have kept := Check.keeps_checkModules stepRelation_resolved g fun m hm decl hd unresolved => by
    obtain ⟨target, _, resolved, _⟩ := exists_resolveImport hs h hm hd
    rw [unresolved] at resolved
    cases resolved
  have final : Resolved ((Check.checkModules g).run .initial).2.errors := kept .initial (by nofun)
  rw [ModuleGraph.check] at failed
  split at failed
  · cases failed
  · cases failed
    exact final

private theorem resolved_toGo (hs : s.Idempotent) (h : load s entry = .ok g) {types : TypeTable}
    {options : Options} {refusal : Refusal}
    (refused : g.toGo types options = .error (.refused refusal)) :
    refusal.cause.isUnresolved = false := by
  obtain ⟨w, written, failed⟩ := exists_of_toGo_error refused
  have other : w.2.import? = none := by
    cases importing : w.2.import? with
    | none => rfl
    | some decl =>
      have hd : decl ∈ w.1.program.imports := List.mem_filterMap.2 ⟨_, written.statement, importing⟩
      obtain ⟨target, _, resolved, _⟩ := exists_resolveImport hs h written.mem hd
      rw [written.unresolved decl importing] at resolved
      cases resolved
  obtain ⟨part, _, cause, known, _, eq⟩ := Statement.refusesTopLevel ⟨w.1, types⟩ w.2 other _ failed
  rw [(View.refusal_eq eq).1]
  exact known

/-- Each import of a module resolves to the module at the canonical path of its target, so that
neither checking nor writing finds an import that leads nowhere. -/
theorem imports_resolve (hs : s.Idempotent) (h : load s entry = .ok g) :
    (∀ u ∈ g.modules, ∀ (i : Nat) (decl : ImportDecl), u.program.imports[i]? = some decl →
      ∃ target ∈ g.modules, g.resolveImport u.id decl.specifier.text = some target ∧
        u.imports[i]? = some (s.canonical (u.path.resolve decl.specifier.text)) ∧
        target.path.steps = (s.canonical (u.path.resolve decl.specifier.text)).steps) ∧
      (∀ errors, g.check = .error errors →
        ∀ e ∈ errors, ∀ specifier, e.fault ≠ .unknownModule specifier) ∧
      ∀ types options refusal, g.toGo types options = .error (.refused refusal) →
        ∀ specifier, refusal.cause ≠ .unresolvedModule specifier := by
  refine ⟨?_, fun errors failed => resolved_check hs h failed, ?_⟩
  · intro u hu i decl hd
    obtain ⟨target, ht, resolved, path_eq⟩ :=
      exists_resolveImport hs h hu (List.mem_of_getElem? hd)
    refine ⟨target, ht, resolved, ?_, path_eq⟩
    rw [(isFrom_of_load h hu).imports, Module.targets, List.getElem?_map, List.getElem?_map, hd]
    rfl
  · intro types options refusal refused specifier unresolved
    have := resolved_toGo hs h refused
    rw [unresolved] at this
    cases this

/-- The five imports of four files resolve, among them one back to the entry. -/
theorem diamond_imports_resolve :
    load diamond ⟨"main.ts"⟩ = .ok diamondGraph ∧
      diamondGraph.modules.map (·.program.imports.length) = [2, 1, 1, 1] ∧
      ∀ u ∈ diamondGraph.modules, ∀ decl ∈ u.program.imports, ∃ target ∈ diamondGraph.modules,
        diamondGraph.resolveImport u.id decl.specifier.text = some target := by
  obtain ⟨resolve, _⟩ := imports_resolve diamond_idempotent diamond_loads
  refine ⟨diamond_loads, by decide +kernel, fun u hu decl hd => ?_⟩
  obtain ⟨i, hi⟩ := List.mem_iff_getElem?.1 hd
  obtain ⟨target, ht, resolved, _⟩ := resolve u hu i decl hi
  exact ⟨target, ht, resolved⟩

end ScriptToGo.ModuleGraph
