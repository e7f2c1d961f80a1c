import ScriptToGo.Module.Graph

/-! The order in which the statements of all modules are written. -/
namespace ScriptToGo

/-- A step of the walk through a program. -/
inductive WalkStep
  | enter (m : Module)
  | statement (s : Statement)
  /-- The statements of the importing module go on. -/
  | leave

namespace ModuleGraph

/-- How many modules are not on a chain of imports. -/
def outside (g : ModuleGraph) (chain : List FileId) : Nat :=
  g.modules.countP fun m => m.id ∉ chain

/-- A module that an import names is a module of the program. -/
theorem mem_of_resolveImport {g : ModuleGraph} {importer : FileId} {specifier : String} {m : Module}
    (h : g.resolveImport importer specifier = some m) : m ∈ g.modules := by
  obtain ⟨_, _, h⟩ := Option.bind_eq_some_iff.1 h
  obtain ⟨_, _, h⟩ := Option.bind_eq_some_iff.1 h
  exact List.mem_of_getElem? h

/-- A chain that grows by a module leaves fewer modules outside. -/
theorem outside_cons_lt {g : ModuleGraph} {chain : List FileId} {m : Module} (hm : m ∈ g.modules)
    (h : m.id ∉ chain) : g.outside (m.id :: chain) < g.outside chain := by
  have le : ∀ modules : List Module,
      (modules.countP fun n => n.id ∉ m.id :: chain) ≤ modules.countP fun n => n.id ∉ chain :=
    fun modules => List.countP_mono_left fun n _ hn => by simp_all
  have lt : ∀ modules : List Module, m ∈ modules →
      (modules.countP fun n => n.id ∉ m.id :: chain) < modules.countP fun n => n.id ∉ chain := by
    intro modules
    induction modules with
    | nil => simp
    | cons n rest ih =>
      intro hm
      rw [List.countP_cons, List.countP_cons]
      rcases List.mem_cons.1 hm with rfl | hm
      · simpa [h] using Nat.lt_succ_of_le (le rest)
      · refine Nat.add_lt_add_of_lt_of_le (ih hm) ?_
        by_cases hn : n.id ∈ chain <;> simp [hn]
        split <;> simp
  exact lt g.modules hm

/-- The steps through statements of a module that was reached over a chain of imports. The
statements of an imported module stand in place of the import, each time it is imported; a module
on the chain is left out. -/
def walkFrom (g : ModuleGraph) (chain : List FileId) (m : Module) :
    List Statement → List WalkStep
  | [] => []
  | s :: rest =>
    match s.import? with
    | none => .statement s :: walkFrom g chain m rest
    | some decl =>
      match _ : g.resolveImport m.id decl.specifier.text with
      | none => .statement s :: walkFrom g chain m rest
      | some target =>
        if _ : target.id ∉ chain then
          .enter target :: walkFrom g (target.id :: chain) target target.program
            ++ .leave :: walkFrom g chain m rest
        else walkFrom g chain m rest
termination_by statements => (g.outside chain, statements.length)
decreasing_by
  all_goals first
    | exact Prod.Lex.left _ _ (outside_cons_lt (mem_of_resolveImport ‹_›) ‹_›)
    | exact Prod.Lex.right _ (Nat.lt_succ_self _)

variable {g : ModuleGraph} {chain : List FileId} {m target : Module} {s : Statement}
  {rest : List Statement} {decl : ImportDecl}

@[simp] theorem walkFrom_nil : g.walkFrom chain m [] = [] := by rw [walkFrom]

theorem walkFrom_other (other : s.import? = none) :
    g.walkFrom chain m (s :: rest) = .statement s :: g.walkFrom chain m rest := by
  rw [walkFrom, other]

theorem walkFrom_unresolved (importing : s.import? = some decl)
    (unresolved : g.resolveImport m.id decl.specifier.text = none) :
    g.walkFrom chain m (s :: rest) = .statement s :: g.walkFrom chain m rest := by
  rw [walkFrom]
  simp only [importing]
  split
  · rfl
  · simp_all

theorem walkFrom_entered (importing : s.import? = some decl)
    (resolved : g.resolveImport m.id decl.specifier.text = some target) (new : target.id ∉ chain) :
    g.walkFrom chain m (s :: rest)
      = .enter target :: g.walkFrom (target.id :: chain) target target.program
          ++ .leave :: g.walkFrom chain m rest := by
  rw [walkFrom]
  simp only [importing]
  split
  · simp_all
  · rename_i other found
    obtain rfl := Option.some.inj (resolved.symm.trans found)
    rw [dif_pos new]

theorem walkFrom_skipped (importing : s.import? = some decl)
    (resolved : g.resolveImport m.id decl.specifier.text = some target) (seen : target.id ∈ chain) :
    g.walkFrom chain m (s :: rest) = g.walkFrom chain m rest := by
  rw [walkFrom]
  simp only [importing]
  split
  · simp_all
  · rename_i other found
    obtain rfl := Option.some.inj (resolved.symm.trans found)
    rw [dif_neg (not_not_intro seen)]

/-- The steps through a program, from its entry on. -/
def walk (g : ModuleGraph) : List WalkStep := g.walkFrom [g.entry.id] g.entry g.entry.program

/-- The steps through a module that was reached over a chain of imports, as far as this enters no more
modules one inside the other than some number. -/
def walkWithin (g : ModuleGraph) : Nat → List FileId → Module → List WalkStep
  | 0, _, _ => []
  | depth + 1, chain, m => m.program.flatMap fun s =>
    match s.import? with
    | none => [.statement s]
    | some decl =>
      match g.resolveImport m.id decl.specifier.text with
      | none => [.statement s]
      | some target =>
        if target.id ∉ chain then
          .enter target :: g.walkWithin depth (target.id :: chain) target ++ [.leave]
        else []

/-- A walk is no deeper than there are modules outside of its chain. -/
theorem walkFrom_eq {depth : Nat} (deep : g.outside chain < depth) :
    g.walkFrom chain m m.program = g.walkWithin depth chain m := by
  obtain ⟨depth, rfl⟩ := Nat.exists_eq_succ_of_ne_zero (Nat.ne_zero_of_lt deep)
  rw [walkWithin]
  generalize m.program = statements
  induction chain, m, statements using walkFrom.induct g generalizing depth with
  | case1 chain m => rw [walkFrom_nil, List.flatMap_nil]
  | case2 chain m s rest other ih =>
    rw [walkFrom_other other, List.flatMap_cons, ← ih depth deep, other]
    rfl
  | case3 chain m s rest decl importing unresolved ih =>
    rw [walkFrom_unresolved importing unresolved, List.flatMap_cons, ← ih depth deep, importing]
    simp only [unresolved]
    rfl
  | case4 chain m s rest decl importing target resolved new ihInner ih =>
    have inside : g.outside (target.id :: chain) < depth :=
      Nat.lt_of_lt_of_le (outside_cons_lt (mem_of_resolveImport resolved) new) (Nat.le_of_lt_succ deep)
    obtain ⟨deeper, rfl⟩ := Nat.exists_eq_succ_of_ne_zero (Nat.ne_zero_of_lt inside)
    rw [walkFrom_entered importing resolved new, List.flatMap_cons, ← ih _ deep, importing]
    simp only [resolved, if_pos new]
    rw [walkWithin, ← ihInner deeper inside, List.append_assoc, List.singleton_append]
  | case5 chain m s rest decl importing target resolved seen ih =>
    rw [walkFrom_skipped importing resolved (Decidable.not_not.1 seen), List.flatMap_cons,
      ← ih depth deep, importing]
    simp only [resolved, if_neg seen]
    rfl

/-- A walk enters at most all modules one inside the other. -/
theorem walk_eq (g : ModuleGraph) : g.walk = g.walkWithin g.modules.length [g.entry.id] g.entry := by
  have fewer := outside_cons_lt (List.head_mem g.ne_nil) (List.not_mem_nil : g.entry.id ∉ [])
  exact walkFrom_eq (Nat.lt_of_lt_of_le fewer List.countP_le_length)

end ModuleGraph

end ScriptToGo
