import ScriptToGo.Output.Session
import ScriptToGo.Proofs.Output.StackHistory

/-! The two stacks of a session, whatever is done to it. A text that is left is returned to its
writer as it was begun, with what was written since, and nothing of it reaches another text. -/
namespace ScriptToGo

namespace Session
open StackStep

/-- What is done to the stacks of a session. -/
inductive Step
  | pushOutput (t : TextTree)
  | popOutput
  | write (f : TextTree → TextTree)
  | pushFile (m : Module)
  | popFile

namespace Step

def onOutputs? : Step → Option (StackStep TextTree)
  | pushOutput t => some (.push t)
  | popOutput => some .pop
  | write f => some (.modify f)
  | pushFile _ => none
  | popFile => none

def onFiles? : Step → Option (StackStep Module)
  | pushOutput _ => none
  | popOutput => none
  | write _ => none
  | pushFile m => some (.push m)
  | popFile => some .pop

end Step

/-- What is done to the texts. -/
def outputSteps (history : List Step) : List (StackStep TextTree) := history.filterMap Step.onOutputs?

/-- What is done to the modules. -/
def fileSteps (history : List Step) : List (StackStep Module) := history.filterMap Step.onFiles?

variable {s : Session} {history earlier inner : List Step} {t : TextTree} {m : Module}

/-- A session after a step. If a text or a module is not returned, the session is as before. -/
def after (s : Session) : Step → Session
  | .pushOutput t => s.pushOutput t
  | .popOutput =>
    match s.popOutput with
    | .ok (_, left) => left
    | .error _ => s
  | .write f => s.modifyOutput f
  | .pushFile m => s.pushFile m
  | .popFile =>
    match s.popFile with
    | .ok (_, left) => left
    | .error _ => s

def run (s : Session) (history : List Step) : Session := history.foldl after s

theorem run_concat (s : Session) (history : List Step) (step : Step) :
    s.run (history ++ [step]) = (s.run history).after step := List.foldl_append

theorem popOutput_refuses {misuse : Misuse} (pop : s.outputs.pop = .error misuse) :
    s.popOutput = .error misuse ∧ s.after .popOutput = s := by
  have refused : s.popOutput = .error misuse := by
    rw [popOutput, pop]
    rfl
  exact ⟨refused, by rw [after, refused]⟩

theorem popOutput_returns {outputs : Stack TextTree} (pop : s.outputs.pop = .ok (t, outputs)) :
    s.popOutput = .ok (t, s.after .popOutput) ∧ s.after .popOutput = { s with outputs } := by
  have returned : s.popOutput = .ok (t, { s with outputs }) := by
    rw [popOutput, pop]
    rfl
  have left : s.after .popOutput = { s with outputs } := by rw [after, returned]
  exact ⟨left ▸ returned, left⟩

theorem popFile_refuses {misuse : Misuse} (pop : s.files.pop = .error misuse) :
    s.popFile = .error misuse ∧ s.after .popFile = s := by
  have refused : s.popFile = .error misuse := by
    rw [popFile, pop]
    rfl
  exact ⟨refused, by rw [after, refused]⟩

theorem popFile_returns {files : Stack Module} (pop : s.files.pop = .ok (m, files)) :
    s.popFile = .ok (m, s.after .popFile) ∧ s.after .popFile = { s with files } := by
  have returned : s.popFile = .ok (m, { s with files }) := by
    rw [popFile, pop]
    rfl
  have left : s.after .popFile = { s with files } := by rw [after, returned]
  exact ⟨left ▸ returned, left⟩

theorem after_popOutput (s : Session) :
    s.after .popOutput = { s with outputs := s.outputs.after .pop } := by
  rcases pop : s.outputs.pop with misuse | ⟨t, outputs⟩
  · rw [(popOutput_refuses pop).2, Stack.after, pop]
  · rw [(popOutput_returns pop).2, Stack.after, pop]

theorem after_popFile (s : Session) :
    s.after .popFile = { s with files := s.files.after .pop } := by
  rcases pop : s.files.pop with misuse | ⟨m, files⟩
  · rw [(popFile_refuses pop).2, Stack.after, pop]
  · rw [(popFile_returns pop).2, Stack.after, pop]

theorem outputs_run (s : Session) (history : List Step) :
    (s.run history).outputs = s.outputs.run (outputSteps history) := by
  induction history generalizing s with
  | nil => rfl
  | cons step rest ih =>
    refine (ih (s.after step)).trans ?_
    cases step with
    | popOutput => rw [after_popOutput]; rfl
    | popFile => rw [after_popFile]; rfl
    | pushOutput | write | pushFile => rfl

theorem files_run (s : Session) (history : List Step) :
    (s.run history).files = s.files.run (fileSteps history) := by
  induction history generalizing s with
  | nil => rfl
  | cons step rest ih =>
    refine (ih (s.after step)).trans ?_
    cases step with
    | popOutput => rw [after_popOutput]; rfl
    | popFile => rw [after_popFile]; rfl
    | pushOutput | write | pushFile => rfl

theorem exists_step {α : Type} {f : Step → Option α} {before within : List α} {a : α}
    (h : history.filterMap f = before ++ a :: within) : ∃ earlier step inner,
      history = earlier ++ step :: inner ∧ f step = some a ∧ earlier.filterMap f = before ∧
      inner.filterMap f = within := by
  obtain ⟨first, rest, rfl, rfl, told⟩ := List.filterMap_eq_append_iff.1 h
  obtain ⟨others, step, inner, rfl, none, is, rfl⟩ := List.filterMap_eq_cons_iff.1 told
  refine ⟨first ++ others, step, inner, (List.append_assoc ..).symm, is, ?_, rfl⟩
  rw [List.filterMap_append, List.filterMap_eq_nil_iff.2 none, List.append_nil]

/-- A text that is put on a stack is put there by a step that begins it. -/
theorem exists_pushOutput {before within : List (StackStep TextTree)}
    (h : outputSteps history = before ++ .push t :: within) : ∃ earlier inner,
      history = earlier ++ .pushOutput t :: inner ∧ outputSteps earlier = before ∧
      outputSteps inner = within := by
  obtain ⟨earlier, step, inner, rfl, is, told⟩ := exists_step h
  cases step <;> simp only [Step.onOutputs?, Option.some.injEq, reduceCtorEq, push.injEq] at is
  subst is
  exact ⟨earlier, inner, rfl, told⟩

theorem exists_pushFile {before within : List (StackStep Module)}
    (h : fileSteps history = before ++ .push m :: within) : ∃ earlier inner,
      history = earlier ++ .pushFile m :: inner ∧ fileSteps earlier = before ∧
      fileSteps inner = within := by
  obtain ⟨earlier, step, inner, rfl, is, told⟩ := exists_step h
  cases step <;> simp only [Step.onFiles?, Option.some.injEq, reduceCtorEq, push.injEq] at is
  subst is
  exact ⟨earlier, inner, rfl, told⟩

/-- No module is changed. -/
theorem fileSteps_no_modify (f : Module → Module) : .modify f ∉ fileSteps history := by
  intro mem
  obtain ⟨step, -, is⟩ := List.mem_filterMap.1 mem
  cases step <;> simp [Step.onFiles?] at is

/-- What is on the stacks of a session, and what becomes of it, is traced to the steps that have put
it there. -/
structure Traced (first : Session) (history : List Step) : Prop where
  /-- The texts are what the steps on texts make of them, wherever the session has been meanwhile. -/
  outputs : (first.run history).outputs = first.outputs.run (outputSteps history)
  /-- The modules are what the steps on modules make of them, whatever has been written meanwhile. -/
  files : (first.run history).files = first.files.run (fileSteps history)
  /-- The first text is still there, with what was written while no other was above it. -/
  firstOutput : (first.run history).outputs.toList.getLast?
    = some (changed first.outputs.base (baseChanges 0 (outputSteps history)))
  firstFile : (first.run history).files.toList.getLast? = some first.files.base
  /-- Writing is done to the text on top only. -/
  write : ∀ f, first.run (history ++ [.write f]) = (first.run history).modifyOutput f ∧
    (first.run (history ++ [.write f])).outputs.toList =
      f (first.run history).outputs.top :: (first.run history).outputs.toList.tail
  /-- As long as a text is not returned, those below it are as when it was begun. -/
  output : ∀ earlier t inner changes, history = earlier ++ .pushOutput t :: inner →
    OneLevel (outputSteps inner) changes →
      (first.run history).outputs = (first.run earlier).outputs.push (changed t changes)
  file : ∀ earlier m inner changes, history = earlier ++ .pushFile m :: inner →
    OneLevel (fileSteps inner) changes →
      (first.run history).files = (first.run earlier).files.push m
  /-- If all texts but the first have been returned, the first is refused and nothing happens. Else
  there is a step that began the text on top, and it is returned with all that was written to it. -/
  popOutput :
    (pushes (outputSteps history) = first.outputs.taken (outputSteps history) ∧
      (first.run history).popOutput = .error (.stackFloor first.outputs.name) ∧
      first.run (history ++ [.popOutput]) = first.run history) ∨
    ∃ earlier t inner changes, history = earlier ++ .pushOutput t :: inner ∧
      OneLevel (outputSteps inner) changes ∧
      (first.run history).popOutput = .ok (changed t changes, first.run (history ++ [.popOutput])) ∧
      first.run (history ++ [.popOutput]) =
        { first.run history with outputs := (first.run earlier).outputs }
  popFile :
    (pushes (fileSteps history) = first.files.taken (fileSteps history) ∧
      (first.run history).popFile = .error (.stackFloor first.files.name) ∧
      first.run (history ++ [.popFile]) = first.run history) ∨
    ∃ earlier m inner, history = earlier ++ .pushFile m :: inner ∧
      OneLevel (fileSteps inner) [] ∧
      (first.run history).popFile = .ok (m, first.run (history ++ [.popFile])) ∧
      first.run (history ++ [.popFile]) =
        { first.run history with files := (first.run earlier).files }
  /-- The first text is the result if on both stacks all that was put on was taken off again. -/
  finish : (first.run history).finish =
    if first.files.taken (fileSteps history) < pushes (fileSteps history) then
      .error (.unbalanced first.files.name
        (pushes (fileSteps history) - first.files.taken (fileSteps history) + 1))
    else if first.outputs.taken (outputSteps history) < pushes (outputSteps history) then
      .error (.unbalanced first.outputs.name
        (pushes (outputSteps history) - first.outputs.taken (outputSteps history) + 1))
    else .ok (changed first.outputs.base (baseChanges 0 (outputSteps history)))

variable (g : ModuleGraph) (types : TypeTable) (options : Options)

/-- Whatever is done to a new session, each element of its stacks is traced to its steps. -/
theorem traced_start (history : List Step) : Traced (start g types options) history := by
  have apart (history) : ((start g types options).run history).outputs
      = (Stack.start "output" (.empty 0 options.indent)).run (outputSteps history) :=
    outputs_run _ history
  have apart' (history) : ((start g types options).run history).files
      = (Stack.start "source file" g.entry).run (fileSteps history) := files_run _ history
  have nothing : ∀ f, .modify f ∉ fileSteps history := fileSteps_no_modify
  constructor
  case outputs => exact apart history
  case files => exact apart' history
  case firstOutput => rw [apart, Stack.getLast?_toList, Stack.base_run]; rfl
  case firstFile =>
    rw [apart', Stack.getLast?_toList, Stack.base_run, baseChanges_eq_nil nothing]
    rfl
  case write =>
    intro f
    rw [run_concat]
    exact ⟨rfl, Stack.toList_modifyTop f⟩
  case output =>
    rintro earlier t inner changes rfl level
    rw [apart, apart, outputSteps, List.filterMap_append]
    exact Stack.run_above _ level _
  case file =>
    rintro earlier m inner changes rfl level
    have unchanged : changes = [] := level.changes_eq_nil fileSteps_no_modify
    rw [apart', apart', fileSteps, List.filterMap_append]
    exact (Stack.run_above _ level _).trans (by rw [unchanged]; rfl)
  case popOutput =>
    rw [run_concat]
    rcases Stack.pop_run "output" (.empty 0 options.indent) (outputSteps history) with
      ⟨all, pop⟩ | ⟨before, t, inner, changes, split, level, pop⟩
    · exact .inl ⟨all, popOutput_refuses (apart history ▸ pop)⟩
    · obtain ⟨earlier, since, rfl, rfl, rfl⟩ := exists_pushOutput split
      rw [← apart, ← apart] at pop
      exact .inr ⟨earlier, t, since, changes, rfl, level, popOutput_returns pop⟩
  case popFile =>
    rw [run_concat]
    rcases Stack.pop_run "source file" g.entry (fileSteps history) with
      ⟨all, pop⟩ | ⟨before, m, inner, changes, split, level, pop⟩
    · exact .inl ⟨all, popFile_refuses (apart' history ▸ pop)⟩
    · obtain ⟨earlier, since, rfl, rfl, rfl⟩ := exists_pushFile split
      obtain rfl := level.changes_eq_nil fileSteps_no_modify
      rw [← apart', ← apart'] at pop
      exact .inr ⟨earlier, m, since, rfl, level, popFile_returns pop⟩
  case finish =>
    have files := Stack.finish_run "source file" g.entry (fileSteps history)
    have outputs := Stack.finish_run "output" (.empty 0 options.indent) (outputSteps history)
    rw [← apart'] at files
    rw [← apart] at outputs
    rw [finish, files, outputs]
    split
    next unbalanced => exact (if_pos unbalanced).symm
    next balanced => exact (if_neg balanced).symm

/-- What is written goes to the text on top, though modules are entered meanwhile. -/
example (f h : TextTree → TextTree) : ((start g types options).run
      [.pushOutput t, .write f, .popFile, .pushFile m, .write h]).popOutput.map Prod.fst
    = .ok (h (f t)) := rfl

end Session

end ScriptToGo
