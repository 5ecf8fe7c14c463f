import ChipEight.Proofs.Runner.Restarting

/-!
What a runner does, seen from its machine.  A run is so many ticks with the frame taken
behind each, and a restart is a reset; stopping is nothing.  So a session of a runner
unfolds to one list of operations on its machine, and what holds of every such list holds
of sessions with runs in them.
-/

namespace ChipEight

/-- A number of ticks, and the frame taken behind each.  Taking the frame of a screen that
was not touched changes nothing. -/
def Operation.rounds : Nat → List Operation
  | 0 => []
  | k + 1 => rounds k ++ [.tick, .snapshot]

open Operation (rounds)

theorem Run.Completes.performAll {σ : Type} {observe : Observer σ} {r : Run σ} {k : Nat}
    (h : r.Completes observe k) :
    (r.after observe k).runner.machine = r.runner.machine.performAll (rounds k) := by
  induction k with
  | zero => rfl
  | succ k ih =>
    have hlast : ((r.after observe k).advance observe).1.runner.machine =
        (r.after observe k).runner.machine.tick.machine.shown :=
      machine_advance (h k (Nat.lt_succ_self k)).2
    rw [after, hlast, ih (h.mono (Nat.le_succ k)), rounds, Machine.performAll_append]
    rfl

/-- The operations that a run with this answer comes to on its machine: the ticks it has
completed, and the tick that failed if one did. -/
inductive Machine.RunOperations (m : Machine) : Except Fault Nat → List Operation → Prop
  | returned (k : Nat) : RunOperations m (.ok k) (rounds k)
  | failed (k : Nat) (f : Fault) (survives : m.Survives k) (fails : m.FailsAt k f) :
      RunOperations m (.error f) (rounds k ++ [.tick])

namespace Runner

variable {σ : Type} {r t : Runner} {limit : Option Nat} {observe : Observer σ}
  {seen last : σ} {report : Report σ}

theorem Returns.runOperations (h : r.Returns limit observe seen report) :
    ∃ operations, r.machine.RunOperations report.answer operations ∧
      report.runner.machine = r.machine.performAll operations := by
  cases h.finish with
  | ended k within completes ends =>
    have hcount : ((r.begin seen).after observe k).ticks = k :=
      completes.ticks.trans (Nat.zero_add k)
    have hanswer : (((r.begin seen).after observe k).report .stopped).answer = .ok k :=
      congrArg Except.ok hcount
    exact ⟨rounds k, hanswer ▸ .returned k, completes.performAll⟩
  | failed k within completes f fails =>
    have hcompleted : ((r.begin seen).after observe k).runner.machine =
        r.machine.performAll (rounds k) := completes.performAll
    refine ⟨_, .failed k f completes.survives (completes.failsAt fails), ?_⟩
    change (((r.begin seen).after observe k).advance observe).1.runner.machine = _
    rw [Run.advance_of_fatal fails, Machine.performAll_concat, ← hcompleted]
    rfl

inductive CommandOperations (m : Machine) :
    Command σ → Response → List Operation → Prop
  | operate (o : Operation) (answer : Except Fault Reply) :
      CommandOperations m (.operate o) (.replied answer) [o]
  | stop : CommandOperations m .stop .done []
  | restart (answer : Except Fault Reply) :
      CommandOperations m .restart (.replied answer) [.reset]
  | run {limit : Option Nat} {observe : Observer σ} {answer : Except Fault Nat}
      {operations : List Operation} (frames : Array Grid) (log : Array Event)
      (made : m.RunOperations answer operations) :
      CommandOperations m (.run limit observe) (.ran answer frames log) operations

/-- A session together with the operations that its commands come to, one command after
the other. -/
inductive Unfolds : Runner → σ → List (Command σ) → List Operation → Runner → σ → Prop
  | nil (r : Runner) (seen : σ) : Unfolds r seen [] [] r seen
  | cons {r s t : Runner} {seen next last : σ} {command : Command σ}
      {commands : List (Command σ)} {response : Response} {operations later : List Operation}
      (first : r.Serves seen command s next response)
      (comes : CommandOperations r.machine command response operations)
      (rest : Unfolds s next commands later t last) :
      Unfolds r seen (command :: commands) (operations ++ later) t last

theorem Serves.operations {s : Runner} {next : σ} {command : Command σ} {response : Response}
    (h : r.Serves seen command s next response) :
    ∃ operations, CommandOperations r.machine command response operations ∧
      s.machine = r.machine.performAll operations := by
  cases h with
  | operate o => exact ⟨[o], .operate o _, rfl⟩
  | stop => exact ⟨[], .stop, rfl⟩
  | restart => exact ⟨[.reset], .restart _, rfl⟩
  | run hreturns =>
    obtain ⟨operations, hmade, hmachine⟩ := hreturns.runOperations
    exact ⟨operations, .run _ _ hmade, hmachine⟩

/-- Every session unfolds, and the operations lead its machine where the session does. -/
theorem Session.unfolds {commands : List (Command σ)} {responses : List (Response × Bool)}
    (h : r.Session seen commands responses t last) :
    ∃ operations, r.Unfolds seen commands operations t last ∧
      t.machine = r.machine.performAll operations := by
  induction h with
  | nil r seen => exact ⟨[], .nil r seen, rfl⟩
  | cons first rest ih =>
    obtain ⟨operations, hcomes, hnext⟩ := first.operations
    obtain ⟨later, hrest, hlast⟩ := ih
    refine ⟨operations ++ later, .cons first hcomes hrest, ?_⟩
    rw [Machine.performAll_append, ← hnext, hlast]

theorem mem_rounds {o : Operation} {k : Nat} (h : o ∈ rounds k) : o = .tick ∨ o = .snapshot := by
  induction k with
  | zero => cases h
  | succ k ih =>
    rw [rounds, List.mem_append] at h
    rcases h with h | h
    · exact ih h
    · simpa using h

theorem Unfolds.drawFrom_not_mem {commands : List (Command σ)} {operations : List Operation}
    (h : r.Unfolds seen commands operations t last)
    (hkeeps : ∀ source, Command.operate (.drawFrom source) ∉ commands)
    (source : RandomSource) : .drawFrom source ∉ operations := by
  induction h with
  | nil => exact List.not_mem_nil
  | cons first comes rest ih =>
    rw [List.mem_append, not_or]
    refine ⟨fun hmem => ?_, ih fun source hlater => hkeeps source (List.mem_cons_of_mem _ hlater)⟩
    cases comes with
    | operate o answer =>
      rw [List.mem_singleton] at hmem
      exact hkeeps source (hmem ▸ List.mem_cons_self)
    | stop => cases hmem
    | restart answer => simp at hmem
    | run frames log made =>
      cases made with
      | returned k => rcases mem_rounds hmem with h | h <;> cases h
      | failed k f survives fails =>
        rw [List.mem_append, List.mem_singleton] at hmem
        rcases hmem with hmem | hmem
        · rcases mem_rounds hmem with h | h <;> cases h
        · cases hmem

end Runner

end ChipEight
