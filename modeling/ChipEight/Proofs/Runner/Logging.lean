import ChipEight.Proofs.Faults
import ChipEight.Proofs.Runner.Course

/-!
The log of a run.  Every tick writes its own lines: one for the word it read, if it read one,
and one for its fault, if it failed.  Behind them stands the number of ticks if the run
returned one.  What a tick writes is said of the machine that is ticked alone, so the lines of
a run are those of the bare ticks, and as only a fatal tick can find no word, the traces of a
run count its ticks.
-/

namespace ChipEight

namespace Event

abbrev Entry := Level × String

def entry (e : Event) : Entry :=
  (e.level, e.message)

def entries (log : Array Event) : List Entry :=
  log.toList.map entry

def traces (log : List Entry) : List String :=
  log.filterMap fun e => if e.1 = .trace then some e.2 else none

theorem traces_append (first second : List Entry) :
    traces (first ++ second) = traces first ++ traces second :=
  List.filterMap_append

end Event

open Event (Entry traces)

namespace Machine

variable {m n : Machine} {words : List UInt16} {log : List Entry} {k : Nat}

/-! ### The lines of a tick -/

def traceText (m : Machine) (w : UInt16) : String :=
  Hex.marked 3 m.pc ++ " " ++ Hex.upper 4 w.toNat ++ " " ++ (Instruction.decode w).mnemonic

/-- The line for the word that the next tick reads. -/
def wordEntries (m : Machine) : List Entry :=
  match m.fetch with
  | .ok w => [(.trace, m.traceText w)]
  | .error _ => []

/-- The line for the fault of the next tick.  An undefined word is only warned of. -/
def faultEntries (m : Machine) : List Entry :=
  match m.tick.answer with
  | .ok _ => []
  | .error (.undefinedWord w a) => [(.warn, (Fault.undefinedWord w a).message)]
  | .error f => [(.error, f.message)]

/-- The lines of the first `k` ticks, one tick after the other. -/
def entries (m : Machine) (k : Nat) : List Entry :=
  (List.range k).flatMap fun j => (m.afterTicks j).wordEntries ++ (m.afterTicks j).faultEntries

theorem entries_succ (m : Machine) (k : Nat) :
    m.entries (k + 1) =
      m.entries k ++ ((m.afterTicks k).wordEntries ++ (m.afterTicks k).faultEntries) := by
  rw [entries, List.range_succ, List.flatMap_append, List.flatMap_singleton, entries]

theorem entry_tickEvents (m : Machine) :
    m.tickEvents.map Event.entry = m.wordEntries ++ m.faultEntries := by
  have hword : m.stepEvents.map Event.entry = m.wordEntries := by
    rw [stepEvents, wordEntries]
    cases m.fetch <;> rfl
  rw [tickEvents, List.map_append, hword, faultEntries]
  congr 1
  cases m.tick.answer with
  | ok _ => rfl
  | error f => cases f <;> rfl

theorem tickEvents_congr (h : m.shown = n.shown) : m.tickEvents = n.tickEvents := by
  have hword : m.stepEvents = n.stepEvents := by
    change m.shown.stepEvents = n.shown.stepEvents
    rw [h]
  rw [tickEvents, tickEvents, hword, (tick_congr h).1]

theorem wordEntries_of_fetch {w : UInt16} (h : m.fetch = .ok w) :
    m.wordEntries = [(.trace, m.traceText w)] := by
  rw [wordEntries, h]

theorem traces_faultEntries (m : Machine) : traces m.faultEntries = [] := by
  rw [faultEntries]
  split <;> rfl

/-! ### The words of several ticks -/

theorem fatal?_of_fetch_error {f : Fault} (h : m.fetch = .error f) : m.fatal? = some f := by
  have hanswer : m.tick.answer = .error f := congrArg Outcome.answer (step_of_fetch_error h)
  refine fatal?_eq_some_iff.2 ⟨hanswer, ?_⟩
  rw [fetch, Memory.word_eq] at h
  split at h
  · obtain rfl := Except.error.inj h
    rfl
  · cases h

theorem fetch_of_survived (h : m.fatal? = none) : ∃ w, m.fetch = .ok w := by
  cases hfetch : m.fetch with
  | ok w => exact ⟨w, rfl⟩
  | error f =>
    rw [fatal?_of_fetch_error hfetch] at h
    cases h

/-- The traces of a log are those of these words, which the machine reads in its first
ticks, one in each. -/
structure Traces (m : Machine) (words : List UInt16) (log : List Entry) : Prop where
  read : ∀ j (hj : j < words.length), (m.afterTicks j).fetch = .ok words[j]
  texts : traces log = words.mapIdx fun j w => (m.afterTicks j).traceText w

theorem Traces.append {more : List Entry} (h : m.Traces words log) (hmore : traces more = []) :
    m.Traces words (log ++ more) where
  read := h.read
  texts := by rw [Event.traces_append, hmore, List.append_nil, h.texts]

theorem Traces.concat {w : UInt16} (h : m.Traces words log)
    (hfetch : (m.afterTicks words.length).fetch = .ok w) :
    m.Traces (words ++ [w]) (log ++ (m.afterTicks words.length).wordEntries) where
  read j hj := by
    rcases Nat.lt_or_ge j words.length with hlt | hge
    · rw [List.getElem_append_left hlt]
      exact h.read j hlt
    · have hj' : j < words.length + 1 := by simpa using hj
      obtain rfl : j = words.length := Nat.le_antisymm (Nat.le_of_lt_succ hj') hge
      rw [List.getElem_concat_length rfl]
      exact hfetch
  texts := by
    rw [Event.traces_append, h.texts, wordEntries_of_fetch hfetch, List.mapIdx_concat]
    rfl

theorem Survives.traces (h : m.Survives k) :
    ∃ words, words.length = k ∧ m.Traces words (m.entries k) := by
  induction k with
  | zero => exact ⟨[], rfl, ⟨fun j hj => absurd hj (Nat.not_lt_zero j), rfl⟩⟩
  | succ k ih =>
    obtain ⟨words, rfl, htraces⟩ := ih fun j hj => h j (Nat.lt_succ_of_lt hj)
    obtain ⟨w, hw⟩ := fetch_of_survived (survives_iff.1 h words.length (Nat.lt_succ_self _))
    refine ⟨words ++ [w], by simp, ?_⟩
    rw [entries_succ, ← List.append_assoc]
    exact (htraces.concat hw).append (traces_faultEntries _)

end Machine

/-! ### The log of a run -/

namespace Run

variable {σ : Type} {observe : Observer σ} {r : Run σ} {k : Nat}

theorem log_advance (r : Run σ) (observe : Observer σ) :
    (r.advance observe).1.log = r.log ++ r.runner.machine.tickEvents := by
  cases h : r.runner.machine.fatal? with
  | some f => rw [advance_of_fatal h, note]
  | none =>
    rw [advance_of_none h, complete, present]
    dsimp only
    split <;> rfl

/-- The next tick of a run, fatal or not, writes what it would write if the machine were
ticked alone. -/
theorem Completes.entries_succ (h : r.Completes observe k) :
    Event.entries (r.after observe (k + 1)).log =
      Event.entries (r.after observe k).log ++
        ((r.runner.machine.afterTicks k).wordEntries ++
          (r.runner.machine.afterTicks k).faultEntries) := by
  rw [after, log_advance, Event.entries, Array.toList_appendList, List.map_append,
    Machine.tickEvents_congr h.machine, Machine.entry_tickEvents, Event.entries]

theorem Completes.entries (hbegin : r.log = #[]) (h : r.Completes observe k) :
    Event.entries (r.after observe k).log = r.runner.machine.entries k := by
  induction k with
  | zero =>
    rw [after, hbegin]
    rfl
  | succ k ih =>
    have hearlier := h.mono (Nat.le_succ k)
    rw [hearlier.entries_succ, ih hearlier, Machine.entries_succ]

end Run

namespace Runner

variable {σ : Type}

end Runner

end ChipEight
