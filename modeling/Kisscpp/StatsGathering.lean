import Mathlib.Algebra.BigOperators.Group.List.Basic
import Mathlib.Algebra.Group.Basic
import Kisscpp.Machine
import Kisscpp.StatsHistory

namespace Kisscpp
open TextLines Stepping

-- Where the thread that gathers stands: it sleeps, it is about to push the
-- value of an id or to set it to zero, to push the size of a queue, or to trim
-- a history. An iterator that is moved on is moved with the statement before.
inductive Cursor where
  | asleep
  | push (id : Text)
  | zero (id : Text)
  | queue (id : Text)
  | trim (id : Text)
  deriving DecidableEq

inductive CounterCall (ν Q : Type*) where
  | setStatValue (id : Text) (value : ν)
  | increment (id : Text) (value : ν)
  | decrement (id : Text) (value : ν)
  | addStatableQueue (id : Text) (ssq : Q)

-- A report reads the clock, and so does a round, which asks the queues as well.
inductive GatheringEvent (ν Q : Type*) where
  | call (c : CounterCall ν Q)
  | report (uptime : ν) (size : Q → ν)
  | turn (uptime : ν) (size : Q → ν)

def CounterCall.call {ν Q : Type*} : CounterCall ν Q → StatsCall ν Q
  | .setStatValue id value => .setStatValue id value
  | .increment id value => .increment id value
  | .decrement id value => .decrement id value
  | .addStatableQueue id ssq => .addStatableQueue id ssq

def CounterCall.counter {ν Q : Type*} : CounterCall ν Q → Option Text
  | .setStatValue id _ | .increment id _ | .decrement id _ => some id
  | .addStatableQueue _ _ => none

-- What a step does to a counter: how much it changes it, or what it gathers of
-- it. A change is lost if the thread has read the value and not yet put it to
-- zero.
inductive StatsNote (ν : Type*) where
  | changed (id : Text) (difference : ν) (lost : Bool)
  | gathered (id : Text) (value : ν)

structure StatsThread (ν Q : Type*) where
  keeper : StatsKeeper ν Q
  cursor : Cursor

namespace StatsKeeper
variable {ν Q : Type*}

def counter [Zero ν] (k : StatsKeeper ν Q) (id : Text) : ν := (k.statsMap.find id).getD 0

-- The loops of gatherStats, each with what follows where it has nothing to do.
def enterTrims (k : StatsKeeper ν Q) : Cursor :=
  match k.gatheredStatsMap.first with
  | some id => .trim id
  | none => .asleep

def enterQueues (k : StatsKeeper ν Q) : Cursor :=
  match k.queueStatsMap.first with
  | some id => .queue id
  | none => k.enterTrims

def enterStats (k : StatsKeeper ν Q) : Cursor :=
  match k.statsMap.first with
  | some id => .push id
  | none => k.enterQueues

end StatsKeeper

namespace StatsThread
variable {ν Q : Type*} [AddGroup ν]

def turn (uptime : ν) (size : Q → ν) (s : StatsThread ν Q) : StatsThread ν Q :=
  let k := s.keeper
  match s.cursor with
  | .asleep =>
    let k := {k with statsMap := k.statsMap.put StatsKeeper.uptimeId uptime}
    ⟨k,k.enterStats⟩
  | .push id => ⟨{k with gatheredStatsMap := StatsKeeper.pushFront k.gatheredStatsMap (id,k.counter id)},.zero id⟩
  | .zero id =>
    let k := {k with statsMap := k.statsMap.put id 0}
    ⟨k,match k.statsMap.next id with
      | some id => .push id
      | none => k.enterQueues⟩
  | .queue id =>
    let k := match k.queueStatsMap.find id with
      | some ssq => {k with gatheredStatsMap := StatsKeeper.pushFront k.gatheredStatsMap (id,size ssq)}
      | none => k
    ⟨k,match k.queueStatsMap.next id with
      | some id => .queue id
      | none => k.enterTrims⟩
  | .trim id =>
    let history := StatsKeeper.trim k.historyLength ((k.gatheredStatsMap.find id).getD [])
    let k := {k with gatheredStatsMap := k.gatheredStatsMap.put id history}
    ⟨k,match k.gatheredStatsMap.next id with
      | some id => .trim id
      | none => .asleep⟩

def change (id : Text) (s : StatsThread ν Q) (after : StatsKeeper ν Q) (lost : Bool) : StatsNote ν :=
  .changed id (after.counter id - s.keeper.counter id) lost

def step (s : StatsThread ν Q) : GatheringEvent ν Q → Option (StatsNote ν) × StatsThread ν Q
  | .call c =>
    let after := s.keeper.apply c.call
    (c.counter.map fun id => s.change id after (s.cursor == .zero id),{s with keeper := after})
  | .report uptime size =>
    let after := (s.keeper.getCurrentStats uptime size).2
    (some (s.change StatsKeeper.uptimeId after (s.cursor == .zero StatsKeeper.uptimeId)),{s with keeper := after})
  | .turn uptime size =>
    let after := s.turn uptime size
    (match s.cursor with
      | .asleep => some (s.change StatsKeeper.uptimeId after.keeper false)
      | .push id => some (.gathered id (s.keeper.counter id))
      | _ => none,after)

end StatsThread

def gatherStats {ν Q : Type*} [AddGroup ν] : Machine (StatsThread ν Q) (GatheringEvent ν Q) (Option (StatsNote ν)) where
  step s event := s.step event

namespace StatsKeeper
variable {ν Q : Type*}

theorem enterTrims_zero (k : StatsKeeper ν Q) (id : Text) : k.enterTrims ≠ .zero id := by
  unfold enterTrims
  split <;> nofun

theorem enterQueues_zero (k : StatsKeeper ν Q) (id : Text) : k.enterQueues ≠ .zero id := by
  unfold enterQueues
  split
  · nofun
  · exact k.enterTrims_zero id

theorem enterStats_zero (k : StatsKeeper ν Q) (id : Text) : k.enterStats ≠ .zero id := by
  unfold enterStats
  split
  · nofun
  · exact k.enterQueues_zero id

theorem apply_cases [AddGroup ν] (k : StatsKeeper ν Q) (c : CounterCall ν Q) :
    (∃ own value, c.counter = some own ∧ k.apply c.call = {k with statsMap := k.statsMap.put own value}) ∨
    ∃ own ssq, c = .addStatableQueue own ssq ∧
      k.apply c.call = {k with queueStatsMap := k.queueStatsMap.put own ssq} := by
  cases c with
  | setStatValue own value => exact .inl ⟨own,value,rfl,rfl⟩
  | increment own value =>
    simp only [CounterCall.call,apply,increment]
    cases k.statsMap.find own with
    | some old => exact .inl ⟨own,old + value,rfl,rfl⟩
    | none => exact .inl ⟨own,value,rfl,rfl⟩
  | decrement own value =>
    simp only [CounterCall.call,apply,decrement]
    cases k.statsMap.find own with
    | some old => exact .inl ⟨own,old - value,rfl,rfl⟩
    | none => exact .inl ⟨own,0 - value,rfl,rfl⟩
  | addStatableQueue own ssq => exact .inr ⟨own,ssq,rfl,rfl⟩

theorem apply_counter [AddGroup ν] (k : StatsKeeper ν Q) {c : CounterCall ν Q} {id : Text}
    (other : c.counter ≠ some id) : (k.apply c.call).statsMap.find id = k.statsMap.find id := by
  rcases k.apply_cases c with ⟨own,value,here,applied⟩ | ⟨own,ssq,_,applied⟩
  · have apart : id ≠ own := by
      rintro rfl
      exact other here
    rw [applied]
    exact OrderedMap.find_put_ne apart value _
  · rw [applied]

end StatsKeeper

section Accounts
variable {ν Q : Type*} [AddCommGroup ν]

-- Of one id: what a step changes, what of it is lost, and what it gathers.
def StatsNote.changes (id : Text) : StatsNote ν → ν
  | .changed other difference _ => if other = id then difference else 0
  | .gathered _ _ => 0

def StatsNote.loses (id : Text) : StatsNote ν → ν
  | .changed other difference lost => if other = id ∧ lost = true then difference else 0
  | .gathered _ _ => 0

def StatsNote.gathers (id : Text) : StatsNote ν → ν
  | .changed _ _ _ => 0
  | .gathered other value => if other = id then value else 0

def summed (part : StatsNote ν → ν) (notes : List (Option (StatsNote ν))) : ν :=
  (notes.map fun note => note.elim 0 part).sum

-- What a counter still has to give: nothing once it is read, until it starts
-- again at zero.
def StatsThread.held (id : Text) (s : StatsThread ν Q) : ν := if s.cursor = .zero id then 0 else s.keeper.counter id

theorem held_read {id : Text} {s : StatsThread ν Q} (unread : s.cursor ≠ .zero id) : s.held id = s.keeper.counter id :=
  if_neg unread

def Balanced (id : Text) (s : StatsThread ν Q) (note : Option (StatsNote ν)) (after : StatsThread ν Q) : Prop :=
  s.held id + note.elim 0 (StatsNote.changes id) =
    note.elim 0 (StatsNote.gathers id) + after.held id + note.elim 0 (StatsNote.loses id)

theorem changed_balanced {id own : Text} {s : StatsThread ν Q} {after : StatsKeeper ν Q}
    (others : ∀ other, other ≠ own → after.counter other = s.keeper.counter other) :
    Balanced id s (some (s.change own after (s.cursor == .zero own))) ⟨after,s.cursor⟩ := by
  unfold Balanced StatsThread.held StatsThread.change
  by_cases same : own = id
  · subst same
    by_cases lost : s.cursor = .zero own
    · simp [StatsNote.changes,StatsNote.gathers,StatsNote.loses,lost]
    · simp [StatsNote.changes,StatsNote.gathers,StatsNote.loses,lost]
  · simp [StatsNote.changes,StatsNote.gathers,StatsNote.loses,same,others id (Ne.symm same)]

theorem quiet_balanced {id : Text} {s after : StatsThread ν Q} (same : after.held id = s.held id) :
    Balanced id s none after := by
  unfold Balanced
  simp [same]

theorem step_balanced (id : Text) (s : StatsThread ν Q) (event : GatheringEvent ν Q) :
    Balanced id s (s.step event).1 (s.step event).2 := by
  cases event with
  | call c =>
    simp only [StatsThread.step]
    cases changes : c.counter with
    | none =>
      refine quiet_balanced ?_
      have same : (s.keeper.apply c.call).statsMap.find id = s.keeper.statsMap.find id :=
        s.keeper.apply_counter (by rw [changes]; nofun)
      simp only [StatsThread.held,StatsKeeper.counter,same]
    | some own =>
      refine changed_balanced fun other different => ?_
      have apart : c.counter ≠ some other := by
        rw [changes]
        exact fun equal => different (Option.some.inj equal).symm
      have same := s.keeper.apply_counter apart
      rw [StatsKeeper.counter,same,StatsKeeper.counter]
  | report uptime size =>
    refine changed_balanced fun other different => ?_
    simp only [StatsKeeper.counter,StatsKeeper.getCurrentStats,OrderedMap.find_put_ne different]
  | turn uptime size =>
    obtain ⟨k,cursor⟩ := s
    cases cursor with
    | asleep =>
      have awake := StatsKeeper.enterStats_zero {k with statsMap := k.statsMap.put StatsKeeper.uptimeId uptime} id
      have after : (StatsThread.turn uptime size ⟨k,.asleep⟩).held id =
          ((k.statsMap.put StatsKeeper.uptimeId uptime).find id).getD 0 := held_read awake
      have before : (⟨k,.asleep⟩ : StatsThread ν Q).held id = (k.statsMap.find id).getD 0 := held_read nofun
      rw [Balanced,before]
      simp only [StatsThread.step,after,StatsThread.change]
      by_cases same : StatsKeeper.uptimeId = id
      · subst same
        simp [StatsNote.changes,StatsNote.gathers,StatsNote.loses,StatsThread.turn,StatsKeeper.counter]
      · simp [StatsNote.changes,StatsNote.gathers,StatsNote.loses,same,OrderedMap.find_put_ne (Ne.symm same)]
    | push own =>
      have before : (⟨k,.push own⟩ : StatsThread ν Q).held id = k.counter id := held_read nofun
      rw [Balanced,before]
      by_cases same : own = id
      · subst same
        simp [StatsThread.held,StatsThread.step,StatsThread.turn,StatsNote.changes,StatsNote.gathers,StatsNote.loses]
      · simp [StatsThread.held,StatsThread.step,StatsThread.turn,StatsNote.changes,StatsNote.gathers,StatsNote.loses,
          same,StatsKeeper.counter]
    | zero own =>
      have moved : (StatsThread.turn uptime size ⟨k,.zero own⟩).cursor ≠ .zero id := by
        simp only [StatsThread.turn]
        split
        · nofun
        · exact StatsKeeper.enterQueues_zero _ id
      have after : (StatsThread.turn uptime size ⟨k,.zero own⟩).held id = ((k.statsMap.put own 0).find id).getD 0 :=
        held_read moved
      refine quiet_balanced (after.trans ?_)
      by_cases same : own = id
      · subst same
        simp [StatsThread.held]
      · rw [OrderedMap.find_put_ne (Ne.symm same),held_read (by simpa using same),StatsKeeper.counter]
    | queue own =>
      have moved : (StatsThread.turn uptime size ⟨k,.queue own⟩).cursor ≠ .zero id := by
        simp only [StatsThread.turn]
        split
        · nofun
        · exact StatsKeeper.enterTrims_zero _ id
      have same : (StatsThread.turn uptime size ⟨k,.queue own⟩).keeper.statsMap = k.statsMap := by
        simp only [StatsThread.turn]
        split <;> rfl
      have before : (⟨k,.queue own⟩ : StatsThread ν Q).held id = k.counter id := held_read nofun
      refine quiet_balanced ((held_read moved).trans ?_)
      rw [before,StatsKeeper.counter,StatsKeeper.counter,← same]
    | trim own =>
      have moved : (StatsThread.turn uptime size ⟨k,.trim own⟩).cursor ≠ .zero id := by
        simp only [StatsThread.turn]
        split <;> nofun
      exact quiet_balanced ((held_read moved).trans (held_read (s := ⟨k,.trim own⟩) nofun).symm)

theorem balance_trans {before between after changed more gathered further lost gone : ν}
    (one : before + changed = gathered + between + lost) (two : between + more = further + after + gone) :
    before + (changed + more) = gathered + further + after + (lost + gone) :=
  calc before + (changed + more)
      = gathered + between + lost + more := by rw [← add_assoc,one]
    _ = gathered + (between + more) + lost := by rw [add_right_comm,add_assoc gathered]
    _ = gathered + (further + after + gone) + lost := by rw [two]
    _ = gathered + further + after + (lost + gone) := by rw [add_comm lost gone]; simp only [add_assoc]

-- Whatever the threads do between the statements of a round, a counter is
-- accounted for: what it had, and what it was changed by, is what was gathered
-- of it, what it has, and what was lost between reading it and setting it to
-- zero.
theorem counts_accounted (id : Text) (s : StatsThread ν Q) (events : List (GatheringEvent ν Q)) :
    let run := gatherStats.run s events
    s.held id + summed (StatsNote.changes id) run.1 =
      summed (StatsNote.gathers id) run.1 + run.2.held id + summed (StatsNote.loses id) run.1 := by
  induction events generalizing s with
  | nil => simp [summed]
  | cons event rest ih => exact balance_trans (step_balanced id s event) (ih (s.step event).2)

end Accounts
end Kisscpp
