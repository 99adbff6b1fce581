import Kisscpp.LogLevels
import Kisscpp.Unwinding

namespace Kisscpp
open TextLines Stepping

def LogEvent.within (group : Nat → Bool) (e : LogEvent) : Bool := !e.names.isEmpty && e.names.all group

-- What the threads do that share a group of streams, and what others do, which
-- is all done to streams of their own and sets no level.
def GroupEvent (group : Nat → Bool) : Type :=
  {e : LogEvent // e.within group = true ∨ e.quiet = true ∧ e.outside group = true}

namespace LogSystem
variable {group : Nat → Bool}

def adds (sys : LogSystem) (e : LogEvent) : List Text := (sys.apply e).pool.kept.drop sys.pool.kept.length

structure Alike (group : Nat → Bool) (s t : LogSystem) : Prop where
  shared : s.lssPerm = t.lssPerm
  own : ∀ key, group key = true → s.streams key = t.streams key

structure Joint (group : Nat → Bool) (s t s' t' : LogSystem) : Prop where
  alike : Alike group s' t'
  called : ∃ calls : List PoolCall,
    s'.pool = calls.foldl LogPool.apply s.pool ∧ t'.pool = calls.foldl LogPool.apply t.pool

theorem Joint.still {s t : LogSystem} (alike : Alike group s t) : Joint group s t s t := ⟨alike,[],rfl,rfl⟩

theorem Joint.trans {s t s' t' s'' t'' : LogSystem} (one : Joint group s t s' t') (two : Joint group s' t' s'' t'') :
    Joint group s t s'' t'' := by
  obtain ⟨calls,first,second⟩ := one.called
  obtain ⟨more,third,fourth⟩ := two.called
  refine ⟨two.alike,calls ++ more,?_,?_⟩
  · rw [third,first,List.foldl_append]
  · rw [fourth,second,List.foldl_append]

theorem Alike.keeps {s t s' : LogSystem} (alike : Alike group s t) (keeps : s.Keeps group s') : Alike group s' t :=
  ⟨keeps.shared.trans alike.shared,fun key inside => (keeps.own key inside).trans (alike.own key inside)⟩

section Alike
variable {s t : LogSystem} (alike : Alike group s t)
include alike

theorem settle_joint (key : Nat) (calls : List PoolCall) (stream : LogStream) :
    Joint group s t (s.settle key calls stream) (t.settle key calls stream) := by
  refine ⟨⟨rfl,fun other inside => ?_⟩,calls,rfl,rfl⟩
  change (if other = key then some stream else s.streams other) = if other = key then some stream else t.streams other
  rw [alike.own other inside]

theorem forget_joint (key : Nat) : Joint group s t (s.forget key) (t.forget key) := by
  refine ⟨⟨alike.shared,fun other inside => ?_⟩,[],rfl,rfl⟩
  change (if other = key then none else s.streams other) = if other = key then none else t.streams other
  rw [alike.own other inside]

theorem fetch_same (stream : LogStream) : s.fetch stream = t.fetch stream := by
  rw [fetch,fetch,alike.shared]

theorem call_joint {key : Nat} (inside : group key = true) (c : LogCall) (moment : LogMoment) :
    Joint group s t (s.call key c moment) (t.call key c moment) := by
  have same := alike.own key inside
  unfold call
  cases live : t.streams key with
  | none =>
    rw [same,live]
    exact .still alike
  | some stream =>
    rw [same,live]
    simp only [fetch_same alike]
    exact settle_joint alike _ _ _

theorem endWrite_joint {key : Nat} (inside : group key = true) (moment : LogMoment) :
    Joint group s t (s.endWrite key moment) (t.endWrite key moment) := by
  have same := alike.own key inside
  unfold endWrite
  cases live : t.streams key with
  | none =>
    rw [same,live]
    exact .still alike
  | some stream =>
    rw [same,live]
    simp only [fetch_same alike]
    exact settle_joint alike _ _ _

theorem destroy_joint {key : Nat} (inside : group key = true) (ending flushing : LogMoment) :
    Joint group s t (s.destroy key ending flushing) (t.destroy key ending flushing) := by
  have ended := endWrite_joint alike inside ending
  have same : (s.endWrite key ending).unwritten key = (t.endWrite key ending).unwritten key := by
    rw [unwritten,unwritten,ended.alike.own key inside]
  simp only [destroy,same]
  split
  · have flushed := call_joint ended.alike inside .flush flushing
    exact ended.trans (flushed.trans (forget_joint flushed.alike key))
  · exact ended.trans (forget_joint ended.alike key)

theorem apply_joint {e : LogEvent} (within : e.within group = true) : Joint group s t (s.apply e) (t.apply e) := by
  obtain ⟨filled,all⟩ := Bool.and_eq_true_iff.mp within
  have inside : ∀ key ∈ e.names, group key = true := List.all_eq_true.mp all
  cases e with
  | construct key opening file moment =>
    simp only [apply,construct,alike.shared]
    exact settle_joint alike _ _ _
  | copy key other moment =>
    have same := alike.own other (inside other (List.mem_cons_of_mem _ List.mem_cons_self))
    simp only [apply,copy,same,alike.shared]
    cases t.streams other with
    | none => exact .still alike
    | some o => exact settle_joint alike _ _ _
  | assign key other =>
    have target := alike.own key (inside key List.mem_cons_self)
    have same := alike.own other (inside other (List.mem_cons_of_mem _ List.mem_cons_self))
    simp only [apply,assign,target,same,fetch_same alike]
    split
    · exact settle_joint alike _ _ _
    · exact .still alike
  | call key c moment => exact call_joint alike (inside key List.mem_cons_self) c moment
  | setLevel key manip =>
    have same := alike.own key (inside key List.mem_cons_self)
    simp only [apply,setLevel,same,fetch_same alike]
    cases t.streams key with
    | none => exact .still alike
    | some stream => exact settle_joint alike _ _ _
  | destroy key ending flushing => exact destroy_joint alike (inside key List.mem_cons_self) ending flushing
  | set2ReOpen => cases filled
  | setOutFilePath path => cases filled
  | setLog2consoleFlag b => cases filled
  | setMaxBufferSize i => cases filled

end Alike

theorem called_adds {s s' : LogSystem} {calls : List PoolCall} (called : s'.pool = calls.foldl LogPool.apply s.pool) :
    s'.pool.kept = s.pool.kept ++ calls.flatMap PoolCall.accepted := by
  rw [called,LogPool.calls_kept]

theorem joint_adds {s t : LogSystem} {e : LogEvent} (joint : Joint group s t (s.apply e) (t.apply e)) :
    s.adds e = t.adds e := by
  obtain ⟨calls,first,second⟩ := joint.called
  rw [adds,adds,called_adds first,called_adds second,List.drop_left,List.drop_left]

theorem apply_called (sys : LogSystem) (e : LogEvent) : ∃ calls : List PoolCall, (sys.apply e).pool =
    calls.foldl LogPool.apply sys.pool := by
  by_cases filled : e.names.isEmpty = true
  · cases e with
    | set2ReOpen => exact ⟨[.set2ReOpen],rfl⟩
    | setOutFilePath path => exact ⟨[.setOutFilePath path],rfl⟩
    | setLog2consoleFlag b => exact ⟨[.setLog2consoleFlag b],rfl⟩
    | setMaxBufferSize i => exact ⟨[.setMaxBufferSize i],rfl⟩
    | _ => cases filled
  · -- To the group of all streams every other event is one of its own.
    have within : e.within (fun _ => true) = true := by simpa [LogEvent.within] using filled
    have joint := apply_joint (⟨rfl,fun _ _ => rfl⟩ : Alike (fun _ => true) sys sys) within
    obtain ⟨calls,called,_⟩ := joint.called
    exact ⟨calls,called⟩

theorem apply_adds (sys : LogSystem) (e : LogEvent) : (sys.apply e).pool.kept = sys.pool.kept ++ sys.adds e := by
  obtain ⟨calls,called⟩ := apply_called sys e
  rw [adds,called_adds called,List.drop_left]

end LogSystem

def logThreads (group : Nat → Bool) : Machine LogSystem (GroupEvent group) (List Text) where
  step sys e := (sys.adds e.val,sys.apply e.val)

theorem run_adds (group : Nat → Bool) (sys : LogSystem) (events : List (GroupEvent group)) :
    ((logThreads group).run sys events).2.pool.kept =
      sys.pool.kept ++ ((logThreads group).run sys events).1.flatten := by
  induction events generalizing sys with
  | nil => exact (List.append_nil _).symm
  | cons e rest ih =>
    rw [run_cons,ih,List.flatten_cons,← List.append_assoc]
    exact congrArg (· ++ _) (sys.apply_adds e.val)

def groupAlone (group : Nat → Bool) : Unwinding (logThreads group) (logThreads group) where
  related := LogSystem.Alike group
  sees := Option.guard fun e => e.val.within group
  hears := id
  answered s t e k alike seen := by
    obtain ⟨rfl,within⟩ := Option.guard_eq_some_iff.mp seen
    exact LogSystem.joint_adds (LogSystem.apply_joint alike within)
  followed s t e k alike seen := by
    obtain ⟨rfl,within⟩ := Option.guard_eq_some_iff.mp seen
    exact (LogSystem.apply_joint alike within).alike
  unseen s t e alike unseen := by
    have without := Option.guard_eq_none_iff.mp unseen
    rcases e.property with within | ⟨quiet,outside⟩
    · exact absurd within (by simpa using without)
    · exact alike.keeps (s.apply_keeps quiet outside)

-- The log, in its files and then in the pool, is what the events add to it, in
-- their order; and what a group of threads adds is to the letter what it would
-- add if the others were not there.
theorem threads_log (group : Nat → Bool) (sys : LogSystem) (events : List (GroupEvent group)) :
    let run := (logThreads group).run sys events
    let alone := (logThreads group).run sys (events.filter fun e => e.val.within group)
    run.2.pool.kept = sys.pool.kept ++ run.1.flatten ∧ alone.2.pool.kept = sys.pool.kept ++ alone.1.flatten ∧
      ((events.zip run.1).filter fun e => e.1.val.within group).map Prod.snd = alone.1 := by
  refine ⟨run_adds group sys events,run_adds group sys _,?_⟩
  have same : LogSystem.Alike group sys sys := ⟨rfl,fun _ _ => rfl⟩
  obtain ⟨heard,_⟩ := (groupAlone group).run same events
  have taken : events.filterMap (groupAlone group).sees = events.filter fun e => e.val.within group :=
    congrFun List.filterMap_eq_filter events
  rwa [(groupAlone group).heard_guard rfl rfl,taken] at heard

end Kisscpp
