import Kisscpp.LogPool
import Kisscpp.LogStream

namespace Kisscpp
open TextLines Stepping

-- All streams of a process by number, with what they share. The settings and
-- the lines inside a stream are those of its latest call.
structure LogSystem where
  lssPerm : LogStreamSettings
  pool : LogPool
  streams : Nat → Option LogStream

structure LogMoment where
  now : Text
  attempt : OpenAttempt

structure LogFile where
  path : Text
  log2console : Bool
  i : UInt32

inductive LogEvent where
  | construct (key : Nat) (opening : LogOpening) (file : LogFile) (moment : LogMoment)
  | copy (key other : Nat) (moment : LogMoment)
  | assign (key other : Nat)
  | call (key : Nat) (c : LogCall) (moment : LogMoment)
  | setLevel (key : Nat) (manip : Manip)
  | destroy (key : Nat) (ending flushing : LogMoment)
  | set2ReOpen
  | setOutFilePath (path : Text)
  | setLog2consoleFlag (b : Bool)
  | setMaxBufferSize (i : UInt32)

namespace LogStream

def endWrite (s : LogStream) : LogStream :=
  if s.lssPerm.messageType.value ≤ LogType.debug.value ∧ s.lssPerm.severity.value ≤ LogSeverity.low.value then
    s.lockedWrite ("- [".toList ++ s.getSource ++ [']'])
  else s

-- A copy shares the settings of a line, not its text.
def copied (lssPerm : LogStreamSettings) (o : LogStream) : LogStream :=
  {blank lssPerm with lssTemp := o.lssTemp}.startWrite

end LogStream

namespace LogSystem

def fresh : LogSystem := ⟨{},.fresh,fun _ => none⟩

def fetch (sys : LogSystem) (s : LogStream) : LogStream := {s with lssPerm := sys.lssPerm,handed := []}

def handOver (moment : LogMoment) (s : LogStream) : List PoolCall :=
  s.handed.map fun line => PoolCall.lockedWrite moment.attempt (moment.now ++ ' ' :: line)

def settle (sys : LogSystem) (key : Nat) (calls : List PoolCall) (s : LogStream) : LogSystem where
  lssPerm := s.lssPerm
  pool := calls.foldl LogPool.apply sys.pool
  streams other := if other = key then some s else sys.streams other

def fileCalls (file : LogFile) : LogOpening → List PoolCall
  | .logFile _ => [.setLog2consoleFlag file.log2console,.setOutFilePath file.path,.setMaxBufferSize file.i]
  | _ => []

-- do_write sets the flag before it writes.
def flagCalls : LogCall → List PoolCall
  | .flush => [.setDoFlush true]
  | .endl => [.setDoFlush false]
  | _ => []

def construct (sys : LogSystem) (key : Nat) (opening : LogOpening) (file : LogFile) (moment : LogMoment) : LogSystem :=
  let s := LogStream.construct sys.lssPerm opening
  sys.settle key (.setDoFlush false :: fileCalls file opening ++ handOver moment s) s

def copy (sys : LogSystem) (key other : Nat) (moment : LogMoment) : LogSystem :=
  match sys.streams other with
  | some o =>
    let s := LogStream.copied sys.lssPerm o
    sys.settle key (.setDoFlush false :: handOver moment s) s
  | none => sys

def assign (sys : LogSystem) (key other : Nat) : LogSystem :=
  match sys.streams key,sys.streams other with
  | some s,some o => sys.settle key [] {sys.fetch s with lssTemp := o.lssTemp}
  | _,_ => sys

def setLevel (sys : LogSystem) (key : Nat) (manip : Manip) : LogSystem :=
  match sys.streams key with
  | some s => sys.settle key [] (manip.apply true (sys.fetch s))
  | none => sys

def call (sys : LogSystem) (key : Nat) (c : LogCall) (moment : LogMoment) : LogSystem :=
  match sys.streams key with
  | some s =>
    let s := (sys.fetch s).call c
    sys.settle key (flagCalls c ++ handOver moment s) s
  | none => sys

def endWrite (sys : LogSystem) (key : Nat) (moment : LogMoment) : LogSystem :=
  match sys.streams key with
  | some s =>
    let s := (sys.fetch s).endWrite
    sys.settle key (handOver moment s) s
  | none => sys

def unwritten (sys : LogSystem) (key : Nat) : Bool := (sys.streams key).any fun s => !s.mBuf.isEmpty

def forget (sys : LogSystem) (key : Nat) : LogSystem :=
  {sys with streams := fun other => if other = key then none else sys.streams other}

def destroy (sys : LogSystem) (key : Nat) (ending flushing : LogMoment) : LogSystem :=
  let ended := sys.endWrite key ending
  (if ended.unwritten key then ended.call key .flush flushing else ended).forget key

def share (sys : LogSystem) (c : PoolCall) : LogSystem := {sys with pool := sys.pool.apply c}

def apply (sys : LogSystem) : LogEvent → LogSystem
  | .construct key opening file moment => sys.construct key opening file moment
  | .copy key other moment => sys.copy key other moment
  | .assign key other => sys.assign key other
  | .call key c moment => sys.call key c moment
  | .setLevel key manip => sys.setLevel key manip
  | .destroy key ending flushing => sys.destroy key ending flushing
  | .set2ReOpen => sys.share .set2ReOpen
  | .setOutFilePath path => sys.share (.setOutFilePath path)
  | .setLog2consoleFlag b => sys.share (.setLog2consoleFlag b)
  | .setMaxBufferSize i => sys.share (.setMaxBufferSize i)

end LogSystem

def logSystem : Machine LogSystem LogEvent Unit where
  step sys event := ((),sys.apply event)

namespace LogSystem

def Done (sys : LogSystem) (key : Nat) (moment : LogMoment) : Prop :=
  ∀ s, sys.streams key = some s → sys.pool.Writable moment.attempt →
    (∀ flushed, (sys.call key .flush moment).streams key = some flushed → flushed.mBuf = []) ∧
    (sys.call key .flush moment).pool.stringPool = [] ∧ sys.pool.kept <+: (sys.call key .flush moment).pool.lines

def Due (sys : LogSystem) (key : Nat) (moment : LogMoment) : Prop :=
  ∀ s, sys.streams key = some s → sys.pool.Writable moment.attempt →
    sys.pool.stringPool = [] ∨ sys.lssPerm.level.number ≤ s.lssTemp.level.number

def AtFlush (property : LogSystem → Nat → LogMoment → Prop) (sys : LogSystem) : LogEvent → Prop
  | .call key .flush moment => property sys key moment
  | .destroy key ending flushing =>
    (sys.endWrite key ending).unwritten key = true → property (sys.endWrite key ending) key flushing
  | _ => True

theorem flush_handed (sys : LogSystem) (s : LogStream) : ((sys.fetch s).call .flush).handed =
    if sys.lssPerm.level.number ≤ s.lssTemp.level.number then
      ((sys.fetch s).lockedWrite (": ".toList ++ s.mBuf)).handed else [] := by
  rw [line_handed _ rfl,write_handed]
  rfl

theorem done_due (sys : LogSystem) (key : Nat) (moment : LogMoment) : sys.Done key moment ↔ sys.Due key moment := by
  unfold Done Due
  refine forall_congr' fun s => forall_congr' fun live => forall_congr' fun writable => ?_
  have called : sys.call key .flush moment = sys.settle key
      (.setDoFlush true :: handOver moment ((sys.fetch s).call .flush)) ((sys.fetch s).call .flush) := by
    simp only [call,live]
    rfl
  have empty : ∀ flushed, (sys.call key .flush moment).streams key = some flushed → flushed.mBuf = [] := by
    intro flushed still
    rw [called] at still
    simp only [settle,if_true,Option.some.injEq] at still
    rw [← still]
    rfl
  have handed := flush_handed sys s
  by_cases reaches : sys.lssPerm.level.number ≤ s.lssTemp.level.number
  · refine iff_of_true ⟨empty,?_⟩ (.inr reaches)
    rw [if_pos reaches] at handed
    have pool : ∃ str, (sys.call key .flush moment).pool =
        LogPool.lockedWrite moment.attempt str {sys.pool with doFlush := true} := by
      rw [called,settle,handOver,handed]
      exact ⟨_,rfl⟩
    obtain ⟨str,pool⟩ := pool
    have flagged : LogPool.Writable moment.attempt {sys.pool with doFlush := true} := writable
    obtain ⟨all,nothing⟩ := LogPool.lockedWrite_flushes flagged rfl str
    rw [pool,all]
    exact ⟨nothing,List.prefix_append _ _⟩
  · rw [if_neg reaches] at handed
    have pool : (sys.call key .flush moment).pool = {sys.pool with doFlush := true} := by
      rw [called,settle,handOver,handed]
      rfl
    rw [pool]
    simp only [reaches,or_false]
    refine ⟨fun done => done.2.1,fun nothing => ⟨empty,nothing,?_⟩⟩
    rw [LogPool.kept,nothing,List.append_nil]
    exact List.prefix_rfl

def Follows (sys : LogSystem) : Prop := ∃ calls, sys.pool = .after calls

theorem settle_follows {sys : LogSystem} (follows : sys.Follows) (key : Nat) (calls : List PoolCall) (s : LogStream) :
    (sys.settle key calls s).Follows := by
  obtain ⟨earlier,same⟩ := follows
  refine ⟨earlier ++ calls,?_⟩
  rw [LogPool.after,List.foldl_append,← LogPool.after,← same]
  rfl

theorem share_follows {sys : LogSystem} (follows : sys.Follows) (c : PoolCall) : (sys.share c).Follows := by
  obtain ⟨earlier,same⟩ := follows
  refine ⟨earlier ++ [c],?_⟩
  rw [LogPool.after,List.foldl_append,← LogPool.after,← same]
  rfl

theorem call_follows {sys : LogSystem} (follows : sys.Follows) (key : Nat) (c : LogCall) (moment : LogMoment) :
    (sys.call key c moment).Follows := by
  unfold call
  split
  · exact settle_follows follows _ _ _
  · exact follows

theorem endWrite_follows {sys : LogSystem} (follows : sys.Follows) (key : Nat) (moment : LogMoment) :
    (sys.endWrite key moment).Follows := by
  unfold endWrite
  split
  · exact settle_follows follows _ _ _
  · exact follows

theorem apply_follows {sys : LogSystem} (follows : sys.Follows) (event : LogEvent) : (sys.apply event).Follows := by
  cases event with
  | construct key opening file moment => exact settle_follows follows _ _ _
  | copy key other moment =>
    simp only [apply,copy]
    split
    · exact settle_follows follows _ _ _
    · exact follows
  | assign key other =>
    simp only [apply,assign]
    split
    · exact settle_follows follows _ _ _
    · exact follows
  | call key c moment => exact call_follows follows key c moment
  | setLevel key manip =>
    simp only [apply,setLevel]
    split
    · exact settle_follows follows _ _ _
    · exact follows
  | destroy key ending flushing =>
    have ended := endWrite_follows follows key ending
    simp only [apply,destroy,forget]
    split
    · exact call_follows ended key .flush flushing
    · exact ended
  | set2ReOpen => exact share_follows follows _
  | setOutFilePath path => exact share_follows follows _
  | setLog2consoleFlag b => exact share_follows follows _
  | setMaxBufferSize i => exact share_follows follows _

theorem pool_follows (events : List LogEvent) : (logSystem.run fresh events).2.Follows := by
  have start : fresh.Follows := ⟨[],rfl⟩
  have step : ∀ sys event, Follows sys → True → (logSystem.step sys event).2.Follows :=
    fun _ event follows _ => apply_follows follows event
  exact run_preserves step start (admits_always (fun _ _ (_ : True) => ⟨trivial,trivial⟩) trivial events)

theorem flush_means_flushed (events : List LogEvent) :
    logSystem.Admits (AtFlush Done) fresh events ↔ logSystem.Admits (AtFlush Due) fresh events := by
  refine admits_congr (fun _ _ (_ : True) => trivial) ?_ trivial
  intro sys event _
  cases event with
  | call key c moment =>
    cases c with
    | flush => exact done_due sys key moment
    | _ => exact Iff.rfl
  | destroy key ending flushing => exact imp_congr_right fun _ => done_due _ key flushing
  | _ => exact Iff.rfl

def quietFlush : List LogEvent :=
  [.construct 0 (.logFile ['f']) ⟨['p'],false,5000⟩ ⟨[],.opened⟩,.call 0 (.text ['a']) ⟨[],.opened⟩,
    .call 0 .endl ⟨[],.opened⟩,.call 0 (.level .debugNormal) ⟨[],.opened⟩,.call 0 .flush ⟨[],.opened⟩]

theorem quiet_flush_waits : ¬ logSystem.Admits (AtFlush Done) fresh quietFlush := by
  intro done
  have empty := (done.2.2.2.2.1 _ rfl (.inl rfl)).2.1
  revert empty
  decide +kernel

end LogSystem
end Kisscpp
