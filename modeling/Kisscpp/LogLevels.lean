import Kisscpp.Configuration
import Kisscpp.ErrorState
import Kisscpp.LogSystem

namespace Kisscpp
open TextLines PropertyTree

def LogType.name : LogType → Text
  | .debug => "debug".toList
  | .info => "info".toList
  | .error => "error".toList

def LogSeverity.name : LogSeverity → Text
  | .low => "low".toList
  | .normal => "normal".toList
  | .high => "high".toList

def LogType.all : List LogType := [.debug,.info,.error]
def LogSeverity.all : List LogSeverity := [.low,.normal,.high]

def LogLevel.named (mt ms : Text) : Option LogLevel :=
  match LogType.all.find? fun t => t.name = mt,LogSeverity.all.find? fun s => s.name = ms with
  | some t,some s => some ⟨t,s⟩
  | _,_ => none

namespace LogStream

-- The overloads for texts; what is none of the names stands for a level too.
def setMessageTypeText (mt : Text) (permanent : Bool) (s : LogStream) : LogStream :=
  let mt := toLower mt
  if mt = "debug".toList then s.setMessageType .debug permanent
  else if mt = "info".toList then s.setMessageType .info permanent
  else if mt = "error".toList then s.setMessageType .error permanent
  else s.setMessageType .info permanent

def setSeverityText (ms : Text) (permanent : Bool) (s : LogStream) : LogStream :=
  let ms := toLower ms
  if ms = "high".toList then s.setSeverity .high permanent
  else if ms = "normal".toList then s.setSeverity .normal permanent
  else s.setSeverity .low permanent

end LogStream

inductive LogStatement where
  | setMessageType (mt : Text)
  | setSeverity (ms : Text)
  | call (c : LogCall)

namespace LogSystem

def adjust (sys : LogSystem) (key : Nat) (f : LogStream → LogStream) : LogSystem :=
  match sys.streams key with
  | some s => sys.settle key [] (f (sys.fetch s))
  | none => sys

def execute (sys : LogSystem) (key : Nat) (moment : LogMoment) : LogStatement → LogSystem
  | .setMessageType mt => sys.adjust key (·.setMessageTypeText mt true)
  | .setSeverity ms => sys.adjust key (·.setSeverityText ms true)
  | .call c => sys.call key c moment

end LogSystem

structure LogSettings where
  cfg : Config
  kcppLogRoot : Option Text
  kcppExecEnv : Option Text
  log2console : Bool
  src : Text

namespace LogSettings

def logFilePath (settings : LogSettings) : Text :=
  let logFileName := settings.cfg.applicationId ++ ['.'] ++ settings.cfg.applicationInstance ++ ".log".toList
  let logFileRoot := settings.kcppLogRoot.getD "/tmp".toList
  let logFileRoot := match settings.kcppExecEnv with
    | some env => logFileRoot ++ '/' :: env
    | none => logFileRoot
  let logFileRoot := logFileRoot ++ '/' :: settings.cfg.applicationId
  logFileRoot ++ '/' :: logFileName

def logType (settings : LogSettings) : Text := settings.cfg.cfgData.getD "kcc-log-level.type".toList "info".toList

def logSeverity (settings : LogSettings) : Text :=
  settings.cfg.cfgData.getD "kcc-log-level.severity".toList "low".toList

def maxLinesBuff (conv : Conversions) (settings : LogSettings) : UInt32 :=
  match settings.cfg.get "kcc-log-level.buff-size".toList with
  | .ok text => (conv.unsigned text).getD 5000
  | .error _ => 5000

end LogSettings

-- The stream of a function is number 0, those of the other threads come after.
def LogEvent.beside : LogEvent → LogEvent
  | .construct key opening file moment => .construct (key + 1) opening file moment
  | .copy key other moment => .copy (key + 1) (other + 1) moment
  | .assign key other => .assign (key + 1) (other + 1)
  | .call key c moment => .call (key + 1) c moment
  | .setLevel key manip => .setLevel (key + 1) manip
  | .destroy key ending flushing => .destroy (key + 1) ending flushing
  | .set2ReOpen => .set2ReOpen
  | .setOutFilePath path => .setOutFilePath path
  | .setLog2consoleFlag b => .setLog2consoleFlag b
  | .setMaxBufferSize i => .setMaxBufferSize i

def LogEvent.quiet : LogEvent → Bool
  | .construct _ (.logFile _) _ _ | .setLevel _ _ => false
  | _ => true

def LogEvent.names : LogEvent → List Nat
  | .construct key _ _ _ | .call key _ _ | .setLevel key _ | .destroy key _ _ => [key]
  | .copy key other _ | .assign key other => [key,other]
  | .set2ReOpen | .setOutFilePath _ | .setLog2consoleFlag _ | .setMaxBufferSize _ => []

def LogEvent.outside (group : Nat → Bool) (e : LogEvent) : Bool := e.names.all fun key => !group key

namespace LogSystem

-- The constructor of a stream with a source looks at no log file.
def declare (sys : LogSystem) (src : Text) (moment : LogMoment) : LogSystem :=
  sys.construct 0 (.source src) ⟨[],false,0⟩ moment

def initializeLogging (conv : Conversions) (settings : LogSettings) (opening ending flushing : LogMoment)
    (sys : LogSystem) : LogSystem :=
  let file : LogFile := ⟨settings.logFilePath,settings.log2console,settings.maxLinesBuff conv⟩
  let sys := sys.construct 0 (.logFile settings.src) file opening
  let sys := sys.execute 0 opening (.setMessageType settings.logType)
  let sys := sys.execute 0 opening (.setSeverity settings.logSeverity)
  sys.destroy 0 ending flushing

end LogSystem

def LogType.ofText (mt : Text) : LogType := (LogType.all.find? fun t => t.name = toLower mt).getD .info
def LogSeverity.ofText (ms : Text) : LogSeverity := (LogSeverity.all.find? fun s => s.name = toLower ms).getD .low

def LogSettings.configured (settings : LogSettings) : LogLevel :=
  ⟨.ofText settings.logType,.ofText settings.logSeverity⟩

def LogStatement.sets (level : LogLevel) : LogStatement → LogLevel
  | .setMessageType mt => {level with messageType := .ofText mt}
  | .setSeverity ms => {level with severity := .ofText ms}
  | .call _ => level

namespace LogStream

theorem setMessageTypeText_named (mt : Text) (permanent : Bool) (s : LogStream) :
    s.setMessageTypeText mt permanent = s.setMessageType (.ofText mt) permanent := by
  unfold setMessageTypeText LogType.ofText
  generalize toLower mt = mt
  by_cases debug : mt = "debug".toList
  · subst debug; rfl
  · by_cases info : mt = "info".toList
    · subst info; rfl
    · by_cases error : mt = "error".toList
      · subst error; rfl
      · have unnamed : (LogType.all.find? fun t => t.name = mt) = none := by
          refine List.find?_eq_none.mpr fun t _ named => ?_
          have named : t.name = mt := of_decide_eq_true named
          cases t with
          | debug => exact debug named.symm
          | info => exact info named.symm
          | error => exact error named.symm
        rw [if_neg debug,if_neg info,if_neg error,unnamed]
        rfl

theorem setSeverityText_named (ms : Text) (permanent : Bool) (s : LogStream) :
    s.setSeverityText ms permanent = s.setSeverity (.ofText ms) permanent := by
  unfold setSeverityText LogSeverity.ofText
  generalize toLower ms = ms
  by_cases high : ms = "high".toList
  · subst high; rfl
  · by_cases normal : ms = "normal".toList
    · subst normal; rfl
    · by_cases low : ms = "low".toList
      · subst low; rfl
      · have unnamed : (LogSeverity.all.find? fun s => s.name = ms) = none := by
          refine List.find?_eq_none.mpr fun s _ named => ?_
          have named : s.name = ms := of_decide_eq_true named
          cases s with
          | low => exact low named.symm
          | normal => exact normal named.symm
          | high => exact high named.symm
        rw [if_neg high,if_neg normal,unnamed]
        rfl

theorem apply_lssPerm (manip : Manip) (s : LogStream) : (manip.apply false s).lssPerm = s.lssPerm := by
  cases manip <;> rfl

theorem startWrite_lssPerm (s : LogStream) : s.startWrite.lssPerm = s.lssPerm := by
  unfold startWrite
  split <;> rfl

theorem endWrite_lssPerm (s : LogStream) : s.endWrite.lssPerm = s.lssPerm := by
  unfold endWrite
  split <;> rfl

theorem write_lssPerm (s : LogStream) : s.write.lssPerm = s.lssPerm := by
  unfold write
  split
  · rfl
  · split <;> rfl

theorem call_lssPerm (s : LogStream) (c : LogCall) : (s.call c).lssPerm = s.lssPerm := by
  cases c with
  | level manip => exact apply_lssPerm manip s
  | text v => rfl
  | src source => rfl
  | endl => exact write_lssPerm s
  | flush => exact write_lssPerm s

end LogStream

namespace LogSystem

structure Keeps (group : Nat → Bool) (sys after : LogSystem) : Prop where
  shared : after.lssPerm = sys.lssPerm
  own : ∀ key, group key = true → after.streams key = sys.streams key

variable {group : Nat → Bool}

theorem Keeps.refl (sys : LogSystem) : sys.Keeps group sys := ⟨rfl,fun _ _ => rfl⟩

theorem Keeps.trans {first second third : LogSystem} (one : first.Keeps group second) (two : second.Keeps group third) :
    first.Keeps group third :=
  ⟨two.shared.trans one.shared,fun key inside => (two.own key inside).trans (one.own key inside)⟩

section Other
variable {sys : LogSystem} {key : Nat} (other : group key = false)
include other

theorem settle_keeps {s : LogStream} (same : s.lssPerm = sys.lssPerm) (calls : List PoolCall) :
    sys.Keeps group (sys.settle key calls s) := by
  refine ⟨same,fun own inside => ?_⟩
  have different : own ≠ key := fun equal => by rw [equal,other] at inside; cases inside
  exact if_neg different

theorem forget_keeps : sys.Keeps group (sys.forget key) := by
  refine ⟨rfl,fun own inside => ?_⟩
  have different : own ≠ key := fun equal => by rw [equal,other] at inside; cases inside
  exact if_neg different

theorem call_keeps (c : LogCall) (moment : LogMoment) : sys.Keeps group (sys.call key c moment) := by
  unfold call
  split
  · exact settle_keeps other (LogStream.call_lssPerm _ c) _
  · exact .refl sys

theorem endWrite_keeps (moment : LogMoment) : sys.Keeps group (sys.endWrite key moment) := by
  unfold endWrite
  split
  · exact settle_keeps other (LogStream.endWrite_lssPerm _) _
  · exact .refl sys

end Other

theorem apply_keeps (sys : LogSystem) {e : LogEvent} (quiet : e.quiet = true) (outside : e.outside group = true) :
    sys.Keeps group (sys.apply e) := by
  have others : ∀ key ∈ e.names, group key = false := fun key member => by
    simpa using List.all_eq_true.mp outside key member
  cases e with
  | construct key opening file moment =>
    have other := others key List.mem_cons_self
    cases opening with
    | level manip => exact settle_keeps other (LogStream.apply_lssPerm manip _) _
    | levelAndSource manip src => exact settle_keeps other (LogStream.apply_lssPerm manip _) _
    | source src => exact settle_keeps other (LogStream.startWrite_lssPerm _) _
    | logFile src => cases quiet
  | copy key source moment =>
    simp only [apply,copy]
    split
    · exact settle_keeps (others key List.mem_cons_self) (LogStream.startWrite_lssPerm _) _
    · exact .refl sys
  | assign key source =>
    simp only [apply,assign]
    split
    · exact settle_keeps (others key List.mem_cons_self) rfl _
    · exact .refl sys
  | call key c moment => exact call_keeps (others key List.mem_cons_self) c moment
  | setLevel key manip => cases quiet
  | destroy key ending flushing =>
    have other := others key List.mem_cons_self
    have ended : sys.Keeps group (sys.endWrite key ending) := endWrite_keeps other ending
    simp only [apply,destroy]
    split
    · exact ended.trans ((call_keeps other .flush flushing).trans (forget_keeps other))
    · exact ended.trans (forget_keeps other)
  | set2ReOpen => exact ⟨rfl,fun _ _ => rfl⟩
  | setOutFilePath path => exact ⟨rfl,fun _ _ => rfl⟩
  | setLog2consoleFlag b => exact ⟨rfl,fun _ _ => rfl⟩
  | setMaxBufferSize i => exact ⟨rfl,fun _ _ => rfl⟩

theorem beside_keeps (sys : LogSystem) {e : LogEvent} (quiet : e.quiet = true) :
    sys.Keeps (· == 0) (sys.apply e.beside) := by
  refine apply_keeps sys ?_ ?_
  · cases e with
    | construct key opening file moment => cases opening <;> exact quiet
    | setLevel key manip => cases quiet
    | _ => rfl
  · cases e <;> rfl

def Live (sys : LogSystem) : Prop := (sys.streams 0).isSome = true

theorem adjust_level {sys : LogSystem} (live : sys.Live) (f : LogStream → LogStream) :
    (∃ s, (sys.adjust 0 f).lssPerm = (f (sys.fetch s)).lssPerm) ∧ (sys.adjust 0 f).Live := by
  obtain ⟨s,there⟩ := Option.isSome_iff_exists.mp live
  have done : sys.adjust 0 f = sys.settle 0 [] (f (sys.fetch s)) := by rw [adjust,there]
  rw [done]
  exact ⟨⟨s,rfl⟩,rfl⟩

theorem execute_level {sys : LogSystem} (live : sys.Live) (moment : LogMoment) (statement : LogStatement) :
    (sys.execute 0 moment statement).lssPerm.level = statement.sets sys.lssPerm.level ∧
      (sys.execute 0 moment statement).Live := by
  cases statement with
  | setMessageType mt =>
    obtain ⟨⟨s,set⟩,still⟩ := adjust_level live (·.setMessageTypeText mt true)
    refine ⟨?_,still⟩
    rw [execute,set,LogStream.setMessageTypeText_named]
    rfl
  | setSeverity ms =>
    obtain ⟨⟨s,set⟩,still⟩ := adjust_level live (·.setSeverityText ms true)
    refine ⟨?_,still⟩
    rw [execute,set,LogStream.setSeverityText_named]
    rfl
  | call c =>
    obtain ⟨s,there⟩ := Option.isSome_iff_exists.mp live
    have done : sys.execute 0 moment (.call c) = sys.settle 0
        (flagCalls c ++ handOver moment ((sys.fetch s).call c)) ((sys.fetch s).call c) := by
      rw [execute,call,there]
    rw [done]
    exact ⟨congrArg LogStreamSettings.level (LogStream.call_lssPerm _ c),rfl⟩

theorem declare_level (sys : LogSystem) (src : Text) (moment : LogMoment) :
    (sys.declare src moment).lssPerm.level = sys.lssPerm.level ∧ (sys.declare src moment).Live :=
  ⟨congrArg LogStreamSettings.level (LogStream.startWrite_lssPerm _),rfl⟩

theorem call_shared (sys : LogSystem) (key : Nat) (c : LogCall) (moment : LogMoment) :
    (sys.call key c moment).lssPerm = sys.lssPerm := by
  unfold call
  split
  · exact LogStream.call_lssPerm _ c
  · rfl

theorem destroy_shared (sys : LogSystem) (key : Nat) (ending flushing : LogMoment) :
    (sys.destroy key ending flushing).lssPerm = sys.lssPerm := by
  have ended : (sys.endWrite key ending).lssPerm = sys.lssPerm := by
    unfold endWrite
    split
    · exact LogStream.endWrite_lssPerm _
    · rfl
  simp only [destroy,forget]
  split
  · rw [call_shared,ended]
  · exact ended

theorem initializeLogging_level (conv : Conversions) (settings : LogSettings) (opening ending flushing : LogMoment)
    (sys : LogSystem) :
    (sys.initializeLogging conv settings opening ending flushing).lssPerm.level = settings.configured := by
  let file : LogFile := ⟨settings.logFilePath,settings.log2console,settings.maxLinesBuff conv⟩
  have opened : (sys.construct 0 (.logFile settings.src) file opening).Live := rfl
  obtain ⟨typed,still⟩ := execute_level opened opening (.setMessageType settings.logType)
  obtain ⟨graded,_⟩ := execute_level still opening (.setSeverity settings.logSeverity)
  rw [initializeLogging,destroy_shared,graded,typed]
  rfl

end LogSystem
end Kisscpp
