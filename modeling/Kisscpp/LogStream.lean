import Kisscpp.Machine
import Kisscpp.TextLines

namespace Kisscpp
open TextLines Stepping

inductive LogType where
  | debug
  | info
  | error
  deriving DecidableEq

inductive LogSeverity where
  | low
  | normal
  | high
  deriving DecidableEq

def LogType.value : LogType → Nat
  | .debug => 0
  | .info => 1
  | .error => 2

def LogSeverity.value : LogSeverity → Nat
  | .low => 0
  | .normal => 1
  | .high => 2

structure LogStreamSettings where
  messageType : LogType := .info
  severity : LogSeverity := .normal
  source : Text := []

-- lssPerm belongs to all streams of the process. handed are the lines given to
-- locked_write, without their time stamp.
structure LogStream where
  lssPerm : LogStreamSettings
  lssTemp : LogStreamSettings
  mBuf : Text
  handed : List Text

namespace LogStream

def setMessageType (mt : LogType) (permanent : Bool) (s : LogStream) : LogStream :=
  {s with lssPerm := if permanent then {s.lssPerm with messageType := mt} else s.lssPerm,
          lssTemp := {s.lssTemp with messageType := mt}}

def setSeverity (ms : LogSeverity) (permanent : Bool) (s : LogStream) : LogStream :=
  {s with lssPerm := if permanent then {s.lssPerm with severity := ms} else s.lssPerm,
          lssTemp := {s.lssTemp with severity := ms}}

def setSource (source : Text) (s : LogStream) : LogStream := {s with lssTemp := {s.lssTemp with source := source}}

def getSource (s : LogStream) : Text := if s.lssTemp.source.isEmpty then s.lssPerm.source else s.lssTemp.source

def lockedWrite (text : Text) (s : LogStream) : LogStream :=
  {s with handed := s.handed ++ [['['] ++ s.getSource ++ "] ".toList ++ text]}

def startWrite (s : LogStream) : LogStream :=
  if s.lssPerm.messageType.value ≤ LogType.debug.value ∧ s.lssPerm.severity.value ≤ LogSeverity.low.value then
    s.lockedWrite ("+ [".toList ++ s.getSource ++ [']'])
  else s

def write (s : LogStream) : LogStream :=
  if s.lssPerm.messageType.value < s.lssTemp.messageType.value then s.lockedWrite (": ".toList ++ s.mBuf)
  else if s.lssPerm.messageType = s.lssTemp.messageType ∧ s.lssPerm.severity.value ≤ s.lssTemp.severity.value then
    s.lockedWrite (": ".toList ++ s.mBuf)
  else s

-- The settings of the stream are gone after a line.
def doWrite (s : LogStream) : LogStream :=
  let written := s.write
  let emptied := {written with mBuf := []}
  let typed := {emptied.lssTemp with messageType := emptied.lssPerm.messageType}
  {emptied with lssTemp := {typed with severity := emptied.lssPerm.severity}}

end LogStream

inductive Manip where
  | type (mt : LogType)
  | severity (ms : LogSeverity)
  | both (mt : LogType) (ms : LogSeverity)

namespace Manip

def error : Manip := .type .error
def info : Manip := .type .info
def debug : Manip := .type .debug
def high : Manip := .severity .high
def normal : Manip := .severity .normal
def low : Manip := .severity .low
def errorHigh : Manip := .both .error .high
def errorNormal : Manip := .both .error .normal
def errorLow : Manip := .both .error .low
def debugHigh : Manip := .both .debug .high
def debugNormal : Manip := .both .debug .normal
def debugLow : Manip := .both .debug .low
def infoHigh : Manip := .both .info .high
def infoNormal : Manip := .both .info .normal
def infoLow : Manip := .both .info .low

-- The combined ones set the severity first.
def apply (permanent : Bool) (s : LogStream) : Manip → LogStream
  | .type mt => s.setMessageType mt permanent
  | .severity ms => s.setSeverity ms permanent
  | .both mt ms => (s.setSeverity ms permanent).setMessageType mt permanent

end Manip

-- The constructors; the last one is given the path of the log file as well.
inductive LogOpening where
  | level (manip : Manip)
  | levelAndSource (manip : Manip) (src : Text)
  | source (src : Text)
  | logFile (src : Text)

namespace LogStream

def blank (lssPerm : LogStreamSettings) : LogStream := ⟨lssPerm,{},[],[]⟩

-- The first one copies lssPerm over what the manipulator has just set.
def construct (lssPerm : LogStreamSettings) : LogOpening → LogStream
  | .level manip => {manip.apply false (blank lssPerm) with lssTemp := lssPerm}
  | .levelAndSource manip src => (manip.apply false {blank lssPerm with lssTemp := lssPerm}).setSource src
  | .source src => ((Manip.infoNormal.apply false {blank lssPerm with lssTemp := lssPerm}).setSource src).startWrite
  | .logFile src => ((Manip.infoNormal.apply true {blank lssPerm with lssTemp := lssPerm}).setSource src).startWrite

end LogStream

inductive LogCall where
  | level (manip : Manip)
  | text (v : Text)
  | src (source : Text)
  | endl
  | flush

def LogStream.call (s : LogStream) : LogCall → LogStream
  | .level manip => manip.apply false s
  | .text v => {s with mBuf := s.mBuf ++ v}
  | .src source => s.setSource source
  | .endl | .flush => s.doWrite

-- The documented levels: 3 types with 3 severities each, the type first.
structure LogLevel where
  messageType : LogType
  severity : LogSeverity
  deriving DecidableEq

def LogLevel.number (level : LogLevel) : Nat := 3 * level.messageType.value + level.severity.value + 1

def LogLevel.chosen (level : LogLevel) : Manip → LogLevel
  | .type mt => {level with messageType := mt}
  | .severity ms => {level with severity := ms}
  | .both mt ms => ⟨mt,ms⟩

structure LogSession where
  stream : LogStream
  inForce : LogLevel
  typeSet : Bool
  severitySet : Bool

def LogStreamSettings.level (settings : LogStreamSettings) : LogLevel := ⟨settings.messageType,settings.severity⟩

def LogSession.opened (lssPerm : LogStreamSettings) : LogOpening → LogSession
  | .level manip => ⟨.construct lssPerm (.level manip),lssPerm.level.chosen manip,false,false⟩
  | .levelAndSource manip src => ⟨.construct lssPerm (.levelAndSource manip src),lssPerm.level.chosen manip,true,true⟩
  | .source src => ⟨.construct lssPerm (.source src),⟨.info,.normal⟩,true,true⟩
  | .logFile src => ⟨.construct lssPerm (.logFile src),⟨.info,.normal⟩,true,true⟩

def LogSession.call (s : LogSession) : LogCall → LogSession
  | .level (.type mt) => ⟨s.stream.call (.level (.type mt)),s.inForce.chosen (.type mt),true,s.severitySet⟩
  | .level (.severity ms) => ⟨s.stream.call (.level (.severity ms)),s.inForce.chosen (.severity ms),s.typeSet,true⟩
  | .level (.both mt ms) => ⟨s.stream.call (.level (.both mt ms)),s.inForce.chosen (.both mt ms),true,true⟩
  | .endl => ⟨s.stream.call .endl,s.inForce,false,false⟩
  | .flush => ⟨s.stream.call .flush,s.inForce,false,false⟩
  | c => {s with stream := s.stream.call c}

def logging : Machine LogSession LogCall Unit where
  step s c := ((),s.call c)

def LogCall.isLine : LogCall → Bool
  | .endl | .flush => true
  | _ => false

def Filtered (s : LogSession) (c : LogCall) : Prop :=
  (s.stream.call c).handed =
    if c.isLine = true ∧ s.stream.lssPerm.level.number ≤ s.inForce.number then
      (s.stream.lockedWrite (": ".toList ++ s.stream.mBuf)).handed
    else s.stream.handed

-- What is not chosen anew since the latest line does not decide, or decides the same.
def Renewed (s : LogSession) (c : LogCall) : Prop :=
  c.isLine = true →
    let threshold := s.stream.lssPerm
    match s.typeSet,s.severitySet with
    | true,true => True
    | false,false => threshold.level.number ≤ s.inForce.number
    | true,false => s.inForce.messageType = threshold.messageType → threshold.severity.value ≤ s.inForce.severity.value
    | false,true =>
      (s.inForce.messageType.value < threshold.messageType.value → s.inForce.severity.value < threshold.severity.value) ∧
      (threshold.messageType.value < s.inForce.messageType.value → threshold.severity.value ≤ s.inForce.severity.value)

structure Tracks (s : LogSession) : Prop where
  typed : s.stream.lssTemp.messageType = if s.typeSet then s.inForce.messageType else s.stream.lssPerm.messageType
  graded : s.stream.lssTemp.severity = if s.severitySet then s.inForce.severity else s.stream.lssPerm.severity

theorem severity_bound (ms : LogSeverity) : ms.value ≤ 2 := by
  cases ms <;> decide

theorem type_value {first second : LogType} : first = second ↔ first.value = second.value := by
  cases first <;> cases second <;> decide

theorem number_le {threshold level : LogLevel} : threshold.number ≤ level.number ↔
    threshold.messageType.value < level.messageType.value ∨
      threshold.messageType = level.messageType ∧ threshold.severity.value ≤ level.severity.value := by
  have low := severity_bound threshold.severity
  have high := severity_bound level.severity
  rw [type_value]
  unfold LogLevel.number
  omega

theorem write_handed (s : LogStream) : s.write.handed =
    if s.lssPerm.level.number ≤ s.lssTemp.level.number then (s.lockedWrite (": ".toList ++ s.mBuf)).handed
    else s.handed := by
  unfold LogStream.write
  by_cases above : s.lssPerm.messageType.value < s.lssTemp.messageType.value
  · rw [if_pos above,if_pos (number_le.mpr (.inl above))]
  · by_cases equal : s.lssPerm.messageType = s.lssTemp.messageType ∧ s.lssPerm.severity.value ≤ s.lssTemp.severity.value
    · rw [if_neg above,if_pos equal,if_pos (number_le.mpr (.inr equal))]
    · rw [if_neg above,if_neg equal,if_neg]
      intro reaches
      rcases number_le.mp reaches with more | same
      · exact above more
      · exact equal same

theorem line_handed (s : LogStream) {c : LogCall} (line : c.isLine = true) : (s.call c).handed = s.write.handed := by
  cases c with
  | endl => rfl
  | flush => rfl
  | _ => cases line

theorem text_handed (s : LogStream) {c : LogCall} (noLine : c.isLine = false) : (s.call c).handed = s.handed := by
  cases c with
  | level manip => cases manip <;> rfl
  | text v => rfl
  | src source => rfl
  | endl => cases noLine
  | flush => cases noLine

theorem handed_ne (s : LogStream) (text : Text) : (s.lockedWrite text).handed ≠ s.handed := by
  intro same
  have length := congrArg List.length same
  simp [LogStream.lockedWrite] at length

theorem filtered_sides (s : LogSession) {c : LogCall} (line : c.isLine = true) : Filtered s c ↔
    (s.stream.lssPerm.level.number ≤ s.stream.lssTemp.level.number ↔
      s.stream.lssPerm.level.number ≤ s.inForce.number) := by
  have different := handed_ne s.stream (": ".toList ++ s.stream.mBuf)
  unfold Filtered
  rw [line_handed s.stream line,write_handed]
  by_cases written : s.stream.lssPerm.level.number ≤ s.stream.lssTemp.level.number
  · by_cases due : s.stream.lssPerm.level.number ≤ s.inForce.number
    · simp [written,due,line]
    · simpa [written,due,line] using different
  · by_cases due : s.stream.lssPerm.level.number ≤ s.inForce.number
    · simpa [written,due,line] using different.symm
    · simp [written,due]

theorem call_filtered {s : LogSession} (tracks : Tracks s) (c : LogCall) : Filtered s c ↔ Renewed s c := by
  cases line : c.isLine with
  | false =>
    refine iff_of_true ?_ fun isLine => by rw [line] at isLine; cases isLine
    unfold Filtered
    rw [if_neg (by simp [line])]
    exact text_handed s.stream line
  | true =>
    rw [filtered_sides s line]
    have typed := tracks.typed
    have graded := tracks.graded
    have low := severity_bound s.stream.lssPerm.severity
    unfold Renewed
    cases typeSet : s.typeSet with
    | true =>
      cases severitySet : s.severitySet with
      | true =>
        rw [typeSet] at typed
        rw [severitySet] at graded
        simp only [number_le,LogStreamSettings.level,typed,graded,if_true,line]
        simp
      | false =>
        rw [typeSet] at typed
        rw [severitySet] at graded
        simp only [number_le,LogStreamSettings.level,typed,graded,if_true,line,type_value]
        simp only [Bool.false_eq_true,if_false,true_implies]
        omega
    | false =>
      cases severitySet : s.severitySet with
      | true =>
        rw [typeSet] at typed
        rw [severitySet] at graded
        simp only [number_le,LogStreamSettings.level,typed,graded,if_true,line,type_value]
        simp only [Bool.false_eq_true,if_false,true_implies,Nat.lt_irrefl,false_or,true_and]
        rcases Nat.lt_trichotomy s.inForce.messageType.value s.stream.lssPerm.messageType.value with below | same | above
        · simp [below,Nat.lt_asymm below,Nat.ne_of_gt below]
        · simp [same]
        · simp [above,Nat.lt_asymm above]
      | false =>
        rw [typeSet] at typed
        rw [severitySet] at graded
        simp only [LogStreamSettings.level,typed,graded,line]
        simp

theorem startWrite_settings (s : LogStream) :
    s.startWrite.lssPerm = s.lssPerm ∧ s.startWrite.lssTemp = s.lssTemp := by
  unfold LogStream.startWrite
  split <;> exact ⟨rfl,rfl⟩

theorem opened_tracks (lssPerm : LogStreamSettings) (opening : LogOpening) : Tracks (.opened lssPerm opening) := by
  cases opening with
  | level manip => cases manip <;> exact ⟨rfl,rfl⟩
  | levelAndSource manip src => cases manip <;> exact ⟨rfl,rfl⟩
  | source src =>
    have kept := startWrite_settings
      ((Manip.infoNormal.apply false {LogStream.blank lssPerm with lssTemp := lssPerm}).setSource src)
    exact ⟨congrArg LogStreamSettings.messageType kept.2,congrArg LogStreamSettings.severity kept.2⟩
  | logFile src =>
    have kept := startWrite_settings
      ((Manip.infoNormal.apply true {LogStream.blank lssPerm with lssTemp := lssPerm}).setSource src)
    exact ⟨congrArg LogStreamSettings.messageType kept.2,congrArg LogStreamSettings.severity kept.2⟩

theorem doWrite_tracks (s : LogSession) : Tracks ⟨s.stream.doWrite,s.inForce,false,false⟩ := ⟨rfl,rfl⟩

theorem call_tracks {s : LogSession} (tracks : Tracks s) (c : LogCall) : Tracks (s.call c) := by
  cases c with
  | level manip =>
    cases manip with
    | type mt => exact ⟨rfl,tracks.graded⟩
    | severity ms => exact ⟨tracks.typed,rfl⟩
    | both mt ms => exact ⟨rfl,rfl⟩
  | text v => exact ⟨tracks.typed,tracks.graded⟩
  | src source => exact ⟨tracks.typed,tracks.graded⟩
  | endl => exact doWrite_tracks s
  | flush => exact doWrite_tracks s

theorem log_lines_filtered (lssPerm : LogStreamSettings) (opening : LogOpening) (calls : List LogCall) :
    logging.Admits Filtered (.opened lssPerm opening) calls ↔ logging.Admits Renewed (.opened lssPerm opening) calls :=
  admits_congr (fun _ c tracks => call_tracks tracks c) (fun _ c tracks => call_filtered tracks c)
    (opened_tracks lssPerm opening)

-- The second line is a debug line, too, and the threshold is info and normal.
theorem log_level_forgotten : ¬ logging.Admits Filtered (.opened {} (.source ['f']))
    [.level .debugHigh,.text ['a'],.endl,.text ['b'],.endl] := by
  intro filtered
  have second := filtered.2.2.2.2.1
  exact absurd second (by unfold Filtered; decide +kernel)

end Kisscpp
