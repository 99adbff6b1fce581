import Mathlib.Data.List.Forall2
import Kisscpp.AccessControl
import Kisscpp.LogLevels
import Kisscpp.PropertyTreePuts
import Kisscpp.Unwinding

namespace Kisscpp
open TextLines PropertyTree Stepping

namespace LogLevelAdjuster

def run (request response : Ptree) : List LogStatement × Ptree :=
  let missing (e : BadPath) := ([.call (.text "Exception: ".toList),.call (.text e.what),.call .endl],
    refuse response .missingParameter e.what)
  match request.get "type".toList with
  | .error e => missing e
  | .ok newLogType =>
    match request.get "severity".toList with
    | .error e => missing e
    | .ok newLogSeverity =>
      if newLogType = "debug".toList ∨ newLogType = "info".toList ∨ newLogType = "error".toList then
        if newLogSeverity = "low".toList ∨ newLogSeverity = "normal".toList ∨ newLogSeverity = "high".toList then
          ([.setMessageType newLogType,.setSeverity newLogSeverity],
            ((response.put "kcm-sts".toList RequestStatus.success.text).put "new-log-level.type".toList newLogType).put
              "new-log-level.severity".toList newLogSeverity)
        else ([],refuse response .invalidParameter "invalid log severity".toList)
      else ([],refuse response .invalidParameter "invalid log type".toList)

def asked (request : Ptree) : Option LogLevel :=
  match request.get "type".toList,request.get "severity".toList with
  | .ok mt,.ok ms => LogLevel.named mt ms
  | _,_ => none

def reported (reply : Ptree) : Option LogLevel :=
  match reply.get "kcm-sts".toList,reply.get "new-log-level.type".toList,reply.get "new-log-level.severity".toList with
  | .ok status,.ok mt,.ok ms => if status = RequestStatus.success.text then LogLevel.named mt ms else none
  | _,_,_ => none

end LogLevelAdjuster

structure Adjusting where
  request : Ptree
  statements : List LogStatement
  response : Ptree

-- One thread runs the handlers and takes no request while it is at one; the
-- others log as they please.
inductive LevelEvent where
  | request (request : Ptree) (moment : LogMoment)
  | proceed (moment flushing : LogMoment)
  | other (e : {e : LogEvent // e.quiet = true})

inductive LevelAnswer where
  | silent
  | taken (request : Ptree)
  | replied (reply : Ptree)

def LevelAnswer.request : LevelAnswer → Option Ptree
  | .taken request => some request
  | _ => none

def LevelAnswer.reply : LevelAnswer → Option Ptree
  | .replied reply => some reply
  | _ => none

structure LevelServer where
  logs : LogSystem
  handler : Option Adjusting

namespace LevelServer

def step (src : Text) (s : LevelServer) : LevelEvent → LevelAnswer × LevelServer
  | .request request moment =>
    match s.handler with
    | some _ => (.silent,s)
    | none =>
      let ran := LogLevelAdjuster.run request .empty
      (.taken request,⟨s.logs.declare src moment,some ⟨request,ran.1,ran.2⟩⟩)
  | .proceed moment flushing =>
    match s.handler with
    | none => (.silent,s)
    | some ⟨request,statement :: rest,response⟩ =>
      (.silent,⟨s.logs.execute 0 moment statement,some ⟨request,rest,response⟩⟩)
    | some ⟨_,[],response⟩ => (.replied response,⟨s.logs.destroy 0 moment flushing,none⟩)
  | .other e => (.silent,{s with logs := s.logs.apply e.val.beside})

end LevelServer

def levelServer (src : Text) : Machine LevelServer LevelEvent LevelAnswer where
  step := LevelServer.step src

structure Threshold where
  level : LogLevel
  handler : Option Adjusting

def Threshold.step (t : Threshold) : LevelEvent → LevelAnswer × Threshold
  | .request request _ =>
    match t.handler with
    | some _ => (.silent,t)
    | none =>
      let ran := LogLevelAdjuster.run request .empty
      (.taken request,⟨t.level,some ⟨request,ran.1,ran.2⟩⟩)
  | .proceed _ _ =>
    match t.handler with
    | none => (.silent,t)
    | some ⟨request,statement :: rest,response⟩ => (.silent,⟨statement.sets t.level,some ⟨request,rest,response⟩⟩)
    | some ⟨_,[],response⟩ => (.replied response,⟨t.level,none⟩)
  | .other _ => (.silent,t)

def threshold : Machine Threshold LevelEvent LevelAnswer where
  step := Threshold.step

theorem find_type {mt : Text} {t : LogType} : (LogType.all.find? fun t => t.name = mt) = some t ↔ t.name = mt := by
  constructor
  · intro found
    have holds := List.find?_some found
    exact of_decide_eq_true holds
  · rintro rfl
    cases t <;> rfl

theorem find_severity {ms : Text} {s : LogSeverity} :
    (LogSeverity.all.find? fun s => s.name = ms) = some s ↔ s.name = ms := by
  constructor
  · intro found
    have holds := List.find?_some found
    exact of_decide_eq_true holds
  · rintro rfl
    cases s <;> rfl

theorem LogLevel.named_iff {mt ms : Text} {level : LogLevel} :
    LogLevel.named mt ms = some level ↔ mt = level.messageType.name ∧ ms = level.severity.name := by
  obtain ⟨t,s⟩ := level
  unfold LogLevel.named
  constructor
  · intro named
    split at named
    next typed graded =>
      cases named
      exact ⟨(find_type.mp typed).symm,(find_severity.mp graded).symm⟩
    next => cases named
  · rintro ⟨rfl,rfl⟩
    rw [find_type.mpr rfl,find_severity.mpr rfl]

namespace LogLevelAdjuster

theorem type_names {mt : Text} :
    mt = "debug".toList ∨ mt = "info".toList ∨ mt = "error".toList ↔ ∃ t : LogType, mt = t.name := by
  constructor
  · rintro (rfl | rfl | rfl)
    · exact ⟨.debug,rfl⟩
    · exact ⟨.info,rfl⟩
    · exact ⟨.error,rfl⟩
  · rintro ⟨t,rfl⟩
    cases t <;> decide

theorem severity_names {ms : Text} :
    ms = "low".toList ∨ ms = "normal".toList ∨ ms = "high".toList ↔ ∃ s : LogSeverity, ms = s.name := by
  constructor
  · rintro (rfl | rfl | rfl)
    · exact ⟨.low,rfl⟩
    · exact ⟨.normal,rfl⟩
    · exact ⟨.high,rfl⟩
  · rintro ⟨s,rfl⟩
    cases s <;> decide

structure Told (request : Ptree) (ran : List LogStatement × Ptree) : Prop where
  truth : reported ran.2 = asked request
  writes : ran.2.writable = true
  short : ran.1.length ≤ 3
  still : asked request = none → ∀ statement ∈ ran.1, ∀ level, statement.sets level = level
  sets : ∀ level, ran.1.foldl LogStatement.sets level = (asked request).getD level

theorem refuse_tree (status : RequestStatus) (message : Text) : refuse .empty status message =
    .node [] [("kcm-sts".toList,.leaf status.text),("kcm-erm".toList,.leaf message)] := rfl

theorem accepted_tree (status mt ms : Text) :
    ((Ptree.empty.put "kcm-sts".toList status).put "new-log-level.type".toList mt).put "new-log-level.severity".toList ms =
      .node [] [("kcm-sts".toList,.leaf status),
        ("new-log-level".toList,.node [] [("type".toList,.leaf mt),("severity".toList,.leaf ms)])] := rfl

theorem refused_unreported (status : RequestStatus) (message : Text) :
    reported (refuse .empty status message) = none ∧ (refuse .empty status message).writable = true := by
  rw [refuse_tree]
  constructor
  · have first : Ptree.get "kcm-sts".toList (.node [] [("kcm-sts".toList,.leaf status.text),
        ("kcm-erm".toList,.leaf message)]) = .ok status.text := rfl
    have second : Ptree.get "new-log-level.type".toList (.node [] [("kcm-sts".toList,.leaf status.text),
        ("kcm-erm".toList,.leaf message)]) = .error ⟨"new-log-level.type".toList⟩ := rfl
    simp only [reported,first,second]
  · simp [Ptree.writable,Ptree.writableChildren,Ptree.leaf]

theorem accepted_reported (mt ms : Text) :
    let reply := ((Ptree.empty.put "kcm-sts".toList RequestStatus.success.text).put "new-log-level.type".toList mt).put
      "new-log-level.severity".toList ms
    reported reply = LogLevel.named mt ms ∧ reply.writable = true := by
  dsimp only
  rw [accepted_tree]
  constructor
  · have first (status : Text) : Ptree.get "kcm-sts".toList (.node [] [("kcm-sts".toList,.leaf status),
        ("new-log-level".toList,.node [] [("type".toList,.leaf mt),("severity".toList,.leaf ms)])]) = .ok status := rfl
    have second (status : Text) : Ptree.get "new-log-level.type".toList (.node [] [("kcm-sts".toList,.leaf status),
        ("new-log-level".toList,.node [] [("type".toList,.leaf mt),("severity".toList,.leaf ms)])]) = .ok mt := rfl
    have third (status : Text) : Ptree.get "new-log-level.severity".toList (.node [] [("kcm-sts".toList,.leaf status),
        ("new-log-level".toList,.node [] [("type".toList,.leaf mt),("severity".toList,.leaf ms)])]) = .ok ms := rfl
    simp only [reported,first,second,third,if_true]
  · simp [Ptree.writable,Ptree.writableChildren,Ptree.leaf]

theorem accepted_told (level : LogLevel) (request : Ptree)
    (typed : request.get "type".toList = .ok level.messageType.name)
    (graded : request.get "severity".toList = .ok level.severity.name) : Told request (run request .empty) := by
  have asks : asked request = some level := by
    simp only [asked,typed,graded]
    exact LogLevel.named_iff.mpr ⟨rfl,rfl⟩
  have ran : run request .empty = ([.setMessageType level.messageType.name,.setSeverity level.severity.name],
      ((Ptree.empty.put "kcm-sts".toList RequestStatus.success.text).put "new-log-level.type".toList
        level.messageType.name).put "new-log-level.severity".toList level.severity.name) := by
    simp only [run,typed,graded]
    rw [if_pos (type_names.mpr ⟨_,rfl⟩),if_pos (severity_names.mpr ⟨_,rfl⟩)]
  obtain ⟨reports,writes⟩ := accepted_reported level.messageType.name level.severity.name
  rw [ran]
  refine ⟨?_,writes,Nat.le_add_right 2 1,?_,?_⟩
  · rw [asks,reports]
    exact LogLevel.named_iff.mpr ⟨rfl,rfl⟩
  · intro nothing
    rw [asks] at nothing
    cases nothing
  · intro before
    rw [asks]
    obtain ⟨mt,ms⟩ := level
    cases mt <;> cases ms <;> rfl

theorem sets_still {statements : List LogStatement}
    (still : ∀ statement ∈ statements, ∀ level, statement.sets level = level) (level : LogLevel) :
    statements.foldl LogStatement.sets level = level := by
  induction statements with
  | nil => rfl
  | cons statement rest ih =>
    rw [List.foldl_cons,still statement List.mem_cons_self]
    exact ih fun other behind => still other (List.mem_cons_of_mem _ behind)

theorem run_told (request : Ptree) : Told request (run request .empty) := by
  have refused (statements : List LogStatement) (status : RequestStatus) (message : Text)
      (short : statements.length ≤ 3) (still : ∀ statement ∈ statements, ∀ level, statement.sets level = level)
      (nothing : asked request = none) : Told request (statements,refuse .empty status message) := by
    obtain ⟨unreported,writes⟩ := refused_unreported status message
    refine ⟨unreported.trans nothing.symm,writes,short,fun _ => still,fun level => ?_⟩
    rw [nothing]
    exact sets_still still level
  have logged (e : BadPath) : ∀ statement ∈ [LogStatement.call (.text "Exception: ".toList),.call (.text e.what),
      .call .endl], ∀ level, statement.sets level = level := by
    intro statement member level
    rcases List.mem_cons.mp member with rfl | member
    · rfl
    · rcases List.mem_cons.mp member with rfl | member
      · rfl
      · rw [List.mem_singleton.mp member]
        rfl
  have silent : ∀ statement ∈ ([] : List LogStatement), ∀ level, statement.sets level = level :=
    fun _ absent => absurd absent List.not_mem_nil
  cases typed : request.get "type".toList with
  | error e =>
    have nothing : asked request = none := by simp only [asked,typed]
    simp only [run,typed]
    exact refused _ _ _ le_rfl (logged e) nothing
  | ok mt =>
    cases graded : request.get "severity".toList with
    | error e =>
      have nothing : asked request = none := by simp only [asked,typed,graded]
      simp only [run,typed,graded]
      exact refused _ _ _ le_rfl (logged e) nothing
    | ok ms =>
      cases asks : asked request with
      | some level =>
        have named := asks
        simp only [asked,typed,graded] at named
        obtain ⟨rfl,rfl⟩ := LogLevel.named_iff.mp named
        exact accepted_told level request typed graded
      | none =>
        have unnamed : LogLevel.named mt ms = none := by simpa only [asked,typed,graded] using asks
        simp only [run,typed,graded]
        by_cases known : mt = "debug".toList ∨ mt = "info".toList ∨ mt = "error".toList
        · have unknown : ¬ (ms = "low".toList ∨ ms = "normal".toList ∨ ms = "high".toList) := by
            intro both
            obtain ⟨t,rfl⟩ := type_names.mp known
            obtain ⟨s,rfl⟩ := severity_names.mp both
            have some : LogLevel.named t.name s.name = some ⟨t,s⟩ := LogLevel.named_iff.mpr ⟨rfl,rfl⟩
            rw [some] at unnamed
            cases unnamed
          rw [if_pos known,if_neg unknown]
          exact refused _ _ _ (Nat.zero_le _) silent asks
        · rw [if_neg known]
          exact refused _ _ _ (Nat.zero_le _) silent asks

end LogLevelAdjuster

structure Mirrors (s : LevelServer) (t : Threshold) : Prop where
  level : s.logs.lssPerm.level = t.level
  handler : s.handler = t.handler
  live : s.handler ≠ none → s.logs.Live

theorem step_mirrors (src : Text) {s : LevelServer} {t : Threshold} (follows : Mirrors s t) (event : LevelEvent) :
    (s.step src event).1 = (t.step event).1 ∧ Mirrors (s.step src event).2 (t.step event).2 := by
  obtain ⟨logs,handler⟩ := s
  obtain ⟨level,same⟩ := t
  obtain ⟨rfl,rfl,live⟩ := follows
  cases event with
  | request request moment =>
    cases handler with
    | some running => exact ⟨rfl,rfl,rfl,live⟩
    | none =>
      obtain ⟨kept,opened⟩ := logs.declare_level src moment
      exact ⟨rfl,kept,rfl,fun _ => opened⟩
  | proceed moment flushing =>
    match handler with
    | none => exact ⟨rfl,rfl,rfl,live⟩
    | some ⟨request,[],response⟩ =>
      have kept := congrArg LogStreamSettings.level (logs.destroy_shared 0 moment flushing)
      exact ⟨rfl,kept,rfl,fun running => absurd rfl running⟩
    | some ⟨request,statement :: rest,response⟩ =>
      obtain ⟨set,still⟩ := LogSystem.execute_level (live (Option.some_ne_none _)) moment statement
      exact ⟨rfl,set,rfl,fun _ => still⟩
  | other e =>
    have keeps := logs.beside_keeps e.property
    refine ⟨rfl,congrArg LogStreamSettings.level keeps.shared,rfl,fun running => ?_⟩
    change ((logs.apply e.val.beside).streams 0).isSome = true
    rw [keeps.own 0 rfl]
    exact live running

theorem run_mirrors (src : Text) {s : LevelServer} {t : Threshold} (follows : Mirrors s t) (events : List LevelEvent) :
    ((levelServer src).run s events).1 = (threshold.run t events).1 ∧
      Mirrors ((levelServer src).run s events).2 (threshold.run t events).2 := by
  have step : ∀ s t event, Mirrors s t → True → ((levelServer src).step s event).1 = (threshold.step t event).1 ∧
      Mirrors ((levelServer src).step s event).2 (threshold.step t event).2 :=
    fun _ _ event related _ => step_mirrors src related event
  exact run_simulates step follows (admits_always (fun _ _ (_ : True) => ⟨trivial,trivial⟩) trivial events)

def lastReported (start : LogLevel) (answers : List LevelAnswer) : LogLevel :=
  ((answers.filterMap LevelAnswer.reply).reverse.findSome? LogLevelAdjuster.reported).getD start

def RepliesTo (request reply : Ptree) : Prop :=
  reply.writable = true ∧ LogLevelAdjuster.reported reply = LogLevelAdjuster.asked request

def UnderWay (before : LogLevel) (t : Threshold) : Option Adjusting → Prop
  | none => t.level = before
  | some h => RepliesTo h.request h.response ∧ h.statements.length ≤ 3 ∧
    (LogLevelAdjuster.asked h.request = none →
      t.level = before ∧ ∀ statement ∈ h.statements, ∀ level, statement.sets level = level) ∧
    h.statements.foldl LogStatement.sets t.level = (LogLevelAdjuster.asked h.request).getD before

structure Reckoned (start : LogLevel) (answers : List LevelAnswer) (t : Threshold) : Prop where
  paired : ∃ answered, answers.filterMap LevelAnswer.request = answered ++ t.handler.toList.map Adjusting.request ∧
    List.Forall₂ RepliesTo answered (answers.filterMap LevelAnswer.reply)
  underWay : UnderWay (lastReported start answers) t t.handler

theorem lastReported_silent (start : LogLevel) (answers : List LevelAnswer) {answer : LevelAnswer}
    (none : answer.reply = none) :
    lastReported start (answers ++ [answer]) = lastReported start answers := by
  simp [lastReported,List.filterMap_append,none]

theorem lastReported_reply (start : LogLevel) (answers : List LevelAnswer) (reply : Ptree) :
    lastReported start (answers ++ [.replied reply]) =
      (LogLevelAdjuster.reported reply).getD (lastReported start answers) := by
  have last : (answers ++ [LevelAnswer.replied reply]).filterMap LevelAnswer.reply =
      answers.filterMap LevelAnswer.reply ++ [reply] := by simp [List.filterMap_append,LevelAnswer.reply]
  rw [lastReported,lastReported,last,List.reverse_append,List.reverse_singleton,List.singleton_append,List.findSome?_cons]
  cases LogLevelAdjuster.reported reply <;> rfl

theorem accounted_silent {start : LogLevel} {answers : List LevelAnswer} {t next : Threshold}
    (accounted : Reckoned start answers t) (same : next.handler.map Adjusting.request = t.handler.map Adjusting.request)
    (underWay : UnderWay (lastReported start answers) next next.handler) :
    Reckoned start (answers ++ [.silent]) next := by
  obtain ⟨answered,taken,pairs⟩ := accounted.paired
  have request : (answers ++ [LevelAnswer.silent]).filterMap LevelAnswer.request =
      answers.filterMap LevelAnswer.request := by simp [LevelAnswer.request]
  have reply : (answers ++ [LevelAnswer.silent]).filterMap LevelAnswer.reply = answers.filterMap LevelAnswer.reply := by
    simp [LevelAnswer.reply]
  refine ⟨⟨answered,?_,?_⟩,?_⟩
  · rw [request,taken,← Option.toList_map,← Option.toList_map,same]
  · rwa [reply]
  · rwa [lastReported_silent start answers rfl]

theorem step_accounted {start : LogLevel} {answers : List LevelAnswer} {t : Threshold}
    (accounted : Reckoned start answers t) (event : LevelEvent) :
    Reckoned start (answers ++ [(t.step event).1]) (t.step event).2 := by
  obtain ⟨answered,taken,pairs⟩ := accounted.paired
  have underWay := accounted.underWay
  obtain ⟨level,handler⟩ := t
  cases event with
  | request request moment =>
    cases handler with
    | some running => exact accounted_silent accounted rfl underWay
    | none =>
      have told := LogLevelAdjuster.run_told request
      refine ⟨⟨answered,?_,?_⟩,?_⟩
      · simpa [Threshold.step,LevelAnswer.request] using taken
      · simpa [Threshold.step,LevelAnswer.reply,List.filterMap_cons] using pairs
      · rw [lastReported_silent start answers rfl]
        refine ⟨⟨told.writes,told.truth⟩,told.short,fun nothing => ⟨underWay,told.still nothing⟩,?_⟩
        rw [← underWay]
        exact told.sets level
  | proceed moment flushing =>
    match handler with
    | none => exact accounted_silent accounted rfl underWay
    | some ⟨request,statement :: rest,response⟩ =>
      obtain ⟨answer,short,refused,reaches⟩ := underWay
      refine accounted_silent accounted rfl ⟨answer,Nat.le_of_succ_le short,fun nothing => ?_,reaches⟩
      obtain ⟨same,still⟩ := refused nothing
      exact ⟨(still statement List.mem_cons_self level).trans same,
        fun other behind => still other (List.mem_cons_of_mem _ behind)⟩
    | some ⟨request,[],response⟩ =>
      obtain ⟨answer,_,_,reaches⟩ := underWay
      refine ⟨⟨answered ++ [request],?_,?_⟩,?_⟩
      · simpa [Threshold.step,LevelAnswer.request,List.filterMap_cons] using taken
      · have last : (answers ++ [LevelAnswer.replied response]).filterMap LevelAnswer.reply =
            answers.filterMap LevelAnswer.reply ++ [response] := by simp [LevelAnswer.reply]
        change List.Forall₂ RepliesTo (answered ++ [request])
          ((answers ++ [LevelAnswer.replied response]).filterMap LevelAnswer.reply)
        rw [last]
        exact List.rel_append pairs (.cons answer .nil)
      · change level = lastReported start (answers ++ [.replied response])
        rw [lastReported_reply,answer.2]
        exact reaches
  | other e => exact accounted_silent accounted rfl underWay

theorem run_accounted (start : LogLevel) (events : List LevelEvent) :
    Reckoned start (threshold.run ⟨start,none⟩ events).1 (threshold.run ⟨start,none⟩ events).2 := by
  induction events using List.reverseRecOn with
  | nil => exact ⟨⟨[],rfl,.nil⟩,rfl⟩
  | append_singleton earlier event ih =>
    rw [run_append]
    exact step_accounted ih event

def LevelEvent.proceeds : LevelEvent → Bool
  | .proceed _ _ => true
  | _ => false

theorem run_replies {level : LogLevel} {h : Adjusting} {later : List LevelEvent}
    (enough : h.statements.length < later.countP LevelEvent.proceeds) :
    (threshold.run ⟨level,some h⟩ later).1.filterMap LevelAnswer.reply ≠ [] := by
  induction later generalizing level h with
  | nil => cases enough
  | cons event rest ih =>
    rw [run_cons]
    cases event with
    | request request moment =>
      have still : h.statements.length < rest.countP LevelEvent.proceeds := by
        rwa [List.countP_cons_of_neg (by simp [LevelEvent.proceeds])] at enough
      exact ih still
    | other e =>
      have still : h.statements.length < rest.countP LevelEvent.proceeds := by
        rwa [List.countP_cons_of_neg (by simp [LevelEvent.proceeds])] at enough
      exact ih still
    | proceed moment flushing =>
      rw [List.countP_cons_of_pos rfl] at enough
      obtain ⟨request,statements,response⟩ := h
      cases statements with
      | nil => exact List.cons_ne_nil _ _
      | cons statement behind => exact ih (h := ⟨request,behind,response⟩) (Nat.lt_of_succ_lt_succ enough)

-- A server whose logging has just been initialised, after whatever was logged
-- before.
def LevelServer.started (conv : Conversions) (settings : LogSettings) (opening ending flushing : LogMoment)
    (sys : LogSystem) : LevelServer := ⟨sys.initializeLogging conv settings opening ending flushing,none⟩

theorem started_mirrors (conv : Conversions) (settings : LogSettings) (opening ending flushing : LogMoment)
    (sys : LogSystem) : Mirrors (.started conv settings opening ending flushing sys) ⟨settings.configured,none⟩ :=
  ⟨sys.initializeLogging_level conv settings opening ending flushing,rfl,fun running => absurd rfl running⟩

-- Whatever the other threads log meanwhile: the level of a server is the last
-- one it reported to a client, and before that the configured one; only while
-- a request is carried out that will be granted it may be on its way from one
-- to the next. A reply reports exactly the level that was asked for, and each
-- request has its reply once its handler has had four turns.
theorem level_reported (src : Text) (conv : Conversions) (settings : LogSettings) (opening ending flushing : LogMoment)
    (sys : LogSystem) (events : List LevelEvent) :
    let started := LevelServer.started conv settings opening ending flushing sys
    let run := (levelServer src).run started events
    let replies (answers : List LevelAnswer) := answers.filterMap LevelAnswer.reply
    ((run.2.handler.bind fun h => LogLevelAdjuster.asked h.request) = none → run.2.logs.lssPerm.level =
      ((replies run.1).reverse.findSome? LogLevelAdjuster.reported).getD settings.configured) ∧
    (∃ answered, run.1.filterMap LevelAnswer.request = answered ++ run.2.handler.toList.map Adjusting.request ∧
      List.Forall₂ RepliesTo answered (replies run.1)) ∧
    ∀ later, 4 ≤ later.countP LevelEvent.proceeds →
      (run.1.filterMap LevelAnswer.request).length ≤
        (replies ((levelServer src).run started (events ++ later)).1).length := by
  intro started run replies
  have start : Mirrors started ⟨settings.configured,none⟩ := started_mirrors conv settings opening ending flushing sys
  obtain ⟨same,follows⟩ := run_mirrors src start events
  have accounted := run_accounted settings.configured events
  rw [← same] at accounted
  generalize (threshold.run ⟨settings.configured,none⟩ events).2 = t at follows accounted
  have level : run.2.logs.lssPerm.level = t.level := follows.level
  have handler : run.2.handler = t.handler := follows.handler
  obtain ⟨answered,taken,pairs⟩ := accounted.paired
  have underWay := accounted.underWay
  rw [level,handler]
  refine ⟨?_,⟨answered,taken,pairs⟩,?_⟩
  · intro ungranted
    cases running : t.handler with
    | none =>
      rw [running] at underWay
      exact underWay
    | some h =>
      rw [running] at underWay ungranted
      exact (underWay.2.2.1 ungranted).1
  · intro later enough
    have answers : ((levelServer src).run started (events ++ later)).1 =
        run.1 ++ (threshold.run t later).1 := by
      rw [run_append,(run_mirrors src follows later).1]
    have count : (run.1.filterMap LevelAnswer.request).length =
        (replies run.1).length + (t.handler.toList.map Adjusting.request).length := by
      rw [taken,List.length_append,pairs.length_eq]
    rw [count,answers]
    simp only [replies,List.filterMap_append,List.length_append]
    refine Nat.add_le_add_left ?_ _
    obtain ⟨level,current⟩ := t
    cases current with
    | none => exact Nat.zero_le _
    | some h =>
      have short : h.statements.length ≤ 3 := underWay.2.1
      exact List.length_pos_iff.mpr (run_replies (Nat.lt_of_le_of_lt short enough))

end Kisscpp
