import Kisscpp.Exchange
import Kisscpp.StatsKeeper

namespace Kisscpp
open TextLines PropertyTree DecimalText Stepping

-- A kcsrt that sends, the kcsrt that it sends to, and what is between them: the
-- messages that sendingProcessor has begun, whether it is in the constructor of
-- a client, and whether an exception that it does not catch has ended the
-- process. messageCount is what an unsigned int shows of the messages.
structure Kcsrt (σ : Type*) where
  traffic : Traffic σ
  messages : Nat
  failCount : Nat
  sending : Bool
  dead : Bool

inductive KcsrtEvent (κ : Type*) where
  | turn (resolves : Bool)
  | client (event : ClientEvent)
  | serve (message : Nat) (clientIp : Text)
  | beside (event : ServerEvent κ)

namespace Kcsrt
variable {σ : Type*}

def EchoHandler {ν Q : Type*} [Add ν] [One ν] : Handler (StatsKeeper ν Q) where
  id := "echo".toList
  description := "Will echo back what you send in.".toList
  run stats request response :=
    let stats := stats.increment "recieved".toList 1
    match request.get "message".toList with
    | .ok message =>
      (((response.put "kcm-sts".toList RequestStatus.success.text).put "you-sent".toList message,none),stats)
    | .error e => ((refuse response .missingParameter e.what,none),stats)

def fresh (kept : σ) : Kcsrt σ := ⟨.fresh kept,0,0,false,false⟩

def message (iPort : Text) (messageCount : Nat) : Text :=
  "Message Count from [".toList ++ iPort ++ "] is: ".toList ++ decimal (messageCount % 2 ^ 32)

def request (iPort oPort : Text) (messageCount : Nat) : Ptree :=
  let request := Ptree.empty.put "kcm-cmd".toList "echo".toList
  let request := request.put "kcm-hst".toList "localhost".toList
  let request := request.put "kcm-prt".toList oPort
  request.put "message".toList (message iPort messageCount)

def sentId : Text := "sent".toList
def failId : Text := "fail".toList

-- The statistic that is incremented for a message, and none where the exception
-- is neither of the two that are caught.
def counted : Except CommsException Unit → Option Text
  | .ok () => some sentId
  | .error (.retryable _) | .error (.perminant _) => some failId
  | .error _ => none

def back (k : Kcsrt σ) (outcome : Except CommsException Unit) : Option Text × Kcsrt σ :=
  match outcome with
  | .ok () => (some sentId,{k with sending := false})
  | .error (.retryable _) | .error (.perminant _) =>
    (some failId,{k with sending := false,failCount := (k.failCount + 1) % 2 ^ 32})
  | .error _ => (none,{k with dead := true})

end Kcsrt

section Processor
variable {σ κ : Type*} (json : Connection.Json) (conv : Conversions) (own cfg : Config) (map : RequestHandlerMap σ)
  (act : σ → κ → σ) (iPort oPort : Text)

-- A turn of the loop up to io_service_.run() of the client. The resolver can
-- throw before that.
def Kcsrt.turn (k : Kcsrt σ) (resolves : Bool) : Kcsrt σ :=
  if k.sending then k
  else
    let messages := k.messages + 1
    let request := Kcsrt.request iPort oPort messages
    match resolves,ClientObject.create own request .empty with
    | true,.ok _ => {k with messages := messages,sending := true,traffic := k.traffic.create messages own request .empty}
    | _,_ => {k with messages := messages,sending := true,dead := true}

def Kcsrt.call (k : Kcsrt σ) (event : ClientEvent) : Option Text × Kcsrt σ :=
  if k.sending = false ∨ k.dead = true then (none,k)
  else
    let k := {k with traffic := k.traffic.dispatch json conv k.messages event}
    match (k.traffic.clients k.messages).bind ClientObject.ended with
    | some outcome => k.back outcome
    | none => (none,k)

def sendingProcessor : Machine (Kcsrt σ) (KcsrtEvent κ) (Option Text) where
  step k
    | .turn resolves => (none,k.turn own iPort oPort resolves)
    | .client event => k.call json conv event
    | .serve message clientIp => (none,{k with traffic := k.traffic.serve json cfg map message clientIp})
    | .beside event =>
      (none,{k with traffic := {k.traffic with kept := ((serving json cfg map act).step k.traffic.kept event).2}})

end Processor

namespace Kcsrt

def stamped (own : Config) (iPort oPort : Text) (messageCount : Nat) : Ptree :=
  ptreeAddOrPut (ptreeAddOrPut (request iPort oPort messageCount) "kcm-client.id".toList own.applicationId)
    "kcm-client.instance".toList own.applicationInstance

section Requests
variable (own : Config) (iPort oPort : Text) (messageCount : Nat)

theorem request_reads :
    (request iPort oPort messageCount).get "kcm-cmd".toList = .ok "echo".toList ∧
    (request iPort oPort messageCount).get "kcm-hst".toList = .ok "localhost".toList ∧
    (request iPort oPort messageCount).get "kcm-prt".toList = .ok oPort ∧
    (request iPort oPort messageCount).get "message".toList = .ok (message iPort messageCount) := by
  refine ⟨?_,?_,?_,?_⟩
  · rw [request,Ptree.get_put_ne rfl rfl _ _ rfl (by decide),Ptree.get_put_ne rfl rfl _ _ rfl (by decide),
      Ptree.get_put_ne rfl rfl _ _ rfl (by decide),Ptree.get_put_self rfl rfl]
  · rw [request,Ptree.get_put_ne rfl rfl _ _ rfl (by decide),Ptree.get_put_ne rfl rfl _ _ rfl (by decide),
      Ptree.get_put_self rfl rfl]
  · rw [request,Ptree.get_put_ne rfl rfl _ _ rfl (by decide),Ptree.get_put_self rfl rfl]
  · rw [request,Ptree.get_put_self rfl rfl]

theorem create_request : ClientObject.create own (request iPort oPort messageCount) .empty =
    .ok (ClientObject.opened ⟨"localhost".toList,oPort,stamped own iPort oPort messageCount⟩ .empty) := by
  obtain ⟨_,host,port,_⟩ := request_reads iPort oPort messageCount
  rw [ClientObject.create,client,host,port]
  rfl

theorem stamped_reads {path value : Text} (apart : reduced path ≠ reduced "kcm-client.id".toList)
    (different : reduced path ≠ reduced "kcm-client.instance".toList)
    (reads : (request iPort oPort messageCount).get path = .ok value) :
    (stamped own iPort oPort messageCount).get path = .ok value :=
  addOrPut_others _ different (addOrPut_others _ apart reads)

end Requests
theorem back_traffic {σ : Type*} (k : Kcsrt σ) (outcome : Except CommsException Unit) :
    (k.back outcome).2.traffic = k.traffic := by
  unfold back
  split <;> rfl

section Tallies
variable {σ κ : Type*} (json : Connection.Json) (conv : Conversions) (own cfg : Config) (map : RequestHandlerMap σ)
  (act : σ → κ → σ) (iPort oPort : Text)

structure Recorded (k : Kcsrt σ) (calls : List Text) : Prop where
  fails : k.failCount = calls.count failId % 2 ^ 32
  outcomes : ∀ i id, calls[i]? = some id → ∃ c outcome, k.traffic.clients (i + 1) = some c ∧
    c.ended = some outcome ∧ counted outcome = some id
  numbered : ∀ n c, k.traffic.clients n = some c →
    1 ≤ n ∧ n ≤ k.messages ∧ c.request = stamped own iPort oPort n

structure Tallied (k : Kcsrt σ) (calls : List Text) : Prop extends Recorded own iPort oPort k calls where
  length : calls.length + k.sending.toNat = k.messages
  running : k.sending = true → k.dead = false → ∃ c, k.traffic.clients k.messages = some c ∧ c.ended = none
  lost : k.dead = true → k.sending = true ∧ ∀ c, k.traffic.clients k.messages = some c →
    ∃ outcome, c.ended = some outcome ∧ counted outcome = none

variable {own iPort oPort} {k : Kcsrt σ} {calls : List Text}

theorem Tallied.aside (tallied : Tallied own iPort oPort k calls) {traffic : Traffic σ}
    (same : traffic.clients = k.traffic.clients) : Tallied own iPort oPort {k with traffic := traffic} calls := by
  obtain ⟨⟨fails,outcomes,numbered⟩,length,running,lost⟩ := tallied
  rw [← same] at outcomes numbered running lost
  exact ⟨⟨fails,outcomes,numbered⟩,length,running,lost⟩

theorem serve_clients (t : Traffic σ) (key : Nat) (clientIp : Text) :
    (t.serve json cfg map key clientIp).clients = t.clients := by
  unfold Traffic.serve
  split
  · split <;> rfl
  · rfl

theorem turn_begins (idle : k.sending = false) : k.turn own iPort oPort true =
    {k with messages := k.messages + 1,sending := true,
            traffic := k.traffic.create (k.messages + 1) own (request iPort oPort (k.messages + 1)) .empty} := by
  rw [turn,if_neg (by simp [idle])]
  simp only [create_request own iPort oPort (k.messages + 1)]

theorem turn_unresolved (idle : k.sending = false) : k.turn own iPort oPort false =
    {k with messages := k.messages + 1,sending := true,dead := true} := by
  rw [turn,if_neg (by simp [idle])]

theorem turn_tallied (tallied : Tallied own iPort oPort k calls) (resolves : Bool) :
    Tallied own iPort oPort (k.turn own iPort oPort resolves) calls := by
  cases sending : k.sending with
  | true =>
    rw [turn,if_pos sending]
    exact tallied
  | false =>
    obtain ⟨⟨fails,outcomes,numbered⟩,length,_,lost⟩ := tallied
    have count : calls.length = k.messages := by simpa [sending] using length
    have vacant : k.traffic.clients (k.messages + 1) = none := by
      cases present : k.traffic.clients (k.messages + 1) with
      | none => rfl
      | some c => exact absurd (numbered _ c present).2.1 (by omega)
    have alive : k.dead = false := by
      cases dead : k.dead with
      | false => rfl
      | true => cases sending.symm.trans (lost dead).1
    have known {n : Nat} {c : ClientObject} (live : k.traffic.clients n = some c) :
        1 ≤ n ∧ n ≤ k.messages + 1 ∧ c.request = stamped own iPort oPort n := by
      obtain ⟨first,last,same⟩ := numbered n c live
      exact ⟨first,Nat.le_succ_of_le last,same⟩
    cases resolves with
    | false =>
      rw [turn_unresolved sending]
      refine ⟨⟨fails,outcomes,fun n c live => known live⟩,by simp [count],nofun,fun _ => ⟨rfl,?_⟩⟩
      intro c live
      cases vacant.symm.trans live
    | true =>
      have clients (n : Nat) :
          (k.traffic.create (k.messages + 1) own (request iPort oPort (k.messages + 1)) .empty).clients n =
          if n = k.messages + 1 then
            some (ClientObject.opened ⟨"localhost".toList,oPort,stamped own iPort oPort (k.messages + 1)⟩ .empty)
          else k.traffic.clients n := by
        rw [Traffic.create,vacant,create_request own iPort oPort (k.messages + 1)]
      rw [turn_begins sending]
      refine ⟨⟨fails,?_,?_⟩,by simp [count],?_,?_⟩
      · intro i id called
        have early : i < calls.length := (List.getElem?_eq_some_iff.mp called).1
        simp only [clients,if_neg (by omega : ¬ i + 1 = k.messages + 1)]
        exact outcomes i id called
      · intro n c live
        simp only [clients] at live
        split at live
        · next here =>
          subst here
          cases live
          exact ⟨Nat.le_add_left 1 _,le_rfl,rfl⟩
        · exact known live
      · intro _ _
        exact ⟨_,(clients _).trans (if_pos rfl),rfl⟩
      · intro dead
        cases alive.symm.trans dead

theorem dispatch_clients {t : Traffic σ} (regular : Regular json conv cfg map t) {key : Nat} {c : ClientObject}
    (live : t.clients key = some c) (event : ClientEvent) : ∃ after, after.request = c.request ∧
      ∀ n, (t.dispatch json conv key event).clients n = if n = key then some after else t.clients n := by
  unfold Traffic.dispatch
  rw [live]
  simp only
  split
  · have stepped := ClientObject.step_stepped json conv (regular.sound key c live) event
    exact ⟨_,(ClientObject.stepped_line stepped).1,fun n => rfl⟩
  · refine ⟨c,rfl,fun n => ?_⟩
    split
    · next here => rw [here,live]
    · rfl

theorem back_tallied {k : Kcsrt σ} {outcome : Except CommsException Unit} {c : ClientObject}
    (recorded : Recorded own iPort oPort k calls) (count : calls.length + 1 = k.messages) (sending : k.sending = true)
    (alive : k.dead = false) (here : k.traffic.clients k.messages = some c) (ended : c.ended = some outcome) :
    Tallied own iPort oPort (k.back outcome).2 (calls ++ (k.back outcome).1.toList) := by
  -- The message that is counted is the next one.
  have next {id : Text} (call : counted outcome = some id) (i : Nat) (other : Text)
      (found : (calls ++ [id])[i]? = some other) : ∃ c outcome, k.traffic.clients (i + 1) = some c ∧
        c.ended = some outcome ∧ counted outcome = some other := by
    rcases Nat.lt_or_ge i calls.length with early | late
    · rw [List.getElem?_append_left early] at found
      exact recorded.outcomes i other found
    · have last : i = calls.length := by
        have inside := (List.getElem?_eq_some_iff.mp found).1
        rw [List.length_append,List.length_singleton] at inside
        omega
      rw [last,List.getElem?_concat_length] at found
      cases found
      exact ⟨c,outcome,by rw [last,count]; exact here,ended,call⟩
  have counts {id : Text} (call : counted outcome = some id) {failCount : Nat}
      (fails : failCount = (calls ++ [id]).count failId % 2 ^ 32) :
      Tallied own iPort oPort {k with sending := false,failCount := failCount} (calls ++ [id]) := by
    refine ⟨⟨fails,next call,recorded.numbered⟩,by simpa using count,nofun,?_⟩
    · intro dead
      cases alive.symm.trans dead
  have ends (call : counted outcome = none) : Tallied own iPort oPort {k with dead := true} (calls ++ []) := by
    rw [List.append_nil]
    refine ⟨⟨recorded.fails,recorded.outcomes,recorded.numbered⟩,by simpa [sending] using count,nofun,
      fun _ => ⟨sending,?_⟩⟩
    intro other live
    cases here.symm.trans live
    exact ⟨outcome,ended,call⟩
  have failed : (k.failCount + 1) % 2 ^ 32 = (calls ++ [failId]).count failId % 2 ^ 32 := by
    rw [List.count_append,List.count_singleton_self,recorded.fails]
    omega
  have passed : k.failCount = (calls ++ [sentId]).count failId % 2 ^ 32 := by
    rw [List.count_append,List.count_singleton,if_neg (by decide),Nat.add_zero]
    exact recorded.fails
  cases outcome with
  | ok _ => exact counts rfl passed
  | error e =>
    cases e with
    | retryable text => exact counts rfl failed
    | perminant text => exact counts rfl failed
    | jsonParserError => exact ends rfl
    | badPath what => exact ends rfl

theorem call_tallied (regular : Regular json conv cfg map k.traffic) (tallied : Tallied own iPort oPort k calls)
    (event : ClientEvent) :
    Tallied own iPort oPort (k.call json conv event).2 (calls ++ (k.call json conv event).1.toList) := by
  by_cases idle : k.sending = false ∨ k.dead = true
  · rw [call,if_pos idle,Option.toList_none,List.append_nil]
    exact tallied
  obtain ⟨⟨fails,outcomes,numbered⟩,length,running,lost⟩ := tallied
  have sending : k.sending = true := by simpa using (not_or.mp idle).1
  have alive : k.dead = false := by simpa using (not_or.mp idle).2
  obtain ⟨c,live,_⟩ := running sending alive
  obtain ⟨after,same,clients⟩ := dispatch_clients json conv cfg map regular live event
  have count : calls.length + 1 = k.messages := by simpa [sending] using length
  have here : (k.traffic.dispatch json conv k.messages event).clients k.messages = some after := by
    rw [clients,if_pos rfl]
  have known (n : Nat) (d : ClientObject) (present : (k.traffic.dispatch json conv k.messages event).clients n = some d) :
      1 ≤ n ∧ n ≤ k.messages ∧ d.request = stamped own iPort oPort n := by
    rw [clients] at present
    split at present
    · next own =>
      subst own
      cases present
      obtain ⟨first,last,before⟩ := numbered _ c live
      exact ⟨first,last,same.trans before⟩
    · exact numbered n d present
  have kept (i : Nat) (id : Text) (called : calls[i]? = some id) : ∃ c outcome,
      (k.traffic.dispatch json conv k.messages event).clients (i + 1) = some c ∧ c.ended = some outcome ∧
        counted outcome = some id := by
    have early : i < calls.length := (List.getElem?_eq_some_iff.mp called).1
    rw [clients,if_neg (by omega : ¬ i + 1 = k.messages)]
    exact outcomes i id called
  rw [call,if_neg idle]
  simp only [here,Option.bind_some]
  cases ended : after.ended with
  | some outcome => exact back_tallied ⟨fails,kept,known⟩ count sending alive here ended
  | none =>
    rw [Option.toList_none,List.append_nil]
    refine ⟨⟨fails,kept,known⟩,length,fun _ _ => ⟨after,here,ended⟩,?_⟩
    intro dead
    cases alive.symm.trans dead

theorem step_regular {k : Kcsrt σ} (regular : Regular json conv cfg map k.traffic) (event : KcsrtEvent κ) :
    Regular json conv cfg map ((sendingProcessor json conv own cfg map act iPort oPort).step k event).2.traffic := by
  cases event with
  | turn resolves =>
    change Regular json conv cfg map (k.turn own iPort oPort resolves).traffic
    unfold turn
    split
    · exact regular
    · dsimp only
      split
      · exact create_regular regular _ own _ .empty
      · exact regular
  | client event =>
    change Regular json conv cfg map (k.call json conv event).2.traffic
    have dispatched := dispatch_regular regular k.messages event
    unfold call
    split
    · exact regular
    · dsimp only
      split
      · rw [back_traffic]
        exact dispatched
      · exact dispatched
  | serve message clientIp => exact serve_regular regular message clientIp
  | beside event =>
    exact ⟨regular.once,regular.origin,regular.sound,regular.wrote,regular.connecting,regular.received⟩

theorem step_tallied (regular : Regular json conv cfg map k.traffic) (tallied : Tallied own iPort oPort k calls)
    (event : KcsrtEvent κ) :
    Tallied own iPort oPort ((sendingProcessor json conv own cfg map act iPort oPort).step k event).2
      (calls ++ ((sendingProcessor json conv own cfg map act iPort oPort).step k event).1.toList) := by
  cases event with
  | client event => exact call_tallied json conv cfg map regular tallied event
  | turn resolves =>
    change Tallied own iPort oPort (k.turn own iPort oPort resolves) (calls ++ [])
    rw [List.append_nil]
    exact turn_tallied tallied resolves
  | serve message clientIp =>
    change Tallied own iPort oPort {k with traffic := k.traffic.serve json cfg map message clientIp} (calls ++ [])
    rw [List.append_nil]
    exact tallied.aside (serve_clients json cfg map k.traffic message clientIp)
  | beside event =>
    change Tallied own iPort oPort {k with traffic := {k.traffic with kept := _}} (calls ++ [])
    rw [List.append_nil]
    exact tallied.aside rfl

theorem run_tallied {k : Kcsrt σ} {calls : List Text} (regular : Regular json conv cfg map k.traffic)
    (tallied : Tallied own iPort oPort k calls) (events : List (KcsrtEvent κ)) :
    let run := (sendingProcessor json conv own cfg map act iPort oPort).run k events
    Regular json conv cfg map run.2.traffic ∧ Tallied own iPort oPort run.2 (calls ++ run.1.reduceOption) := by
  induction events generalizing k calls with
  | nil =>
    refine ⟨regular,?_⟩
    change Tallied own iPort oPort k (calls ++ [])
    rw [List.append_nil]
    exact tallied
  | cons event rest ih =>
    have later := ih (step_regular json conv cfg map act regular event)
      (step_tallied json conv cfg map act regular tallied event)
    refine ⟨later.1,?_⟩
    have same : ((sendingProcessor json conv own cfg map act iPort oPort).run k (event :: rest)).1.reduceOption =
        ((sendingProcessor json conv own cfg map act iPort oPort).step k event).1.toList ++
          ((sendingProcessor json conv own cfg map act iPort oPort).run
            ((sendingProcessor json conv own cfg map act iPort oPort).step k event).2 rest).1.reduceOption := by
      rw [run_cons]
      cases ((sendingProcessor json conv own cfg map act iPort oPort).step k event).1 with
      | none => rfl
      | some id => rfl
    rw [same,← List.append_assoc]
    exact later.2

theorem runs_message (regular : Regular json conv cfg map k.traffic) (tallied : Tallied own iPort oPort k calls) {n : Nat}
    (ran : k.traffic.runs n = 1) : 1 ≤ n ∧ n ≤ k.messages := by
  have reached : k.traffic.served.filter (fun e => e.1 = n) ≠ [] := by
    intro nobody
    rw [Traffic.runs,nobody] at ran
    cases ran
  obtain ⟨e,member⟩ := List.exists_mem_of_ne_nil _ reached
  obtain ⟨inside,named⟩ := List.mem_filter.mp member
  obtain ⟨line,written,_⟩ := regular.origin e inside
  obtain ⟨c,live,_⟩ := regular.wrote _ _ written
  obtain ⟨first,last,_⟩ := tallied.numbered _ c live
  have same : e.1 = n := by simpa using named
  exact same ▸ ⟨first,last⟩

theorem fresh_tallied (kept : σ) : Tallied own iPort oPort (fresh kept) [] :=
  ⟨⟨rfl,nofun,nofun⟩,rfl,nofun,nofun⟩

end Tallies

section Timers
variable {σ : Type*} (json : Connection.Json) (conv : Conversions)

theorem timer_outcome {c : ClientObject} (sound : c.Sound) (running : c.ended = none) :
    ∃ late, (c.step json conv .expires).2 = late ∧ late.ended = none ∧
      ∃ outcome, (late.step json conv .timeout).2.ended = some outcome ∧ (counted outcome).isSome = true := by
  have idleOrBusy : c.timer = .waiting ∨ c.timer = .expired ∨ c.timer = .aborted ∧ c.socket = .idle := by
    cases sound with
    | busy _ _ ticking => exact ticking.imp_right .inl
    | received _ idle ticking =>
      rcases ticking with aborted | expired
      · exact .inr (.inr ⟨aborted,idle⟩)
      · exact .inr (.inl expired)
    | returned ended | unreadable ended | threw ended => cases running.symm.trans ended
  refine ⟨_,rfl,?_⟩
  rcases idleOrBusy with waiting | expired | ⟨aborted,idle⟩
  · simp [ClientObject.step,running,waiting,ClientObject.handleTimeout,ClientObject.settle,ClientObject.lapsed,counted]
  · simp [ClientObject.step,running,expired,ClientObject.handleTimeout,ClientObject.settle,ClientObject.lapsed,counted]
  · simp [ClientObject.step,running,aborted,idle,ClientObject.handleTimeout,ClientObject.settle,counted]

theorem dispatch_live {t : Traffic σ} {key : Nat} {c : ClientObject} (event : ClientEvent) (live : t.clients key = some c)
    (carried : t.Carries key event) : (t.dispatch json conv key event).clients key = some (c.step json conv event).2 := by
  simp [Traffic.dispatch,live,carried]

theorem call_timeout {k : Kcsrt σ} {c : ClientObject} (sending : k.sending = true) (alive : k.dead = false)
    (live : k.traffic.clients k.messages = some c) (sound : c.Sound) (running : c.ended = none) :
    ((k.call json conv .expires).2.call json conv .timeout).2.sending = false := by
  obtain ⟨late,rfl,waits,outcome,ended,known⟩ := timer_outcome json conv sound running
  have busy : ¬ (k.sending = false ∨ k.dead = true) := by simp [sending,alive]
  have first := dispatch_live json conv .expires live trivial
  have expired : k.call json conv .expires =
      (none,{k with traffic := k.traffic.dispatch json conv k.messages .expires}) := by
    rw [call,if_neg busy]
    simp only [first,Option.bind_some,waits]
  have second := dispatch_live json conv .timeout first trivial
  rw [expired,call,if_neg busy]
  simp only [second,Option.bind_some,ended]
  cases outcome with
  | ok _ => rfl
  | error e =>
    cases e with
    | retryable text => rfl
    | perminant text => rfl
    | jsonParserError => cases known
    | badPath what => cases known

end Timers

def Survives (json : Connection.Json) (path : Text) : Prop :=
  ∀ tree text read, json.writeJson tree = some text → json.readJson (client.getline text) = some read →
    read.get path = tree.get path

def readPaths : List Text := ["kcm-sts".toList,"kcm-cmd".toList,"message".toList,"you-sent".toList]

section Trips
variable {ν Q κ : Type*} [Add ν] [One ν] {json : Connection.Json} {conv : Conversions} (own cfg : Config)
  (handlers : RequestHandlerMap (StatsKeeper ν Q)) (act : StatsKeeper ν Q → κ → StatsKeeper ν Q) (iPort oPort : Text)

theorem echoed (survives : ∀ path ∈ readPaths, Survives json path) {n : Nat} {line : Text} {served : Connection.Served}
    (written : json.writeJson (stamped own iPort oPort n) = some line)
    (handled : Handled json cfg (handlers.registerHandler EchoHandler) line served) :
    served.rawResponse.get "you-sent".toList = .ok (message iPort n) := by
  obtain ⟨s,request,command,handler,after,parsed,_,cmd,found,ran,_⟩ := handled
  obtain ⟨echo,_,_,text⟩ := request_reads iPort oPort n
  have command : request.get "kcm-cmd".toList = .ok "echo".toList :=
    (survives _ (by decide) _ _ _ written parsed).trans (stamped_reads own iPort oPort n (by decide) (by decide) echo)
  have message : request.get "message".toList = .ok (message iPort n) :=
    (survives _ (by decide) _ _ _ written parsed).trans (stamped_reads own iPort oPort n (by decide) (by decide) text)
  cases cmd.symm.trans command
  have own : (handlers.registerHandler EchoHandler).find "echo".toList = some EchoHandler :=
    OrderedMap.find_put_self _ _ _
  cases found.symm.trans own
  have left : EchoHandler.run s request .empty =
      (((Ptree.empty.put "kcm-sts".toList RequestStatus.success.text).put "you-sent".toList (Kcsrt.message iPort n),none),
        s.increment "recieved".toList 1) := by
    simp only [EchoHandler,message]
  have response := congrArg (fun run => run.1.1) (ran.symm.trans left)
  simp only at response
  rw [response,Ptree.get_put_self rfl rfl]

-- However the messages, their answers and the timers come, are lost or are late:
-- each message that was begun is counted once or is under way, one at a time; no
-- message is handled twice; one that is counted as sent was handled once and its
-- answer is what it said; a message under way is over when its timer was heard;
-- and the process is lost only by what is not one of the two failures.
theorem messages_echoed (survives : ∀ path ∈ readPaths, Survives json path) (reads : ReadsStatuses conv)
    (kept : StatsKeeper ν Q) (events : List (KcsrtEvent κ)) :
    let processor := sendingProcessor json conv own cfg (handlers.registerHandler EchoHandler) act iPort oPort
    let run := processor.run (fresh kept) events
    let calls := run.1.reduceOption
    let k := run.2
    calls.length + k.sending.toNat = k.messages ∧ k.failCount = calls.count failId % 2 ^ 32 ∧
    (∀ n, k.traffic.runs n ≤ 1 ∧ (k.traffic.runs n = 1 → 1 ≤ n ∧ n ≤ k.messages)) ∧
    (∀ i id, calls[i]? = some id → id = failId ∨ id = sentId ∧ k.traffic.runs (i + 1) = 1 ∧
      ∃ c, k.traffic.clients (i + 1) = some c ∧ c.response.get "you-sent".toList = .ok (message iPort (i + 1))) ∧
    (k.sending = true → k.dead = false → (processor.run k [.client .expires,.client .timeout]).2.sending = false) ∧
    (k.dead = true ↔ k.sending = true ∧ ∀ c, k.traffic.clients k.messages = some c →
      c.ended = some (.error .jsonParserError) ∨ ∃ what, c.ended = some (.error (.badPath what))) := by
  dsimp only
  have start : Tallied own iPort oPort (fresh kept) [] := fresh_tallied kept
  obtain ⟨regular,tallied⟩ := run_tallied json conv cfg (handlers.registerHandler EchoHandler) act
    (fresh_regular json conv cfg (handlers.registerHandler EchoHandler) kept) start events
  rw [List.nil_append] at tallied
  generalize (sendingProcessor json conv own cfg (handlers.registerHandler EchoHandler) act iPort oPort).run
    (fresh kept) events = run at regular tallied ⊢
  obtain ⟨notes,k⟩ := run
  refine ⟨tallied.length,tallied.fails,?_,?_,?_,?_⟩
  · exact fun n => ⟨runs_once regular n,runs_message json conv cfg _ regular tallied⟩
  · intro i id called
    obtain ⟨c,outcome,live,ended,same⟩ := tallied.outcomes i id called
    cases outcome with
    | ok _ =>
      obtain ⟨once,line,served,text,written,_,handled,answer,parsed⟩ :=
        returned_handled (survives _ (by decide)) reads regular live ended
      rw [(tallied.numbered _ c live).2.2] at written
      have echo := echoed own cfg handlers iPort oPort survives written handled
      refine .inr ⟨(Option.some.inj same).symm,once,c,live,?_⟩
      exact (survives _ (by decide) _ _ _ answer parsed).trans echo
    | error e =>
      cases e with
      | retryable text => exact .inl (Option.some.inj same).symm
      | perminant text => exact .inl (Option.some.inj same).symm
      | jsonParserError => cases same
      | badPath what => cases same
  · intro sending alive
    obtain ⟨c,live,running⟩ := tallied.running sending alive
    exact call_timeout json conv sending alive live (regular.sound _ c live) running
  · constructor
    · intro dead
      obtain ⟨sending,lost⟩ := tallied.lost dead
      refine ⟨sending,fun c live => ?_⟩
      obtain ⟨outcome,ended,uncounted⟩ := lost c live
      cases outcome with
      | ok _ => cases uncounted
      | error e =>
        cases e with
        | retryable text => cases uncounted
        | perminant text => cases uncounted
        | jsonParserError => exact .inl ended
        | badPath what => exact .inr ⟨what,ended⟩
    · rintro ⟨sending,threw⟩
      cases alive : k.dead with
      | true => rfl
      | false =>
        obtain ⟨c,live,running⟩ := tallied.running sending alive
        rcases threw c live with ended | ⟨what,ended⟩
        · cases running.symm.trans ended
        · cases running.symm.trans ended

end Trips

section FirstMessage

def tripLines : List (Text × Ptree) :=
  [("\x7b\"kcm-cmd\":\"echo\",\"kcm-hst\":\"localhost\",\"kcm-prt\":\"9001\",".toList ++
      "\"message\":\"Message Count from [9000] is: 1\",".toList ++
      "\"kcm-client\":\x7b\"id\":\"kcsrt\",\"instance\":\"0\"\x7d\x7d".toList,
    stamped (.fresh "kcsrt".toList "0".toList) "9000".toList "9001".toList 1),
   ("\x7b\"kcm-sts\":\"0\",\"you-sent\":\"Message Count from [9000] is: 1\"\x7d".toList,
    (Ptree.empty.put "kcm-sts".toList "0".toList).put "you-sent".toList (message "9000".toList 1))]

def tripJson : Connection.Json where
  readJson line := (tripLines.find? fun e => e.1 = line).map Prod.snd
  writeJson t := (tripLines.find? fun e => readPaths.all fun path => e.2.get path = t.get path).map (·.1 ++ ['\n'])

theorem tripJson_reads {e : Text × Ptree} (member : e ∈ tripLines) :
    tripJson.readJson (client.getline (e.1 ++ ['\n'])) = some e.2 := by
  have line : ∀ e ∈ tripLines.map Prod.fst, client.getline (e ++ ['\n']) = e := by decide +kernel
  have distinct : (tripLines.map Prod.fst).Nodup := by decide +kernel
  rw [line _ (List.mem_map_of_mem member)]
  have found : (tripLines.find? fun f => f.1 = e.1).isSome = true := by
    rw [List.find?_isSome]
    exact ⟨e,member,by simp⟩
  obtain ⟨f,first⟩ := Option.isSome_iff_exists.mp found
  have same : f.1 = e.1 := by simpa using List.find?_some first
  cases List.inj_on_of_nodup_map distinct (List.mem_of_find?_eq_some first) member same
  exact congrArg (Option.map Prod.snd) first

theorem tripJson_survives (path : Text) (known : path ∈ readPaths) : Survives tripJson path := by
  intro tree text read written parsed
  obtain ⟨e,found,rfl⟩ := Option.map_eq_some_iff.mp written
  have same : e.2.get path = tree.get path := by
    have all := List.find?_some found
    rw [List.all_eq_true] at all
    simpa using all path known
  have back := tripJson_reads (List.mem_of_find?_eq_some found)
  cases parsed.symm.trans back
  exact same

def firstMessage : List (KcsrtEvent Unit) :=
  [.turn true,.client (.connected none),.serve 1 "::1".toList,.client (.written none),
    .client (.read none ("\x7b\"kcm-sts\":\"0\",\"you-sent\":\"Message Count from [9000] is: 1\"\x7d".toList ++ ['\n'])),
    .client .timeout]

def firstTrip : List (Option Text) × Kcsrt (StatsKeeper Nat Unit) :=
  (sendingProcessor tripJson digits (.fresh "kcsrt".toList "0".toList) openConfig
    (RequestHandlerMap.registerHandler .empty EchoHandler) (fun stats (_ : Unit) => stats) "9000".toList "9001".toList).run
      (fresh (.fresh 1)) firstMessage

theorem messages_echoed_first : firstTrip.2.messages = 1 ∧ firstTrip.2.traffic.runs 1 = 1 ∧
    ∃ c, firstTrip.2.traffic.clients 1 = some c ∧ c.response.get "you-sent".toList = .ok (message "9000".toList 1) := by
  obtain ⟨_,_,_,answers,_⟩ := messages_echoed (.fresh "kcsrt".toList "0".toList) openConfig .empty
    (fun stats (_ : Unit) => stats) "9000".toList "9001".toList tripJson_survives digits_statuses
    (.fresh 1 : StatsKeeper Nat Unit) firstMessage
  have called : firstTrip.1.reduceOption[0]? = some sentId := by decide +kernel
  have begun : firstTrip.2.messages = 1 := by decide +kernel
  rw [firstTrip] at called begun ⊢
  rcases answers 0 sentId called with failed | ⟨_,once,answer⟩
  · exact absurd failed (by decide)
  · rw [Nat.zero_add] at once answer
    exact ⟨begun,once,answer⟩

end FirstMessage

end Kcsrt
end Kisscpp
