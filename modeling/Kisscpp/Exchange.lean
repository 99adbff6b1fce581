import Kisscpp.ClientRun
import Kisscpp.Service

namespace Kisscpp
open TextLines PropertyTree Stepping

def ClientObject.Received (c : ClientObject) : Prop := c.socket = .idle ∧ (c.ended = none ∨ c.ended = some (.ok ()))

-- Clients by number and the server that they all talk to: what each has given
-- to async_write, and what the server made of the lines it has read, in its
-- order.
structure Traffic (σ : Type*) where
  kept : σ
  clients : Nat → Option ClientObject
  written : Nat → Option Text
  served : List (Nat × Connection.Served)

-- Others may talk to the server as well, and its application goes on.
inductive TrafficEvent (κ : Type*) where
  | create (key : Nat) (cfg : Config) (request response : Ptree)
  | dispatch (key : Nat) (event : ClientEvent)
  | serve (key : Nat) (clientIp : Text)
  | beside (event : ServerEvent κ)

namespace Traffic
variable {σ : Type*}

def fresh (kept : σ) : Traffic σ := ⟨kept,fun _ => none,fun _ => none,[]⟩

def sentTo (t : Traffic σ) (key : Nat) : Option Text := (t.served.find? fun e => e.1 = key).bind fun e => e.2.sent

-- A client reads what the server has sent to it, up to a newline at least;
-- everything else can go wrong at any time.
def Carries (t : Traffic σ) (key : Nat) : ClientEvent → Prop
  | .read none buffer => t.sentTo key = some buffer ∧ '\n' ∈ buffer
  | _ => True

instance (t : Traffic σ) (key : Nat) : (event : ClientEvent) → Decidable (t.Carries key event)
  | .read none _ => inferInstanceAs (Decidable (_ ∧ _))
  | .read (some _) _ | .connected _ | .written _ | .expires | .timeout => isTrue trivial

def create (t : Traffic σ) (key : Nat) (cfg : Config) (request response : Ptree) : Traffic σ :=
  match t.clients key,ClientObject.create cfg request response with
  | none,.ok c => {t with clients := fun other => if other = key then some c else t.clients other}
  | _,_ => t

def dispatch (json : Connection.Json) (conv : Conversions) (t : Traffic σ) (key : Nat) (event : ClientEvent) : Traffic σ :=
  match t.clients key with
  | some c =>
    if t.Carries key event then
      let (line,after) := c.step json conv event
      {t with clients := fun other => if other = key then some after else t.clients other,
              written := fun other => if other = key then line.or (t.written key) else t.written other}
    else t
  | none => t

-- The connection is read once, up to the end of the line, and then closed.
def serve (json : Connection.Json) (cfg : Config) (map : RequestHandlerMap σ) (t : Traffic σ) (key : Nat) (clientIp : Text) :
    Traffic σ :=
  match t.written key with
  | some line =>
    if '\n' ∉ line ∨ key ∈ t.served.map Prod.fst then t
    else
      let (served,after) := Connection.startKeeping json cfg map t.kept clientIp (client.getline line)
      {t with kept := after,served := t.served ++ [(key,served)]}
  | none => t

end Traffic

section Traffics
variable {σ κ : Type*} (json : Connection.Json) (conv : Conversions) (cfg : Config) (map : RequestHandlerMap σ)
  (act : σ → κ → σ)

def traffic : Machine (Traffic σ) (TrafficEvent κ) Unit where
  step t
    | .create key own request response => ((),t.create key own request response)
    | .dispatch key event => ((),t.dispatch json conv key event)
    | .serve key clientIp => ((),t.serve json cfg map key clientIp)
    | .beside event => ((),{t with kept := ((serving json cfg map act).step t.kept event).2})

def Answers (line : Text) (served : Connection.Served) : Prop :=
  ∃ s clientIp, served = (Connection.startKeeping json cfg map s clientIp (client.getline line)).1

def Returned (t : Traffic σ) (key : Nat) (response : Ptree) : Prop :=
  ∃ served text, (key,served) ∈ t.served ∧ served.sent = some text ∧
    json.readJson (client.getline text) = some response ∧ client.commsStatus conv response = client.number .success

structure Regular (t : Traffic σ) : Prop where
  once : (t.served.map Prod.fst).Nodup
  origin : ∀ e ∈ t.served, ∃ line, t.written e.1 = some line ∧ Answers json cfg map line e.2
  sound : ∀ key c, t.clients key = some c → c.Sound
  wrote : ∀ key line, t.written key = some line → ∃ c, t.clients key = some c ∧ json.writeJson c.request = some line
  connecting : ∀ key c, t.clients key = some c → c.socket = .connect → t.written key = none
  received : ∀ key c, t.clients key = some c → c.Received → Returned json conv t key c.response

theorem fresh_regular (kept : σ) : Regular json conv cfg map (Traffic.fresh kept) :=
  ⟨List.nodup_nil,nofun,nofun,nofun,nofun,nofun⟩

variable {json conv cfg map}

theorem sentTo_mem {t : Traffic σ} {key : Nat} {text : Text} (sent : t.sentTo key = some text) :
    ∃ served, (key,served) ∈ t.served ∧ served.sent = some text := by
  obtain ⟨e,found,text⟩ := Option.bind_eq_some_iff.mp sent
  have named : e.1 = key := by simpa using List.find?_some found
  exact ⟨e.2,named ▸ List.mem_of_find?_eq_some found,text⟩

theorem stepped_received {c after : ClientObject} {event : ClientEvent} {line : Option Text}
    (stepped : ClientObject.Stepped json conv c event line after) (received : after.Received) :
    c.Received ∧ after.response = c.response ∨
      ∃ buffer, event = .read none buffer ∧ json.readJson (client.getline buffer) = some after.response ∧
        client.commsStatus conv after.response = client.number .success := by
  obtain ⟨idle,open_⟩ := received
  cases stepped with
  | stayed => exact .inl ⟨⟨idle,open_⟩,rfl⟩
  | sent | waits => cases idle
  | unwritten | failed | refused | unread | timedOut =>
    rcases open_ with running | ok
    · cases running
    · cases ok
  | accepted running reading parsed success => exact .inr ⟨_,rfl,parsed,success⟩
  | expired running => exact .inl ⟨⟨idle,.inl running⟩,rfl⟩
  | returned running idle => exact .inl ⟨⟨idle,.inl running⟩,rfl⟩

theorem create_regular {t : Traffic σ} (regular : Regular json conv cfg map t) (key : Nat) (own : Config)
    (request response : Ptree) : Regular json conv cfg map (t.create key own request response) := by
  unfold Traffic.create
  split
  · next c vacant made =>
    obtain ⟨outgoing,_,rfl⟩ : ∃ outgoing, client own request = .ok outgoing ∧
        ClientObject.opened outgoing response = c := by
      unfold ClientObject.create at made
      cases sent : client own request with
      | error e =>
        rw [sent] at made
        cases made
      | ok outgoing =>
        rw [sent] at made
        exact ⟨outgoing,rfl,Except.ok.inj made⟩
    have unwritten : t.written key = none := by
      cases written : t.written key with
      | none => rfl
      | some line =>
        obtain ⟨c,live,_⟩ := regular.wrote key line written
        cases vacant.symm.trans live
    refine ⟨regular.once,regular.origin,?_,?_,?_,?_⟩
    · intro other c live
      by_cases here : other = key
      · simp only [here,if_true,Option.some.injEq] at live
        exact live ▸ ClientObject.opened_sound outgoing response
      · exact regular.sound other c (by simpa [here] using live)
    · intro other line written
      have elsewhere : other ≠ key := by
        rintro rfl
        cases unwritten.symm.trans written
      simpa only [elsewhere,if_false] using regular.wrote other line written
    · intro other c live connecting
      by_cases here : other = key
      · exact here ▸ unwritten
      · exact regular.connecting other c (by simpa [here] using live) connecting
    · intro other c live received
      by_cases here : other = key
      · simp only [here,if_true,Option.some.injEq] at live
        rw [← live] at received
        cases received.1
      · exact regular.received other c (by simpa [here] using live) received
  · exact regular

theorem serve_regular {t : Traffic σ} (regular : Regular json conv cfg map t) (key : Nat) (clientIp : Text) :
    Regular json conv cfg map (t.serve json cfg map key clientIp) := by
  unfold Traffic.serve
  split
  · next line written =>
    split
    · exact regular
    · next new =>
      have new := (not_or.mp new).2
      refine ⟨?_,?_,regular.sound,regular.wrote,regular.connecting,?_⟩
      · rw [List.map_append,List.map_singleton,← List.concat_eq_append]
        exact regular.once.concat new
      · intro e member
        rcases List.mem_append.mp member with old | here
        · exact regular.origin e old
        · rw [List.mem_singleton.mp here]
          exact ⟨line,written,t.kept,clientIp,rfl⟩
      · intro other c live received
        obtain ⟨served,text,member,rest⟩ := regular.received other c live received
        exact ⟨served,text,List.mem_append_left _ member,rest⟩
  · exact regular

theorem dispatch_regular {t : Traffic σ} (regular : Regular json conv cfg map t) (key : Nat) (event : ClientEvent) :
    Regular json conv cfg map (t.dispatch json conv key event) := by
  unfold Traffic.dispatch
  split
  · next c live =>
    split
    · next carried =>
      have stepped := ClientObject.step_stepped json conv (regular.sound key c live) event
      generalize c.step json conv event = result at stepped
      obtain ⟨line,after⟩ := result
      have lines := ClientObject.stepped_line stepped
      -- What was written before stays, as only a client that connects writes.
      have kept : ∀ {written}, t.written key = some written → line.or (t.written key) = some written := by
        intro written already
        rcases lines.2 with ⟨rfl,_⟩ | ⟨_,_,_,connecting,_⟩
        · exact already
        · cases (regular.connecting key c live connecting).symm.trans already
      refine ⟨regular.once,?_,?_,?_,?_,?_⟩
      · intro e member
        obtain ⟨old,written,answers⟩ := regular.origin e member
        refine ⟨old,?_,answers⟩
        by_cases here : e.1 = key
        · simp only [here,if_true]
          exact kept (here ▸ written)
        · simpa only [here,if_false] using written
      · intro other d present
        by_cases here : other = key
        · simp only [here,if_true,Option.some.injEq] at present
          exact present ▸ ClientObject.stepped_sound (regular.sound key c live) stepped
        · exact regular.sound other d (by simpa [here] using present)
      · intro other text written
        by_cases here : other = key
        · simp only [here,if_true] at written ⊢
          refine ⟨after,rfl,?_⟩
          rw [lines.1]
          rcases lines.2 with ⟨rfl,_⟩ | ⟨new,rfl,writes,_⟩
          · obtain ⟨d,present,wrote⟩ := regular.wrote key text written
            cases live.symm.trans present
            exact wrote
          · exact written ▸ writes
        · simpa only [here,if_false] using regular.wrote other text (by simpa [here] using written)
      · intro other d present connecting
        by_cases here : other = key
        · simp only [here,if_true,Option.some.injEq] at present ⊢
          rcases lines.2 with ⟨rfl,before⟩ | ⟨_,_,_,_,left⟩
          · exact regular.connecting key c live (before (present ▸ connecting))
          · exact absurd (present ▸ connecting) left
        · simpa only [here,if_false] using regular.connecting other d (by simpa [here] using present) connecting
      · intro other d present received
        by_cases here : other = key
        · simp only [here,if_true,Option.some.injEq] at present
          subst present
          rcases stepped_received stepped received with ⟨before,same⟩ | ⟨buffer,rfl,parsed,success⟩
          · rw [here,same]
            exact regular.received key c live before
          · obtain ⟨served,member,sent⟩ := sentTo_mem carried.1
            exact ⟨served,buffer,here ▸ member,sent,parsed,success⟩
        · exact regular.received other d (by simpa [here] using present) received
    · exact regular
  · exact regular

theorem traffic_regular {t : Traffic σ} (regular : Regular json conv cfg map t) (event : TrafficEvent κ) :
    Regular json conv cfg map ((traffic json conv cfg map act).step t event).2 := by
  cases event with
  | create key own request response => exact create_regular regular key own request response
  | dispatch key event => exact dispatch_regular regular key event
  | serve key clientIp => exact serve_regular regular key clientIp
  | beside event =>
    exact ⟨regular.once,regular.origin,regular.sound,regular.wrote,regular.connecting,regular.received⟩

variable (json conv cfg map) in
theorem run_regular (kept : σ) (events : List (TrafficEvent κ)) :
    Regular json conv cfg map ((traffic json conv cfg map act).run (.fresh kept) events).2 := by
  have step : ∀ t event, Regular json conv cfg map t → True →
      Regular json conv cfg map ((traffic json conv cfg map act).step t event).2 :=
    fun _ event regular _ => traffic_regular act regular event
  exact run_preserves step (fresh_regular json conv cfg map kept)
    (admits_always (fun _ _ (_ : True) => ⟨trivial,trivial⟩) trivial events)

def Handled (json : Connection.Json) (cfg : Config) (map : RequestHandlerMap σ) (line : Text)
    (served : Connection.Served) : Prop :=
  ∃ s request command handler after, json.readJson (client.getline line) = some request ∧
    Connection.Accepted cfg request ∧ request.get "kcm-cmd".toList = .ok command ∧ map.find command = some handler ∧
    handler.run s request .empty = ((served.rawResponse,none),after) ∧ served.ran = [handler.given s]

theorem answers_cases {line : Text} {served : Connection.Served} (answers : Answers json cfg map line served) :
    served.ran.length ≤ 1 ∧ (∀ text, served.sent = some text → json.writeJson served.rawResponse = some text) ∧
      (served.sent = none ∨ Refused served.rawResponse ∨ Handled json cfg map line served) := by
  obtain ⟨s,clientIp,rfl⟩ := answers
  rw [Connection.startKeeping_given,Connection.start]
  by_cases ip : cfg.isAllowedIp clientIp = true
  · rw [if_pos ip]
    cases parsed : json.readJson (client.getline line) with
    | none => exact ⟨Nat.zero_le _,nofun,.inl rfl⟩
    | some request =>
      dsimp only
      have cases := Connection.handle_cases cfg (map.router s) request .empty
      generalize Connection.handle cfg (map.router s) request .empty = result at cases ⊢
      obtain ⟨response,ran⟩ := result
      rcases cases with ⟨_,none,refused⟩ | ⟨command,handler,accepted,cmd,found,called,outcome⟩
      · cases none
        exact ⟨Nat.zero_le _,fun _ same => same,.inr (.inl refused)⟩
      · cases called
        refine ⟨Nat.le_refl _,fun _ same => same,.inr ?_⟩
        rcases outcome with ⟨returned,same⟩ | ⟨_,refused⟩
        · obtain ⟨own,listed,rfl⟩ := Option.map_eq_some_iff.mp found
          refine .inr ⟨s,request,command,own,(own.run s request .empty).2,parsed,accepted,cmd,listed,?_,rfl⟩
          exact Prod.ext (Prod.ext same.symm returned) rfl
        · exact .inl refused
  · rw [if_neg ip]
    dsimp only
    have denied : RequestStatus.clientDenied ≠ RequestStatus.success := by decide
    exact ⟨Nat.zero_le _,fun _ same => same,.inr (.inl (refuse_refused denied))⟩

-- The status of a response is still the same when it was written and read.
def StatusSurvives (json : Connection.Json) : Prop :=
  ∀ response text tree, json.writeJson response = some text → json.readJson (client.getline text) = some tree →
    tree.get client.statusPath = response.get client.statusPath

-- The digits of a status are read as its number.
def ReadsStatuses (conv : Conversions) : Prop :=
  ∀ status : RequestStatus, conv.unsigned status.text = some (client.number status)

theorem refused_unsuccessful (survives : StatusSurvives json) (reads : ReadsStatuses conv) {response tree : Ptree}
    {text : Text} (refused : Refused response) (written : json.writeJson response = some text)
    (parsed : json.readJson (client.getline text) = some tree) :
    client.commsStatus conv tree ≠ client.number .success := by
  obtain ⟨status,_,failure,reported,_⟩ := refused
  have same : tree.get client.statusPath = .ok status.text := (survives _ _ _ written parsed).trans reported
  rw [client.commsStatus,same]
  simp only [reads status,Option.getD_some]
  cases status with
  | success => exact absurd rfl failure
  | _ => decide

def Traffic.runs (t : Traffic σ) (key : Nat) : Nat :=
  ((t.served.filter fun e => e.1 = key).map fun e => e.2.ran.length).sum

theorem runs_member {t : Traffic σ} (regular : Regular json conv cfg map t) {key : Nat} {served : Connection.Served}
    (member : (key,served) ∈ t.served) : t.runs key = served.ran.length := by
  have alone : t.served.filter (fun e => e.1 = key) = [(key,served)] := by
    have nodup : (t.served.filter fun e => e.1 = key).Nodup := (regular.once.of_map _).filter _
    refine List.perm_singleton.mp ((List.perm_ext_iff_of_nodup nodup (List.nodup_singleton _)).mpr ?_)
    intro e
    rw [List.mem_filter,List.mem_singleton]
    constructor
    · rintro ⟨inside,named⟩
      exact List.inj_on_of_nodup_map regular.once inside member (by simpa using named)
    · rintro rfl
      exact ⟨member,by simp⟩
  rw [Traffic.runs,alone]
  simp

theorem runs_once {t : Traffic σ} (regular : Regular json conv cfg map t) (key : Nat) : t.runs key ≤ 1 := by
  by_cases present : ∃ served, (key,served) ∈ t.served
  · obtain ⟨served,member⟩ := present
    obtain ⟨line,_,answers⟩ := regular.origin _ member
    rw [runs_member regular member]
    exact (answers_cases answers).1
  · have nobody : t.served.filter (fun e => e.1 = key) = [] := by
      rw [List.filter_eq_nil_iff]
      intro e member named
      exact present ⟨e.2,(by simpa using named : e.1 = key) ▸ member⟩
    rw [Traffic.runs,nobody]
    exact Nat.zero_le _

theorem returned_handled (survives : StatusSurvives json) (reads : ReadsStatuses conv) {t : Traffic σ}
    (regular : Regular json conv cfg map t) {key : Nat} {c : ClientObject} (live : t.clients key = some c)
    (returned : c.ended = some (.ok ())) : t.runs key = 1 ∧
      ∃ line served text, json.writeJson c.request = some line ∧ (key,served) ∈ t.served ∧
        Handled json cfg map line served ∧ json.writeJson served.rawResponse = some text ∧
        json.readJson (client.getline text) = some c.response := by
  have received : c.Received := by
    cases regular.sound key c live with
    | returned _ idle => exact ⟨idle,.inr returned⟩
    | busy running | received running => cases running.symm.trans returned
    | unreadable ended | threw ended => cases ended.symm.trans returned
  obtain ⟨served,text,member,sent,parsed,success⟩ := regular.received key c live received
  obtain ⟨line,written,answers⟩ := regular.origin _ member
  obtain ⟨own,present,wrote⟩ := regular.wrote _ _ written
  cases live.symm.trans present
  obtain ⟨_,writes,silent | refused | handled⟩ := answers_cases answers
  · cases silent.symm.trans sent
  · exact absurd success (refused_unsuccessful survives reads refused (writes text sent) parsed)
  · refine ⟨?_,line,served,text,wrote,member,handled,writes text sent,parsed⟩
    obtain ⟨_,_,_,_,_,_,_,_,_,_,ran⟩ := handled
    rw [runs_member regular member,ran]
    rfl

-- Whatever is lost, late or broken off between any number of clients and their
-- server: no request is handled twice, and one whose client came back was
-- handled once, to the end, and is answered by what its handler left.
theorem exactly_once (survives : StatusSurvives json) (reads : ReadsStatuses conv) (kept : σ)
    (events : List (TrafficEvent κ)) :
    let t := ((traffic json conv cfg map act).run (.fresh kept) events).2
    (∀ key, t.runs key ≤ 1) ∧ ∀ key c, t.clients key = some c → c.ended = some (.ok ()) → t.runs key = 1 ∧
      ∃ line served text, json.writeJson c.request = some line ∧ (key,served) ∈ t.served ∧
        Handled json cfg map line served ∧ json.writeJson served.rawResponse = some text ∧
        json.readJson (client.getline text) = some c.response := by
  have regular := run_regular json conv cfg map act kept events
  exact ⟨runs_once regular,fun key c live returned => returned_handled survives reads regular live returned⟩

end Traffics

def EchoHandler {σ : Type*} : Handler σ where
  id := "echo".toList
  description := "Will echo back what you send in.".toList
  run s request response :=
    let response := response.put "kcm-sts".toList RequestStatus.success.text
    match request.get "message".toList with
    | .ok message => ((response.put "you-sent".toList message,none),s)
    | .error e => ((refuse response .missingParameter e.what,none),s)

section Echo

def digits : Conversions := ⟨fun
  | [c] => if c.isDigit then some (.ofNat (c.toNat - '0'.toNat)) else none
  | _ => none,[]⟩

theorem digits_statuses : ReadsStatuses digits := by
  intro status
  cases status <;> decide

def echoRequest : Ptree := .node [] [("kcm-cmd".toList,.leaf "echo".toList),("kcm-hst".toList,.leaf "h".toList),
  ("kcm-prt".toList,.leaf "1".toList),("message".toList,.leaf "m".toList)]

def echoLines : List (Text × Ptree) :=
  [("\x7b\"kcm-cmd\":\"echo\",\"kcm-hst\":\"h\",\"kcm-prt\":\"1\",\"message\":\"m\",".toList ++
      "\"kcm-client\":\x7b\"id\":\"a\",\"instance\":\"0\"\x7d\x7d".toList,
    Ptree.addChild "kcm-client".toList
      (.node [] [("id".toList,.leaf "a".toList),("instance".toList,.leaf "0".toList)]) echoRequest),
   ("\x7b\"kcm-sts\":\"0\",\"you-sent\":\"m\"\x7d".toList,
    .node [] [("kcm-sts".toList,.leaf "0".toList),("you-sent".toList,.leaf "m".toList)])]

def echoJson : Connection.Json where
  readJson line := (echoLines.find? fun e => e.1 = line).map Prod.snd
  writeJson t := (echoLines.find? fun e => decide (e.2.get client.statusPath = t.get client.statusPath)).map (·.1 ++ ['\n'])

theorem echoJson_survives : StatusSurvives echoJson := by
  intro response text tree written parsed
  obtain ⟨e,found,rfl⟩ := Option.map_eq_some_iff.mp written
  have same : e.2.get client.statusPath = response.get client.statusPath := by simpa using List.find?_some found
  have back : tree = e.2 := by
    have member := List.mem_of_find?_eq_some found
    rcases List.mem_cons.mp member with rfl | member
    · exact (Option.some.inj parsed).symm
    · rw [List.mem_singleton.mp member] at parsed ⊢
      exact (Option.some.inj parsed).symm
  rw [back,same]

def openConfig : Config := {Config.fresh "e".toList "0".toList with allowAllIpAddrs := true,allowAllApplications := true}

def echoRun : List (TrafficEvent Unit) :=
  [.create 0 (.fresh "a".toList "0".toList) echoRequest .empty,.dispatch 0 (.connected none),.serve 0 "::1".toList,
    .dispatch 0 (.written none),
    .dispatch 0 (.read none ("\x7b\"kcm-sts\":\"0\",\"you-sent\":\"m\"\x7d".toList ++ ['\n'])),.dispatch 0 .timeout]

def afterEcho : Traffic Unit :=
  ((traffic echoJson digits openConfig (.registerHandler .empty EchoHandler) fun s _ => s).run (.fresh ()) echoRun).2

theorem exactly_once_echo : ∃ c, afterEcho.clients 0 = some c ∧ c.ended = some (.ok ()) ∧ afterEcho.runs 0 = 1 :=
  ⟨_,rfl,rfl,((exactly_once (fun s _ => s) echoJson_survives digits_statuses () echoRun).2 0 _ rfl rfl).1⟩

end Echo
end Kisscpp
