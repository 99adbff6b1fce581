import Mathlib.Data.List.ReduceOption
import Kisscpp.Client
import Kisscpp.ClientRead
import Kisscpp.Machine

namespace Kisscpp
open TextLines PropertyTree Stepping

inductive SocketWait where
  | connect
  | write
  | read
  | idle
  deriving DecidableEq

-- A wait that is cancelled before it expires is called back with
-- operation_aborted; one that has expired is called back without an error,
-- cancelled or not.
inductive TimerWait where
  | waiting
  | expired
  | aborted
  | heard
  deriving DecidableEq

def TimerWait.cancel : TimerWait → TimerWait
  | .waiting => .aborted
  | other => other

-- A client while its constructor is in io_service_.run(), and how that came
-- back.
structure ClientObject where
  request : Ptree
  response : Ptree
  socket : SocketWait
  timer : TimerWait
  closed : Bool
  ended : Option (Except CommsException Unit)

inductive ClientEvent where
  | connected (error : Option Text)
  | written (error : Option Text)
  | read (error : Option Text) (buffer : Text)
  | expires
  | timeout

namespace ClientObject

-- The constructor up to io_service_.run().
def opened (outgoing : Outgoing) (response : Ptree) : ClientObject :=
  ⟨outgoing.request,response,.connect,.waiting,false,none⟩

def create (cfg : Config) (request response : Ptree) : Except BadPath ClientObject :=
  (client cfg request).map (opened · response)

-- The three handlers of the socket all fail like this.
def fail (code : Text) (c : ClientObject) : ClientObject :=
  {c with socket := .idle,closed := true,timer := c.timer.cancel,
          ended := some (.error (.perminant ("boost::asio::placeholders::error [".toList ++ code ++ "]".toList)))}

-- The line is what async_write is given.
def handleConnect (json : Connection.Json) (error : Option Text) (c : ClientObject) : Option Text × ClientObject :=
  match error with
  | none =>
    match json.writeJson c.request with
    | none => (none,{c with socket := .idle,ended := some (.error .jsonParserError)})
    | some line => (some line,{c with socket := .write})
  | some code => (none,c.fail code)

def handleWrite (error : Option Text) (c : ClientObject) : ClientObject :=
  match error with
  | none => {c with socket := .read}
  | some code => c.fail code

def handleRead (json : Connection.Json) (conv : Conversions) (error : Option Text) (buffer : Text) (c : ClientObject) :
    ClientObject :=
  let outcome := client.handleRead json conv error buffer c.response
  {c with response := outcome.response,socket := .idle,closed := outcome.closed,
          timer := if outcome.cancelled then c.timer.cancel else c.timer,ended := outcome.thrown.map .error}

def lapsed (c : ClientObject) : ClientObject :=
  {c with timer := .heard,socket := .idle,closed := true,ended := some (.error (.retryable "Message timed out.".toList))}

def handleTimeout (c : ClientObject) : ClientObject :=
  match c.timer with
  | .expired => c.lapsed
  | .aborted => {c with timer := .heard}
  | _ => c

-- run() comes back once there is nothing left to wait for.
def settle (c : ClientObject) : ClientObject :=
  if c.ended.isNone ∧ c.socket = .idle ∧ c.timer = .heard then {c with ended := some (.ok ())} else c

-- Only what is under way can be called back, and nothing once run() is left.
def step (json : Connection.Json) (conv : Conversions) (c : ClientObject) (event : ClientEvent) :
    Option Text × ClientObject :=
  if c.ended.isSome then (none,c)
  else
    match event with
    | .connected error => if c.socket = .connect then c.handleConnect json error else (none,c)
    | .written error => if c.socket = .write then (none,c.handleWrite error) else (none,c)
    | .read error buffer => if c.socket = .read then (none,(c.handleRead json conv error buffer).settle) else (none,c)
    | .expires => if c.timer = .waiting then (none,{c with timer := .expired}) else (none,c)
    | .timeout => (none,c.handleTimeout.settle)

end ClientObject

def clientMachine (json : Connection.Json) (conv : Conversions) : Machine ClientObject ClientEvent (Option Text) where
  step := ClientObject.step json conv

namespace ClientObject

inductive Sound (c : ClientObject) : Prop where
  | busy (running : c.ended = none) (busy : c.socket ≠ .idle) (ticking : c.timer = .waiting ∨ c.timer = .expired)
      (still : c.closed = false)
  | received (running : c.ended = none) (idle : c.socket = .idle) (ticking : c.timer = .aborted ∨ c.timer = .expired)
      (still : c.closed = false)
  | returned (ended : c.ended = some (.ok ())) (idle : c.socket = .idle) (heard : c.timer = .heard) (still : c.closed = false)
  | unreadable (ended : c.ended = some (.error .jsonParserError)) (idle : c.socket = .idle)
      (ticking : c.timer = .waiting ∨ c.timer = .expired) (still : c.closed = false)
  | threw {e : CommsException} (ended : c.ended = some (.error e)) (idle : c.socket = .idle) (known : e ≠ .jsonParserError)
      (cancelled : c.timer ≠ .waiting) (closed : c.closed = true)

inductive Stepped (json : Connection.Json) (conv : Conversions) (c : ClientObject) :
    ClientEvent → Option Text → ClientObject → Prop where
  | stayed {event : ClientEvent} : Stepped json conv c event none c
  | sent {line : Text} (running : c.ended = none) (connecting : c.socket = .connect)
      (written : json.writeJson c.request = some line) :
      Stepped json conv c (.connected none) (some line) {c with socket := .write}
  | unwritten (running : c.ended = none) (connecting : c.socket = .connect) :
      Stepped json conv c (.connected none) none {c with socket := .idle,ended := some (.error .jsonParserError)}
  | failed {event : ClientEvent} {code : Text} (running : c.ended = none) (busy : c.socket ≠ .idle) :
      Stepped json conv c event none (c.fail code)
  | waits (running : c.ended = none) (writing : c.socket = .write) :
      Stepped json conv c (.written none) none {c with socket := .read}
  | accepted {buffer : Text} {tree : Ptree} (running : c.ended = none) (reading : c.socket = .read)
      (parsed : json.readJson (client.getline buffer) = some tree)
      (success : client.commsStatus conv tree = client.number .success) :
      Stepped json conv c (.read none buffer) none
        {c with response := tree,socket := .idle,timer := c.timer.cancel,closed := false}
  | refused {buffer : Text} {tree : Ptree} {e : CommsException} (running : c.ended = none) (reading : c.socket = .read)
      (known : e ≠ .jsonParserError) :
      Stepped json conv c (.read none buffer) none
        {c with response := tree,socket := .idle,timer := c.timer.cancel,closed := true,ended := some (.error e)}
  | unread {buffer : Text} (running : c.ended = none) (reading : c.socket = .read) :
      Stepped json conv c (.read none buffer) none
        {c with socket := .idle,closed := false,ended := some (.error .jsonParserError)}
  | expired (running : c.ended = none) (waiting : c.timer = .waiting) :
      Stepped json conv c .expires none {c with timer := .expired}
  | timedOut (running : c.ended = none) (expired : c.timer = .expired) :
      Stepped json conv c .timeout none c.lapsed
  | returned (running : c.ended = none) (idle : c.socket = .idle) (aborted : c.timer = .aborted) :
      Stepped json conv c .timeout none {c with timer := .heard,ended := some (.ok ())}

theorem handleRead_stepped {json : Connection.Json} (conv : Conversions) {c : ClientObject} (running : c.ended = none)
    (reading : c.socket = .read) (ticking : c.timer = .waiting ∨ c.timer = .expired) (error : Option Text) (buffer : Text) :
    Stepped json conv c (.read error buffer) none (c.handleRead json conv error buffer).settle := by
  have stays : c.timer.cancel ≠ .heard := by rcases ticking with h | h <;> rw [h] <;> decide
  cases error with
  | some code =>
    exact .failed running (by rw [reading]; decide)
  | none =>
    cases parsed : json.readJson (client.getline buffer) with
    | none =>
      have same : (c.handleRead json conv none buffer).settle =
          {c with socket := .idle,closed := false,ended := some (.error .jsonParserError)} := by
        simp [handleRead,client.handleRead,parsed,settle]
      rw [same]
      exact .unread running reading
    | some tree =>
      by_cases success : client.commsStatus conv tree = client.number .success
      · have same : (c.handleRead json conv none buffer).settle =
            {c with response := tree,socket := .idle,timer := c.timer.cancel,closed := false} := by
          simp [handleRead,client.handleRead,parsed,client.settle,success,settle,stays,running]
        rw [same]
        exact .accepted running reading parsed success
      · obtain ⟨e,known,settled⟩ : ∃ e, e ≠ .jsonParserError ∧
            client.settle conv tree = ⟨tree,true,true,some e⟩ := by
          unfold client.settle
          rw [if_neg success]
          split
          · exact ⟨_,by simp,rfl⟩
          · split
            · exact ⟨_,by simp,rfl⟩
            · exact ⟨_,by simp,rfl⟩
        have same : (c.handleRead json conv none buffer).settle =
            {c with response := tree,socket := .idle,timer := c.timer.cancel,closed := true,ended := some (.error e)} := by
          simp [handleRead,client.handleRead,parsed,settled,settle]
        rw [same]
        exact .refused running reading known

theorem Sound.ticking {c : ClientObject} (sound : c.Sound) (running : c.ended = none) (busy : c.socket ≠ .idle) :
    c.timer = .waiting ∨ c.timer = .expired := by
  cases sound with
  | busy _ _ ticking => exact ticking
  | received _ idle => exact absurd idle busy
  | returned ended | unreadable ended | threw ended =>
    rw [running] at ended
    cases ended

theorem handleTimeout_stepped (json : Connection.Json) (conv : Conversions) {c : ClientObject} (sound : c.Sound)
    (running : c.ended = none) : Stepped json conv c .timeout none c.handleTimeout.settle := by
  have late (expired : c.timer = .expired) : Stepped json conv c .timeout none c.handleTimeout.settle := by
    have same : c.handleTimeout.settle = c.lapsed := by simp [handleTimeout,expired,settle,lapsed]
    rw [same]
    exact .timedOut running expired
  cases sound with
  | busy _ busy ticking =>
    rcases ticking with waiting | expired
    · have same : c.handleTimeout.settle = c := by simp [handleTimeout,waiting,settle]
      rw [same]
      exact .stayed
    · exact late expired
  | received _ idle ticking =>
    rcases ticking with aborted | expired
    · have same : c.handleTimeout.settle = {c with timer := .heard,ended := some (.ok ())} := by
        simp [handleTimeout,aborted,settle,running,idle]
      rw [same]
      exact .returned running idle aborted
    · exact late expired
  | returned ended | unreadable ended | threw ended =>
    rw [running] at ended
    cases ended

theorem step_stepped (json : Connection.Json) (conv : Conversions) {c : ClientObject} (sound : c.Sound) (event : ClientEvent) :
    Stepped json conv c event (c.step json conv event).1 (c.step json conv event).2 := by
  unfold step
  by_cases running : c.ended = none
  · rw [if_neg (by rw [running]; decide)]
    cases event with
    | connected error =>
      dsimp only
      by_cases connecting : c.socket = .connect
      · rw [if_pos connecting]
        cases error with
        | some code => exact .failed running (by rw [connecting]; decide)
        | none =>
          simp only [handleConnect]
          cases written : json.writeJson c.request with
          | none => exact .unwritten running connecting
          | some line => exact .sent running connecting written
      · rw [if_neg connecting]
        exact .stayed
    | written error =>
      dsimp only
      by_cases writing : c.socket = .write
      · rw [if_pos writing]
        cases error with
        | some code => exact .failed running (by rw [writing]; decide)
        | none => exact .waits running writing
      · rw [if_neg writing]
        exact .stayed
    | read error buffer =>
      dsimp only
      by_cases reading : c.socket = .read
      · rw [if_pos reading]
        exact handleRead_stepped conv running reading (sound.ticking running (by rw [reading]; decide)) error buffer
      · rw [if_neg reading]
        exact .stayed
    | expires =>
      dsimp only
      by_cases waiting : c.timer = .waiting
      · rw [if_pos waiting]
        exact .expired running waiting
      · rw [if_neg waiting]
        exact .stayed
    | timeout => exact handleTimeout_stepped json conv sound running
  · rw [if_pos (Option.isSome_iff_ne_none.mpr running)]
    exact .stayed

theorem cancel_ticking {timer : TimerWait} (ticking : timer = .waiting ∨ timer = .expired) :
    timer.cancel = .aborted ∨ timer.cancel = .expired := by
  rcases ticking with rfl | rfl
  · exact .inl rfl
  · exact .inr rfl

theorem cancel_not_waiting (timer : TimerWait) : timer.cancel ≠ .waiting := by cases timer <;> decide

theorem Sound.still {c : ClientObject} (sound : c.Sound) (running : c.ended = none) : c.closed = false := by
  cases sound with
  | busy _ _ _ still | received _ _ _ still => exact still
  | returned ended | unreadable ended | threw ended =>
    rw [running] at ended
    cases ended

theorem stepped_sound {json : Connection.Json} {conv : Conversions} {c after : ClientObject} {event : ClientEvent}
    {line : Option Text} (sound : c.Sound) (stepped : Stepped json conv c event line after) : after.Sound := by
  cases stepped with
  | stayed => exact sound
  | sent running connecting =>
    exact .busy running nofun (sound.ticking running (by rw [connecting]; decide)) (sound.still running)
  | unwritten running connecting =>
    exact .unreadable rfl rfl (sound.ticking running (by rw [connecting]; decide)) (sound.still running)
  | failed running busy => exact .threw rfl rfl (by simp) (cancel_not_waiting _) rfl
  | waits running writing =>
    exact .busy running nofun (sound.ticking running (by rw [writing]; decide)) (sound.still running)
  | accepted running reading =>
    exact .received running rfl (cancel_ticking (sound.ticking running (by rw [reading]; decide))) rfl
  | refused running reading known => exact .threw rfl rfl known (cancel_not_waiting _) rfl
  | unread running reading => exact .unreadable rfl rfl (sound.ticking running (by rw [reading]; decide)) rfl
  | expired running waiting =>
    cases sound with
    | busy _ busy _ still => exact .busy running busy (.inr rfl) still
    | received _ idle _ still => exact .received running idle (.inr rfl) still
    | returned ended | unreadable ended | threw ended =>
      rw [running] at ended
      cases ended
  | timedOut running late => exact .threw rfl rfl (by simp) nofun rfl
  | returned running idle => exact .returned rfl idle rfl (sound.still running)

section Runs
variable (json : Connection.Json) (conv : Conversions)

theorem run_sound {c : ClientObject} (sound : c.Sound) (events : List ClientEvent) :
    ((clientMachine json conv).run c events).2.Sound := by
  have step : ∀ c event, Sound c → True → ((clientMachine json conv).step c event).2.Sound :=
    fun _ event sound _ => stepped_sound sound (step_stepped json conv sound event)
  exact run_preserves step sound (admits_always (fun _ _ (_ : True) => ⟨trivial,trivial⟩) trivial events)

theorem run_ended {c : ClientObject} (ended : c.ended.isSome = true) (events : List ClientEvent) :
    ((clientMachine json conv).run c events).2 = c := by
  induction events with
  | nil => rfl
  | cons event rest ih =>
    have stays : (clientMachine json conv).step c event = (none,c) := if_pos ended
    rw [run_cons,stays]
    exact ih

theorem run_timeout {c : ClientObject} (sound : c.Sound) :
    ((clientMachine json conv).run c [.expires,.timeout]).2.ended.isSome = true := by
  by_cases running : c.ended = none
  · have idleOrBusy : c.timer = .waiting ∨ c.timer = .expired ∨ c.timer = .aborted ∧ c.socket = .idle := by
      cases sound with
      | busy _ _ ticking => exact ticking.imp_right .inl
      | received _ idle ticking =>
        rcases ticking with aborted | expired
        · exact .inr (.inr ⟨aborted,idle⟩)
        · exact .inr (.inl expired)
      | returned ended | unreadable ended | threw ended =>
        rw [running] at ended
        cases ended
    rcases idleOrBusy with waiting | expired | ⟨aborted,idle⟩
    · simp [clientMachine,step,running,waiting,handleTimeout,settle,lapsed]
    · simp [clientMachine,step,running,expired,handleTimeout,settle,lapsed]
    · simp [clientMachine,step,running,aborted,idle,handleTimeout,settle]
  · rw [run_ended json conv (Option.isSome_iff_ne_none.mpr running)]
    exact Option.isSome_iff_ne_none.mpr running

theorem stepped_line {json : Connection.Json} {conv : Conversions} {c after : ClientObject} {event : ClientEvent}
    {line : Option Text} (stepped : Stepped json conv c event line after) :
    after.request = c.request ∧ (line = none ∧ (after.socket = .connect → c.socket = .connect) ∨
      ∃ written, line = some written ∧ json.writeJson c.request = some written ∧ c.socket = .connect ∧
        after.socket ≠ .connect) := by
  cases stepped with
  | sent running connecting written => exact ⟨rfl,.inr ⟨_,rfl,written,connecting,nofun⟩⟩
  | stayed | expired => exact ⟨rfl,.inl ⟨rfl,id⟩⟩
  | returned => exact ⟨rfl,.inl ⟨rfl,id⟩⟩
  | unwritten | failed | waits | accepted | refused | unread | timedOut => exact ⟨rfl,.inl ⟨rfl,nofun⟩⟩

theorem run_lines {c : ClientObject} (sound : c.Sound) (events : List ClientEvent) :
    ((clientMachine json conv).run c events).1.reduceOption.length ≤ (if c.socket = .connect then 1 else 0) ∧
      ∀ line ∈ ((clientMachine json conv).run c events).1.reduceOption, json.writeJson c.request = some line := by
  induction events generalizing c with
  | nil => exact ⟨Nat.zero_le _,nofun⟩
  | cons event rest ih =>
    have stepped := step_stepped json conv sound event
    have later := ih (stepped_sound sound stepped)
    have shape : ((clientMachine json conv).run c (event :: rest)).1 =
        (c.step json conv event).1 :: ((clientMachine json conv).run (c.step json conv event).2 rest).1 := rfl
    rw [shape]
    generalize c.step json conv event = result at stepped later
    obtain ⟨line,after⟩ := result
    obtain ⟨few,own⟩ := later
    obtain ⟨same,⟨rfl,still⟩ | ⟨written,rfl,writes,connecting,left⟩⟩ := stepped_line stepped
    · rw [same] at own
      refine ⟨few.trans ?_,own⟩
      split
      · next again => rw [if_pos (still again)]
      · exact Nat.zero_le _
    · rw [if_neg left] at few
      have nothing := List.eq_nil_of_length_eq_zero (Nat.le_zero.mp few)
      simp only [List.reduceOption_cons_of_some,nothing,if_pos connecting]
      refine ⟨Nat.le_refl _,?_⟩
      intro line member
      rw [List.mem_singleton.mp member]
      exact writes

theorem opened_sound (outgoing : Outgoing) (response : Ptree) : (opened outgoing response).Sound :=
  .busy rfl nofun (.inl rfl) rfl

-- One line is written at most, the client has ended at the latest when the
-- timer has been heard, and then for good: with the socket closed and the timer
-- off where it threw, unless what threw is the JSON parser.
theorem client_ends (outgoing : Outgoing) (response : Ptree) (events : List ClientEvent) :
    let run := (clientMachine json conv).run (opened outgoing response) events
    run.1.reduceOption.length ≤ 1 ∧ (∀ line ∈ run.1.reduceOption, json.writeJson outgoing.request = some line) ∧
      run.2.Sound ∧ ((clientMachine json conv).run run.2 [.expires,.timeout]).2.ended.isSome = true ∧
      (run.2.ended.isSome = true → ∀ later, ((clientMachine json conv).run run.2 later).2 = run.2) := by
  have start := opened_sound outgoing response
  obtain ⟨few,own⟩ := run_lines json conv start events
  have sound := run_sound json conv start events
  exact ⟨few,own,sound,run_timeout json conv sound,fun ended later => run_ended json conv ended later⟩

end Runs

end ClientObject
end Kisscpp
