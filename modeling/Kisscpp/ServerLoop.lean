import Mathlib.Data.List.Count
import Kisscpp.Machine
import Kisscpp.RoundRobin

namespace Kisscpp
open Stepping RoundRobin

structure IoServicePool where
  size : Nat
  nextIoService : Nat

def IoServicePool.getIoService (pool : IoServicePool) : Nat × IoServicePool :=
  let next := pool.nextIoService + 1
  (pool.nextIoService,{pool with nextIoService := if next = pool.size then 0 else next})

inductive Operation where
  | accept
  | stopSignal
  | logReopenSignal
  deriving DecidableEq

inductive Signal where
  | sigint
  | sigterm
  | sigquit
  | sighup

def Signal.operation : Signal → Operation
  | .sigint | .sigterm | .sigquit => .stopSignal
  | .sighup => .logReopenSignal

-- waits are the operations that have not completed, ready the completed ones
-- whose handler has not been called. A connection is known by the number of
-- those made before it; the latest is new_connection_. handed are all the
-- io_services that the pool has given away, lent of them to the application.
structure Server where
  pool : IoServicePool
  handed : List Nat
  lent : Nat
  stopSignals : Nat
  logReopenSignals : Nat
  acceptor : Nat
  connections : List Nat
  started : List Nat
  serving : Bool
  waits : List Operation
  ready : List (Operation × Bool)
  running : Bool
  stopped : Bool
  stops : Nat
  reopens : Nat

namespace Server

def ioService (s : Server) : Operation → Nat
  | .accept => s.acceptor
  | .stopSignal => s.stopSignals
  | .logReopenSignal => s.logReopenSignals

def startAccept (s : Server) : Server :=
  {s with connections := s.connections ++ [s.pool.getIoService.1],
          handed := s.handed ++ [s.pool.getIoService.1],
          pool := s.pool.getIoService.2,
          waits := .accept :: s.waits}

def lend (s : Server) : Server :=
  {s with handed := s.handed ++ [s.pool.getIoService.1],pool := s.pool.getIoService.2,lent := s.lent + 1}

-- The constructor, as far as the io_services are concerned. A pool of no
-- io_service throws.
def construct (ioServicePoolSize : Nat) : Option Server :=
  if ioServicePoolSize = 0 then none
  else
    let (stopSignals,pool) := IoServicePool.getIoService ⟨ioServicePoolSize,0⟩
    let (logReopenSignals,pool) := pool.getIoService
    let (acceptor,pool) := pool.getIoService
    some (startAccept ⟨pool,[stopSignals,logReopenSignals,acceptor],0,stopSignals,logReopenSignals,acceptor,[],[],false,
      [.logReopenSignal,.stopSignal],[],false,false,0,0⟩)

-- start() reads and writes without going back to the io_service.
def handleAccept (error : Bool) (s : Server) : Server :=
  if error then s.startAccept else {s with started := s.started ++ [s.connections.length - 1],serving := true}

def handleStop (s : Server) : Server := {s with stopped := true,stops := s.stops + 1}

def handleLogReopen (s : Server) : Server := {s with reopens := s.reopens + 1}

def completes (operation : Operation) (error : Bool) (s : Server) : Server :=
  if operation ∈ s.waits then {s with waits := s.waits.erase operation,ready := s.ready ++ [(operation,error)]} else s

-- A thread that is inside start() calls no other handler.
def free (s : Server) (operation : Operation) : Bool :=
  s.running && !s.stopped && !(s.serving && s.ioService operation == s.acceptor)

def calls (handler : Operation × Bool) (s : Server) : Server :=
  if handler ∈ s.ready ∧ s.free handler.1 = true then
    let left := {s with ready := s.ready.erase handler}
    match handler.1 with
    | .accept => left.handleAccept handler.2
    | .stopSignal => left.handleStop
    | .logReopenSignal => left.handleLogReopen
  else s

end Server

-- Whatever happens, in any order: run() and stop() are called, the application
-- takes an io_service, a client connects or accept fails, a signal comes, a
-- thread calls one of the handlers that are ready, and start() returns.
inductive ServerStep where
  | run
  | stop
  | lend
  | accept (error : Bool)
  | signal (signal : Signal)
  | call (handler : Operation × Bool)
  | served

namespace Server

def step (s : Server) : ServerStep → Server
  | .run => {s with running := true}
  | .stop => {s with stopped := true}
  | .lend => s.lend
  | .accept error => s.completes .accept error
  | .signal signal => s.completes signal.operation false
  | .call handler => s.calls handler
  | .served => if s.serving then {s with serving := false}.startAccept else s

end Server

def serverLoop : Machine Server ServerStep Unit where
  step s event := ((),s.step event)

theorem getIoService_turn {n : Nat} (positive : 0 < n) (a : Nat) :
    IoServicePool.getIoService ⟨n,a % n⟩ = (a % n,⟨n,(a + 1) % n⟩) := by
  rw [← next_turn positive]
  rfl

namespace Server

def pending (s : Server) (operation : Operation) : Nat :=
  s.waits.count operation + (s.ready.map Prod.fst).count operation

structure Steady (n : Nat) (s : Server) : Prop where
  pool : s.pool = ⟨n,s.handed.length % n⟩
  handed : s.handed = turns n 0 s.handed.length
  made : s.lent = 0 → s.handed.length = 3 + s.connections.length ∧ s.connections = turns n 3 s.connections.length
  services : s.stopSignals = 0 ∧ s.logReopenSignals = 1 % n ∧ s.acceptor = 2 % n
  stopping : s.pending .stopSignal + s.stops = 1
  reopening : s.pending .logReopenSignal + s.reopens = 1
  halted : s.stops = 1 → s.stopped = true
  ordered : s.started.Pairwise (· < ·)

structure Sound (n : Nat) (s : Server) : Prop extends Steady n s where
  some : 1 ≤ s.connections.length
  accepting : s.pending .accept + s.serving.toNat = 1
  latest : ∀ k ∈ s.started, k + (if s.serving then 1 else 2) ≤ s.connections.length

variable {n : Nat} {s : Server}

theorem completes_pending (operation other : Operation) (error : Bool) :
    (s.completes operation error).pending other = s.pending other := by
  unfold completes
  split
  next waiting =>
    have one := List.one_le_count_iff.mpr waiting
    simp only [pending,List.count_erase,List.map_append,List.count_append,List.map_cons,List.map_nil,List.count_singleton]
    by_cases same : operation = other
    · subst same
      simp
      omega
    · simp [same]
  next => rfl

theorem erased_pending {handler : Operation × Bool} (called : handler ∈ s.ready) (other : Operation) :
    pending {s with ready := s.ready.erase handler} other + (if handler.1 = other then 1 else 0) = s.pending other := by
  have split := (List.perm_cons_erase called).map Prod.fst
  have counted := split.count_eq other
  simp only [List.map_cons,List.count_cons,beq_iff_eq] at counted
  simp only [pending,counted]
  omega

theorem Steady.turn (positive : 0 < n) (steady : s.Steady n) :
    s.pool.getIoService = (s.handed.length % n,⟨n,(s.handed.length + 1) % n⟩) := by
  rw [steady.pool]
  exact getIoService_turn positive _

theorem startAccept_sound (positive : 0 < n) (steady : s.Steady n) (nothing : s.pending .accept = 0)
    (idle : s.serving = false) (earlier : ∀ k ∈ s.started, k < s.connections.length) : s.startAccept.Sound n := by
  have turn := steady.turn positive
  have length : s.startAccept.connections.length = s.connections.length + 1 := List.length_append
  have longer : s.startAccept.handed.length = s.handed.length + 1 := List.length_append
  have others : ∀ operation, operation ≠ .accept → s.startAccept.pending operation = s.pending operation := by
    intro operation other
    simp [pending,startAccept,Ne.symm other]
  constructor
  · constructor
    · rw [longer]
      exact congrArg Prod.snd turn
    · rw [longer,turns_succ,← steady.handed,Nat.zero_add]
      exact congrArg (s.handed ++ [·]) (congrArg Prod.fst turn)
    · intro own
      obtain ⟨counted,made⟩ := steady.made own
      rw [longer,length,turns_succ,← made,counted]
      rw [counted] at turn
      exact ⟨rfl,congrArg (s.connections ++ [·]) (congrArg Prod.fst turn)⟩
    · exact steady.services
    · rw [others .stopSignal (by decide)]
      exact steady.stopping
    · rw [others .logReopenSignal (by decide)]
      exact steady.reopening
    · exact steady.halted
    · exact steady.ordered
  · omega
  · have one : s.startAccept.pending .accept = s.pending .accept + 1 := by
      simp only [pending,startAccept,List.count_cons_self]
      omega
    have still : s.startAccept.serving = false := idle
    rw [one,nothing,still]
    rfl
  · intro k member
    have still : s.startAccept.serving = false := idle
    have before := earlier k member
    rw [length,still]
    exact Nat.succ_le_succ before

theorem construct_sound (made : construct n = .some s) : s.Sound n := by
  unfold construct at made
  split at made
  next => cases made
  next filled =>
    have positive : 0 < n := Nat.pos_of_ne_zero filled
    have zero : 0 % n = 0 := Nat.zero_mod n
    have first := getIoService_turn positive 0
    rw [zero] at first
    simp only [first,getIoService_turn positive,Option.some.injEq] at made
    rw [← made]
    have three : [0,(0 + 1) % n,(0 + 1 + 1) % n] = turns n 0 3 := by simp [turns,List.range_succ]
    refine startAccept_sound positive ⟨rfl,three,fun _ => ⟨rfl,rfl⟩,⟨rfl,rfl,rfl⟩,rfl,rfl,?_,.nil⟩ rfl rfl ?_
    · intro impossible
      cases impossible
    · intro k member
      cases member

theorem completes_sound (sound : s.Sound n) (operation : Operation) (error : Bool) :
    (s.completes operation error).Sound n := by
  have same := fun other => completes_pending (s := s) operation other error
  have rest : (s.completes operation error) =
      {s with waits := (s.completes operation error).waits,ready := (s.completes operation error).ready} := by
    unfold completes
    split <;> rfl
  have stopping := sound.stopping
  have reopening := sound.reopening
  have accepting := sound.accepting
  rw [← same] at stopping reopening accepting
  rw [rest] at stopping reopening accepting ⊢
  exact ⟨⟨sound.pool,sound.handed,sound.made,sound.services,stopping,reopening,sound.halted,sound.ordered⟩,
    sound.some,accepting,sound.latest⟩

theorem calls_sound (positive : 0 < n) (sound : s.Sound n) (handler : Operation × Bool) : (s.calls handler).Sound n := by
  unfold calls
  split
  next called =>
    obtain ⟨operation,error⟩ := handler
    have erased := erased_pending called.1
    have accepting := sound.accepting
    have stopping := sound.stopping
    have reopening := sound.reopening
    rw [← erased] at accepting stopping reopening
    cases operation with
    | accept =>
      have idle : s.serving = false := by
        cases serving : s.serving with
        | false => rfl
        | true => simp [serving] at accepting
      have earlier : ∀ k ∈ s.started, k + 2 ≤ s.connections.length := by
        intro k member
        have latest := sound.latest k member
        rwa [idle] at latest
      have steady : Steady n {s with ready := s.ready.erase (.accept,error)} :=
        ⟨sound.pool,sound.handed,sound.made,sound.services,stopping,reopening,sound.halted,sound.ordered⟩
      have nothing : pending {s with ready := s.ready.erase (.accept,error)} .accept = 0 := by
        simp at accepting
        omega
      cases error with
      | true =>
        exact startAccept_sound positive steady nothing idle fun k member => by
          have before := earlier k member
          change k < s.connections.length
          omega
      | false =>
        have some := sound.some
        refine ⟨⟨sound.pool,sound.handed,sound.made,sound.services,stopping,reopening,sound.halted,?_⟩,some,?_,?_⟩
        · refine List.pairwise_append.mpr ⟨sound.ordered,List.pairwise_singleton ..,?_⟩
          intro k member later current
          have before := earlier k member
          rw [List.mem_singleton.mp current]
          change k < s.connections.length - 1
          omega
        · exact congrArg (· + 1) nothing
        · intro k member
          change k + 1 ≤ s.connections.length
          rcases List.mem_append.mp member with old | new
          · have before := earlier k old
            omega
          · rw [List.mem_singleton.mp new]
            change s.connections.length - 1 + 1 ≤ s.connections.length
            omega
    | stopSignal =>
      refine ⟨⟨sound.pool,sound.handed,sound.made,sound.services,?_,reopening,fun _ => rfl,sound.ordered⟩,
        sound.some,accepting,sound.latest⟩
      simp at stopping
      change pending {s with ready := s.ready.erase (.stopSignal,error)} .stopSignal + (s.stops + 1) = 1
      omega
    | logReopenSignal =>
      refine ⟨⟨sound.pool,sound.handed,sound.made,sound.services,stopping,?_,sound.halted,sound.ordered⟩,
        sound.some,accepting,sound.latest⟩
      simp at reopening
      change pending {s with ready := s.ready.erase (.logReopenSignal,error)} .logReopenSignal + (s.reopens + 1) = 1
      omega
  next => exact sound

theorem step_sound (positive : 0 < n) (sound : s.Sound n) (event : ServerStep) : (s.step event).Sound n := by
  cases event with
  | run =>
    exact ⟨⟨sound.pool,sound.handed,sound.made,sound.services,sound.stopping,sound.reopening,sound.halted,sound.ordered⟩,
      sound.some,sound.accepting,sound.latest⟩
  | stop =>
    exact ⟨⟨sound.pool,sound.handed,sound.made,sound.services,sound.stopping,sound.reopening,fun _ => rfl,sound.ordered⟩,
      sound.some,sound.accepting,sound.latest⟩
  | lend =>
    have turn := sound.turn positive
    have longer : s.lend.handed.length = s.handed.length + 1 := List.length_append
    have pool : s.lend.pool = ⟨n,s.lend.handed.length % n⟩ := by
      rw [longer]
      exact congrArg Prod.snd turn
    have handed : s.lend.handed = turns n 0 s.lend.handed.length := by
      rw [longer,turns_succ,← sound.handed,Nat.zero_add]
      exact congrArg (s.handed ++ [·]) (congrArg Prod.fst turn)
    exact ⟨⟨pool,handed,fun own => absurd own (Nat.succ_ne_zero s.lent),sound.services,sound.stopping,sound.reopening,
      sound.halted,sound.ordered⟩,sound.some,sound.accepting,sound.latest⟩
  | accept error => exact completes_sound sound .accept error
  | signal signal => exact completes_sound sound signal.operation false
  | call handler => exact calls_sound positive sound handler
  | served =>
    simp only [step]
    split
    next serving =>
      have accepting := sound.accepting
      rw [serving] at accepting
      have steady : Steady n {s with serving := false} :=
        ⟨sound.pool,sound.handed,sound.made,sound.services,sound.stopping,sound.reopening,sound.halted,sound.ordered⟩
      refine startAccept_sound positive steady (Nat.succ.inj accepting) rfl ?_
      intro k member
      have latest := sound.latest k member
      rwa [serving] at latest
    next => exact sound

theorem run_sound (positive : 0 < n) (sound : s.Sound n) (events : List ServerStep) :
    (serverLoop.run s events).2.Sound n := by
  have step : ∀ s event, Sound n s → True → Sound n (serverLoop.step s event).2 :=
    fun _ event sound _ => step_sound positive sound event
  exact run_preserves step sound (admits_always (fun _ _ (_ : True) => ⟨trivial,trivial⟩) trivial events)

theorem stopped_step (stopped : s.stopped = true) (event : ServerStep) :
    (s.step event).stopped = true ∧ (s.step event).started = s.started := by
  cases event with
  | run => exact ⟨stopped,rfl⟩
  | stop => exact ⟨rfl,rfl⟩
  | lend => exact ⟨stopped,rfl⟩
  | accept error =>
    simp only [step,completes]
    split <;> exact ⟨stopped,rfl⟩
  | signal signal =>
    simp only [step,completes]
    split <;> exact ⟨stopped,rfl⟩
  | call handler =>
    have halted : s.free handler.1 = false := by simp [free,stopped]
    simp [step,calls,halted,stopped]
  | served =>
    simp only [step]
    split <;> exact ⟨stopped,rfl⟩

theorem stopped_run (stopped : s.stopped = true) (later : List ServerStep) :
    (serverLoop.run s later).2.started = s.started := by
  have kept : ∀ after event, (after.stopped = true ∧ after.started = s.started) → True →
      ((serverLoop.step after event).2.stopped = true ∧ (serverLoop.step after event).2.started = s.started) := by
    intro after event held _
    obtain ⟨still,same⟩ := stopped_step held.1 event
    exact ⟨still,same.trans held.2⟩
  exact (run_preserves kept ⟨stopped,rfl⟩ (admits_always (fun _ _ (_ : True) => ⟨trivial,trivial⟩) trivial later)).2

-- With one or two threads the one that is inside start() is the one that would
-- call handle_stop.
theorem held_step (few : n ≤ 2) (positive : 0 < n) (sound : s.Sound n) (serving : s.serving = true)
    (going : s.stopped = false) {event : ServerStep} (elsewhere : event ≠ .served ∧ event ≠ .stop) :
    (s.step event).serving = true ∧ (s.step event).stopped = false := by
  have shared : s.stopSignals = s.acceptor := by
    rw [sound.services.1,sound.services.2.2]
    have sizes : n = 1 ∨ n = 2 := by omega
    rcases sizes with rfl | rfl <;> rfl
  cases event with
  | run => exact ⟨serving,going⟩
  | stop => exact absurd rfl elsewhere.2
  | lend => exact ⟨serving,going⟩
  | accept error =>
    simp only [step,completes]
    split <;> exact ⟨serving,going⟩
  | signal signal =>
    simp only [step,completes]
    split <;> exact ⟨serving,going⟩
  | call handler =>
    obtain ⟨operation,error⟩ := handler
    simp only [step,calls]
    cases operation with
    | accept => simp [free,serving,ioService,going]
    | stopSignal => simp [free,serving,ioService,shared,going]
    | logReopenSignal =>
      split
      next => exact ⟨serving,going⟩
      next => exact ⟨serving,going⟩
  | served => exact absurd rfl elsewhere.1

theorem held_run (few : n ≤ 2) (positive : 0 < n) (sound : s.Sound n) (serving : s.serving = true)
    (going : s.stopped = false) {later : List ServerStep}
    (elsewhere : ∀ event ∈ later, event ≠ .served ∧ event ≠ .stop) : (serverLoop.run s later).2.stopped = false := by
  induction later generalizing s with
  | nil => exact going
  | cons event rest ih =>
    obtain ⟨still,runs⟩ := held_step few positive sound serving going (elsewhere event List.mem_cons_self)
    exact ih (step_sound positive sound event) still runs fun other member => elsewhere other (List.mem_cons_of_mem _ member)

theorem heeds_stop (many : 3 ≤ n) (sound : s.Sound n) (running : s.running = true) {error : Bool}
    (ready : (.stopSignal,error) ∈ s.ready) : (s.step (.call (.stopSignal,error))).stopped = true := by
  have apart : (s.stopSignals == s.acceptor) = false := by
    rw [sound.services.1,sound.services.2.2,Nat.mod_eq_of_lt (by omega)]
    rfl
  cases halted : s.stopped with
  | true => exact (stopped_step halted _).1
  | false => simp [step,calls,free,ioService,ready,running,halted,apart,handleStop]

structure Serves (n : Nat) (s : Server) : Prop where
  balanced : ∀ i j, i < n → j < n → s.handed.count i ≤ s.handed.count j + 1
  spread : s.lent = 0 → ∀ i j, i < n → j < n → s.connections.count i ≤ s.connections.count j + 1
  accepts : s.pending .accept + s.serving.toNat = 1
  once : s.started.Pairwise (· < ·) ∧ ∀ k ∈ s.started, k < s.connections.length
  reopens : s.reopens ≤ 1
  halted : s.stopped = true → ∀ later, (serverLoop.run s later).2.started = s.started
  held : n ≤ 2 → s.serving = true → s.stopped = false → ∀ later : List ServerStep,
    (∀ event ∈ later, event ≠ .served ∧ event ≠ .stop) → (serverLoop.run s later).2.stopped = false
  heeds : 3 ≤ n → s.running = true → ∀ error, (.stopSignal,error) ∈ s.ready →
    (s.step (.call (.stopSignal,error))).stopped = true

end Server

-- Whatever happens to a server in whatever order: its connections are spread
-- evenly over the io_services, one of them at a time is served and none twice,
-- it goes on accepting, and it opens its log file anew at most once.
theorem server_serves {n : Nat} {s : Server} (made : Server.construct n = some s) (events : List ServerStep) :
    (serverLoop.run s events).2.Serves n := by
  have positive : 0 < n := by
    apply Nat.pos_of_ne_zero
    rintro rfl
    cases made
  have sound := Server.run_sound positive (Server.construct_sound made) events
  generalize (serverLoop.run s events).2 = s at sound
  refine ⟨?_,?_,sound.accepting,⟨sound.ordered,?_⟩,?_,?_,?_,?_⟩
  · intro i j inside other
    rw [sound.handed]
    exact turns_balanced 0 _ inside other
  · intro own i j inside other
    rw [(sound.made own).2]
    exact turns_balanced 3 _ inside other
  · intro k member
    have latest := sound.latest k member
    split at latest <;> omega
  · have reopening := sound.reopening
    omega
  · exact fun stopped later => Server.stopped_run stopped later
  · exact fun few serving going later elsewhere => Server.held_run few positive sound serving going elsewhere
  · exact fun many running error ready => Server.heeds_stop many sound running ready

-- A client that says nothing, at a server of two threads: SIGTERM waits for it.
def silentClient : List ServerStep :=
  [.run,.accept false,.call (.accept,false),.signal .sigterm,.call (.stopSignal,false)]

theorem server_serves_silent_client : ∃ s, Server.construct 2 = some s ∧
    (serverLoop.run s silentClient).2.serving = true ∧ (serverLoop.run s silentClient).2.stopped = false ∧
      (serverLoop.run s silentClient).2.Serves 2 :=
  ⟨_,rfl,by decide,by decide,server_serves rfl _⟩

end Kisscpp
