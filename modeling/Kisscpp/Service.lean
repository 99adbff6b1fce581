import Mathlib.Data.Char
import Mathlib.Data.List.Lex
import Kisscpp.AccessControl
import Kisscpp.OrderedMap
import Kisscpp.Unwinding

namespace Kisscpp
open TextLines PropertyTree Stepping

-- A handler together with what it works on: the singletons of the process and
-- whatever the application keeps.
structure Handler (σ : Type*) where
  id : Text
  description : Text
  run : σ → Ptree → Ptree → (Ptree × Option Thrown) × σ

def Handler.given {σ : Type*} (s : σ) (h : Handler σ) : RequestHandler :=
  ⟨h.id,h.description,fun request response => (h.run s request response).1⟩

abbrev RequestHandlerMap (σ : Type*) := OrderedMap Text (Handler σ)

namespace RequestHandlerMap
variable {σ : Type*}

def registerHandler (map : RequestHandlerMap σ) (handler : Handler σ) : RequestHandlerMap σ := map.put handler.id handler

def routeRequest (map : RequestHandlerMap σ) (s : σ) (request response : Ptree) : Routed × σ :=
  match request.get "kcm-cmd".toList with
  | .error e => (⟨refuse response .missingParameter e.what,[],none⟩,s)
  | .ok command =>
    match map.find command with
    | none => (⟨refuse response .commandNotSupported ("Unrecognized command: ".toList ++ command),[],none⟩,s)
    | some handler =>
      match handler.run s request response with
      | ((response,none),after) => (⟨response,[handler.given s],none⟩,after)
      | ((response,some (.badPath what)),after) =>
        (⟨refuse response .missingParameter what,[handler.given s],none⟩,after)
      | ((response,some thrown),after) => (⟨response,[handler.given s],some thrown⟩,after)

def router (map : RequestHandlerMap σ) (s : σ) : RequestRouter := fun command => (map.find command).map (Handler.given s)

end RequestHandlerMap

namespace Connection
variable {σ : Type*}

def handleKeeping (cfg : Config) (map : RequestHandlerMap σ) (s : σ) (request response : Ptree) :
    (Ptree × List RequestHandler) × σ :=
  match allowedClient cfg request with
  | .error _ =>
    ((refuse response .clientDenied "Request denied: Your request does not contain kcm-client data.".toList,[]),s)
  | .ok false =>
    ((refuse response .clientDenied
      "Request denied: Your application and/or instance id is not in my white-list.".toList,[]),s)
  | .ok true =>
    match map.routeRequest s request response with
    | (⟨response,ran,none⟩,after) => ((response,ran),after)
    | (⟨response,ran,some (.badPath _)⟩,after) =>
      ((refuse response .clientDenied "Request denied: Your request does not contain kcm-client data.".toList,ran),after)
    | (⟨response,ran,some (.exception what)⟩,after) =>
      ((refuse response .unknown ("std::exception: ".toList ++ what),ran),after)
    | (⟨response,ran,some .other⟩,after) =>
      ((refuse response .unknown "Unhandled exception while routing request!".toList,ran),after)

def startKeeping (json : Json) (cfg : Config) (map : RequestHandlerMap σ) (s : σ) (clientIp line : Text) : Served × σ :=
  if cfg.isAllowedIp clientIp then
    match json.readJson line with
    | none => (⟨.empty,none,[]⟩,s)
    | some request =>
      let ((response,ran),after) := handleKeeping cfg map s request .empty
      (⟨response,json.writeJson response,ran⟩,after)
  else
    let response := refuse .empty .clientDenied
      "Request denied: Your IP address is not in my white-list.".toList
    (⟨response,json.writeJson response,[]⟩,s)

def clientAdmitted (cfg : Config) (request : Ptree) : Bool :=
  match allowedClient cfg request with
  | .ok accepted => accepted
  | .error _ => false

def admitted (json : Json) (cfg : Config) (clientIp line : Text) : Bool :=
  cfg.isAllowedIp clientIp && (json.readJson line).any (clientAdmitted cfg)

end Connection

section Given
variable {σ : Type*} (map : RequestHandlerMap σ) (s : σ)

theorem RequestHandlerMap.routeRequest_given (request response : Ptree) :
    (map.routeRequest s request response).1 = (map.router s).routeRequest request response := by
  unfold RequestHandlerMap.routeRequest RequestRouter.routeRequest
  cases request.get "kcm-cmd".toList with
  | error e => rfl
  | ok command =>
    cases found : map.find command with
    | none => simp [RequestHandlerMap.router,found]
    | some handler =>
      simp only [RequestHandlerMap.router,found,Option.map_some,Handler.given]
      obtain ⟨⟨after,thrown⟩,left⟩ := handler.run s request response
      cases thrown with
      | none => rfl
      | some thrown => cases thrown <;> rfl

theorem Connection.handleKeeping_given (cfg : Config) (request response : Ptree) :
    (handleKeeping cfg map s request response).1 = handle cfg (map.router s) request response := by
  unfold handleKeeping handle
  cases allowedClient cfg request with
  | error e => rfl
  | ok accepted =>
    cases accepted with
    | false => rfl
    | true =>
      simp only
      rw [← map.routeRequest_given s]
      obtain ⟨⟨after,ran,thrown⟩,left⟩ := map.routeRequest s request response
      cases thrown with
      | none => rfl
      | some thrown => cases thrown <;> rfl

theorem Connection.startKeeping_given (json : Json) (cfg : Config) (clientIp line : Text) :
    (startKeeping json cfg map s clientIp line).1 = start json cfg (map.router s) clientIp line := by
  unfold startKeeping start
  split
  · cases json.readJson line with
    | none => rfl
    | some request =>
      simp only
      rw [← handleKeeping_given map s]
  · rfl

theorem Connection.handleKeeping_denied {cfg : Config} {request : Ptree} (denied : clientAdmitted cfg request = false)
    (response : Ptree) :
    handleKeeping cfg map s request response = (handle cfg RequestRouter.empty request response,s) := by
  unfold clientAdmitted at denied
  unfold handleKeeping handle
  cases gate : allowedClient cfg request with
  | error e => rfl
  | ok accepted =>
    rw [gate] at denied
    cases denied
    rfl

theorem Connection.startKeeping_denied {json : Json} {cfg : Config} {clientIp line : Text}
    (denied : admitted json cfg clientIp line = false) :
    startKeeping json cfg map s clientIp line = (start json cfg RequestRouter.empty clientIp line,s) := by
  unfold startKeeping start
  by_cases ip : cfg.isAllowedIp clientIp = true
  · rw [if_pos ip,if_pos ip]
    cases parsed : json.readJson line with
    | none => rfl
    | some request =>
      have closed : clientAdmitted cfg request = false := by simpa [admitted,ip,parsed] using denied
      simp only [handleKeeping_denied map s closed]
  · rw [if_neg ip,if_neg ip]

end Given

inductive ServerEvent (κ : Type*) where
  | request (clientIp line : Text)
  | inside (k : κ)

def ServerEvent.admitted {κ : Type*} (json : Connection.Json) (cfg : Config) : ServerEvent κ → Bool
  | .request clientIp line => Connection.admitted json cfg clientIp line
  | .inside _ => true

section Serving
variable {σ κ : Type*} (json : Connection.Json) (cfg : Config) (map : RequestHandlerMap σ) (act : σ → κ → σ)

def serving : Machine σ (ServerEvent κ) (Option Connection.Served) where
  step s
    | .request clientIp line =>
      let served := Connection.startKeeping json cfg map s clientIp line
      (some served.1,served.2)
    | .inside k => (none,act s k)

theorem serving_still (s : σ) (event : ServerEvent κ) (denied : event.admitted json cfg = false) :
    ((serving json cfg map act).step s event).2 = s := by
  cases event with
  | request clientIp line => exact congrArg Prod.snd (Connection.startKeeping_denied map s denied)
  | inside k => cases denied

theorem denied_answer {s : σ} {events : List (ServerEvent κ)} {clientIp line : Text} {answer : Option Connection.Served}
    (answered : (.request clientIp line,answer) ∈ events.zip ((serving json cfg map act).run s events).1)
    (denied : Connection.admitted json cfg clientIp line = false) :
    answer = some (Connection.start json cfg RequestRouter.empty clientIp line) := by
  induction events generalizing s with
  | nil => cases answered
  | cons event rest ih =>
    rw [run_cons,List.zip_cons_cons] at answered
    rcases List.mem_cons.mp answered with here | later
    · obtain ⟨rfl,rfl⟩ := Prod.mk.inj here
      exact congrArg (some ·.1) (Connection.startKeeping_denied map s denied)
    · exact ih later

-- Lines that a gate is closed to could as well not have come: everybody else is
-- answered the same, the same is kept, and the answers to them tell nothing of
-- the handlers or of what they keep.
theorem denied_invisible (s : σ) (events : List (ServerEvent κ)) :
    ((events.zip ((serving json cfg map act).run s events).1).filter fun e => e.1.admitted json cfg).map Prod.snd =
        ((serving json cfg map act).run s (events.filter (ServerEvent.admitted json cfg))).1 ∧
      ((serving json cfg map act).run s events).2 =
        ((serving json cfg map act).run s (events.filter (ServerEvent.admitted json cfg))).2 ∧
      ∀ clientIp line answer, (.request clientIp line,answer) ∈ events.zip ((serving json cfg map act).run s events).1 →
        Connection.admitted json cfg clientIp line = false →
          answer = some (Connection.start json cfg RequestRouter.empty clientIp line) := by
  obtain ⟨answers,kept⟩ := run_without (serving_still json cfg map act) s events
  refine ⟨answers,kept,?_⟩
  intro clientIp line answer answered denied
  exact denied_answer json cfg map act answered denied

end Serving
end Kisscpp
