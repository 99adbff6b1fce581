import Kisscpp.RequestModel

namespace Kisscpp
open TextLines PropertyTree DecimalText

def registered (handlers : List RequestHandler) : RequestRouter :=
  handlers.foldl RequestRouter.registerHandler RequestRouter.empty

def LastRegistered (handlers : List RequestHandler) (command : Text) (handler : RequestHandler) : Prop :=
  ∃ earlier later, handlers = earlier ++ handler :: later ∧ handler.id = command ∧ ∀ other ∈ later, other.id ≠ command

theorem register_fold (handlers : List RequestHandler) (router : RequestRouter) (command : Text) :
    handlers.foldl RequestRouter.registerHandler router command =
      (handlers.reverse.find? fun handler => handler.id == command).or (router command) := by
  induction handlers generalizing router with
  | nil => rfl
  | cons first rest ih =>
    rw [List.foldl_cons,ih,List.reverse_cons,List.find?_append,Option.or_assoc]
    congr 1
    by_cases own : first.id = command
    · simp [RequestRouter.registerHandler,own]
    · simp [RequestRouter.registerHandler,own,Ne.symm own]

theorem registered_last {handlers : List RequestHandler} {command : Text} {handler : RequestHandler} :
    registered handlers command = some handler ↔ LastRegistered handlers command handler := by
  rw [registered,register_fold,RequestRouter.empty,Option.or_none,List.find?_eq_some_iff_append]
  constructor
  · rintro ⟨named,after,before,shape,others⟩
    refine ⟨before.reverse,after.reverse,?_,by simpa using named,?_⟩
    · rw [← List.reverse_reverse handlers,shape]
      simp
    · intro other member
      simpa using others other (List.mem_reverse.mp member)
  · rintro ⟨earlier,later,rfl,named,others⟩
    refine ⟨by simpa using named,later.reverse,earlier.reverse,by simp,?_⟩
    intro other member
    simpa using others other (List.mem_reverse.mp member)

theorem refuse_status (response : Ptree) (status : RequestStatus) (message : Text) :
    (refuse response status message).get "kcm-sts".toList = .ok status.text := by
  have different : "kcm-sts".toList ≠ "kcm-erm".toList := by decide
  rw [refuse,Ptree.get_put_ne rfl rfl _ _ rfl different,Ptree.get_put_self rfl rfl]

theorem refuse_message (response : Ptree) (status : RequestStatus) (message : Text) :
    (refuse response status message).get "kcm-erm".toList = .ok message := Ptree.get_put_self rfl rfl _ _

def Refused (response : Ptree) : Prop :=
  ∃ status message, status ≠ RequestStatus.success ∧ response.get "kcm-sts".toList = .ok status.text ∧
    response.get "kcm-erm".toList = .ok message

theorem refuse_refused {response : Ptree} {status : RequestStatus} {message : Text}
    (failure : status ≠ RequestStatus.success) : Refused (refuse response status message) :=
  ⟨status,message,failure,refuse_status response status message,refuse_message response status message⟩

theorem refused_status {response : Ptree} (refused : Refused response) :
    response.get "kcm-sts".toList ≠ .ok RequestStatus.success.text := by
  obtain ⟨status,_,failure,reads,_⟩ := refused
  rw [reads]
  intro same
  have equal : status.text = RequestStatus.success.text := Except.ok.inj same
  cases status with
  | success => exact failure rfl
  | _ => exact absurd equal (by decide)

theorem routeRequest_cases (router : RequestRouter) (request response : Ptree) :
    ((∀ command handler, request.get "kcm-cmd".toList = .ok command → router command ≠ some handler) ∧
      (router.routeRequest request response).ran = [] ∧ (router.routeRequest request response).thrown = none ∧
      Refused (router.routeRequest request response).response) ∨
    ∃ command handler, request.get "kcm-cmd".toList = .ok command ∧ router command = some handler ∧
      (router.routeRequest request response).ran = [handler] ∧
      ((handler.run request response).2 = none ∧ (router.routeRequest request response).thrown = none ∧
          (router.routeRequest request response).response = (handler.run request response).1 ∨
        (handler.run request response).2 ≠ none ∧ ((router.routeRequest request response).thrown ≠ none ∨
          (router.routeRequest request response).thrown = none ∧
            Refused (router.routeRequest request response).response)) := by
  unfold RequestRouter.routeRequest
  cases cmd : request.get "kcm-cmd".toList with
  | error e =>
    refine .inl ⟨?_,rfl,rfl,refuse_refused (by decide)⟩
    intro command handler same
    cases same
  | ok command =>
    cases found : router command with
    | none =>
      refine .inl ⟨?_,by simp [found],by simp [found],?_⟩
      · intro other handler same
        cases same
        simp [found]
      · simpa [found] using refuse_refused (by decide)
    | some handler =>
      refine .inr ⟨command,handler,rfl,found,?_⟩
      cases ran : handler.run request response with
      | mk after outcome =>
        cases outcome with
        | none => simp [found,ran]
        | some thrown =>
          cases thrown with
          | badPath what => simpa [found,ran] using refuse_refused (by decide)
          | exception what => simp [found,ran]
          | other => simp [found,ran]

namespace Connection

def Accepted (cfg : Config) (request : Ptree) : Prop :=
  ∃ appId appInstance, request.get "kcm-client.id".toList = .ok appId ∧
    request.get "kcm-client.instance".toList = .ok appInstance ∧ cfg.isAllowedClient appId appInstance = true

theorem allowedClient_true {cfg : Config} {request : Ptree} :
    allowedClient cfg request = .ok true ↔ Accepted cfg request := by
  unfold allowedClient Accepted
  cases request.get "kcm-client.id".toList with
  | error e =>
    refine iff_of_false (by intro same; cases same) ?_
    rintro ⟨_,_,none,_⟩
    cases none
  | ok appId =>
    cases request.get "kcm-client.instance".toList with
    | error e =>
      refine iff_of_false (by intro same; cases same) ?_
      rintro ⟨_,_,_,none,_⟩
      cases none
    | ok appInstance =>
      constructor
      · intro accepted
        exact ⟨appId,appInstance,rfl,rfl,Except.ok.inj accepted⟩
      · rintro ⟨_,_,sameId,sameInstance,accepted⟩
        cases sameId
        cases sameInstance
        exact congrArg Except.ok accepted

theorem handle_cases (cfg : Config) (router : RequestRouter) (request response : Ptree) :
    ((¬ ∃ command handler, Accepted cfg request ∧ request.get "kcm-cmd".toList = .ok command ∧
        router command = some handler) ∧
      (handle cfg router request response).2 = [] ∧ Refused (handle cfg router request response).1) ∨
    ∃ command handler, Accepted cfg request ∧ request.get "kcm-cmd".toList = .ok command ∧
      router command = some handler ∧ (handle cfg router request response).2 = [handler] ∧
      ((handler.run request response).2 = none ∧
          (handle cfg router request response).1 = (handler.run request response).1 ∨
        (handler.run request response).2 ≠ none ∧ Refused (handle cfg router request response).1) := by
  have turned : ∀ {after}, allowedClient cfg request = after → after ≠ .ok true →
      ¬ ∃ command handler, Accepted cfg request ∧ request.get "kcm-cmd".toList = .ok command ∧
        router command = some handler := by
    rintro after gate closed ⟨_,_,accepted,_⟩
    exact closed (gate.symm.trans (allowedClient_true.mpr accepted))
  unfold handle
  cases gate : allowedClient cfg request with
  | error e => exact .inl ⟨turned gate (by simp),rfl,refuse_refused (by decide)⟩
  | ok accepted =>
    cases accepted with
    | false => exact .inl ⟨turned gate (by simp),rfl,refuse_refused (by decide)⟩
    | true =>
      have accepted := allowedClient_true.mp gate
      have routed := routeRequest_cases router request response
      cases result : router.routeRequest request response with
      | mk after ran thrown =>
        rw [result] at routed
        rcases routed with ⟨unknown,none,calm,refused⟩ | ⟨command,handler,cmd,found,called,outcome⟩
        · cases calm
          refine .inl ⟨?_,none,refused⟩
          rintro ⟨command,handler,_,cmd,found⟩
          exact unknown command handler cmd found
        · refine .inr ⟨command,handler,accepted,cmd,found,?_⟩
          rcases outcome with ⟨returned,calm,same⟩ | ⟨threw,escaped | ⟨calm,refused⟩⟩
          · cases calm
            exact ⟨called,.inl ⟨returned,same⟩⟩
          · cases thrown with
            | none => exact absurd rfl escaped
            | some thrown =>
              cases thrown with
              | badPath what => exact ⟨called,.inr ⟨threw,refuse_refused (by decide)⟩⟩
              | exception what => exact ⟨called,.inr ⟨threw,refuse_refused (by decide)⟩⟩
              | other => exact ⟨called,.inr ⟨threw,refuse_refused (by decide)⟩⟩
          · cases calm
            exact ⟨called,.inr ⟨threw,refused⟩⟩

structure Controlled (json : Json) (cfg : Config) (handlers : List RequestHandler) (clientIp line : Text)
    (served : Served) : Prop where
  once : served.ran.length ≤ 1
  dispatched : ∀ handler, served.ran = [handler] ↔ cfg.isAllowedIp clientIp = true ∧
    ∃ request, json.readJson line = some request ∧ Accepted cfg request ∧
      ∃ command, request.get "kcm-cmd".toList = .ok command ∧ LastRegistered handlers command handler
  answered : json.writeJson served.rawResponse ≠ none →
    (served.sent = none ↔ cfg.isAllowedIp clientIp = true ∧ json.readJson line = none)
  written : ∀ text, served.sent = some text → json.writeJson served.rawResponse = some text
  success : served.rawResponse.get "kcm-sts".toList = .ok RequestStatus.success.text →
    ∃ request handler, json.readJson line = some request ∧ served.ran = [handler] ∧
      handler.run request .empty = (served.rawResponse,none)
  refused : ¬ (cfg.isAllowedIp clientIp = true ∧ json.readJson line = none) →
    (¬ ∃ request handler, json.readJson line = some request ∧ served.ran = [handler] ∧
      (handler.run request .empty).2 = none) → Refused served.rawResponse

section Start
variable {json : Json} {cfg : Config} {handlers : List RequestHandler} {clientIp line : Text}

theorem denied_controlled (ip : ¬ cfg.isAllowedIp clientIp = true) {response : Ptree} (refused : Refused response) :
    Controlled json cfg handlers clientIp line ⟨response,json.writeJson response,[]⟩ := by
  refine ⟨Nat.zero_le _,?_,fun written => iff_of_false written fun read => ip read.1,fun _ same => same,
    fun success => absurd success (refused_status refused),fun _ _ => refused⟩
  intro handler
  refine iff_of_false (by intro same; cases same) ?_
  rintro ⟨allowed,_⟩
  exact ip allowed

theorem unread_controlled (ip : cfg.isAllowedIp clientIp = true) (unread : json.readJson line = none) :
    Controlled json cfg handlers clientIp line ⟨.empty,none,[]⟩ := by
  refine ⟨Nat.zero_le _,?_,fun _ => iff_of_true rfl ⟨ip,unread⟩,?_,?_,fun read => absurd ⟨ip,unread⟩ read⟩
  · intro handler
    refine iff_of_false (by intro same; cases same) ?_
    rintro ⟨_,request,read,_⟩
    cases unread.symm.trans read
  · intro text none
    cases none
  · intro reads
    cases reads

theorem parsed_read {request : Ptree} (parsed : json.readJson line = some request) :
    ¬ (cfg.isAllowedIp clientIp = true ∧ json.readJson line = none) := by
  rintro ⟨_,none⟩
  cases parsed.symm.trans none

theorem dispatch_iff (ip : cfg.isAllowedIp clientIp = true) {request : Ptree}
    (parsed : json.readJson line = some request) (handler : RequestHandler) :
    (∃ command, Accepted cfg request ∧ request.get "kcm-cmd".toList = .ok command ∧
        registered handlers command = some handler) ↔
      cfg.isAllowedIp clientIp = true ∧ ∃ request, json.readJson line = some request ∧ Accepted cfg request ∧
        ∃ command, request.get "kcm-cmd".toList = .ok command ∧ LastRegistered handlers command handler := by
  constructor
  · rintro ⟨command,accepted,cmd,found⟩
    exact ⟨ip,request,parsed,accepted,command,cmd,registered_last.mp found⟩
  · rintro ⟨_,other,same,accepted,command,cmd,last⟩
    cases parsed.symm.trans same
    exact ⟨command,accepted,cmd,registered_last.mpr last⟩

theorem closed_controlled (ip : cfg.isAllowedIp clientIp = true) {request : Ptree}
    (parsed : json.readJson line = some request)
    (closed : ¬ ∃ command handler, Accepted cfg request ∧ request.get "kcm-cmd".toList = .ok command ∧
      registered handlers command = some handler) {response : Ptree} (refused : Refused response) :
    Controlled json cfg handlers clientIp line ⟨response,json.writeJson response,[]⟩ := by
  refine ⟨Nat.zero_le _,?_,fun written => iff_of_false written (parsed_read parsed),fun _ same => same,
    fun success => absurd success (refused_status refused),fun _ _ => refused⟩
  intro handler
  rw [← dispatch_iff ip parsed]
  refine iff_of_false (by intro same; cases same) ?_
  rintro ⟨command,passed⟩
  exact closed ⟨command,handler,passed⟩

theorem called_controlled (ip : cfg.isAllowedIp clientIp = true) {request : Ptree}
    (parsed : json.readJson line = some request) {command : Text} {handler : RequestHandler}
    (accepted : Accepted cfg request) (cmd : request.get "kcm-cmd".toList = .ok command)
    (found : registered handlers command = some handler) {response : Ptree}
    (outcome : (handler.run request .empty).2 = none ∧ response = (handler.run request .empty).1 ∨
      (handler.run request .empty).2 ≠ none ∧ Refused response) :
    Controlled json cfg handlers clientIp line ⟨response,json.writeJson response,[handler]⟩ := by
  refine ⟨Nat.le_refl _,?_,fun written => iff_of_false written (parsed_read parsed),fun _ same => same,?_,?_⟩
  · intro other
    rw [← dispatch_iff ip parsed]
    constructor
    · intro same
      cases same
      exact ⟨command,accepted,cmd,found⟩
    · rintro ⟨again,_,sameCmd,sameFound⟩
      cases cmd.symm.trans sameCmd
      cases found.symm.trans sameFound
      rfl
  · intro success
    rcases outcome with ⟨returned,same⟩ | ⟨_,refused⟩
    · exact ⟨request,handler,parsed,rfl,Prod.ext same.symm returned⟩
    · exact absurd success (refused_status refused)
  · intro _ threw
    rcases outcome with ⟨returned,_⟩ | ⟨_,refused⟩
    · exact absurd ⟨request,handler,parsed,rfl,returned⟩ threw
    · exact refused

theorem handled_controlled (ip : cfg.isAllowedIp clientIp = true) {request : Ptree}
    (parsed : json.readJson line = some request) : Controlled json cfg handlers clientIp line
      ⟨(handle cfg (registered handlers) request .empty).1,
        json.writeJson (handle cfg (registered handlers) request .empty).1,
        (handle cfg (registered handlers) request .empty).2⟩ := by
  have cases := handle_cases cfg (registered handlers) request .empty
  generalize handle cfg (registered handlers) request .empty = result at cases ⊢
  obtain ⟨response,ran⟩ := result
  rcases cases with ⟨closed,none,refused⟩ | ⟨command,handler,accepted,cmd,found,called,outcome⟩
  · cases none
    exact closed_controlled ip parsed closed refused
  · cases called
    exact called_controlled ip parsed accepted cmd found outcome

end Start

theorem start_controlled (json : Json) (cfg : Config) (handlers : List RequestHandler) (clientIp line : Text) :
    Controlled json cfg handlers clientIp line (start json cfg (registered handlers) clientIp line) := by
  unfold start
  by_cases ip : cfg.isAllowedIp clientIp = true
  · rw [if_pos ip]
    cases parsed : json.readJson line with
    | none => exact unread_controlled ip parsed
    | some request => exact handled_controlled ip parsed
  · rw [if_neg ip]
    have failure : RequestStatus.clientDenied ≠ RequestStatus.success := by decide
    exact denied_controlled ip (refuse_refused failure)

end Connection
end Kisscpp
