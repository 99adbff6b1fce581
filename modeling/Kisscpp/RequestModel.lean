import Kisscpp.Configuration
import Kisscpp.DecimalText

namespace Kisscpp
open TextLines PropertyTree DecimalText

inductive RequestStatus where
  | success
  | commandNotSupported
  | invalidParameter
  | missingParameter
  | applicationBusy
  | applicationShutingDown
  | clientDenied
  | processingFailure
  | unknown
  deriving DecidableEq

def RequestStatus.value : RequestStatus → Nat
  | success => 0
  | commandNotSupported => 1
  | invalidParameter => 2
  | missingParameter => 3
  | applicationBusy => 4
  | applicationShutingDown => 5
  | clientDenied => 6
  | processingFailure => 7
  | unknown => 8

def RequestStatus.text (status : RequestStatus) : Text := decimal status.value

-- What a handler can throw, as the catch clauses tell it apart.
inductive Thrown where
  | badPath (what : Text)
  | exception (what : Text)
  | other

structure RequestHandler where
  id : Text
  description : Text
  run : Ptree → Ptree → Ptree × Option Thrown

abbrev RequestRouter := Text → Option RequestHandler

namespace RequestRouter

def empty : RequestRouter := fun _ => none

def registerHandler (router : RequestRouter) (handler : RequestHandler) : RequestRouter :=
  fun command => if command = handler.id then some handler else router command

end RequestRouter

def refuse (response : Ptree) (status : RequestStatus) (message : Text) : Ptree :=
  (response.put "kcm-sts".toList status.text).put "kcm-erm".toList message

structure Routed where
  response : Ptree
  ran : List RequestHandler
  thrown : Option Thrown

def RequestRouter.routeRequest (router : RequestRouter) (request response : Ptree) : Routed :=
  match request.get "kcm-cmd".toList with
  | .error e => ⟨refuse response .missingParameter e.what,[],none⟩
  | .ok command =>
    match router command with
    | none => ⟨refuse response .commandNotSupported ("Unrecognized command: ".toList ++ command),[],none⟩
    | some handler =>
      match handler.run request response with
      | (response,none) => ⟨response,[handler],none⟩
      | (response,some (.badPath what)) => ⟨refuse response .missingParameter what,[handler],none⟩
      | (response,some thrown) => ⟨response,[handler],some thrown⟩

namespace Connection

-- read_json and write_json of the library; both fail by throwing
-- json_parser_error.
structure Json where
  readJson : Text → Option Ptree
  writeJson : Ptree → Option Text

def allowedClient (cfg : Config) (request : Ptree) : Except BadPath Bool := do
  let appId ← request.get "kcm-client.id".toList
  let appInstance ← request.get "kcm-client.instance".toList
  return cfg.isAllowedClient appId appInstance

-- The inner try block: what becomes of the response, and who was run.
def handle (cfg : Config) (router : RequestRouter) (request response : Ptree) : Ptree × List RequestHandler :=
  match allowedClient cfg request with
  | .error _ =>
    (refuse response .clientDenied "Request denied: Your request does not contain kcm-client data.".toList,[])
  | .ok false =>
    (refuse response .clientDenied
      "Request denied: Your application and/or instance id is not in my white-list.".toList,[])
  | .ok true =>
    match router.routeRequest request response with
    | ⟨response,ran,none⟩ => (response,ran)
    | ⟨response,ran,some (.badPath _)⟩ =>
      (refuse response .clientDenied "Request denied: Your request does not contain kcm-client data.".toList,ran)
    | ⟨response,ran,some (.exception what)⟩ => (refuse response .unknown ("std::exception: ".toList ++ what),ran)
    | ⟨response,ran,some .other⟩ =>
      (refuse response .unknown "Unhandled exception while routing request!".toList,ran)

structure Served where
  rawResponse : Ptree
  sent : Option Text
  ran : List RequestHandler

-- From the line that getline took off the stream. Without a tree to answer
-- with, the outer catch only logs.
def start (json : Json) (cfg : Config) (router : RequestRouter) (clientIp line : Text) : Served :=
  if cfg.isAllowedIp clientIp then
    match json.readJson line with
    | none => ⟨.empty,none,[]⟩
    | some request =>
      let (response,ran) := handle cfg router request .empty
      ⟨response,json.writeJson response,ran⟩
  else
    let response := refuse .empty .clientDenied
      "Request denied: Your IP address is not in my white-list.".toList
    ⟨response,json.writeJson response,[]⟩

end Connection
end Kisscpp
