import Kisscpp.ConfigMerge

namespace Kisscpp
open TextLines PropertyTree

-- std::set is read by membership only, std::map by key only.
structure InstanceListType where
  allInstances : Bool := false
  instances : List Text := []

def InstanceListType.addAppInstance (l : InstanceListType) (instanceId : Text) : InstanceListType :=
  {l with instances := l.instances.insert instanceId}

def InstanceListType.isAllowedInstance (l : InstanceListType) (instanceId : Text) : Bool :=
  if l.allInstances then true else l.instances.contains instanceId

abbrev MappedWhiteListType := Text → Option InstanceListType

-- operator[]: a missing entry is value-initialised.
def MappedWhiteListType.entry (m : MappedWhiteListType) (appId : Text) : InstanceListType := (m appId).getD {}

def MappedWhiteListType.set (m : MappedWhiteListType) (appId : Text) (l : InstanceListType) : MappedWhiteListType :=
  fun other => if other = appId then some l else m other

structure Config where
  applicationId : Text
  applicationInstance : Text
  cfgData : Ptree := .empty
  allowAllIpAddrs : Bool := false
  allowAllApplications : Bool := false
  commsWhiteListIpAddrs : List Text := []
  commsWhiteListApplications : MappedWhiteListType := fun _ => none

-- read_json either throws or yields the whole tree.
inductive ConfigFile where
  | missing
  | malformed
  | holds (t : Ptree)

inductive LoadFailure where
  | parser
  | merge (e : MergeFailure)
  | badPath (e : BadPath)

structure Environment where
  kcppCacheRoot : Option Text
  kcppQueRoot : Option Text

namespace Config

-- What the constructor initiates from.
def fresh (appId appInstance : Text) : Config := {applicationId := appId,applicationInstance := appInstance}

def get (cfg : Config) (s : Text) : Except BadPath Text := cfg.cfgData.get s

def isAllowedIp (cfg : Config) (ipAddress : Text) : Bool :=
  if cfg.allowAllIpAddrs then true else cfg.commsWhiteListIpAddrs.contains ipAddress

def isAllowedClient (cfg : Config) (appId appInstance : Text) : Bool :=
  if cfg.allowAllApplications then true
  else match cfg.commsWhiteListApplications appId with
    | some l => l.isAllowedInstance appInstance
    | none => false

def loadFile : ConfigFile → Ptree → Except LoadFailure (Bool × Ptree)
  | .missing,pt => .ok (false,pt)
  | .malformed,_ => .error .parser
  | .holds t,_ => .ok (true,t)

def loadFiles (fuel : Nat) (common own : ConfigFile) (cfg : Config) : Except LoadFailure Config := do
  match ← loadFile common cfg.cfgData with
  | (true,data) =>
    match ← loadFile own .empty with
    | (true,cfgInstance) =>
      match ptreeMerge fuel data cfgInstance [] with
      | .ok merged => return {cfg with cfgData := merged}
      | .error e => throw (.merge e)
    | (false,_) => return {cfg with cfgData := data}
  | (false,data) =>
    let (_,data) ← loadFile own data
    return {cfg with cfgData := data}

def isTrue (t : Ptree) (path : Text) : Bool := t.getD path "false".toList == "true".toList

def addApplication (m : MappedWhiteListType) (v : Text × Ptree) : Except BadPath MappedWhiteListType :=
  if v.1 = "application".toList then do
    let appId ← v.2.get "id".toList
    let l := {m.entry appId with allInstances := isTrue v.2 "all-instances".toList}
    if l.allInstances then return m.set appId l
    else
      let instanceList ← v.2.getChild "instance-list".toList
      return m.set appId (instanceList.children.foldl (fun l appData => l.addAppInstance appData.2.data) l)
  else return m

def populateIpAddrs (cfg : Config) : Except BadPath Config :=
  if cfg.allowAllIpAddrs then .ok cfg
  else match cfg.cfgData.getChild "kcc-white-list.ip-list".toList with
    | .error e => .error e
    | .ok ipList =>
      let ips := ipList.children.foldl (fun ips v => ips.insert v.2.data) cfg.commsWhiteListIpAddrs
      .ok {cfg with commsWhiteListIpAddrs := ips}

def populateApplications (cfg : Config) : Except BadPath Config :=
  if cfg.allowAllApplications then .ok cfg
  else do
    let applicationList ← cfg.cfgData.getChild "kcc-white-list.application-list".toList
    let m ← applicationList.children.foldlM addApplication cfg.commsWhiteListApplications
    return {cfg with commsWhiteListApplications := m}

def populateWhiteLists (cfg : Config) : Except BadPath Config :=
  if (cfg.cfgData.find "kcc-white-list".toList).isSome then do
    let cfg ← populateIpAddrs {cfg with
      allowAllIpAddrs := isTrue cfg.cfgData "kcc-white-list.all-ip-addrs".toList
      allowAllApplications := isTrue cfg.cfgData "kcc-white-list.all-apps".toList}
    populateApplications cfg
  else return {cfg with allowAllIpAddrs := true,allowAllApplications := true}

def populateDefaultDirs (env : Environment) (cfg : Config) : Config :=
  let dirs := match env.kcppCacheRoot,env.kcppQueRoot with
    | some cache,some queue => (cache,queue)
    | some cache,none => (cache,cache)
    | none,some queue => (queue,queue)
    | none,none => ("/tmp".toList,"/tmp".toList)
  let below := '/' :: cfg.applicationId ++ '/' :: cfg.applicationInstance
  let data := cfg.cfgData.put "app-cache-dir".toList (dirs.1 ++ below)
  {cfg with cfgData := data.put "app-queue-dir".toList (dirs.2 ++ below)}

def loadConfig (fuel : Nat) (env : Environment) (common own : ConfigFile) (cfg : Config) :
    Except LoadFailure Config := do
  let cfg ← loadFiles fuel common own cfg
  match populateWhiteLists cfg with
  | .error e => throw (.badPath e)
  | .ok cfg => return populateDefaultDirs env cfg

end Config
end Kisscpp
