import Kisscpp.Configuration
import Kisscpp.PropertyTreeGrafts

namespace Kisscpp
open TextLines PropertyTree

def idOf (e : Ptree) : Text := ((e.find "id".toList).getD .empty).data

def allInstances (e : Ptree) : Prop := ∃ flag, e.find "all-instances".toList = some flag ∧ flag.data = "true".toList

def lists (e : Ptree) (appInstance : Text) : Prop :=
  ∃ l, e.find "instance-list".toList = some l ∧ appInstance ∈ l.values

def allows (e : Ptree) (appInstance : Text) : Prop := allInstances e ∨ lists e appInstance

structure Readable (e : Ptree) : Prop where
  id : ∃ found, e.find "id".toList = some found
  own : allInstances e ∨ ∃ l, e.find "instance-list".toList = some l

def MappedWhiteListType.admits (m : MappedWhiteListType) (appId appInstance : Text) : Prop :=
  ∃ l, m appId = some l ∧ l.isAllowedInstance appInstance = true

theorem getChild_key (key : Text) (plain : reduced key = [key]) {e found : Ptree} (here : e.find key = some found) :
    e.getChild key = .ok found := by
  simp [Ptree.getChild,plain,here]

theorem isTrue_all {e : Ptree} : Config.isTrue e "all-instances".toList = true ↔ allInstances e := by
  have plain : reduced "all-instances".toList = ["all-instances".toList] := rfl
  rw [Config.isTrue,Ptree.getD,plain,Ptree.walk_cons,Ptree.bind_walk_nil,allInstances]
  generalize "all-instances".toList = key
  cases e.find key with
  | none => simp
  | some flag => simp

theorem addAppInstance_fold (values : List (Text × Ptree)) (l : InstanceListType) :
    (values.foldl (fun l v => l.addAppInstance v.2.data) l).allInstances = l.allInstances ∧
    ∀ i, i ∈ (values.foldl (fun l v => l.addAppInstance v.2.data) l).instances ↔
      i ∈ l.instances ∨ i ∈ (Ptree.node [] values).values := by
  induction values generalizing l with
  | nil => simp [Ptree.values]
  | cons v rest ih =>
    obtain ⟨flag,members⟩ := ih (l.addAppInstance v.2.data)
    refine ⟨flag,?_⟩
    intro i
    rw [List.foldl_cons,members]
    simp only [InstanceListType.addAppInstance,List.mem_insert_iff,Ptree.values,Ptree.children_node,List.map_cons,
      List.mem_cons]
    exact or_assoc.trans or_left_comm

@[simp] theorem set_self (m : MappedWhiteListType) (appId : Text) (l : InstanceListType) : m.set appId l appId = some l :=
  if_pos rfl

theorem set_ne (m : MappedWhiteListType) {appId other : Text} (different : other ≠ appId) (l : InstanceListType) :
    m.set appId l other = m other := if_neg different

theorem admits_set {m : MappedWhiteListType} {appId : Text} {l : InstanceListType} {i : Text} :
    (m.set appId l).admits appId i ↔ l.allInstances = true ∨ i ∈ l.instances := by
  simp [MappedWhiteListType.admits,InstanceListType.isAllowedInstance]

theorem addApplication_all {m : MappedWhiteListType} {e : Ptree} {appId : Text} (found : e.get "id".toList = .ok appId)
    (all : Config.isTrue e "all-instances".toList = true) : Config.addApplication m ("application".toList,e) =
      .ok (m.set appId {m.entry appId with allInstances := true}) := by
  have entry : ("application".toList,e).1 = "application".toList := rfl
  rw [Config.addApplication,if_pos entry,found]
  change (if Config.isTrue e "all-instances".toList = true then _ else _) = _
  rw [if_pos all,all]
  rfl

theorem addApplication_listed {m : MappedWhiteListType} {e l : Ptree} {appId : Text}
    (found : e.get "id".toList = .ok appId) (all : Config.isTrue e "all-instances".toList = false)
    (list : e.getChild "instance-list".toList = .ok l) : Config.addApplication m ("application".toList,e) =
      .ok (m.set appId (l.children.foldl (fun l v => l.addAppInstance v.2.data)
        {m.entry appId with allInstances := false})) := by
  have entry : ("application".toList,e).1 = "application".toList := rfl
  rw [Config.addApplication,if_pos entry,found]
  change (if Config.isTrue e "all-instances".toList = true then _ else _) = _
  rw [all,list]
  rfl

theorem readable_get {e : Ptree} (readable : Readable e) : e.get "id".toList = .ok (idOf e) := by
  obtain ⟨node,found⟩ := readable.id
  rw [Ptree.get,getChild_key _ rfl found,idOf,found]
  rfl

theorem addApplication_step {e : Ptree} (readable : Readable e) (m : MappedWhiteListType) :
    ∃ l, Config.addApplication m ("application".toList,e) = .ok (m.set (idOf e) l) ∧
      (l.allInstances = true ↔ allInstances e) ∧
      ∀ i, i ∈ l.instances ↔ i ∈ (m.entry (idOf e)).instances ∨ ¬ allInstances e ∧ lists e i := by
  have appId := readable_get readable
  by_cases all : Config.isTrue e "all-instances".toList = true
  · have flag := isTrue_all.mp all
    refine ⟨{m.entry (idOf e) with allInstances := true},addApplication_all appId all,iff_of_true rfl flag,?_⟩
    intro i
    simp [flag]
  · have noFlag : ¬ allInstances e := fun flag => all (isTrue_all.mpr flag)
    obtain ⟨l,foundList⟩ := readable.own.resolve_left noFlag
    have got := getChild_key "instance-list".toList rfl foundList
    obtain ⟨flag,members⟩ := addAppInstance_fold l.children {m.entry (idOf e) with allInstances := false}
    refine ⟨_,addApplication_listed appId (eq_false_of_ne_true all) got,?_,?_⟩
    · rw [flag]
      exact iff_of_false Bool.false_ne_true noFlag
    · intro i
      rw [members,lists,foundList]
      simp [noFlag,Ptree.values]

theorem addApplication_new {e : Ptree} (readable : Readable e) {m : MappedWhiteListType} (new : m (idOf e) = none) :
    ∃ next, Config.addApplication m ("application".toList,e) = .ok next ∧ (∀ i, next.admits (idOf e) i ↔ allows e i) ∧
      ∀ other, other ≠ idOf e → next other = m other := by
  obtain ⟨l,added,flag,members⟩ := addApplication_step readable m
  refine ⟨_,added,?_,fun other different => set_ne m different l⟩
  intro i
  have entry : m.entry (idOf e) = {} := by
    rw [MappedWhiteListType.entry,new]
    rfl
  rw [admits_set,flag,members,entry,allows]
  by_cases all : allInstances e <;> simp [all]

theorem applications_loop (children : List (Text × Ptree)) (m : MappedWhiteListType) :
    children.foldlM Config.addApplication m =
      ((Ptree.node [] children).named "application".toList).foldlM
        (fun m e => Config.addApplication m ("application".toList,e)) m := by
  simp only [Ptree.named,Ptree.children_node]
  induction children generalizing m with
  | nil => rfl
  | cons v rest ih =>
    by_cases entry : v.1 = "application".toList
    · have whole : v = ("application".toList,v.2) := by rw [← entry]
      rw [List.filter_cons_of_pos (by simpa using entry),List.map_cons,List.foldlM_cons,List.foldlM_cons,← whole]
      congr 1
      funext next
      exact ih next
    · have skipped : Config.addApplication m v = .ok m := by
        rw [Config.addApplication,if_neg entry]
        rfl
      rw [List.filter_cons_of_neg (by simpa using entry),List.foldlM_cons,skipped]
      exact ih m

theorem applications_read {entries : List Ptree} (readable : ∀ e ∈ entries, Readable e)
    (distinct : (entries.map idOf).Nodup) {m : MappedWhiteListType} (new : ∀ e ∈ entries, m (idOf e) = none) :
    ∃ read, entries.foldlM (fun m e => Config.addApplication m ("application".toList,e)) m = .ok read ∧
      ∀ a i, read.admits a i ↔ m.admits a i ∨ ∃ e ∈ entries, idOf e = a ∧ allows e i := by
  induction entries generalizing m with
  | nil => exact ⟨m,rfl,by simp⟩
  | cons e rest ih =>
    obtain ⟨next,added,admits,others⟩ := addApplication_new (readable e List.mem_cons_self) (new e List.mem_cons_self)
    obtain ⟨fresh,distinctRest⟩ := List.nodup_cons.mp distinct
    have apart : ∀ other ∈ rest, idOf other ≠ idOf e := fun other member same =>
      fresh (List.mem_map.mpr ⟨other,member,same⟩)
    have newRest : ∀ other ∈ rest, next (idOf other) = none := by
      intro other member
      rw [others _ (apart other member)]
      exact new other (List.mem_cons_of_mem _ member)
    obtain ⟨read,ran,reads⟩ := ih (fun other member => readable other (List.mem_cons_of_mem _ member)) distinctRest newRest
    refine ⟨read,?_,?_⟩
    · rw [List.foldlM_cons,added]
      exact ran
    · intro a i
      rw [reads]
      by_cases own : a = idOf e
      · subst own
        have before : ¬ m.admits (idOf e) i := by
          rw [MappedWhiteListType.admits,new e List.mem_cons_self]
          simp
        have later : ¬ ∃ other ∈ rest, idOf other = idOf e ∧ allows other i := by
          rintro ⟨other,member,same,_⟩
          exact apart other member same
        simp [admits,before,later]
      · have kept : next.admits a i ↔ m.admits a i := by
          rw [MappedWhiteListType.admits,MappedWhiteListType.admits,others a own]
        rw [kept]
        simp [Ne.symm own]

theorem isTrue_below (path : Text) {outer inner : Text} (cut : reduced path = [outer,inner]) {t found : Ptree}
    (here : t.find outer = some found) :
    Config.isTrue t path = true ↔ ∃ flag, found.find inner = some flag ∧ flag.data = "true".toList := by
  rw [Config.isTrue,Ptree.getD,cut,Ptree.walk_cons,here,Option.bind_some,Ptree.walk_cons,Ptree.bind_walk_nil]
  cases found.find inner with
  | none => simp
  | some flag => simp

theorem populateIpAddrs_cases (cfg : Config) :
    cfg.populateIpAddrs = .error ⟨"kcc-white-list.ip-list".toList⟩ ∨
    ∃ ips, cfg.populateIpAddrs = .ok {cfg with commsWhiteListIpAddrs := ips} := by
  rw [Config.populateIpAddrs,Ptree.getChild]
  split
  · exact .inr ⟨_,rfl⟩
  · cases Ptree.walk (reduced "kcc-white-list.ip-list".toList) cfg.cfgData with
    | none => exact .inl rfl
    | some ipList => exact .inr ⟨_,rfl⟩

theorem populateApplications_ok (cfg : Config) (flag : cfg.allowAllApplications = false) {list : Ptree}
    (path : cfg.cfgData.getChild "kcc-white-list.application-list".toList = .ok list) {m : MappedWhiteListType}
    (ran : list.children.foldlM Config.addApplication cfg.commsWhiteListApplications = .ok m) :
    cfg.populateApplications = .ok {cfg with commsWhiteListApplications := m} := by
  rw [Config.populateApplications,flag,if_neg Bool.false_ne_true,path]
  change (list.children.foldlM Config.addApplication cfg.commsWhiteListApplications >>= _) = _
  rw [ran]
  rfl

theorem isAllowedClient_admits {cfg : Config} (flag : cfg.allowAllApplications = false) (a i : Text) :
    cfg.isAllowedClient a i = true ↔ cfg.commsWhiteListApplications.admits a i := by
  rw [Config.isAllowedClient,flag,if_neg Bool.false_ne_true,MappedWhiteListType.admits]
  cases cfg.commsWhiteListApplications a with
  | none => simp
  | some l => simp

theorem populate_applications (cfg : Config) {outer list : Ptree}
    (found : cfg.cfgData.find "kcc-white-list".toList = some outer)
    (listed : outer.find "application-list".toList = some list)
    (unset : ∀ x, outer.find "all-apps".toList = some x → x.data ≠ "true".toList)
    (fresh : cfg.commsWhiteListApplications = fun _ => none)
    (readable : ∀ e ∈ list.named "application".toList, Readable e)
    (distinct : ((list.named "application".toList).map idOf).Nodup) :
    cfg.populateWhiteLists = .error ⟨"kcc-white-list.ip-list".toList⟩ ∨
    ∃ read, cfg.populateWhiteLists = .ok read ∧ ∀ a i, read.isAllowedClient a i = true ↔
      ∃ e ∈ list.named "application".toList, idOf e = a ∧ allows e i := by
  have present : (cfg.cfgData.find "kcc-white-list".toList).isSome = true := by rw [found]; rfl
  have flag : Config.isTrue cfg.cfgData "kcc-white-list.all-apps".toList = false := by
    apply eq_false_of_ne_true
    intro all
    obtain ⟨x,here,value⟩ := (isTrue_below _ rfl found).mp all
    exact unset x here value
  have path : cfg.cfgData.getChild "kcc-white-list.application-list".toList = .ok list := by
    have cut : reduced "kcc-white-list.application-list".toList = ["kcc-white-list".toList,"application-list".toList] := rfl
    rw [Ptree.getChild,cut,Ptree.walk_cons,found,Option.bind_some,Ptree.walk_cons,listed]
    rfl
  obtain ⟨m,ran,reads⟩ := applications_read readable distinct (m := cfg.commsWhiteListApplications)
    (fun e _ => by rw [fresh])
  have loop := (applications_loop list.children cfg.commsWhiteListApplications).trans ran
  have nobody : ∀ a i, ¬ cfg.commsWhiteListApplications.admits a i := by
    intro a i
    simp [MappedWhiteListType.admits,fresh]
  rw [Config.populateWhiteLists,if_pos present,flag]
  rcases populateIpAddrs_cases {cfg with
      allowAllIpAddrs := Config.isTrue cfg.cfgData "kcc-white-list.all-ip-addrs".toList
      allowAllApplications := false} with missing | ⟨ips,passed⟩
  · rw [missing]
    exact .inl rfl
  · rw [passed]
    have populated := populateApplications_ok {cfg with
      allowAllIpAddrs := Config.isTrue cfg.cfgData "kcc-white-list.all-ip-addrs".toList
      allowAllApplications := false
      commsWhiteListIpAddrs := ips} rfl path loop
    refine .inr ⟨_,populated,?_⟩
    intro a i
    rw [isAllowedClient_admits rfl,reads]
    simp [nobody]

end Kisscpp
