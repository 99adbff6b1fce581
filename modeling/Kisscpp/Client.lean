import Kisscpp.PropertyTreeGrafts
import Kisscpp.PropertyTreePuts
import Kisscpp.Configuration

namespace Kisscpp
open TextLines PropertyTree

-- Where a request goes, and the request as it is sent. The caller's tree is
-- the one that is changed.
structure Outgoing where
  host : Text
  port : Text
  request : Ptree

def client (cfg : Config) (request : Ptree) : Except BadPath Outgoing := do
  let host ← request.get "kcm-hst".toList
  let port ← request.get "kcm-prt".toList
  let request := ptreeAddOrPut request "kcm-client.id".toList cfg.applicationId
  let request := ptreeAddOrPut request "kcm-client.instance".toList cfg.applicationInstance
  return {host := host,port := port,request := request}

-- The name is a child's own, dots and all, or its path reads no other value.
def Free (t : Ptree) (name value : Text) : Prop :=
  (t.find name).isSome ∨ ∀ found, Ptree.walk (reduced name) t = some found → found.data = value

structure Sets (t : Ptree) (name value : Text) : Prop where
  reads : (ptreeAddOrPut t name value).get name = .ok value
  others : ∀ other before, reduced other ≠ reduced name → t.get other = .ok before →
    (ptreeAddOrPut t name value).get other = .ok before
  again : ptreeAddOrPut (ptreeAddOrPut t name value) name value = ptreeAddOrPut t name value

def Settable (t : Ptree) (name value : Text) : Prop :=
  if (t.find name).isSome then
    (Ptree.walk (reduced name) t).isSome ∨ reduced name = fragments name ∨ value = []
  else Plain name ∧ (name = [] → t.data = value)

theorem addOrPut_others {name other before : Text} (value : Text) {t : Ptree} (different : reduced other ≠ reduced name)
    (reads : t.get other = .ok before) : (ptreeAddOrPut t name value).get other = .ok before := by
  unfold ptreeAddOrPut
  split
  · exact Ptree.put_others value different reads
  · obtain ⟨found,here,rfl⟩ := Ptree.get_reads.mp reads
    obtain ⟨kept,there,same⟩ := Ptree.walk_graft (fragments name) _ (.leaf value) here
    rw [Ptree.add,Ptree.get_walked there,same]

theorem addOrPut_reads {name value : Text} (cut : reduced name = fragments name) {t : Ptree} :
    (ptreeAddOrPut t name value).get name = .ok value ↔ Free t name value := by
  unfold ptreeAddOrPut Free
  by_cases own : (t.find name).isSome
  · rw [if_pos own]
    exact iff_of_true (Ptree.get_put cut value t) (Or.inl own)
  · rw [if_neg own,Ptree.add]
    cases here : Ptree.walk (reduced name) t with
    | none =>
      rw [cut] at here
      have made := Ptree.walk_graft_absent (.leaf value) here
      refine iff_of_true ?_ (Or.inr (by simp))
      exact Ptree.get_walked (by rwa [cut])
    | some found =>
      obtain ⟨kept,there,same⟩ := Ptree.walk_graft (fragments name) _ (.leaf value) here
      rw [Ptree.get_walked there,same]
      constructor
      · intro reads
        right
        intro other equal
        cases Option.some.inj equal
        exact Except.ok.inj reads
      · intro free
        rcases free with child | reads
        · exact absurd child own
        · rw [reads found rfl]

theorem put_reads {name value : Text} {t : Ptree} : (t.put name value).get name = .ok value ↔
    (Ptree.walk (reduced name) t).isSome ∨ reduced name = fragments name ∨ value = [] := by
  by_cases there : (Ptree.walk (reduced name) t).isSome
  · obtain ⟨kept,walked,same⟩ := Ptree.walk_assign_self (reduced name) value t
    refine iff_of_true ?_ (Or.inl there)
    rw [Ptree.put,if_pos there,Ptree.get_walked walked,same]
  by_cases cut : reduced name = fragments name
  · exact iff_of_true (Ptree.get_put cut value t) (Or.inr (Or.inl cut))
  -- The new node hangs below the one that is read.
  have blank : (fragments name).getLast? = some [] := Decidable.byContradiction fun named => cut (if_neg named)
  have absent : Ptree.walk (reduced name) t = none := by simpa using there
  have long : reduced name ≠ [] := by
    intro root
    rw [root] at absent
    cases absent
  obtain ⟨made,walked,empty⟩ := Ptree.walk_graft_parent long [] (.leaf value) absent
  rw [Ptree.put,if_neg there,Ptree.add,fragments_cut blank,Ptree.get_walked walked,empty]
  constructor
  · intro reads
    exact Or.inr (Or.inr (Except.ok.inj reads).symm)
  · intro holds
    rcases holds with some | same | nothing
    · exact absurd some there
    · exact absurd same (by simp)
    · rw [nothing]

theorem find_put_isSome {name : Text} (value : Text) {t : Ptree} (own : (t.find name).isSome) :
    ((t.put name value).find name).isSome := by
  rw [Ptree.put]
  split
  · next there => rwa [Ptree.find_assign_isSome _ _ _ there]
  · obtain ⟨found,here⟩ := Option.isSome_iff_exists.mp own
    have walked : Ptree.walk [name] t = some found := by rwa [Ptree.walk_cons,Ptree.bind_walk_nil]
    obtain ⟨kept,there,_⟩ := Ptree.walk_graft (fragments name) [name] (.leaf value) walked
    rw [Ptree.walk_cons,Ptree.bind_walk_nil] at there
    rw [Ptree.add,there]
    rfl

theorem own_sets {name value : Text} {t : Ptree} (own : (t.find name).isSome) : Sets t name value ↔
    (Ptree.walk (reduced name) t).isSome ∨ reduced name = fragments name ∨ value = [] := by
  have once : ptreeAddOrPut t name value = t.put name value := if_pos own
  constructor
  · intro sets
    have reads := sets.reads
    rw [once] at reads
    exact put_reads.mp reads
  · intro holds
    have reads := put_reads.mpr holds
    refine ⟨once ▸ reads,fun other before different => addOrPut_others value different,?_⟩
    rw [once,ptreeAddOrPut,if_pos (find_put_isSome value own)]
    exact Ptree.put_same reads

theorem plain_sets {name value : Text} {t : Ptree} (new : ¬ (t.find name).isSome) (plain : Plain name) :
    Sets t name value ↔ (name = [] → t.data = value) := by
  have once : ptreeAddOrPut t name value = t.add name value := if_neg new
  have single := fragments_single plain
  have missing : t.find name = none := by simpa using new
  have made : (t.add name value).find name = some (.leaf value) := by
    rw [Ptree.add,single,Ptree.find_push,missing]
    simp
  have reads : (t.add name value).get name = .ok value ↔ (name = [] → t.data = value) := by
    by_cases root : name = []
    · subst root
      have walked : Ptree.walk (reduced []) (t.add [] value) = some (t.add [] value) := rfl
      rw [Ptree.get_walked walked]
      constructor
      · intro equal _
        exact Except.ok.inj equal
      · intro equal
        exact congrArg Except.ok (equal rfl)
    · have named : reduced name = [name] := by rw [reduced_key plain,if_neg root]
      refine iff_of_true ?_ (fun blank => absurd blank root)
      have walked : Ptree.walk (reduced name) (t.add name value) = some (.leaf value) := by
        rw [named,Ptree.walk_cons,made]
        rfl
      exact Ptree.get_walked walked
  constructor
  · intro sets
    exact reads.mp (once ▸ sets.reads)
  · intro holds
    refine ⟨once ▸ reads.mpr holds,fun other before different => addOrPut_others value different,?_⟩
    rw [once,ptreeAddOrPut,if_pos (by rw [made]; rfl)]
    exact Ptree.put_same (reads.mpr holds)

-- With a dot it stays unknown, and every further call adds a node.
theorem dotted_grows {name : Text} (value : Text) {t : Ptree} (new : ¬ (t.find name).isSome) (path : ¬ Plain name) :
    ptreeAddOrPut (ptreeAddOrPut t name value) name value ≠ ptreeAddOrPut t name value := by
  have once : ptreeAddOrPut t name value = t.add name value := if_neg new
  have other : (fragments name).head? ≠ some name := by
    intro first
    exact path (fragments_plain name name (List.mem_of_mem_head? first))
  have unknown : ¬ ((t.add name value).find name).isSome := by
    rwa [Ptree.add,Ptree.find_graft_other other]
  rw [once,ptreeAddOrPut,if_neg unknown]
  intro same
  have larger := Ptree.size_graft (fragments_ne_nil name) (.leaf value) (t.add name value)
  rw [← Ptree.add,same] at larger
  omega

theorem sets_settable (t : Ptree) (name value : Text) : Sets t name value ↔ Settable t name value := by
  unfold Settable
  split
  · next own => exact own_sets own
  · next new =>
    by_cases plain : Plain name
    · rw [plain_sets new plain]
      exact (and_iff_right plain).symm
    · refine iff_of_false ?_ (fun settable => plain settable.1)
      intro sets
      exact dotted_grows value new plain sets.again

theorem walk_graft_sibling {first key other : Text} (different : other ≠ key) (new t : Ptree) :
    Ptree.walk [first,other] (Ptree.graft [first,key] new t) = Ptree.walk [first,other] t := by
  rw [Ptree.walk_cons,Ptree.graft,Ptree.find_force_self,Option.bind_some,Ptree.walk_cons,Ptree.find_push,if_neg different,
    Option.or_none,Ptree.walk_cons]
  cases t.find first with
  | none => rfl
  | some child => rfl

section Beside
variable {first key other : Text} {name beside : Text} (path : fragments name = [first,key])
    (cut : reduced name = [first,key]) (besideCut : reduced beside = [first,other]) (different : other ≠ key)
    (apart : first ≠ beside) (written : Text) (t : Ptree)
include path

include apart in
theorem find_beside : ((ptreeAddOrPut t name written).find beside).isSome = (t.find beside).isSome := by
  have added : (t.add name written).find beside = t.find beside := by
    rw [Ptree.add,path]
    exact Ptree.find_graft_other (by simpa using apart) _ t
  unfold ptreeAddOrPut Ptree.put
  split
  · split
    · next there => exact Ptree.find_assign_isSome _ _ _ there
    · rw [added]
  · rw [added]

include cut besideCut different in
theorem walk_beside :
    (Ptree.walk (reduced beside) (ptreeAddOrPut t name written)).map Ptree.data = (Ptree.walk (reduced beside) t).map Ptree.data := by
  have added : Ptree.walk (reduced beside) (t.add name written) = Ptree.walk (reduced beside) t := by
    rw [Ptree.add,path,besideCut]
    exact walk_graft_sibling different _ t
  unfold ptreeAddOrPut Ptree.put
  split
  · split
    · next there =>
      apply Ptree.read_assign_ne _ _ _ _ there
      rw [besideCut,cut]
      simpa using different
    · rw [added]
  · rw [added]

include cut besideCut different apart in
theorem free_beside (value : Text) : Free (ptreeAddOrPut t name written) beside value ↔ Free t beside value := by
  have same := walk_beside path cut besideCut different written t
  have reads : ∀ u : Ptree, (∀ found, Ptree.walk (reduced beside) u = some found → found.data = value) ↔
      ∀ data, (Ptree.walk (reduced beside) u).map Ptree.data = some data → data = value := by
    intro u
    simp [Option.map_eq_some_iff]
  unfold Free
  rw [find_beside path apart,reads,reads,same]

end Beside

theorem id_path : fragments "kcm-client.id".toList = ["kcm-client".toList,"id".toList] := by decide
theorem id_reduced : reduced "kcm-client.id".toList = ["kcm-client".toList,"id".toList] := by decide
theorem instance_path : fragments "kcm-client.instance".toList = ["kcm-client".toList,"instance".toList] := by decide
theorem instance_reduced : reduced "kcm-client.instance".toList = ["kcm-client".toList,"instance".toList] := by decide

theorem client_request {cfg : Config} {request : Ptree} {outgoing : Outgoing} (sent : client cfg request = .ok outgoing) :
    outgoing.request = ptreeAddOrPut (ptreeAddOrPut request "kcm-client.id".toList cfg.applicationId)
      "kcm-client.instance".toList cfg.applicationInstance := by
  unfold client at sent
  cases host : request.get "kcm-hst".toList with
  | error e => rw [host] at sent; cases sent
  | ok host' =>
    cases port : request.get "kcm-prt".toList with
    | error e => rw [host,port] at sent; cases sent
    | ok port' =>
      rw [host,port] at sent
      cases sent
      rfl

theorem id_stamped {cfg : Config} {request : Ptree} {outgoing : Outgoing} (sent : client cfg request = .ok outgoing) :
    outgoing.request.get "kcm-client.id".toList = .ok cfg.applicationId ↔
      Free request "kcm-client.id".toList cfg.applicationId := by
  have same := Ptree.get_congr (walk_beside instance_path instance_reduced id_reduced (by decide) cfg.applicationInstance
    (ptreeAddOrPut request "kcm-client.id".toList cfg.applicationId))
  rw [client_request sent,same.1]
  exact addOrPut_reads (id_reduced.trans id_path.symm)

theorem instance_stamped {cfg : Config} {request : Ptree} {outgoing : Outgoing} (sent : client cfg request = .ok outgoing) :
    outgoing.request.get "kcm-client.instance".toList = .ok cfg.applicationInstance ↔
      Free request "kcm-client.instance".toList cfg.applicationInstance := by
  rw [client_request sent,addOrPut_reads (instance_reduced.trans instance_path.symm)]
  exact free_beside id_path id_reduced instance_reduced (by decide) (by decide) _ request _

theorem identity_stamped (cfg : Config) (request : Ptree) :
    (∀ outgoing, client cfg request = .ok outgoing →
      (outgoing.request.get "kcm-client.id".toList = .ok cfg.applicationId ∧
          outgoing.request.get "kcm-client.instance".toList = .ok cfg.applicationInstance ↔
        Free request "kcm-client.id".toList cfg.applicationId ∧
          Free request "kcm-client.instance".toList cfg.applicationInstance)) ∧
    ∀ name value, Sets request name value ↔ Settable request name value := by
  constructor
  · intro outgoing sent
    rw [id_stamped sent,instance_stamped sent]
  · exact sets_settable request

section Sent

def returned : Ptree := .node [] [("kcm-hst".toList,.leaf "b".toList),("kcm-prt".toList,.leaf "1".toList),
  ("kcm-client".toList,.node [] [("id".toList,.leaf "new".toList),("instance".toList,.leaf "1".toList)]),
  ("kcm-client.instance".toList,.leaf "1".toList)]

theorem identity_stamped_again : ∃ outgoing, client (.fresh "new".toList "2".toList) returned = .ok outgoing ∧
    outgoing.request.get "kcm-client.id".toList = .ok "new".toList ∧
    outgoing.request.get "kcm-client.instance".toList = .ok "2".toList := by
  have sent : client (.fresh "new".toList "2".toList) returned = .ok _ := rfl
  refine ⟨_,sent,?_⟩
  apply ((identity_stamped _ returned).1 _ sent).mpr
  constructor
  · right
    intro found here
    cases here
    rfl
  · exact .inl rfl

def forwarded : Ptree := .node [] [("kcm-hst".toList,.leaf "b".toList),("kcm-prt".toList,.leaf "1".toList),
  ("kcm-client".toList,.node [] [("id".toList,.leaf "old".toList),("instance".toList,.leaf "1".toList)])]

-- A request that was received keeps the identity of its first sender.
theorem forwarded_keeps : ¬ ∀ cfg request outgoing, client cfg request = .ok outgoing →
    outgoing.request.get "kcm-client.id".toList = .ok cfg.applicationId ∧
      outgoing.request.get "kcm-client.instance".toList = .ok cfg.applicationInstance := by
  intro all
  have sent : client (.fresh "new".toList "1".toList) forwarded = .ok _ := rfl
  have reads := (all _ _ _ sent).1
  revert reads
  decide +kernel

end Sent

end Kisscpp
