import Kisscpp.PropertyTreeLists
import Kisscpp.ErrorCounts
import Kisscpp.Service

namespace Kisscpp
open TextLines PropertyTree DecimalText

namespace ErrorReporter

def readError (t : Ptree) : Option ErrorState :=
  match t.get "type".toList,t.get "description".toList,t.get "count".toList with
  | .ok id,.ok description,.ok count => some ⟨id,description,.ofNat (value count)⟩
  | _,_,_ => none

def readErrors (response : Ptree) : Option (List ErrorState) :=
  (response.listed ["error-state".toList,"errors".toList] "error".toList).mapM readError

theorem error_node (e : ErrorState) : error e =
    .node [] [("type".toList,.leaf e.id),("description".toList,.leaf e.description),
      ("count".toList,.leaf (decimal e.count.toNat))] := rfl

theorem read_error (e : ErrorState) : readError (error e) = some e := by
  have id : (error e).get "type".toList = .ok e.id := rfl
  have description : (error e).get "description".toList = .ok e.description := rfl
  have count : (error e).get "count".toList = .ok (decimal e.count.toNat) := rfl
  rw [readError,id,description,count]
  simp

theorem errorTypeCount_length (selm : List ErrorState) (start : UInt32) :
    (selm.foldl (fun count _ => count + 1) start).toNat = (start.toNat + selm.length) % 2 ^ 32 := by
  induction selm generalizing start with
  | nil => exact (Nat.mod_eq_of_lt start.toNat_lt).symm
  | cons e rest ih =>
    rw [List.foldl_cons,ih,UInt32.toNat_add,List.length_cons]
    change ((start.toNat + 1) % 2 ^ 32 + rest.length) % 2 ^ 32 = _
    omega

def errorsNode (selm : List ErrorState) : List (Text × Ptree) :=
  if selm = [] then [] else [("errors".toList,.node [] (selm.map fun e => ("error".toList,error e)))]

def countNodes (selm : List ErrorState) : List (Text × Ptree) :=
  [("error-type-count".toList,.leaf (decimal (errorTypeCount selm).toNat)),
    ("total-error-count".toList,.leaf (decimal (totalErrorCount selm).toNat))]

def acknowledged : Ptree := .node [] [("kcm-sts".toList,.leaf RequestStatus.success.text)]

theorem acknowledged_plain : "error-state".toList ∉ acknowledged.children.map Prod.fst := by decide

theorem run_tree (list : ErrorStateList) : run list .empty =
    Ptree.extended "error-state".toList (errorsNode list.getStates ++ countNodes list.getStates) acknowledged := by
  have start : Ptree.empty.put "kcm-sts".toList RequestStatus.success.text = acknowledged := rfl
  have loop : list.getStates.foldl
      (fun response e => Ptree.addChild "error-state.errors.error".toList (error e) response) acknowledged =
        Ptree.extended "error-state".toList (errorsNode list.getStates) acknowledged := by
    have grafted := Ptree.extended_grafts acknowledged_plain "errors".toList "error".toList (list.getStates.map error)
    rw [Ptree.grafts,List.foldl_map] at grafted
    have path : fragments "error-state.errors.error".toList = ["error-state".toList,"errors".toList,"error".toList] := by
      decide
    simp only [Ptree.addChild,path]
    rw [grafted,errorsNode]
    simp [Function.comp_def]
  have firstNew : "error-type-count".toList ∉ (errorsNode list.getStates).map Prod.fst := by
    unfold errorsNode
    split
    · exact List.not_mem_nil
    · exact (by decide : "error-type-count".toList ∉ ["errors".toList])
  have secondNew : "total-error-count".toList ∉ (errorsNode list.getStates ++
      [("error-type-count".toList,Ptree.leaf (decimal (errorTypeCount list.getStates).toNat))]).map Prod.fst := by
    unfold errorsNode
    split
    · exact (by decide : "total-error-count".toList ∉ ["error-type-count".toList])
    · exact (by decide : "total-error-count".toList ∉ ["errors".toList,"error-type-count".toList])
  simp only [run]
  rw [start,loop,Ptree.extended_put acknowledged_plain (by decide) (by decide) firstNew,
    Ptree.extended_put acknowledged_plain (by decide) (by decide) secondNew,List.append_assoc]
  rfl

theorem counted (selm : List ErrorState) : countNodes selm =
    [("error-type-count".toList,.leaf (decimal (selm.length % 2 ^ 32))),
      ("total-error-count".toList,.leaf (decimal ((selm.map fun e => e.count.toNat).sum % 2 ^ 32)))] := by
  have length := errorTypeCount_length selm 0
  have sum := ErrorStateList.total_sum selm 0
  rw [UInt32.toNat_zero,Nat.zero_add] at length sum
  rw [countNodes,errorTypeCount,totalErrorCount,length,sum]

theorem run_writable (selm : List ErrorState) :
    ∀ v ∈ errorsNode selm ++ countNodes selm, v.2.writable = true := by
  have leaf (value : Text) : (Ptree.leaf value).writable = true := by simp [Ptree.leaf,Ptree.writable,Ptree.writableChildren]
  intro v member
  rcases List.mem_append.mp member with listed | counted
  · unfold errorsNode at listed
    split at listed
    · cases listed
    · rw [List.mem_singleton.mp listed]
      refine Ptree.writable_node.mpr ⟨.inl rfl,?_⟩
      intro child inside
      obtain ⟨e,_,rfl⟩ := List.mem_map.mp inside
      rw [error_node]
      refine Ptree.writable_node.mpr ⟨.inl rfl,?_⟩
      simp [leaf]
  · rcases List.mem_cons.mp counted with rfl | last
    · exact leaf _
    · rw [List.mem_singleton.mp last]
      exact leaf _

theorem errors_listed (selm : List ErrorState) :
    Ptree.listed ["errors".toList] "error".toList (.node [] (errorsNode selm ++ countNodes selm)) = selm.map error := by
  unfold errorsNode
  split
  next empty =>
    rw [empty]
    rfl
  next =>
    have first : Ptree.find "errors".toList (.node [] ([("errors".toList,
        Ptree.node [] (selm.map fun e => ("error".toList,error e)))] ++ countNodes selm)) =
          some (.node [] (selm.map fun e => ("error".toList,error e))) := by
      simp [Ptree.find]
    have named := Ptree.named_pairs "error".toList (selm.map error) []
    rw [List.map_map] at named
    rw [Ptree.listed,Ptree.walk_cons,first]
    exact named

theorem errors_read (selm : List ErrorState) : (selm.map error).mapM readError = some selm := by
  induction selm with
  | nil => rfl
  | cons e rest ih => rw [List.map_cons,List.mapM_cons,read_error,ih]; rfl

theorem counts_found (selm : List ErrorState) :
    Ptree.find "error-type-count".toList (.node [] (errorsNode selm ++ countNodes selm)) =
        some (.leaf (decimal (selm.length % 2 ^ 32))) ∧
      Ptree.find "total-error-count".toList (.node [] (errorsNode selm ++ countNodes selm)) =
        some (.leaf (decimal ((selm.map fun e => e.count.toNat).sum % 2 ^ 32))) := by
  rw [counted]
  unfold errorsNode
  split
  · exact ⟨rfl,rfl⟩
  · exact ⟨rfl,rfl⟩

-- Whatever is in the list, its report can be sent, and what is read back of it
-- is what getStates gave, with both counts as the numbers of 32 bits they are.
theorem errors_read_back (list : ErrorStateList) :
    let reply := run list .empty
    reply.writable = true ∧ readErrors reply = some list.getStates ∧
      reply.get "kcm-sts".toList = .ok RequestStatus.success.text ∧
      reply.get "error-state.error-type-count".toList = .ok (decimal (list.getStates.length % 2 ^ 32)) ∧
      reply.get "error-state.total-error-count".toList =
        .ok (decimal ((list.getStates.map fun e => e.count.toNat).sum % 2 ^ 32)) := by
  dsimp only
  have tree := run_tree list
  generalize list.getStates = selm at tree ⊢
  have filled : errorsNode selm ++ countNodes selm ≠ [] := by simp [countNodes]
  have found := Ptree.find_extended acknowledged_plain (errorsNode selm ++ countNodes selm)
  rw [if_neg filled] at found
  rw [tree]
  refine ⟨Ptree.writable_extended (by decide) rfl (run_writable selm),?_,?_,?_,?_⟩
  · have below := errors_listed selm
    rw [readErrors,Ptree.listed,Ptree.walk_cons,found]
    change (Ptree.listed ["errors".toList] "error".toList (.node [] (errorsNode selm ++ countNodes selm))).mapM readError = _
    rw [below,errors_read]
  · rw [Ptree.extended,if_neg filled]
    rfl
  · have path : reduced "error-state.error-type-count".toList = ["error-state".toList,"error-type-count".toList] := by decide
    have here : Ptree.walk (reduced "error-state.error-type-count".toList)
        (Ptree.extended "error-state".toList (errorsNode selm ++ countNodes selm) acknowledged) =
          some (.leaf (decimal (selm.length % 2 ^ 32))) := by
      rw [path,Ptree.walk_cons,found]
      exact congrArg (·.bind (Ptree.walk [])) (counts_found selm).1
    exact Ptree.get_walked here
  · have path : reduced "error-state.total-error-count".toList = ["error-state".toList,"total-error-count".toList] := by
      decide
    have here : Ptree.walk (reduced "error-state.total-error-count".toList)
        (Ptree.extended "error-state".toList (errorsNode selm ++ countNodes selm) acknowledged) =
          some (.leaf (decimal ((selm.map fun e => e.count.toNat).sum % 2 ^ 32))) := by
      rw [path,Ptree.walk_cons,found]
      exact congrArg (·.bind (Ptree.walk [])) (counts_found selm).2
    exact Ptree.get_walked here

end ErrorReporter

namespace RequestHandlerMap
variable {σ : Type*}

def getHandlerDescriptions (map : RequestHandlerMap σ) : OrderedMap Text Text :=
  map.entries.foldl (fun retval e => retval.put e.1 e.2.description) .empty

theorem descriptions_mapped (map : RequestHandlerMap σ) :
    map.getHandlerDescriptions = map.mapValues Handler.description := map.refilled Handler.description

def registered (handlers : List (Handler σ)) : RequestHandlerMap σ := handlers.foldl registerHandler .empty

theorem registered_snoc (handlers : List (Handler σ)) (h : Handler σ) :
    registered (handlers ++ [h]) = (registered handlers).put h.id h := by
  simp [registered,registerHandler]

theorem registered_find (handlers : List (Handler σ)) (command : Text) :
    (registered handlers).find command = handlers.reverse.find? fun h => h.id = command := by
  induction handlers using List.reverseRecOn with
  | nil => rfl
  | append_singleton handlers h ih =>
    rw [registered_snoc,List.reverse_append,List.reverse_singleton,List.singleton_append,List.find?_cons]
    by_cases same : h.id = command
    · rw [← same,OrderedMap.find_put_self]
      simp
    · rw [OrderedMap.find_put_ne (Ne.symm same),ih]
      simp [same]

theorem routeRequest_congr {one two : RequestHandlerMap σ} {request : Ptree} {command : Text}
    (named : request.get "kcm-cmd".toList = .ok command) (same : one.find command = two.find command) (s : σ)
    (response : Ptree) : one.routeRequest s request response = two.routeRequest s request response := by
  simp only [routeRequest,named]
  rw [same]

end RequestHandlerMap

namespace HandlerReporter
variable {σ : Type*}

def handlerDetails (e : Text × Text) : Ptree :=
  (Ptree.empty.put "id".toList e.1).put "description".toList e.2

def run (requestRouter : RequestHandlerMap σ) (response : Ptree) : Ptree :=
  let requestHandlerList := requestRouter.getHandlerDescriptions
  let response := response.put "kcm-sts".toList RequestStatus.success.text
  requestHandlerList.entries.foldl (fun response e => Ptree.addChild "handler".toList (handlerDetails e) response) response

def readHandler (t : Ptree) : Option (Text × Text) :=
  match t.get "id".toList,t.get "description".toList with
  | .ok id,.ok description => some (id,description)
  | _,_ => none

def readHandlers (response : Ptree) : Option (List (Text × Text)) :=
  (response.listed [] "handler".toList).mapM readHandler

theorem handlers_tree (map : RequestHandlerMap σ) : run map .empty =
    .node [] (ErrorReporter.acknowledged.children ++
      (map.getHandlerDescriptions.entries.map handlerDetails).map fun new => ("handler".toList,new)) := by
  have start : Ptree.empty.put "kcm-sts".toList RequestStatus.success.text = ErrorReporter.acknowledged := rfl
  have grafted := Ptree.grafts_single "handler".toList (map.getHandlerDescriptions.entries.map handlerDetails)
    ErrorReporter.acknowledged
  have path : fragments "handler".toList = ["handler".toList] := by decide
  rw [Ptree.grafts,List.foldl_map] at grafted
  simp only [run,Ptree.addChild,path]
  rw [start,grafted]
  rfl

theorem details_node (e : Text × Text) :
    handlerDetails e = .node [] [("id".toList,.leaf e.1),("description".toList,.leaf e.2)] := rfl

theorem handlers_read (es : List (Text × Text)) : (es.map handlerDetails).mapM readHandler = some es := by
  have one (e : Text × Text) : readHandler (handlerDetails e) = some e := rfl
  induction es with
  | nil => rfl
  | cons e rest ih => rw [List.map_cons,List.mapM_cons,one,ih]; rfl

theorem handlers_read_back (map : RequestHandlerMap σ) :
    (run map .empty).writable = true ∧ readHandlers (run map .empty) = some map.getHandlerDescriptions.entries := by
  rw [handlers_tree]
  constructor
  · refine Ptree.writable_node.mpr ⟨.inl rfl,?_⟩
    intro v member
    rcases List.mem_append.mp member with status | listed
    · exact (Ptree.writable_node.mp (by decide : ErrorReporter.acknowledged.writable = true)).2 v status
    · obtain ⟨new,inside,rfl⟩ := List.mem_map.mp listed
      obtain ⟨e,_,rfl⟩ := List.mem_map.mp inside
      rw [details_node]
      simp [Ptree.writable,Ptree.writableChildren,Ptree.leaf]
  · have named := Ptree.named_pairs "handler".toList (map.getHandlerDescriptions.entries.map handlerDetails) []
    exact (congrArg (List.mapM readHandler) named).trans (handlers_read _)

-- The list of commands, whatever was registered in whatever order: each command
-- stands in it once, with the description of the handler that is given its
-- requests, which is the last one registered for it; and what does not stand in
-- it is answered as where nothing is registered.
theorem commands_listed (handlers : List (Handler σ)) :
    let map := RequestHandlerMap.registered handlers
    let reply := run map .empty
    reply.writable = true ∧ ∃ commands, readHandlers reply = some commands ∧
      (commands.Pairwise fun e later => e.1 < later.1) ∧
      (∀ command description, (command,description) ∈ commands → ∃ earlier h later,
        handlers = earlier ++ h :: later ∧ h.id = command ∧ h.description = description ∧
          (∀ other ∈ later, other.id ≠ command) ∧
          ∀ s request response, request.get "kcm-cmd".toList = .ok command →
            map.routeRequest s request response = (RequestHandlerMap.registered [h]).routeRequest s request response) ∧
      ∀ command, command ∉ commands.map Prod.fst → ∀ s request response, request.get "kcm-cmd".toList = .ok command →
        map.routeRequest s request response = (RequestHandlerMap.registered []).routeRequest s request response := by
  obtain ⟨writes,reads⟩ := handlers_read_back (RequestHandlerMap.registered handlers)
  refine ⟨writes,_,reads,OrderedMap.sorted _,?_,?_⟩
  · intro command description member
    rw [OrderedMap.mem_entries,RequestHandlerMap.descriptions_mapped,OrderedMap.find_mapValues] at member
    obtain ⟨h,found,described⟩ := Option.map_eq_some_iff.mp member
    have last := found
    rw [RequestHandlerMap.registered_find,List.find?_eq_some_iff_append] at last
    obtain ⟨own,after,before,order,others⟩ := last
    have own : h.id = command := by simpa using own
    refine ⟨before.reverse,h,after.reverse,?_,own,described,?_,?_⟩
    · simpa using congrArg List.reverse order
    · intro other behind
      simpa using others other (List.mem_reverse.mp behind)
    · intro s request response named
      refine RequestHandlerMap.routeRequest_congr named ?_ s response
      rw [found,RequestHandlerMap.registered_find]
      simp [own]
  · intro command unlisted s request response named
    refine RequestHandlerMap.routeRequest_congr named ?_ s response
    have absent : (RequestHandlerMap.registered handlers).getHandlerDescriptions.find command = none := by
      cases found : (RequestHandlerMap.registered handlers).getHandlerDescriptions.find command with
      | none => rfl
      | some description => exact absurd (List.mem_map.mpr ⟨_,OrderedMap.mem_entries.mpr found,rfl⟩) unlisted
    rw [RequestHandlerMap.descriptions_mapped,OrderedMap.find_mapValues,Option.map_eq_none_iff] at absent
    exact absent

end HandlerReporter
end Kisscpp
