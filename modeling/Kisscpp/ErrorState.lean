import Mathlib.Data.Char
import Mathlib.Data.List.Lex
import Kisscpp.OrderedMap
import Kisscpp.RequestModel

namespace Kisscpp
open TextLines PropertyTree DecimalText

-- boost::algorithm::to_lower in the classic locale.
def toLower (text : Text) : Text := text.map Char.toLower

structure ErrorState where
  id : Text
  description : Text
  count : UInt32
  deriving DecidableEq

namespace ErrorState

def fresh (id description : Text) : ErrorState := ⟨id,description,0⟩

def set (e : ErrorState) : ErrorState := {e with count := e.count + 1}
def clear (e : ErrorState) (amount : UInt32) : ErrorState := {e with count := e.count - amount}
def clearAll (e : ErrorState) : ErrorState := {e with count := 0}
def isSet (e : ErrorState) : Bool := decide (0 < e.count)

end ErrorState

-- The errorStateMap. A null pointer in it is followed by the call that made it,
-- so that none stays.
abbrev ErrorStateList := OrderedMap Text ErrorState

namespace ErrorStateList

-- The entry is looked for under the lower case id and stored under the id as it
-- is given: operator[] there may make a null pointer, which is then followed.
def set (list : ErrorStateList) (id description : Text) : Option ErrorStateList :=
  let errId := toLower id
  if (list.find errId).isSome then (list.find id).map fun e => list.put id e.set
  else some (list.put id (ErrorState.fresh errId description).set)

def clear (list : ErrorStateList) (id : Text) (amount : UInt32) : ErrorStateList :=
  let errId := toLower id
  match list.find errId with
  | some e => list.put errId (e.clear amount)
  | none => list.put errId ((ErrorState.fresh errId []).clear amount)

def clearAll (list : ErrorStateList) (id : Text) : ErrorStateList :=
  let errId := toLower id
  match list.find errId with
  | some e => list.put errId e.clearAll
  | none => list.put errId (ErrorState.fresh errId []).clearAll

def getStates (list : ErrorStateList) : List ErrorState := (list.entries.map Prod.snd).filter ErrorState.isSet

end ErrorStateList

namespace ErrorReporter

def error (e : ErrorState) : Ptree :=
  ((Ptree.empty.put "type".toList e.id).put "description".toList e.description).put "count".toList
    (decimal e.count.toNat)

def totalErrorCount (selm : List ErrorState) : UInt32 := selm.foldl (fun total e => total + e.count) 0

def errorTypeCount (selm : List ErrorState) : UInt32 := selm.foldl (fun count _ => count + 1) 0

def run (list : ErrorStateList) (response : Ptree) : Ptree :=
  let selm := list.getStates
  let response := response.put "kcm-sts".toList RequestStatus.success.text
  let response :=
    selm.foldl (fun response e => Ptree.addChild "error-state.errors.error".toList (error e) response) response
  let response := response.put "error-state.error-type-count".toList (decimal (errorTypeCount selm).toNat)
  response.put "error-state.total-error-count".toList (decimal (totalErrorCount selm).toNat)

end ErrorReporter

-- get<unsigned int> of the library: the number a text is read as, and what()
-- of the exception where it is none.
structure Conversions where
  unsigned : Text → Option UInt32
  badData : Text

namespace ErrorCleaner

def idPath : Text := "kcm-clear-error.id".toList
def countPath : Text := "kcm-clear-error.count".toList

def run (conv : Conversions) (request response : Ptree) (list : ErrorStateList) : ErrorStateList × Ptree :=
  match request.get idPath with
  | .error e => (list,refuse response .missingParameter e.what)
  | .ok id =>
    let errorId := toLower id
    let numberToClearStr := toLower (request.getD countPath "all".toList)
    if numberToClearStr = "all".toList then
      (list.clearAll errorId,response.put "kcm-sts".toList RequestStatus.success.text)
    else
      match request.get countPath with
      | .error e => (list,refuse response .missingParameter e.what)
      | .ok text =>
        match conv.unsigned text with
        | none => (list,refuse response .unknown conv.badData)
        | some amount => (list.clear errorId amount,response.put "kcm-sts".toList RequestStatus.success.text)

end ErrorCleaner

-- What is called on the list, and what reaches it through a request.
inductive ErrorCall where
  | set (id description : Text)
  | clear (id : Text) (amount : UInt32)
  | clearAll (id : Text)

inductive ErrorEvent where
  | call (c : ErrorCall)
  | errclear (request : Ptree)

namespace ErrorStateList

-- Nothing where a null pointer is followed.
def apply (list : ErrorStateList) : ErrorCall → Option ErrorStateList
  | .set id description => list.set id description
  | .clear id amount => some (list.clear id amount)
  | .clearAll id => some (list.clearAll id)

def handle (conv : Conversions) (list : ErrorStateList) : ErrorEvent → Option ErrorStateList
  | .call c => list.apply c
  | .errclear request => some (ErrorCleaner.run conv request .empty list).1

def after (calls : List ErrorCall) : Option ErrorStateList := calls.foldlM apply .empty

def afterEvents (conv : Conversions) (events : List ErrorEvent) : Option ErrorStateList :=
  events.foldlM (handle conv) .empty

end ErrorStateList

def ErrorEvent.asks (conv : Conversions) : ErrorEvent → Option ErrorCall
  | .call c => some c
  | .errclear request =>
    match request.get ErrorCleaner.idPath with
    | .error _ => none
    | .ok id =>
      if toLower (request.getD ErrorCleaner.countPath "all".toList) = "all".toList then some (.clearAll (toLower id))
      else
        match request.get ErrorCleaner.countPath with
        | .error _ => none
        | .ok text => (conv.unsigned text).map fun amount => .clear (toLower id) amount

theorem handle_asks (conv : Conversions) (list : ErrorStateList) (event : ErrorEvent) :
    list.handle conv event = (event.asks conv).elim (some list) list.apply := by
  cases event with
  | call c => rfl
  | errclear request =>
    simp only [ErrorStateList.handle,ErrorEvent.asks,ErrorCleaner.run]
    cases request.get ErrorCleaner.idPath with
    | error e => rfl
    | ok id =>
      dsimp only
      split
      · rfl
      · cases request.get ErrorCleaner.countPath with
        | error e => rfl
        | ok text => cases found : conv.unsigned text <;> simp [found,ErrorStateList.apply]

namespace ErrorStateList

theorem after_snoc (calls : List ErrorCall) (c : ErrorCall) : after (calls ++ [c]) = (after calls).bind (apply · c) := by
  simp only [after,List.foldlM_append,List.foldlM_cons,List.foldlM_nil,bind_pure]
  rfl

theorem afterEvents_snoc (conv : Conversions) (events : List ErrorEvent) (event : ErrorEvent) :
    afterEvents conv (events ++ [event]) = (afterEvents conv events).bind (handle conv · event) := by
  simp only [afterEvents,List.foldlM_append,List.foldlM_cons,List.foldlM_nil,bind_pure]
  rfl

def countAt (list : ErrorStateList) (key : Text) : UInt32 := (list.find key).elim 0 ErrorState.count

theorem countAt_put (list : ErrorStateList) (key : Text) (e : ErrorState) :
    countAt (list.put key e) = Function.update list.countAt key e.count := by
  funext other
  by_cases same : other = key
  · subst same
    rw [countAt,OrderedMap.find_put_self,Function.update_self]
    rfl
  · rw [countAt,OrderedMap.find_put_ne same,Function.update_of_ne same]
    rfl

theorem countAt_found {list : ErrorStateList} {key : Text} {e : ErrorState} (found : list.find key = some e) :
    list.countAt key = e.count := by rw [countAt,found]; rfl

theorem countAt_absent {list : ErrorStateList} {key : Text} (absent : list.find key = none) : list.countAt key = 0 := by
  rw [countAt,absent]; rfl

theorem countAt_clear (list : ErrorStateList) (id : Text) (amount : UInt32) :
    (list.clear id amount).countAt =
      Function.update list.countAt (toLower id) (list.countAt (toLower id) - amount) := by
  unfold clear
  dsimp only
  split
  · next e found => rw [countAt_put,countAt_found found]; rfl
  · next absent => rw [countAt_put,countAt_absent absent]; rfl

theorem countAt_clearAll (list : ErrorStateList) (id : Text) :
    (list.clearAll id).countAt = Function.update list.countAt (toLower id) 0 := by
  unfold clearAll
  dsimp only
  split
  · rw [countAt_put]; rfl
  · rw [countAt_put]; rfl

theorem set_known {list : ErrorStateList} {id : Text} (description : Text) (known : (list.find (toLower id)).isSome) :
    (list.set id description).isSome = (list.find id).isSome ∧
    ∀ next, list.set id description = some next →
      next.countAt = Function.update list.countAt id (list.countAt id + 1) := by
  have stepped : list.set id description = (list.find id).map fun e => list.put id e.set := if_pos known
  cases found : list.find id with
  | none => simp [stepped,found]
  | some e =>
    refine ⟨by simp [stepped,found],?_⟩
    intro next same
    rw [stepped,found] at same
    cases Option.some.inj same
    rw [countAt_put,countAt_found found]
    rfl

theorem set_unknown {list : ErrorStateList} {id : Text} (description : Text) (unknown : list.find (toLower id) = none) :
    ∃ next, list.set id description = some next ∧ next.countAt = Function.update list.countAt id 1 := by
  refine ⟨list.put id (ErrorState.fresh (toLower id) description).set,?_,countAt_put list id _⟩
  exact if_neg (by simp [unknown])

end ErrorStateList
end Kisscpp
