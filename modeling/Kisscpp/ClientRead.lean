import Kisscpp.ErrorState

namespace Kisscpp
open TextLines PropertyTree

-- The two failures that callers know, and what the library throws by itself.
inductive CommsException where
  | retryable (message : Text)
  | perminant (message : Text)
  | jsonParserError
  | badPath (what : Text)
  deriving DecidableEq

structure ReadOutcome where
  response : Ptree
  closed : Bool
  cancelled : Bool
  thrown : Option CommsException

namespace client

def statusPath : Text := "kcm-sts".toList
def messagePath : Text := "kcm-erm".toList

def number (status : RequestStatus) : UInt32 := .ofNat status.value

-- get<unsigned int> with a default, which also stands for what is no number.
def commsStatus (conv : Conversions) (response : Ptree) : UInt32 :=
  match response.get statusPath with
  | .ok text => (conv.unsigned text).getD (number .unknown)
  | .error _ => number .unknown

def retries (status : UInt32) : Prop := status = number .applicationBusy ∨ status = number .applicationShutingDown

instance (status : UInt32) : Decidable (retries status) := inferInstanceAs (Decidable (_ ∨ _))

def getline (buffer : Text) : Text := buffer.takeWhile (· ≠ '\n')

def settle (conv : Conversions) (response : Ptree) : ReadOutcome :=
  if commsStatus conv response = number .success then ⟨response,false,true,none⟩
  else
    match response.get messagePath with
    | .error e => ⟨response,true,true,some (.badPath e.what)⟩
    | .ok message =>
      if retries (commsStatus conv response) then ⟨response,true,true,some (.retryable message)⟩
      else ⟨response,true,true,some (.perminant message)⟩

-- The caller's tree stays as it is when the line is none.
def handleRead (json : Connection.Json) (conv : Conversions) (error : Option Text) (buffer : Text) (response : Ptree) :
    ReadOutcome :=
  match error with
  | some code => ⟨response,true,true,some (.perminant ("boost::asio::placeholders::error [".toList ++ code ++ "]".toList))⟩
  | none =>
    match json.readJson (getline buffer) with
    | none => ⟨response,false,false,some .jsonParserError⟩
    | some response => settle conv response

section Lines
variable (json : Connection.Json) (conv : Conversions) (buffer : Text)

def Reads (status : UInt32 → Prop) : Prop :=
  ∃ tree, json.readJson (getline buffer) = some tree ∧ status (commsStatus conv tree)

structure ThreeOutcomes (response : Ptree) : Prop where
  accepts : (handleRead json conv none buffer response).thrown = none ↔ Reads json conv buffer (· = number .success)
  retryable : (∃ message, (handleRead json conv none buffer response).thrown = some (.retryable message)) ↔
    Reads json conv buffer retries
  perminant : (∃ message, (handleRead json conv none buffer response).thrown = some (.perminant message)) ↔
    ¬ Reads json conv buffer fun status => status = number .success ∨ retries status
  cancelled : (handleRead json conv none buffer response).cancelled = true

variable {json conv buffer}

theorem reads_tree {tree : Ptree} (parsed : json.readJson (getline buffer) = some tree)
    (status : UInt32 → Prop) : Reads json conv buffer status ↔ status (commsStatus conv tree) := by
  constructor
  · rintro ⟨other,again,holds⟩
    rw [parsed] at again
    cases again
    exact holds
  · intro holds
    exact ⟨tree,parsed,holds⟩

theorem thrown_known {response : Ptree} (three : ThreeOutcomes json conv buffer response) {e : CommsException}
    (thrown : (handleRead json conv none buffer response).thrown = some e) :
    (∃ message, e = .retryable message) ∨ ∃ message, e = .perminant message := by
  by_cases again : Reads json conv buffer retries
  · obtain ⟨message,same⟩ := three.retryable.mpr again
    rw [thrown] at same
    exact .inl ⟨message,Option.some.inj same⟩
  · have lost : ¬ Reads json conv buffer fun status => status = number .success ∨ retries status := by
      rintro ⟨tree,parsed,success | busy⟩
      · have accepted := three.accepts.mpr ⟨tree,parsed,success⟩
        rw [thrown] at accepted
        cases accepted
      · exact again ⟨tree,parsed,busy⟩
    obtain ⟨message,same⟩ := three.perminant.mpr lost
    rw [thrown] at same
    exact .inr ⟨message,Option.some.inj same⟩

theorem success_final : ¬ retries (number .success) := by decide

theorem outcomes_three (json : Connection.Json) (conv : Conversions) (buffer : Text) (response : Ptree) :
    ThreeOutcomes json conv buffer response ↔ ∃ tree, json.readJson (getline buffer) = some tree ∧
      (commsStatus conv tree = number .success ∨ ∃ message, tree.get messagePath = .ok message) := by
  cases parsed : json.readJson (getline buffer) with
  | none =>
    refine iff_of_false ?_ (by simp)
    intro three
    have thrown : (handleRead json conv none buffer response).thrown = some .jsonParserError := by rw [handleRead,parsed]
    rcases thrown_known three thrown with ⟨_,same⟩ | ⟨_,same⟩
    · cases same
    · cases same
  | some tree =>
    have settled : handleRead json conv none buffer response = settle conv tree := by rw [handleRead,parsed]
    have known : ∀ status, Reads json conv buffer status ↔ status (commsStatus conv tree) := reads_tree parsed
    by_cases success : commsStatus conv tree = number .success
    · refine iff_of_true ?_ ⟨tree,rfl,.inl success⟩
      constructor <;> simp [settled,settle,known,success,success_final]
    · cases message : tree.get messagePath with
      | error e =>
        refine iff_of_false ?_ (by simp [success,message])
        intro three
        have thrown : (handleRead json conv none buffer response).thrown = some (.badPath e.what) := by
          simp [settled,settle,success,message]
        rcases thrown_known three thrown with ⟨_,same⟩ | ⟨_,same⟩
        · cases same
        · cases same
      | ok text =>
        refine iff_of_true ?_ ⟨tree,rfl,.inr ⟨text,message⟩⟩
        by_cases busy : retries (commsStatus conv tree)
        · constructor <;> simp [settled,settle,known,success,message,busy]
        · constructor <;> simp [settled,settle,known,success,message,busy]

def busyLine : Text := "\x7b\"kcm-sts\":\"4\"\x7d".toList

def busyJson : Connection.Json where
  readJson line := if line = busyLine then some (Ptree.empty.put statusPath "4".toList) else none
  writeJson _ := none

def busyConversions : Conversions := ⟨fun text => if text = "4".toList then some 4 else none,[]⟩

theorem busy_badPath : ¬ ThreeOutcomes busyJson busyConversions (busyLine ++ ['\n']) .empty := by
  intro three
  have parsed : busyJson.readJson (getline (busyLine ++ ['\n'])) = some (Ptree.empty.put statusPath "4".toList) := by
    have line : getline (busyLine ++ ['\n']) = busyLine := by decide
    rw [line]
    simp [busyJson]
  obtain ⟨message,thrown⟩ := three.retryable.mpr ⟨_,parsed,by decide⟩
  have bad : (handleRead busyJson busyConversions none (busyLine ++ ['\n']) .empty).thrown =
      some (.badPath "No such node (kcm-erm)".toList) := by decide
  rw [bad] at thrown
  cases thrown

end Lines
end client
end Kisscpp
