import Mathlib.Data.Char
import Mathlib.Data.List.Lex
import Kisscpp.OrderedMap
import Kisscpp.RequestModel

namespace Kisscpp
open TextLines PropertyTree DecimalText

-- The statistics keeper, for any kind of value and of queue. A queue is asked
-- for its size when the statistics are gathered or reported.
structure StatsKeeper (ν Q : Type*) where
  historyLength : Nat
  statsMap : OrderedMap Text ν
  queueStatsMap : OrderedMap Text Q
  gatheredStatsMap : OrderedMap Text (List ν)

namespace StatsKeeper
variable {ν Q : Type*}

def fresh (historyLength : Nat) : StatsKeeper ν Q := ⟨historyLength,.empty,.empty,.empty⟩

def uptimeId : Text := "kcs-uptime".toList

def setStatValue (k : StatsKeeper ν Q) (id : Text) (value : ν) : StatsKeeper ν Q :=
  {k with statsMap := k.statsMap.put id value}

def increment [Add ν] (k : StatsKeeper ν Q) (id : Text) (value : ν) : StatsKeeper ν Q :=
  match k.statsMap.find id with
  | some old => {k with statsMap := k.statsMap.put id (old + value)}
  | none => {k with statsMap := k.statsMap.put id value}

def decrement [Zero ν] [Sub ν] (k : StatsKeeper ν Q) (id : Text) (value : ν) : StatsKeeper ν Q :=
  match k.statsMap.find id with
  | some old => {k with statsMap := k.statsMap.put id (old - value)}
  | none => {k with statsMap := k.statsMap.put id (0 - value)}

def addStatableQueue (k : StatsKeeper ν Q) (id : Text) (ssq : Q) : StatsKeeper ν Q :=
  {k with queueStatsMap := k.queueStatsMap.put id ssq}

-- gatheredStatsMap[id].push_front(value)
def pushFront (gathered : OrderedMap Text (List ν)) (e : Text × ν) : OrderedMap Text (List ν) :=
  gathered.put e.1 (e.2 :: (gathered.find e.1).getD [])

-- One value at most goes from the back, also where two came to the front.
def trim (historyLength : Nat) (history : List ν) : List ν :=
  if historyLength < history.length then history.dropLast else history

def gather [Zero ν] (k : StatsKeeper ν Q) (uptime : ν) (size : Q → ν) : StatsKeeper ν Q :=
  let stats := k.statsMap.put uptimeId uptime
  let gathered := stats.entries.foldl pushFront k.gatheredStatsMap
  let gathered := (k.queueStatsMap.mapValues size).entries.foldl pushFront gathered
  {k with statsMap := stats.mapValues fun _ => 0,gatheredStatsMap := gathered.mapValues (trim k.historyLength)}

def statsPath (id : Text) : Text := "stats.".toList ++ id

def getCurrentStats (k : StatsKeeper ν Q) (uptime : ν) (size : Q → ν) : OrderedMap Text ν × StatsKeeper ν Q :=
  let stats := k.statsMap.put uptimeId uptime
  let retval := stats.entries.foldl (fun retval e => retval.put (statsPath e.1) e.2) OrderedMap.empty
  let retval := k.queueStatsMap.entries.foldl (fun retval e => retval.put (statsPath e.1) (size e.2)) retval
  (retval,{k with statsMap := stats})

structure Access (ν : Type*) where
  path : Text
  history : List ν
  index : Nat

def Access.Inside (a : Access ν) : Prop := a.index < a.history.length

instance (a : Access ν) : Decidable a.Inside := inferInstanceAs (Decidable (_ < _))

def lastAccesses (k : StatsKeeper ν Q) : List (Access ν) :=
  k.gatheredStatsMap.entries.map fun e => ⟨statsPath e.1,e.2,0⟩

def twoDigits (i : Nat) : Text := List.replicate (2 - (decimal i).length) '0' ++ decimal i

-- The index is an unsigned int: from 2^32 on it starts again at 0, and the
-- loop does not end.
def indices (historyLength : Nat) : List Nat := List.range (min historyLength (2 ^ 32))

def fullAccesses (k : StatsKeeper ν Q) : List (Access ν) :=
  k.gatheredStatsMap.entries.flatMap fun e =>
    (indices k.historyLength).map fun i => ⟨statsPath e.1 ++ '.' :: twoDigits i,e.2,i⟩

-- Nothing where an access is outside.
def getLastGatheredStats (k : StatsKeeper ν Q) : Option (OrderedMap Text ν) :=
  k.lastAccesses.foldlM (fun retval a => (a.history[a.index]?).map (retval.put a.path)) .empty

def getFullStatsHistory (k : StatsKeeper ν Q) : Option (OrderedMap Text (List ν)) :=
  k.fullAccesses.foldlM (fun retval a => (a.history[a.index]?).map fun value =>
    retval.put a.path ((retval.find a.path).getD [] ++ [value])) .empty

end StatsKeeper

namespace StatsReporter
variable {ν Q : Type*}

-- The text of a value in a tree, and on a stream.
structure ValueTexts (ν : Type*) where
  tree : ν → Text
  stream : ν → Text

def cactiFormat (texts : ValueTexts ν) (ssmt : OrderedMap Text ν) : Text :=
  [' '].intercalate (ssmt.entries.map fun e => e.1 ++ ':' :: texts.stream e.2)

def report (texts : ValueTexts ν) (ssmt : OrderedMap Text ν) (response : Ptree) : Ptree :=
  (ssmt.entries.foldl (fun response e => response.put e.1 (texts.tree e.2)) response).put
    "cacti_format_stats".toList (cactiFormat texts ssmt)

def gathered (texts : ValueTexts ν) (k : StatsKeeper ν Q) (response : Ptree) : Option Ptree :=
  k.getLastGatheredStats.map fun ssmt => report texts ssmt response

def full (texts : ValueTexts ν) (k : StatsKeeper ν Q) (response : Ptree) : Option Ptree :=
  k.getFullStatsHistory.map fun sshmt => sshmt.entries.foldl (fun response e =>
    e.2.foldl (fun response value => response.put e.1 (texts.tree value)) response) response

def current (texts : ValueTexts ν) (k : StatsKeeper ν Q) (uptime : ν) (size : Q → ν) (response : Ptree) :
    Ptree × StatsKeeper ν Q :=
  let (ssmt,k) := k.getCurrentStats uptime size
  (report texts ssmt response,k)

def run (texts : ValueTexts ν) (k : StatsKeeper ν Q) (uptime : ν) (size : Q → ν) (request response : Ptree) :
    Option (Ptree × StatsKeeper ν Q) :=
  let statType := request.getD "type".toList "current".toList
  let response := response.put "kcm-sts".toList RequestStatus.success.text
  if statType = "full".toList then (full texts k response).map (·,k)
  else if statType = "current".toList then some (current texts k uptime size response)
  else (gathered texts k response).map (·,k)

end StatsReporter

inductive StatsCall (ν Q : Type*) where
  | setStatValue (id : Text) (value : ν)
  | increment (id : Text) (value : ν)
  | decrement (id : Text) (value : ν)
  | addStatableQueue (id : Text) (ssq : Q)
  | gather (uptime : ν) (size : Q → ν)

namespace StatsKeeper
variable {ν Q : Type*} [Zero ν] [Add ν] [Sub ν]

def apply (k : StatsKeeper ν Q) : StatsCall ν Q → StatsKeeper ν Q
  | .setStatValue id value => k.setStatValue id value
  | .increment id value => k.increment id value
  | .decrement id value => k.decrement id value
  | .addStatableQueue id ssq => k.addStatableQueue id ssq
  | .gather uptime size => k.gather uptime size

def after (historyLength : Nat) (calls : List (StatsCall ν Q)) : StatsKeeper ν Q := calls.foldl apply (fresh historyLength)

end StatsKeeper
end Kisscpp
