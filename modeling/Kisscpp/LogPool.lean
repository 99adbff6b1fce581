import Kisscpp.Machine
import Kisscpp.TextLines

namespace Kisscpp
open TextLines Stepping

-- What the operating system makes of one try to open the log file: without an
-- exception mask a refusal only leaves the file closed.
inductive OpenAttempt where
  | opened
  | refused
  | failure (what : Text)

-- The part of the log system that all streams share. outFile is the path under
-- which the file was opened, written what has gone to the files so far.
structure LogPool where
  doFlush : Bool
  log2consoleFlag : Bool
  outFilePath : Text
  outFile : Option Text
  stringPool : List Text
  maxBufferSize : UInt32
  written : List (Text × Text)
  console : List Text

namespace LogPool

def fresh : LogPool := ⟨false,false,[],none,[],0,[],[]⟩

def openLogFile (attempt : OpenAttempt) (p : LogPool) : Except Text LogPool :=
  if p.outFilePath.isEmpty then .error "Log System has no file path set!".toList
  else
    match attempt with
    | .opened => .ok {p with outFile := some p.outFilePath}
    | .refused => .ok p
    | .failure what => .error ("Failed to open log file [".toList ++ p.outFilePath ++ "](".toList ++ what ++ ")".toList)

-- One turn of the loop: the front of the pool goes out.
def writeFront (path : Text) (p : LogPool) (line : Text) : LogPool :=
  {p with
    written := p.written ++ [(path,line)]
    console := if p.log2consoleFlag then p.console ++ [line] else p.console
    stringPool := p.stringPool.tail}

def writeOut (path : Text) (p : LogPool) : LogPool := p.stringPool.foldl (writeFront path) p

def push (str : Text) (p : LogPool) : LogPool := {p with stringPool := p.stringPool ++ [str]}

-- Where the file cannot be opened by an exception, the handler keeps the line.
def lockedWrite (attempt : OpenAttempt) (str : Text) (p : LogPool) : LogPool :=
  match if p.outFile.isSome then .ok p else p.openLogFile attempt with
  | .error _ => p.push str
  | .ok opened =>
    let pushed := opened.push str
    match pushed.outFile with
    | some path =>
      if pushed.maxBufferSize.toNat < pushed.stringPool.length || pushed.doFlush then pushed.writeOut path else pushed
    | none => pushed

end LogPool

inductive PoolCall where
  | lockedWrite (attempt : OpenAttempt) (str : Text)
  | set2ReOpen
  | setMaxBufferSize (i : UInt32)
  | setDoFlush (b : Bool)
  | setOutFilePath (path : Text)
  | setLog2consoleFlag (b : Bool)

namespace LogPool

def apply (p : LogPool) : PoolCall → LogPool
  | .lockedWrite attempt str => p.lockedWrite attempt str
  | .set2ReOpen => {p with outFile := none}
  | .setMaxBufferSize i => {p with maxBufferSize := i}
  | .setDoFlush b => {p with doFlush := b}
  | .setOutFilePath path => {p with outFilePath := path}
  | .setLog2consoleFlag b => {p with log2consoleFlag := b}

def after (calls : List PoolCall) : LogPool := calls.foldl apply fresh

def lines (p : LogPool) : List Text := p.written.map Prod.snd

def Writable (attempt : OpenAttempt) (p : LogPool) : Prop :=
  p.outFile.isSome = true ∨ p.outFilePath ≠ [] ∧ attempt = .opened

def kept (p : LogPool) : List Text := p.lines ++ p.stringPool

end LogPool

def PoolCall.accepted : PoolCall → List Text
  | .lockedWrite _ str => [str]
  | _ => []

namespace LogPool

theorem writeFronts (path : Text) (later : List Text) (p : LogPool) (pool : p.stringPool = later) :
    (later.foldl (writeFront path) p).lines = p.lines ++ later ∧ (later.foldl (writeFront path) p).stringPool = [] ∧
      (later.foldl (writeFront path) p).outFile = p.outFile := by
  induction later generalizing p with
  | nil => exact ⟨(List.append_nil _).symm,pool,rfl⟩
  | cons line rest ih =>
    obtain ⟨all,empty,same⟩ := ih (writeFront path p line) (by rw [writeFront,pool]; rfl)
    refine ⟨?_,empty,same⟩
    have front : (writeFront path p line).lines = p.lines ++ [line] := by simp [lines,writeFront]
    rw [List.foldl_cons,all,front,List.append_assoc]
    rfl

theorem writeOut_all (path : Text) (p : LogPool) : (p.writeOut path).lines = p.kept ∧ (p.writeOut path).stringPool = [] ∧
    (p.writeOut path).outFile = p.outFile := writeFronts path p.stringPool p rfl

theorem push_kept (str : Text) (p : LogPool) : (p.push str).kept = p.kept ++ [str] := (List.append_assoc _ _ _).symm

structure Opening (p opened : LogPool) (attempt : OpenAttempt) : Prop where
  kept : opened.kept = p.kept
  flag : opened.doFlush = p.doFlush
  opened : p.Writable attempt → opened.outFile.isSome = true

theorem openLogFile_opens {attempt : OpenAttempt} {p opened : LogPool} (success : p.openLogFile attempt = .ok opened) :
    Opening p opened attempt := by
  unfold openLogFile at success
  split at success
  · cases success
  · cases attempt with
    | opened =>
      cases success
      exact ⟨rfl,rfl,fun _ => rfl⟩
    | refused =>
      cases success
      refine ⟨rfl,rfl,?_⟩
      rintro (already | ⟨_,impossible⟩)
      · exact already
      · cases impossible
    | failure what => cases success

theorem openLogFile_error {attempt : OpenAttempt} {p : LogPool} {what : Text} (failed : p.openLogFile attempt = .error what) :
    ¬ (p.outFilePath ≠ [] ∧ attempt = .opened) := by
  rintro ⟨path,rfl⟩
  rw [openLogFile,if_neg (by simpa using path)] at failed
  cases failed

theorem lockedWrite_cases (attempt : OpenAttempt) (str : Text) (p : LogPool) : ∃ opened, Opening p opened attempt ∧
    ((opened.outFile = none ∧ p.lockedWrite attempt str = opened.push str) ∨
    (opened.doFlush = false ∧ (opened.push str).stringPool.length ≤ opened.maxBufferSize.toNat ∧
      p.lockedWrite attempt str = opened.push str) ∨
    ∃ path, opened.outFile = some path ∧ p.lockedWrite attempt str = (opened.push str).writeOut path) := by
  unfold lockedWrite
  cases ready : (if p.outFile.isSome then Except.ok p else p.openLogFile attempt) with
  | error what =>
    split at ready
    · cases ready
    · next closed =>
      refine ⟨p,⟨rfl,rfl,?_⟩,.inl ⟨by simpa using closed,rfl⟩⟩
      rintro (already | opens)
      · exact already
      · exact absurd opens (openLogFile_error ready)
  | ok opened =>
    have opens : Opening p opened attempt := by
      split at ready
      · next already =>
        cases ready
        exact ⟨rfl,rfl,fun _ => already⟩
      · exact openLogFile_opens ready
    refine ⟨opened,opens,?_⟩
    cases file : opened.outFile with
    | none => exact .inl ⟨rfl,by simp only [push,file]⟩
    | some path =>
      right
      simp only [push,file]
      split
      · exact .inr ⟨path,rfl,rfl⟩
      · next room =>
        simp only [Bool.or_eq_true,decide_eq_true_eq,not_or,Nat.not_lt,Bool.not_eq_true] at room
        exact .inl ⟨room.2,room.1,rfl⟩

theorem lockedWrite_kept (attempt : OpenAttempt) (str : Text) (p : LogPool) :
    (p.lockedWrite attempt str).kept = p.kept ++ [str] := by
  obtain ⟨opened,opens,⟨_,result⟩ | ⟨_,_,result⟩ | ⟨path,_,result⟩⟩ := lockedWrite_cases attempt str p
  · rw [result,push_kept,opens.kept]
  · rw [result,push_kept,opens.kept]
  · obtain ⟨all,empty,_⟩ := writeOut_all path (opened.push str)
    rw [result,kept,all,empty,List.append_nil,push_kept,opens.kept]

theorem lockedWrite_bounded (attempt : OpenAttempt) (str : Text) (p : LogPool)
    (file : (p.lockedWrite attempt str).outFile.isSome = true) :
    (p.lockedWrite attempt str).stringPool.length ≤ (p.lockedWrite attempt str).maxBufferSize.toNat := by
  obtain ⟨opened,_,⟨closed,result⟩ | ⟨_,room,result⟩ | ⟨path,_,result⟩⟩ := lockedWrite_cases attempt str p
  · rw [result] at file
    change opened.outFile.isSome = true at file
    rw [closed] at file
    cases file
  · rw [result]
    exact room
  · rw [result,(writeOut_all path (opened.push str)).2.1]
    exact Nat.zero_le _

theorem lockedWrite_flushes {attempt : OpenAttempt} {p : LogPool} (writable : p.Writable attempt) (flag : p.doFlush = true)
    (str : Text) : (p.lockedWrite attempt str).lines = p.kept ++ [str] ∧ (p.lockedWrite attempt str).stringPool = [] := by
  obtain ⟨opened,opens,⟨closed,_⟩ | ⟨unflagged,_⟩ | ⟨path,_,result⟩⟩ := lockedWrite_cases attempt str p
  · have file := opens.opened writable
    rw [closed] at file
    cases file
  · rw [opens.flag,flag] at unflagged
    cases unflagged
  · obtain ⟨all,empty,_⟩ := writeOut_all path (opened.push str)
    rw [result,all,push_kept,opens.kept]
    exact ⟨rfl,empty⟩

theorem apply_kept (p : LogPool) (c : PoolCall) : (p.apply c).kept = p.kept ++ c.accepted := by
  cases c with
  | lockedWrite attempt str => exact lockedWrite_kept attempt str p
  | _ => exact (List.append_nil _).symm

theorem calls_kept (p : LogPool) (calls : List PoolCall) :
    (calls.foldl apply p).kept = p.kept ++ calls.flatMap PoolCall.accepted := by
  induction calls generalizing p with
  | nil => exact (List.append_nil _).symm
  | cons c rest ih => rw [List.foldl_cons,ih,apply_kept,List.flatMap_cons,List.append_assoc]

theorem pool_keeps_lines (calls : List PoolCall) :
    (after calls).lines ++ (after calls).stringPool = calls.flatMap PoolCall.accepted ∧
    ∀ attempt str, (after (calls ++ [.lockedWrite attempt str])).outFile.isSome = true →
      (after (calls ++ [.lockedWrite attempt str])).stringPool.length ≤
        (after (calls ++ [.lockedWrite attempt str])).maxBufferSize.toNat := by
  refine ⟨calls_kept fresh calls,?_⟩
  intro attempt str file
  simp only [after,List.foldl_append,List.foldl_cons,List.foldl_nil] at file ⊢
  exact lockedWrite_bounded attempt str _ file

end LogPool
end Kisscpp
