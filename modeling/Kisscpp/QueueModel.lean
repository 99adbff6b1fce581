import Mathlib.Data.List.AList
import Mathlib.Data.List.Sort
import Kisscpp.DecimalText

namespace Kisscpp
open TextLines DecimalText

-- Regular files by native path. The order of the keys stands for the order in
-- which a directory is read, which the system does not promise.
abbrev FileSystem := AList fun _ : Text => Text

-- What the system decides during one call: the second time(NULL) reads,
-- whether a page file can be opened, and the text strerror then gives.
structure Io where
  now : Nat
  opens : Text → Bool
  strerror : Text

def Io.healthy (now : Nat) : Io := ⟨now,fun _ => true,[]⟩

-- The template argument _sT. A call that throws answers none.
structure BiCoder (α : Type) where
  encode : α → Option Text
  decode : Text → Option α

inductive QueueError where
  | couldNotLoadQueueFile (fileName errorMsg : Text)
  | couldNotWriteQueueFile (fileName errorMsg : Text)
  | queueShutDown
  | biCoder
  deriving DecidableEq

def QueueError.what : QueueError → Option Text
  | .couldNotLoadQueueFile fileName errorMsg =>
    some ("Could not load queue file [".toList ++ fileName ++ "] error: ".toList ++ errorMsg)
  | .couldNotWriteQueueFile fileName errorMsg =>
    some ("Could not write queue file [".toList ++ fileName ++ "] error: ".toList ++ errorMsg)
  | .queueShutDown => some "No action allowed. Queue has been shut down".toList
  | .biCoder => none

-- What the regular expression gives another meaning, the separator, and what ends
-- a line or a C string.
def specialChars : List Char := ['[','{','}','(',')','\\','*','+','?','|','^','$','/','\n','\x00']

def nameChar (c : Char) : Bool := !specialChars.contains c

-- Within these characters the name means itself in the regular expression,
-- except that '.' matches any character.
structure QueueName where
  text : Text
  plain : ∀ c ∈ text, nameChar c = true

-- A path with a newline would not survive the line-wise state file.
structure Directory where
  text : Text
  oneLine : OneLine text

-- path::operator/= puts a separator only where none is.
def Directory.slashed (d : Directory) : Text :=
  if d.text = [] ∨ d.text.getLast? = some '/' then d.text else d.text ++ ['/']

structure Place where
  queueName : QueueName
  workingDirectory : Directory

def Place.path (p : Place) (fileName : Text) : Text := p.workingDirectory.slashed ++ fileName
def Place.pagePath (p : Place) (seq : Text) : Text := p.path (p.queueName.text ++ '_' :: seq)
def Place.stateFilePath (p : Place) : Text := p.path (p.queueName.text ++ ['_','S','T','A','T','E'])

-- regex_match against "^" name "_[0-9]*", which has to match the whole file name.
def queueFileRegex : Text → Text → Bool
  | [],'_' :: rest => rest.all Char.isDigit
  | [],_ => false
  | p :: pattern,c :: rest => (p == '.' || p == c) && queueFileRegex pattern rest
  | _ :: _,[] => false

-- directory_iterator yields the files directly under the working directory.
def Place.isQueueFile (p : Place) (path : Text) : Bool :=
  match p.workingDirectory.slashed.isPrefixOf? path with
  | some fileName => !fileName.contains '/' && queueFileRegex p.queueName.text fileName
  | none => false

-- firstPage and lastPage are shared pointers: either both point at one deque,
-- or each at its own.
inductive Pages (α : Type) where
  | shared (page : List α)
  | separate (first last : List α)
  deriving DecidableEq

namespace Pages
variable {α : Type}

def first : Pages α → List α
  | .shared page => page
  | .separate first _ => first

def last : Pages α → List α
  | .shared page => page
  | .separate _ last => last

def same : Pages α → Bool
  | .shared _ => true
  | .separate _ _ => false

-- An update through one pointer is seen through the other when they are shared.
def updateFirst (f : List α → List α) : Pages α → Pages α
  | .shared page => .shared (f page)
  | .separate first last => .separate (f first) last

def updateLast (f : List α → List α) : Pages α → Pages α
  | .shared page => .shared (f page)
  | .separate first last => .separate first (f last)

end Pages

structure PersistedQueue (α : Type) where
  shutDown : Bool
  lastSeqNum : Nat
  seqNumCount : Nat
  place : Place
  maxItemsPerPage : Nat
  persistedFileNames : List Text
  pages : Pages α
  files : FileSystem

-- A call that throws keeps what it has already changed.
abbrev Result (α β : Type) := Except QueueError β × PersistedQueue α

-- (...)->c_str() ends at the first NUL.
def cStr (text : Text) : Text := text.takeWhile (· ≠ '\x00')

def BiCoder.encodePage {α : Type} (coder : BiCoder α) (page : List α) : Option Text :=
  (page.mapM coder.encode).map fun rows => unlines (rows.map cStr)

def BiCoder.decodePage {α : Type} (coder : BiCoder α) (contents : Text) : Option (List α) :=
  (lines contents).mapM coder.decode

-- _seqNumCount is an unsigned int.
def counterModulus : Nat := 2 ^ 32

def padded (count : Nat) : Text :=
  (if count < 1000 then ['0'] else []) ++ (if count < 100 then ['0'] else []) ++
    (if count < 10 then ['0'] else []) ++ decimal count

namespace PersistedQueue
variable {α : Type}

def seqNumber (io : Io) (q : PersistedQueue α) : Text × PersistedQueue α :=
  let next :=
    if q.lastSeqNum = io.now then {q with seqNumCount := (q.seqNumCount + 1) % counterModulus}
    else {q with lastSeqNum := io.now,seqNumCount := 0}
  (decimal next.lastSeqNum ++ padded next.seqNumCount,next)

-- The name is listed before the records are encoded, and the open has already
-- truncated the file.
def persistToFile (io : Io) (coder : BiCoder α) (seq : Text) (page : List α)
    (q : PersistedQueue α) : Result α Unit :=
  let nativeFilePath := q.place.pagePath seq
  if io.opens nativeFilePath then
    let listed :=
      if seq ≠ ['0'] then {q with persistedFileNames := q.persistedFileNames ++ [nativeFilePath]}
      else {q with persistedFileNames := nativeFilePath :: q.persistedFileNames}
    match coder.encodePage page with
    | none => (.error .biCoder,{listed with files := listed.files.insert nativeFilePath []})
    | some contents => (.ok (),{listed with files := listed.files.insert nativeFilePath contents})
  else (.error (.couldNotWriteQueueFile nativeFilePath io.strerror),q)

def loadFromFile (io : Io) (coder : BiCoder α) (path2File : Text) (q : PersistedQueue α) :
    Result α (List α) :=
  match q.files.lookup path2File with
  | none => (.error (.couldNotLoadQueueFile path2File io.strerror),q)
  | some contents =>
    if io.opens path2File then
      match coder.decodePage contents with
      | none => (.error .biCoder,q)
      | some page => (.ok page,{q with files := q.files.erase path2File})
    else (.error (.couldNotLoadQueueFile path2File io.strerror),q)

-- Both callers have tested that a name is listed; the deque's front of an
-- empty list is undefined.
def loadFrontFile (io : Io) (coder : BiCoder α) (q : PersistedQueue α) : Result α (List α) :=
  match q.persistedFileNames with
  | [] => (.ok [],q)
  | filename :: rest => loadFromFile io coder filename {q with persistedFileNames := rest}

def loadBackFile (io : Io) (coder : BiCoder α) (q : PersistedQueue α) : Result α (List α) :=
  match q.persistedFileNames.getLast? with
  | none => (.ok [],q)
  | some filename =>
    loadFromFile io coder filename {q with persistedFileNames := q.persistedFileNames.dropLast}

def pushBack (io : Io) (coder : BiCoder α) (p : α) (q : PersistedQueue α) : Result α Unit :=
  if q.shutDown then (.error .queueShutDown,q)
  else if q.maxItemsPerPage ≤ q.pages.last.length then
    if q.pages.same then (.ok (),{q with pages := .separate q.pages.first [p]})
    else
      let numbered := q.seqNumber io
      match numbered.2.persistToFile io coder numbered.1 numbered.2.pages.last with
      | (.error e,after) => (.error e,after)
      | (.ok (),after) => (.ok (),{after with pages := .separate after.pages.first [p]})
  else (.ok (),{q with pages := q.pages.updateLast (· ++ [p])})

def pushFront (p : α) (q : PersistedQueue α) : Result α Unit :=
  if q.shutDown then (.error .queueShutDown,q)
  else (.ok (),{q with pages := q.pages.updateFirst (p :: ·)})

-- The first statement of both pop_front and front: an empty firstPage is
-- replaced by lastPage, or by the page of the front file.
def refillFirstPage (io : Io) (coder : BiCoder α) (q : PersistedQueue α) : Result α Unit :=
  if q.pages.first.isEmpty then
    if q.persistedFileNames.isEmpty then (.ok (),{q with pages := .shared q.pages.last})
    else
      match q.loadFrontFile io coder with
      | (.error e,after) => (.error e,after)
      | (.ok page,after) => (.ok (),{after with pages := .separate page after.pages.last})
  else (.ok (),q)

def popFront (io : Io) (coder : BiCoder α) (q : PersistedQueue α) : Result α (Option α) :=
  if q.shutDown then (.error .queueShutDown,q)
  else
    match q.refillFirstPage io coder with
    | (.error e,after) => (.error e,after)
    | (.ok (),after) => (.ok after.pages.first.head?,{after with pages := after.pages.updateFirst List.tail})

def front (io : Io) (coder : BiCoder α) (q : PersistedQueue α) : Result α (Option α) :=
  match q.refillFirstPage io coder with
  | (.error e,after) => (.error e,after)
  | (.ok (),after) => (.ok after.pages.first.head?,after)

def empty (q : PersistedQueue α) : Bool :=
  q.pages.first.isEmpty && q.pages.last.isEmpty && q.persistedFileNames.isEmpty

-- The loop of clear(), cut off after so many calls of pop_front: none where it
-- has not ended by then.
def clear (io : Io) (coder : BiCoder α) : Nat → PersistedQueue α → Option (Result α Unit)
  | 0,q => if q.empty then some (.ok (),q) else none
  | calls + 1,q =>
    if q.empty then some (.ok (),q)
    else
      match q.popFront io coder with
      | (.error e,after) => some (.error e,after)
      | (.ok _,after) => clear io coder calls after

def size (q : PersistedQueue α) : Nat :=
  if q.pages.same then q.pages.first.length + q.persistedFileNames.length * q.maxItemsPerPage
  else q.pages.first.length + q.pages.last.length + q.persistedFileNames.length * q.maxItemsPerPage

def writeFirstAndLastPage (io : Io) (coder : BiCoder α) (q : PersistedQueue α) : Result α Unit :=
  let front := if 0 < q.pages.first.length then q.persistToFile io coder ['0'] q.pages.first else (.ok (),q)
  match front with
  | (.error e,after) => (.error e,after)
  | (.ok (),after) =>
    if after.pages.same then (.ok (),after)
    else
      let numbered := after.seqNumber io
      numbered.2.persistToFile io coder numbered.1 numbered.2.pages.last

-- The open of the state file is not checked; the names are dropped either way.
def writeStateFile (io : Io) (q : PersistedQueue α) : PersistedQueue α :=
  if 0 < q.persistedFileNames.length then
    let written :=
      if io.opens q.place.stateFilePath then
        q.files.insert q.place.stateFilePath (unlines q.persistedFileNames)
      else q.files
    {q with persistedFileNames := [],files := written}
  else q

def shutdown (io : Io) (coder : BiCoder α) (q : PersistedQueue α) : Result α Unit :=
  match {q with shutDown := true}.writeFirstAndLastPage io coder with
  | (.error e,after) => (.error e,after)
  | (.ok (),after) => (.ok (),after.writeStateFile io)

-- The state file has just been found to exist; the source does not ask
-- whether it opened.
def loadStateFile (contents : Text) (q : PersistedQueue α) : PersistedQueue α :=
  {q with persistedFileNames := q.persistedFileNames ++ lines contents,
          files := q.files.erase q.place.stateFilePath}

def loadOrphanedQueueFiles (q : PersistedQueue α) : PersistedQueue α :=
  {q with persistedFileNames :=
    (q.persistedFileNames ++ q.files.keys.filter q.place.isQueueFile).insertionSort (· ≤ ·)}

def loadPersistedFileNames (q : PersistedQueue α) : PersistedQueue α :=
  match q.files.lookup q.place.stateFilePath with
  | some contents => q.loadStateFile contents
  | none => q.loadOrphanedQueueFiles

def loadFirstAndLastPage (io : Io) (coder : BiCoder α) (q : PersistedQueue α) : Result α Unit :=
  match q.persistedFileNames.length with
  | 0 => (.ok (),{q with pages := .shared []})
  | 1 =>
    match q.loadFrontFile io coder with
    | (.error e,after) => (.error e,after)
    | (.ok page,after) => (.ok (),{after with pages := .shared page})
  | _ + 2 =>
    match q.loadFrontFile io coder with
    | (.error e,after) => (.error e,after)
    | (.ok first,after) =>
      match after.loadBackFile io coder with
      | (.error e,after) => (.error e,after)
      | (.ok last,after) => (.ok (),{after with pages := .separate first last})

-- The object before load(): the pages are still null and are set before
-- anything reads them.
def fresh (place : Place) (maxItemsPerPage : Nat) (files : FileSystem) : PersistedQueue α :=
  ⟨false,0,0,place,maxItemsPerPage,[],.shared [],files⟩

-- A constructor that throws leaves no object, but what it did to the files stays.
def construct (io : Io) (coder : BiCoder α) (place : Place) (maxItemsPerPage : Nat)
    (files : FileSystem) : Result α Unit :=
  (fresh place maxItemsPerPage files).loadPersistedFileNames.loadFirstAndLastPage io coder

end PersistedQueue
end Kisscpp
