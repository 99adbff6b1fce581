import Mathlib.Data.List.TakeWhile
import Kisscpp.QueueNames

namespace Kisscpp
open TextLines DecimalText

variable {α : Type}

-- The codec gives back what it was given, and its text is one line without a
-- NUL, as base64 text is.
structure BiCoder.Faithful (coder : BiCoder α) : Prop where
  roundTrip : ∀ x, ∃ row, coder.encode x = some row ∧ coder.decode row = some x ∧ OneLine row ∧ '\x00' ∉ row

theorem cStr_whole {row : Text} (noNul : '\x00' ∉ row) : cStr row = row := by
  refine List.takeWhile_eq_self_iff.mpr ?_
  intro c member
  simpa using fun equal : c = '\x00' => noNul (equal ▸ member)

theorem BiCoder.rows {coder : BiCoder α} {page : List α} (each : ∀ x ∈ page,
      ∃ row, coder.encode x = some row ∧ coder.decode row = some x ∧ OneLine row ∧ '\x00' ∉ row) :
    ∃ rows, page.mapM coder.encode = some rows ∧ rows.mapM coder.decode = some page ∧
      (∀ row ∈ rows, OneLine row) ∧ rows.map cStr = rows := by
  induction page with
  | nil => exact ⟨[],rfl,rfl,by simp,rfl⟩
  | cons x page ih =>
    obtain ⟨rows,encoded,decoded,single,whole⟩ := ih fun other member => each other (List.mem_cons_of_mem _ member)
    obtain ⟨row,one,back,line,noNul⟩ := each x List.mem_cons_self
    refine ⟨row :: rows,?_,?_,?_,?_⟩
    · simp [List.mapM_cons,one,encoded]
    · simp [List.mapM_cons,back,decoded]
    · intro other member
      rcases List.mem_cons.mp member with rfl | later
      · exact line
      · exact single other later
    · rw [List.map_cons,whole,cStr_whole noNul]

theorem BiCoder.page_survives {coder : BiCoder α} {page : List α} (each : ∀ x ∈ page,
      ∃ row, coder.encode x = some row ∧ coder.decode row = some x ∧ OneLine row ∧ '\x00' ∉ row) :
    ∃ contents, coder.encodePage page = some contents ∧ coder.decodePage contents = some page := by
  obtain ⟨rows,encoded,decoded,single,whole⟩ := BiCoder.rows each
  refine ⟨unlines rows,by simp [encodePage,encoded,whole],?_⟩
  rw [decodePage,lines_unlines rows single,decoded]

def BiCoder.pageText (coder : BiCoder α) (page : List α) : Text := (coder.encodePage page).getD []

theorem BiCoder.Faithful.page {coder : BiCoder α} (faithful : coder.Faithful) (page : List α) :
    coder.encodePage page = some (coder.pageText page) ∧ coder.decodePage (coder.pageText page) = some page := by
  obtain ⟨contents,encoded,decoded⟩ := BiCoder.page_survives fun x (_ : x ∈ page) => faithful.roundTrip x
  rw [pageText,encoded]
  exact ⟨rfl,decoded⟩

-- A codec for the runs on fixed items: one character for a flag.
def flagCoder : BiCoder Bool := ⟨fun flag => some [if flag then '1' else '0'],fun row => some (row == ['1'])⟩

theorem flagCoder_faithful : flagCoder.Faithful := by
  constructor
  intro flag
  cases flag with
  | false => exact ⟨['0'],rfl,rfl,by decide,by decide⟩
  | true => exact ⟨['1'],rfl,rfl,by decide,by decide⟩

def pageAt (coder : BiCoder α) (files : FileSystem) (path : Text) : Option (List α) :=
  (files.lookup path).bind coder.decodePage

theorem pageAt_insert {coder : BiCoder α} {files : FileSystem} {path contents : Text} :
    pageAt coder (files.insert path contents) path = coder.decodePage contents := by
  simp [pageAt]

theorem pageAt_insert_ne {coder : BiCoder α} {files : FileSystem} {path other contents : Text}
    (different : other ≠ path) : pageAt coder (files.insert path contents) other = pageAt coder files other := by
  simp [pageAt,AList.lookup_insert_ne different]

theorem pageAt_erase_ne {coder : BiCoder α} {files : FileSystem} {path other : Text}
    (different : other ≠ path) : pageAt coder (files.erase path) other = pageAt coder files other := by
  simp [pageAt,AList.lookup_erase_ne different]

theorem pageAt_mem {coder : BiCoder α} {files : FileSystem} {path : Text} {page : List α}
    (found : pageAt coder files path = some page) : path ∈ files := by
  cases present : files.lookup path with
  | none => simp [pageAt,present] at found
  | some contents => exact AList.lookup_isSome.mp (by simp [present])

namespace Pages

@[simp] theorem first_shared (page : List α) : (shared page).first = page := rfl
@[simp] theorem first_separate (front back : List α) : (separate front back).first = front := rfl
@[simp] theorem last_shared (page : List α) : (shared page).last = page := rfl
@[simp] theorem last_separate (front back : List α) : (separate front back).last = back := rfl
@[simp] theorem same_shared (page : List α) : (shared page).same = true := rfl
@[simp] theorem same_separate (front back : List α) : (separate front back).same = false := rfl
@[simp] theorem updateFirst_shared (f : List α → List α) (page : List α) :
    (shared page).updateFirst f = shared (f page) := rfl
@[simp] theorem updateFirst_separate (f : List α → List α) (front back : List α) :
    (separate front back).updateFirst f = separate (f front) back := rfl
@[simp] theorem updateLast_shared (f : List α → List α) (page : List α) :
    (shared page).updateLast f = shared (f page) := rfl
@[simp] theorem updateLast_separate (f : List α → List α) (front back : List α) :
    (separate front back).updateLast f = separate front (f back) := rfl

@[simp] theorem updateFirst_first (f : List α → List α) (p : Pages α) : (p.updateFirst f).first = f p.first := by
  cases p <;> rfl
@[simp] theorem updateFirst_same (f : List α → List α) (p : Pages α) : (p.updateFirst f).same = p.same := by
  cases p <;> rfl
@[simp] theorem updateLast_last (f : List α → List α) (p : Pages α) : (p.updateLast f).last = f p.last := by
  cases p <;> rfl
@[simp] theorem updateLast_same (f : List α → List α) (p : Pages α) : (p.updateLast f).same = p.same := by
  cases p <;> rfl

theorem updateFirst_last {f : List α → List α} {p : Pages α} (separate : p.same = false) :
    (p.updateFirst f).last = p.last := by
  cases p with
  | shared page => cases separate
  | separate first last => rfl

end Pages

namespace PersistedQueue

def filedBack (seq contents : Text) (q : PersistedQueue α) : PersistedQueue α :=
  {q with persistedFileNames := q.persistedFileNames ++ [q.place.pagePath seq],
          files := q.files.insert (q.place.pagePath seq) contents}

def filedFront (contents : Text) (q : PersistedQueue α) : PersistedQueue α :=
  {q with persistedFileNames := q.place.pagePath ['0'] :: q.persistedFileNames,
          files := q.files.insert (q.place.pagePath ['0']) contents}

theorem persist_back {coder : BiCoder α} (faithful : coder.Faithful) (now : Nat) {seq : Text}
    (numbered : seq ≠ ['0']) (page : List α) (q : PersistedQueue α) :
    q.persistToFile (.healthy now) coder seq page = (.ok (),q.filedBack seq (coder.pageText page)) := by
  simp [persistToFile,Io.healthy,(faithful.page page).1,numbered,filedBack]

theorem persist_front {coder : BiCoder α} (faithful : coder.Faithful) (now : Nat) (page : List α)
    (q : PersistedQueue α) :
    q.persistToFile (.healthy now) coder ['0'] page = (.ok (),q.filedFront (coder.pageText page)) := by
  simp [persistToFile,Io.healthy,(faithful.page page).1,filedFront]

theorem load_page {coder : BiCoder α} {path : Text} {page : List α} (now : Nat) (q : PersistedQueue α)
    (found : pageAt coder q.files path = some page) :
    q.loadFromFile (.healthy now) coder path = (.ok page,{q with files := q.files.erase path}) := by
  cases present : q.files.lookup path with
  | none => simp [pageAt,present] at found
  | some contents =>
    have decoded : coder.decodePage contents = some page := by simpa [pageAt,present] using found
    simp [loadFromFile,present,Io.healthy,decoded]

theorem load_fails {coder : BiCoder α} {path : Text} (now : Nat) (q : PersistedQueue α)
    (missing : pageAt coder q.files path = none) :
    ∃ e, q.loadFromFile (.healthy now) coder path = (.error e,q) := by
  cases present : q.files.lookup path with
  | none => exact ⟨_,by simp [loadFromFile,present]; rfl⟩
  | some contents =>
    have decoded : coder.decodePage contents = none := by simpa [pageAt,present] using missing
    exact ⟨.biCoder,by simp [loadFromFile,present,Io.healthy,decoded]⟩

-- pushBack spills lastPage to a file when it is full and not firstPage.
def Spills (q : PersistedQueue α) : Prop := q.pages.same = false ∧ q.maxItemsPerPage ≤ q.pages.last.length

instance (q : PersistedQueue α) : Decidable q.Spills := inferInstanceAs (Decidable (_ ∧ _))

-- Everything a call can do on a file system that does not fail. Later proofs
-- take the cases of these rules and unfold no call.
inductive Pushed (coder : BiCoder α) (now : Nat) (p : α) (q : PersistedQueue α) : PersistedQueue α → Prop where
  | room (free : q.pages.last.length < q.maxItemsPerPage) :
      Pushed coder now p q {q with pages := q.pages.updateLast (· ++ [p])}
  | opened (full : q.maxItemsPerPage ≤ q.pages.last.length) (shared : q.pages.same = true) :
      Pushed coder now p q {q with pages := .separate q.pages.first [p]}
  | spilled (spills : q.Spills) {contents : Text} (holds : coder.decodePage contents = some q.pages.last) :
      Pushed coder now p q
        {(q.numbered now).filedBack (q.nextSeq now).text contents with pages := .separate q.pages.first [p]}

inductive Refilled (coder : BiCoder α) (q : PersistedQueue α) : Result α Unit → Prop where
  | kept (filled : q.pages.first ≠ []) : Refilled coder q (.ok (),q)
  | joined (drained : q.pages.first = []) (unlisted : q.persistedFileNames = []) :
      Refilled coder q (.ok (),{q with pages := .shared q.pages.last})
  | loaded {name : Text} {rest : List Text} {page : List α} (drained : q.pages.first = [])
      (listed : q.persistedFileNames = name :: rest) (found : pageAt coder q.files name = some page) :
      Refilled coder q (.ok (),{q with persistedFileNames := rest,files := q.files.erase name,
                                        pages := .separate page q.pages.last})
  | failed {name : Text} {rest : List Text} (e : QueueError) (drained : q.pages.first = [])
      (listed : q.persistedFileNames = name :: rest) (missing : pageAt coder q.files name = none) :
      Refilled coder q (.error e,{q with persistedFileNames := rest})

theorem pushBack_room (io : Io) (coder : BiCoder α) (p : α) {q : PersistedQueue α} (live : q.shutDown = false)
    (free : q.pages.last.length < q.maxItemsPerPage) :
    q.pushBack io coder p = (.ok (),{q with pages := q.pages.updateLast (· ++ [p])}) := by
  rw [pushBack,if_neg (by simp [live]),if_neg (by omega)]

theorem pushBack_opened (io : Io) (coder : BiCoder α) (p : α) {q : PersistedQueue α} (live : q.shutDown = false)
    (full : q.maxItemsPerPage ≤ q.pages.last.length) (shared : q.pages.same = true) :
    q.pushBack io coder p = (.ok (),{q with pages := .separate q.pages.first [p]}) := by
  rw [pushBack,if_neg (by simp [live]),if_pos full,if_pos shared]

theorem pushBack_filed {io : Io} {coder : BiCoder α} {p : α} {q after : PersistedQueue α} (live : q.shutDown = false)
    (spills : q.Spills)
    (filed : (q.numbered io.now).persistToFile io coder (q.nextSeq io.now).text q.pages.last = (.ok (),after)) :
    q.pushBack io coder p = (.ok (),{after with pages := .separate after.pages.first [p]}) := by
  have pages : (q.numbered io.now).pages = q.pages := rfl
  rw [pushBack,if_neg (by simp [live]),if_pos spills.2,if_neg (by simp [spills.1])]
  simp only [seqNumber_eq,pages,filed]

theorem pushBack_unfiled {io : Io} {coder : BiCoder α} {p : α} {q after : PersistedQueue α} {e : QueueError}
    (live : q.shutDown = false) (spills : q.Spills)
    (failed : (q.numbered io.now).persistToFile io coder (q.nextSeq io.now).text q.pages.last = (.error e,after)) :
    q.pushBack io coder p = (.error e,after) := by
  have pages : (q.numbered io.now).pages = q.pages := rfl
  rw [pushBack,if_neg (by simp [live]),if_pos spills.2,if_neg (by simp [spills.1])]
  simp only [seqNumber_eq,pages,failed]

theorem pushBack_unspilled (io : Io) (coder : BiCoder α) (now : Nat) (p : α) {q : PersistedQueue α}
    (live : q.shutDown = false) (stays : ¬ q.Spills) :
    ∃ after, q.pushBack io coder p = (.ok (),after) ∧ Pushed coder now p q after := by
  by_cases full : q.maxItemsPerPage ≤ q.pages.last.length
  · cases same : q.pages.same with
    | true => exact ⟨_,pushBack_opened io coder p live full same,.opened full same⟩
    | false => exact absurd ⟨same,full⟩ stays
  · exact ⟨_,pushBack_room io coder p live (by omega),.room (by omega)⟩

theorem pushBack_pushed {coder : BiCoder α} (faithful : coder.Faithful) {now : Nat} (ten : TenDigits now)
    (p : α) {q : PersistedQueue α} (live : q.shutDown = false) :
    ∃ after, q.pushBack (.healthy now) coder p = (.ok (),after) ∧ Pushed coder now p q after := by
  by_cases spills : q.Spills
  · have numbered : (q.nextSeq now).text ≠ ['0'] := SeqNumber.text_ne_zero (s := q.nextSeq now) ten
    have filed := persist_back faithful now numbered q.pages.last (q.numbered now)
    exact ⟨_,pushBack_filed live spills filed,.spilled spills (faithful.page q.pages.last).2⟩
  · exact pushBack_unspilled (.healthy now) coder now p live spills

theorem refillFirstPage_refilled (coder : BiCoder α) (now : Nat) (q : PersistedQueue α) :
    Refilled coder q (q.refillFirstPage (.healthy now) coder) := by
  unfold refillFirstPage
  by_cases drained : q.pages.first = []
  · cases listed : q.persistedFileNames with
    | nil => simpa [drained,listed] using (Refilled.joined drained listed : Refilled coder q _)
    | cons name rest =>
      cases found : pageAt coder q.files name with
      | none =>
        obtain ⟨e,failed⟩ := load_fails now {q with persistedFileNames := rest} found
        simpa [drained,loadFrontFile,listed,failed] using Refilled.failed e drained listed found
      | some page =>
        have loaded := load_page now {q with persistedFileNames := rest} found
        simpa [drained,loadFrontFile,listed,loaded] using Refilled.loaded drained listed found
  · simpa [drained] using (Refilled.kept drained : Refilled coder q _)

end PersistedQueue

inductive Op (α : Type) where
  | pushBack (p : α)
  | pushFront (p : α)
  | popFront
  | front
  deriving DecidableEq

inductive Reply (α : Type) where
  | done
  | item (found : Option α)
  | threw (e : QueueError)
  deriving DecidableEq

def Reply.ofDone : Except QueueError Unit → Reply α
  | .ok () => .done
  | .error e => .threw e

def Reply.ofItem : Except QueueError (Option α) → Reply α
  | .ok found => .item found
  | .error e => .threw e

namespace PersistedQueue

def call (io : Io) (coder : BiCoder α) (q : PersistedQueue α) : Op α → Reply α × PersistedQueue α
  | .pushBack p => ((q.pushBack io coder p).map Reply.ofDone id)
  | .pushFront p => ((q.pushFront p).map Reply.ofDone id)
  | .popFront => ((q.popFront io coder).map Reply.ofItem id)
  | .front => ((q.front io coder).map Reply.ofItem id)

def Saves (q : PersistedQueue α) : Op α → Prop
  | .pushBack _ => q.Spills
  | _ => False

instance (q : PersistedQueue α) : (op : Op α) → Decidable (q.Saves op)
  | .pushBack _ => inferInstanceAs (Decidable q.Spills)
  | .pushFront _ | .popFront | .front => isFalse id

inductive Called (coder : BiCoder α) (now : Nat) (q : PersistedQueue α) :
    Op α → Reply α → PersistedQueue α → Prop where
  | pushedBack {p : α} {after : PersistedQueue α} (pushed : Pushed coder now p q after) :
      Called coder now q (.pushBack p) .done after
  | pushedFront {p : α} : Called coder now q (.pushFront p) .done {q with pages := q.pages.updateFirst (p :: ·)}
  | popped {after : PersistedQueue α} (refilled : Refilled coder q (.ok (),after)) :
      Called coder now q .popFront (.item after.pages.first.head?)
        {after with pages := after.pages.updateFirst List.tail}
  | seen {after : PersistedQueue α} (refilled : Refilled coder q (.ok (),after)) :
      Called coder now q .front (.item after.pages.first.head?) after
  | popFailed {e : QueueError} {after : PersistedQueue α} (refilled : Refilled coder q (.error e,after)) :
      Called coder now q .popFront (.threw e) after
  | frontFailed {e : QueueError} {after : PersistedQueue α} (refilled : Refilled coder q (.error e,after)) :
      Called coder now q .front (.threw e) after

theorem call_called {coder : BiCoder α} (faithful : coder.Faithful) {now : Nat} (ten : TenDigits now)
    {q : PersistedQueue α} (live : q.shutDown = false) (op : Op α) :
    Called coder now q op (q.call (.healthy now) coder op).1 (q.call (.healthy now) coder op).2 := by
  have notDown : ¬ q.shutDown = true := by simp [live]
  have refilled := refillFirstPage_refilled coder now q
  cases op with
  | pushBack p =>
    obtain ⟨after,ran,pushed⟩ := pushBack_pushed faithful ten p live
    simpa [call,ran,Reply.ofDone] using Called.pushedBack pushed
  | pushFront p =>
    have pushed : Called coder now q (.pushFront p) _ _ := .pushedFront
    simpa [call,pushFront,live,Reply.ofDone] using pushed
  | popFront =>
    cases ran : q.refillFirstPage (.healthy now) coder with
    | mk result after =>
      rw [ran] at refilled
      cases result with
      | error e => simpa [call,popFront,notDown,ran,Reply.ofItem] using (Called.popFailed refilled : Called coder now q .popFront _ _)
      | ok => simpa [call,popFront,notDown,ran,Reply.ofItem] using (Called.popped refilled : Called coder now q .popFront _ _)
  | front =>
    cases ran : q.refillFirstPage (.healthy now) coder with
    | mk result after =>
      rw [ran] at refilled
      cases result with
      | error e => simpa [call,front,ran,Reply.ofItem] using (Called.frontFailed refilled : Called coder now q .front _ _)
      | ok => simpa [call,front,ran,Reply.ofItem] using (Called.seen refilled : Called coder now q .front _ _)

end PersistedQueue
end Kisscpp
