import Kisscpp.QueueCalls

namespace Kisscpp
open TextLines DecimalText

variable {α : Type}

def pagesOf (coder : BiCoder α) (files : FileSystem) (names : List Text) : List α :=
  names.flatMap fun name => (pageAt coder files name).getD []

@[simp] theorem pagesOf_nil (coder : BiCoder α) (files : FileSystem) : pagesOf coder files [] = [] := rfl

theorem pagesOf_cons {coder : BiCoder α} {files : FileSystem} {name : Text} {names : List Text}
    {page : List α} (found : pageAt coder files name = some page) :
    pagesOf coder files (name :: names) = page ++ pagesOf coder files names := by
  simp [pagesOf,found]

theorem pagesOf_append (coder : BiCoder α) (files : FileSystem) (first second : List Text) :
    pagesOf coder files (first ++ second) = pagesOf coder files first ++ pagesOf coder files second := by
  simp [pagesOf]

theorem pagesOf_congr {coder : BiCoder α} {files others : FileSystem} {names : List Text}
    (same : ∀ name ∈ names, pageAt coder files name = pageAt coder others name) :
    pagesOf coder files names = pagesOf coder others names := by
  induction names with
  | nil => rfl
  | cons name names ih =>
    have later := ih fun other member => same other (List.mem_cons_of_mem _ member)
    have here := same name (by simp)
    simp only [pagesOf,List.flatMap_cons,here] at later ⊢
    rw [later]

theorem pagesOf_insert {coder : BiCoder α} {files : FileSystem} {names : List Text} {path : Text}
    (contents : Text) (apart : path ∉ names) :
    pagesOf coder (files.insert path contents) names = pagesOf coder files names :=
  pagesOf_congr fun _ member => pageAt_insert_ne fun equal => apart (equal ▸ member)

theorem pagesOf_erase {coder : BiCoder α} {files : FileSystem} {names : List Text} {path : Text}
    (apart : path ∉ names) : pagesOf coder (files.erase path) names = pagesOf coder files names :=
  pagesOf_congr fun _ member => pageAt_erase_ne fun equal => apart (equal ▸ member)

namespace PersistedQueue

-- firstPage, then the listed files, then lastPage where it is a page of its own.
def content (coder : BiCoder α) (q : PersistedQueue α) : List α :=
  q.pages.first ++ pagesOf coder q.files q.persistedFileNames ++ (if q.pages.same then [] else q.pages.last)

def Numbered (place : Place) (name : Text) : Prop :=
  ∃ s : SeqNumber, TenDigits s.second ∧ name = place.pagePath s.text

theorem Numbered.isQueueFile {place : Place} {name : Text} (numbered : Numbered place name) :
    place.isQueueFile name = true := by
  obtain ⟨s,_,rfl⟩ := numbered
  exact place.isQueueFile_pagePath s.digits_text

theorem Numbered.ne_state {place : Place} {name : Text} (numbered : Numbered place name) :
    name ≠ place.stateFilePath := by
  obtain ⟨s,_,rfl⟩ := numbered
  exact place.pagePath_ne_state s.digits_text

theorem Numbered.ne_zero {place : Place} {name : Text} (numbered : Numbered place name) :
    name ≠ place.pagePath ['0'] := by
  obtain ⟨s,ten,rfl⟩ := numbered
  exact fun equal => SeqNumber.text_ne_zero ten (place.pagePath_injective equal)

-- What the calls rest on, whatever else lies in the directory: shared pages
-- exclude listed files, and the listed names are distinct files with items in them.
structure Paged (coder : BiCoder α) (q : PersistedQueue α) : Prop where
  live : q.shutDown = false
  alone : q.pages.same = true → q.persistedFileNames = []
  distinct : q.persistedFileNames.Nodup
  filled : ∀ name ∈ q.persistedFileNames, ∃ page, pageAt coder q.files name = some page ∧ page ≠ []
  named : ∀ name ∈ q.persistedFileNames, Numbered q.place name

def Fresh (now : Nat) (q : PersistedQueue α) : Prop :=
  q.place.pagePath (q.nextSeq now).text ∉ q.persistedFileNames

instance (now : Nat) (q : PersistedQueue α) : Decidable (q.Fresh now) := inferInstanceAs (Decidable (¬ _ ∈ _))

theorem Paged.separate {coder : BiCoder α} {q : PersistedQueue α} (paged : q.Paged coder) {name : Text}
    {rest : List Text} (listed : q.persistedFileNames = name :: rest) : q.pages.same = false := by
  cases same : q.pages.same with
  | false => rfl
  | true =>
    rw [paged.alone same] at listed
    cases listed

theorem paged_pages {coder : BiCoder α} {q : PersistedQueue α} (paged : q.Paged coder) {pages : Pages α}
    (alone : pages.same = true → q.persistedFileNames = []) : ({q with pages := pages}).Paged coder :=
  ⟨paged.live,alone,paged.distinct,paged.filled,paged.named⟩

theorem paged_updateFirst {coder : BiCoder α} (f : List α → List α) {q : PersistedQueue α}
    (paged : q.Paged coder) : ({q with pages := q.pages.updateFirst f}).Paged coder := by
  refine paged_pages paged ?_
  rw [Pages.updateFirst_same]
  exact paged.alone

theorem paged_filed {coder : BiCoder α} {q : PersistedQueue α} (paged : q.Paged coder) {now : Nat}
    (ten : TenDigits now) (fresh : q.Fresh now) {contents : Text} {page : List α}
    (holds : coder.decodePage contents = some page) (nonempty : page ≠ []) {pages : Pages α}
    (separate : pages.same = false) :
    ({(q.numbered now).filedBack (q.nextSeq now).text contents with pages := pages}).Paged coder := by
  have apart : ∀ name ∈ q.persistedFileNames, name ≠ q.place.pagePath (q.nextSeq now).text :=
    fun name member equal => fresh (equal ▸ member)
  refine ⟨paged.live,?_,?_,?_,?_⟩
  · intro same
    rw [separate] at same
    cases same
  · exact List.nodup_append.mpr ⟨paged.distinct,List.nodup_singleton _,fun name member other last =>
      List.mem_singleton.mp last ▸ apart name member⟩
  · intro name member
    rcases List.mem_append.mp member with old | new
    · obtain ⟨other,found,filled⟩ := paged.filled name old
      exact ⟨other,(pageAt_insert_ne (apart name old)).trans found,filled⟩
    · rw [List.mem_singleton.mp new]
      exact ⟨page,pageAt_insert.trans holds,nonempty⟩
  · intro name member
    rcases List.mem_append.mp member with old | new
    · exact paged.named name old
    · exact ⟨q.nextSeq now,ten,List.mem_singleton.mp new⟩

theorem paged_pushed {coder : BiCoder α} {q after : PersistedQueue α} {now : Nat} {p : α}
    (paged : q.Paged coder) (ten : TenDigits now) (fresh : q.Spills → q.Fresh now)
    (filled : q.Spills → q.pages.last ≠ []) (pushed : Pushed coder now p q after) : after.Paged coder := by
  cases pushed with
  | room free =>
    refine paged_pages paged ?_
    rw [Pages.updateLast_same]
    exact paged.alone
  | opened full shared => exact paged_pages paged fun same => by cases same
  | spilled spills holds => exact paged_filed paged ten (fresh spills) holds (filled spills) rfl

theorem content_pushed {coder : BiCoder α} {q after : PersistedQueue α} {now : Nat} {p : α}
    (paged : q.Paged coder) (fresh : q.Spills → q.Fresh now) (pushed : Pushed coder now p q after) :
    after.content coder = q.content coder ++ [p] := by
  cases pushed with
  | room free =>
    cases pages : q.pages with
    | shared page => simp [content,pages,paged.alone (by rw [pages]; rfl)]
    | separate first last => simp [content,pages]
  | opened full shared =>
    have unlisted := paged.alone shared
    simp [content,shared,unlisted]
  | spilled spills holds =>
    have kept := @pagesOf_insert _ coder q.files _ _ ‹Text› (fresh spills)
    have here := (@pageAt_insert _ coder q.files (q.place.pagePath (q.nextSeq now).text) _).trans holds
    have added := @pagesOf_cons _ coder _ _ [] _ here
    simp [content,spills.1,filedBack,PersistedQueue.numbered,pagesOf_append,kept,added]

theorem paged_dropped {coder : BiCoder α} {q : PersistedQueue α} (paged : q.Paged coder) {name : Text}
    {rest : List Text} (listed : q.persistedFileNames = name :: rest) :
    name ∉ rest ∧ ({q with persistedFileNames := rest}).Paged coder := by
  have distinct := paged.distinct
  rw [listed,List.nodup_cons] at distinct
  have within : ∀ other ∈ rest, other ∈ q.persistedFileNames :=
    fun other member => listed ▸ List.mem_cons_of_mem _ member
  refine ⟨distinct.1,⟨paged.live,?_,distinct.2,?_,?_⟩⟩
  · intro same
    have separate : q.pages.same = false := paged.separate listed
    have same : q.pages.same = true := same
    rw [separate] at same
    cases same
  · exact fun other member => paged.filled other (within other member)
  · exact fun other member => paged.named other (within other member)

theorem paged_erased {coder : BiCoder α} {q : PersistedQueue α} (paged : q.Paged coder) {name : Text}
    {rest : List Text} (listed : q.persistedFileNames = name :: rest) {pages : Pages α}
    (separate : pages.same = false) :
    ({q with persistedFileNames := rest,files := q.files.erase name,pages := pages}).Paged coder := by
  obtain ⟨apart,dropped⟩ := paged_dropped paged listed
  refine ⟨paged.live,?_,dropped.distinct,?_,dropped.named⟩
  · intro same
    rw [separate] at same
    cases same
  · intro other member
    obtain ⟨page,found,filled⟩ := dropped.filled other member
    have different : other ≠ name := fun equal => apart (equal ▸ member)
    exact ⟨page,(pageAt_erase_ne different).trans found,filled⟩

theorem content_joined (coder : BiCoder α) {q : PersistedQueue α} (drained : q.pages.first = [])
    (unlisted : q.persistedFileNames = []) : ({q with pages := .shared q.pages.last}).content coder = q.content coder := by
  cases pages : q.pages with
  | shared page =>
    rw [pages] at drained
    have drained : page = [] := drained
    simp [content,pages,drained,unlisted]
  | separate first last =>
    rw [pages] at drained
    have drained : first = [] := drained
    simp [content,pages,drained,unlisted]

theorem content_loaded {coder : BiCoder α} {q : PersistedQueue α} {name : Text} {rest : List Text} {page : List α}
    (drained : q.pages.first = []) (listed : q.persistedFileNames = name :: rest)
    (found : pageAt coder q.files name = some page) (apart : name ∉ rest) :
    ({q with persistedFileNames := rest,files := q.files.erase name,pages := .separate page q.pages.last}).content coder =
      q.content coder := by
  have kept := @pagesOf_erase _ coder q.files _ _ apart
  cases pages : q.pages with
  | shared shared =>
    rw [pages] at drained
    have drained : shared = [] := drained
    simp [content,pages,drained,listed,pagesOf_cons found,kept]
  | separate first last =>
    rw [pages] at drained
    have drained : first = [] := drained
    simp [content,pages,drained,listed,pagesOf_cons found,kept]

theorem refilled_paged {coder : BiCoder α} {q : PersistedQueue α} {result : Result α Unit}
    (paged : q.Paged coder) (refilled : Refilled coder q result) :
    result.1 = .ok () ∧ result.2.Paged coder ∧ result.2.content coder = q.content coder ∧
      (result.2.pages.first = [] → q.content coder = []) := by
  cases refilled with
  | kept filled => exact ⟨rfl,paged,rfl,fun empty => absurd empty filled⟩
  | joined drained unlisted =>
    have same := content_joined coder drained unlisted
    refine ⟨rfl,paged_pages paged fun _ => unlisted,same,?_⟩
    intro empty
    have empty : q.pages.last = [] := empty
    rw [← same]
    simp [content,unlisted,empty]
  | @loaded name rest page drained listed found =>
    obtain ⟨apart,_⟩ := paged_dropped paged listed
    obtain ⟨other,holds,filled⟩ := paged.filled name (by simp [listed])
    have nonempty : page ≠ [] := by
      rw [found] at holds
      rwa [Option.some.inj holds]
    exact ⟨rfl,paged_erased paged listed rfl,content_loaded drained listed found apart,
      fun empty => absurd empty nonempty⟩
  | failed e drained listed missing =>
    obtain ⟨page,found,_⟩ := paged.filled _ (by rw [listed]; exact List.mem_cons_self)
    rw [missing] at found
    cases found

theorem content_updateFirst {coder : BiCoder α} (f : List α → List α) {q : PersistedQueue α} :
    ({q with pages := q.pages.updateFirst f}).content coder =
      f q.pages.first ++ (q.content coder).drop q.pages.first.length := by
  cases pages : q.pages with
  | shared page => simp [content,pages]
  | separate first last => simp [content,pages]

theorem content_first (coder : BiCoder α) (q : PersistedQueue α) :
    ∃ later, q.content coder = q.pages.first ++ later :=
  ⟨_,by rw [content,List.append_assoc]⟩

def applied (content : List α) : Op α → Reply α × List α
  | .pushBack p => (.done,content ++ [p])
  | .pushFront p => (.done,p :: content)
  | .popFront => (.item content.head?,content.tail)
  | .front => (.item content.head?,content)

theorem refilled_first {coder : BiCoder α} {q after : PersistedQueue α} (paged : q.Paged coder)
    (refilled : Refilled coder q (.ok (),after)) :
    after.Paged coder ∧ after.content coder = q.content coder ∧
      after.pages.first.head? = (q.content coder).head? ∧
      after.pages.first.tail ++ (q.content coder).drop after.pages.first.length = (q.content coder).tail := by
  obtain ⟨_,kept,same,drained⟩ := refilled_paged paged refilled
  obtain ⟨later,shape⟩ := content_first coder after
  refine ⟨kept,same,?_⟩
  rw [← same,shape]
  cases first : after.pages.first with
  | nil =>
    have empty := (same.trans (drained first)).symm.trans shape
    simp [first] at empty
    simp [empty]
  | cons x rest => simp

theorem paged_called {coder : BiCoder α} {q after : PersistedQueue α} {now : Nat} {op : Op α}
    {reply : Reply α} (paged : q.Paged coder) (ten : TenDigits now) (fresh : q.Saves op → q.Fresh now)
    (filled : q.Saves op → q.pages.last ≠ []) (called : Called coder now q op reply after) :
    after.Paged coder ∧ (reply,after.content coder) = applied (q.content coder) op := by
  cases called with
  | pushedBack pushed =>
    exact ⟨paged_pushed paged ten fresh filled pushed,by rw [content_pushed paged fresh pushed]; rfl⟩
  | pushedFront =>
    obtain ⟨later,shape⟩ := content_first coder q
    refine ⟨paged_updateFirst _ paged,?_⟩
    rw [content_updateFirst,shape]
    simp [applied]
  | @popped middle refilled =>
    obtain ⟨kept,same,head,tail⟩ := refilled_first paged refilled
    refine ⟨paged_updateFirst _ kept,?_⟩
    rw [content_updateFirst,same,head,tail]
    rfl
  | seen refilled =>
    obtain ⟨kept,same,head,_⟩ := refilled_first paged refilled
    refine ⟨kept,?_⟩
    rw [same,head]
    rfl
  | popFailed refilled => exact absurd (refilled_paged paged refilled).1 (by simp)
  | frontFailed refilled => exact absurd (refilled_paged paged refilled).1 (by simp)

-- The state of a live object between two calls: shared pages exclude listed
-- files, a last page of its own is never empty, the listed names are distinct
-- files with items in them, and the directory has no other page file.
structure Stored (coder : BiCoder α) (q : PersistedQueue α) : Prop where
  live : q.shutDown = false
  alone : q.pages.same = true → q.persistedFileNames = []
  lastFilled : q.pages.same = false → q.pages.last ≠ []
  distinct : q.persistedFileNames.Nodup
  filled : ∀ name ∈ q.persistedFileNames, ∃ page, pageAt coder q.files name = some page ∧ page ≠ []
  named : ∀ name ∈ q.persistedFileNames, Numbered q.place name
  listed : ∀ path ∈ q.files, q.place.isQueueFile path = true → path ∈ q.persistedFileNames
  noState : q.place.stateFilePath ∉ q.files

theorem Stored.paged {coder : BiCoder α} {q : PersistedQueue α} (stored : q.Stored coder) : q.Paged coder :=
  ⟨stored.live,stored.alone,stored.distinct,stored.filled,stored.named⟩

theorem Paged.stored {coder : BiCoder α} {q : PersistedQueue α} (paged : q.Paged coder)
    (lastFilled : q.pages.same = false → q.pages.last ≠ [])
    (listed : ∀ path ∈ q.files, q.place.isQueueFile path = true → path ∈ q.persistedFileNames)
    (noState : q.place.stateFilePath ∉ q.files) : q.Stored coder :=
  ⟨paged.live,paged.alone,lastFilled,paged.distinct,paged.filled,paged.named,listed,noState⟩

theorem stored_pages {coder : BiCoder α} {q : PersistedQueue α} (stored : q.Stored coder) {pages : Pages α}
    (alone : pages.same = true → q.persistedFileNames = []) (filled : pages.same = false → pages.last ≠ []) :
    ({q with pages := pages}).Stored coder :=
  (paged_pages stored.paged alone).stored filled stored.listed stored.noState

theorem stored_updateFirst {coder : BiCoder α} (f : List α → List α) {q : PersistedQueue α}
    (stored : q.Stored coder) : ({q with pages := q.pages.updateFirst f}).Stored coder := by
  refine (paged_updateFirst f stored.paged).stored ?_ stored.listed stored.noState
  intro separate
  rw [Pages.updateFirst_same] at separate
  rw [Pages.updateFirst_last separate]
  exact stored.lastFilled separate

theorem stored_pushed {coder : BiCoder α} {q after : PersistedQueue α} {now : Nat} {p : α}
    (stored : q.Stored coder) (ten : TenDigits now) (fresh : q.Spills → q.Fresh now)
    (pushed : Pushed coder now p q after) : after.Stored coder := by
  have paged := paged_pushed stored.paged ten fresh (fun spills => stored.lastFilled spills.1) pushed
  cases pushed with
  | room free =>
    refine paged.stored (fun _ => ?_) stored.listed stored.noState
    rw [Pages.updateLast_last]
    simp
  | opened full shared => exact paged.stored (fun _ => by simp) stored.listed stored.noState
  | spilled spills holds =>
    refine paged.stored (fun _ => by simp) ?_ ?_
    · intro path present queueFile
      rcases (AList.mem_insert _).mp present with new | old
      · exact List.mem_append_right _ (List.mem_singleton.mpr new)
      · exact List.mem_append_left _ (stored.listed path old queueFile)
    · exact q.place.filed_noState (q.nextSeq now).digits_text stored.noState

theorem stored_erased {coder : BiCoder α} {q : PersistedQueue α} (stored : q.Stored coder) {name : Text}
    {rest : List Text} (listed : q.persistedFileNames = name :: rest) {pages : Pages α}
    (separate : pages.same = false) (lastFilled : pages.last ≠ []) :
    ({q with persistedFileNames := rest,files := q.files.erase name,pages := pages}).Stored coder := by
  refine (paged_erased stored.paged listed separate).stored (fun _ => lastFilled) ?_ ?_
  · intro path present queueFile
    obtain ⟨different,old⟩ := AList.mem_erase.mp present
    have member := stored.listed path old queueFile
    rw [listed] at member
    exact (List.mem_cons.mp member).resolve_left different
  · exact fun present => stored.noState (AList.mem_erase.mp present).2

theorem stored_refilled {coder : BiCoder α} {q : PersistedQueue α} {result : Result α Unit}
    (stored : q.Stored coder) (refilled : Refilled coder q result) : result.2.Stored coder := by
  have answered := (refilled_paged stored.paged refilled).1
  cases refilled with
  | kept => exact stored
  | joined drained unlisted => exact stored_pages stored (fun _ => unlisted) (fun separate => by cases separate)
  | loaded drained listed found =>
    exact stored_erased stored listed rfl (stored.lastFilled (stored.paged.separate listed))
  | failed => cases answered

theorem stored_called {coder : BiCoder α} {q after : PersistedQueue α} {now : Nat} {op : Op α}
    {reply : Reply α} (stored : q.Stored coder) (ten : TenDigits now) (fresh : q.Saves op → q.Fresh now)
    (called : Called coder now q op reply after) :
    after.Stored coder ∧ (reply,after.content coder) = applied (q.content coder) op := by
  have filled : q.Saves op → q.pages.last ≠ [] := by
    intro saves
    cases op with
    | pushBack p => exact stored.lastFilled saves.1
    | pushFront p => cases saves
    | popFront => cases saves
    | front => cases saves
  refine ⟨?_,(paged_called stored.paged ten fresh filled called).2⟩
  cases called with
  | pushedBack pushed => exact stored_pushed stored ten fresh pushed
  | pushedFront => exact stored_updateFirst _ stored
  | popped refilled => exact stored_updateFirst _ (stored_refilled stored refilled)
  | seen refilled => exact stored_refilled stored refilled
  | popFailed refilled => exact stored_refilled stored refilled
  | frontFailed refilled => exact stored_refilled stored refilled

end PersistedQueue
end Kisscpp
