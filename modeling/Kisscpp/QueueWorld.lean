import Kisscpp.QueueRecovery

namespace Kisscpp
open TextLines DecimalText Stepping PersistedQueue

variable {α : Type}

-- The queue's directory between two objects, or a live object together with
-- the names its constructor left on the list.
inductive Phase (α : Type) where
  | absent (files : FileSystem)
  | present (inherited : List Text) (queue : PersistedQueue α)

structure World (α : Type) where
  clock : Nat
  phase : Phase α

inductive Event (α : Type) where
  | construct (maxItemsPerPage : Nat)
  | call (op : Op α)
  | destroy
  | crash

structure Occurrence (α : Type) where
  now : Nat
  event : Event α

-- Any number of objects, one after the other, on one name and directory. What
-- has no object to happen to, or one in its way, does not happen.
def world (coder : BiCoder α) (place : Place) : Machine (World α) (Occurrence α) (Option (Reply α)) where
  step w o :=
    match w.phase,o.event with
    | .absent files,.construct maxItemsPerPage =>
      match construct (.healthy o.now) coder place maxItemsPerPage files with
      | (.ok (),q) => (none,⟨o.now,.present q.persistedFileNames q⟩)
      | (.error _,q) => (none,⟨o.now,.absent q.files⟩)
    | .present inherited q,.call op =>
      let called := q.call (.healthy o.now) coder op
      (some called.1,⟨o.now,.present inherited called.2⟩)
    | .present _ q,.destroy => (none,⟨o.now,.absent (q.shutdown (.healthy o.now) coder).2.files⟩)
    | .present _ q,.crash => (none,⟨o.now,.absent q.files⟩)
    | phase,_ => (none,⟨o.now,phase⟩)

def OnTime (w : World α) (o : Occurrence α) : Prop := w.clock ≤ o.now ∧ TenDigits o.now

instance (w : World α) (o : Occurrence α) : Decidable (OnTime w o) := inferInstanceAs (Decidable (_ ∧ _))

-- The names load() would work on.
def foundNames (place : Place) (files : FileSystem) : List Text :=
  match files.lookup place.stateFilePath with
  | some contents => lines contents
  | none => (files.keys.filter place.isQueueFile).insertionSort (· ≤ ·)

theorem erase_absent {files : FileSystem} {path : Text} (absent : path ∉ files) : files.erase path = files :=
  AList.ext (List.kerase_of_notMem_keys absent)

theorem construct_found (io : Io) (coder : BiCoder α) (place : Place) (files : FileSystem) (maxItemsPerPage : Nat) :
    construct io coder place maxItemsPerPage files =
      (listing place maxItemsPerPage (foundNames place files) (files.erase place.stateFilePath)
        ).loadFirstAndLastPage io coder := by
  unfold foundNames
  cases present : files.lookup place.stateFilePath with
  | some contents => exact construct_listed io coder present maxItemsPerPage
  | none =>
    have absent := AList.lookup_eq_none.mp present
    rw [erase_absent absent]
    exact construct_scan io coder absent maxItemsPerPage

-- What holds of a directory and a list of names whatever the clock does: no
-- page file is off the list, and each was written by this queue.
structure Tidy (coder : BiCoder α) (place : Place) (names : List Text) (files : FileSystem) : Prop where
  listed : ∀ path ∈ files, place.isQueueFile path = true → path ∈ names
  readable : ∀ path ∈ files, place.isQueueFile path = true →
    ∃ page, pageAt coder files path = some page ∧ page ≠ []
  named : ∀ name ∈ names, ∃ seq, Digits seq ∧ name = place.pagePath seq

namespace Tidy
variable {coder : BiCoder α} {place : Place} {names rest : List Text} {files : FileSystem} {name : Text}

theorem queueFile (tidy : Tidy coder place names files) (member : name ∈ names) : place.isQueueFile name = true := by
  obtain ⟨seq,digits,rfl⟩ := tidy.named name member
  exact place.isQueueFile_pagePath digits

theorem oneLine (tidy : Tidy coder place names files) (member : name ∈ names) : OneLine name := by
  obtain ⟨seq,digits,rfl⟩ := tidy.named name member
  exact place.oneLine_pagePath digits

theorem taken (tidy : Tidy coder place names files) (others : ∀ other ∈ names, other ≠ name → other ∈ rest)
    (within : ∀ other ∈ rest, other ∈ names) : Tidy coder place rest (files.erase name) := by
  refine ⟨?_,?_,fun other member => tidy.named other (within other member)⟩
  · intro path present queueFile
    obtain ⟨different,old⟩ := AList.mem_erase.mp present
    exact others path (tidy.listed path old queueFile) different
  · intro path present queueFile
    obtain ⟨different,old⟩ := AList.mem_erase.mp present
    rw [pageAt_erase_ne different]
    exact tidy.readable path old queueFile

theorem skipped (tidy : Tidy coder place names files) (member : name ∈ names) (missing : pageAt coder files name = none)
    (others : ∀ other ∈ names, other ≠ name → other ∈ rest) (within : ∀ other ∈ rest, other ∈ names) :
    Tidy coder place rest files := by
  refine ⟨?_,tidy.readable,fun other member => tidy.named other (within other member)⟩
  intro path present queueFile
  refine others path (tidy.listed path present queueFile) ?_
  rintro rfl
  obtain ⟨page,found,_⟩ := tidy.readable path present queueFile
  rw [missing] at found
  cases found

theorem filed (tidy : Tidy coder place names files) {seq contents : Text} {page : List α} (digits : Digits seq)
    (holds : coder.decodePage contents = some page) (filled : page ≠ []) (others : ∀ other ∈ names, other ∈ rest)
    (added : place.pagePath seq ∈ rest) (within : ∀ other ∈ rest, other ∈ names ∨ other = place.pagePath seq) :
    Tidy coder place rest (files.insert (place.pagePath seq) contents) := by
  refine ⟨?_,?_,?_⟩
  · intro path present queueFile
    rcases (AList.mem_insert _).mp present with rfl | old
    · exact added
    · exact others path (tidy.listed path old queueFile)
  · intro path present queueFile
    by_cases same : path = place.pagePath seq
    · exact ⟨page,by rw [same,pageAt_insert,holds],filled⟩
    · rw [pageAt_insert_ne same]
      exact tidy.readable path (((AList.mem_insert _).mp present).resolve_left same) queueFile
  · intro other member
    rcases within other member with old | rfl
    · exact tidy.named other old
    · exact ⟨seq,digits,rfl⟩

theorem withState (tidy : Tidy coder place names files) (text : Text) :
    Tidy coder place names ((files.insert place.stateFilePath text).erase place.stateFilePath) := by
  have kept : ∀ path ∈ (files.insert place.stateFilePath text).erase place.stateFilePath,
      path ≠ place.stateFilePath ∧ path ∈ files := by
    intro path present
    obtain ⟨different,old⟩ := AList.mem_erase.mp present
    exact ⟨different,((AList.mem_insert _).mp old).resolve_left different⟩
  refine ⟨fun path present => tidy.listed path (kept path present).2,?_,tidy.named⟩
  intro path present queueFile
  rw [pageAt_erase_ne (kept path present).1,pageAt_insert_ne (kept path present).1]
  exact tidy.readable path (kept path present).2 queueFile

theorem scanned (tidy : Tidy coder place names files) (noState : place.stateFilePath ∉ files) :
    Tidy coder place (foundNames place files) (files.erase place.stateFilePath) := by
  rw [erase_absent noState,foundNames,AList.lookup_eq_none.mpr noState]
  refine ⟨?_,tidy.readable,?_⟩
  · intro path present queueFile
    exact (List.mem_insertionSort _).mpr (List.mem_filter.mpr ⟨AList.mem_keys.mp present,queueFile⟩)
  · intro name member
    obtain ⟨present,queueFile⟩ := List.mem_filter.mp ((List.mem_insertionSort _).mp member)
    exact tidy.named name (tidy.listed name (AList.mem_keys.mpr present) queueFile)

end Tidy
structure TidyQueue (coder : BiCoder α) (place : Place) (q : PersistedQueue α) : Prop where
  live : q.shutDown = false
  placed : q.place = place
  alone : q.pages.same = true → q.persistedFileNames = []
  lastFilled : q.pages.same = false → q.pages.last ≠ []
  noState : place.stateFilePath ∉ q.files
  tidy : Tidy coder place q.persistedFileNames q.files

def TidyPhase (coder : BiCoder α) (place : Place) : Phase α → Prop
  | .absent files => Tidy coder place (foundNames place files) (files.erase place.stateFilePath)
  | .present _ q => TidyQueue coder place q

theorem tidyQueue_pages {coder : BiCoder α} {place : Place} {q : PersistedQueue α} (tidy : TidyQueue coder place q)
    {pages : Pages α} (alone : pages.same = true → q.persistedFileNames = [])
    (lastFilled : pages.same = false → pages.last ≠ []) : TidyQueue coder place {q with pages := pages} :=
  ⟨tidy.live,tidy.placed,alone,lastFilled,tidy.noState,tidy.tidy⟩

theorem tidyQueue_updateFirst {coder : BiCoder α} {place : Place} {q : PersistedQueue α}
    (tidy : TidyQueue coder place q) (f : List α → List α) :
    TidyQueue coder place {q with pages := q.pages.updateFirst f} := by
  refine tidyQueue_pages tidy ?_ ?_
  · rw [Pages.updateFirst_same]
    exact tidy.alone
  · intro separate
    rw [Pages.updateFirst_same] at separate
    rw [Pages.updateFirst_last separate]
    exact tidy.lastFilled separate

theorem tidyQueue_pushed {coder : BiCoder α} {place : Place} {q after : PersistedQueue α} {now : Nat} {p : α}
    (tidy : TidyQueue coder place q) (pushed : Pushed coder now p q after) : TidyQueue coder place after := by
  cases pushed with
  | room free =>
    refine tidyQueue_pages tidy ?_ ?_
    · rw [Pages.updateLast_same]
      exact tidy.alone
    · rw [Pages.updateLast_last]
      simp
  | opened full shared => exact tidyQueue_pages tidy (fun same => by cases same) fun _ => by simp
  | @spilled spills contents holds =>
    have digits := (q.nextSeq now).digits_text
    have placed := tidy.placed
    refine ⟨tidy.live,placed,fun same => (by cases same),fun _ => (by simp),?_,?_⟩
    · have noState := tidy.noState
      rw [← placed] at noState ⊢
      exact q.place.filed_noState digits noState
    · change Tidy coder place (q.persistedFileNames ++ [q.place.pagePath (q.nextSeq now).text])
        (q.files.insert (q.place.pagePath (q.nextSeq now).text) contents)
      rw [placed]
      refine tidy.tidy.filed digits holds (tidy.lastFilled spills.1) ?_ (by simp) ?_
      · exact fun other member => List.mem_append_left _ member
      · intro other member
        rcases List.mem_append.mp member with old | new
        · exact .inl old
        · exact .inr (List.mem_singleton.mp new)

theorem tidyQueue_refilled {coder : BiCoder α} {place : Place} {q : PersistedQueue α} {result : Result α Unit}
    (tidy : TidyQueue coder place q) (refilled : Refilled coder q result) : TidyQueue coder place result.2 := by
  cases refilled with
  | kept => exact tidy
  | joined drained unlisted => exact tidyQueue_pages tidy (fun _ => unlisted) fun separate => by cases separate
  | @loaded name rest page drained listed found =>
    have kept := tidy.tidy
    rw [listed] at kept
    have separate : q.pages.same = false := by
      cases same : q.pages.same with
      | false => rfl
      | true => rw [tidy.alone same] at listed; cases listed
    refine ⟨tidy.live,tidy.placed,fun same => (by cases same),fun _ => tidy.lastFilled separate,?_,?_⟩
    · exact fun present => tidy.noState (AList.mem_erase.mp present).2
    · refine kept.taken (fun other member different => ?_) (fun other member => List.mem_cons_of_mem _ member)
      exact (List.mem_cons.mp member).resolve_left different
  | @failed name rest e drained listed missing =>
    have kept := tidy.tidy
    rw [listed] at kept
    refine ⟨tidy.live,tidy.placed,?_,tidy.lastFilled,tidy.noState,?_⟩
    · intro same
      have unlisted := tidy.alone same
      rw [listed] at unlisted
      cases unlisted
    · refine kept.skipped List.mem_cons_self missing (fun other member different => ?_)
        (fun other member => List.mem_cons_of_mem _ member)
      exact (List.mem_cons.mp member).resolve_left different

theorem tidyQueue_called {coder : BiCoder α} {place : Place} {q after : PersistedQueue α} {now : Nat} {op : Op α}
    {reply : Reply α} (tidy : TidyQueue coder place q) (called : Called coder now q op reply after) :
    TidyQueue coder place after := by
  cases called with
  | pushedBack pushed => exact tidyQueue_pushed tidy pushed
  | pushedFront => exact tidyQueue_updateFirst tidy _
  | popped refilled => exact tidyQueue_updateFirst (tidyQueue_refilled tidy refilled) _
  | seen refilled => exact tidyQueue_refilled tidy refilled
  | popFailed refilled => exact tidyQueue_refilled tidy refilled
  | frontFailed refilled => exact tidyQueue_refilled tidy refilled

theorem tidy_loaded {coder : BiCoder α} {place : Place} {maxItemsPerPage : Nat} {files : FileSystem}
    {names : List Text} {result : Result α Unit} (tidy : Tidy coder place names files)
    (noState : place.stateFilePath ∉ files) (loaded : Loaded coder place maxItemsPerPage files names result) :
    place.stateFilePath ∉ result.2.files ∧ Tidy coder place result.2.persistedFileNames result.2.files ∧
      (result.1 = .ok () → TidyQueue coder place result.2) := by
  have front : ∀ {name rest}, names = name :: rest → Tidy coder place rest (files.erase name) := by
    rintro name rest rfl
    refine tidy.taken (fun other member different => ?_) (fun other member => List.mem_cons_of_mem _ member)
    exact (List.mem_cons.mp member).resolve_left different
  have gone : ∀ {name}, place.stateFilePath ∉ files.erase name := fun present => noState (AList.mem_erase.mp present).2
  have middleOf : ∀ {middle : List Text} {last : Text}, ∀ other ∈ middle ++ [last], other ≠ last → other ∈ middle := by
    intro middle last other member different
    exact (List.mem_append.mp member).resolve_right fun isLast => different (List.mem_singleton.mp isLast)
  cases loaded with
  | nothing => exact ⟨noState,tidy,fun _ => ⟨rfl,rfl,fun _ => rfl,fun separate => (by cases separate),noState,tidy⟩⟩
  | one => exact ⟨gone,front rfl,fun _ => ⟨rfl,rfl,fun _ => rfl,fun separate => (by cases separate),gone,front rfl⟩⟩
  | @many name last middle first back found foundBack =>
    have kept := (front rfl).taken (middleOf : ∀ other ∈ middle ++ [last], other ≠ last → other ∈ middle)
      (fun other member => List.mem_append_left _ member)
    have away : place.stateFilePath ∉ (files.erase name).erase last :=
      fun present => gone (AList.mem_erase.mp present).2
    have inFiles := pageAt_mem foundBack
    have lastFile : place.isQueueFile last = true := (front rfl).queueFile (by simp)
    obtain ⟨page,again,filled⟩ := (front rfl).readable last inFiles lastFile
    have same : back = page := Option.some.inj (foundBack.symm.trans again)
    exact ⟨away,kept,fun _ => ⟨rfl,rfl,fun same => (by cases same),fun _ => same ▸ filled,away,kept⟩⟩
  | @noFront name rest e missing =>
    refine ⟨noState,?_,fun ok => by cases ok⟩
    refine tidy.skipped List.mem_cons_self missing (fun other member different => ?_)
      (fun other member => List.mem_cons_of_mem _ member)
    exact (List.mem_cons.mp member).resolve_left different
  | @noBack name last middle first e found missing =>
    refine ⟨gone,?_,fun ok => by cases ok⟩
    exact (front rfl).skipped (by simp) missing middleOf (fun other member => List.mem_append_left _ member)

theorem tidy_closed (now : Nat) {coder : BiCoder α} {place : Place} {front back : Text} {q : PersistedQueue α}
    (tidy : TidyQueue coder place q) (holdsFront : coder.decodePage front = some q.pages.first)
    (holdsBack : coder.decodePage back = some q.pages.last) :
    Tidy coder place (q.closingOrder now) (q.closed now front back).files ∧
      place.stateFilePath ∉ (q.closed now front back).files := by
  have placed := tidy.placed
  subst placed
  constructor
  · have fronted : Tidy coder q.place
        ((if q.pages.first = [] then [] else [q.place.pagePath ['0']]) ++ q.persistedFileNames)
        (if q.pages.first = [] then q else q.filedFront front).files := by
      by_cases drained : q.pages.first = []
      · simpa [drained] using tidy.tidy
      · simp only [if_neg drained]
        refine tidy.tidy.filed digits_zero holdsFront drained ?_ (by simp) ?_
        · exact fun other member => List.mem_append_right _ member
        · intro other member
          rcases List.mem_append.mp member with zero | old
          · exact .inr (List.mem_singleton.mp zero)
          · exact .inl old
    cases same : q.pages.same with
    | true => simpa [closed,closingOrder,same] using fronted
    | false =>
      have place : (if q.pages.first = [] then q else q.filedFront front).place = q.place := by
        split <;> rfl
      simp only [closed,closingOrder,same,filedBack,numbered,place]
      refine fronted.filed (q.nextSeq now).digits_text holdsBack (tidy.lastFilled same) ?_ (by simp) ?_
      · exact fun other member => List.mem_append_left _ member
      · intro other member
        rcases List.mem_append.mp member with old | new
        · exact .inl old
        · exact .inr (by simpa using new)
  · exact closed_noState tidy.noState

theorem tidy_shelved {coder : BiCoder α} {place : Place} {order : List Text} {files : FileSystem}
    (tidy : Tidy coder place order files) (noState : place.stateFilePath ∉ files) :
    TidyPhase coder place (.absent (shelved place order files)) := by
  by_cases unlisted : order = []
  · rw [shelved,if_pos unlisted]
    exact tidy.scanned noState
  · rw [shelved,if_neg unlisted,TidyPhase]
    have found : foundNames place (files.insert place.stateFilePath (unlines order)) = order := by
      rw [foundNames,AList.lookup_insert]
      exact lines_unlines order fun name member => tidy.oneLine member
    rw [found]
    exact tidy.withState _

theorem tidy_step {coder : BiCoder α} (faithful : coder.Faithful) {place : Place} {w : World α} {o : Occurrence α}
    (tidy : TidyPhase coder place w.phase) (onTime : OnTime w o) :
    TidyPhase coder place ((world coder place).step w o).2.phase := by
  obtain ⟨now,event⟩ := o
  obtain ⟨clock,phase⟩ := w
  cases phase with
  | absent files =>
    cases event with
    | construct maxItemsPerPage =>
      have loaded := load_loaded coder now place maxItemsPerPage (files.erase place.stateFilePath) (foundNames place files)
      obtain ⟨noState,kept,live⟩ := tidy_loaded tidy (fun present => (AList.mem_erase.mp present).1 rfl) loaded
      simp only [world,construct_found]
      revert noState kept live
      generalize (listing place maxItemsPerPage (foundNames place files)
        (files.erase place.stateFilePath)).loadFirstAndLastPage (.healthy now) coder = result
      intro noState kept live
      obtain ⟨answer,q⟩ := result
      cases answer with
      | ok => exact live rfl
      | error => exact kept.scanned noState
    | call op => exact tidy
    | destroy => exact tidy
    | crash => exact tidy
  | present inherited q =>
    have tidy : TidyQueue coder place q := tidy
    cases event with
    | construct maxItemsPerPage => exact tidy
    | call op => exact tidyQueue_called tidy (call_called faithful onTime.2 tidy.live op)
    | destroy =>
      obtain ⟨front,back,holdsFront,holdsBack,shut⟩ := shutdown_shelved faithful onTime.2 q
      obtain ⟨kept,noState⟩ := tidy_closed now tidy holdsFront holdsBack
      simp only [world,shut]
      rw [tidy.placed]
      exact tidy_shelved kept noState
    | crash => exact tidy.tidy.scanned tidy.noState

theorem tidy_vacant (coder : BiCoder α) {place : Place} {files : FileSystem} (vacant : Vacant place files) :
    TidyPhase coder place (.absent files) := by
  have nothing : Tidy coder place [] files := by
    refine ⟨?_,?_,fun name member => by cases member⟩
    · intro path present queueFile
      rw [vacant.noPage path present] at queueFile
      cases queueFile
    · intro path present queueFile
      rw [vacant.noPage path present] at queueFile
      cases queueFile
  exact nothing.scanned vacant.noState

theorem tidy_run {coder : BiCoder α} (faithful : coder.Faithful) {place : Place} {files : FileSystem}
    (vacant : Vacant place files) {opening : Nat} {history : List (Occurrence α)}
    (admitted : (world coder place).Admits OnTime ⟨opening,.absent files⟩ history) :
    TidyPhase coder place ((world coder place).run ⟨opening,.absent files⟩ history).2.phase :=
  @run_preserves _ _ _ _ _ (fun w => TidyPhase coder place w.phase) (fun _ _ => tidy_step faithful) _ _
    (tidy_vacant coder vacant) admitted

end Kisscpp
