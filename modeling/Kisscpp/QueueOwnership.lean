import Mathlib.Data.List.Forall2
import Kisscpp.QueueWorld

namespace Kisscpp
open TextLines DecimalText

variable {α : Type}

def Matches (pattern name : Text) : Prop := List.Forall₂ (fun p c => p = '.' ∨ p = c) pattern name

instance (pattern name : Text) : Decidable (Matches pattern name) :=
  inferInstanceAs (Decidable (List.Forall₂ (fun p c => p = '.' ∨ p = c) pattern name))

theorem matches_cons {p c : Char} {pattern name : Text} :
    Matches (p :: pattern) (c :: name) ↔ (p = '.' ∨ p = c) ∧ Matches pattern name := List.forall₂_cons

theorem matches_append {shared first second : Text} (found : Matches (shared ++ first) (shared ++ second)) :
    Matches first second := by
  induction shared with
  | nil => exact found
  | cons c shared ih => exact ih (matches_cons.mp found).2

theorem matches_digits {first second : Text} (digits : Digits first) (found : Matches first second) : first = second := by
  induction found with
  | nil => rfl
  | @cons p c first second same _ ih =>
    have plain : p ≠ '.' := by
      rintro rfl
      exact absurd (digits '.' List.mem_cons_self) (by decide)
    rw [same.resolve_left plain,ih digits.tail]

theorem regex_underscore {pattern text : Text} (found : queueFileRegex pattern text = true) : '_' ∈ text := by
  induction pattern generalizing text with
  | nil =>
    cases text with
    | nil => cases found
    | cons c rest =>
      by_cases under : c = '_'
      · rw [under]
        exact List.mem_cons_self
      · simp [queueFileRegex,under] at found
  | cons p pattern ih =>
    cases text with
    | nil => cases found
    | cons c rest =>
      simp only [queueFileRegex,Bool.and_eq_true] at found
      exact List.mem_cons_of_mem _ (ih found.2)

-- A file name ends in its last underscore and what follows, so the pattern has
-- to match exactly what stands before it.
theorem regex_matches {pattern name rest : Text} (plain : '_' ∉ rest) :
    queueFileRegex pattern (name ++ '_' :: rest) = true ↔ Matches pattern name ∧ rest.all Char.isDigit = true := by
  induction pattern generalizing name with
  | nil =>
    cases name with
    | nil => simp [queueFileRegex,Matches]
    | cons c name =>
      refine iff_of_false ?_ fun both => by cases both.1
      intro found
      by_cases under : c = '_'
      · subst under
        simp only [List.cons_append,queueFileRegex,List.all_eq_true] at found
        exact absurd (found '_' (by simp)) (by decide)
      · simp [queueFileRegex,under] at found
  | cons p pattern ih =>
    cases name with
    | nil =>
      refine iff_of_false ?_ fun both => by cases both.1
      intro found
      simp only [List.nil_append,queueFileRegex,Bool.and_eq_true] at found
      exact plain (regex_underscore found.2)
    | cons c name =>
      rw [List.cons_append,queueFileRegex,Bool.and_eq_true,ih,matches_cons]
      simp [and_assoc]

theorem digits_plain {seq : Text} (digits : Digits seq) : '_' ∉ seq :=
  fun member => absurd (digits '_' member) (by decide)

theorem state_plain : '_' ∉ ['S','T','A','T','E'] := by decide

theorem before_underscore {one two first second : Text} (plain : '_' ∉ first) (plainOther : '_' ∉ second)
    (equal : one ++ '_' :: first = two ++ '_' :: second) : one = two := by
  rcases List.append_eq_append_iff.mp equal with ⟨between,longer,rest⟩ | ⟨between,longer,rest⟩
  · cases between with
    | nil => rw [longer,List.append_nil]
    | cons c between =>
      have inside := (List.cons.inj rest).2
      exact absurd (by rw [inside]; simp) plain
  · cases between with
    | nil => rw [longer,List.append_nil]
    | cons c between =>
      have inside := (List.cons.inj rest).2
      exact absurd (by rw [inside]; simp) plainOther

namespace Place

def PageFile (p : Place) (path : Text) : Prop := ∃ seq, Digits seq ∧ path = p.pagePath seq
def Owns (p : Place) (path : Text) : Prop := p.PageFile path ∨ path = p.stateFilePath

theorem PageFile.oneLine {p : Place} {path : Text} (page : p.PageFile path) : OneLine path := by
  obtain ⟨seq,digits,rfl⟩ := page
  exact p.oneLine_pagePath digits

theorem PageFile.ne_state {p : Place} {path : Text} (page : p.PageFile path) : path ≠ p.stateFilePath := by
  obtain ⟨seq,digits,rfl⟩ := page
  exact p.pagePath_ne_state digits

section
variable {p other : Place} (same : p.workingDirectory = other.workingDirectory)
include same

theorem path_shared (fileName : Text) : other.path fileName = p.path fileName := by
  rw [path,path,same]

theorem isQueueFile_other {seq : Text} (digits : Digits seq) :
    p.isQueueFile (other.pagePath seq) = true ↔ Matches p.queueName.text other.queueName.text := by
  have flat := other.flat_name (show '/' ∉ seq from fun member => (isDigit_plain (digits _ member)).1 rfl)
  rw [pagePath,path_shared same,isQueueFile_path p flat,regex_matches (digits_plain digits)]
  exact and_iff_left (List.all_eq_true.mpr digits)

theorem isQueueFile_other_state : p.isQueueFile other.stateFilePath = false := by
  have flat := other.flat_name (show '/' ∉ ['S','T','A','T','E'] by decide)
  rw [stateFilePath,path_shared same,isQueueFile_path p flat,Bool.eq_false_iff]
  intro found
  exact absurd ((regex_matches state_plain).mp found).2 (by decide)

theorem owns_apart (different : p.queueName.text ≠ other.queueName.text) {path : Text} (own : p.Owns path) :
    ¬ other.Owns path := by
  have apart : ∀ {first second : Text}, '_' ∉ first → '_' ∉ second →
      p.path (p.queueName.text ++ '_' :: first) ≠ other.path (other.queueName.text ++ '_' :: second) := by
    intro first second plain plainOther equal
    rw [path_shared same] at equal
    exact different (before_underscore plain plainOther (List.append_cancel_left equal))
  rintro (⟨seqOther,digitsOther,rfl⟩ | rfl)
  · rcases own with ⟨seq,digits,equal⟩ | equal
    · exact apart (digits_plain digits) (digits_plain digitsOther) equal.symm
    · exact apart state_plain (digits_plain digitsOther) equal.symm
  · rcases own with ⟨seq,digits,equal⟩ | equal
    · exact apart (digits_plain digits) state_plain equal.symm
    · exact apart state_plain state_plain equal.symm

theorem owns_unscanned (unmatched : ¬ Matches p.queueName.text other.queueName.text) {path : Text}
    (foreign : other.Owns path) : p.isQueueFile path = false := by
  rcases foreign with ⟨seq,digits,rfl⟩ | rfl
  · rw [Bool.eq_false_iff]
    exact fun found => unmatched ((isQueueFile_other same digits).mp found)
  · exact isQueueFile_other_state same

end
end Place

-- What a queue's own steps keep, from the directory they began with: it lists
-- page files of its name only, its state file too, and no other file changes.
structure Minds (p : Place) (before : FileSystem) (names : List Text) (files : FileSystem) : Prop where
  named : ∀ name ∈ names, p.PageFile name
  stated : ∀ contents, files.lookup p.stateFilePath = some contents → ∀ line ∈ lines contents, p.PageFile line
  kept : ∀ path, ¬ p.Owns path → files.lookup path = before.lookup path

namespace Minds
variable {p : Place} {before files : FileSystem} {names rest : List Text} {path : Text}

theorem relisted (minds : Minds p before names files) (named : ∀ name ∈ rest, p.PageFile name) :
    Minds p before rest files := ⟨named,minds.stated,minds.kept⟩

theorem removed (minds : Minds p before names files) (own : p.Owns path) : Minds p before names (files.erase path) := by
  refine ⟨minds.named,?_,?_⟩
  · intro contents present
    by_cases state : p.stateFilePath = path
    · rw [state,AList.lookup_erase] at present
      cases present
    · rw [AList.lookup_erase_ne state] at present
      exact minds.stated contents present
  · intro other foreign
    have different : other ≠ path := fun equal => foreign (equal ▸ own)
    rw [AList.lookup_erase_ne different]
    exact minds.kept other foreign

theorem filed (minds : Minds p before names files) (page : p.PageFile path) (contents : Text) :
    Minds p before names (files.insert path contents) := by
  refine ⟨minds.named,?_,?_⟩
  · intro text present
    rw [AList.lookup_insert_ne page.ne_state.symm] at present
    exact minds.stated text present
  · intro other foreign
    have different : other ≠ path := fun equal => foreign (equal ▸ .inl page)
    rw [AList.lookup_insert_ne different]
    exact minds.kept other foreign

theorem restated (minds : Minds p before names files) {contents : Text}
    (own : ∀ line ∈ lines contents, p.PageFile line) : Minds p before names (files.insert p.stateFilePath contents) := by
  refine ⟨minds.named,?_,?_⟩
  · intro text present
    rw [AList.lookup_insert] at present
    cases present
    exact own
  · intro other foreign
    have different : other ≠ p.stateFilePath := fun equal => foreign (.inr equal)
    rw [AList.lookup_insert_ne different]
    exact minds.kept other foreign

theorem already (minds : Minds p before names files) (foreign : ¬ p.Owns path) (present : path ∈ files) : path ∈ before := by
  rw [← AList.lookup_isSome,← minds.kept path foreign]
  exact AList.lookup_isSome.mpr present

end Minds

structure Tends (p : Place) (before : FileSystem) (q : PersistedQueue α) : Prop where
  place : q.place = p
  minds : Minds p before q.persistedFileNames q.files

namespace PersistedQueue
variable {p : Place} {before : FileSystem} {q : PersistedQueue α} (io : Io) (coder : BiCoder α)

theorem tends_pages (tends : Tends p before q) (pages : Pages α) : Tends p before {q with pages := pages} :=
  ⟨tends.place,tends.minds⟩

theorem tends_seqNumber (tends : Tends p before q) : Tends p before (q.seqNumber io).2 := by
  rw [seqNumber_eq]
  exact ⟨tends.place,tends.minds⟩

theorem digits_seqNumber (q : PersistedQueue α) : Digits (q.seqNumber io).1 := by
  rw [seqNumber_eq]
  exact (q.nextSeq io.now).digits_text

theorem tends_persistToFile (tends : Tends p before q) {seq : Text} (digits : Digits seq) (page : List α) :
    Tends p before (q.persistToFile io coder seq page).2 := by
  have own : p.PageFile (q.place.pagePath seq) := ⟨seq,digits,by rw [tends.place]⟩
  have listed : ∀ names, (∀ name ∈ names, name ∈ q.persistedFileNames ∨ name = q.place.pagePath seq) →
      ∀ contents, Minds p before names (q.files.insert (q.place.pagePath seq) contents) := by
    intro names within contents
    refine (tends.minds.filed own contents).relisted ?_
    intro name member
    rcases within name member with old | rfl
    · exact tends.minds.named name old
    · exact own
  unfold persistToFile
  by_cases opens : io.opens (q.place.pagePath seq) = true
  · rw [if_pos opens]
    by_cases numbered : seq ≠ ['0']
    · have last := listed (q.persistedFileNames ++ [q.place.pagePath seq]) (by simp)
      rw [if_pos numbered]
      cases coder.encodePage page with
      | none => exact ⟨tends.place,last []⟩
      | some contents => exact ⟨tends.place,last contents⟩
    · have first := listed (q.place.pagePath seq :: q.persistedFileNames) (by simp [or_comm])
      rw [if_neg numbered]
      cases coder.encodePage page with
      | none => exact ⟨tends.place,first []⟩
      | some contents => exact ⟨tends.place,first contents⟩
  · rw [if_neg opens]
    exact tends

theorem tends_loadFromFile (tends : Tends p before q) {path : Text} (own : p.PageFile path) :
    Tends p before (q.loadFromFile io coder path).2 := by
  unfold loadFromFile
  split
  · exact tends
  · split
    · split
      · exact tends
      · exact ⟨tends.place,tends.minds.removed (.inl own)⟩
    · exact tends

theorem tends_loadFrontFile (tends : Tends p before q) : Tends p before (q.loadFrontFile io coder).2 := by
  unfold loadFrontFile
  cases listed : q.persistedFileNames with
  | nil => exact tends
  | cons filename rest =>
    have named := tends.minds.named
    rw [listed] at named
    have shorter : Tends p before {q with persistedFileNames := rest} :=
      ⟨tends.place,tends.minds.relisted fun name member => named name (List.mem_cons_of_mem _ member)⟩
    exact tends_loadFromFile io coder shorter (named filename List.mem_cons_self)

theorem tends_loadBackFile (tends : Tends p before q) : Tends p before (q.loadBackFile io coder).2 := by
  unfold loadBackFile
  cases listed : q.persistedFileNames.getLast? with
  | none => exact tends
  | some filename =>
    have shorter : Tends p before {q with persistedFileNames := q.persistedFileNames.dropLast} :=
      ⟨tends.place,tends.minds.relisted fun name member => tends.minds.named name ((List.dropLast_subset _) member)⟩
    exact tends_loadFromFile io coder shorter (tends.minds.named filename (List.mem_of_getLast? listed))

theorem tends_after {β : Type} {result : Result α β} {answer : Except QueueError β} {after : PersistedQueue α}
    (done : result = (answer,after)) (tends : Tends p before result.2) : Tends p before after := by
  rw [done] at tends
  exact tends

theorem tends_pushBack (tends : Tends p before q) (item : α) : Tends p before (q.pushBack io coder item).2 := by
  have filed := tends_persistToFile io coder (tends_seqNumber io tends) (digits_seqNumber io q)
    (q.seqNumber io).2.pages.last
  unfold pushBack
  split
  · exact tends
  · split
    · split
      · exact tends_pages tends _
      · dsimp only
        split
        next failed => exact tends_after failed filed
        next done => exact tends_pages (tends_after done filed) _
    · exact tends_pages tends _

theorem tends_pushFront (tends : Tends p before q) (item : α) : Tends p before (q.pushFront item).2 := by
  unfold pushFront
  split
  · exact tends
  · exact tends_pages tends _

theorem tends_refillFirstPage (tends : Tends p before q) : Tends p before (q.refillFirstPage io coder).2 := by
  have loaded := tends_loadFrontFile io coder tends
  unfold refillFirstPage
  split
  · split
    · exact tends_pages tends _
    · split
      next failed => exact tends_after failed loaded
      next done => exact tends_pages (tends_after done loaded) _
  · exact tends

theorem tends_popFront (tends : Tends p before q) : Tends p before (q.popFront io coder).2 := by
  have refilled := tends_refillFirstPage io coder tends
  unfold popFront
  split
  · exact tends
  · split
    next failed => exact tends_after failed refilled
    next done => exact tends_pages (tends_after done refilled) _

theorem tends_front (tends : Tends p before q) : Tends p before (q.front io coder).2 := by
  have refilled := tends_refillFirstPage io coder tends
  unfold front
  split
  next failed => exact tends_after failed refilled
  next done => exact tends_after done refilled

theorem tends_call (tends : Tends p before q) (op : Op α) : Tends p before (q.call io coder op).2 := by
  cases op with
  | pushBack item => exact tends_pushBack io coder tends item
  | pushFront item => exact tends_pushFront tends item
  | popFront => exact tends_popFront io coder tends
  | front => exact tends_front io coder tends

theorem tends_writeFirstAndLastPage (tends : Tends p before q) :
    Tends p before (q.writeFirstAndLastPage io coder).2 := by
  have fronted : Tends p before
      (if 0 < q.pages.first.length then q.persistToFile io coder ['0'] q.pages.first else (.ok (),q)).2 := by
    split
    · exact tends_persistToFile io coder tends digits_zero q.pages.first
    · exact tends
  unfold writeFirstAndLastPage
  dsimp only
  split
  next failed => exact tends_after failed fronted
  next after done =>
    have wrote := tends_after done fronted
    split
    · exact wrote
    · exact tends_persistToFile io coder (tends_seqNumber io wrote) (digits_seqNumber io after) _

theorem tends_writeStateFile (tends : Tends p before q) : Tends p before (q.writeStateFile io) := by
  have oneLine : ∀ name ∈ q.persistedFileNames, OneLine name := fun name member => (tends.minds.named name member).oneLine
  have emptied : Minds p before [] q.files := tends.minds.relisted fun name member => by cases member
  unfold writeStateFile
  split
  · refine ⟨tends.place,?_⟩
    change Minds p before [] (if io.opens q.place.stateFilePath then
      q.files.insert q.place.stateFilePath (unlines q.persistedFileNames) else q.files)
    split
    · rw [tends.place]
      refine emptied.restated ?_
      rw [lines_unlines _ oneLine]
      exact tends.minds.named
    · exact emptied
  · exact tends

theorem tends_shutdown (tends : Tends p before q) : Tends p before (q.shutdown io coder).2 := by
  have closing : Tends p before {q with shutDown := true} := ⟨tends.place,tends.minds⟩
  have wrote := tends_writeFirstAndLastPage io coder closing
  unfold shutdown
  split
  next failed => exact tends_after failed wrote
  next done => exact tends_writeStateFile io (tends_after done wrote)

theorem tends_loadFirstAndLastPage (tends : Tends p before q) :
    Tends p before (q.loadFirstAndLastPage io coder).2 := by
  have fronted := tends_loadFrontFile io coder tends
  unfold loadFirstAndLastPage
  split
  · exact tends_pages tends _
  · split
    next failed => exact tends_after failed fronted
    next done => exact tends_pages (tends_after done fronted) _
  · split
    next failed => exact tends_after failed fronted
    next first after done =>
      have backed := tends_loadBackFile io coder (tends_after done fronted)
      split
      next failed => exact tends_after failed backed
      next doneBoth => exact tends_pages (tends_after doneBoth backed) _

end PersistedQueue

structure Tended (p : Place) (files : FileSystem) : Prop where
  scanned : ∀ path ∈ files, p.isQueueFile path = true → p.PageFile path
  stated : ∀ contents, files.lookup p.stateFilePath = some contents → ∀ line ∈ lines contents, p.PageFile line

namespace Tended
variable {p other : Place} {before files : FileSystem} {names : List Text}

theorem vacant (vacant : Vacant p files) : Tended p files := by
  refine ⟨?_,?_⟩
  · intro path present queueFile
    rw [vacant.noPage path present] at queueFile
    cases queueFile
  · intro contents present
    rw [AList.lookup_eq_none.mpr vacant.noState] at present
    cases present

theorem found (tended : Tended p files) : ∀ name ∈ foundNames p files, p.PageFile name := by
  intro name member
  unfold foundNames at member
  cases present : files.lookup p.stateFilePath with
  | some contents =>
    rw [present] at member
    exact tended.stated contents present name member
  | none =>
    rw [present] at member
    obtain ⟨inDirectory,queueFile⟩ := List.mem_filter.mp ((List.mem_insertionSort _).mp member)
    exact tended.scanned name (AList.mem_keys.mpr inDirectory) queueFile

theorem minds (tended : Tended p files) (named : ∀ name ∈ names, p.PageFile name) : Minds p files names files :=
  ⟨named,tended.stated,fun _ _ => rfl⟩

theorem kept (tended : Tended p before) (minds : Minds p before names files) : Tended p files := by
  refine ⟨?_,minds.stated⟩
  intro path present queueFile
  by_cases own : p.Owns path
  · refine own.resolve_right ?_
    rintro rfl
    rw [p.isQueueFile_state] at queueFile
    cases queueFile
  · exact tended.scanned path (minds.already own present) queueFile

theorem elsewhere (same : p.workingDirectory = other.workingDirectory)
    (different : p.queueName.text ≠ other.queueName.text) (unmatched : ¬ Matches p.queueName.text other.queueName.text)
    (tended : Tended p before) (minds : Minds other before names files) : Tended p files := by
  refine ⟨?_,?_⟩
  · intro path present queueFile
    by_cases foreign : other.Owns path
    · rw [p.owns_unscanned same unmatched foreign] at queueFile
      cases queueFile
    · exact tended.scanned path (minds.already foreign present) queueFile
  · intro contents present
    rw [minds.kept _ (Place.owns_apart same different (.inr rfl))] at present
    exact tended.stated contents present

end Tended

theorem tends_construct (io : Io) (coder : BiCoder α) {p : Place} {files : FileSystem} (tended : Tended p files)
    (maxItemsPerPage : Nat) : Tends p files (PersistedQueue.construct io coder p maxItemsPerPage files).2 := by
  rw [construct_found]
  exact PersistedQueue.tends_loadFirstAndLastPage io coder
    ⟨rfl,(tended.minds tended.found).removed (.inr rfl)⟩

end Kisscpp
