import Kisscpp.QueueWorld

namespace Kisscpp
open TextLines DecimalText Stepping PersistedQueue

variable {α : Type}

def stateNames (place : Place) (files : FileSystem) : List Text :=
  match files.lookup place.stateFilePath with
  | some contents => lines contents
  | none => []

def storedItems (coder : BiCoder α) (place : Place) (files : FileSystem) : Option (List α) :=
  ((stateNames place files).mapM (pageAt coder files)).map List.flatten

def NoStray (place : Place) (files : FileSystem) : Prop :=
  ∀ path ∈ files, place.isQueueFile path = true → path ∈ stateNames place files

theorem stateNames_absent {place : Place} {files : FileSystem} (noState : place.stateFilePath ∉ files) :
    stateNames place files = [] := by
  rw [stateNames,AList.lookup_eq_none.mpr noState]

theorem stateNames_shelved {place : Place} {order : List Text} {files : FileSystem} (listed : order ≠ [])
    (single : ∀ name ∈ order, OneLine name) : stateNames place (shelved place order files) = order := by
  rw [shelved,if_neg listed,stateNames,AList.lookup_insert]
  exact lines_unlines order single

-- What calls can still do to an object that was shut down: nothing but let
-- front() put lastPage in the place of an empty firstPage.
structure ShutFrom (once q : PersistedQueue α) : Prop where
  down : q.shutDown = true
  placed : q.place = once.place
  unlisted : q.persistedFileNames = []
  files : q.files = once.files
  second : q.lastSeqNum = once.lastSeqNum
  counter : q.seqNumCount = once.seqNumCount
  pages : q.pages = once.pages ∨ once.pages.first = [] ∧ q.pages = .shared once.pages.last

theorem ShutFrom.pages_shared {once q : PersistedQueue α} (since : ShutFrom once q) (shared : once.pages.same = true) :
    q.pages = once.pages := by
  rcases since.pages with same | ⟨_,same⟩
  · exact same
  · rw [same]
    cases shape : once.pages with
    | shared page => rfl
    | separate firstPage lastPage =>
      rw [shape] at shared
      cases shared

theorem shutFrom_front {once q : PersistedQueue α} (shut : ShutFrom once q) (now : Nat) (coder : BiCoder α) :
    ShutFrom once (q.front (.healthy now) coder).2 := by
  have refilled := refillFirstPage_refilled coder now q
  have unlisted := shut.unlisted
  have outcome : (q.front (.healthy now) coder).2 = (q.refillFirstPage (.healthy now) coder).2 := by
    unfold front
    split <;> simp [*]
  rw [outcome]
  revert refilled
  generalize q.refillFirstPage (.healthy now) coder = result
  intro refilled
  cases refilled with
  | kept => exact shut
  | joined drained =>
    refine ⟨shut.down,shut.placed,unlisted,shut.files,shut.second,shut.counter,?_⟩
    rcases shut.pages with same | ⟨empty,same⟩
    · rw [same] at drained ⊢
      exact .inr ⟨drained,rfl⟩
    · rw [same]
      exact .inr ⟨empty,rfl⟩
  | loaded drained listed found => rw [unlisted] at listed; cases listed
  | failed e drained listed missing => rw [unlisted] at listed; cases listed

theorem shutFrom_call {once q : PersistedQueue α} (shut : ShutFrom once q) (now : Nat) (coder : BiCoder α) (op : Op α) :
    ShutFrom once (q.call (.healthy now) coder op).2 := by
  have down := shut.down
  cases op with
  | pushBack p => simpa [call,pushBack,down] using shut
  | pushFront p => simpa [call,pushFront,down] using shut
  | popFront => simpa [call,popFront,down] using shut
  | front => exact shutFrom_front shut now coder

theorem shutFrom_run {once q : PersistedQueue α} (clock : Nat) (shut : ShutFrom once q) (coder : BiCoder α)
    (between : List (Call α)) : ShutFrom once ((session coder).run ⟨clock,q⟩ between).2.queue := by
  induction between generalizing clock q with
  | nil => exact shut
  | cons c between ih => exact ih _ (shutFrom_call shut c.now coder c.op)

theorem closed_pages (now : Nat) (front back : Text) (q : PersistedQueue α) :
    (q.closed now front back).pages = q.pages := by
  unfold closed
  by_cases drained : q.pages.first = [] <;> cases same : q.pages.same <;>
    simp [drained,filedFront,filedBack,numbered]

theorem closed_numbered {now : Nat} {front back : Text} {q : PersistedQueue α} (separate : q.pages.same = false) :
    (q.closed now front back).lastSeqNum = now ∧ (q.closed now front back).seqNumCount = (q.nextSeq now).counter := by
  unfold closed
  by_cases drained : q.pages.first = [] <;>
    simp [drained,separate,filedFront,filedBack,numbered,nextSeq]

theorem mem_closed_back {now : Nat} {front back : Text} {q : PersistedQueue α} (separate : q.pages.same = false) :
    q.place.pagePath (q.nextSeq now).text ∈ (q.closed now front back).files := by
  unfold closed
  by_cases drained : q.pages.first = [] <;> simp [drained,separate,filedFront,filedBack,numbered]

theorem mem_closed_of_mem {now : Nat} {front back : Text} {q : PersistedQueue α} {path : Text}
    (present : path ∈ q.files) : path ∈ (q.closed now front back).files := by
  unfold closed
  by_cases drained : q.pages.first = [] <;> cases same : q.pages.same <;>
    simp [drained,filedFront,filedBack,numbered,present]

theorem mem_shelved {place : Place} {order : List Text} {files : FileSystem} {path : Text}
    (different : path ≠ place.stateFilePath) : path ∈ shelved place order files ↔ path ∈ files := by
  unfold shelved
  split
  · rfl
  · simp [different]

theorem succ_mod_ne {n m : Nat} (large : 1 < m) : (n + 1) % m ≠ n := by
  intro same
  have below : n < m := same ▸ Nat.mod_lt _ (by omega)
  rcases Nat.lt_or_eq_of_le (Nat.succ_le_of_lt below) with inside | edge
  · rw [Nat.mod_eq_of_lt inside] at same
    omega
  · rw [← edge,Nat.mod_self] at same
    omega

theorem nextSeq_again {first second : Nat} {q later : PersistedQueue α} (seconds : later.lastSeqNum = first)
    (counters : later.seqNumCount = (q.nextSeq first).counter) : later.nextSeq second ≠ q.nextSeq first := by
  intro same
  have sameSecond : second = first := congrArg SeqNumber.second same
  have sameCounter := congrArg SeqNumber.counter same
  rw [← counters] at sameCounter
  change (if later.lastSeqNum = second then (later.seqNumCount + 1) % counterModulus else 0) = later.seqNumCount
    at sameCounter
  rw [if_pos (seconds.trans sameSecond.symm)] at sameCounter
  exact succ_mod_ne (by decide) sameCounter

theorem order_again {coder : BiCoder α} {place : Place} {q once later : PersistedQueue α} (second : Nat)
    (tidy : TidyQueue coder place q) (separate : q.pages.same = false) (pages : once.pages = q.pages)
    (placed : once.place = place) (since : ShutFrom once later) :
    later.closingOrder second ≠ [] ∧ ∀ name ∈ later.closingOrder second,
      name = place.pagePath ['0'] ∨ name = place.pagePath (later.nextSeq second).text := by
  unfold closingOrder
  rw [since.unlisted,since.placed,placed]
  rcases since.pages with same | ⟨_,same⟩
  · rw [same,pages]
    constructor
    · simp [separate]
    · intro name member
      by_cases drained : q.pages.first = [] <;> simp [drained,separate] at member <;> tauto
  · rw [same,pages]
    have filled := tidy.lastFilled separate
    constructor
    · simp [filled]
    · intro name member
      simp [filled] at member
      exact .inl member

-- The first shutdown of separate pages files lastPage under a number that the
-- second one no longer lists.
theorem separate_strays {coder : BiCoder α} {first second : Nat} (ten : TenDigits first) (tenAgain : TenDigits second)
    {place : Place} {q once later : PersistedQueue α} (tidy : TidyQueue coder place q) (separate : q.pages.same = false)
    {front back : Text}
    (shut : once = {q.closed first front back with
      shutDown := true,persistedFileNames := [],
      files := shelved q.place (q.closingOrder first) (q.closed first front back).files})
    (since : ShutFrom once later) {front' back' : Text} :
    ¬ NoStray place (shelved later.place (later.closingOrder second) (later.closed second front' back').files) := by
  have placed : once.place = place := by
    rw [shut]
    exact (q.closed_place first front back).trans tidy.placed
  have laterPlaced : later.place = place := since.placed.trans placed
  have digits := (q.nextSeq first).digits_text
  have pages : once.pages = q.pages := by
    rw [shut]
    exact closed_pages first front back q
  have numbers : once.lastSeqNum = first ∧ once.seqNumCount = (q.nextSeq first).counter := by
    rw [shut]
    exact closed_numbered separate
  have filed : place.pagePath (q.nextSeq first).text ∈ later.files := by
    have different := place.pagePath_ne_state digits
    rw [← tidy.placed] at different ⊢
    rw [since.files,shut]
    exact (mem_shelved different).mpr (mem_closed_back separate)
  have isNew : (q.nextSeq first).text ≠ ['0'] := SeqNumber.text_ne_zero (s := q.nextSeq first) ten
  have order := order_again second tidy separate pages placed since
  have fresh : later.nextSeq second ≠ q.nextSeq first :=
    nextSeq_again (since.second.trans numbers.1) (since.counter.trans numbers.2)
  intro noStray
  have single : ∀ name ∈ later.closingOrder second, OneLine name := by
    intro name member
    rcases order.2 name member with rfl | rfl
    · exact place.oneLine_pagePath digits_zero
    · exact place.oneLine_pagePath (later.nextSeq second).digits_text
  rw [laterPlaced] at noStray
  have present : place.pagePath (q.nextSeq first).text ∈
      shelved place (later.closingOrder second) (later.closed second front' back').files :=
    (mem_shelved (place.pagePath_ne_state digits)).mpr (mem_closed_of_mem filed)
  have listed := noStray _ present (place.isQueueFile_pagePath digits)
  rw [stateNames_shelved order.1 single] at listed
  rcases order.2 _ listed with zero | again
  · exact isNew (place.pagePath_injective zero)
  · have same := SeqNumber.text_injective (s := q.nextSeq first) (t := later.nextSeq second) ten tenAgain
      (place.pagePath_injective again)
    exact fresh same.symm

theorem shared_order {now : Nat} {q : PersistedQueue α} (unlisted : q.persistedFileNames = [])
    (shared : q.pages.same = true) :
    q.closingOrder now = if q.pages.first = [] then [] else [q.place.pagePath ['0']] := by
  simp [closingOrder,unlisted,shared]

theorem shared_names (now : Nat) (front back : Text) {q : PersistedQueue α} (unlisted : q.persistedFileNames = [])
    (shared : q.pages.same = true) (noState : q.pages.first = [] → q.place.stateFilePath ∉ q.files) :
    stateNames q.place (shelved q.place (q.closingOrder now) (q.closed now front back).files) =
      q.closingOrder now := by
  rw [shared_order unlisted shared]
  by_cases drained : q.pages.first = []
  · simp [shelved,drained,closed,shared,stateNames_absent,noState drained]
  · rw [if_neg drained]
    refine stateNames_shelved (by simp) ?_
    intro name member
    exact named_oneLine (.inl (List.mem_singleton.mp member))

theorem shared_items {coder : BiCoder α} (now : Nat) {front : Text} (back : Text) {q : PersistedQueue α}
    (unlisted : q.persistedFileNames = []) (shared : q.pages.same = true) (noState : q.pages.first = [] → q.place.stateFilePath ∉ q.files)
    (holds : coder.decodePage front = some q.pages.first) :
    storedItems coder q.place (shelved q.place (q.closingOrder now) (q.closed now front back).files) =
      some q.pages.first := by
  have zero : q.place.pagePath ['0'] ≠ q.place.stateFilePath := named_ne_state (.inl rfl)
  rw [storedItems,shared_names now front back unlisted shared noState,shared_order unlisted shared]
  by_cases drained : q.pages.first = []
  · simp [drained]
  · have page : pageAt coder (shelved q.place [q.place.pagePath ['0']] (q.closed now front back).files)
        (q.place.pagePath ['0']) = some q.pages.first := by
      rw [shelved,if_neg (by simp),pageAt_insert_ne zero]
      simp only [closed,if_neg drained,shared,filedFront,if_true]
      exact pageAt_insert.trans holds
    simp [drained,page]

theorem shared_files {now : Nat} {front back : Text} {q : PersistedQueue α} (unlisted : q.persistedFileNames = [])
    (shared : q.pages.same = true) {path : Text} (queueFile : q.place.isQueueFile path = true)
    (present : path ∈ shelved q.place (q.closingOrder now) (q.closed now front back).files) :
    path ∈ q.files ∨ path ∈ q.closingOrder now := by
  have different : path ≠ q.place.stateFilePath := by
    rintro rfl
    rw [q.place.isQueueFile_state] at queueFile
    cases queueFile
  have inClosed := (mem_shelved different).mp present
  rw [shared_order unlisted shared]
  by_cases drained : q.pages.first = []
  · simp only [closed,if_pos drained,shared,if_true] at inClosed
    exact .inl inClosed
  · simp only [closed,if_neg drained,shared,filedFront,if_true] at inClosed
    rcases (AList.mem_insert _).mp inClosed with zero | old
    · rw [if_neg drained,zero]
      exact .inr (List.mem_singleton_self _)
    · exact .inl old

theorem shared_again {coder : BiCoder α} {first : Nat} (second : Nat) {place : Place} {q once later : PersistedQueue α}
    (tidy : TidyQueue coder place q) (shared : q.pages.same = true) {front back : Text}
    (shut : once = {q.closed first front back with
      shutDown := true,persistedFileNames := [],
      files := shelved q.place (q.closingOrder first) (q.closed first front back).files})
    (since : ShutFrom once later) :
    later.place = place ∧ later.pages = q.pages ∧
      (later.pages.first = [] → later.place.stateFilePath ∉ later.files) ∧
      later.closingOrder second = q.closingOrder first := by
  have unlisted := tidy.alone shared
  have placed : later.place = place := by
    rw [since.placed,shut]
    exact (q.closed_place first front back).trans tidy.placed
  have oncePages : once.pages = q.pages := by
    rw [shut]
    exact closed_pages first front back q
  have pages : later.pages = q.pages := by
    rw [since.pages_shared (by rw [oncePages,shared]),oncePages]
  refine ⟨placed,pages,?_,?_⟩
  · intro drained
    rw [pages] at drained
    have order : q.closingOrder first = [] := by rw [shared_order unlisted shared,if_pos drained]
    rw [since.files,shut,placed]
    simp only [order,shelved,if_true,closed,if_pos drained,shared]
    exact tidy.noState
  · rw [shared_order since.unlisted (by rw [pages,shared]),shared_order unlisted shared,pages,placed,tidy.placed]

theorem shared_keeps {coder : BiCoder α} {first second : Nat} {place : Place} {q once later : PersistedQueue α}
    (tidy : TidyQueue coder place q) (shared : q.pages.same = true) {front back : Text}
    (shut : once = {q.closed first front back with
      shutDown := true,persistedFileNames := [],
      files := shelved q.place (q.closingOrder first) (q.closed first front back).files})
    (since : ShutFrom once later) (holds : coder.decodePage front = some q.pages.first) {front' back' : Text}
    (holdsAgain : coder.decodePage front' = some later.pages.first) :
    let twice := shelved later.place (later.closingOrder second) (later.closed second front' back').files
    storedItems coder place twice = storedItems coder place once.files ∧ NoStray place twice := by
  have unlisted := tidy.alone shared
  obtain ⟨placed,pages,noStateLater,orders⟩ := shared_again second tidy shared shut since
  have laterShared : later.pages.same = true := by rw [pages,shared]
  have onceFiles : once.files = shelved q.place (q.closingOrder first) (q.closed first front back).files := by rw [shut]
  have names := shared_names second front' back' since.unlisted laterShared noStateLater
  have before := shared_items first back unlisted shared (fun _ => tidy.placed ▸ tidy.noState) holds
  have after := shared_items second back' since.unlisted laterShared noStateLater holdsAgain
  rw [← onceFiles,tidy.placed] at before
  rw [placed] at names after ⊢
  constructor
  · rw [before,after,pages]
  · intro path present queueFile
    have inFirst : path ∈ later.files ∨ path ∈ later.closingOrder second := by
      refine @shared_files _ second front' back' _ since.unlisted laterShared _ ?_ ?_
      · rwa [placed]
      · rwa [placed]
    rw [names,orders]
    rcases inFirst with old | listed
    · rw [since.files,onceFiles] at old
      rcases shared_files unlisted shared (by rwa [tidy.placed]) old with older | listed
      · have member := tidy.tidy.listed path older queueFile
        rw [unlisted] at member
        cases member
      · exact listed
    · rwa [orders] at listed

theorem shutdown_twice_keeps {coder : BiCoder α} (faithful : coder.Faithful) {place : Place} {files : FileSystem}
    (vacant : Vacant place files) (opening : Nat) (history : List (Occurrence α))
    (admitted : (world coder place).Admits OnTime ⟨opening,.absent files⟩ history) {clock : Nat}
    {inherited : List Text} {q : PersistedQueue α}
    (reached : ((world coder place).run ⟨opening,.absent files⟩ history).2 = ⟨clock,.present inherited q⟩)
    {first : Nat} (ten : TenDigits first) :
    ∃ once, q.shutdown (.healthy first) coder = (.ok (),once) ∧
      ∀ between, ∀ second, TenDigits second →
        ∃ twice, ((session coder).run ⟨first,once⟩ between).2.queue.shutdown (.healthy second) coder = (.ok (),twice) ∧
          ((storedItems coder place twice.files = storedItems coder place once.files ∧ NoStray place twice.files) ↔
            q.pages.same = true) := by
  have tidy : TidyQueue coder place q := by
    have phase := tidy_run faithful vacant admitted
    rw [reached] at phase
    exact phase
  obtain ⟨front,back,holdsFront,holdsBack,shut⟩ := shutdown_shelved faithful ten q
  refine ⟨_,shut,?_⟩
  generalize onceEq : ({q.closed first front back with
    shutDown := true,persistedFileNames := [],
    files := shelved q.place (q.closingOrder first) (q.closed first front back).files} : PersistedQueue α) = once
  intro between second tenAgain
  have start : ShutFrom once once := by
    subst onceEq
    exact ⟨rfl,rfl,rfl,rfl,rfl,rfl,.inl rfl⟩
  have since := shutFrom_run first start coder between
  generalize ((session coder).run ⟨first,once⟩ between).2.queue = later at since ⊢
  obtain ⟨front',back',holdsAgain,_,shutAgain⟩ := shutdown_shelved faithful tenAgain later
  refine ⟨_,shutAgain,?_⟩
  constructor
  · intro kept
    cases same : q.pages.same with
    | true => rfl
    | false => exact absurd kept.2 (separate_strays ten tenAgain tidy same onceEq.symm since)
  · exact fun shared => shared_keeps tidy shared onceEq.symm since holdsFront holdsAgain

theorem shutdown_twice_keeps_one_page :
    ∃ q once twice, ((world flagCoder tmpPlace).run ⟨1500000000,.absent ∅⟩
        [⟨1500000000,.construct 2⟩,⟨1500000000,.call (.pushBack true)⟩,⟨1500000000,.call (.pushBack false)⟩]).2 =
          ⟨1500000000,.present [] q⟩ ∧
      q.shutdown (.healthy 1500000000) flagCoder = (.ok (),once) ∧
      once.shutdown (.healthy 1500000001) flagCoder = (.ok (),twice) ∧
      storedItems flagCoder tmpPlace twice.files = storedItems flagCoder tmpPlace once.files ∧
      NoStray tmpPlace twice.files := by
  have reached : ((world flagCoder tmpPlace).run ⟨1500000000,.absent ∅⟩
      [⟨1500000000,.construct 2⟩,⟨1500000000,.call (.pushBack true)⟩,⟨1500000000,.call (.pushBack false)⟩]).2 =
        ⟨1500000000,.present [] ⟨false,0,0,tmpPlace,2,[],.shared [true,false],∅⟩⟩ := rfl
  have ten : TenDigits 1500000000 := by decide
  obtain ⟨once,shut,again⟩ := shutdown_twice_keeps flagCoder_faithful (vacant_empty tmpPlace) 1500000000 _
    (by decide +kernel) reached ten
  obtain ⟨twice,shutAgain,exact_⟩ := again [] 1500000001 (by decide)
  obtain ⟨items,noStray⟩ := exact_.mpr rfl
  exact ⟨_,once,twice,rfl,shut,shutAgain,items,noStray⟩

-- A page on disk and two in memory: the second shutdown drops the page on disk
-- from the state file.
theorem shutdown_twice_loses_page :
    ∃ q once twice, ((world flagCoder tmpPlace).run ⟨1500000000,.absent ∅⟩
        [⟨1500000000,.construct 1⟩,⟨1500000000,.call (.pushBack true)⟩,⟨1500000000,.call (.pushBack false)⟩,
          ⟨1500000000,.call (.pushBack true)⟩]).2 = ⟨1500000000,.present [] q⟩ ∧
      q.shutdown (.healthy 1500000000) flagCoder = (.ok (),once) ∧
      once.shutdown (.healthy 1500000000) flagCoder = (.ok (),twice) ∧
      storedItems flagCoder tmpPlace once.files = some [true,false,true] ∧
      storedItems flagCoder tmpPlace twice.files = some [true,true] := by
  refine ⟨_,_,_,rfl,rfl,rfl,?_,?_⟩
  · decide +kernel
  · decide +kernel

end Kisscpp
