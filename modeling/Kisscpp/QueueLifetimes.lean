import Kisscpp.QueueWorld

namespace Kisscpp
open TextLines DecimalText Stepping PersistedQueue

variable {α : Type}

def Place.numberOf (p : Place) (name : Text) : SeqNumber :=
  let seq := name.drop (p.pagePath []).length
  ⟨value (seq.take 10),value (seq.drop 10)⟩

theorem Place.numberOf_pagePath (p : Place) {s : SeqNumber} (ten : TenDigits s.second) :
    p.numberOf (p.pagePath s.text) = s := by
  have split : p.pagePath s.text = p.pagePath [] ++ s.text := by simp [Place.pagePath,Place.path]
  have length := length_second ten
  have seconds : s.text.take 10 = decimal s.second := by
    rw [SeqNumber.text,← length,List.take_left]
  have counters : s.text.drop 10 = padded s.counter := by
    rw [SeqNumber.text,← length,List.drop_left]
  rw [Place.numberOf,split,List.drop_left]
  simp only [seconds,counters,value_decimal,value_padded]

def PersistedQueue.Files (q : PersistedQueue α) : Event α → Prop
  | .call op => q.Saves op
  | .destroy => q.pages.same = false
  | .construct _ | .crash => False

instance (q : PersistedQueue α) : (event : Event α) → Decidable (q.Files event)
  | .call op => inferInstanceAs (Decidable (q.Saves op))
  | .destroy => inferInstanceAs (Decidable (q.pages.same = false))
  | .construct _ | .crash => isFalse id

def InSecond (bound : Nat) (w : World α) (o : Occurrence α) : Prop :=
  match w.phase with
  | .absent _ => True
  | .present _ q => q.Files o.event → WithinSecond bound o.now q

-- The next number stands in the given relation to the numbers of the page files
-- that were taken over from earlier objects and not read back yet.
def Apart (relation : SeqNumber → SeqNumber → Prop) (w : World α) (o : Occurrence α) : Prop :=
  match w.phase with
  | .absent _ => True
  | .present inherited q => q.Files o.event → ∀ name ∈ q.persistedFileNames, name ∈ inherited →
      relation (q.place.numberOf name) (q.nextSeq o.now)

instance (bound : Nat) (w : World α) (o : Occurrence α) : Decidable (InSecond bound w o) := by
  unfold InSecond
  cases w.phase <;> infer_instance

instance (relation : SeqNumber → SeqNumber → Prop) [∀ s t, Decidable (relation s t)] (w : World α)
    (o : Occurrence α) : Decidable (Apart relation w o) := by
  unfold Apart
  cases w.phase <;> infer_instance

structure Clean (relation : SeqNumber → SeqNumber → Prop) (bound : Nat) (w : World α) (o : Occurrence α) : Prop where
  onTime : OnTime w o
  inSecond : InSecond bound w o
  apart : Apart relation w o

instance (relation : SeqNumber → SeqNumber → Prop) [∀ s t, Decidable (relation s t)] (bound : Nat) (w : World α)
    (o : Occurrence α) : Decidable (Clean relation bound w o) :=
  decidable_of_iff (OnTime w o ∧ InSecond bound w o ∧ Apart relation w o)
    ⟨fun all => ⟨all.1,all.2.1,all.2.2⟩,fun clean => ⟨clean.onTime,clean.inSecond,clean.apart⟩⟩

def World.files (w : World α) : FileSystem :=
  match w.phase with
  | .absent files => files
  | .present _ q => q.files

-- persistedFileNames, and between two objects what the next one will list.
def World.names (place : Place) (w : World α) : List Text :=
  match w.phase with
  | .absent files => foundNames place files
  | .present _ q => q.persistedFileNames

-- The files persistToFile opens, each with the page it writes to it.
def World.opened (w : World α) (o : Occurrence α) : List (Text × List α) :=
  match w.phase with
  | .absent _ => []
  | .present _ q =>
    match o.event with
    | .call op => if q.Saves op then [(q.place.pagePath (q.nextSeq o.now).text,q.pages.last)] else []
    | .destroy =>
      (if q.pages.first = [] then [] else [(q.place.pagePath ['0'],q.pages.first)]) ++
        (if q.pages.same then [] else [(q.place.pagePath (q.nextSeq o.now).text,q.pages.last)])
    | .construct _ | .crash => []

def Orderly (bound : Nat) (coder : BiCoder α) (place : Place) (w : World α) : Prop :=
  match w.phase with
  | .absent files => Shelf coder place (files.erase place.stateFilePath) (foundNames place files)
  | .present inherited q => q.Stored coder ∧ q.Counted bound inherited w.clock ∧ q.place = place

namespace PersistedQueue

theorem numberOf_listed {coder : BiCoder α} {q : PersistedQueue α} (stored : q.Stored coder) {now : Nat}
    (ten : TenDigits now) {name : Text} (listed : name ∈ q.persistedFileNames) :
    name = q.place.pagePath (q.nextSeq now).text ↔ q.place.numberOf name = q.nextSeq now := by
  obtain ⟨s,tenOld,rfl⟩ := stored.named name listed
  rw [q.place.numberOf_pagePath tenOld]
  constructor
  · intro same
    exact SeqNumber.text_injective tenOld ten (q.place.pagePath_injective same)
  · rintro rfl
    rfl

theorem fresh_iff {bound clock now : Nat} {inherited : List Text} {coder : BiCoder α} {q : PersistedQueue α}
    (stored : q.Stored coder) (counted : q.Counted bound inherited clock) (fits : bound ≤ counterModulus)
    (forward : clock ≤ now) (ten : TenDigits now) (within : WithinSecond bound now q) :
    q.Fresh now ↔ ∀ name ∈ q.persistedFileNames, name ∈ inherited → q.place.numberOf name ≠ q.nextSeq now := by
  constructor
  · intro fresh name listed _ same
    have equal := (numberOf_listed stored ten listed).mpr same
    exact fresh (equal ▸ listed)
  · intro apart listed
    rcases counted.own _ listed with taken | ⟨s,tenOld,_,equal,own⟩
    · exact apart _ listed taken ((numberOf_listed stored ten listed).mp rfl)
    · have same := SeqNumber.text_injective (s := q.nextSeq now) ten tenOld (q.place.pagePath_injective equal)
      exact (issued_before counted.behind fits forward within own).ne same.symm

end PersistedQueue
theorem orderly_fresh {bound clock now : Nat} {inherited : List Text} {relation : SeqNumber → SeqNumber → Prop}
    (strict : ∀ s, ¬ relation s s) {coder : BiCoder α} {q : PersistedQueue α} (stored : q.Stored coder)
    (counted : q.Counted bound inherited clock) (fits : bound ≤ counterModulus) {event : Event α}
    (clean : Clean relation bound ⟨clock,.present inherited q⟩ ⟨now,event⟩) (files : q.Files event) : q.Fresh now := by
  refine (fresh_iff stored counted fits clean.onTime.1 clean.onTime.2 (clean.inSecond files)).mpr ?_
  intro name listed taken same
  have related := clean.apart files name listed taken
  rw [same] at related
  exact strict _ related

theorem foundNames_shelved {coder : BiCoder α} {place : Place} {order : List Text} {files : FileSystem}
    (shelf : Shelf coder place files order) (noState : place.stateFilePath ∉ files) :
    foundNames place (shelved place order files) = order ∧
      Shelf coder place ((shelved place order files).erase place.stateFilePath) order := by
  by_cases unlisted : order = []
  · subst unlisted
    have none : files.keys.filter place.isQueueFile = [] := by
      refine List.filter_eq_nil_iff.mpr fun path member queueFile => ?_
      cases shelf.listed path (AList.mem_keys.mpr member) queueFile
    rw [shelved,if_pos rfl,erase_absent noState,foundNames,AList.lookup_eq_none.mpr noState,none]
    exact ⟨rfl,shelf⟩
  · rw [shelved,if_neg unlisted,foundNames,AList.lookup_insert]
    exact ⟨lines_unlines order fun name member => named_oneLine (shelf.named name member),
      (shelf.withState _).withoutState⟩

theorem orderly_crashed {coder : BiCoder α} {place : Place} {q : PersistedQueue α} (stored : q.Stored coder)
    (placed : q.place = place) :
    (foundNames place q.files).Perm q.persistedFileNames ∧
      Shelf coder place (q.files.erase place.stateFilePath) (foundNames place q.files) := by
  subst placed
  have scanned := scan_shelf stored.shelf
  rw [erase_absent stored.noState,foundNames,AList.lookup_eq_none.mpr stored.noState]
  exact ⟨scanned,stored.shelf_perm scanned⟩

theorem orderly_step {bound : Nat} (positive : 0 < bound) (fits : bound ≤ counterModulus)
    {relation : SeqNumber → SeqNumber → Prop} (strict : ∀ s, ¬ relation s s) {coder : BiCoder α}
    (faithful : coder.Faithful) {place : Place} {w : World α} {o : Occurrence α} (orderly : Orderly bound coder place w)
    (clean : Clean relation bound w o) : Orderly bound coder place ((world coder place).step w o).2 := by
  obtain ⟨now,event⟩ := o
  obtain ⟨clock,phase⟩ := w
  cases phase with
  | absent files =>
    cases event with
    | construct maxItemsPerPage =>
      have shelf : Shelf coder place (files.erase place.stateFilePath) (foundNames place files) := orderly
      obtain ⟨q,loaded,stored,_,placed,second,counter,_⟩ :=
        load_shelf now shelf (fun present => (AList.mem_erase.mp present).1 rfl) maxItemsPerPage
      simp only [world,construct_found,loaded]
      refine ⟨stored,⟨?_,?_,fun _ member => .inl member⟩,placed⟩
      · rw [second]
        exact Nat.zero_le _
      · rw [counter]
        exact positive
    | call op => exact orderly
    | destroy => exact orderly
    | crash => exact orderly
  | present inherited q =>
    obtain ⟨stored,counted,placed⟩ := orderly
    have fresh := fun files : q.Files event => orderly_fresh strict stored counted fits clean files
    cases event with
    | construct maxItemsPerPage => exact ⟨stored,counted.later clean.onTime.1,placed⟩
    | call op =>
      have called := call_called faithful clean.onTime.2 stored.live op
      refine ⟨(stored_called stored clean.onTime.2 fresh called).1,?_,(called_frame called).1.trans placed⟩
      exact counted.called fits clean.onTime.1 clean.onTime.2 clean.inSecond called
    | destroy =>
      obtain ⟨front,back,holdsFront,holdsBack,shut⟩ := shutdown_shelved faithful clean.onTime.2 q
      obtain ⟨shelf,_,noState⟩ := closed_shelf clean.onTime.2 stored fresh holdsFront holdsBack
      simp only [world,shut]
      rw [placed] at shelf noState ⊢
      obtain ⟨found,kept⟩ := foundNames_shelved shelf noState
      change Shelf coder place _ (foundNames place _)
      rw [found]
      exact kept
    | crash => exact (orderly_crashed stored placed).2

theorem orderly_vacant (bound : Nat) (coder : BiCoder α) {place : Place} {files : FileSystem}
    (vacant : Vacant place files) (opening : Nat) : Orderly bound coder place ⟨opening,.absent files⟩ := by
  have nothing : Shelf coder place files [] := (opened_stored coder vacant 0).shelf
  obtain ⟨found,shelf⟩ := foundNames_shelved nothing vacant.noState
  rw [shelved,if_pos rfl] at found shelf
  change Shelf coder place _ (foundNames place files)
  rw [found]
  exact shelf

theorem orderly_run {bound : Nat} (positive : 0 < bound) (fits : bound ≤ counterModulus)
    {relation : SeqNumber → SeqNumber → Prop} (strict : ∀ s, ¬ relation s s) {coder : BiCoder α}
    (faithful : coder.Faithful) {place : Place} {files : FileSystem} (vacant : Vacant place files) {opening : Nat}
    {history : List (Occurrence α)}
    (admitted : (world coder place).Admits (Clean relation bound) ⟨opening,.absent files⟩ history) :
    Orderly bound coder place ((world coder place).run ⟨opening,.absent files⟩ history).2 :=
  run_preserves (fun _ _ => orderly_step positive fits strict faithful) (orderly_vacant bound coder vacant opening)
    admitted

-- What one event does to the pages on disk: a file that was opened is listed
-- and holds its page, any other listed file was listed before and is the same.
structure Kept (coder : BiCoder α) (place : Place) (w : World α) (o : Occurrence α) (after : World α) : Prop where
  filed : ∀ name page, (name,page) ∈ w.opened o →
    name ∈ after.names place ∧ pageAt coder after.files name = some page
  others : ∀ name ∈ after.names place, name ∈ (w.opened o).map Prod.fst ∨
    name ∈ w.names place ∧ pageAt coder after.files name = pageAt coder w.files name

theorem kept_unopened {coder : BiCoder α} {place : Place} {w after : World α} {o : Occurrence α}
    (nothing : w.opened o = []) (others : ∀ name ∈ after.names place,
      name ∈ w.names place ∧ pageAt coder after.files name = pageAt coder w.files name) :
    Kept coder place w o after := by
  refine ⟨fun name page opened => ?_,fun name member => .inr (others name member)⟩
  rw [nothing] at opened
  cases opened

theorem loaded_kept {coder : BiCoder α} {place : Place} {maxItemsPerPage : Nat} {files : FileSystem}
    {names : List Text} {result : Result α Unit} (distinct : names.Nodup)
    (loaded : Loaded coder place maxItemsPerPage files names result) {name : Text}
    (member : name ∈ result.2.persistedFileNames) : pageAt coder result.2.files name = pageAt coder files name := by
  cases loaded with
  | nothing => rfl
  | one => cases member
  | @many front back middle =>
    have member : name ∈ middle := member
    have apart := List.nodup_cons.mp distinct
    have notFront : name ≠ front := fun equal => apart.1 (equal ▸ List.mem_append_left _ member)
    have notBack : name ≠ back := fun equal =>
      (List.nodup_append.mp apart.2).2.2 name member back (by simp) equal
    exact (pageAt_erase_ne notBack).trans (pageAt_erase_ne notFront)
  | noFront => rfl
  | @noBack front back middle =>
    have member : name ∈ middle := member
    have apart := List.nodup_cons.mp distinct
    exact pageAt_erase_ne fun equal => apart.1 (equal ▸ List.mem_append_left _ member)

theorem refilled_kept {coder : BiCoder α} {q : PersistedQueue α} {result : Result α Unit}
    (distinct : q.persistedFileNames.Nodup) (refilled : Refilled coder q result) {name : Text}
    (member : name ∈ result.2.persistedFileNames) :
    name ∈ q.persistedFileNames ∧ pageAt coder result.2.files name = pageAt coder q.files name := by
  cases refilled with
  | kept => exact ⟨member,rfl⟩
  | joined => exact ⟨member,rfl⟩
  | @loaded front rest page drained listed found =>
    have member : name ∈ rest := member
    rw [listed] at distinct ⊢
    have different : name ≠ front := fun equal => (List.nodup_cons.mp distinct).1 (equal ▸ member)
    exact ⟨List.mem_cons_of_mem _ member,pageAt_erase_ne different⟩
  | failed e drained listed missing =>
    rw [listed]
    exact ⟨List.mem_cons_of_mem _ member,rfl⟩

theorem kept_called {coder : BiCoder α} {place : Place} {clock now : Nat} {inherited : List Text}
    {q after : PersistedQueue α} {op : Op α} {reply : Reply α} (distinct : q.persistedFileNames.Nodup)
    (fresh : q.Saves op → q.Fresh now) (called : Called coder now q op reply after) :
    Kept coder place ⟨clock,.present inherited q⟩ ⟨now,.call op⟩ ⟨now,.present inherited after⟩ := by
  cases called with
  | pushedBack pushed =>
    cases pushed with
    | room free =>
      have stays : ¬ q.Spills := fun spills => Nat.not_le_of_lt free spills.2
      exact kept_unopened (by simp [World.opened,Saves,stays]) fun name member => ⟨member,rfl⟩
    | opened full shared =>
      have stays : ¬ q.Spills := by
        intro spills
        have separate := spills.1
        rw [shared] at separate
        cases separate
      exact kept_unopened (by simp [World.opened,Saves,stays]) fun name member => ⟨member,rfl⟩
    | spilled spills holds =>
      have opened : World.opened ⟨clock,.present inherited q⟩ ⟨now,.call (.pushBack ‹α›)⟩ =
          [(q.place.pagePath (q.nextSeq now).text,q.pages.last)] := by simp [World.opened,Saves,spills]
      constructor
      · intro name page member
        rw [opened,List.mem_singleton] at member
        cases member
        exact ⟨List.mem_append_right _ (List.mem_singleton_self _),pageAt_insert.trans holds⟩
      · intro name member
        rw [opened]
        rcases List.mem_append.mp member with old | new
        · have different : name ≠ q.place.pagePath (q.nextSeq now).text := fun equal => fresh spills (equal ▸ old)
          exact .inr ⟨old,pageAt_insert_ne different⟩
        · exact .inl (List.mem_map.mpr ⟨_,List.mem_singleton_self _,(List.mem_singleton.mp new).symm⟩)
  | pushedFront => exact kept_unopened (by simp [World.opened,Saves]) fun name member => ⟨member,rfl⟩
  | popped refilled =>
    exact kept_unopened (by simp [World.opened,Saves]) fun name member => refilled_kept distinct refilled member
  | seen refilled =>
    exact kept_unopened (by simp [World.opened,Saves]) fun name member => refilled_kept distinct refilled member
  | popFailed refilled =>
    exact kept_unopened (by simp [World.opened,Saves]) fun name member => refilled_kept distinct refilled member
  | frontFailed refilled =>
    exact kept_unopened (by simp [World.opened,Saves]) fun name member => refilled_kept distinct refilled member

theorem closed_page {coder : BiCoder α} {now : Nat} {front back : Text} {q : PersistedQueue α}
    (ten : TenDigits now) (holdsFront : coder.decodePage front = some q.pages.first)
    (holdsBack : coder.decodePage back = some q.pages.last) (name : Text) :
    pageAt coder (q.closed now front back).files name =
      if q.pages.same = false ∧ name = q.place.pagePath (q.nextSeq now).text then some q.pages.last
      else if q.pages.first ≠ [] ∧ name = q.place.pagePath ['0'] then some q.pages.first
      else pageAt coder q.files name := by
  have apart : q.place.pagePath ['0'] ≠ q.place.pagePath (q.nextSeq now).text := fun equal =>
    SeqNumber.text_ne_zero (s := q.nextSeq now) ten (q.place.pagePath_injective equal.symm)
  have fronted : pageAt coder (if q.pages.first = [] then q else q.filedFront front).files name =
      if q.pages.first ≠ [] ∧ name = q.place.pagePath ['0'] then some q.pages.first
      else pageAt coder q.files name := by
    by_cases drained : q.pages.first = []
    · simp [drained]
    · by_cases zero : name = q.place.pagePath ['0']
      · simp [drained,zero,filedFront,pageAt_insert,holdsFront]
      · simp [drained,zero,filedFront,pageAt_insert_ne zero]
  have placed : (if q.pages.first = [] then q else q.filedFront front).place = q.place := by
    split <;> rfl
  cases same : q.pages.same with
  | true => simpa [closed,same] using fronted
  | false =>
    by_cases new : name = q.place.pagePath (q.nextSeq now).text
    · simp [closed,same,filedBack,numbered,placed,new,pageAt_insert,holdsBack]
    · simp only [closed,same,filedBack,numbered,placed,new,and_false,if_false]
      exact (pageAt_insert_ne new).trans fronted

theorem pageAt_shelved {coder : BiCoder α} {place : Place} {order : List Text} {files : FileSystem} {name : Text}
    (different : name ≠ place.stateFilePath) :
    pageAt coder (shelved place order files) name = pageAt coder files name := by
  unfold shelved
  split
  · rfl
  · exact pageAt_insert_ne different

theorem mem_closingOrder {now : Nat} {q : PersistedQueue α} {name : Text} :
    name ∈ q.closingOrder now ↔ q.pages.first ≠ [] ∧ name = q.place.pagePath ['0'] ∨ name ∈ q.persistedFileNames ∨
      q.pages.same = false ∧ name = q.place.pagePath (q.nextSeq now).text := by
  unfold closingOrder
  by_cases drained : q.pages.first = [] <;> cases same : q.pages.same <;> simp [drained]

theorem mem_opened_destroy {clock now : Nat} {inherited : List Text} {q : PersistedQueue α} {name : Text}
    {page : List α} :
    (name,page) ∈ World.opened ⟨clock,.present inherited q⟩ ⟨now,.destroy⟩ ↔
      q.pages.first ≠ [] ∧ name = q.place.pagePath ['0'] ∧ page = q.pages.first ∨
      q.pages.same = false ∧ name = q.place.pagePath (q.nextSeq now).text ∧ page = q.pages.last := by
  unfold World.opened
  by_cases drained : q.pages.first = [] <;> cases same : q.pages.same <;> simp [drained,same]

theorem kept_destroyed {coder : BiCoder α} {clock now : Nat} (ten : TenDigits now) {inherited : List Text}
    {q : PersistedQueue α} (stored : q.Stored coder) (fresh : q.pages.same = false → q.Fresh now)
    {front back : Text} (holdsFront : coder.decodePage front = some q.pages.first)
    (holdsBack : coder.decodePage back = some q.pages.last) :
    Kept coder q.place ⟨clock,.present inherited q⟩ ⟨now,.destroy⟩
      ⟨now,.absent (shelved q.place (q.closingOrder now) (q.closed now front back).files)⟩ := by
  obtain ⟨shelf,_,noState⟩ := closed_shelf ten stored fresh holdsFront holdsBack
  have names := (foundNames_shelved shelf noState).1
  have page : ∀ name ∈ q.closingOrder now,
      pageAt coder (shelved q.place (q.closingOrder now) (q.closed now front back).files) name =
        pageAt coder (q.closed now front back).files name :=
    fun name member => pageAt_shelved (named_ne_state (shelf.named name member))
  have apart : q.place.pagePath ['0'] ≠ q.place.pagePath (q.nextSeq now).text := fun equal =>
    SeqNumber.text_ne_zero (s := q.nextSeq now) ten (q.place.pagePath_injective equal.symm)
  constructor
  · intro name held opened
    change name ∈ foundNames q.place _ ∧ pageAt coder (shelved _ _ _) name = some held
    rw [names]
    rcases mem_opened_destroy.mp opened with ⟨filled,rfl,rfl⟩ | ⟨separate,rfl,rfl⟩
    · have member : q.place.pagePath ['0'] ∈ q.closingOrder now := mem_closingOrder.mpr (.inl ⟨filled,rfl⟩)
      rw [page _ member,closed_page ten holdsFront holdsBack]
      exact ⟨member,by simp [apart,filled]⟩
    · have member : q.place.pagePath (q.nextSeq now).text ∈ q.closingOrder now :=
        mem_closingOrder.mpr (.inr (.inr ⟨separate,rfl⟩))
      rw [page _ member,closed_page ten holdsFront holdsBack]
      exact ⟨member,by simp [separate]⟩
  · intro name member
    change name ∈ foundNames q.place _ at member
    rw [names] at member
    change _ ∨ _ ∧ pageAt coder (shelved _ _ _) name = pageAt coder q.files name
    rw [page name member,closed_page ten holdsFront holdsBack]
    rcases mem_closingOrder.mp member with ⟨filled,rfl⟩ | listed | ⟨separate,rfl⟩
    · exact .inl (List.mem_map.mpr ⟨_,mem_opened_destroy.mpr (.inl ⟨filled,rfl,rfl⟩),rfl⟩)
    · have notZero := (stored.named name listed).ne_zero
      have notNew : ¬ (q.pages.same = false ∧ name = q.place.pagePath (q.nextSeq now).text) :=
        fun both => fresh both.1 (both.2 ▸ listed)
      rw [if_neg notNew,if_neg fun both => notZero both.2]
      exact .inr ⟨listed,rfl⟩
    · exact .inl (List.mem_map.mpr ⟨_,mem_opened_destroy.mpr (.inr ⟨separate,rfl,rfl⟩),rfl⟩)

theorem kept_step {bound : Nat} (fits : bound ≤ counterModulus) {relation : SeqNumber → SeqNumber → Prop}
    (strict : ∀ s, ¬ relation s s) {coder : BiCoder α} (faithful : coder.Faithful) {place : Place} {w : World α}
    {o : Occurrence α} (orderly : Orderly bound coder place w) (clean : Clean relation bound w o) :
    Kept coder place w o ((world coder place).step w o).2 := by
  obtain ⟨now,event⟩ := o
  obtain ⟨clock,phase⟩ := w
  cases phase with
  | absent files =>
    cases event with
    | construct maxItemsPerPage =>
      have shelf : Shelf coder place (files.erase place.stateFilePath) (foundNames place files) := orderly
      have loaded := load_loaded coder now place maxItemsPerPage (files.erase place.stateFilePath) (foundNames place files)
      obtain ⟨q,built,_,_,_,_,_,within⟩ :=
        load_shelf now shelf (fun present => (AList.mem_erase.mp present).1 rfl) maxItemsPerPage
      rw [built] at loaded
      simp only [world,construct_found,built]
      refine kept_unopened rfl fun name member => ?_
      have listed := within.subset member
      have notState := named_ne_state (shelf.named name listed)
      exact ⟨listed,(loaded_kept shelf.distinct loaded member).trans (pageAt_erase_ne notState)⟩
    | call op => exact kept_unopened rfl fun name member => ⟨member,rfl⟩
    | destroy => exact kept_unopened rfl fun name member => ⟨member,rfl⟩
    | crash => exact kept_unopened rfl fun name member => ⟨member,rfl⟩
  | present inherited q =>
    obtain ⟨stored,counted,placed⟩ := orderly
    have fresh := fun files : q.Files event => orderly_fresh strict stored counted fits clean files
    cases event with
    | construct maxItemsPerPage => exact kept_unopened rfl fun name member => ⟨member,rfl⟩
    | call op => exact kept_called stored.distinct fresh (call_called faithful clean.onTime.2 stored.live op)
    | destroy =>
      obtain ⟨front,back,holdsFront,holdsBack,shut⟩ := shutdown_shelved faithful clean.onTime.2 q
      simp only [world,shut]
      subst placed
      exact kept_destroyed clean.onTime.2 stored fresh holdsFront holdsBack
    | crash =>
      refine kept_unopened rfl fun name member => ⟨?_,rfl⟩
      exact (orderly_crashed stored placed).1.subset member

theorem opened_fresh {bound : Nat} (fits : bound ≤ counterModulus) {coder : BiCoder α} {place : Place} {w : World α}
    {o : Occurrence α} (orderly : Orderly bound coder place w) (onTime : OnTime w o) (within : InSecond bound w o) :
    (∀ filed ∈ w.opened o, filed.1 ∉ w.names place) ↔ Apart (· ≠ ·) w o := by
  obtain ⟨now,event⟩ := o
  obtain ⟨clock,phase⟩ := w
  cases phase with
  | absent files => exact ⟨fun _ => trivial,fun _ _ member => by cases member⟩
  | present inherited q =>
    obtain ⟨stored,counted,placed⟩ := orderly
    have exact_ := fun files => fresh_iff stored counted fits onTime.1 onTime.2 (within files)
    cases event with
    | construct maxItemsPerPage => exact ⟨fun _ files => files.elim,fun _ _ member => by cases member⟩
    | crash => exact ⟨fun _ files => files.elim,fun _ _ member => by cases member⟩
    | call op =>
      constructor
      · intro apart saves
        have fresh : q.Fresh now := apart (q.place.pagePath (q.nextSeq now).text,q.pages.last)
          (by simp [World.opened,show q.Saves op from saves])
        exact (exact_ saves).mp fresh
      · intro apart filed opened
        by_cases saves : q.Saves op
        · simp only [World.opened,if_pos saves,List.mem_singleton] at opened
          rw [opened]
          exact (exact_ saves).mpr (apart saves)
        · simp [World.opened,saves] at opened
    | destroy =>
      constructor
      · intro apart separate
        have fresh : q.Fresh now :=
          apart (q.place.pagePath (q.nextSeq now).text,q.pages.last) (mem_opened_destroy.mpr (.inr ⟨separate,rfl,rfl⟩))
        exact (exact_ separate).mp fresh
      · rintro apart ⟨name,page⟩ opened listed
        rcases mem_opened_destroy.mp opened with ⟨_,rfl,_⟩ | ⟨separate,rfl,_⟩
        · exact (stored.named _ listed).ne_zero rfl
        · exact (exact_ separate).mpr (apart separate) listed

theorem orderly_names {bound : Nat} {coder : BiCoder α} {place : Place} {w : World α}
    (orderly : Orderly bound coder place w) : (w.names place).Nodup := by
  obtain ⟨clock,phase⟩ := w
  cases phase with
  | absent files => exact Shelf.distinct orderly
  | present inherited q => exact orderly.1.distinct

theorem page_files_kept {coder : BiCoder α} (faithful : coder.Faithful) {place : Place} {files : FileSystem}
    (vacant : Vacant place files) (opening : Nat) (history : List (Occurrence α))
    (admitted : (world coder place).Admits (Clean (· ≠ ·) counterModulus) ⟨opening,.absent files⟩ history) :
    let w := ((world coder place).run ⟨opening,.absent files⟩ history).2
    (w.names place).Nodup ∧
      ∀ o, OnTime w o → InSecond counterModulus w o →
        ((∀ filed ∈ w.opened o, filed.1 ∉ w.names place) ↔ Apart (· ≠ ·) w o) ∧
        (Apart (· ≠ ·) w o → Kept coder place w o ((world coder place).step w o).2) := by
  have fits : counterModulus ≤ counterModulus := Nat.le_refl _
  have strict : ∀ s : SeqNumber, ¬ s ≠ s := fun s different => different rfl
  have orderly := orderly_run (by decide) fits strict faithful vacant admitted
  intro w
  refine ⟨orderly_names orderly,fun o onTime within => ⟨opened_fresh fits orderly onTime within,fun apart => ?_⟩⟩
  exact kept_step fits strict faithful orderly ⟨onTime,within,apart⟩

def twoLifetimes (earlier later : Nat) : List (Occurrence Bool) :=
  [⟨earlier,.construct 1⟩,⟨earlier,.call (.pushBack true)⟩,⟨earlier,.call (.pushBack false)⟩,
    ⟨earlier,.call (.pushBack true)⟩,⟨earlier,.destroy⟩,⟨later,.construct 1⟩]

theorem page_files_kept_next_second :
    let w := ((world flagCoder tmpPlace).run ⟨1500000000,.absent ∅⟩ (twoLifetimes 1500000000 1500000001)).2
    let o := ⟨1500000001,.call (.pushBack true)⟩
    (∀ filed ∈ w.opened o, filed.1 ∉ w.names tmpPlace) ∧ w.opened o ≠ [] ∧
      Kept flagCoder tmpPlace w o ((world flagCoder tmpPlace).step w o).2 := by
  intro w o
  obtain ⟨_,each⟩ := page_files_kept flagCoder_faithful (vacant_empty tmpPlace) 1500000000
    (twoLifetimes 1500000000 1500000001) (by decide +kernel)
  obtain ⟨fresh,keeps⟩ := each o (by decide +kernel) (by decide +kernel)
  have apart : Apart (· ≠ ·) w o := by decide +kernel
  exact ⟨fresh.mpr apart,by decide +kernel,keeps apart⟩

-- In the same second the counter starts again at zero, and the spill writes
-- over the page of the second item, which is still on the list.
theorem page_file_overwritten :
    let w := ((world flagCoder tmpPlace).run ⟨1500000000,.absent ∅⟩ (twoLifetimes 1500000000 1500000000)).2
    let o := ⟨1500000000,.call (.pushBack true)⟩
    let name := tmpPlace.pagePath (SeqNumber.mk 1500000000 0).text
    (world flagCoder tmpPlace).Admits OnTime ⟨1500000000,.absent ∅⟩ (twoLifetimes 1500000000 1500000000 ++ [o]) ∧
      w.names tmpPlace = [name] ∧ pageAt flagCoder w.files name = some [false] ∧ w.opened o = [(name,[true])] ∧
      ¬ (((world flagCoder tmpPlace).step w o).2.names tmpPlace).Nodup := by
  decide +kernel

end Kisscpp
