import Kisscpp.QueueLifetimes

namespace Kisscpp
open TextLines DecimalText Stepping PersistedQueue

variable {α : Type}

-- The steps between which a process can die.
inductive FileAction where
  | write (path contents : Text)
  | create (path : Text)
  | append (path line : Text)
  | remove (path : Text)
  deriving DecidableEq

def FileAction.apply (files : FileSystem) : FileAction → FileSystem
  | .write path contents => files.insert path contents
  | .create path => files.insert path []
  | .append path line => files.insert path ((files.lookup path).getD [] ++ line ++ ['\n'])
  | .remove path => files.erase path

def perform (actions : List FileAction) (files : FileSystem) : FileSystem := actions.foldl FileAction.apply files

-- writeFirstAndLastPage and writeStateFile, action by action.
def pageActions (coder : BiCoder α) (now : Nat) (q : PersistedQueue α) : List FileAction :=
  (if q.pages.first = [] then [] else [.write (q.place.pagePath ['0']) (coder.pageText q.pages.first)]) ++
    (if q.pages.same then [] else [.write (q.place.pagePath (q.nextSeq now).text) (coder.pageText q.pages.last)])

def stateActions (now : Nat) (q : PersistedQueue α) : List FileAction :=
  if q.closingOrder now = [] then []
  else .create q.place.stateFilePath :: (q.closingOrder now).map (.append q.place.stateFilePath)

def shutdownActions (coder : BiCoder α) (now : Nat) (q : PersistedQueue α) : List FileAction :=
  pageActions coder now q ++ stateActions now q

-- loadStateFile, loadFrontFile and loadBackFile.
def loadActions : List Text → List FileAction
  | [] => []
  | name :: rest => .remove name :: (rest.getLast?.toList.map .remove)

def constructActions (place : Place) (files : FileSystem) : List FileAction :=
  (if place.stateFilePath ∈ files then [.remove place.stateFilePath] else []) ++ loadActions (foundNames place files)

@[simp] theorem perform_nil (files : FileSystem) : perform [] files = files := rfl
@[simp] theorem perform_cons (action : FileAction) (actions : List FileAction) (files : FileSystem) :
    perform (action :: actions) files = perform actions (action.apply files) := rfl

theorem perform_append (earlier later : List FileAction) (files : FileSystem) :
    perform (earlier ++ later) files = perform later (perform earlier files) := List.foldl_append

theorem perform_lines (path : Text) (rows : List Text) (text : Text) (files : FileSystem) :
    perform (rows.map (.append path)) (files.insert path text) = files.insert path (text ++ unlines rows) := by
  induction rows generalizing text with
  | nil => simp
  | cons row rows ih =>
    have first : FileAction.apply (files.insert path text) (.append path row) =
        files.insert path (text ++ row ++ ['\n']) := by
      simp [FileAction.apply,AList.lookup_insert,AList.insert_insert]
    rw [List.map_cons,perform_cons,first,ih,unlines_cons]
    simp

theorem perform_stateActions (now : Nat) (q : PersistedQueue α) (files : FileSystem) :
    perform (stateActions now q) files = shelved q.place (q.closingOrder now) files := by
  unfold stateActions shelved
  split
  · rfl
  · rw [perform_cons,FileAction.apply,perform_lines,List.nil_append]

theorem perform_pageActions (coder : BiCoder α) (now : Nat) (q : PersistedQueue α) :
    perform (pageActions coder now q) q.files =
      (q.closed now (coder.pageText q.pages.first) (coder.pageText q.pages.last)).files := by
  unfold pageActions closed
  by_cases drained : q.pages.first = [] <;> cases same : q.pages.same <;>
    simp [drained,filedFront,filedBack,numbered,FileAction.apply]

theorem perform_shutdownActions {coder : BiCoder α} (faithful : coder.Faithful) {now : Nat} (ten : TenDigits now)
    (q : PersistedQueue α) :
    perform (shutdownActions coder now q) q.files = (q.shutdown (.healthy now) coder).2.files := by
  rw [shutdownActions,perform_append,perform_pageActions,perform_stateActions,shutdown_closed faithful ten]

theorem perform_constructActions {coder : BiCoder α} {place : Place} {files : FileSystem} (now maxItemsPerPage : Nat)
    (shelf : Shelf coder place (files.erase place.stateFilePath) (foundNames place files)) :
    perform (constructActions place files) files =
      (construct (.healthy now) coder place maxItemsPerPage files).2.files := by
  have erased : perform (if place.stateFilePath ∈ files then [.remove place.stateFilePath] else []) files =
      files.erase place.stateFilePath := by
    by_cases present : place.stateFilePath ∈ files
    · simp [present,FileAction.apply]
    · simp [present,erase_absent present]
  rw [constructActions,perform_append,erased,construct_found]
  have loaded := load_loaded coder now place maxItemsPerPage (files.erase place.stateFilePath) (foundNames place files)
  obtain ⟨ok,_⟩ := loaded_content shelf.distinct shelf.filled loaded
  revert loaded ok
  generalize foundNames place files = names
  generalize (listing place maxItemsPerPage names
    (files.erase place.stateFilePath)).loadFirstAndLastPage (.healthy now) coder = result
  intro loaded ok
  cases loaded with
  | nothing => rfl
  | one => rfl
  | @many name last middle => simp [loadActions,FileAction.apply,listing,fresh]
  | noFront => cases ok
  | noBack => cases ok

def SmallName (place : Place) (name : Text) : Prop :=
  ∃ s : SeqNumber, TenDigits s.second ∧ s.counter < 10000 ∧ name = place.pagePath s.text

structure Ascending (place : Place) (names : List Text) : Prop where
  inOrder : names.Pairwise (· < ·)
  small : ∀ name ∈ names, name = place.pagePath ['0'] ∨ SmallName place name

namespace Ascending
variable {place : Place} {names : List Text}

theorem sublist (ascending : Ascending place names) {kept : List Text} (within : kept.Sublist names) :
    Ascending place kept :=
  ⟨ascending.inOrder.sublist within,fun name member => ascending.small name (within.subset member)⟩

theorem snoc (ascending : Ascending place names) {path : Text} (small : SmallName place path)
    (largest : ∀ name ∈ names, name < path) : Ascending place (names ++ [path]) := by
  constructor
  · apply List.pairwise_append.mpr
    refine ⟨ascending.inOrder,List.pairwise_singleton _ _,?_⟩
    intro name member last isLast
    rw [List.mem_singleton.mp isLast]
    exact largest name member
  · intro name member
    rcases List.mem_append.mp member with old | new
    · exact ascending.small name old
    · rw [List.mem_singleton.mp new]
      exact .inr small

theorem zero (ascending : Ascending place names) (numbered : ∀ name ∈ names, Numbered place name) :
    Ascending place (place.pagePath ['0'] :: names) := by
  constructor
  · apply List.pairwise_cons.mpr
    refine ⟨?_,ascending.inOrder⟩
    intro name member
    obtain ⟨s,ten,rfl⟩ := numbered name member
    exact place.pagePath_lt (SeqNumber.zero_lt_text ten)
  · intro name member
    rcases List.mem_cons.mp member with isZero | old
    · exact .inl isZero
    · exact ascending.small name old

end Ascending

namespace PersistedQueue

theorem next_small {now : Nat} {q : PersistedQueue α} (ten : TenDigits now) (within : WithinSecond 10000 now q) :
    SmallName q.place (q.place.pagePath (q.nextSeq now).text) :=
  ⟨q.nextSeq now,ten,nextSeq_small (by decide) (by decide) within,rfl⟩

theorem next_largest {clock now : Nat} {inherited : List Text} {coder : BiCoder α} {q : PersistedQueue α}
    (stored : q.Stored coder) (counted : q.Counted 10000 inherited clock)
    (ascending : Ascending q.place q.persistedFileNames) (forward : clock ≤ now) (ten : TenDigits now)
    (within : WithinSecond 10000 now q)
    (apart : ∀ name ∈ q.persistedFileNames, name ∈ inherited → (q.place.numberOf name).Before (q.nextSeq now)) :
    ∀ name ∈ q.persistedFileNames, name < q.place.pagePath (q.nextSeq now).text := by
  intro name listed
  rcases counted.own name listed with taken | issued
  · rcases ascending.small name listed with isZero | ⟨s,tenOld,small,rfl⟩
    · exact absurd isZero (stored.named name listed).ne_zero
    · have before := apart _ listed taken
      rw [q.place.numberOf_pagePath tenOld] at before
      have next := nextSeq_small (by decide) (by decide) within
      exact q.place.pagePath_lt (SeqNumber.text_lt tenOld ten small next before)
  · exact issued_lt counted.behind forward ten within issued

theorem ascending_closing {now : Nat} {coder : BiCoder α} {q : PersistedQueue α} (stored : q.Stored coder)
    (ascending : Ascending q.place q.persistedFileNames)
    (small : q.pages.same = false → SmallName q.place (q.place.pagePath (q.nextSeq now).text))
    (largest : q.pages.same = false → ∀ name ∈ q.persistedFileNames, name < q.place.pagePath (q.nextSeq now).text) :
    Ascending q.place (q.closingOrder now) := by
  have backed : Ascending q.place
      (q.persistedFileNames ++ if q.pages.same then [] else [q.place.pagePath (q.nextSeq now).text]) := by
    cases same : q.pages.same with
    | true => simpa using ascending
    | false => exact ascending.snoc (small same) (largest same)
  unfold closingOrder
  rw [List.append_assoc]
  by_cases drained : q.pages.first = []
  · simpa [drained] using backed
  · rw [if_neg drained]
    apply backed.zero
    intro name member
    rcases List.mem_append.mp member with old | new
    · exact stored.named name old
    · cases same : q.pages.same with
      | true => simp [same] at new
      | false =>
        obtain ⟨s,ten,_,equal⟩ := small same
        simp only [same,Bool.false_eq_true,if_false,List.mem_singleton] at new
        exact ⟨s,ten,new.trans equal⟩

end PersistedQueue

-- A directory without a process: what the next constructor lists is the order
-- of the items, whether it reads or scans.
structure Rests (coder : BiCoder α) (place : Place) (files : FileSystem) (order : List Text) : Prop where
  shelf : Shelf coder place (files.erase place.stateFilePath) order
  found : foundNames place files = order
  ascending : Ascending place order

theorem rests_scanned {coder : BiCoder α} {place : Place} {files : FileSystem} {order : List Text}
    (shelf : Shelf coder place files order) (noState : place.stateFilePath ∉ files) (ascending : Ascending place order) :
    Rests coder place files order := by
  refine ⟨?_,?_,ascending⟩
  · rw [erase_absent noState]
    exact shelf
  · rw [foundNames,AList.lookup_eq_none.mpr noState]
    exact scan_sorted shelf ascending.inOrder

theorem rests_shelved {coder : BiCoder α} {place : Place} {files : FileSystem} {order : List Text}
    (shelf : Shelf coder place files order) (noState : place.stateFilePath ∉ files) (ascending : Ascending place order) :
    Rests coder place (shelved place order files) order := by
  obtain ⟨found,kept⟩ := foundNames_shelved shelf noState
  exact ⟨kept,found,ascending⟩

-- The items of the page files on disk, each once and in the order of the pages,
-- are what a constructor makes of a directory.
def Recovers (coder : BiCoder α) (place : Place) (order : List Text) (files : FileSystem) : Prop :=
  (∀ path ∈ files, place.isQueueFile path = true → path ∈ order) ∧
    ∀ now maxItemsPerPage, ∃ q, construct (.healthy now) coder place maxItemsPerPage files = (.ok (),q) ∧
      q.content coder = pagesOf coder files (order.filter (· ∈ files))

theorem filter_present {files : FileSystem} {before order after : List Text} (goneBefore : ∀ name ∈ before, name ∉ files)
    (there : ∀ name ∈ order, name ∈ files) (goneAfter : ∀ name ∈ after, name ∉ files) :
    (before ++ order ++ after).filter (· ∈ files) = order := by
  have first : before.filter (· ∈ files) = [] := List.filter_eq_nil_iff.mpr fun name member => by
    simpa using goneBefore name member
  have middle : order.filter (· ∈ files) = order := List.filter_eq_self.mpr fun name member => by
    simpa using there name member
  have last : after.filter (· ∈ files) = [] := List.filter_eq_nil_iff.mpr fun name member => by
    simpa using goneAfter name member
  rw [List.filter_append,List.filter_append,first,middle,last,List.nil_append,List.append_nil]

theorem Rests.present {coder : BiCoder α} {place : Place} {files : FileSystem} {order : List Text}
    (rests : Rests coder place files order) : ∀ name ∈ order, name ∈ files := by
  intro name member
  obtain ⟨page,found,_⟩ := rests.shelf.filled name member
  exact (AList.mem_erase.mp (pageAt_mem found)).2

theorem rests_recovers {coder : BiCoder α} {place : Place} {files : FileSystem} {before order after : List Text}
    (rests : Rests coder place files order) (goneBefore : ∀ name ∈ before, name ∉ files)
    (goneAfter : ∀ name ∈ after, name ∉ files) : Recovers coder place (before ++ order ++ after) files := by
  constructor
  · intro path present queueFile
    have different : path ≠ place.stateFilePath := by
      rintro rfl
      rw [place.isQueueFile_state] at queueFile
      cases queueFile
    have member := rests.shelf.listed path (AList.mem_erase.mpr ⟨different,present⟩) queueFile
    exact List.mem_append_left _ (List.mem_append_right _ member)
  · intro now maxItemsPerPage
    obtain ⟨q,loaded,_,content,_⟩ :=
      load_shelf now rests.shelf (fun present => (AList.mem_erase.mp present).1 rfl) maxItemsPerPage
    refine ⟨q,?_,?_⟩
    · rw [construct_found,rests.found]
      exact loaded
    · rw [filter_present goneBefore rests.present goneAfter,content]
      exact pagesOf_erase fun member => named_ne_state (rests.shelf.named _ member) rfl

def RestsWithin (coder : BiCoder α) (place : Place) (files : FileSystem) (order : List Text) : Prop :=
  ∃ before rest after, order = before ++ rest ++ after ∧ Rests coder place files rest ∧
    (∀ name ∈ before, name ∉ files) ∧ ∀ name ∈ after, name ∉ files

theorem RestsWithin.recovers {coder : BiCoder α} {place : Place} {files : FileSystem} {order : List Text}
    (within : RestsWithin coder place files order) : Recovers coder place order files := by
  obtain ⟨before,rest,after,rfl,rests,goneBefore,goneAfter⟩ := within
  exact rests_recovers rests goneBefore goneAfter

theorem Rests.within {coder : BiCoder α} {place : Place} {files : FileSystem} {order : List Text}
    (rests : Rests coder place files order) : RestsWithin coder place files order :=
  ⟨[],order,[],by simp,rests,fun _ member => (by cases member),fun _ member => (by cases member)⟩

theorem load_cut {coder : BiCoder α} {place : Place} {files : FileSystem} {order : List Text}
    (shelf : Shelf coder place files order) (noState : place.stateFilePath ∉ files) (ascending : Ascending place order)
    (count : Nat) : RestsWithin coder place (perform ((loadActions order).take count) files) order := by
  have gone : ∀ {path}, place.stateFilePath ∉ files.erase path := fun present => noState (AList.mem_erase.mp present).2
  have erased : ∀ {path : Text} {others : FileSystem}, path ∉ others.erase path :=
    fun present => (AList.mem_erase.mp present).1 rfl
  match order,count with
  | [],_ => simpa [loadActions] using (rests_scanned shelf noState ascending).within
  | name :: rest,0 => exact (rests_scanned shelf noState ascending).within
  | name :: rest,count + 1 =>
    have front := rests_scanned shelf.front gone (ascending.sublist (List.sublist_cons_self name rest))
    rcases List.eq_nil_or_concat rest with rfl | ⟨middle,last,rfl⟩
    · refine ⟨[name],[],[],rfl,?_,?_,fun _ member => by cases member⟩
      · simpa [loadActions,FileAction.apply] using front
      · intro other member
        rw [List.mem_singleton.mp member]
        simp [loadActions,FileAction.apply]
    · rw [List.concat_eq_append] at shelf ascending front ⊢
      cases count with
      | zero =>
        refine ⟨[name],middle ++ [last],[],by simp,front,?_,fun _ member => by cases member⟩
        intro other member
        rw [List.mem_singleton.mp member]
        exact erased
      | succ count =>
        have back := rests_scanned shelf.front.back (fun present => gone (AList.mem_erase.mp present).2)
          (front.ascending.sublist (List.sublist_append_left middle [last]))
        have performed : perform ((loadActions (name :: (middle ++ [last]))).take (count + 1 + 1)) files =
            (files.erase name).erase last := by simp [loadActions,FileAction.apply]
        rw [performed]
        refine ⟨[name],middle,[last],by simp,back,?_,?_⟩
        · intro other member present
          rw [List.mem_singleton.mp member] at present
          exact erased (AList.mem_erase.mp present).2
        · intro other member
          rw [List.mem_singleton.mp member]
          exact erased

theorem construct_cut {coder : BiCoder α} {place : Place} {files : FileSystem} {order : List Text}
    (rests : Rests coder place files order) (count : Nat) :
    RestsWithin coder place (perform ((constructActions place files).take count) files) order := by
  have noState : place.stateFilePath ∉ files.erase place.stateFilePath := fun present =>
    (AList.mem_erase.mp present).1 rfl
  have loads := load_cut rests.shelf noState rests.ascending
  unfold constructActions
  rw [rests.found]
  by_cases present : place.stateFilePath ∈ files
  · rw [if_pos present]
    cases count with
    | zero => exact rests.within
    | succ count => exact loads count
  · rw [if_neg present]
    rw [erase_absent present] at loads
    exact loads count

theorem zero_gone {coder : BiCoder α} {q : PersistedQueue α} (stored : q.Stored coder) :
    q.place.pagePath ['0'] ∉ q.files := by
  intro present
  have listed := stored.listed _ present (q.place.isQueueFile_pagePath digits_zero)
  exact (stored.named _ listed).ne_zero rfl

theorem next_gone {coder : BiCoder α} {now : Nat} {q : PersistedQueue α} (stored : q.Stored coder)
    (fresh : q.Fresh now) : q.place.pagePath (q.nextSeq now).text ∉ q.files :=
  fun present => fresh (stored.listed _ present (q.place.isQueueFile_pagePath (q.nextSeq now).digits_text))

theorem unwritten_within {coder : BiCoder α} {now : Nat} {q : PersistedQueue α} (stored : q.Stored coder)
    (fresh : q.pages.same = false → q.Fresh now) (ascending : Ascending q.place (q.closingOrder now)) :
    RestsWithin coder q.place q.files (q.closingOrder now) := by
  have names : Ascending q.place q.persistedFileNames := by
    apply ascending.sublist
    rw [closingOrder]
    exact (List.sublist_append_right _ _).trans (List.sublist_append_left _ _)
  refine ⟨_,q.persistedFileNames,_,rfl,rests_scanned stored.shelf stored.noState names,?_,?_⟩
  · intro name member
    by_cases drained : q.pages.first = []
    · simp [drained] at member
    · simp only [if_neg drained,List.mem_singleton] at member
      exact member ▸ zero_gone stored
  · intro name member
    cases same : q.pages.same with
    | true => simp [same] at member
    | false =>
      simp only [same,Bool.false_eq_true,if_false,List.mem_singleton] at member
      exact member ▸ next_gone stored (fresh same)

theorem front_within {coder : BiCoder α} {now : Nat} (ten : TenDigits now) {q : PersistedQueue α}
    (stored : q.Stored coder) (filled : q.pages.first ≠ []) (separate : q.pages.same = false) (fresh : q.Fresh now)
    (ascending : Ascending q.place (q.closingOrder now)) {front : Text}
    (holds : coder.decodePage front = some q.pages.first) :
    RestsWithin coder q.place (q.files.insert (q.place.pagePath ['0']) front) (q.closingOrder now) := by
  have order : q.closingOrder now =
      [] ++ (q.place.pagePath ['0'] :: q.persistedFileNames) ++ [q.place.pagePath (q.nextSeq now).text] := by
    simp [closingOrder,filled,separate]
  have shelf := stored.shelf.addFront stored.named holds filled
  have noState : q.place.stateFilePath ∉ q.files.insert (q.place.pagePath ['0']) front :=
    q.place.filed_noState digits_zero stored.noState
  rw [order] at ascending ⊢
  refine ⟨[],_,_,rfl,rests_scanned shelf noState ?_,fun _ member => (by cases member),?_⟩
  · exact ascending.sublist (List.sublist_append_left _ _)
  · intro name member present
    rw [List.mem_singleton.mp member] at present
    rcases (AList.mem_insert _).mp present with isZero | old
    · exact SeqNumber.text_ne_zero (s := q.nextSeq now) ten (q.place.pagePath_injective isZero)
    · exact next_gone stored fresh old

theorem pages_cut {coder : BiCoder α} (faithful : coder.Faithful) {now : Nat} (ten : TenDigits now)
    {q : PersistedQueue α} (stored : q.Stored coder) (fresh : q.pages.same = false → q.Fresh now)
    (ascending : Ascending q.place (q.closingOrder now)) (count : Nat) :
    RestsWithin coder q.place (perform ((pageActions coder now q).take count) q.files) (q.closingOrder now) := by
  have holdsFront := (faithful.page q.pages.first).2
  have holdsBack := (faithful.page q.pages.last).2
  rcases Nat.lt_or_ge count (pageActions coder now q).length with early | late
  · cases count with
    | zero => exact unwritten_within stored fresh ascending
    | succ count =>
      have both : q.pages.first ≠ [] ∧ q.pages.same = false ∧ count = 0 := by
        unfold pageActions at early
        by_cases drained : q.pages.first = [] <;> cases same : q.pages.same <;> simp [drained,same] at early ⊢
        omega
      obtain ⟨filled,separate,rfl⟩ := both
      have performed : perform ((pageActions coder now q).take (0 + 1)) q.files =
          q.files.insert (q.place.pagePath ['0']) (coder.pageText q.pages.first) := by
        simp [pageActions,filled,FileAction.apply]
      rw [performed]
      exact front_within ten stored filled separate (fresh separate) ascending holdsFront
  · rw [List.take_of_length_le late,perform_pageActions]
    obtain ⟨shelf,_,noState⟩ := closed_shelf ten stored fresh holdsFront holdsBack
    exact (rests_scanned shelf noState ascending).within

theorem lines_cut {coder : BiCoder α} {place : Place} {files : FileSystem} {order : List Text}
    (shelf : Shelf coder place files order) {count : Nat} (early : count < order.length) :
    ¬ Recovers coder place order (files.insert place.stateFilePath (unlines (order.take count))) := by
  rintro ⟨_,recovered⟩
  obtain ⟨q,built,content⟩ := recovered 0 0
  have single : ∀ name ∈ order.take count, OneLine name := fun name member =>
    named_oneLine (shelf.named name (List.mem_of_mem_take member))
  have kept := shelf.withState (unlines (order.take count))
  have erased := kept.withoutState
  have loaded := load_loaded coder 0 place 0
    ((files.insert place.stateFilePath (unlines (order.take count))).erase place.stateFilePath) (order.take count)
  obtain ⟨_,taken⟩ := loaded_content (erased.distinct.sublist (List.take_sublist _ _))
    (fun name member => erased.filled name (List.mem_of_mem_take member)) loaded
  rw [construct_listed _ _ (AList.lookup_insert _),lines_unlines _ single] at built
  rw [built] at taken
  have present : ∀ name ∈ order, name ∈ files.insert place.stateFilePath (unlines (order.take count)) := by
    intro name member
    obtain ⟨page,found,_⟩ := kept.filled name member
    exact pageAt_mem found
  have whole : order.filter (· ∈ files.insert place.stateFilePath (unlines (order.take count))) = order :=
    List.filter_eq_self.mpr fun name member => by simpa using present name member
  have apart : ∀ {names : List Text}, names.Sublist order → place.stateFilePath ∉ names := fun within member =>
    named_ne_state (shelf.named _ (within.subset member)) rfl
  rw [whole] at content
  have short := taken.symm.trans content
  rw [pagesOf_erase (apart (List.take_sublist _ _)),pagesOf_insert _ (apart (List.take_sublist _ _)),
    pagesOf_insert _ (apart (List.Sublist.refl _))] at short
  have split := pagesOf_append coder files (order.take count) (order.drop count)
  rw [List.take_append_drop,short] at split
  have empty : pagesOf coder files (order.drop count) = [] := by
    simpa using split
  cases rest : order.drop count with
  | nil =>
    have past := List.drop_eq_nil_iff.mp rest
    omega
  | cons name others =>
    obtain ⟨page,found,filled⟩ := shelf.filled name (List.mem_of_mem_drop (rest ▸ List.mem_cons_self))
    rw [rest,pagesOf_cons found] at empty
    exact filled (List.append_eq_nil_iff.mp empty).1

theorem shutdown_within {coder : BiCoder α} (faithful : coder.Faithful) {now : Nat} (ten : TenDigits now)
    {q : PersistedQueue α} (stored : q.Stored coder) (fresh : q.pages.same = false → q.Fresh now)
    (ascending : Ascending q.place (q.closingOrder now)) {count : Nat}
    (outside : count ≤ (pageActions coder now q).length ∨ (shutdownActions coder now q).length ≤ count) :
    RestsWithin coder q.place (perform ((shutdownActions coder now q).take count) q.files) (q.closingOrder now) := by
  rcases outside with early | whole
  · rw [shutdownActions,List.take_append_of_le_length early]
    exact pages_cut faithful ten stored fresh ascending count
  · obtain ⟨shelf,_,noState⟩ :=
      closed_shelf ten stored fresh (faithful.page q.pages.first).2 (faithful.page q.pages.last).2
    rw [List.take_of_length_le whole,shutdownActions,perform_append,perform_pageActions,perform_stateActions]
    exact (rests_shelved shelf noState ascending).within

theorem shutdown_cut {coder : BiCoder α} (faithful : coder.Faithful) {now : Nat} (ten : TenDigits now)
    {q : PersistedQueue α} (stored : q.Stored coder) (fresh : q.pages.same = false → q.Fresh now)
    (ascending : Ascending q.place (q.closingOrder now)) (count : Nat) :
    Recovers coder q.place (q.closingOrder now) (perform ((shutdownActions coder now q).take count) q.files) ↔
      count ≤ (pageActions coder now q).length ∨ (shutdownActions coder now q).length ≤ count := by
  refine ⟨fun recovers => ?_,fun outside => (shutdown_within faithful ten stored fresh ascending outside).recovers⟩
  by_contra inside
  obtain ⟨later,within⟩ := not_or.mp inside
  have listed : q.closingOrder now ≠ [] := by
    intro unlisted
    rw [shutdownActions,stateActions,if_pos unlisted,List.append_nil] at within
    omega
  obtain ⟨lines,equal⟩ : ∃ lines, count = (pageActions coder now q).length + (lines + 1) :=
    ⟨count - (pageActions coder now q).length - 1,by omega⟩
  have performed : perform ((shutdownActions coder now q).take count) q.files =
      (q.closed now (coder.pageText q.pages.first) (coder.pageText q.pages.last)).files.insert
        q.place.stateFilePath (unlines ((q.closingOrder now).take lines)) := by
    rw [shutdownActions,equal,List.take_length_add_append,perform_append,perform_pageActions,stateActions,
      if_neg listed,List.take_succ_cons,perform_cons,FileAction.apply,← List.map_take,perform_lines,List.nil_append]
  have shelf := (closed_shelf ten stored fresh (faithful.page q.pages.first).2 (faithful.page q.pages.last).2).1
  rw [performed] at recovers
  refine lines_cut shelf ?_ recovers
  rw [shutdownActions,List.length_append,stateActions,if_neg listed,List.length_cons,List.length_map] at within
  omega

-- A world in which the process can die inside a constructor or a shutdown too,
-- after some of its actions.
inductive Fate (α : Type) where
  | completes (o : Occurrence α)
  | diesConstructing (now count : Nat)
  | diesClosing (now count : Nat)

def mortal (coder : BiCoder α) (place : Place) : Machine (World α) (Fate α) (Option (Reply α)) where
  step w fate :=
    match w.phase,fate with
    | _,.completes o => (world coder place).step w o
    | .absent files,.diesConstructing now count =>
      (none,⟨now,.absent (perform ((constructActions place files).take count) files)⟩)
    | .present _ q,.diesClosing now count =>
      (none,⟨now,.absent (perform ((shutdownActions coder now q).take count) q.files)⟩)
    | phase,.diesConstructing now _ => (none,⟨now,phase⟩)
    | phase,.diesClosing now _ => (none,⟨now,phase⟩)

def OutsideStateFile (coder : BiCoder α) (w : World α) (now count : Nat) : Prop :=
  match w.phase with
  | .absent _ => True
  | .present _ q => count ≤ (pageActions coder now q).length ∨ (shutdownActions coder now q).length ≤ count

instance (coder : BiCoder α) (now count : Nat) : (w : World α) → Decidable (OutsideStateFile coder w now count)
  | ⟨_,.absent _⟩ => isTrue trivial
  | ⟨_,.present _ q⟩ => inferInstanceAs
      (Decidable (count ≤ (pageActions coder now q).length ∨ (shutdownActions coder now q).length ≤ count))

-- Numbers ascend over all lifetimes and stay within four digits of counter.
def InSequence (w : World α) (o : Occurrence α) : Prop := Clean SeqNumber.Before 10000 w o

instance (w : World α) (o : Occurrence α) : Decidable (InSequence w o) :=
  inferInstanceAs (Decidable (Clean SeqNumber.Before 10000 w o))

def Spared (coder : BiCoder α) (w : World α) : Fate α → Prop
  | .completes o => InSequence w o
  | .diesConstructing now _ => OnTime w (⟨now,.crash⟩ : Occurrence α)
  | .diesClosing now count => InSequence w ⟨now,.destroy⟩ ∧ OutsideStateFile coder w now count

instance (coder : BiCoder α) (w : World α) : (fate : Fate α) → Decidable (Spared coder w fate)
  | .completes o => inferInstanceAs (Decidable (InSequence w o))
  | .diesConstructing now _ => inferInstanceAs (Decidable (OnTime w (⟨now,.crash⟩ : Occurrence α)))
  | .diesClosing now count => inferInstanceAs (Decidable (InSequence w ⟨now,.destroy⟩ ∧ OutsideStateFile coder w now count))

structure Safe (coder : BiCoder α) (place : Place) (w : World α) : Prop where
  orderly : Orderly 10000 coder place w
  ascending : Ascending place (w.names place)

theorem safe_rests {coder : BiCoder α} {place : Place} {clock : Nat} {files : FileSystem} :
    Safe coder place ⟨clock,.absent files⟩ ↔ ∃ order, Rests coder place files order := by
  constructor
  · exact fun safe => ⟨_,safe.orderly,rfl,safe.ascending⟩
  · rintro ⟨order,shelf,found,ascending⟩
    subst found
    exact ⟨shelf,ascending⟩

theorem called_names {coder : BiCoder α} {now : Nat} {q after : PersistedQueue α} {op : Op α} {reply : Reply α}
    (called : Called coder now q op reply after) :
    after.persistedFileNames.Sublist q.persistedFileNames ∨
      q.Saves op ∧ after.persistedFileNames = q.persistedFileNames ++ [q.place.pagePath (q.nextSeq now).text] := by
  have refilledNames : ∀ {result : Result α Unit}, Refilled coder q result →
      result.2.persistedFileNames.Sublist q.persistedFileNames := by
    intro result refilled
    cases refilled with
    | kept => exact List.Sublist.refl _
    | joined => exact List.Sublist.refl _
    | loaded drained listed found =>
      rw [listed]
      exact List.sublist_cons_self _ _
    | failed e drained listed missing =>
      rw [listed]
      exact List.sublist_cons_self _ _
  cases called with
  | pushedBack pushed =>
    cases pushed with
    | room free => exact .inl (List.Sublist.refl _)
    | opened full shared => exact .inl (List.Sublist.refl _)
    | spilled spills holds => exact .inr ⟨spills,rfl⟩
  | pushedFront => exact .inl (List.Sublist.refl _)
  | popped refilled => exact .inl (refilledNames refilled)
  | seen refilled => exact .inl (refilledNames refilled)
  | popFailed refilled => exact .inl (refilledNames refilled)
  | frontFailed refilled => exact .inl (refilledNames refilled)

theorem before_strict (s : SeqNumber) : ¬ s.Before s := fun before => before.ne rfl

theorem safe_closing (now : Nat) {coder : BiCoder α} {place : Place} {clock : Nat} {inherited : List Text}
    {q : PersistedQueue α} (safe : Safe coder place ⟨clock,.present inherited q⟩)
    (inSequence : InSequence ⟨clock,.present inherited q⟩ (⟨now,.destroy⟩ : Occurrence α)) :
    (q.pages.same = false → q.Fresh now) ∧ Ascending place (q.closingOrder now) := by
  obtain ⟨⟨stored,counted,placed⟩,ascending⟩ := safe
  subst placed
  refine ⟨orderly_fresh before_strict stored counted (by decide) inSequence,ascending_closing stored ascending ?_ ?_⟩
  · exact fun separate => next_small inSequence.onTime.2 (inSequence.inSecond separate)
  · exact fun separate => next_largest stored counted ascending inSequence.onTime.1 inSequence.onTime.2
      (inSequence.inSecond separate) (inSequence.apart separate)

theorem safe_step {coder : BiCoder α} (faithful : coder.Faithful) {place : Place} {w : World α} {o : Occurrence α}
    (safe : Safe coder place w) (inSequence : InSequence w o) : Safe coder place ((world coder place).step w o).2 := by
  refine ⟨orderly_step (by decide) (by decide) before_strict faithful safe.orderly inSequence,?_⟩
  obtain ⟨now,event⟩ := o
  obtain ⟨clock,phase⟩ := w
  cases phase with
  | absent files =>
    cases event with
    | construct maxItemsPerPage =>
      obtain ⟨q,loaded,_,_,_,_,_,within⟩ :=
        load_shelf now safe.orderly (fun present => (AList.mem_erase.mp present).1 rfl) maxItemsPerPage
      simp only [world,construct_found,loaded]
      exact safe.ascending.sublist within
    | call op => exact safe.ascending
    | destroy => exact safe.ascending
    | crash => exact safe.ascending
  | present inherited q =>
    have closing := safe_closing now safe
    obtain ⟨⟨stored,counted,placed⟩,ascending⟩ := safe
    cases event with
    | construct maxItemsPerPage => exact ascending
    | call op =>
      subst placed
      rcases called_names (call_called faithful inSequence.onTime.2 stored.live op) with within | ⟨saves,names⟩
      · exact ascending.sublist within
      · change Ascending q.place (PersistedQueue.persistedFileNames _)
        rw [names]
        apply ascending.snoc (next_small inSequence.onTime.2 (inSequence.inSecond saves))
        exact next_largest stored counted ascending inSequence.onTime.1 inSequence.onTime.2
          (inSequence.inSecond saves) (inSequence.apart saves)
    | destroy =>
      obtain ⟨fresh,order⟩ := closing inSequence
      obtain ⟨front,back,holdsFront,holdsBack,shut⟩ := shutdown_shelved faithful inSequence.onTime.2 q
      obtain ⟨shelf,_,noState⟩ := closed_shelf inSequence.onTime.2 stored fresh holdsFront holdsBack
      subst placed
      simp only [world,shut]
      change Ascending q.place (foundNames q.place _)
      rw [(foundNames_shelved shelf noState).1]
      exact order
    | crash =>
      subst placed
      change Ascending q.place (foundNames q.place q.files)
      rw [foundNames,AList.lookup_eq_none.mpr stored.noState]
      change Ascending q.place ((q.files.keys.filter q.place.isQueueFile).insertionSort (· ≤ ·))
      rw [scan_sorted stored.shelf ascending.inOrder]
      exact ascending

theorem safe_within {coder : BiCoder α} {place : Place} {clock : Nat} {files : FileSystem} {order : List Text}
    (within : RestsWithin coder place files order) : Safe coder place ⟨clock,.absent files⟩ := by
  obtain ⟨_,rest,_,_,rests,_⟩ := within
  exact safe_rests.mpr ⟨rest,rests⟩

theorem safe_later {coder : BiCoder α} {place : Place} {clock now : Nat} {phase : Phase α}
    (safe : Safe coder place ⟨clock,phase⟩) (forward : clock ≤ now) : Safe coder place ⟨now,phase⟩ := by
  cases phase with
  | absent files => exact ⟨safe.orderly,safe.ascending⟩
  | present inherited q =>
    obtain ⟨stored,counted,placed⟩ := safe.orderly
    exact ⟨⟨stored,counted.later forward,placed⟩,safe.ascending⟩

theorem safe_fate {coder : BiCoder α} (faithful : coder.Faithful) {place : Place} {w : World α} {fate : Fate α}
    (safe : Safe coder place w) (spared : Spared coder w fate) : Safe coder place ((mortal coder place).step w fate).2 := by
  obtain ⟨clock,phase⟩ := w
  cases fate with
  | completes o => exact safe_step faithful safe spared
  | diesConstructing now count =>
    cases phase with
    | absent files =>
      obtain ⟨order,rests⟩ := safe_rests.mp safe
      exact safe_within (construct_cut rests count)
    | present inherited q => exact safe_later safe spared.1
  | diesClosing now count =>
    obtain ⟨inSequence,outside⟩ := spared
    cases phase with
    | absent files => exact safe_later safe inSequence.onTime.1
    | present inherited q =>
      obtain ⟨fresh,ascending⟩ := safe_closing _ safe inSequence
      obtain ⟨stored,_,placed⟩ := safe.orderly
      subst placed
      exact safe_within (shutdown_within faithful inSequence.onTime.2 stored fresh ascending outside)

-- After any clean run, earlier deaths included: a constructor can die anywhere,
-- a shutdown anywhere but between the creation of the state file and its last line.
theorem crash_strands_no_page {coder : BiCoder α} (faithful : coder.Faithful) {place : Place} {files : FileSystem}
    (vacant : Vacant place files) (opening : Nat) (fates : List (Fate α))
    (admitted : (mortal coder place).Admits (Spared coder) ⟨opening,.absent files⟩ fates) :
    let w := ((mortal coder place).run ⟨opening,.absent files⟩ fates).2
    (∀ left, w.phase = .absent left → ∀ count,
      Recovers coder place (foundNames place left) (perform ((constructActions place left).take count) left)) ∧
    (∀ inherited q, w.phase = .present inherited q → ∀ now, InSequence w ⟨now,.destroy⟩ → ∀ count,
      (Recovers coder place (q.closingOrder now) (perform ((shutdownActions coder now q).take count) q.files) ↔
        count ≤ (pageActions coder now q).length ∨ (shutdownActions coder now q).length ≤ count)) := by
  have start : Safe coder place ⟨opening,.absent files⟩ := by
    have shelf : Shelf coder place files [] := (opened_stored coder vacant 0).shelf
    exact safe_rests.mpr ⟨[],rests_scanned shelf vacant.noState ⟨List.Pairwise.nil,fun _ member => by cases member⟩⟩
  have safe := run_preserves (fun _ _ => safe_fate faithful) start admitted
  intro w
  have safe : Safe coder place w := safe
  obtain ⟨clock,phase⟩ := w
  constructor
  · rintro left rfl count
    obtain ⟨order,rests⟩ := safe_rests.mp safe
    rw [rests.found]
    exact (construct_cut rests count).recovers
  · rintro inherited q rfl now inSequence count
    obtain ⟨fresh,ascending⟩ := safe_closing _ safe inSequence
    obtain ⟨stored,_,placed⟩ := safe.orderly
    subst placed
    exact shutdown_cut faithful inSequence.onTime.2 stored fresh ascending count

def twoPages : List (Fate Bool) :=
  [.completes ⟨1500000000,.construct 1⟩,.completes ⟨1500000000,.call (.pushBack true)⟩,
    .completes ⟨1500000000,.call (.pushBack false)⟩]

theorem crash_strands_no_page_before_state :
    ∃ q, ((mortal flagCoder tmpPlace).run ⟨1500000000,.absent ∅⟩ twoPages).2 = ⟨1500000000,.present [] q⟩ ∧
      ∃ recovered, construct (.healthy 1500000001) flagCoder tmpPlace 1
          (perform ((shutdownActions flagCoder 1500000000 q).take 2) q.files) = (.ok (),recovered) ∧
        recovered.content flagCoder = [true,false] := by
  obtain ⟨_,closing⟩ := crash_strands_no_page flagCoder_faithful (vacant_empty tmpPlace) 1500000000 twoPages
    (by decide +kernel)
  have recovers := (closing [] ⟨false,0,0,tmpPlace,1,[],.separate [true] [false],∅⟩ rfl 1500000000 (by decide +kernel)
    2).mpr (by decide +kernel)
  obtain ⟨recovered,built,content⟩ := recovers.2 1500000001 1
  exact ⟨_,rfl,recovered,built,content.trans (by decide +kernel)⟩

-- Dying right after the state file was created leaves both pages on disk and a
-- queue that does not list them.
theorem crash_strands_two_pages :
    ∃ q recovered, ((mortal flagCoder tmpPlace).run ⟨1500000000,.absent ∅⟩ twoPages).2 = ⟨1500000000,.present [] q⟩ ∧
      construct (.healthy 1500000001) flagCoder tmpPlace 1
        (perform ((shutdownActions flagCoder 1500000000 q).take 3) q.files) = (.ok (),recovered) ∧
      recovered.content flagCoder = [] ∧
      pagesOf flagCoder (perform ((shutdownActions flagCoder 1500000000 q).take 3) q.files) (q.closingOrder 1500000000) =
        [true,false] := by
  refine ⟨_,_,rfl,rfl,?_,?_⟩
  · decide +kernel
  · decide +kernel

end Kisscpp
