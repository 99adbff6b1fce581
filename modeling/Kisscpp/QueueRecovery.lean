import Kisscpp.QueueReopen

namespace Kisscpp
open TextLines DecimalText Stepping PersistedQueue

variable {α : Type}

namespace PersistedQueue

def InOrder (q : PersistedQueue α) : Prop := q.persistedFileNames.Pairwise (· < ·)

theorem issued_lt {clock now : Nat} {q : PersistedQueue α} (behind : q.lastSeqNum ≤ clock) (forward : clock ≤ now)
    (ten : TenDigits now) (within : WithinSecond 10000 now q) {name : Text} (issued : q.Issued 10000 name) :
    name < q.place.pagePath (q.nextSeq now).text := by
  obtain ⟨s,tenOld,small,rfl,own⟩ := issued
  have before := issued_before behind (by decide) forward within own
  have next := nextSeq_small (by decide) (by decide) within
  exact q.place.pagePath_lt (SeqNumber.text_lt tenOld ten small next before)

theorem InOrder.refilled {coder : BiCoder α} {q : PersistedQueue α} {result : Result α Unit} (inOrder : q.InOrder)
    (refilled : Refilled coder q result) : result.2.InOrder := by
  unfold InOrder at *
  cases refilled with
  | kept => exact inOrder
  | joined => exact inOrder
  | loaded drained listed found =>
    rw [listed] at inOrder
    exact (List.pairwise_cons.mp inOrder).2
  | failed e drained listed missing =>
    rw [listed] at inOrder
    exact (List.pairwise_cons.mp inOrder).2

theorem InOrder.called {clock now : Nat} {coder : BiCoder α} {q after : PersistedQueue α} {op : Op α}
    {reply : Reply α} (inOrder : q.InOrder) (counted : q.Counted 10000 [] clock) (forward : clock ≤ now)
    (ten : TenDigits now) (within : q.Saves op → WithinSecond 10000 now q)
    (called : Called coder now q op reply after) : after.InOrder := by
  cases called with
  | pushedBack pushed =>
    cases pushed with
    | room free => exact inOrder
    | opened full shared => exact inOrder
    | spilled spills holds =>
      refine List.pairwise_append.mpr ⟨inOrder,List.pairwise_singleton _ _,?_⟩
      intro name member last isLast
      rw [List.mem_singleton.mp isLast]
      rcases counted.own name member with inherited | issued
      · cases inherited
      · exact issued_lt counted.behind forward ten (within spills) issued
  | pushedFront => exact inOrder
  | popped refilled => exact inOrder.refilled refilled
  | seen refilled => exact inOrder.refilled refilled
  | popFailed refilled => exact inOrder.refilled refilled
  | frontFailed refilled => exact inOrder.refilled refilled

theorem inOrder_run {coder : BiCoder α} (faithful : coder.Faithful) {s : Session α} {calls : List (Call α)}
    (sound : Sound 10000 coder s) (inOrder : s.queue.InOrder)
    (admitted : (session coder).Admits (Bounded 10000) s calls) : ((session coder).run s calls).2.queue.InOrder := by
  have fits : 10000 ≤ counterModulus := by decide
  have kept : ∀ t c, (Sound 10000 coder t ∧ t.queue.InOrder) → Bounded 10000 t c →
      Sound 10000 coder ((session coder).step t c).2 ∧ ((session coder).step t c).2.queue.InOrder := by
    intro t c here bounded
    have called := session_called faithful here.1.stored.live bounded.onClock.2
    exact ⟨(sound_step faithful fits here.1 bounded).1,
      here.2.called here.1.counted bounded.onClock.1 bounded.onClock.2 bounded.within called⟩
  exact (run_preserves kept ⟨sound,inOrder⟩ admitted).2

end PersistedQueue

theorem PersistedQueue.Stored.shelf_perm {coder : BiCoder α} {q : PersistedQueue α} (stored : q.Stored coder)
    {order : List Text} (permuted : order.Perm q.persistedFileNames) : Shelf coder q.place q.files order where
  distinct := permuted.nodup_iff.mpr stored.distinct
  filled name member := stored.filled name (permuted.subset member)
  named name member := .inr (stored.named name (permuted.subset member))
  numbered name member := stored.named name (permuted.subset (List.mem_of_mem_tail member))
  listed path present queueFile := permuted.symm.subset (stored.listed path present queueFile)

theorem scan_shelf {coder : BiCoder α} {place : Place} {files : FileSystem} {order : List Text}
    (shelf : Shelf coder place files order) :
    ((files.keys.filter place.isQueueFile).insertionSort (· ≤ ·)).Perm order := by
  refine (List.perm_insertionSort _ _).trans ?_
  refine (List.perm_ext_iff_of_nodup ((AList.keys_nodup files).filter _) shelf.distinct).mpr ?_
  intro path
  rw [List.mem_filter,← AList.mem_keys]
  constructor
  · exact fun scanned => shelf.listed path scanned.1 scanned.2
  · intro member
    obtain ⟨page,found,_⟩ := shelf.filled path member
    refine ⟨pageAt_mem found,?_⟩
    rcases shelf.named path member with rfl | numbered
    · exact place.isQueueFile_pagePath digits_zero
    · exact numbered.isQueueFile

theorem scan_sorted {coder : BiCoder α} {place : Place} {files : FileSystem} {order : List Text}
    (shelf : Shelf coder place files order) (inOrder : order.Pairwise (· < ·)) :
    (files.keys.filter place.isQueueFile).insertionSort (· ≤ ·) = order :=
  (scan_shelf shelf).eq_of_pairwise' (List.pairwise_insertionSort _ _) (inOrder.imp le_of_lt)

theorem scan_reopens {coder : BiCoder α} {place : Place} {files : FileSystem} {order : List Text} (now : Nat)
    (shelf : Shelf coder place files order) (inOrder : order.Pairwise (· < ·))
    (noState : place.stateFilePath ∉ files) (maxItemsPerPage : Nat) :
    ∃ q, construct (.healthy now) coder place maxItemsPerPage files = (.ok (),q) ∧
      q.Stored coder ∧ q.content coder = pagesOf coder files order := by
  rw [construct_scan _ _ noState,scan_sorted shelf inOrder]
  obtain ⟨q,built,stored,content,_⟩ := load_shelf now shelf noState maxItemsPerPage
  exact ⟨q,built,stored,content⟩

theorem crash_keeps_page_order {coder : BiCoder α} (faithful : coder.Faithful) {place : Place} {files : FileSystem}
    (vacant : Vacant place files) (maxItemsPerPage opening : Nat) :
    ∃ q, construct (.healthy opening) coder place maxItemsPerPage files = (.ok (),q) ∧
      ∀ calls, (session coder).Admits (Bounded 10000) ⟨opening,q⟩ calls →
        let lost := ((session coder).run ⟨opening,q⟩ calls).2.queue
        ∀ reopening pageSize, ∃ recovered,
          construct (.healthy reopening) coder place pageSize lost.files = (.ok (),recovered) ∧
          recovered.content coder = pagesOf coder lost.files lost.persistedFileNames ∧
          Drains coder reopening recovered (pagesOf coder lost.files lost.persistedFileNames) := by
  refine ⟨_,construct_vacant coder vacant _ _,?_⟩
  intro calls admitted lost reopening pageSize
  have start : Sound 10000 coder ⟨opening,opened place maxItemsPerPage files⟩ :=
    opened_sound vacant maxItemsPerPage (by decide) opening
  obtain ⟨sound,placed⟩ := sound_run faithful (by decide) start admitted
  have inOrder := inOrder_run faithful start List.Pairwise.nil admitted
  have placed : lost.place = place := placed
  have shelf := sound.stored.shelf
  have noState := sound.stored.noState
  rw [placed] at shelf noState
  obtain ⟨recovered,built,stored,content⟩ := scan_reopens reopening shelf inOrder noState pageSize
  exact ⟨recovered,built,content,stored_drains reopening stored content⟩

theorem crash_keeps_two_pages :
    let lost := ((session flagCoder).run ⟨1500000000,opened tmpPlace 1 ∅⟩
      (pushes 1500000000 [true,false,true,false])).2.queue
    ∃ recovered, construct (.healthy 1500000001) flagCoder tmpPlace 3 lost.files = (.ok (),recovered) ∧
      Drains flagCoder 1500000001 recovered [false,true] := by
  obtain ⟨q,built,keeps⟩ := crash_keeps_page_order flagCoder_faithful (vacant_empty tmpPlace) 1 1500000000
  rw [construct_vacant flagCoder (vacant_empty tmpPlace)] at built
  cases built
  obtain ⟨recovered,rebuilt,_,drains⟩ := keeps (pushes 1500000000 [true,false,true,false]) (by decide +kernel)
    1500000001 3
  have pages : pagesOf flagCoder
      ((session flagCoder).run ⟨1500000000,opened tmpPlace 1 ∅⟩ (pushes 1500000000 [true,false,true,false])).2.queue.files
      ((session flagCoder).run ⟨1500000000,opened tmpPlace 1 ∅⟩
        (pushes 1500000000 [true,false,true,false])).2.queue.persistedFileNames = [false,true] := by decide +kernel
  rw [pages] at drains
  exact ⟨recovered,rebuilt,drains⟩

theorem sort_moves_last {coder : BiCoder α} {files : FileSystem} {init sorted : List Text} {early late : Text}
    {before : List α} {z : α} (member : early ∈ init) (less : late < early)
    (filled : ∀ name ∈ init, ∃ page, pageAt coder files name = some page ∧ page ≠ [])
    (apart : z ∉ pagesOf coder files init) (permuted : sorted.Perm (init ++ [late]))
    (inOrder : sorted.Pairwise (· ≤ ·)) : pagesOf coder files sorted ≠ before ++ [z] := by
  rcases List.eq_nil_or_concat sorted with rfl | ⟨front,last,rfl⟩
  · have empty := permuted.symm.eq_nil
    simp at empty
  · rw [List.concat_eq_append] at permuted inOrder ⊢
    have inSorted : early ∈ front ++ [last] := permuted.symm.subset (List.mem_append_left _ member)
    have largest : early ≤ last := by
      rcases List.mem_append.mp inSorted with inFront | isLast
      · exact (List.pairwise_append.mp inOrder).2.2 early inFront last (by simp)
      · exact le_of_eq (List.mem_singleton.mp isLast)
    have inInit : last ∈ init := by
      rcases List.mem_append.mp (permuted.subset (List.mem_append_right front (List.mem_singleton_self last))) with
        inInit | isLate
      · exact inInit
      · rw [List.mem_singleton.mp isLate] at largest
        exact absurd less (not_lt_of_ge largest)
    obtain ⟨page,found,nonempty⟩ := filled last inInit
    rcases List.eq_nil_or_concat page with rfl | ⟨items,b,rfl⟩
    · exact absurd rfl nonempty
    · intro same
      rw [List.concat_eq_append] at found
      rw [pagesOf_append,pagesOf_cons found,pagesOf_nil,List.append_nil,← List.append_assoc] at same
      have equal : b = z := by simpa using (List.append_inj' same rfl).2
      refine apart (List.mem_flatMap.mpr ⟨last,inInit,?_⟩)
      simp [found,equal]

theorem last_apart {coder : BiCoder α} {files : FileSystem} {init : List Text} {late : Text} {before page : List α} {z : α}
    (pages : pagesOf coder files (init ++ [late]) = before ++ [z]) (found : pageAt coder files late = some page)
    (filled : page ≠ []) (fresh : z ∉ before) : z ∉ pagesOf coder files init := by
  rcases List.eq_nil_or_concat page with rfl | ⟨front,b,rfl⟩
  · exact absurd rfl filled
  · rw [List.concat_eq_append] at found
    rw [pagesOf_append,pagesOf_cons found,pagesOf_nil,List.append_nil,← List.append_assoc] at pages
    have others := (List.append_inj' pages rfl).1
    exact fun member => fresh (others ▸ List.mem_append_left _ member)

theorem padded_wider_less : padded 10000 < padded 9999 := by decide +kernel

theorem crowded_second_reorders (n : Nat) (full : n + 1 = 10000) {now : Nat} (ten : TenDigits now) :
    let lost := ((session flagCoder).run ⟨now,opened tmpPlace 1 ∅⟩
      (pushes now (false :: false :: (List.replicate n false ++ [true] ++ [false])))).2.queue
    ∀ reopening pageSize, ∃ recovered,
      construct (.healthy reopening) flagCoder tmpPlace pageSize lost.files = (.ok (),recovered) ∧
      recovered.content flagCoder ≠ pagesOf flagCoder lost.files lost.persistedFileNames := by
  have length : (List.replicate n false ++ [true] ++ [false]).length = 10000 + 1 := by
    simp [← full]
  obtain ⟨spilled,content,placed⟩ := spilled_opened flagCoder_faithful (vacant_empty tmpPlace) now ten false false
    (List.replicate n false ++ [true] ++ [false]) (by rw [length]; decide)
  intro lost reopening pageSize
  have placed : lost.place = tmpPlace := placed
  have last : (List.replicate n false ++ [true] ++ [false]).getLastD false = false := by simp
  rw [length,last] at spilled
  have spilled : Spilled flagCoder now (10000 + 1) false false lost := spilled
  have names := spilled.names
  rw [List.range_succ,List.map_append,List.map_singleton,placed] at names
  generalize initEq : (List.range 10000).map (fun k => tmpPlace.pagePath (SeqNumber.mk now k).text) = init at names
  generalize lateEq : tmpPlace.pagePath (SeqNumber.mk now 10000).text = late at names
  have less : late < tmpPlace.pagePath (SeqNumber.mk now 9999).text := by
    rw [← lateEq]
    exact tmpPlace.pagePath_lt (List.append_left_lt padded_wider_less)
  have early : tmpPlace.pagePath (SeqNumber.mk now 9999).text ∈ init := by
    rw [← initEq]
    exact List.mem_map.mpr ⟨9999,List.mem_range.mpr (by decide),rfl⟩
  have content : lost.content flagCoder = false :: false :: (List.replicate n false ++ [true] ++ [false]) := content
  have pages : pagesOf flagCoder lost.files lost.persistedFileNames = false :: List.replicate n false ++ [true] := by
    rw [PersistedQueue.content,spilled.pages] at content
    have ends : pagesOf flagCoder lost.files lost.persistedFileNames ++ [false] =
        (false :: List.replicate n false ++ [true]) ++ [false] := by simpa using content
    exact List.append_cancel_right ends
  obtain ⟨page,found,filled⟩ := spilled.stored.filled late (by rw [names]; simp)
  have apart : true ∉ pagesOf flagCoder lost.files init := by
    refine last_apart (names ▸ pages) found filled ?_
    simp
  have scanned := scan_shelf spilled.stored.shelf
  have shelf := spilled.stored.shelf_perm scanned
  rw [placed] at scanned shelf
  have noState := spilled.stored.noState
  rw [placed] at noState
  obtain ⟨recovered,built,_,recoveredContent,_⟩ := load_shelf reopening shelf noState pageSize
  refine ⟨recovered,?_,?_⟩
  · rw [construct_scan _ _ noState]
    exact built
  · rw [recoveredContent,pages]
    refine sort_moves_last early less ?_ apart (names ▸ scanned) (List.pairwise_insertionSort _ _)
    exact fun name member => spilled.stored.filled name (by rw [names]; exact List.mem_append_left _ member)

-- The page of counter 10000 is read back before those of 1001 to 9999.
theorem crash_reorders_pages :
    ∃ q, construct (.healthy 1500000000) flagCoder tmpPlace 1 ∅ = (.ok (),q) ∧
      ∃ items, items = false :: false :: (List.replicate 9999 false ++ [true] ++ [false]) ∧
        (session flagCoder).Admits OnClock ⟨1500000000,q⟩ (pushes 1500000000 items) ∧
        let lost := ((session flagCoder).run ⟨1500000000,q⟩ (pushes 1500000000 items)).2.queue
        ∀ reopening pageSize, ∃ recovered,
          construct (.healthy reopening) flagCoder tmpPlace pageSize lost.files = (.ok (),recovered) ∧
          recovered.content flagCoder ≠ pagesOf flagCoder lost.files lost.persistedFileNames := by
  have ten : TenDigits 1500000000 := by decide
  refine ⟨_,construct_vacant flagCoder (vacant_empty tmpPlace) _ _,_,rfl,
    pushes_onClock flagCoder ten _ (Nat.le_refl _),?_⟩
  exact crowded_second_reorders 9999 rfl ten

end Kisscpp
