import Kisscpp.QueueFifo
import Kisscpp.QueueShelf

namespace Kisscpp
open TextLines DecimalText Stepping PersistedQueue

variable {α : Type}

def shelved (place : Place) (order : List Text) (files : FileSystem) : FileSystem :=
  if order = [] then files else files.insert place.stateFilePath (unlines order)

theorem pagesOf_state {coder : BiCoder α} {place : Place} {files : FileSystem} {order : List Text}
    (rack : Rack coder place files order) (text : Text) :
    pagesOf coder ((files.insert place.stateFilePath text).erase place.stateFilePath) order =
      pagesOf coder files order := by
  have apart : place.stateFilePath ∉ order := fun member => named_ne_state (rack.named _ member) rfl
  rw [pagesOf_erase apart,pagesOf_insert _ apart]

theorem rack_loads {coder : BiCoder α} {place : Place} {files : FileSystem} {order : List Text} (now : Nat)
    (rack : Rack coder place files order) (listed : order ≠ []) (maxItemsPerPage : Nat) :
    Loaded coder place maxItemsPerPage
      ((files.insert place.stateFilePath (unlines order)).erase place.stateFilePath) order
      (construct (.healthy now) coder place maxItemsPerPage (shelved place order files)) := by
  have present : (files.insert place.stateFilePath (unlines order)).lookup place.stateFilePath =
      some (unlines order) := AList.lookup_insert _
  rw [shelved,if_neg listed,construct_listed _ _ present,
    lines_unlines order fun name member => named_oneLine (rack.named name member)]
  exact load_loaded coder now place maxItemsPerPage _ order

theorem Rack.stated {coder : BiCoder α} {place : Place} {files : FileSystem} {order : List Text}
    (rack : Rack coder place files order) (text : Text) :
    Rack coder place ((files.insert place.stateFilePath text).erase place.stateFilePath) order := by
  refine rack.congr fun name member => ?_
  have different := named_ne_state (rack.named name member)
  rw [pageAt_erase_ne different,pageAt_insert_ne different]

theorem shelf_loads {coder : BiCoder α} {place : Place} {files : FileSystem} {order : List Text} (now : Nat)
    (shelf : Shelf coder place files order) (noState : place.stateFilePath ∉ files) (maxItemsPerPage : Nat) :
    ∃ found, Shelf coder place found order ∧ place.stateFilePath ∉ found ∧
      (∀ name ∈ order, pageAt coder found name = pageAt coder files name) ∧
      Loaded coder place maxItemsPerPage found order
        (construct (.healthy now) coder place maxItemsPerPage (shelved place order files)) := by
  by_cases unlisted : order = []
  · subst unlisted
    have none : files.keys.filter place.isQueueFile = [] := by
      refine List.filter_eq_nil_iff.mpr fun path member queueFile => ?_
      cases shelf.listed path (AList.mem_keys.mpr member) queueFile
    refine ⟨files,shelf,noState,fun _ _ => rfl,?_⟩
    rw [shelved,if_pos rfl,construct_scan _ _ noState,none]
    exact load_loaded coder now place maxItemsPerPage files []
  · refine ⟨_,(shelf.withState (unlines order)).withoutState,fun again => (AList.mem_erase.mp again).1 rfl,?_,
      rack_loads now shelf.rack unlisted maxItemsPerPage⟩
    intro name member
    have different := named_ne_state (shelf.named name member)
    rw [pageAt_erase_ne different,pageAt_insert_ne different]

theorem shelf_reopens {coder : BiCoder α} {place : Place} {files : FileSystem} {order : List Text} (now : Nat)
    (shelf : Shelf coder place files order) (noState : place.stateFilePath ∉ files) (maxItemsPerPage : Nat) :
    ∃ q, construct (.healthy now) coder place maxItemsPerPage (shelved place order files) = (.ok (),q) ∧
      q.Stored coder ∧ q.content coder = pagesOf coder files order ∧ q.place = place ∧
      q.lastSeqNum = 0 ∧ q.seqNumCount = 0 ∧ q.persistedFileNames.Sublist order := by
  obtain ⟨found,kept,gone,same,loaded⟩ := shelf_loads now shelf noState maxItemsPerPage
  obtain ⟨ok,content⟩ := loaded_content kept.distinct kept.filled loaded
  rw [pagesOf_congr same] at content
  exact ⟨_,Prod.ext ok rfl,loaded_stored kept gone loaded,content,loaded_frame loaded⟩

namespace PersistedQueue

theorem closed_shutDown (down : Bool) (now : Nat) (front back : Text) (q : PersistedQueue α) :
    ({q with shutDown := down}).closed now front back = {q.closed now front back with shutDown := down} := by
  unfold closed
  by_cases drained : q.pages.first = [] <;> cases same : q.pages.same <;>
    simp [drained,filedFront,filedBack,numbered,nextSeq]

theorem shutdown_closed {coder : BiCoder α} (faithful : coder.Faithful) {now : Nat} (ten : TenDigits now)
    (q : PersistedQueue α) :
    q.shutdown (.healthy now) coder =
      (.ok (),{q.closed now (coder.pageText q.pages.first) (coder.pageText q.pages.last) with
        shutDown := true,persistedFileNames := [],
        files := shelved q.place (q.closingOrder now)
          (q.closed now (coder.pageText q.pages.first) (coder.pageText q.pages.last)).files}) := by
  have wrote := writeFirstAndLastPage_closed faithful ten {q with shutDown := true}
  rw [closed_shutDown] at wrote
  have names := q.closed_names now (coder.pageText q.pages.first) (coder.pageText q.pages.last)
  have place := q.closed_place now (coder.pageText q.pages.first) (coder.pageText q.pages.last)
  unfold shutdown
  rw [wrote]
  by_cases unlisted : q.closingOrder now = []
  · simp [writeStateFile,names,unlisted,shelved]
  · simp [writeStateFile,names,unlisted,shelved,place,Io.healthy,List.length_pos_iff]

theorem shutdown_shelved {coder : BiCoder α} (faithful : coder.Faithful) {now : Nat} (ten : TenDigits now)
    (q : PersistedQueue α) :
    ∃ front back, coder.decodePage front = some q.pages.first ∧ coder.decodePage back = some q.pages.last ∧
      q.shutdown (.healthy now) coder =
        (.ok (),{q.closed now front back with
          shutDown := true,persistedFileNames := [],
          files := shelved q.place (q.closingOrder now) (q.closed now front back).files}) :=
  ⟨_,_,(faithful.page q.pages.first).2,(faithful.page q.pages.last).2,shutdown_closed faithful ten q⟩

theorem shutdown_reopens {coder : BiCoder α} (faithful : coder.Faithful) {now : Nat} (ten : TenDigits now)
    {q : PersistedQueue α} (stored : q.Stored coder) (fresh : q.pages.same = false → q.Fresh now) :
    ∃ after, q.shutdown (.healthy now) coder = (.ok (),after) ∧ after.place = q.place ∧
      ∀ reopening maxItemsPerPage, ∃ reopened,
        construct (.healthy reopening) coder q.place maxItemsPerPage after.files = (.ok (),reopened) ∧
        reopened.Stored coder ∧ reopened.content coder = q.content coder ∧ reopened.place = q.place ∧
        reopened.lastSeqNum = 0 ∧ reopened.seqNumCount = 0 ∧
        reopened.persistedFileNames.Sublist (q.closingOrder now) := by
  obtain ⟨front,back,holdsFront,holdsBack,shut⟩ := shutdown_shelved faithful ten q
  obtain ⟨shelf,pages,noState⟩ := closed_shelf ten stored fresh holdsFront holdsBack
  refine ⟨_,shut,q.closed_place now front back,fun reopening maxItemsPerPage => ?_⟩
  rw [← pages]
  exact shelf_reopens reopening shelf noState maxItemsPerPage

inductive Drains (coder : BiCoder α) (now : Nat) : PersistedQueue α → List α → Prop where
  | ended {q after : PersistedQueue α} (popped : q.popFront (.healthy now) coder = (.ok none,after)) :
      Drains coder now q []
  | took {q after : PersistedQueue α} {x : α} {rest : List α}
      (popped : q.popFront (.healthy now) coder = (.ok (some x),after)) (later : Drains coder now after rest) :
      Drains coder now q (x :: rest)

theorem paged_popFront {coder : BiCoder α} {q : PersistedQueue α} (paged : q.Paged coder) (now : Nat) :
    ∃ after, q.popFront (.healthy now) coder = (.ok (q.content coder).head?,after) ∧ after.Paged coder ∧
      after.content coder = (q.content coder).tail := by
  have refilled := refillFirstPage_refilled coder now q
  have answered := (refilled_paged paged refilled).1
  cases ran : q.refillFirstPage (.healthy now) coder with
  | mk result middle =>
    rw [ran] at refilled answered
    simp only at answered
    rw [answered] at refilled
    obtain ⟨kept,same,head,tail⟩ := refilled_first paged refilled
    refine ⟨{middle with pages := middle.pages.updateFirst List.tail},?_,paged_updateFirst _ kept,?_⟩
    · rw [← head]
      simp [popFront,paged.live,ran,answered]
    · rw [content_updateFirst,same,tail]

theorem paged_drains {coder : BiCoder α} (now : Nat) {q : PersistedQueue α} {items : List α}
    (paged : q.Paged coder) (holds : q.content coder = items) : Drains coder now q items := by
  induction items generalizing q with
  | nil =>
    obtain ⟨after,popped,_,_⟩ := paged_popFront paged now
    rw [holds] at popped
    exact .ended popped
  | cons x rest ih =>
    obtain ⟨after,popped,kept,tail⟩ := paged_popFront paged now
    rw [holds] at popped tail
    exact .took popped (ih kept tail)

theorem stored_drains {coder : BiCoder α} (now : Nat) {q : PersistedQueue α} {items : List α}
    (stored : q.Stored coder) (holds : q.content coder = items) : Drains coder now q items :=
  paged_drains now stored.paged holds

theorem Drains.unique {coder : BiCoder α} {now : Nat} {q : PersistedQueue α} {items others : List α}
    (drains : Drains coder now q items) (again : Drains coder now q others) : items = others := by
  induction drains generalizing others with
  | ended popped =>
    cases again with
    | ended => rfl
    | took otherwise =>
      rw [popped] at otherwise
      cases otherwise
  | took popped later ih =>
    cases again with
    | ended otherwise =>
      rw [popped] at otherwise
      cases otherwise
    | took otherwise laterAgain =>
      rw [popped] at otherwise
      cases otherwise
      rw [ih laterAgain]

theorem stored_vacant {coder : BiCoder α} {q : PersistedQueue α} (stored : q.Stored coder)
    (nothing : q.content coder = []) : Vacant q.place q.files := by
  have unlisted : q.persistedFileNames = [] := by
    cases listed : q.persistedFileNames with
    | nil => rfl
    | cons name rest =>
      obtain ⟨page,found,filled⟩ := stored.filled name (by simp [listed])
      rw [content,listed,pagesOf_cons found] at nothing
      simp [filled] at nothing
  refine ⟨fun path present => ?_,stored.noState⟩
  cases queueFile : q.place.isQueueFile path with
  | false => rfl
  | true =>
    have member := stored.listed path present queueFile
    rw [unlisted] at member
    cases member

end PersistedQueue

theorem reopened_keeps_content {coder : BiCoder α} (faithful : coder.Faithful) {place : Place} {files : FileSystem}
    (vacant : Vacant place files) (maxItemsPerPage opening : Nat) :
    ∃ q, construct (.healthy opening) coder place maxItemsPerPage files = (.ok (),q) ∧
      ∀ calls, (session coder).Admits (Bounded counterModulus) ⟨opening,q⟩ calls →
        let old := ((session coder).run ⟨opening,q⟩ calls).2
        ∀ closing, old.clock ≤ closing → TenDigits closing →
          (old.queue.pages.same = false → WithinSecond counterModulus closing old.queue) →
        ∃ after, old.queue.shutdown (.healthy closing) coder = (.ok (),after) ∧
          ∀ reopening pageSize, ∃ reopened,
            construct (.healthy reopening) coder place pageSize after.files = (.ok (),reopened) ∧
            Drains coder reopening reopened (old.queue.content coder) ∧
            (old.queue.content coder = [] → reopened.empty = true ∧ Vacant place reopened.files) := by
  refine ⟨_,construct_vacant coder vacant _ _,?_⟩
  intro calls admitted old closing forward ten within
  have fits : counterModulus ≤ counterModulus := Nat.le_refl _
  have start : Sound counterModulus coder ⟨opening,opened place maxItemsPerPage files⟩ :=
    opened_sound vacant maxItemsPerPage (by decide) opening
  obtain ⟨sound,placed⟩ := sound_run faithful fits start admitted
  have fresh := fun separate => sound.counted.fresh fits forward ten (within separate)
  obtain ⟨after,shut,_,reopens⟩ := shutdown_reopens faithful ten sound.stored fresh
  refine ⟨after,shut,fun reopening pageSize => ?_⟩
  obtain ⟨reopened,built,stored,same,samePlace,_⟩ := reopens reopening pageSize
  have placed : old.queue.place = place := placed
  rw [placed] at built samePlace
  refine ⟨reopened,built,stored_drains reopening stored same,fun nothing => ⟨?_,?_⟩⟩
  · exact (empty_content stored.paged).mpr (same.trans nothing)
  · have left := stored_vacant stored (same.trans nothing)
    rwa [samePlace] at left

theorem reopened_keeps_three_items :
    let old := ((session flagCoder).run ⟨1500000000,opened tmpPlace 1 ∅⟩ (pushes 1500000000 [true,false,true])).2
    ∃ after reopened, old.queue.shutdown (.healthy 1500000001) flagCoder = (.ok (),after) ∧
      construct (.healthy 1500000001) flagCoder tmpPlace 2 after.files = (.ok (),reopened) ∧
      Drains flagCoder 1500000001 reopened [true,false,true] := by
  obtain ⟨q,built,keeps⟩ := reopened_keeps_content flagCoder_faithful (vacant_empty tmpPlace) 1 1500000000
  rw [construct_vacant flagCoder (vacant_empty tmpPlace)] at built
  cases built
  obtain ⟨after,shut,reopens⟩ := keeps (pushes 1500000000 [true,false,true]) (by decide +kernel) 1500000001
    (by decide +kernel) (by decide) (by decide +kernel)
  obtain ⟨reopened,rebuilt,drains,_⟩ := reopens 1500000001 2
  have content : ((session flagCoder).run ⟨1500000000,opened tmpPlace 1 ∅⟩
      (pushes 1500000000 [true,false,true])).2.queue.content flagCoder = [true,false,true] := by decide +kernel
  rw [content] at drains
  exact ⟨after,reopened,shut,rebuilt,drains⟩

theorem missing_file_stops {coder : BiCoder α} (now : Nat) {q : PersistedQueue α} {x y : α} {path : Text}
    {rest : List Text} (live : q.shutDown = false) (pages : q.pages = .separate [x] [y])
    (listed : q.persistedFileNames = path :: rest) (missing : pageAt coder q.files path = none) (items : List α) :
    ¬ Drains coder now q items := by
  have first : q.popFront (.healthy now) coder = (.ok (some x),{q with pages := .separate [] [y]}) := by
    simp [popFront,live,refillFirstPage,pages]
  obtain ⟨e,failed⟩ := load_fails now {q with persistedFileNames := rest,pages := .separate [] [y]} missing
  have second : ({q with pages := .separate [] [y]}).popFront (.healthy now) coder =
      (.error e,{q with persistedFileNames := rest,pages := .separate [] [y]}) := by
    rw [live] at failed
    simp [popFront,live,refillFirstPage,listed,loadFrontFile,failed]
  intro drains
  cases drains with
  | ended popped =>
    rw [first] at popped
    cases popped
  | took popped later =>
    rw [first] at popped
    cases popped
    cases later with
    | ended popped =>
      rw [second] at popped
      cases popped
    | took popped =>
      rw [second] at popped
      cases popped

theorem Spilled.closing {coder : BiCoder α} {now : Nat} (ten : TenDigits now) {x y : α} {q : PersistedQueue α}
    (spilled : Spilled coder now counterModulus x y q) : ∃ path rest, Numbered q.place path ∧
      q.persistedFileNames = path :: rest ∧
      q.closingOrder now = q.place.pagePath ['0'] :: (path :: rest ++ [path]) ∧
      ∀ front back, (q.closed now front back).files =
        (q.files.insert (q.place.pagePath ['0']) front).insert path back := by
  obtain ⟨rest,names⟩ := names_front (fun k => q.place.pagePath (SeqNumber.mk now k).text)
    (show 0 < counterModulus by decide)
  rw [← spilled.names] at names
  have number : (q.nextSeq now).text = (SeqNumber.mk now 0).text := by rw [spilled.next,Nat.mod_self]
  refine ⟨_,rest,⟨⟨now,0⟩,ten,rfl⟩,names,?_,fun front back => ?_⟩
  · simp [closingOrder,spilled.pages,names,number]
  · simp [closed,spilled.pages,filedFront,filedBack,PersistedQueue.numbered,number]

theorem Spilled.reopened {coder : BiCoder α} (faithful : coder.Faithful) {now : Nat} (ten : TenDigits now) {x y : α}
    {q : PersistedQueue α} (spilled : Spilled coder now counterModulus x y q) :
    ∃ after, q.shutdown (.healthy now) coder = (.ok (),after) ∧
      ∀ reopening pageSize, ∃ reopened,
        construct (.healthy reopening) coder q.place pageSize after.files = (.ok (),reopened) ∧
        ∀ items, ¬ Drains coder reopening reopened items := by
  obtain ⟨front,back,holdsFront,holdsBack,shut⟩ := shutdown_shelved faithful ten q
  obtain ⟨path,rest,numbered,names,order,closedFiles⟩ := spilled.closing ten
  have single : ∀ name ∈ q.closingOrder now, OneLine name := by
    intro name member
    rw [order] at member
    rcases List.mem_cons.mp member with zero | later
    · exact named_oneLine (.inl zero)
    · rcases List.mem_append.mp later with listed | last
      · exact named_oneLine (.inr (spilled.stored.named name (names ▸ listed)))
      · exact named_oneLine (.inr (List.mem_singleton.mp last ▸ numbered))
  have unlisted : q.closingOrder now ≠ [] := by rw [order]; simp
  refine ⟨_,shut,fun reopening pageSize => ?_⟩
  simp only [shelved,if_neg unlisted]
  rw [construct_listed _ _ (AList.lookup_insert _),lines_unlines _ single,order,closedFiles]
  generalize filesEq : (((q.files.insert (q.place.pagePath ['0']) front).insert path back).insert
    q.place.stateFilePath _).erase q.place.stateFilePath = files
  have zeroState : q.place.pagePath ['0'] ≠ q.place.stateFilePath := named_ne_state (.inl rfl)
  have found : pageAt coder files (q.place.pagePath ['0']) = some [x] := by
    rw [← filesEq,pageAt_erase_ne zeroState,pageAt_insert_ne zeroState,pageAt_insert_ne numbered.ne_zero.symm,
      pageAt_insert,holdsFront,spilled.pages]
    rfl
  have foundBack : pageAt coder (files.erase (q.place.pagePath ['0'])) path = some [y] := by
    rw [pageAt_erase_ne numbered.ne_zero,← filesEq,pageAt_erase_ne numbered.ne_state,
      pageAt_insert_ne numbered.ne_state,pageAt_insert,holdsBack,spilled.pages]
    rfl
  refine ⟨_,load_many reopening pageSize found foundBack,fun items => ?_⟩
  exact missing_file_stops reopening rfl rfl rfl (by simp [pageAt,listing,PersistedQueue.fresh]) items

theorem full_second_reopens (n : Nat) (full : n = counterModulus) {now : Nat} (ten : TenDigits now) :
    ∃ after, ((session flagCoder).run ⟨now,opened tmpPlace 1 ∅⟩
        (pushes now (false :: false :: List.replicate n false))).2.queue.shutdown (.healthy now) flagCoder =
          (.ok (),after) ∧
      ∀ reopening pageSize, ∃ reopened,
        construct (.healthy reopening) flagCoder tmpPlace pageSize after.files = (.ok (),reopened) ∧
        ∀ items, ¬ Drains flagCoder reopening reopened items := by
  have length : (List.replicate n false).length = counterModulus := by rw [List.length_replicate,full]
  obtain ⟨spilled,_,placed⟩ := spilled_opened flagCoder_faithful (vacant_empty tmpPlace) now ten false false
    (List.replicate n false) (Nat.le_of_eq length)
  rw [length] at spilled
  obtain ⟨after,shut,reopens⟩ := spilled.reopened flagCoder_faithful ten
  rw [placed] at reopens
  exact ⟨after,shut,reopens⟩

-- After 2^32 pages within one second a queue closed in that second overwrites
-- its oldest page, and no reopened queue can be drained.
theorem queue_lost_on_reopen :
    ∃ q, construct (.healthy 1500000000) flagCoder tmpPlace 1 ∅ = (.ok (),q) ∧
      ∃ items, items = false :: false :: List.replicate (2 ^ 32) false ∧
        (session flagCoder).Admits OnClock ⟨1500000000,q⟩ (pushes 1500000000 items) ∧
        ∃ after, ((session flagCoder).run ⟨1500000000,q⟩ (pushes 1500000000 items)).2.queue.shutdown
            (.healthy 1500000000) flagCoder = (.ok (),after) ∧
          ∀ reopening pageSize, ∃ reopened,
            construct (.healthy reopening) flagCoder tmpPlace pageSize after.files = (.ok (),reopened) ∧
            ∀ drained, ¬ Drains flagCoder reopening reopened drained := by
  have ten : TenDigits 1500000000 := by decide
  refine ⟨_,construct_vacant flagCoder (vacant_empty tmpPlace) _ _,_,rfl,
    pushes_onClock flagCoder ten _ (Nat.le_refl _),?_⟩
  exact full_second_reopens (2 ^ 32) rfl ten

end Kisscpp
