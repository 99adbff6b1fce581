import Kisscpp.QueueSessions

namespace Kisscpp
open TextLines DecimalText Stepping PersistedQueue

variable {α : Type}

-- Page files in the order of their items. Only the first of them can be the
-- page "0".
structure Rack (coder : BiCoder α) (place : Place) (files : FileSystem) (order : List Text) : Prop where
  distinct : order.Nodup
  filled : ∀ name ∈ order, ∃ page, pageAt coder files name = some page ∧ page ≠ []
  named : ∀ name ∈ order, name = place.pagePath ['0'] ∨ Numbered place name
  numbered : ∀ name ∈ order.tail, Numbered place name

-- What lies between two objects: all page files of the queue.
structure Shelf (coder : BiCoder α) (place : Place) (files : FileSystem) (order : List Text) : Prop where
  distinct : order.Nodup
  filled : ∀ name ∈ order, ∃ page, pageAt coder files name = some page ∧ page ≠ []
  named : ∀ name ∈ order, name = place.pagePath ['0'] ∨ Numbered place name
  numbered : ∀ name ∈ order.tail, Numbered place name
  listed : ∀ path ∈ files, place.isQueueFile path = true → path ∈ order

theorem named_ne_state {place : Place} {name : Text} (named : name = place.pagePath ['0'] ∨ Numbered place name) :
    name ≠ place.stateFilePath := by
  rcases named with rfl | numbered
  · exact place.pagePath_ne_state digits_zero
  · exact numbered.ne_state

theorem named_oneLine {place : Place} {name : Text} (named : name = place.pagePath ['0'] ∨ Numbered place name) :
    OneLine name := by
  rcases named with rfl | ⟨s,_,rfl⟩
  · exact place.oneLine_pagePath digits_zero
  · exact place.oneLine_pagePath s.digits_text

theorem Rack.congr {coder : BiCoder α} {place : Place} {files others : FileSystem} {order : List Text}
    (rack : Rack coder place files order)
    (same : ∀ name ∈ order, pageAt coder others name = pageAt coder files name) : Rack coder place others order := by
  refine ⟨rack.distinct,?_,rack.named,rack.numbered⟩
  intro name member
  rw [same name member]
  exact rack.filled name member

theorem Rack.front {coder : BiCoder α} {place : Place} {files : FileSystem} {name : Text} {rest : List Text}
    (rack : Rack coder place files (name :: rest)) : Rack coder place (files.erase name) rest := by
  have distinct := List.nodup_cons.mp rack.distinct
  have different : ∀ other ∈ rest, other ≠ name := fun other member equal => distinct.1 (equal ▸ member)
  refine ⟨distinct.2,?_,?_,?_⟩
  · intro other member
    rw [pageAt_erase_ne (different other member)]
    exact rack.filled other (List.mem_cons_of_mem _ member)
  · exact fun other member => rack.named other (List.mem_cons_of_mem _ member)
  · exact fun other member => rack.numbered other (List.mem_of_mem_tail member)

theorem Rack.back {coder : BiCoder α} {place : Place} {files : FileSystem} {name : Text} {rest : List Text}
    (rack : Rack coder place files (rest ++ [name])) : Rack coder place (files.erase name) rest := by
  have distinct := List.nodup_append.mp rack.distinct
  have different : ∀ other ∈ rest, other ≠ name := fun other member => distinct.2.2 other member name (by simp)
  refine ⟨distinct.1,?_,?_,?_⟩
  · intro other member
    rw [pageAt_erase_ne (different other member)]
    exact rack.filled other (List.mem_append_left _ member)
  · exact fun other member => rack.named other (List.mem_append_left _ member)
  · intro other member
    refine rack.numbered other ?_
    cases rest with
    | nil => cases member
    | cons first rest => exact List.mem_append_left _ member

theorem Rack.addFront {coder : BiCoder α} {place : Place} {files : FileSystem} {order : List Text}
    (rack : Rack coder place files order) (unzeroed : ∀ name ∈ order, Numbered place name) {contents : Text}
    {page : List α} (holds : coder.decodePage contents = some page) (filled : page ≠ []) :
    Rack coder place (files.insert (place.pagePath ['0']) contents) (place.pagePath ['0'] :: order) ∧
      pagesOf coder (files.insert (place.pagePath ['0']) contents) (place.pagePath ['0'] :: order) =
        page ++ pagesOf coder files order := by
  have different : ∀ name ∈ order, name ≠ place.pagePath ['0'] := fun name member => (unzeroed name member).ne_zero
  have apart : place.pagePath ['0'] ∉ order := fun member => different _ member rfl
  have here := (@pageAt_insert _ coder files (place.pagePath ['0']) _).trans holds
  refine ⟨⟨List.nodup_cons.mpr ⟨apart,rack.distinct⟩,?_,?_,unzeroed⟩,?_⟩
  · intro name member
    rcases List.mem_cons.mp member with rfl | old
    · exact ⟨page,here,filled⟩
    · rw [pageAt_insert_ne (different name old)]
      exact rack.filled name old
  · intro name member
    rcases List.mem_cons.mp member with equal | old
    · exact .inl equal
    · exact .inr (unzeroed name old)
  · rw [pagesOf_cons here,pagesOf_insert _ apart]

theorem Rack.addBack {coder : BiCoder α} {place : Place} {files : FileSystem} {order : List Text}
    (rack : Rack coder place files order) {path : Text} (numbered : Numbered place path) (apart : path ∉ order)
    {contents : Text} {page : List α} (holds : coder.decodePage contents = some page) (filled : page ≠ []) :
    Rack coder place (files.insert path contents) (order ++ [path]) ∧
      pagesOf coder (files.insert path contents) (order ++ [path]) = pagesOf coder files order ++ page := by
  have different : ∀ name ∈ order, name ≠ path := fun name member equal => apart (equal ▸ member)
  have here := (@pageAt_insert _ coder files path _).trans holds
  refine ⟨⟨?_,?_,?_,?_⟩,?_⟩
  · exact List.nodup_append.mpr ⟨rack.distinct,List.nodup_singleton _,fun name member other last =>
      List.mem_singleton.mp last ▸ different name member⟩
  · intro name member
    rcases List.mem_append.mp member with old | new
    · rw [pageAt_insert_ne (different name old)]
      exact rack.filled name old
    · rw [List.mem_singleton.mp new]
      exact ⟨page,here,filled⟩
  · intro name member
    rcases List.mem_append.mp member with old | new
    · exact rack.named name old
    · exact .inr (List.mem_singleton.mp new ▸ numbered)
  · intro name member
    cases order with
    | nil => cases member
    | cons first rest =>
      rcases List.mem_append.mp member with old | new
      · exact rack.numbered name old
      · exact List.mem_singleton.mp new ▸ numbered
  · rw [pagesOf_append,pagesOf_insert _ apart,pagesOf_cons here,pagesOf_nil,List.append_nil]

theorem Shelf.rack {coder : BiCoder α} {place : Place} {files : FileSystem} {order : List Text}
    (shelf : Shelf coder place files order) : Rack coder place files order :=
  ⟨shelf.distinct,shelf.filled,shelf.named,shelf.numbered⟩

theorem Rack.shelf {coder : BiCoder α} {place : Place} {files : FileSystem} {order : List Text}
    (rack : Rack coder place files order)
    (listed : ∀ path ∈ files, place.isQueueFile path = true → path ∈ order) : Shelf coder place files order :=
  ⟨rack.distinct,rack.filled,rack.named,rack.numbered,listed⟩

theorem Shelf.withState {coder : BiCoder α} {place : Place} {files : FileSystem} {order : List Text}
    (shelf : Shelf coder place files order) (text : Text) :
    Shelf coder place (files.insert place.stateFilePath text) order := by
  refine (shelf.rack.congr ?_).shelf ?_
  · exact fun name member => pageAt_insert_ne (named_ne_state (shelf.named name member))
  · intro path present queueFile
    rcases (AList.mem_insert _).mp present with equal | old
    · rw [equal,place.isQueueFile_state] at queueFile
      cases queueFile
    · exact shelf.listed path old queueFile

theorem Shelf.withoutState {coder : BiCoder α} {place : Place} {files : FileSystem} {order : List Text}
    (shelf : Shelf coder place files order) : Shelf coder place (files.erase place.stateFilePath) order := by
  refine (shelf.rack.congr ?_).shelf ?_
  · exact fun name member => pageAt_erase_ne (named_ne_state (shelf.named name member))
  · exact fun path present => shelf.listed path (AList.mem_erase.mp present).2

theorem Shelf.front {coder : BiCoder α} {place : Place} {files : FileSystem} {name : Text} {rest : List Text}
    (shelf : Shelf coder place files (name :: rest)) : Shelf coder place (files.erase name) rest := by
  refine shelf.rack.front.shelf ?_
  intro path present queueFile
  obtain ⟨apart,old⟩ := AList.mem_erase.mp present
  exact (List.mem_cons.mp (shelf.listed path old queueFile)).resolve_left apart

theorem Shelf.back {coder : BiCoder α} {place : Place} {files : FileSystem} {name : Text} {rest : List Text}
    (shelf : Shelf coder place files (rest ++ [name])) : Shelf coder place (files.erase name) rest := by
  refine shelf.rack.back.shelf ?_
  intro path present queueFile
  obtain ⟨apart,old⟩ := AList.mem_erase.mp present
  rcases List.mem_append.mp (shelf.listed path old queueFile) with inRest | isName
  · exact inRest
  · exact absurd (List.mem_singleton.mp isName) apart

theorem Shelf.addFront {coder : BiCoder α} {place : Place} {files : FileSystem} {order : List Text}
    (shelf : Shelf coder place files order) (unzeroed : ∀ name ∈ order, Numbered place name) {contents : Text}
    {page : List α} (holds : coder.decodePage contents = some page) (filled : page ≠ []) :
    Shelf coder place (files.insert (place.pagePath ['0']) contents) (place.pagePath ['0'] :: order) := by
  refine (shelf.rack.addFront unzeroed holds filled).1.shelf ?_
  intro path present queueFile
  rcases (AList.mem_insert _).mp present with equal | old
  · exact List.mem_cons.mpr (.inl equal)
  · exact List.mem_cons_of_mem _ (shelf.listed path old queueFile)

namespace PersistedQueue

def listing (place : Place) (maxItemsPerPage : Nat) (names : List Text) (files : FileSystem) : PersistedQueue α :=
  {fresh place maxItemsPerPage files with persistedFileNames := names}

theorem construct_scan (io : Io) (coder : BiCoder α) {place : Place} {files : FileSystem}
    (absent : place.stateFilePath ∉ files) (maxItemsPerPage : Nat) :
    construct io coder place maxItemsPerPage files =
      (listing place maxItemsPerPage ((files.keys.filter place.isQueueFile).insertionSort (· ≤ ·)) files
        ).loadFirstAndLastPage io coder := by
  have missing : files.lookup place.stateFilePath = none := AList.lookup_eq_none.mpr absent
  simp [construct,fresh,loadPersistedFileNames,missing,loadOrphanedQueueFiles,listing]

theorem construct_listed (io : Io) (coder : BiCoder α) {place : Place} {files : FileSystem} {contents : Text}
    (present : files.lookup place.stateFilePath = some contents) (maxItemsPerPage : Nat) :
    construct io coder place maxItemsPerPage files =
      (listing place maxItemsPerPage (lines contents) (files.erase place.stateFilePath)
        ).loadFirstAndLastPage io coder := by
  simp [construct,fresh,loadPersistedFileNames,present,loadStateFile,listing]

-- Everything load() can do with the names it has found.
inductive Loaded (coder : BiCoder α) (place : Place) (maxItemsPerPage : Nat) (files : FileSystem) :
    List Text → Result α Unit → Prop where
  | nothing : Loaded coder place maxItemsPerPage files [] (.ok (),listing place maxItemsPerPage [] files)
  | one {name : Text} {page : List α} (found : pageAt coder files name = some page) :
      Loaded coder place maxItemsPerPage files [name]
        (.ok (),{listing (α := α) place maxItemsPerPage [] (files.erase name) with pages := .shared page})
  | many {name last : Text} {middle : List Text} {front back : List α}
      (found : pageAt coder files name = some front) (foundBack : pageAt coder (files.erase name) last = some back) :
      Loaded coder place maxItemsPerPage files (name :: (middle ++ [last]))
        (.ok (),{listing (α := α) place maxItemsPerPage middle ((files.erase name).erase last) with
          pages := .separate front back})
  | noFront {name : Text} {rest : List Text} (e : QueueError) (missing : pageAt coder files name = none) :
      Loaded coder place maxItemsPerPage files (name :: rest) (.error e,listing place maxItemsPerPage rest files)
  | noBack {name last : Text} {middle : List Text} {front : List α} (e : QueueError)
      (found : pageAt coder files name = some front) (missing : pageAt coder (files.erase name) last = none) :
      Loaded coder place maxItemsPerPage files (name :: (middle ++ [last]))
        (.error e,listing place maxItemsPerPage middle (files.erase name))

@[simp] theorem listing_names (place : Place) (maxItemsPerPage : Nat) (names : List Text) (files : FileSystem) :
    (listing (α := α) place maxItemsPerPage names files).persistedFileNames = names := rfl

theorem loadBackFile_last (io : Io) (coder : BiCoder α) (place : Place) (maxItemsPerPage : Nat) (middle : List Text)
    (last : Text) (files : FileSystem) :
    (listing place maxItemsPerPage (middle ++ [last]) files).loadBackFile io coder =
      (listing place maxItemsPerPage middle files).loadFromFile io coder last := by
  simp [loadBackFile,listing]

theorem load_many {coder : BiCoder α} {place : Place} {files : FileSystem} {name last : Text} {middle : List Text}
    {front back : List α} (now maxItemsPerPage : Nat) (found : pageAt coder files name = some front)
    (foundBack : pageAt coder (files.erase name) last = some back) :
    (listing place maxItemsPerPage (name :: (middle ++ [last])) files).loadFirstAndLastPage (.healthy now) coder =
      (.ok (),{listing (α := α) place maxItemsPerPage middle ((files.erase name).erase last) with
        pages := .separate front back}) := by
  have loaded := load_page now (listing (α := α) place maxItemsPerPage (middle ++ [last]) files) found
  have loadedBack := load_page now (listing (α := α) place maxItemsPerPage middle (files.erase name)) foundBack
  rw [← loadBackFile_last] at loadedBack
  have long : (name :: (middle ++ [last])).length = middle.length + 2 := by simp
  simp only [listing,fresh] at loaded loadedBack
  simp only [loadFirstAndLastPage,listing,fresh,long,loadFrontFile,loaded,loadedBack]

theorem load_loaded (coder : BiCoder α) (now : Nat) (place : Place) (maxItemsPerPage : Nat) (files : FileSystem)
    (names : List Text) :
    Loaded coder place maxItemsPerPage files names
      ((listing place maxItemsPerPage names files).loadFirstAndLastPage (.healthy now) coder) := by
  match names with
  | [] => exact .nothing
  | name :: rest =>
    have front : (listing (α := α) place maxItemsPerPage (name :: rest) files).loadFrontFile (.healthy now) coder =
        (listing place maxItemsPerPage rest files).loadFromFile (.healthy now) coder name := rfl
    cases found : pageAt coder files name with
    | none =>
      obtain ⟨e,failed⟩ := load_fails now (listing (α := α) place maxItemsPerPage rest files) found
      rw [failed] at front
      cases rest with
      | nil =>
        simp only [loadFirstAndLastPage,listing_names,List.length_singleton,front]
        exact .noFront e found
      | cons second others =>
        simp only [loadFirstAndLastPage,listing_names,List.length_cons,front]
        exact .noFront e found
    | some page =>
      have loaded := load_page now (listing (α := α) place maxItemsPerPage rest files) found
      rw [loaded] at front
      rcases List.eq_nil_or_concat rest with rfl | ⟨middle,last,rfl⟩
      · simp only [loadFirstAndLastPage,listing_names,List.length_singleton,front]
        exact .one found
      · rw [List.concat_eq_append] at front ⊢
        cases foundBack : pageAt coder (files.erase name) last with
        | none =>
          have long : (name :: (middle ++ [last])).length = middle.length + 2 := by simp
          obtain ⟨e,failed⟩ := load_fails now (listing (α := α) place maxItemsPerPage middle (files.erase name)) foundBack
          rw [← loadBackFile_last] at failed
          change _ = (_,listing place maxItemsPerPage (middle ++ [last]) (files.erase name)) at front
          simp only [loadFirstAndLastPage,listing_names,long,front,failed]
          exact .noBack e found foundBack
        | some lastPage =>
          rw [load_many now maxItemsPerPage found foundBack]
          exact .many found foundBack

theorem loaded_content {coder : BiCoder α} {place : Place} {maxItemsPerPage : Nat} {files : FileSystem}
    {names : List Text} {result : Result α Unit} (distinct : names.Nodup)
    (filled : ∀ name ∈ names, ∃ page, pageAt coder files name = some page ∧ page ≠ [])
    (loaded : Loaded coder place maxItemsPerPage files names result) :
    result.1 = .ok () ∧ result.2.content coder = pagesOf coder files names := by
  cases loaded with
  | nothing => exact ⟨rfl,rfl⟩
  | one found =>
    rw [pagesOf_cons found]
    exact ⟨rfl,by simp [content,listing]⟩
  | @many name last middle front back found foundBack =>
    have apart := List.nodup_cons.mp distinct
    have apartLast : last ∉ middle := fun member =>
      (List.nodup_append.mp apart.2).2.2 last member last (by simp) rfl
    have different : last ≠ name := fun equal => apart.1 (by simp [equal])
    have foundLast := (pageAt_erase_ne different).symm.trans foundBack
    have kept : pagesOf coder ((files.erase name).erase last) middle = pagesOf coder files middle := by
      rw [pagesOf_erase apartLast,pagesOf_erase fun member => apart.1 (List.mem_append_left _ member)]
    rw [pagesOf_cons found,pagesOf_append,pagesOf_cons foundLast]
    exact ⟨rfl,by simp [content,listing,fresh,kept]⟩
  | noFront e missing =>
    obtain ⟨page,found,_⟩ := filled _ List.mem_cons_self
    rw [missing] at found
    cases found
  | @noBack name last middle front e found missing =>
    have apart := List.nodup_cons.mp distinct
    have different : last ≠ name := fun equal => apart.1 (by simp [equal])
    obtain ⟨page,foundLast,_⟩ := filled last (by simp)
    rw [pageAt_erase_ne different,foundLast] at missing
    cases missing

theorem loaded_frame {coder : BiCoder α} {place : Place} {maxItemsPerPage : Nat} {files : FileSystem}
    {names : List Text} {result : Result α Unit} (loaded : Loaded coder place maxItemsPerPage files names result) :
    result.2.place = place ∧ result.2.lastSeqNum = 0 ∧ result.2.seqNumCount = 0 ∧
      result.2.persistedFileNames.Sublist names := by
  cases loaded with
  | nothing => exact ⟨rfl,rfl,rfl,List.Sublist.refl _⟩
  | one => exact ⟨rfl,rfl,rfl,List.nil_sublist _⟩
  | many => exact ⟨rfl,rfl,rfl,(List.sublist_append_left _ _).trans (List.sublist_cons_self _ _)⟩
  | noFront => exact ⟨rfl,rfl,rfl,List.sublist_cons_self _ _⟩
  | noBack => exact ⟨rfl,rfl,rfl,(List.sublist_append_left _ _).trans (List.sublist_cons_self _ _)⟩

theorem loaded_paged {coder : BiCoder α} {place : Place} {maxItemsPerPage : Nat} {files : FileSystem}
    {names : List Text} {result : Result α Unit} (rack : Rack coder place files names)
    (loaded : Loaded coder place maxItemsPerPage files names result) : result.2.Paged coder := by
  have ok := (loaded_content rack.distinct rack.filled loaded).1
  cases loaded with
  | nothing => exact ⟨rfl,fun _ => rfl,List.nodup_nil,fun _ member => (by cases member),fun _ member => (by cases member)⟩
  | one => exact ⟨rfl,fun _ => rfl,List.nodup_nil,fun _ member => (by cases member),fun _ member => (by cases member)⟩
  | @many name last middle front back found foundBack =>
    have between := rack.front.back
    refine ⟨rfl,fun shared => (by cases shared),between.distinct,between.filled,?_⟩
    exact fun other member => rack.numbered other (List.mem_append_left _ member)
  | noFront => cases ok
  | noBack => cases ok

theorem loaded_stored {coder : BiCoder α} {place : Place} {maxItemsPerPage : Nat} {files : FileSystem}
    {names : List Text} {result : Result α Unit} (shelf : Shelf coder place files names)
    (noState : place.stateFilePath ∉ files) (loaded : Loaded coder place maxItemsPerPage files names result) :
    result.2.Stored coder := by
  have ok := (loaded_content shelf.distinct shelf.filled loaded).1
  have paged := loaded_paged shelf.rack loaded
  cases loaded with
  | nothing => exact paged.stored (fun separate => by cases separate) shelf.listed noState
  | one =>
    exact paged.stored (fun separate => by cases separate) shelf.front.listed
      (fun present => noState (AList.mem_erase.mp present).2)
  | @many name last middle front back found foundBack =>
    obtain ⟨page,foundLast,filled⟩ := shelf.front.filled last (by simp)
    have same : back = page := Option.some.inj (foundBack.symm.trans foundLast)
    exact paged.stored (fun _ => same ▸ filled) shelf.front.back.listed
      (fun present => noState (AList.mem_erase.mp (AList.mem_erase.mp present).2).2)
  | noFront => cases ok
  | noBack => cases ok

theorem load_shelf {coder : BiCoder α} {place : Place} {files : FileSystem} {order : List Text} (now : Nat)
    (shelf : Shelf coder place files order) (noState : place.stateFilePath ∉ files) (maxItemsPerPage : Nat) :
    ∃ q, (listing place maxItemsPerPage order files).loadFirstAndLastPage (.healthy now) coder = (.ok (),q) ∧
      q.Stored coder ∧ q.content coder = pagesOf coder files order ∧ q.place = place ∧
      q.lastSeqNum = 0 ∧ q.seqNumCount = 0 ∧ q.persistedFileNames.Sublist order := by
  have loaded := load_loaded coder now place maxItemsPerPage files order
  obtain ⟨ok,content⟩ := loaded_content shelf.distinct shelf.filled loaded
  exact ⟨_,Prod.ext ok rfl,loaded_stored shelf noState loaded,content,loaded_frame loaded⟩

def closingOrder (now : Nat) (q : PersistedQueue α) : List Text :=
  (if q.pages.first = [] then [] else [q.place.pagePath ['0']]) ++ q.persistedFileNames ++
    (if q.pages.same then [] else [q.place.pagePath (q.nextSeq now).text])

def closed (now : Nat) (front back : Text) (q : PersistedQueue α) : PersistedQueue α :=
  let fronted := if q.pages.first = [] then q else q.filedFront front
  if q.pages.same then fronted else (fronted.numbered now).filedBack (q.nextSeq now).text back

theorem writeFirstAndLastPage_closed {coder : BiCoder α} (faithful : coder.Faithful) {now : Nat}
    (ten : TenDigits now) (q : PersistedQueue α) :
    q.writeFirstAndLastPage (.healthy now) coder =
      (.ok (),q.closed now (coder.pageText q.pages.first) (coder.pageText q.pages.last)) := by
  have wroteFront := persist_front faithful now q.pages.first q
  have numbered : (q.nextSeq now).text ≠ ['0'] := SeqNumber.text_ne_zero (s := q.nextSeq now) ten
  let fronted := if q.pages.first = [] then q else q.filedFront (coder.pageText q.pages.first)
  have same : fronted.pages = q.pages ∧ fronted.nextSeq now = q.nextSeq now := by
    unfold fronted
    split <;> exact ⟨rfl,rfl⟩
  have wroteBack := persist_back faithful now numbered q.pages.last (fronted.numbered now)
  have started : (if 0 < q.pages.first.length then q.persistToFile (.healthy now) coder ['0'] q.pages.first
      else (.ok (),q)) = (.ok (),fronted) := by
    unfold fronted
    by_cases drained : q.pages.first = []
    · simp [drained]
    · simp [drained,wroteFront,List.length_pos_iff]
  have number : fronted.seqNumber (.healthy now) = ((q.nextSeq now).text,fronted.numbered now) := by
    rw [seqNumber_eq]
    simp [Io.healthy,same.2]
  have pages : (fronted.numbered now).pages = q.pages := same.1
  simp only [writeFirstAndLastPage,started,same.1,number,pages,wroteBack]
  cases shared : q.pages.same with
  | true => simp [closed,shared,fronted]
  | false => simp [closed,shared,fronted]

theorem closed_names (now : Nat) (front back : Text) (q : PersistedQueue α) :
    (q.closed now front back).persistedFileNames = q.closingOrder now := by
  unfold closed closingOrder
  by_cases drained : q.pages.first = [] <;> cases q.pages.same <;> simp [drained,filedFront,filedBack,numbered]

theorem closed_place (now : Nat) (front back : Text) (q : PersistedQueue α) :
    (q.closed now front back).place = q.place := by
  unfold closed
  by_cases drained : q.pages.first = [] <;> cases q.pages.same <;> simp [drained,filedFront,filedBack,numbered]

theorem Stored.shelf {coder : BiCoder α} {q : PersistedQueue α} (stored : q.Stored coder) :
    Shelf coder q.place q.files q.persistedFileNames :=
  ⟨stored.distinct,stored.filled,fun name member => .inr (stored.named name member),
    fun name member => stored.named name (List.mem_of_mem_tail member),stored.listed⟩

theorem Paged.rack {coder : BiCoder α} {q : PersistedQueue α} (paged : q.Paged coder) :
    Rack coder q.place q.files q.persistedFileNames :=
  ⟨paged.distinct,paged.filled,fun name member => .inr (paged.named name member),
    fun name member => paged.named name (List.mem_of_mem_tail member)⟩

theorem mem_closed {now : Nat} {front back : Text} {q : PersistedQueue α} {path : Text}
    (present : path ∈ (q.closed now front back).files) :
    path ∈ q.files ∨ path = q.place.pagePath ['0'] ∨ path = q.place.pagePath (q.nextSeq now).text := by
  unfold closed at present
  by_cases drained : q.pages.first = [] <;> cases same : q.pages.same <;>
    simp [drained,same,filedFront,filedBack,numbered] at present <;> grind

theorem closed_noState {now : Nat} {front back : Text} {q : PersistedQueue α}
    (noState : q.place.stateFilePath ∉ q.files) : q.place.stateFilePath ∉ (q.closed now front back).files := by
  intro present
  rcases mem_closed present with old | zero | new
  · exact noState old
  · exact q.place.pagePath_ne_state digits_zero zero.symm
  · exact q.place.pagePath_ne_state (q.nextSeq now).digits_text new.symm

theorem closed_within {now : Nat} {front back : Text} {q : PersistedQueue α} {path : Text}
    (present : path ∈ (q.closed now front back).files) : path ∈ q.files ∨ path ∈ q.closingOrder now := by
  unfold closed at present
  by_cases drained : q.pages.first = [] <;> cases same : q.pages.same <;>
    simp [drained,same,filedFront,filedBack,numbered] at present <;>
    simp [closingOrder,drained,same] <;> grind

theorem closed_rack {coder : BiCoder α} {now : Nat} (ten : TenDigits now) {front back : Text}
    {q : PersistedQueue α} (paged : q.Paged coder) (filled : q.pages.same = false → q.pages.last ≠ [])
    (fresh : q.pages.same = false → q.Fresh now) (holdsFront : coder.decodePage front = some q.pages.first)
    (holdsBack : coder.decodePage back = some q.pages.last) :
    Rack coder q.place (q.closed now front back).files (q.closingOrder now) ∧
      pagesOf coder (q.closed now front back).files (q.closingOrder now) = q.content coder := by
  have fronted : ∀ files order, files = (if q.pages.first = [] then q else q.filedFront front).files →
      order = (if q.pages.first = [] then [] else [q.place.pagePath ['0']]) ++ q.persistedFileNames →
      Rack coder q.place files order ∧
        pagesOf coder files order = q.pages.first ++ pagesOf coder q.files q.persistedFileNames := by
    intro files order filesEq orderEq
    subst filesEq orderEq
    by_cases drained : q.pages.first = []
    · simpa [drained] using paged.rack
    · simpa [drained,filedFront] using paged.rack.addFront paged.named holdsFront drained
  obtain ⟨rack,pages⟩ := fronted _ _ rfl rfl
  cases same : q.pages.same with
  | true => simpa [closed,closingOrder,same,content,pages] using rack
  | false =>
    have apart : q.place.pagePath (q.nextSeq now).text ∉
        (if q.pages.first = [] then [] else [q.place.pagePath ['0']]) ++ q.persistedFileNames := by
      intro member
      rcases List.mem_append.mp member with zero | listed
      · split at zero
        · cases zero
        · exact SeqNumber.text_ne_zero (s := q.nextSeq now) ten
            (q.place.pagePath_injective (List.mem_singleton.mp zero))
      · exact fresh same listed
    have added := rack.addBack ⟨q.nextSeq now,ten,rfl⟩ apart holdsBack (filled same)
    rw [pages] at added
    have placed : (if q.pages.first = [] then q else q.filedFront front).place = q.place := by
      split <;> rfl
    refine ⟨?_,?_⟩
    · simpa [closed,closingOrder,same,filedBack,numbered,placed] using added.1
    · simpa [closed,closingOrder,same,filedBack,numbered,content,placed] using added.2

theorem closed_shelf {coder : BiCoder α} {now : Nat} (ten : TenDigits now) {front back : Text}
    {q : PersistedQueue α} (stored : q.Stored coder) (fresh : q.pages.same = false → q.Fresh now)
    (holdsFront : coder.decodePage front = some q.pages.first)
    (holdsBack : coder.decodePage back = some q.pages.last) :
    Shelf coder q.place (q.closed now front back).files (q.closingOrder now) ∧
      pagesOf coder (q.closed now front back).files (q.closingOrder now) = q.content coder ∧
      q.place.stateFilePath ∉ (q.closed now front back).files := by
  obtain ⟨rack,pages⟩ := closed_rack ten stored.paged stored.lastFilled fresh holdsFront holdsBack
  refine ⟨rack.shelf ?_,pages,closed_noState stored.noState⟩
  intro path present queueFile
  rcases closed_within present with old | new
  · have member := stored.listed path old queueFile
    exact List.mem_append_left _ (List.mem_append_right _ member)
  · exact new

end PersistedQueue
end Kisscpp
