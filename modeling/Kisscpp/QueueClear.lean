import Kisscpp.QueueSizes

namespace Kisscpp
open TextLines DecimalText Stepping PersistedQueue

variable {α : Type}

namespace PersistedQueue

-- Distinct page files that can be loaded, with any number of items in them and
-- whatever is shared in memory.
structure Loadable (coder : BiCoder α) (q : PersistedQueue α) : Prop where
  live : q.shutDown = false
  distinct : q.persistedFileNames.Nodup
  decodes : ∀ name ∈ q.persistedFileNames, ∃ page, pageAt coder q.files name = some page

-- How far a loop of pops has come: it has taken files from the list, and what
-- is off the list is off the disk. Nothing else is touched.
structure Clearing (q after : PersistedQueue α) : Prop where
  removed : ∀ name ∈ q.persistedFileNames, name ∈ after.persistedFileNames ∨ name ∉ after.files
  others : ∀ path ∉ q.persistedFileNames, after.files.lookup path = q.files.lookup path
  within : after.persistedFileNames ⊆ q.persistedFileNames
  place : after.place = q.place
  pageSize : after.maxItemsPerPage = q.maxItemsPerPage

theorem Clearing.refl (q : PersistedQueue α) : Clearing q q :=
  ⟨fun _ member => .inl member,fun _ _ => rfl,List.Subset.refl _,rfl,rfl⟩

theorem Clearing.trans {q middle after : PersistedQueue α} (earlier : Clearing q middle)
    (later : Clearing middle after) : Clearing q after := by
  refine ⟨?_,?_,fun _ member => earlier.within (later.within member),later.place.trans earlier.place,
    later.pageSize.trans earlier.pageSize⟩
  · intro name member
    by_cases still : name ∈ middle.persistedFileNames
    · exact later.removed name still
    · have gone := (earlier.removed name member).resolve_left still
      refine .inr fun present => gone ?_
      rw [← AList.lookup_isSome,← later.others name still,AList.lookup_isSome]
      exact present
  · intro path foreign
    have foreignLater : path ∉ middle.persistedFileNames := fun member => foreign (earlier.within member)
    exact (later.others path foreignLater).trans (earlier.others path foreign)

theorem Clearing.pages {q after : PersistedQueue α} (clearing : Clearing q after) (pages : Pages α) :
    Clearing q {after with pages := pages} :=
  ⟨clearing.removed,clearing.others,clearing.within,clearing.place,clearing.pageSize⟩

theorem loadable_pages {coder : BiCoder α} {q : PersistedQueue α} (loadable : q.Loadable coder) (pages : Pages α) :
    ({q with pages := pages}).Loadable coder := ⟨loadable.live,loadable.distinct,loadable.decodes⟩

-- The measure of the loop: every call takes an item, or a file off the list.
def remaining (coder : BiCoder α) (q : PersistedQueue α) : Nat :=
  (q.content coder).length + q.persistedFileNames.length

theorem Loadable.erased {coder : BiCoder α} {q : PersistedQueue α} (loadable : q.Loadable coder) {name : Text}
    {rest : List Text} (listed : q.persistedFileNames = name :: rest) (pages : Pages α) :
    name ∉ rest ∧
      ({q with persistedFileNames := rest,files := q.files.erase name,pages := pages}).Loadable coder := by
  have distinct := loadable.distinct
  rw [listed,List.nodup_cons] at distinct
  refine ⟨distinct.1,loadable.live,distinct.2,?_⟩
  intro other member
  have different : other ≠ name := fun equal => distinct.1 (equal ▸ member)
  obtain ⟨items,held⟩ := loadable.decodes other (listed ▸ List.mem_cons_of_mem _ member)
  exact ⟨items,(pageAt_erase_ne different).trans held⟩

theorem Clearing.erased {q : PersistedQueue α} {name : Text} {rest : List Text}
    (listed : q.persistedFileNames = name :: rest) (pages : Pages α) :
    Clearing q {q with persistedFileNames := rest,files := q.files.erase name,pages := pages} := by
  refine ⟨?_,?_,fun other member => listed ▸ List.mem_cons_of_mem _ member,rfl,rfl⟩
  · intro other member
    rw [listed] at member
    rcases List.mem_cons.mp member with rfl | later
    · exact .inr fun present => (AList.mem_erase.mp present).1 rfl
    · exact .inl later
  · intro path foreign
    have different : path ≠ name := fun equal => foreign (by simp [listed,equal])
    exact AList.lookup_erase_ne different

theorem loadable_refilled {coder : BiCoder α} {q : PersistedQueue α} {result : Result α Unit}
    (loadable : q.Loadable coder) (busy : q.empty = false) (refilled : Refilled coder q result) :
    result.1 = .ok () ∧ result.2.Loadable coder ∧ Clearing q result.2 ∧
      result.2.content coder = q.content coder ∧
      (result.2.pages.first ≠ [] ∧ result.2.persistedFileNames.length ≤ q.persistedFileNames.length ∨
        result.2.persistedFileNames.length < q.persistedFileNames.length) := by
  cases refilled with
  | kept filled => exact ⟨rfl,loadable,.refl q,rfl,.inl ⟨filled,Nat.le_refl _⟩⟩
  | joined drained unlisted =>
    have filled : q.pages.last ≠ [] := by
      intro drainedLast
      simp [empty,drained,drainedLast,unlisted] at busy
    exact ⟨rfl,loadable_pages loadable _,(Clearing.refl q).pages _,content_joined coder drained unlisted,
      .inl ⟨filled,Nat.le_refl _⟩⟩
  | @loaded name rest page drained listed found =>
    obtain ⟨apart,kept⟩ := loadable.erased listed (.separate page q.pages.last)
    exact ⟨rfl,kept,.erased listed _,content_loaded drained listed found apart,.inr (by simp [listed])⟩
  | failed e drained listed missing =>
    obtain ⟨page,found⟩ := loadable.decodes _ (by rw [listed]; exact List.mem_cons_self)
    rw [missing] at found
    cases found

theorem loadable_popFront {coder : BiCoder α} (now : Nat) {q : PersistedQueue α} (loadable : q.Loadable coder)
    (busy : q.empty = false) :
    ∃ found after, q.popFront (.healthy now) coder = (.ok found,after) ∧ after.Loadable coder ∧ Clearing q after ∧
      after.remaining coder < q.remaining coder := by
  have refilled := refillFirstPage_refilled coder now q
  obtain ⟨answered,kept,clearing,same,shorter⟩ := loadable_refilled loadable busy refilled
  cases ran : q.refillFirstPage (.healthy now) coder with
  | mk result middle =>
    rw [ran] at answered kept clearing same shorter
    simp only at answered kept clearing same shorter
    refine ⟨middle.pages.first.head?,{middle with pages := middle.pages.updateFirst List.tail},?_,
      loadable_pages kept _,clearing.pages _,?_⟩
    · simp [popFront,loadable.live,ran,answered]
    · have length := congrArg List.length (@content_updateFirst _ coder List.tail middle)
      obtain ⟨later,shape⟩ := content_first coder middle
      have whole := congrArg List.length shape
      rw [same] at length whole
      simp only [List.length_append,List.length_tail,List.length_drop] at length whole
      unfold remaining
      change _ + middle.persistedFileNames.length < _
      rw [length]
      rcases shorter with ⟨filled,fewer⟩ | fewer
      · have positive := List.length_pos_iff.mpr filled
        omega
      · omega

theorem clear_ends {coder : BiCoder α} (now : Nat) {q : PersistedQueue α} (loadable : q.Loadable coder) {calls : Nat}
    (enough : q.remaining coder ≤ calls) :
    ∃ after, q.clear (.healthy now) coder calls = some (.ok (),after) ∧ after.empty = true ∧
      after.Loadable coder ∧ Clearing q after := by
  induction calls generalizing q with
  | zero =>
    cases busy : q.empty with
    | true => exact ⟨q,by simp [clear,busy],busy,loadable,.refl q⟩
    | false =>
      obtain ⟨_,_,_,_,_,fewer⟩ := loadable_popFront now loadable busy
      omega
  | succ calls ih =>
    cases busy : q.empty with
    | true => exact ⟨q,by simp [clear,busy],busy,loadable,.refl q⟩
    | false =>
      obtain ⟨found,middle,popped,kept,clearing,fewer⟩ := loadable_popFront now loadable busy
      obtain ⟨after,cleared,ended,loadableAfter,later⟩ := ih kept (by omega)
      exact ⟨after,by simp [clear,busy,popped,cleared],ended,loadableAfter,clearing.trans later⟩

theorem clear_more {io : Io} {coder : BiCoder α} {calls more : Nat} {q : PersistedQueue α} {result : Result α Unit}
    (ended : q.clear io coder calls = some result) (atLeast : calls ≤ more) : q.clear io coder more = some result := by
  induction calls generalizing q more with
  | zero =>
    cases busy : q.empty with
    | true => cases more <;> simpa [clear,busy] using ended
    | false => simp [clear,busy] at ended
  | succ calls ih =>
    cases more with
    | zero => omega
    | succ more =>
      cases busy : q.empty with
      | true => simpa [clear,busy] using ended
      | false =>
        cases popped : q.popFront io coder with
        | mk answer after =>
          cases answer with
          | error e => simpa [clear,busy,popped] using ended
          | ok found =>
            simp only [clear,busy,popped,Bool.false_eq_true,if_false] at ended ⊢
            exact ih ended (by omega)

theorem Loadable.emptied {coder : BiCoder α} {q : PersistedQueue α} (loadable : q.Loadable coder)
    (positive : 0 < q.maxItemsPerPage) (ended : q.empty = true) :
    Sized coder q ∧ q.content coder = [] ∧ q.size = 0 ∧ q.persistedFileNames = [] := by
  simp only [empty,Bool.and_eq_true,List.isEmpty_iff] at ended
  obtain ⟨⟨drained,drainedLast⟩,unlisted⟩ := ended
  have paged : q.Paged coder := by
    refine ⟨loadable.live,fun _ => unlisted,loadable.distinct,?_,?_⟩
    · intro name member
      rw [unlisted] at member
      cases member
    · intro name member
      rw [unlisted] at member
      cases member
  have full : FullPages coder q := by
    refine ⟨?_,fun _ => by simp [drainedLast]⟩
    intro name member
    rw [unlisted] at member
    cases member
  have nothing : q.content coder = [] := by simp [content,drained,drainedLast,unlisted]
  exact ⟨⟨paged,full,positive⟩,nothing,by rw [size_content paged full,nothing]; rfl,unlisted⟩

end PersistedQueue

def collisionlessRefinement {coder : BiCoder α} (faithful : coder.Faithful) :
    Refinement (session coder) (deque (α := α)) Collisionless where
  invariant s := Sized coder s.queue
  state s := s.queue.content coder
  input := Call.op
  output := id
  preserved _ _ sized collisionless := sized_step faithful sized collisionless
  answered _ _ sized collisionless :=
    congrArg Prod.fst (sized.called collisionless.ten collisionless.fresh
      (session_called faithful sized.paged.live collisionless.ten)).2
  followed _ _ sized collisionless :=
    congrArg Prod.snd (sized.called collisionless.ten collisionless.fresh
      (session_called faithful sized.paged.live collisionless.ten)).2

theorem sized_answers {coder : BiCoder α} (faithful : coder.Faithful) {s : Session α} {calls : List (Call α)}
    (sized : Sized coder s.queue) (admitted : (session coder).Admits Collisionless s calls) :
    Sized coder ((session coder).run s calls).2.queue ∧
      ((session coder).run s calls).1 = (deque.run (s.queue.content coder) (calls.map Call.op)).1 ∧
      ((session coder).run s calls).2.queue.content coder =
        (deque.run (s.queue.content coder) (calls.map Call.op)).2 := by
  obtain ⟨reached,answers,content⟩ := (collisionlessRefinement faithful).run (s := s) sized admitted
  exact ⟨reached,answers.trans (List.map_id _),content⟩

theorem clear_leaves_nothing {coder : BiCoder α} (faithful : coder.Faithful) {q : PersistedQueue α}
    (loadable : q.Loadable coder) (positive : 0 < q.maxItemsPerPage) (now : Nat) :
    ∃ after, (∀ calls, (q.content coder).length + q.persistedFileNames.length ≤ calls →
        q.clear (.healthy now) coder calls = some (.ok (),after)) ∧
      after.empty = true ∧ after.size = 0 ∧ (∀ name ∈ q.persistedFileNames, name ∉ after.files) ∧
      ∀ clock calls, (session coder).Admits Collisionless ⟨clock,after⟩ calls →
        let run := (session coder).run ⟨clock,after⟩ calls
        let list := deque.run [] (calls.map Call.op)
        run.1 = list.1 ∧ run.2.queue.size = list.2.length ∧ (run.2.queue.empty = true ↔ list.2 = []) ∧
          ∀ place files, Vacant place files → ∀ opening,
            (session coder).Admits Collisionless ⟨opening,opened place q.maxItemsPerPage files⟩ calls →
            run.1 = ((session coder).run ⟨opening,opened place q.maxItemsPerPage files⟩ calls).1 := by
  obtain ⟨after,cleared,ended,kept,clearing⟩ := clear_ends now loadable (Nat.le_refl (q.remaining coder))
  have positiveAfter : 0 < after.maxItemsPerPage := by rwa [clearing.pageSize]
  obtain ⟨sized,nothing,size,unlisted⟩ := kept.emptied positiveAfter ended
  refine ⟨after,fun calls enough => clear_more cleared enough,ended,size,?_,?_⟩
  · intro name member
    refine (clearing.removed name member).resolve_left ?_
    rw [unlisted]
    exact List.not_mem_nil
  · intro clock calls admitted run list
    obtain ⟨reached,answers,content⟩ := sized_answers faithful (s := ⟨clock,after⟩) sized admitted
    rw [nothing] at answers content
    refine ⟨answers,?_,?_,?_⟩
    · rw [size_content reached.paged reached.full,content]
    · rw [empty_content reached.paged,content]
    · intro place files vacant opening admittedFresh
      have new : Sized coder (opened place q.maxItemsPerPage files) := opened_sized coder vacant positive
      obtain ⟨_,answersFresh,_⟩ := sized_answers faithful (s := ⟨opening,_⟩) new admittedFresh
      exact answers.trans answersFresh.symm

def crowded : PersistedQueue Bool :=
  ⟨false,1500000000,1,tmpPlace,1,["/tmp/q_15000000000000".toList,"/tmp/q_15000000000001".toList],.shared [true],
    (AList.insert "/tmp/q_15000000000000".toList [] ∅).insert "/tmp/q_15000000000001".toList ['0','\n']⟩

def emptied (lastSeqNum seqNumCount : Nat) : PersistedQueue Bool :=
  ⟨false,lastSeqNum,seqNumCount,tmpPlace,1,[],.separate [] [],∅⟩

theorem crowded_loadable : crowded.Loadable flagCoder := by
  refine ⟨rfl,by decide +kernel,?_⟩
  intro name member
  rcases List.mem_cons.mp member with rfl | later
  · exact ⟨[],rfl⟩
  · rw [List.mem_singleton.mp later]
    exact ⟨[false],rfl⟩

theorem clear_leaves_nothing_crowded :
    ∃ after, crowded.clear (.healthy 1500000000) flagCoder 4 = some (.ok (),after) ∧ after.empty = true ∧
      after.size = 0 ∧
      ((session flagCoder).run ⟨1500000000,after⟩ (pushes 1500000000 [true,false,true] ++ [⟨1500000001,.popFront⟩])).1 =
        [.done,.done,.done,.item (some true)] := by
  obtain ⟨after,ends,nothing,size,_,answers⟩ :=
    clear_leaves_nothing flagCoder_faithful crowded_loadable Nat.one_pos 1500000000
  have cleared := ends 4 (by decide +kernel)
  have same : crowded.clear (.healthy 1500000000) flagCoder 4 = some (.ok (),emptied 1500000000 1) := rfl
  have reached : emptied 1500000000 1 = after := congrArg Prod.snd (Option.some.inj (same.symm.trans cleared))
  subst reached
  obtain ⟨replies,_⟩ := answers 1500000000 (pushes 1500000000 [true,false,true] ++ [⟨1500000001,.popFront⟩])
    (by decide +kernel)
  exact ⟨_,cleared,nothing,size,replies.trans (by decide)⟩

def pushesThenPop (now : Nat) (items : List Bool) : List (Call Bool) := pushes now items ++ [⟨now,.popFront⟩]

theorem run_pop {now : Nat} {s : Session Bool} {items : List Bool} {found : Option Bool} {after : PersistedQueue Bool}
    (popped : ((session flagCoder).run s (pushes now items)).2.queue.popFront (.healthy now) flagCoder =
      (.ok found,after)) :
    ((session flagCoder).run s (pushesThenPop now items)).1.getLast? = some (.item found) := by
  rw [pushesThenPop,run_append]
  generalize (session flagCoder).run s (pushes now items) = reached at popped
  simp [session,call,popped,Reply.ofItem]

theorem popFront_loads {coder : BiCoder α} (now : Nat) {q : PersistedQueue α} {last page : List α} {x : α} {name : Text}
    {rest : List Text} (live : q.shutDown = false) (pages : q.pages = .separate [] last)
    (listed : q.persistedFileNames = name :: rest) (found : pageAt coder q.files name = some (x :: page)) :
    ∃ after, q.popFront (.healthy now) coder = (.ok (some x),after) := by
  obtain ⟨down,second,counter,place,size,names,held,files⟩ := q
  simp only at live pages listed found
  subst live pages listed
  have loaded := load_page now ⟨false,second,counter,place,size,rest,.separate [] last,files⟩ found
  simp [popFront,refillFirstPage,loadFrontFile,loaded]

theorem emptied_piled {now : Nat} (ten : TenDigits now) :
    Piled flagCoder now 0 [] true {emptied 0 0 with pages := .separate [] [true]} := by
  refine ⟨⟨rfl,fun _ => rfl,List.nodup_nil,?_,?_⟩,rfl,rfl,rfl,?_⟩
  · intro name member
    cases member
  · intro name member
    cases member
  · have past : ¬ 0 = now := by
      have := ten.1
      omega
    simp [nextSeq,emptied,past,counterModulus]

-- The last page of its own that clear() can leave is spilled as well: with one
-- page more than on a new queue the numbers of the second are used up.
theorem emptied_pop (n : Nat) (full : n = counterModulus) {now : Nat} (ten : TenDigits now) (opening : Nat) :
    ((session flagCoder).run ⟨opening,emptied 0 0⟩
      (pushesThenPop now (true :: (List.replicate n false ++ [false])))).1.getLast? = some (.item (some false)) := by
  have first : ((session flagCoder).step ⟨opening,emptied 0 0⟩ ⟨now,.pushBack true⟩).2 =
      ⟨now,{emptied 0 0 with pages := .separate [] [true]}⟩ := by
    simp [session,call,pushBack,emptied]
  have length : (List.replicate n false).length = counterModulus := by rw [List.length_replicate,full]
  have free : ∀ q after (z : Bool), True → (q.Spills → q.Fresh now) → Pushed flagCoder now z q after → True :=
    fun _ _ _ _ _ _ => trivial
  obtain ⟨piled,_⟩ := piled_run flagCoder_faithful ten free (List.replicate n false) (by rw [length,Nat.zero_add])
    (s := ⟨now,_⟩) (emptied_piled ten) trivial
  have last : (List.replicate n false).getLastD true = false := by
    cases n with
    | zero => exact absurd full (by decide)
    | succ n => rw [List.replicate_succ',List.getLastD_concat]
  rw [length,last,Nat.zero_add] at piled
  obtain ⟨after,name,rest,ran,live,pages,names,page⟩ := wrapped_push flagCoder_faithful ten piled false
  have split : pushes now (true :: (List.replicate n false ++ [false])) =
      ⟨now,.pushBack true⟩ :: (pushes now (List.replicate n false) ++ [⟨now,.pushBack false⟩]) := by
    simp [pushes]
  have reached : ((session flagCoder).run ⟨opening,emptied 0 0⟩
      (pushes now (true :: (List.replicate n false ++ [false])))).2.queue = after := by
    rw [split,run_cons,first,run_append]
    generalize ((session flagCoder).run _ (pushes now (List.replicate n false))).2 = before at ran
    simp [session,call,ran]
  obtain ⟨popping,popped⟩ := popFront_loads now live pages names page
  rw [← reached] at popped
  exact run_pop popped

theorem opened_pop (n : Nat) (full : n = counterModulus) {now : Nat} (ten : TenDigits now) (opening : Nat) :
    ((session flagCoder).run ⟨opening,opened tmpPlace 1 ∅⟩
      (pushesThenPop now (true :: (List.replicate n false ++ [false])))).1.getLast? = some (.item (some true)) := by
  have split : true :: (List.replicate n false ++ [false]) = true :: false :: List.replicate n false := by
    rw [← List.replicate_succ',List.replicate_succ]
  rw [split]
  obtain ⟨spilled,content,_⟩ := spilled_opened flagCoder_faithful (vacant_empty tmpPlace) opening ten true false
    (List.replicate n false) (by rw [List.length_replicate,full])
  obtain ⟨after,popped,_⟩ := paged_popFront spilled.stored.paged now
  rw [content] at popped
  exact run_pop popped

-- The two empty page files of an object that crashed while writing them load as
-- two pages, clear() has nothing to do, and after 2^32+2 pushes within one
-- second a pop answers with another item than on a new queue.
theorem cleared_queue_loses_item :
    ∃ q, construct (.healthy 1500000000) flagCoder tmpPlace 1
        ((AList.insert "/tmp/q_15000000000001".toList [] ∅).insert "/tmp/q_15000000000000".toList []) = (.ok (),q) ∧
      q.Loadable flagCoder ∧ (∀ calls, q.clear (.healthy 1500000000) flagCoder calls = some (.ok (),q)) ∧
      ∃ items, items = true :: (List.replicate (2 ^ 32) false ++ [false]) ∧
        (session flagCoder).Admits OnClock ⟨1500000000,q⟩ (pushesThenPop 1500000000 items) ∧
        ((session flagCoder).run ⟨1500000000,q⟩ (pushesThenPop 1500000000 items)).1 ≠
          ((session flagCoder).run ⟨1500000000,opened tmpPlace 1 ∅⟩ (pushesThenPop 1500000000 items)).1 := by
  have ten : TenDigits 1500000000 := by decide
  refine ⟨emptied 0 0,rfl,⟨rfl,List.nodup_nil,fun _ member => by cases member⟩,?_,_,rfl,?_,?_⟩
  · intro calls
    cases calls with
    | zero => rfl
    | succ calls => rfl
  · rw [pushesThenPop,admits_append]
    have forward := pushes_clock flagCoder (true :: (List.replicate (2 ^ 32) false ++ [false]))
      (s := ⟨1500000000,emptied 0 0⟩) (Nat.le_refl 1500000000)
    exact ⟨pushes_onClock flagCoder ten _ (Nat.le_refl _),⟨forward,ten⟩,trivial⟩
  · intro same
    have answers := congrArg List.getLast? same
    rw [emptied_pop (2 ^ 32) rfl ten,opened_pop (2 ^ 32) rfl ten] at answers
    exact absurd answers (by decide)

end Kisscpp
