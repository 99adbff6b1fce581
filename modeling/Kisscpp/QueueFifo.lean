import Kisscpp.QueueBusySecond

namespace Kisscpp
open TextLines DecimalText Stepping PersistedQueue

variable {α : Type}

def deque : Machine (List α) (Op α) (Reply α) where
  step := applied

-- size() counts a listed file as a full page without reading it.
structure FullPages (coder : BiCoder α) (q : PersistedQueue α) : Prop where
  full : ∀ name ∈ q.persistedFileNames, ∀ page, pageAt coder q.files name = some page →
    page.length = q.maxItemsPerPage
  bounded : q.pages.same = false → q.pages.last.length ≤ q.maxItemsPerPage

theorem fullPages_pages {coder : BiCoder α} {q : PersistedQueue α} (full : FullPages coder q) {pages : Pages α}
    (bounded : pages.same = false → pages.last.length ≤ q.maxItemsPerPage) :
    FullPages coder {q with pages := pages} := ⟨full.full,bounded⟩

theorem fullPages_updateFirst {coder : BiCoder α} {q : PersistedQueue α} (full : FullPages coder q)
    (f : List α → List α) : FullPages coder {q with pages := q.pages.updateFirst f} := by
  refine fullPages_pages full fun separate => ?_
  rw [Pages.updateFirst_same] at separate
  rw [Pages.updateFirst_last separate]
  exact full.bounded separate

theorem fullPages_pushed {coder : BiCoder α} {q after : PersistedQueue α} {now : Nat} {p : α}
    (positive : 0 < q.maxItemsPerPage) (full : FullPages coder q) (fresh : q.Spills → q.Fresh now)
    (pushed : Pushed coder now p q after) : FullPages coder after := by
  cases pushed with
  | room free =>
    refine fullPages_pages full fun _ => ?_
    rw [Pages.updateLast_last,List.length_append,List.length_singleton]
    exact free
  | opened => exact fullPages_pages full fun _ => positive
  | @spilled spills contents holds =>
    refine ⟨?_,fun _ => positive⟩
    intro name member page found
    rcases List.mem_append.mp member with old | new
    · have different : name ≠ q.place.pagePath (q.nextSeq now).text := fun equal => fresh spills (equal ▸ old)
      exact full.full name old page ((pageAt_insert_ne different).symm.trans found)
    · rw [List.mem_singleton.mp new] at found
      have same : some page = some q.pages.last := found.symm.trans (pageAt_insert.trans holds)
      rw [Option.some.inj same]
      exact Nat.le_antisymm (full.bounded spills.1) spills.2

theorem fullPages_refilled {coder : BiCoder α} {q : PersistedQueue α} {result : Result α Unit}
    (paged : q.Paged coder) (full : FullPages coder q) (refilled : Refilled coder q result) :
    FullPages coder result.2 := by
  cases refilled with
  | kept => exact full
  | joined => exact fullPages_pages full fun separate => by cases separate
  | @loaded name rest page drained listed found =>
    obtain ⟨apart,_⟩ := paged_dropped paged listed
    refine ⟨?_,fun _ => full.bounded (paged.separate listed)⟩
    intro other member page held
    have different : other ≠ name := fun equal => apart (equal ▸ member)
    exact full.full other (listed ▸ List.mem_cons_of_mem _ member) page ((pageAt_erase_ne different).symm.trans held)
  | failed e drained listed missing =>
    exact ⟨fun other member => full.full other (listed ▸ List.mem_cons_of_mem _ member),full.bounded⟩

theorem fullPages_called {coder : BiCoder α} {q after : PersistedQueue α} {now : Nat} {op : Op α} {reply : Reply α}
    (positive : 0 < q.maxItemsPerPage) (paged : q.Paged coder) (full : FullPages coder q)
    (fresh : q.Saves op → q.Fresh now) (called : Called coder now q op reply after) : FullPages coder after := by
  cases called with
  | pushedBack pushed => exact fullPages_pushed positive full fresh pushed
  | pushedFront => exact fullPages_updateFirst full _
  | popped refilled => exact fullPages_updateFirst (fullPages_refilled paged full refilled) _
  | seen refilled => exact fullPages_refilled paged full refilled
  | popFailed refilled => exact fullPages_refilled paged full refilled
  | frontFailed refilled => exact fullPages_refilled paged full refilled

theorem length_pagesOf {coder : BiCoder α} {files : FileSystem} {names : List Text} {size : Nat}
    (held : ∀ name ∈ names, ∃ page, pageAt coder files name = some page ∧ page.length = size) :
    (pagesOf coder files names).length = names.length * size := by
  induction names with
  | nil => simp
  | cons name names ih =>
    obtain ⟨page,found,length⟩ := held name (by simp)
    have later := ih fun other member => held other (List.mem_cons_of_mem _ member)
    rw [pagesOf_cons found,List.length_append,length,later,List.length_cons,Nat.succ_mul,Nat.add_comm]

theorem size_content {coder : BiCoder α} {q : PersistedQueue α} (paged : q.Paged coder)
    (full : FullPages coder q) : q.size = (q.content coder).length := by
  have files : (pagesOf coder q.files q.persistedFileNames).length =
      q.persistedFileNames.length * q.maxItemsPerPage := by
    refine length_pagesOf fun name member => ?_
    obtain ⟨page,found,_⟩ := paged.filled name member
    exact ⟨page,found,full.full name member page found⟩
  unfold size content
  cases same : q.pages.same with
  | true => simp [files]
  | false =>
    simp only [Bool.false_eq_true,if_false,List.length_append,files]
    omega

theorem empty_content {coder : BiCoder α} {q : PersistedQueue α} (paged : q.Paged coder) :
    q.empty = true ↔ q.content coder = [] := by
  have unlisted : pagesOf coder q.files q.persistedFileNames = [] ↔ q.persistedFileNames = [] := by
    cases listed : q.persistedFileNames with
    | nil => simp
    | cons name rest =>
      obtain ⟨page,found,filled⟩ := paged.filled name (by simp [listed])
      simp [pagesOf_cons found,filled]
  unfold empty content
  cases pages : q.pages with
  | shared page =>
    have alone := paged.alone (by rw [pages]; rfl)
    simp [alone]
  | separate first last => simp [unlisted,and_assoc,and_comm]

namespace PersistedQueue

-- What size() and pop_front rest on.
structure Sized (coder : BiCoder α) (q : PersistedQueue α) : Prop where
  paged : q.Paged coder
  full : FullPages coder q
  positive : 0 < q.maxItemsPerPage

theorem Sized.filled {coder : BiCoder α} {q : PersistedQueue α} (sized : Sized coder q) {op : Op α}
    (saves : q.Saves op) : q.pages.last ≠ [] := by
  have positive := sized.positive
  cases op with
  | pushBack p =>
    intro empty
    have full := saves.2
    rw [empty] at full
    simp at full
    omega
  | pushFront p => cases saves
  | popFront => cases saves
  | front => cases saves

theorem Sized.called {coder : BiCoder α} {q after : PersistedQueue α} {now : Nat} {op : Op α} {reply : Reply α}
    (sized : Sized coder q) (ten : TenDigits now) (fresh : q.Saves op → q.Fresh now)
    (called : Called coder now q op reply after) :
    Sized coder after ∧ (reply,after.content coder) = applied (q.content coder) op := by
  obtain ⟨paged,answered⟩ := paged_called sized.paged ten fresh sized.filled called
  refine ⟨⟨paged,fullPages_called sized.positive sized.paged sized.full fresh called,?_⟩,answered⟩
  rw [(called_frame called).2]
  exact sized.positive

theorem opened_sized (coder : BiCoder α) {place : Place} {files : FileSystem} (vacant : Vacant place files)
    {maxItemsPerPage : Nat} (positive : 0 < maxItemsPerPage) :
    Sized coder (opened place maxItemsPerPage files : PersistedQueue α) := by
  refine ⟨(opened_stored coder vacant maxItemsPerPage).paged,⟨?_,?_⟩,positive⟩
  · intro name member
    cases member
  · intro separate
    cases separate

end PersistedQueue

structure Filed (coder : BiCoder α) (s : Session α) : Prop where
  sound : Sound counterModulus coder s
  full : FullPages coder s.queue
  positive : 0 < s.queue.maxItemsPerPage

theorem filed_step {coder : BiCoder α} (faithful : coder.Faithful) {s : Session α} {c : Call α}
    (filed : Filed coder s) (bounded : Bounded counterModulus s c) : Filed coder ((session coder).step s c).2 := by
  have called := session_called faithful filed.sound.stored.live bounded.onClock.2
  have fresh := filed.sound.fresh (Nat.le_refl _) bounded
  have sized : Sized coder s.queue := ⟨filed.sound.stored.paged,filed.full,filed.positive⟩
  obtain ⟨kept,_⟩ := sized.called bounded.onClock.2 fresh called
  exact ⟨(sound_step faithful (Nat.le_refl _) filed.sound bounded).1,kept.full,kept.positive⟩

def fifoRefinement {coder : BiCoder α} (faithful : coder.Faithful) :
    Refinement (session coder) (deque (α := α)) (Bounded counterModulus) where
  invariant := Filed coder
  state s := s.queue.content coder
  input := Call.op
  output := id
  preserved _ _ filed bounded := filed_step faithful filed bounded
  answered _ _ filed bounded :=
    congrArg Prod.fst (sound_step faithful (Nat.le_refl _) filed.sound bounded).2
  followed _ _ filed bounded :=
    congrArg Prod.snd (sound_step faithful (Nat.le_refl _) filed.sound bounded).2

theorem queue_refines_deque {coder : BiCoder α} (faithful : coder.Faithful) {place : Place} {files : FileSystem}
    (vacant : Vacant place files) {maxItemsPerPage : Nat} (positive : 0 < maxItemsPerPage) (opening : Nat) :
    ∃ q, construct (.healthy opening) coder place maxItemsPerPage files = (.ok (),q) ∧
      ∀ calls, (session coder).Admits (Bounded counterModulus) ⟨opening,q⟩ calls →
        ((session coder).run ⟨opening,q⟩ calls).1 = (deque.run [] (calls.map Call.op)).1 ∧
        ((session coder).run ⟨opening,q⟩ calls).2.queue.content coder = (deque.run [] (calls.map Call.op)).2 ∧
        (((session coder).run ⟨opening,q⟩ calls).2.queue.empty = true ↔
          (deque.run [] (calls.map Call.op)).2 = []) ∧
        ((session coder).run ⟨opening,q⟩ calls).2.queue.size = (deque.run [] (calls.map Call.op)).2.length := by
  refine ⟨_,construct_vacant coder vacant _ _,fun calls admitted => ?_⟩
  have start : Filed coder ⟨opening,opened place maxItemsPerPage files⟩ := by
    exact ⟨opened_sound vacant maxItemsPerPage (by decide) opening,(opened_sized coder vacant positive).full,positive⟩
  have nothing : (opened (α := α) place maxItemsPerPage files).content coder = [] := rfl
  obtain ⟨filed,answers,reached⟩ := (fifoRefinement faithful).run start admitted
  have answers : ((session coder).run ⟨opening,opened place maxItemsPerPage files⟩ calls).1 =
      (deque.run [] (calls.map Call.op)).1 := answers.trans (List.map_id _)
  have reached : ((session coder).run ⟨opening,opened place maxItemsPerPage files⟩ calls).2.queue.content coder =
      (deque.run [] (calls.map Call.op)).2 := reached
  refine ⟨answers,reached,?_,?_⟩
  · rw [empty_content filed.sound.stored.paged,reached]
  · rw [size_content filed.sound.stored.paged filed.full,reached]

theorem deque_pushes (content : List α) (now : Nat) (items : List α) :
    (deque.run content ((pushes now items).map Call.op)).2 = content ++ items := by
  induction items generalizing content with
  | nil => simp [pushes]
  | cons item items ih =>
    have later := ih (content ++ [item])
    simpa [pushes,deque,applied] using later

theorem queue_refines_deque_spilling :
    let run := (session flagCoder).run ⟨1500000000,opened tmpPlace 1 ∅⟩
      [⟨1500000000,.pushBack true⟩,⟨1500000000,.pushBack false⟩,⟨1500000001,.pushBack true⟩,
        ⟨1500000001,.popFront⟩,⟨1500000002,.popFront⟩]
    run.1 = [.done,.done,.done,.item (some true),.item (some false)] ∧ run.2.queue.size = 1 := by
  have single : 0 < 1 := Nat.one_pos
  obtain ⟨q,built,refines⟩ := queue_refines_deque flagCoder_faithful (vacant_empty tmpPlace) single 1500000000
  rw [construct_vacant flagCoder (vacant_empty tmpPlace)] at built
  cases built
  obtain ⟨answers,_,_,size⟩ := refines [⟨1500000000,.pushBack true⟩,⟨1500000000,.pushBack false⟩,
    ⟨1500000001,.pushBack true⟩,⟨1500000001,.popFront⟩,⟨1500000002,.popFront⟩] (by decide +kernel)
  exact ⟨answers.trans (by decide),size.trans (by decide)⟩

theorem full_second_loses (n : Nat) (full : n + 1 = counterModulus) {now : Nat} (ten : TenDigits now) :
    ((session flagCoder).run ⟨now,opened tmpPlace 1 ∅⟩
      (pushes now (false :: false :: (List.replicate n false ++ [true]) ++ [false]))).2.queue.content flagCoder ≠
        false :: false :: (List.replicate n false ++ [true]) ++ [false] := by
  have length : (List.replicate n false ++ [true]).length = counterModulus := by simp [full]
  have filled := spilled_opened flagCoder_faithful (vacant_empty tmpPlace) now ten false false
    (List.replicate n false ++ [true]) (Nat.le_of_eq length)
  have split : pushes now (false :: false :: (List.replicate n false ++ [true]) ++ [false]) =
      pushes now (false :: false :: (List.replicate n false ++ [true])) ++ [⟨now,.pushBack false⟩] := by
    simp [pushes]
  have last : (List.replicate n false ++ [true]).getLastD false = true := by simp
  rw [length,last] at filled
  rw [split,run_append]
  generalize ((session flagCoder).run ⟨now,opened tmpPlace 1 ∅⟩
    (pushes now (false :: false :: (List.replicate n false ++ [true])))).2 = before at filled ⊢
  obtain ⟨after,name,rest,ran,_,pages,names,page⟩ := wrapped_push flagCoder_faithful ten filled.1.piled false
  have stepped : ((session flagCoder).run before [⟨now,.pushBack false⟩]).2.queue = after := by
    simp [session,call,ran]
  rw [stepped,content,pages,names,pagesOf_cons page]
  intro equal
  exact absurd (List.cons.inj (List.cons.inj equal).2).1 (by decide)

-- 2^32 pages fill the counter within one second, and the next push writes over
-- the oldest of them.
theorem queue_loses_page :
    ∃ q, construct (.healthy 1500000000) flagCoder tmpPlace 1 ∅ = (.ok (),q) ∧
      ∃ items, items = false :: false :: (List.replicate (2 ^ 32 - 1) false ++ [true]) ++ [false] ∧
        (session flagCoder).Admits OnClock ⟨1500000000,q⟩ (pushes 1500000000 items) ∧
        ((session flagCoder).run ⟨1500000000,q⟩ (pushes 1500000000 items)).2.queue.content flagCoder ≠
          (deque.run [] ((pushes 1500000000 items).map Call.op)).2 := by
  have ten : TenDigits 1500000000 := by decide
  refine ⟨_,construct_vacant flagCoder (vacant_empty tmpPlace) _ _,_,rfl,
    pushes_onClock flagCoder ten _ (Nat.le_refl _),?_⟩
  rw [deque_pushes,List.nil_append]
  exact full_second_loses (2 ^ 32 - 1) (by decide) ten

end Kisscpp
