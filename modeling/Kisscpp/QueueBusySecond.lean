import Kisscpp.QueueSessions

namespace Kisscpp
open TextLines DecimalText Stepping PersistedQueue

variable {α : Type}

def pushes (now : Nat) (items : List α) : List (Call α) := items.map fun item => ⟨now,.pushBack item⟩

theorem pushes_onClock (coder : BiCoder α) {now : Nat} (ten : TenDigits now) (items : List α) {s : Session α}
    (forward : s.clock ≤ now) : (session coder).Admits OnClock s (pushes now items) := by
  induction items generalizing s with
  | nil => trivial
  | cons item items ih => exact ⟨⟨forward,ten⟩,ih (Nat.le_refl _)⟩

theorem pushes_clock (coder : BiCoder α) {now : Nat} (items : List α) {s : Session α} (forward : s.clock ≤ now) :
    ((session coder).run s (pushes now items)).2.clock ≤ now := by
  induction items generalizing s with
  | nil => exact forward
  | cons item items ih =>
    have stepped : ((session coder).step s ⟨now,.pushBack item⟩).2.clock ≤ now := Nat.le_refl _
    exact ih stepped

-- A queue of single-item pages that has spilled n pages within one second: the
-- counter has named them 0 to n-1, and n is the next number unless it wraps.
structure Piled (coder : BiCoder α) (now n : Nat) (first : List α) (y : α) (q : PersistedQueue α) : Prop where
  paged : q.Paged coder
  single : q.maxItemsPerPage = 1
  pages : q.pages = .separate first [y]
  names : q.persistedFileNames = (List.range n).map fun k => q.place.pagePath (SeqNumber.mk now k).text
  next : q.nextSeq now = ⟨now,n % counterModulus⟩

theorem Piled.fresh {coder : BiCoder α} {now n : Nat} {first : List α} {y : α} {q : PersistedQueue α}
    (piled : Piled coder now n first y q) (ten : TenDigits now) (fits : n < counterModulus) : q.Fresh now := by
  rw [Fresh,piled.next,piled.names,Nat.mod_eq_of_lt fits]
  intro member
  obtain ⟨k,inRange,equal⟩ := List.mem_map.mp member
  have same := SeqNumber.text_injective (s := ⟨now,k⟩) (t := ⟨now,n⟩) ten ten (q.place.pagePath_injective equal)
  have counters : k = n := congrArg SeqNumber.counter same
  have below := List.mem_range.mp inRange
  omega

theorem Piled.push {coder : BiCoder α} (faithful : coder.Faithful) {now n : Nat} {first : List α} {y : α}
    {q : PersistedQueue α} (piled : Piled coder now n first y q) (ten : TenDigits now) (z : α) :
    ∃ after contents, q.pushBack (.healthy now) coder z = (.ok (),after) ∧ Pushed coder now z q after ∧
      coder.decodePage contents = some [y] ∧
      after = {(q.numbered now).filedBack (q.nextSeq now).text contents with pages := .separate first [z]} := by
  obtain ⟨after,ran,pushed⟩ := pushBack_pushed faithful ten z piled.paged.live
  have last : q.pages.last = [y] := by rw [piled.pages]; rfl
  have front : q.pages.first = first := by rw [piled.pages]; rfl
  have same : q.pages.same = false := by rw [piled.pages]; rfl
  have outcome := pushed
  cases outcome with
  | room free =>
    rw [last,piled.single] at free
    exact absurd free (by simp)
  | opened full shared =>
    rw [same] at shared
    cases shared
  | @spilled spills contents holds =>
    rw [last] at holds
    exact ⟨_,contents,ran,pushed,holds,by rw [front]⟩

theorem Piled.pushed {coder : BiCoder α} (faithful : coder.Faithful) {now n : Nat} {first : List α} {y : α}
    {q : PersistedQueue α} (piled : Piled coder now n first y q) (ten : TenDigits now)
    (fits : n < counterModulus) (z : α) :
    ∃ after, q.pushBack (.healthy now) coder z = (.ok (),after) ∧ Pushed coder now z q after ∧
      Piled coder now (n + 1) first z after ∧ after.content coder = q.content coder ++ [z] ∧
      after.place = q.place := by
  obtain ⟨after,contents,ran,pushed,holds,shape⟩ := piled.push faithful ten z
  have fresh : q.Spills → q.Fresh now := fun _ => piled.fresh ten fits
  have filled : q.Spills → q.pages.last ≠ [] := fun _ => by
    rw [piled.pages]
    simp
  have place : after.place = q.place := by rw [shape]; rfl
  refine ⟨after,ran,pushed,⟨paged_pushed piled.paged ten fresh filled pushed,?_,?_,?_,?_⟩,
    content_pushed piled.paged fresh pushed,place⟩
  · rw [shape]; exact piled.single
  · rw [shape]
  · have number : (q.nextSeq now).text = (SeqNumber.mk now n).text := by
      rw [piled.next,Nat.mod_eq_of_lt fits]
    rw [place,shape,List.range_succ,List.map_append,← piled.names]
    simp [filedBack,PersistedQueue.numbered,number]
  · have counter : after.seqNumCount = n := by
      rw [shape]
      change (q.nextSeq now).counter = n
      rw [piled.next]
      exact Nat.mod_eq_of_lt fits
    have second : after.lastSeqNum = now := by rw [shape]; rfl
    rw [nextSeq,if_pos second,counter]

theorem piled_run {coder : BiCoder α} (faithful : coder.Faithful) {now n : Nat} (ten : TenDigits now)
    {kept : PersistedQueue α → Prop}
    (keeps : ∀ q after z, kept q → (q.Spills → q.Fresh now) → Pushed coder now z q after → kept after)
    {first : List α} (items : List α) (fits : n + items.length ≤ counterModulus) {y : α} {s : Session α}
    (piled : Piled coder now n first y s.queue) (start : kept s.queue) :
    let after := ((session coder).run s (pushes now items)).2
    Piled coder now (n + items.length) first (items.getLastD y) after.queue ∧ kept after.queue ∧
      after.queue.content coder = s.queue.content coder ++ items ∧ after.queue.place = s.queue.place := by
  induction items generalizing n y s with
  | nil => exact ⟨piled,start,by simp [pushes],rfl⟩
  | cons item items ih =>
    rw [List.length_cons] at fits
    obtain ⟨after,ran,pushed,next,content,place⟩ := piled.pushed faithful ten (by omega) item
    have keptNext := keeps _ _ item start (fun _ => piled.fresh ten (by omega)) pushed
    have stepped : ((session coder).step s ⟨now,.pushBack item⟩).2 = ⟨now,after⟩ := by
      simp [session,call,ran]
    have later := ih (n := n + 1) (s := ⟨now,after⟩) (by omega) next keptNext
    have split : pushes now (item :: items) = ⟨now,.pushBack item⟩ :: pushes now items := rfl
    simp only [split,run_cons,stepped]
    refine ⟨?_,later.2.1,?_,later.2.2.2.trans place⟩
    · rw [List.length_cons,List.getLastD_cons,Nat.add_comm items.length 1,← Nat.add_assoc]
      exact later.1
    · exact later.2.2.1.trans (by rw [content,List.append_assoc]; rfl)

structure Spilled (coder : BiCoder α) (now n : Nat) (x y : α) (q : PersistedQueue α) : Prop where
  stored : q.Stored coder
  single : q.maxItemsPerPage = 1
  pages : q.pages = .separate [x] [y]
  names : q.persistedFileNames = (List.range n).map fun k => q.place.pagePath (SeqNumber.mk now k).text
  next : q.nextSeq now = ⟨now,n % counterModulus⟩

theorem Spilled.piled {coder : BiCoder α} {now n : Nat} {x y : α} {q : PersistedQueue α}
    (spilled : Spilled coder now n x y q) : Piled coder now n [x] y q :=
  ⟨spilled.stored.paged,spilled.single,spilled.pages,spilled.names,spilled.next⟩

theorem spilled_run {coder : BiCoder α} (faithful : coder.Faithful) {now n : Nat} (ten : TenDigits now) {x : α}
    (items : List α) (fits : n + items.length ≤ counterModulus) {y : α} {s : Session α}
    (spilled : Spilled coder now n x y s.queue) :
    let after := ((session coder).run s (pushes now items)).2
    Spilled coder now (n + items.length) x (items.getLastD y) after.queue ∧
      after.queue.content coder = s.queue.content coder ++ items ∧ after.queue.place = s.queue.place := by
  obtain ⟨piled,stored,content,place⟩ := piled_run faithful ten
    (fun _ _ _ stored fresh => stored_pushed stored ten fresh) items fits spilled.piled spilled.stored
  exact ⟨⟨stored,piled.single,piled.pages,piled.names,piled.next⟩,content,place⟩

theorem spilled_opened {coder : BiCoder α} (faithful : coder.Faithful) {place : Place} {files : FileSystem}
    (vacant : Vacant place files) (opening : Nat) {now : Nat} (ten : TenDigits now) (x y : α) (items : List α)
    (fits : items.length ≤ counterModulus) :
    let after := ((session coder).run ⟨opening,opened place 1 files⟩ (pushes now (x :: y :: items))).2
    Spilled coder now items.length x (items.getLastD y) after.queue ∧
      after.queue.content coder = x :: y :: items ∧ after.queue.place = place := by
  have stored := opened_stored coder vacant 1
  have start : Spilled coder now 0 x y ⟨false,0,0,place,1,[],.separate [x] [y],files⟩ := by
    refine ⟨stored_pages stored (fun same => by cases same) (fun _ => by simp),rfl,rfl,rfl,?_⟩
    have past : ¬ 0 = now := by
      have := ten.1
      omega
    simp [nextSeq,past,counterModulus]
  have later := spilled_run faithful ten items (s := ⟨now,_⟩) (by omega) start
  have first : ((session coder).step ⟨opening,opened place 1 files⟩ ⟨now,.pushBack x⟩).2 =
      ⟨now,⟨false,0,0,place,1,[],.shared [x],files⟩⟩ := by
    simp [session,call,pushBack,opened,PersistedQueue.fresh]
  have second : ((session coder).step ⟨now,⟨false,0,0,place,1,[],.shared [x],files⟩⟩ ⟨now,.pushBack y⟩).2 =
      ⟨now,⟨false,0,0,place,1,[],.separate [x] [y],files⟩⟩ := by
    simp [session,call,pushBack]
  have split : pushes now (x :: y :: items) = ⟨now,.pushBack x⟩ :: ⟨now,.pushBack y⟩ :: pushes now items := rfl
  simp only [split,run_cons,first,second]
  rw [Nat.zero_add] at later
  exact later

theorem names_front (path : Nat → Text) {n : Nat} (positive : 0 < n) :
    ∃ rest, (List.range n).map path = path 0 :: rest := by
  cases n with
  | zero => cases positive
  | succ n => exact ⟨_,by rw [List.range_succ_eq_map,List.map_cons]⟩

theorem wrapped_push {coder : BiCoder α} (faithful : coder.Faithful) {now : Nat} (ten : TenDigits now)
    {first : List α} {y : α} {q : PersistedQueue α} (piled : Piled coder now counterModulus first y q) (z : α) :
    ∃ after name rest, q.pushBack (.healthy now) coder z = (.ok (),after) ∧ after.shutDown = false ∧
      after.pages = .separate first [z] ∧ after.persistedFileNames = name :: (rest ++ [name]) ∧
      pageAt coder after.files name = some [y] := by
  obtain ⟨after,contents,ran,_,holds,shape⟩ := piled.push faithful ten z
  obtain ⟨rest,front⟩ := names_front (fun k => q.place.pagePath (SeqNumber.mk now k).text)
    (show 0 < counterModulus by decide)
  rw [← piled.names] at front
  have number : (q.nextSeq now).text = (SeqNumber.mk now 0).text := by rw [piled.next,Nat.mod_self]
  refine ⟨after,q.place.pagePath (SeqNumber.mk now 0).text,rest,ran,?_,?_,?_,?_⟩
  · rw [shape]
    exact piled.paged.live
  · rw [shape]
  · rw [shape]
    simp [filedBack,PersistedQueue.numbered,number,front]
  · rw [shape,← number]
    exact pageAt_insert.trans holds

end Kisscpp
