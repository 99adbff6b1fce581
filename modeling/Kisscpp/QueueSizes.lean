import Kisscpp.QueueReopen

namespace Kisscpp
open TextLines DecimalText Stepping PersistedQueue

variable {α : Type}

structure Collisionless (s : Session α) (c : Call α) : Prop where
  ten : TenDigits c.now
  fresh : s.queue.Saves c.op → s.queue.Fresh c.now

instance (s : Session α) (c : Call α) : Decidable (Collisionless s c) :=
  decidable_of_iff (TenDigits c.now ∧ (s.queue.Saves c.op → s.queue.Fresh c.now))
    ⟨fun both => ⟨both.1,both.2⟩,fun collisionless => ⟨collisionless.ten,collisionless.fresh⟩⟩

namespace PersistedQueue

-- size() is the number of items that pop_front delivers until it returns null.
def CountsRight (coder : BiCoder α) (q : PersistedQueue α) : Prop :=
  ∃ items, (∀ now, Drains coder now q items) ∧ q.size = items.length

-- The page files that closing would leave: those on the list and one for each
-- page in memory, an empty first page excepted.
def pageFiles (q : PersistedQueue α) : Nat :=
  (if q.pages.first = [] then 0 else 1) + q.persistedFileNames.length + (if q.pages.same then 0 else 1)

theorem Paged.countsRight {coder : BiCoder α} {q : PersistedQueue α} (paged : q.Paged coder) :
    CountsRight coder q ↔ q.size = (q.content coder).length := by
  constructor
  · intro ⟨items,drains,size⟩
    rw [size,(drains 0).unique (paged_drains 0 paged rfl)]
  · exact fun size => ⟨_,fun now => paged_drains now paged rfl,size⟩

theorem Sized.countsRight {coder : BiCoder α} {q : PersistedQueue α} (sized : Sized coder q) : CountsRight coder q :=
  sized.paged.countsRight.mpr (size_content sized.paged sized.full)

theorem closingOrder_length (now : Nat) (q : PersistedQueue α) : (q.closingOrder now).length = q.pageFiles := by
  unfold closingOrder pageFiles
  by_cases drained : q.pages.first = [] <;> cases q.pages.same <;> simp [drained,Nat.add_comm]

theorem closed_pageAt {coder : BiCoder α} {now : Nat} {front back : Text} {q : PersistedQueue α}
    (paged : q.Paged coder) (fresh : q.pages.same = false → q.Fresh now) {name : Text}
    (member : name ∈ q.persistedFileNames) :
    pageAt coder (q.closed now front back).files name = pageAt coder q.files name := by
  have notZero := (paged.named name member).ne_zero
  have fronted : pageAt coder (if q.pages.first = [] then q else q.filedFront front).files name =
      pageAt coder q.files name := by
    split
    · rfl
    · exact pageAt_insert_ne notZero
  unfold closed
  cases same : q.pages.same with
  | true => exact fronted
  | false =>
    have placed : (if q.pages.first = [] then q else q.filedFront front).place = q.place := by
      split <;> rfl
    have notNew : name ≠ q.place.pagePath (q.nextSeq now).text := fun equal => fresh same (equal ▸ member)
    simpa [filedBack,numbered,placed,pageAt_insert_ne notNew] using fronted

theorem closing_between {coder : BiCoder α} {now : Nat} {q : PersistedQueue α} (paged : q.Paged coder)
    {name last : Text} {middle : List Text} (order : q.closingOrder now = name :: (middle ++ [last])) :
    q.pages.same = false ∧ last = q.place.pagePath (q.nextSeq now).text ∧
      ∀ other ∈ middle, other ∈ q.persistedFileNames := by
  cases same : q.pages.same with
  | true =>
    have lengths := congrArg List.length order
    rw [closingOrder_length,pageFiles,paged.alone same,same] at lengths
    simp at lengths
    split at lengths <;> omega
  | false =>
    rw [← List.cons_append] at order
    simp only [closingOrder,same,Bool.false_eq_true,if_false] at order
    obtain ⟨before,ending⟩ := List.append_inj' order rfl
    refine ⟨rfl,(List.cons.inj ending).1.symm,?_⟩
    intro other member
    by_cases drained : q.pages.first = []
    · simp only [drained,if_true,List.nil_append] at before
      rw [before]
      exact List.mem_cons_of_mem _ member
    · simp only [drained,if_false,List.cons_append,List.nil_append] at before
      rw [(List.cons.inj before).2]
      exact member

inductive Reopens (coder : BiCoder α) (q reopened : PersistedQueue α) : Prop where
  | joined (files : q.pageFiles ≤ 1) (shared : reopened.pages.same = true)
      (unlisted : reopened.persistedFileNames = [])
  | apart (files : q.pageFiles = reopened.persistedFileNames.length + 2) (separate : reopened.pages.same = false)
      (last : reopened.pages.last = q.pages.last) (bounded : q.pages.last.length ≤ q.maxItemsPerPage)
      (held : ∀ name ∈ reopened.persistedFileNames,
        ∃ page, pageAt coder reopened.files name = some page ∧ page.length = q.maxItemsPerPage)

theorem loaded_reopens {coder : BiCoder α} {now maxItemsPerPage : Nat} {front back : Text} {q : PersistedQueue α}
    (paged : q.Paged coder) (full : FullPages coder q) (fresh : q.pages.same = false → q.Fresh now)
    (holdsBack : coder.decodePage back = some q.pages.last) {found : FileSystem}
    (rack : Rack coder q.place found (q.closingOrder now))
    (same : ∀ name ∈ q.closingOrder now, pageAt coder found name = pageAt coder (q.closed now front back).files name)
    {result : Result α Unit} (loaded : Loaded coder q.place maxItemsPerPage found (q.closingOrder now) result) :
    Reopens coder q result.2 ∧ result.2.maxItemsPerPage = maxItemsPerPage := by
  have ok := (loaded_content rack.distinct rack.filled loaded).1
  generalize order : q.closingOrder now = names at rack same loaded
  have length := q.closingOrder_length now
  rw [order] at length
  cases loaded with
  | nothing => exact ⟨.joined (by simp at length; omega) rfl rfl,rfl⟩
  | one => exact ⟨.joined (by simp at length; omega) rfl rfl,rfl⟩
  | noFront => cases ok
  | noBack => cases ok
  | @many name last middle first final foundFirst foundLast =>
    obtain ⟨separate,isNew,within⟩ := closing_between paged order
    have apart := List.nodup_cons.mp rack.distinct
    have apartLast := List.nodup_append.mp apart.2
    have notFirst : last ≠ name := fun equal => apart.1 (by simp [equal])
    have written : pageAt coder (q.closed now front back).files last = some q.pages.last := by
      have placed : (if q.pages.first = [] then q else q.filedFront front).place = q.place := by
        split <;> rfl
      simp only [closed,separate,Bool.false_eq_true,if_false,filedBack,numbered,placed,isNew]
      exact pageAt_insert.trans holdsBack
    have final_eq : final = q.pages.last := by
      rw [pageAt_erase_ne notFirst,same last (by simp),written] at foundLast
      exact (Option.some.inj foundLast).symm
    refine ⟨.apart (by simp at length; exact length.symm) rfl final_eq (full.bounded separate) ?_,rfl⟩
    intro other member
    have member : other ∈ middle := member
    have listed := within other member
    obtain ⟨page,held,_⟩ := paged.filled other listed
    have differs : other ≠ name := fun equal => apart.1 (equal ▸ List.mem_append_left _ member)
    have differsLast : other ≠ last := fun equal => apartLast.2.2 other member last (by simp) equal
    refine ⟨page,?_,full.full other listed page held⟩
    have kept := @closed_pageAt _ coder now front back _ paged fresh _ listed
    change pageAt coder ((found.erase name).erase last) other = some page
    rw [pageAt_erase_ne differsLast,pageAt_erase_ne differs,same other (by simp [member]),kept,held]

def Suits (q : PersistedQueue α) (maxItemsPerPage : Nat) : Prop :=
  q.maxItemsPerPage = maxItemsPerPage ∨ q.pageFiles ≤ 1 ∨
    q.pageFiles = 2 ∧ q.pages.last.length ≤ maxItemsPerPage

theorem Reopens.full {coder : BiCoder α} {q reopened : PersistedQueue α} (reopens : Reopens coder q reopened)
    (suits : q.Suits reopened.maxItemsPerPage) : FullPages coder reopened := by
  cases reopens with
  | joined files shared unlisted =>
    refine ⟨?_,?_⟩
    · intro name member
      rw [unlisted] at member
      cases member
    · intro separate
      rw [shared] at separate
      cases separate
  | apart files separate last bounded held =>
    refine ⟨?_,fun _ => ?_⟩
    · intro name member page found
      obtain ⟨other,here,length⟩ := held name member
      have positive := List.length_pos_of_mem member
      rw [found] at here
      rw [Option.some.inj here,length]
      rcases suits with same | few | two
      · exact same
      · omega
      · omega
    · rw [last]
      rcases suits with same | few | two
      · rw [← same]
        exact bounded
      · omega
      · exact two.2

theorem oversized_push {coder : BiCoder α} (faithful : coder.Faithful) {now : Nat} (ten : TenDigits now)
    {q : PersistedQueue α} (paged : q.Paged coder) (separate : q.pages.same = false)
    (unlisted : q.persistedFileNames = []) (exceeds : q.maxItemsPerPage < q.pages.last.length) (p : α) :
    ∃ after, q.pushBack (.healthy now) coder p = (.ok (),after) ∧ ¬ CountsRight coder after := by
  have fresh : q.Fresh now := by
    rw [Fresh,unlisted]
    exact List.not_mem_nil
  have spills : q.Spills := ⟨separate,Nat.le_of_lt exceeds⟩
  have filled : q.pages.last ≠ [] := by
    intro empty
    simp [empty] at exceeds
  obtain ⟨after,ran,pushed⟩ := pushBack_pushed faithful ten p paged.live
  have kept := paged_pushed paged ten (fun _ => fresh) (fun _ => filled) pushed
  have content := content_pushed paged (fun _ => fresh) pushed
  refine ⟨after,ran,?_⟩
  rw [kept.countsRight,content]
  have before : (q.content coder).length = q.pages.first.length + q.pages.last.length := by
    simp [PersistedQueue.content,separate,unlisted]
  have size : after.size = q.pages.first.length + 1 + q.maxItemsPerPage := by
    cases pushed with
    | room free => omega
    | opened full shared =>
      rw [separate] at shared
      cases shared
    | spilled => simp [PersistedQueue.size,filedBack,numbered,unlisted]
  rw [size,List.length_append,before,List.length_singleton]
  omega

end PersistedQueue

theorem sized_step {coder : BiCoder α} (faithful : coder.Faithful) {s : Session α} {c : Call α}
    (sized : Sized coder s.queue) (collisionless : Collisionless s c) :
    Sized coder ((session coder).step s c).2.queue :=
  (sized.called collisionless.ten collisionless.fresh
    (session_called faithful sized.paged.live collisionless.ten)).1

theorem sized_run {coder : BiCoder α} (faithful : coder.Faithful) {s : Session α} {calls : List (Call α)}
    (sized : Sized coder s.queue) (admitted : (session coder).Admits Collisionless s calls) :
    Sized coder ((session coder).run s calls).2.queue := by
  have step : ∀ t c, Sized coder (Session.queue t) → Collisionless t c → Sized coder ((session coder).step t c).2.queue :=
    fun _ _ => sized_step faithful
  exact run_preserves step sized admitted

structure Lifetime (coder : BiCoder α) (place : Place) (maxItemsPerPage : Nat) (s : Session α) : Prop where
  stored : s.queue.Stored coder
  sized : Sized coder s.queue
  placed : s.queue.place = place
  pageSize : s.queue.maxItemsPerPage = maxItemsPerPage

theorem lifetime_step {coder : BiCoder α} (faithful : coder.Faithful) {place : Place} {maxItemsPerPage : Nat}
    {s : Session α} {c : Call α} (lifetime : Lifetime coder place maxItemsPerPage s)
    (collisionless : Collisionless s c) : Lifetime coder place maxItemsPerPage ((session coder).step s c).2 := by
  have called := session_called faithful lifetime.stored.live collisionless.ten
  obtain ⟨samePlace,samePages⟩ := called_frame called
  refine ⟨?_,sized_step faithful lifetime.sized collisionless,samePlace.trans lifetime.placed,
    samePages.trans lifetime.pageSize⟩
  exact (stored_called lifetime.stored collisionless.ten collisionless.fresh called).1

theorem lifetime_run {coder : BiCoder α} (faithful : coder.Faithful) {place : Place} {files : FileSystem}
    (vacant : Vacant place files) {maxItemsPerPage : Nat} (positive : 0 < maxItemsPerPage) {opening : Nat}
    {calls : List (Call α)}
    (admitted : (session coder).Admits Collisionless ⟨opening,opened place maxItemsPerPage files⟩ calls) :
    Lifetime coder place maxItemsPerPage
      ((session coder).run ⟨opening,opened place maxItemsPerPage files⟩ calls).2 :=
  run_preserves (fun _ _ => lifetime_step faithful)
    ⟨opened_stored coder vacant maxItemsPerPage,opened_sized coder vacant positive,rfl,rfl⟩ admitted

theorem Reopens.suits {coder : BiCoder α} (faithful : coder.Faithful) {q reopened : PersistedQueue α} {reopening : Nat}
    (ten : TenDigits reopening) (paged : reopened.Paged coder) (reopens : Reopens coder q reopened)
    (right : ∀ further, (session coder).Admits Collisionless ⟨reopening,reopened⟩ further →
      CountsRight coder ((session coder).run ⟨reopening,reopened⟩ further).2.queue) :
    q.Suits reopened.maxItemsPerPage := by
  cases reopens with
  | joined files => exact .inr (.inl files)
  | apart files separate last bounded held =>
    cases listed : reopened.persistedFileNames with
    | nil =>
      rw [listed] at files
      refine .inr (.inr ⟨files,?_⟩)
      rw [← last]
      apply Nat.le_of_not_lt
      intro exceeds
      cases items : reopened.pages.last with
      | nil => simp [items] at exceeds
      | cons p rest =>
        obtain ⟨after,ran,wrong⟩ := oversized_push faithful ten paged separate listed exceeds p
        have admitted : (session coder).Admits Collisionless ⟨reopening,reopened⟩ [⟨reopening,.pushBack p⟩] := by
          refine ⟨⟨ten,fun _ => ?_⟩,trivial⟩
          rw [Fresh,listed]
          exact List.not_mem_nil
        have counted := right _ admitted
        have reached : ((session coder).run ⟨reopening,reopened⟩ [⟨reopening,.pushBack p⟩]).2.queue = after := by
          simp [session,call,ran]
        rw [reached] at counted
        exact absurd counted wrong
    | cons name rest =>
      refine .inl ?_
      have counted : CountsRight coder reopened := right [] trivial
      rw [paged.countsRight] at counted
      have pages := length_pagesOf held
      simp only [PersistedQueue.size,content,separate,Bool.false_eq_true,if_false,List.length_append,pages] at counted
      have equal : reopened.persistedFileNames.length * reopened.maxItemsPerPage =
          reopened.persistedFileNames.length * q.maxItemsPerPage := by omega
      exact (Nat.eq_of_mul_eq_mul_left (by simp [listed]) equal).symm

theorem reopened_size {coder : BiCoder α} (faithful : coder.Faithful) {place : Place} {files : FileSystem}
    (vacant : Vacant place files) {maxItemsPerPage : Nat} (positive : 0 < maxItemsPerPage) (opening : Nat) :
    ∃ q, construct (.healthy opening) coder place maxItemsPerPage files = (.ok (),q) ∧
      ∀ calls, (session coder).Admits Collisionless ⟨opening,q⟩ calls →
        let old := ((session coder).run ⟨opening,q⟩ calls).2
        ∀ closing, TenDigits closing → (old.queue.pages.same = false → old.queue.Fresh closing) →
        ∃ shut, old.queue.shutdown (.healthy closing) coder = (.ok (),shut) ∧
          ∀ reopening, TenDigits reopening → ∀ pageSize, 0 < pageSize → ∃ reopened,
            construct (.healthy reopening) coder place pageSize shut.files = (.ok (),reopened) ∧
            ((∀ further, (session coder).Admits Collisionless ⟨reopening,reopened⟩ further →
                CountsRight coder ((session coder).run ⟨reopening,reopened⟩ further).2.queue) ↔
              maxItemsPerPage = pageSize ∨ old.queue.pageFiles ≤ 1 ∨
                old.queue.pageFiles = 2 ∧ old.queue.pages.last.length ≤ pageSize) := by
  refine ⟨_,construct_vacant coder vacant _ _,?_⟩
  intro calls admitted old closing ten fresh
  obtain ⟨stored,sized,placed,sameSize⟩ : Lifetime coder place maxItemsPerPage old :=
    lifetime_run faithful vacant positive admitted
  obtain ⟨front,back,holdsFront,holdsBack,shut⟩ := shutdown_shelved faithful ten old.queue
  obtain ⟨shelf,_,noState⟩ := closed_shelf ten stored fresh holdsFront holdsBack
  rw [placed] at shut
  refine ⟨_,shut,fun reopening tenAgain pageSize positiveAgain => ?_⟩
  obtain ⟨found,kept,gone,same,loaded⟩ := shelf_loads reopening shelf noState pageSize
  have ok := (loaded_content kept.distinct kept.filled loaded).1
  obtain ⟨reopens,pageSizes⟩ := loaded_reopens stored.paged sized.full fresh holdsBack kept.rack same loaded
  have paged := loaded_paged kept.rack loaded
  rw [placed] at ok reopens pageSizes paged
  refine ⟨_,Prod.ext ok rfl,?_⟩
  have suits := Reopens.suits faithful tenAgain paged reopens
  rw [pageSizes,Suits,sameSize] at suits
  refine ⟨suits,?_⟩
  intro condition further admittedAgain
  have fits : old.queue.Suits pageSize := by rwa [Suits,sameSize]
  rw [← pageSizes] at fits
  exact (sized_run faithful ⟨paged,reopens.full fits,by rw [pageSizes]; exact positiveAgain⟩ admittedAgain).countsRight

def fourPages : List (Call Bool) := pushes 1500000000 [true,false,true,false]

theorem reopened_size_single :
    let old := ((session flagCoder).run ⟨1500000000,opened tmpPlace 1 ∅⟩ fourPages).2
    ∃ shut reopened, old.queue.shutdown (.healthy 1500000001) flagCoder = (.ok (),shut) ∧
      construct (.healthy 1500000002) flagCoder tmpPlace 1 shut.files = (.ok (),reopened) ∧
      CountsRight flagCoder ((session flagCoder).run ⟨1500000002,reopened⟩ [⟨1500000002,.popFront⟩]).2.queue := by
  obtain ⟨q,built,sizes⟩ := reopened_size flagCoder_faithful (vacant_empty tmpPlace) Nat.one_pos 1500000000
  rw [construct_vacant flagCoder (vacant_empty tmpPlace)] at built
  cases built
  obtain ⟨shut,closed,reopens⟩ := sizes fourPages (by decide +kernel) 1500000001 (by decide) (by decide +kernel)
  obtain ⟨reopened,rebuilt,exactly⟩ := reopens 1500000002 (by decide) 1 Nat.one_pos
  refine ⟨shut,reopened,closed,rebuilt,exactly.mpr (.inl rfl) _ ?_⟩
  exact ⟨⟨by decide,fun saves => saves.elim⟩,trivial⟩

-- With pages of three items the two files between the pages in memory are
-- counted for six items and hold two.
theorem reopened_size_counts_eight :
    ∃ q, construct (.healthy 1500000000) flagCoder tmpPlace 1 ∅ = (.ok (),q) ∧
      (session flagCoder).Admits Collisionless ⟨1500000000,q⟩ fourPages ∧
      let old := ((session flagCoder).run ⟨1500000000,q⟩ fourPages).2
      old.queue.Fresh 1500000001 ∧
      ∃ shut reopened, old.queue.shutdown (.healthy 1500000001) flagCoder = (.ok (),shut) ∧
        construct (.healthy 1500000002) flagCoder tmpPlace 3 shut.files = (.ok (),reopened) ∧
        reopened.size = 8 ∧ Drains flagCoder 1500000002 reopened [true,false,true,false] ∧
        ¬ CountsRight flagCoder reopened := by
  have admitted : (session flagCoder).Admits Collisionless ⟨1500000000,opened tmpPlace 1 ∅⟩ fourPages := by
    decide +kernel
  have lifetime := lifetime_run flagCoder_faithful (vacant_empty tmpPlace) Nat.one_pos admitted
  refine ⟨_,construct_vacant flagCoder (vacant_empty tmpPlace) _ _,admitted,by decide +kernel,?_⟩
  obtain ⟨shut,closed,_,reopens⟩ := shutdown_reopens flagCoder_faithful (show TenDigits 1500000001 by decide)
    lifetime.stored (fun _ => by decide +kernel)
  obtain ⟨reopened,built,stored,content,_⟩ := reopens 1500000002 3
  rw [lifetime.placed] at built
  have size : (construct (.healthy 1500000002) flagCoder tmpPlace 3
      (((session flagCoder).run ⟨1500000000,opened tmpPlace 1 ∅⟩ fourPages).2.queue.shutdown (.healthy 1500000001)
        flagCoder).2.files).2.size = 8 := by decide +kernel
  have items : ((session flagCoder).run ⟨1500000000,opened tmpPlace 1 ∅⟩ fourPages).2.queue.content flagCoder =
      [true,false,true,false] := by decide +kernel
  rw [closed,built] at size
  rw [items] at content
  refine ⟨shut,reopened,closed,built,size,stored_drains _ stored content,?_⟩
  rw [stored.paged.countsRight,content]
  intro counted
  exact absurd (size.symm.trans counted) (by decide)

end Kisscpp
