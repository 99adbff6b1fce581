import Kisscpp.QueueFailures

namespace Kisscpp
open TextLines DecimalText Stepping PersistedQueue

variable {α : Type}

-- A codec may refuse an item, but a row it does give comes back as the item.
structure BiCoder.Honest (coder : BiCoder α) : Prop where
  roundTrip : ∀ x row, coder.encode x = some row → coder.decode row = some x ∧ OneLine row ∧ '\x00' ∉ row

theorem BiCoder.refusesPage {coder : BiCoder α} {page : List α} :
    coder.encodePage page = none ↔ ∃ x ∈ page, coder.encode x = none := by
  have rows : page.mapM coder.encode = none ↔ ∃ x ∈ page, coder.encode x = none := by
    induction page with
    | nil => simp
    | cons y page ih =>
      cases first : coder.encode y with
      | none => simp [List.mapM_cons,first]
      | some row =>
        cases later : page.mapM coder.encode with
        | none =>
          obtain ⟨x,member,refused⟩ := ih.mp later
          simpa [List.mapM_cons,first,later] using Exists.intro x ⟨member,refused⟩
        | some texts =>
          have accepts : ¬ ∃ x ∈ page, coder.encode x = none := fun refuses => by
            rw [ih.mpr refuses] at later
            cases later
          simpa [List.mapM_cons,first,later] using accepts
  rw [encodePage,Option.map_eq_none_iff,rows]

theorem BiCoder.Honest.page {coder : BiCoder α} (honest : coder.Honest) {page : List α} {contents : Text}
    (encoded : coder.encodePage page = some contents) : coder.decodePage contents = some page := by
  have each : ∀ x ∈ page,
      ∃ row, coder.encode x = some row ∧ coder.decode row = some x ∧ OneLine row ∧ '\x00' ∉ row := by
    intro x member
    cases row : coder.encode x with
    | none =>
      rw [BiCoder.refusesPage.mpr ⟨x,member,row⟩] at encoded
      cases encoded
    | some text => exact ⟨text,rfl,honest.roundTrip x text row⟩
  obtain ⟨written,same,decoded⟩ := BiCoder.page_survives each
  rw [encoded] at same
  rwa [Option.some.inj same]

namespace PersistedQueue

structure Untouched (coder : BiCoder α) (q after : PersistedQueue α) : Prop where
  names : after.persistedFileNames = q.persistedFileNames
  pages : after.pages = q.pages
  content : after.content coder = q.content coder
  size : after.size = q.size

def Unrefused (io : Io) (coder : BiCoder α) (q : PersistedQueue α) : Prop :=
  q.shutDown = true ∨ io.opens (q.place.pagePath (q.nextSeq io.now).text) = false ∨
    ∀ x ∈ q.pages.last, coder.encode x ≠ none

instance (io : Io) (coder : BiCoder α) (q : PersistedQueue α) : Decidable (Unrefused io coder q) :=
  inferInstanceAs (Decidable (_ ∨ _ ∨ _))

-- The ways a push can throw. Only the number is used up where the file cannot
-- be opened; where the codec refuses an item the name is listed already.
inductive PushThrew (io : Io) (coder : BiCoder α) (q : PersistedQueue α) : PersistedQueue α → Prop where
  | down (shut : q.shutDown = true) : PushThrew io coder q q
  | closed (live : q.shutDown = false) (spills : q.Spills)
      (unopened : io.opens (q.place.pagePath (q.nextSeq io.now).text) = false) :
      PushThrew io coder q (q.numbered io.now)
  | refused {after : PersistedQueue α} (live : q.shutDown = false) (spills : q.Spills)
      (opened : io.opens (q.place.pagePath (q.nextSeq io.now).text) = true)
      (refuses : coder.encodePage q.pages.last = none)
      (listed : after.persistedFileNames.length = q.persistedFileNames.length + 1) :
      PushThrew io coder q after

theorem persist_threw {io : Io} {coder : BiCoder α} {q after : PersistedQueue α} {cause : QueueError}
    (live : q.shutDown = false) (spills : q.Spills)
    (threw : (q.numbered io.now).persistToFile io coder (q.nextSeq io.now).text q.pages.last = (.error cause,after)) :
    PushThrew io coder q after := by
  have place : (q.numbered io.now).place = q.place := rfl
  unfold persistToFile at threw
  simp only [place] at threw
  split at threw
  · next opened =>
    split at threw
    · next refuses =>
      cases threw
      refine .refused live spills opened refuses ?_
      split
      · exact List.length_append
      · rfl
    · cases threw
  · next unopened =>
    cases threw
    exact .closed live spills (by simpa using unopened)

theorem persist_answered {io : Io} {coder : BiCoder α} {seq : Text} {page : List α} {q after : PersistedQueue α}
    (numbered : seq ≠ ['0']) (answered : q.persistToFile io coder seq page = (.ok (),after)) :
    ∃ contents, coder.encodePage page = some contents ∧ after = q.filedBack seq contents := by
  unfold persistToFile at answered
  simp only [if_pos numbered] at answered
  split at answered
  · split at answered
    · cases answered
    · next contents encoded =>
      cases answered
      exact ⟨contents,encoded,rfl⟩
  · cases answered

theorem pushBack_threw {io : Io} {coder : BiCoder α} {p : α} {q after : PersistedQueue α} {e : QueueError}
    (threw : q.pushBack io coder p = (.error e,after)) : PushThrew io coder q after := by
  cases down : q.shutDown with
  | true =>
    simp only [pushBack,down,if_true] at threw
    cases threw
    exact .down down
  | false =>
    by_cases spills : q.Spills
    · cases filed : (q.numbered io.now).persistToFile io coder (q.nextSeq io.now).text q.pages.last with
      | mk result reached =>
        cases result with
        | ok =>
          rw [pushBack_filed down spills filed] at threw
          cases threw
        | error cause =>
          rw [pushBack_unfiled down spills filed] at threw
          cases threw
          exact persist_threw down spills filed
    · obtain ⟨reached,pushed,_⟩ := pushBack_unspilled io coder io.now p down spills
      rw [pushed] at threw
      cases threw

theorem pushBack_answered {io : Io} {coder : BiCoder α} (honest : coder.Honest) (ten : TenDigits io.now) {p : α}
    {q after : PersistedQueue α} (live : q.shutDown = false) (pushed : q.pushBack io coder p = (.ok (),after)) :
    Pushed coder io.now p q after := by
  by_cases spills : q.Spills
  · cases filed : (q.numbered io.now).persistToFile io coder (q.nextSeq io.now).text q.pages.last with
    | mk result reached =>
      cases result with
      | error cause =>
        rw [pushBack_unfiled live spills filed] at pushed
        cases pushed
      | ok =>
        rw [pushBack_filed live spills filed] at pushed
        cases pushed
        have numbered : (q.nextSeq io.now).text ≠ ['0'] := SeqNumber.text_ne_zero (s := q.nextSeq io.now) ten
        obtain ⟨contents,encoded,rfl⟩ := persist_answered numbered filed
        exact .spilled spills (honest.page encoded)
  · obtain ⟨reached,stayed,moved⟩ := pushBack_unspilled io coder io.now p live spills
    rw [stayed] at pushed
    cases pushed
    exact moved

theorem load_answered {io : Io} {coder : BiCoder α} {path : Text} {q after : PersistedQueue α} {page : List α}
    (loaded : q.loadFromFile io coder path = (.ok page,after)) :
    pageAt coder q.files path = some page ∧ after = {q with files := q.files.erase path} := by
  unfold loadFromFile at loaded
  split at loaded
  · cases loaded
  · next contents present =>
    split at loaded
    · split at loaded
      · cases loaded
      · next found decoded =>
        cases loaded
        exact ⟨by simp [pageAt,present,decoded],rfl⟩
    · cases loaded

theorem refill_answered {io : Io} {coder : BiCoder α} {q after : PersistedQueue α}
    (refilled : q.refillFirstPage io coder = (.ok (),after)) : Refilled coder q (.ok (),after) := by
  unfold refillFirstPage at refilled
  by_cases drained : q.pages.first = []
  · cases listed : q.persistedFileNames with
    | nil =>
      simp only [drained,listed,List.isEmpty_nil,if_true] at refilled
      have joined : Refilled coder q _ := .joined drained listed
      rw [listed] at joined
      cases refilled
      exact joined
    | cons name rest =>
      cases loaded : q.loadFrontFile io coder with
      | mk result reached =>
        cases result with
        | error e => simp [drained,listed,loaded] at refilled
        | ok page =>
          simp only [drained,listed,loaded,List.isEmpty_nil,List.isEmpty_cons,Bool.false_eq_true,if_true,
            if_false] at refilled
          cases refilled
          simp only [loadFrontFile,listed] at loaded
          obtain ⟨found,rfl⟩ := load_answered loaded
          exact .loaded drained listed found
  · simp only [drained,List.isEmpty_iff,if_false] at refilled
    cases refilled
    exact .kept drained

inductive Attempted (io : Io) (coder : BiCoder α) (q : PersistedQueue α) :
    Op α → Reply α → PersistedQueue α → Prop where
  | called {op : Op α} {reply : Reply α} {after : PersistedQueue α} (called : Called coder io.now q op reply after) :
      Attempted io coder q op reply after
  | pushThrew {p : α} {e : QueueError} {after : PersistedQueue α} (threw : PushThrew io coder q after) :
      Attempted io coder q (.pushBack p) (.threw e) after
  | readThrew {op : Op α} {e : QueueError} {name : Text} {rest : List Text}
      (listed : q.persistedFileNames = name :: rest) :
      Attempted io coder q op (.threw e) {q with persistedFileNames := rest}

theorem call_attempted {io : Io} {coder : BiCoder α} (honest : coder.Honest) (ten : TenDigits io.now)
    {q : PersistedQueue α} (live : q.shutDown = false) (op : Op α) :
    Attempted io coder q op (q.call io coder op).1 (q.call io coder op).2 := by
  have notDown : ¬ q.shutDown = true := by simp [live]
  cases op with
  | pushBack p =>
    cases ran : q.pushBack io coder p with
    | mk result after =>
      cases result with
      | ok =>
        have called : Attempted io coder q (.pushBack p) _ _ :=
          .called (.pushedBack (pushBack_answered honest ten live ran))
        simpa [call,ran,Reply.ofDone] using called
      | error e => simpa [call,ran,Reply.ofDone] using Attempted.pushThrew (pushBack_threw ran)
  | pushFront p =>
    have called : Attempted io coder q (.pushFront p) _ _ := .called .pushedFront
    simpa [call,pushFront,live,Reply.ofDone] using called
  | popFront =>
    cases ran : q.refillFirstPage io coder with
    | mk result after =>
      cases result with
      | ok =>
        have called : Attempted io coder q .popFront _ _ := .called (.popped (refill_answered ran))
        simpa [call,popFront,notDown,ran,Reply.ofItem] using called
      | error e =>
        obtain ⟨_,_,name,rest,listed,rfl⟩ := refill_threw ran
        simpa [call,popFront,notDown,ran,Reply.ofItem] using Attempted.readThrew listed
  | front =>
    cases ran : q.refillFirstPage io coder with
    | mk result after =>
      cases result with
      | ok =>
        have called : Attempted io coder q .front _ _ := .called (.seen (refill_answered ran))
        simpa [call,front,ran,Reply.ofItem] using called
      | error e =>
        obtain ⟨_,_,name,rest,listed,rfl⟩ := refill_threw ran
        simpa [call,front,ran,Reply.ofItem] using Attempted.readThrew listed

theorem push_untouched {io : Io} {coder : BiCoder α} {p : α} {q after : PersistedQueue α} {e : QueueError}
    (threw : q.pushBack io coder p = (.error e,after)) : Untouched coder q after ↔ Unrefused io coder q := by
  cases pushBack_threw threw with
  | down shut => exact iff_of_true ⟨rfl,rfl,rfl,rfl⟩ (.inl shut)
  | closed live spills unopened => exact iff_of_true ⟨rfl,rfl,rfl,rfl⟩ (.inr (.inl unopened))
  | refused live spills opened refuses listed =>
    refine iff_of_false ?_ ?_
    · intro untouched
      rw [untouched.names] at listed
      omega
    · intro spared
      obtain ⟨x,member,refused⟩ := BiCoder.refusesPage.mp refuses
      rcases spared with shut | unopened | accepts
      · rw [live] at shut
        cases shut
      · rw [opened] at unopened
        cases unopened
      · exact accepts x member refused

theorem Sized.dropped {coder : BiCoder α} {q : PersistedQueue α} (sized : Sized coder q) {name : Text}
    {rest : List Text} (listed : q.persistedFileNames = name :: rest) :
    Sized coder {q with persistedFileNames := rest} := by
  refine ⟨(paged_dropped sized.paged listed).2,⟨?_,sized.full.bounded⟩,sized.positive⟩
  exact fun other member => sized.full.full other (listed ▸ List.mem_cons_of_mem _ member)

theorem Sized.numbered {coder : BiCoder α} {q : PersistedQueue α} (sized : Sized coder q) (now : Nat) :
    Sized coder (q.numbered now) :=
  ⟨⟨sized.paged.live,sized.paged.alone,sized.paged.distinct,sized.paged.filled,sized.paged.named⟩,
    ⟨sized.full.full,sized.full.bounded⟩,sized.positive⟩

end PersistedQueue

structure Attempt (α : Type) where
  io : Io
  op : Op α

def attempts (coder : BiCoder α) : Machine (PersistedQueue α) (Attempt α) (Reply α) where
  step q a := q.call a.io coder a.op

structure Heeded (coder : BiCoder α) (q : PersistedQueue α) (a : Attempt α) : Prop where
  ten : TenDigits a.io.now
  fresh : q.Saves a.op → q.Fresh a.io.now
  spared : q.Saves a.op → Unrefused a.io coder q

instance (coder : BiCoder α) (q : PersistedQueue α) (a : Attempt α) : Decidable (Heeded coder q a) :=
  decidable_of_iff (TenDigits a.io.now ∧ (q.Saves a.op → q.Fresh a.io.now) ∧ (q.Saves a.op → Unrefused a.io coder q))
    ⟨fun all => ⟨all.1,all.2.1,all.2.2⟩,fun heeded => ⟨heeded.ten,heeded.fresh,heeded.spared⟩⟩

theorem sized_attempt {coder : BiCoder α} (honest : coder.Honest) {q : PersistedQueue α} {a : Attempt α}
    (sized : Sized coder q) (heeded : Heeded coder q a) : Sized coder ((attempts coder).step q a).2 := by
  have attempted := call_attempted honest heeded.ten sized.paged.live a.op
  have next : (attempts coder).step q a = q.call a.io coder a.op := rfl
  obtain ⟨io,op⟩ := a
  rw [next]
  generalize (q.call io coder op).1 = reply at attempted
  generalize (q.call io coder op).2 = after at attempted
  cases attempted with
  | called called => exact (sized.called heeded.ten heeded.fresh called).1
  | readThrew listed => exact sized.dropped listed
  | pushThrew threw =>
    cases threw with
    | down => exact sized
    | closed => exact sized.numbered _
    | refused live spills opened refuses =>
      obtain ⟨x,member,refused⟩ := BiCoder.refusesPage.mp refuses
      rcases heeded.spared spills with shut | unopened | accepts
      · rw [live] at shut
        cases shut
      · rw [opened] at unopened
        cases unopened
      · exact absurd refused (accepts x member)

theorem null_pop {coder : BiCoder α} {io : Io} {q after : PersistedQueue α} (paged : q.Paged coder)
    (null : q.popFront io coder = (.ok none,after)) : q.content coder = [] := by
  cases ran : q.refillFirstPage io coder with
  | mk result middle =>
    cases result with
    | error e => simp [popFront,paged.live,ran] at null
    | ok =>
      obtain ⟨_,_,head,_⟩ := refilled_first paged (refill_answered ran)
      have first : middle.pages.first.head? = none := by
        simp only [popFront,paged.live,ran,Bool.false_eq_true,if_false] at null
        exact Except.ok.inj (congrArg Prod.fst null)
      rw [first] at head
      exact List.head?_eq_none_iff.mp head.symm

theorem thrown_push_untouched {coder : BiCoder α} (honest : coder.Honest) :
    (∀ (q : PersistedQueue α) io p e after, q.pushBack io coder p = (.error e,after) →
      (Untouched coder q after ↔ Unrefused io coder q)) ∧
    (∀ place files, Vacant place files → ∀ opening maxItemsPerPage, 0 < maxItemsPerPage →
      ∃ q, construct (.healthy opening) coder place maxItemsPerPage files = (.ok (),q) ∧ Sized coder q) ∧
    ∀ q, Sized coder q → ∀ calls, (attempts coder).Admits (Heeded coder) q calls →
      let reached := ((attempts coder).run q calls).2
      Sized coder reached ∧ reached.size = (reached.content coder).length ∧
        (∀ now, Drains coder now reached (reached.content coder)) ∧
        ∀ io after, reached.popFront io coder = (.ok none,after) → reached.content coder = [] := by
  refine ⟨fun q io p e after threw => push_untouched threw,?_,?_⟩
  · intro place files vacant opening maxItemsPerPage positive
    exact ⟨_,construct_vacant coder vacant _ _,opened_sized coder vacant positive⟩
  · intro q start calls admitted reached
    have sized : Sized coder reached := run_preserves (fun _ _ => sized_attempt honest) start admitted
    refine ⟨sized,size_content sized.paged sized.full,fun now => paged_drains now sized.paged rfl,?_⟩
    exact fun io after null => null_pop sized.paged null

def trueCoder : BiCoder Bool := ⟨fun flag => if flag then some ['1'] else none,fun row => some (row == ['1'])⟩

theorem trueCoder_honest : trueCoder.Honest := by
  constructor
  intro flag row encoded
  cases flag with
  | false => cases encoded
  | true =>
    cases encoded
    exact ⟨rfl,by decide,by decide⟩

def deniedPushes : List (Attempt Bool) :=
  [⟨.healthy 1500000000,.pushBack true⟩,⟨.healthy 1500000000,.pushBack true⟩,⟨denied,.pushBack true⟩,
    ⟨denied,.pushBack true⟩]

theorem thrown_push_untouched_twice :
    let reached := ((attempts trueCoder).run (opened tmpPlace 1 ∅) deniedPushes).2
    reached.size = 2 ∧ Drains trueCoder 1500000003 reached [true,true] := by
  obtain ⟨_,constructed,kept⟩ := thrown_push_untouched trueCoder_honest
  obtain ⟨q,built,sized⟩ := constructed tmpPlace ∅ (vacant_empty tmpPlace) 1500000000 1 (by decide)
  rw [construct_vacant trueCoder (vacant_empty tmpPlace)] at built
  cases built
  obtain ⟨_,size,drains,_⟩ := kept _ sized deniedPushes (by decide +kernel)
  have content : ((attempts trueCoder).run (opened tmpPlace 1 ∅) deniedPushes).2.content trueCoder = [true,true] := by
    decide +kernel
  rw [content] at size drains
  exact ⟨size,drains 1500000003⟩

-- Where the codec refuses an item of the full page, the name of the page is
-- listed with nothing behind it, size() counts three items, and the second
-- pop_front returns null with an item left.
theorem refused_push_lists_page :
    ∃ q, construct (.healthy 1500000000) trueCoder tmpPlace 1 ∅ = (.ok (),q) ∧
      let before := ((attempts trueCoder).run q
        [⟨.healthy 1500000000,.pushBack true⟩,⟨.healthy 1500000000,.pushBack false⟩]).2
      before.persistedFileNames = [] ∧
      ∃ after, before.pushBack (.healthy 1500000001) trueCoder true = (.error .biCoder,after) ∧
        after.persistedFileNames = ["/tmp/q_15000000010000".toList] ∧ ¬ Untouched trueCoder before after ∧
        after.size = 3 ∧ after.content trueCoder = [true,false] ∧ Drains trueCoder 1500000001 after [true] := by
  refine ⟨_,construct_vacant trueCoder (vacant_empty tmpPlace) _ _,rfl,_,rfl,by decide +kernel,?_,by decide +kernel,
    by decide +kernel,?_⟩
  · intro untouched
    exact absurd untouched.size (by decide +kernel)
  · exact .took rfl (.ended rfl)

end Kisscpp
