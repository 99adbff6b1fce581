import Kisscpp.QueueReopen

namespace Kisscpp
open TextLines DecimalText Stepping PersistedQueue

variable {α : Type}

namespace PersistedQueue

-- What a call that threw has to leave for no item to be lost, with the codec
-- and the files as they are once the cause is gone.
structure Unharmed (coder : BiCoder α) (q after : PersistedQueue α) : Prop where
  names : after.persistedFileNames = q.persistedFileNames
  files : after.files = q.files
  pages : after.pages = q.pages
  delivered : ∀ now, Drains coder now after (q.content coder)
  reopened : ∀ closing, TenDigits closing → q.Fresh closing →
    ∃ shut, after.shutdown (.healthy closing) coder = (.ok (),shut) ∧
      ∀ reopening pageSize, ∃ again,
        construct (.healthy reopening) coder q.place pageSize shut.files = (.ok (),again) ∧
        Drains coder reopening again (q.content coder)

-- A load fails before it removes the file, whichever record it fails at.
theorem load_threw {io : Io} {broken : BiCoder α} {path : Text} {q after : PersistedQueue α} {e : QueueError}
    (threw : q.loadFromFile io broken path = (.error e,after)) : after = q ∧ e ≠ .queueShutDown := by
  unfold loadFromFile at threw
  split at threw
  · cases threw
    exact ⟨rfl,by intro equal; cases equal⟩
  · split at threw
    · split at threw
      · cases threw
        exact ⟨rfl,by intro equal; cases equal⟩
      · cases threw
    · cases threw
      exact ⟨rfl,by intro equal; cases equal⟩

-- But by then loadFrontFile has taken its name off the list.
theorem refill_threw {io : Io} {broken : BiCoder α} {q after : PersistedQueue α} {e : QueueError}
    (threw : q.refillFirstPage io broken = (.error e,after)) :
    q.pages.first = [] ∧ e ≠ .queueShutDown ∧
      ∃ name rest, q.persistedFileNames = name :: rest ∧ after = {q with persistedFileNames := rest} := by
  unfold refillFirstPage at threw
  by_cases drained : q.pages.first = []
  · cases listed : q.persistedFileNames with
    | nil => simp [drained,listed] at threw
    | cons name rest =>
      cases loaded : q.loadFrontFile io broken with
      | mk result reached =>
        cases result with
        | ok page => simp [drained,listed,loaded] at threw
        | error other =>
          simp only [drained,listed,loaded,List.isEmpty_nil,List.isEmpty_cons,Bool.false_eq_true,if_true,
            if_false] at threw
          cases threw
          simp only [loadFrontFile,listed] at loaded
          obtain ⟨same,cause⟩ := load_threw loaded
          exact ⟨drained,cause,name,rest,rfl,same⟩
  · simp [drained] at threw

theorem read_threw {io : Io} {broken : BiCoder α} {q after : PersistedQueue α} {op : Op α} {e : QueueError}
    (reads : op = .popFront ∨ op = .front) (threw : q.call io broken op = (.threw e,after))
    (loading : e ≠ .queueShutDown) :
    q.pages.first = [] ∧
      ∃ name rest, q.persistedFileNames = name :: rest ∧ after = {q with persistedFileNames := rest} := by
  have refill : q.refillFirstPage io broken = (.error e,after) := by
    cases ran : q.refillFirstPage io broken with
    | mk result reached =>
      rcases reads with rfl | rfl
      · cases down : q.shutDown with
        | true =>
          simp only [call,popFront,down,if_true,Prod.map,Reply.ofItem] at threw
          cases threw
          exact absurd rfl loading
        | false =>
          cases result with
          | ok => simp [call,popFront,down,ran,Reply.ofItem] at threw
          | error other => simpa [call,popFront,down,ran,Reply.ofItem] using threw
      · cases result with
        | ok => simp [call,front,ran,Reply.ofItem] at threw
        | error other => simpa [call,front,ran,Reply.ofItem] using threw
  obtain ⟨drained,_,left⟩ := refill_threw refill
  exact ⟨drained,left⟩

theorem paged_reopens {coder : BiCoder α} (faithful : coder.Faithful) {now : Nat} (ten : TenDigits now)
    {q : PersistedQueue α} (paged : q.Paged coder) (separate : q.pages.same = false) (filled : q.pages.last ≠ [])
    (fresh : q.Fresh now) :
    ∃ after, q.shutdown (.healthy now) coder = (.ok (),after) ∧
      ∀ reopening pageSize, ∃ reopened,
        construct (.healthy reopening) coder q.place pageSize after.files = (.ok (),reopened) ∧
        Drains coder reopening reopened (q.content coder) := by
  obtain ⟨front,back,holdsFront,holdsBack,shut⟩ := shutdown_shelved faithful ten q
  obtain ⟨rack,pages⟩ := closed_rack ten paged (fun _ => filled) (fun _ => fresh) holdsFront holdsBack
  have listed : q.closingOrder now ≠ [] := by simp [closingOrder,separate]
  refine ⟨_,shut,fun reopening pageSize => ?_⟩
  have loaded := rack_loads reopening rack listed pageSize
  have stated := rack.stated (unlines (q.closingOrder now))
  obtain ⟨ok,content⟩ := loaded_content stated.distinct stated.filled loaded
  rw [pagesOf_state rack,pages] at content
  exact ⟨_,Prod.ext ok rfl,paged_drains reopening (loaded_paged stated loaded) content⟩

end PersistedQueue

-- Whatever the state, the failing file and the record it fails at: the name is
-- gone from the list. The rest of the queue is still delivered, and only the
-- rest, now and after closing and reopening.
theorem failed_load_forgets_page {coder broken : BiCoder α} {io : Io} {q after : PersistedQueue α} {op : Op α}
    {e : QueueError} (reads : op = .popFront ∨ op = .front) (threw : q.call io broken op = (.threw e,after))
    (loading : e ≠ .queueShutDown) :
    ¬ Unharmed coder q after ∧
    ∃ name, q.persistedFileNames = name :: after.persistedFileNames ∧ after.files = q.files ∧
      after.pages = q.pages ∧
      (q.Paged coder →
        ∃ page, page ≠ [] ∧ pageAt coder after.files name = some page ∧
          q.content coder = page ++ after.content coder ∧
          (∀ now, Drains coder now after (after.content coder)) ∧
          (coder.Faithful → q.pages.last ≠ [] → ∀ closing, TenDigits closing → q.Fresh closing →
            ∃ shut, after.shutdown (.healthy closing) coder = (.ok (),shut) ∧
              ∀ reopening pageSize, ∃ again,
                construct (.healthy reopening) coder q.place pageSize shut.files = (.ok (),again) ∧
                Drains coder reopening again (after.content coder))) := by
  obtain ⟨drained,name,rest,listed,rfl⟩ := read_threw reads threw loading
  constructor
  · intro unharmed
    have lengths := congrArg List.length (unharmed.names.trans listed)
    simp at lengths
  · refine ⟨name,listed,rfl,rfl,fun paged => ?_⟩
    obtain ⟨page,found,filled⟩ := paged.filled name (by simp [listed])
    obtain ⟨_,dropped⟩ := paged_dropped paged listed
    refine ⟨page,filled,found,?_,fun now => paged_drains now dropped rfl,?_⟩
    · simp [content,drained,listed,pagesOf_cons found]
    · intro faithful lastFilled closing ten fresh
      have stillFresh : ({q with persistedFileNames := rest}).Fresh closing := by
        intro member
        have member : q.place.pagePath (q.nextSeq closing).text ∈ rest := member
        exact fresh (by rw [listed]; exact List.mem_cons_of_mem _ member)
      exact paged_reopens faithful ten dropped (paged.separate listed) lastFilled stillFresh

def threeItems : List (Call Bool) := pushes 1500000000 [true,false,true] ++ [⟨1500000001,.popFront⟩]
def drainedFirst : Session Bool := ((session flagCoder).run ⟨1500000000,opened tmpPlace 1 ∅⟩ threeItems).2
def denied : Io := ⟨1500000002,fun _ => false,"Permission denied".toList⟩

theorem drainedFirst_sound : Sound counterModulus flagCoder drainedFirst :=
  (sound_run flagCoder_faithful (Nat.le_refl _)
    (opened_sound (vacant_empty tmpPlace) 1 (by decide) 1500000000) (by decide +kernel)).1

theorem denied_threw : drainedFirst.queue.call denied flagCoder .popFront =
    (.threw (.couldNotLoadQueueFile "/tmp/q_15000000000000".toList "Permission denied".toList),
      {drainedFirst.queue with persistedFileNames := []}) := by
  rfl

theorem failed_load_forgets_second_page :
    let after := {drainedFirst.queue with persistedFileNames := []}
    ¬ Unharmed flagCoder drainedFirst.queue after ∧ Drains flagCoder 1500000003 after [true] ∧
      ∃ shut, after.shutdown (.healthy 1500000003) flagCoder = (.ok (),shut) ∧
        ∃ again, construct (.healthy 1500000004) flagCoder tmpPlace 1 shut.files = (.ok (),again) ∧
          Drains flagCoder 1500000004 again [true] := by
  have sound := drainedFirst_sound
  have ten : TenDigits 1500000003 := by decide
  have fresh : drainedFirst.queue.Fresh 1500000003 :=
    sound.counted.fresh (Nat.le_refl _) (by decide +kernel) ten (by decide +kernel)
  have rest : ({drainedFirst.queue with persistedFileNames := []}).content flagCoder = [true] := by decide +kernel
  obtain ⟨harmed,_,_,_,_,lost⟩ := failed_load_forgets_page (.inl rfl) denied_threw (by decide)
  obtain ⟨_,_,_,_,drains,reopens⟩ := lost sound.stored.paged
  obtain ⟨shut,closed,opens⟩ := reopens flagCoder_faithful (by decide +kernel) 1500000003 ten fresh
  obtain ⟨again,built,drainsAgain⟩ := opens 1500000004 1
  rw [rest] at drains drainsAgain
  exact ⟨harmed,drains 1500000003,shut,closed,again,built,drainsAgain⟩

-- The item of the pop that throws is gone although its file is there.
theorem failed_load_loses_item :
    ∃ q, construct (.healthy 1500000000) flagCoder tmpPlace 1 ∅ = (.ok (),q) ∧
      let before := ((session flagCoder).run ⟨1500000000,q⟩ threeItems).2.queue
      before.content flagCoder = [false,true] ∧
      ∃ e after, before.call denied flagCoder .popFront = (.threw e,after) ∧ e ≠ .queueShutDown ∧
        pageAt flagCoder after.files "/tmp/q_15000000000000".toList = some [false] ∧
        Drains flagCoder 1500000003 after [true] ∧ ¬ Unharmed flagCoder before after := by
  have rest : ({drainedFirst.queue with persistedFileNames := []}).content flagCoder = [true] := by decide +kernel
  obtain ⟨_,dropped⟩ := paged_dropped drainedFirst_sound.stored.paged
    (show drainedFirst.queue.persistedFileNames = _ :: [] from rfl)
  refine ⟨_,construct_vacant flagCoder (vacant_empty tmpPlace) _ _,?_⟩
  refine ⟨by decide +kernel,_,_,denied_threw,by decide,by decide +kernel,paged_drains _ dropped rest,?_⟩
  intro unharmed
  have delivered := (unharmed.delivered 1500000003).unique (paged_drains _ dropped rest)
  exact absurd delivered (by decide +kernel)

end Kisscpp
