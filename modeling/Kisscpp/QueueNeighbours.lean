import Kisscpp.QueueOwnership

namespace Kisscpp
open TextLines DecimalText Stepping PersistedQueue

variable {α β : Type}

inductive Deed (α : Type) where
  | construct (maxItemsPerPage : Nat)
  | call (op : Op α)
  | shutdown
  | destroy
  | crash

-- The system and the template argument are any at all at every deed: where an
-- open fails or the coder throws, the deed ends as one that dies there does.
-- The process may die in a deed, with a file it was at cut short.
structure Act (α : Type) where
  io : Io
  coder : BiCoder α
  deed : Deed α
  dies : Option (Text × Nat)

-- The names an act has on the list, reads, writes or removes, whatever comes of it.
structure Outcome (α : Type) where
  consulted : List Text
  object : Option (PersistedQueue α)
  files : FileSystem

def PersistedQueue.closes (io : Io) (coder : BiCoder α) (q : PersistedQueue α) : List Text :=
  q.place.stateFilePath :: ({q with shutDown := true}.writeFirstAndLastPage io coder).2.persistedFileNames

-- What has no object to happen to, or one in its way, does not happen.
def Deed.outcome (place : Place) (io : Io) (coder : BiCoder α) (files : FileSystem) :
    Option (PersistedQueue α) → Deed α → Outcome α
  | none,.construct maxItemsPerPage =>
    let made := PersistedQueue.construct io coder place maxItemsPerPage files
    match made.1 with
    | .ok () => ⟨place.stateFilePath :: foundNames place files,some made.2,made.2.files⟩
    | .error _ => ⟨place.stateFilePath :: foundNames place files,none,made.2.files⟩
  | some q,.call op =>
    let called := ({q with files := files}.call io coder op).2
    ⟨q.persistedFileNames ++ called.persistedFileNames,some called,called.files⟩
  | some q,.shutdown =>
    let closed := ({q with files := files}.shutdown io coder).2
    ⟨{q with files := files}.closes io coder,some closed,closed.files⟩
  | some q,.destroy =>
    let closed := ({q with files := files}.shutdown io coder).2
    ⟨{q with files := files}.closes io coder,none,closed.files⟩
  | some _,.crash => ⟨[],none,files⟩
  | object,_ => ⟨[],object,files⟩

def cutShort (path : Text) (length : Nat) (files : FileSystem) : FileSystem :=
  match files.lookup path with
  | some contents => files.insert path (contents.take length)
  | none => files

def Act.outcome (place : Place) (files : FileSystem) (object : Option (PersistedQueue α)) (a : Act α) : Outcome α :=
  let done := a.deed.outcome place a.io a.coder files object
  match a.dies with
  | none => done
  | some (path,length) =>
    ⟨done.consulted,none,if done.consulted.contains path then cutShort path length done.files else done.files⟩

structure Neighbours (α β : Type) where
  files : FileSystem
  one : Option (PersistedQueue α)
  two : Option (PersistedQueue β)

def neighbours (p o : Place) : Machine (Neighbours α β) (Act α ⊕ Act β) (List Text) where
  step n
    | .inl a =>
      let done := a.outcome p n.files n.one
      (done.consulted,⟨done.files,done.object,n.two⟩)
    | .inr a =>
      let done := a.outcome o n.files n.two
      (done.consulted,⟨done.files,n.one,done.object⟩)

def LeavesAlone (other : Place) (files : FileSystem) (done : Outcome α) : Prop :=
  ∀ path, other.Owns path → path ∉ done.consulted ∧ done.files.lookup path = files.lookup path

def Respects (p o : Place) (n : Neighbours α β) : Act α ⊕ Act β → Prop
  | .inl a => LeavesAlone o n.files (a.outcome p n.files n.one)
  | .inr a => LeavesAlone p n.files (a.outcome o n.files n.two)

def Own (p : Place) (object : Option (PersistedQueue α)) : Prop :=
  ∀ q, object = some q → q.place = p ∧ ∀ name ∈ q.persistedFileNames, p.PageFile name

structure Keeps (p : Place) (before : FileSystem) (done : Outcome α) : Prop where
  consulted : ∀ path ∈ done.consulted, p.Owns path
  object : Own p done.object
  files : ∃ names, Minds p before names done.files

theorem Tends.own {p : Place} {before : FileSystem} {q : PersistedQueue α} (tends : Tends p before q) : Own p (some q) := by
  rintro _ ⟨⟩
  exact ⟨tends.place,tends.minds.named⟩

theorem own_none (p : Place) : Own p (none : Option (PersistedQueue α)) := fun q absent => by cases absent

theorem keeps_closes {p : Place} {before : FileSystem} {q : PersistedQueue α} (io : Io) (coder : BiCoder α)
    (tends : Tends p before q) : ∀ path ∈ q.closes io coder, p.Owns path := by
  have closing : Tends p before {q with shutDown := true} := ⟨tends.place,tends.minds⟩
  intro path member
  rcases List.mem_cons.mp member with state | listed
  · exact .inr (by rw [state,tends.place])
  · exact .inl ((tends_writeFirstAndLastPage io coder closing).minds.named path listed)

theorem keeps_deed {p : Place} {files : FileSystem} {object : Option (PersistedQueue α)} (io : Io) (coder : BiCoder α)
    (tended : Tended p files) (own : Own p object) (deed : Deed α) :
    Keeps p files (deed.outcome p io coder files object) := by
  have still : Minds p files [] files := tended.minds fun name member => by cases member
  have idle : Keeps p files (⟨[],object,files⟩ : Outcome α) := ⟨fun path member => (by cases member),own,[],still⟩
  cases object with
  | none =>
    cases deed with
    | construct maxItemsPerPage =>
      have made := tends_construct io coder tended maxItemsPerPage
      have consulted : ∀ path ∈ p.stateFilePath :: foundNames p files, p.Owns path := by
        intro path member
        rcases List.mem_cons.mp member with state | listed
        · exact .inr state
        · exact .inl (tended.found path listed)
      simp only [Deed.outcome]
      split
      · exact ⟨consulted,made.own,_,made.minds⟩
      · exact ⟨consulted,own_none p,_,made.minds⟩
    | call op => exact idle
    | shutdown => exact idle
    | destroy => exact idle
    | crash => exact idle
  | some q =>
    obtain ⟨place,named⟩ := own q rfl
    have tends : Tends p files {q with files := files} := ⟨place,tended.minds named⟩
    cases deed with
    | construct maxItemsPerPage => exact idle
    | call op =>
      have called := tends_call io coder tends op
      refine ⟨?_,called.own,_,called.minds⟩
      intro path member
      rcases List.mem_append.mp member with old | new
      · exact .inl (named path old)
      · exact .inl (called.minds.named path new)
    | shutdown =>
      have closed := tends_shutdown io coder tends
      exact ⟨keeps_closes io coder tends,closed.own,_,closed.minds⟩
    | destroy => exact ⟨keeps_closes io coder tends,own_none p,_,(tends_shutdown io coder tends).minds⟩
    | crash => exact ⟨fun path member => (by cases member),own_none p,[],still⟩

theorem keeps_cutShort {p : Place} {before files : FileSystem} {names : List Text} {path : Text} (own : p.Owns path)
    (length : Nat) (minds : Minds p before names files) : Minds p before names (cutShort path length files) := by
  unfold cutShort
  split
  next contents present =>
    rcases own with page | rfl
    · exact minds.filed page _
    · exact minds.restated fun line kept => minds.stated contents present line (lines_take kept)
  next absent => exact minds

theorem keeps_act {p : Place} {files : FileSystem} {object : Option (PersistedQueue α)} (tended : Tended p files)
    (own : Own p object) (a : Act α) : Keeps p files (a.outcome p files object) := by
  have done := keeps_deed a.io a.coder tended own a.deed
  unfold Act.outcome
  cases a.dies with
  | none => exact done
  | some cut =>
    obtain ⟨path,length⟩ := cut
    refine ⟨done.consulted,own_none p,?_⟩
    obtain ⟨names,minds⟩ := done.files
    dsimp only
    split
    next wrote => exact ⟨names,keeps_cutShort (done.consulted path (List.contains_iff_mem.mp wrote)) length minds⟩
    next => exact ⟨names,minds⟩

theorem Keeps.leavesAlone {p other : Place} {before : FileSystem} {done : Outcome α} (keeps : Keeps p before done)
    (apart : ∀ path, other.Owns path → ¬ p.Owns path) : LeavesAlone other before done := by
  obtain ⟨names,minds⟩ := keeps.files
  exact fun path foreign =>
    ⟨fun member => apart path foreign (keeps.consulted path member),minds.kept path (apart path foreign)⟩

structure Parted (p o : Place) (n : Neighbours α β) : Prop where
  tendedOne : Tended p n.files
  tendedTwo : Tended o n.files
  ownOne : Own p n.one
  ownTwo : Own o n.two

section
variable {p o : Place} (same : p.workingDirectory = o.workingDirectory)
  (different : p.queueName.text ≠ o.queueName.text)
include same different

theorem parted_step (unmatched : ¬ Matches p.queueName.text o.queueName.text)
    (unmatchedBack : ¬ Matches o.queueName.text p.queueName.text) (n : Neighbours α β) (a : Act α ⊕ Act β)
    (parted : Parted p o n) : Parted p o ((neighbours p o).step n a).2 ∧ Respects p o n a := by
  cases a with
  | inl a =>
    have keeps := keeps_act parted.tendedOne parted.ownOne a
    obtain ⟨names,minds⟩ := keeps.files
    refine ⟨⟨parted.tendedOne.kept minds,?_,keeps.object,parted.ownTwo⟩,?_⟩
    · exact parted.tendedTwo.elsewhere same.symm different.symm unmatchedBack minds
    · exact keeps.leavesAlone fun path => Place.owns_apart same.symm different.symm
  | inr a =>
    have keeps := keeps_act parted.tendedTwo parted.ownTwo a
    obtain ⟨names,minds⟩ := keeps.files
    refine ⟨⟨?_,parted.tendedTwo.kept minds,parted.ownOne,keeps.object⟩,?_⟩
    · exact parted.tendedOne.elsewhere same different unmatched minds
    · exact keeps.leavesAlone fun path => Place.owns_apart same different

theorem unmatched_keep_apart {files : FileSystem} (vacant : Vacant p files) (vacantOther : Vacant o files)
    (unmatched : ¬ Matches p.queueName.text o.queueName.text) (unmatchedBack : ¬ Matches o.queueName.text p.queueName.text)
    (acts : List (Act α ⊕ Act β)) : (neighbours p o).Admits (Respects p o) ⟨files,none,none⟩ acts := by
  have start : Parted p o (⟨files,none,none⟩ : Neighbours α β) :=
    ⟨.vacant vacant,.vacant vacantOther,own_none p,own_none o⟩
  exact admits_always (parted_step same different unmatched unmatchedBack) start acts

end

def levelName (name : QueueName) (level : Nat) : QueueName where
  text := name.text ++ ("priority_".toList ++ decimal level)
  plain c member := by
    rcases List.mem_append.mp member with own | added
    · exact name.plain c own
    · rcases List.mem_append.mp added with word | digit
      · exact List.all_eq_true.mp (show "priority_".toList.all nameChar = true from rfl) c word
      · exact nameChar_digit (digits_decimal level c digit)

theorem level_injective {name : QueueName} {first second : Nat}
    (found : Matches (levelName name first).text (levelName name second).text) : first = second := by
  have same := matches_digits (digits_decimal first) (matches_append (matches_append found))
  rw [← value_decimal first,same,value_decimal]

def Place.level (p : Place) (level : Nat) : Place := ⟨levelName p.queueName level,p.workingDirectory⟩

theorem levels_keep_apart (p : Place) {files : FileSystem} {first second : Nat} (different : first ≠ second)
    (vacant : Vacant (p.level first) files) (vacantOther : Vacant (p.level second) files) (acts : List (Act α ⊕ Act α)) :
    (neighbours (p.level first) (p.level second)).Admits (Respects (p.level first) (p.level second))
      ⟨files,none,none⟩ acts := by
  have same : (p.level first).workingDirectory = (p.level second).workingDirectory := rfl
  refine unmatched_keep_apart same ?_ vacant vacantOther ?_ ?_ acts
  · intro equal
    have found : Matches (p.level first).queueName.text (p.level second).queueName.text := by
      rw [← equal]
      exact List.forall₂_same.mpr fun c _ => .inr rfl
    exact different (level_injective found)
  · exact fun found => different (level_injective found)
  · exact fun found => different (level_injective found).symm

def opening (coder : BiCoder α) : Act α := ⟨.healthy 1500000000,coder,.construct 1,none⟩

def storing (coder : BiCoder α) (item : α) : List (Act α) :=
  [opening coder,⟨.healthy 1500000000,coder,.call (.pushFront item),none⟩,⟨.healthy 1500000000,coder,.destroy,none⟩]

def storedFiles (place : Place) (files : FileSystem) (coder : BiCoder α) (item : α) : FileSystem :=
  ({opened (α := α) place 1 files with pages := .shared [item]}.shutdown (.healthy 1500000000) coder).2.files

theorem stored_page (place : Place) (files : FileSystem) (coder : BiCoder α) (item : α) :
    place.pagePath ['0'] ∈ storedFiles place files coder item := by
  cases encoded : coder.encodePage [item] <;>
    simp [storedFiles,shutdown,writeFirstAndLastPage,persistToFile,Io.healthy,opened,fresh,Pages.first,Pages.same,
      encoded,writeStateFile]

section
variable {p o : Place} (same : p.workingDirectory = o.workingDirectory)
  (different : p.queueName.text ≠ o.queueName.text) {files : FileSystem}
include same different

theorem matching_takes (matched : Matches p.queueName.text o.queueName.text) (vacant : Vacant p files)
    (vacantOther : Vacant o files) (coder : BiCoder α) (other : BiCoder β) (item : β) :
    ¬ LeavesAlone o (storedFiles o files other item)
      ((opening coder).outcome p (storedFiles o files other item) none) := by
  have tends : Tends o files {opened (α := β) o 1 files with pages := .shared [item]} :=
    ⟨rfl,(Tended.vacant vacantOther).minds fun name member => by cases member⟩
  have kept := (tends_shutdown (.healthy 1500000000) other tends).minds.kept p.stateFilePath
    (Place.owns_apart same different (.inr rfl))
  have noState : (storedFiles o files other item).lookup p.stateFilePath = none :=
    kept.trans (AList.lookup_eq_none.mpr vacant.noState)
  have taken : o.pagePath ['0'] ∈ foundNames p (storedFiles o files other item) := by
    rw [foundNames,noState]
    refine (List.mem_insertionSort _).mpr (List.mem_filter.mpr ⟨?_,?_⟩)
    · exact AList.mem_keys.mp (stored_page o files other item)
    · exact (Place.isQueueFile_other same digits_zero).mpr matched
  intro alone
  refine (alone (o.pagePath ['0']) (.inl ⟨['0'],digits_zero,rfl⟩)).1 ?_
  simp only [opening,Act.outcome,Deed.outcome]
  split <;> exact List.mem_cons_of_mem _ taken

end

theorem stores_two (p : Place) {o : Place} {files : FileSystem} (vacant : Vacant o files) (coder : BiCoder β) (item : β) :
    ((neighbours (α := α) p o).run ⟨files,none,none⟩ ((storing coder item).map .inr)).2 =
      ⟨storedFiles o files coder item,none,none⟩ := by
  simp only [storing,opening,List.map_cons,List.map_nil,run_cons,run_nil,neighbours,Act.outcome,Deed.outcome,
    construct_vacant coder vacant]
  rfl

theorem stores_one {p : Place} (o : Place) {files : FileSystem} (vacant : Vacant p files) (coder : BiCoder α) (item : α) :
    ((neighbours (β := β) p o).run ⟨files,none,none⟩ ((storing coder item).map .inl)).2 =
      ⟨storedFiles p files coder item,none,none⟩ := by
  simp only [storing,opening,List.map_cons,List.map_nil,run_cons,run_nil,neighbours,Act.outcome,Deed.outcome,
    construct_vacant coder vacant]
  rfl

theorem queues_keep_apart {p o : Place} (same : p.workingDirectory = o.workingDirectory)
    (different : p.queueName.text ≠ o.queueName.text) {files : FileSystem} (vacant : Vacant p files)
    (vacantOther : Vacant o files) (x : α) (y : β) :
    (∀ acts : List (Act α ⊕ Act β), (neighbours p o).Admits (Respects p o) ⟨files,none,none⟩ acts) ↔
      ¬ Matches p.queueName.text o.queueName.text ∧ ¬ Matches o.queueName.text p.queueName.text := by
  let one : BiCoder α := ⟨fun _ => some [],fun _ => some x⟩
  let two : BiCoder β := ⟨fun _ => some [],fun _ => some y⟩
  constructor
  · intro always
    refine ⟨fun matched => ?_,fun matched => ?_⟩
    · have admitted := always ((storing two y).map .inr ++ [.inl (opening one)])
      rw [admits_append,stores_two p vacantOther] at admitted
      exact matching_takes same different matched vacant vacantOther one two y admitted.2.1
    · have admitted := always ((storing one x).map .inl ++ [.inr (opening two)])
      rw [admits_append,stores_one o vacant] at admitted
      exact matching_takes same.symm different.symm matched vacantOther vacant two one x admitted.2.1
  · exact fun apart => unmatched_keep_apart same different vacant vacantOther apart.1 apart.2

def jobsPlace : Place := ⟨⟨"jobs".toList,List.all_eq_true.mp rfl⟩,tmpPlace.workingDirectory⟩
def numberedJobsPlace : Place := ⟨⟨"jobs_1".toList,List.all_eq_true.mp rfl⟩,tmpPlace.workingDirectory⟩

theorem queues_keep_apart_jobs :
    jobsPlace.queueName.text <+: numberedJobsPlace.queueName.text ∧ ∀ acts : List (Act Bool ⊕ Act Bool),
      (neighbours jobsPlace numberedJobsPlace).Admits (Respects jobsPlace numberedJobsPlace) ⟨∅,none,none⟩ acts :=
  ⟨⟨['_','1'],rfl⟩,(queues_keep_apart (p := jobsPlace) (o := numberedJobsPlace) rfl (by decide +kernel)
    (vacant_empty _) (vacant_empty _) true true).mpr (by decide +kernel)⟩

-- The item of "mail-in" is taken, and its page removed, by "mail.in".
def dottedPlace : Place := ⟨⟨"mail.in".toList,List.all_eq_true.mp rfl⟩,tmpPlace.workingDirectory⟩
def dashedPlace : Place := ⟨⟨"mail-in".toList,List.all_eq_true.mp rfl⟩,tmpPlace.workingDirectory⟩

theorem dotted_queue_takes_item :
    let acts : List (Act Bool ⊕ Act Bool) := (storing flagCoder true).map .inr ++ [.inl (opening flagCoder)]
    let reached := ((neighbours dottedPlace dashedPlace).run ⟨∅,none,none⟩ acts).2
    ¬ (neighbours dottedPlace dashedPlace).Admits (Respects dottedPlace dashedPlace) ⟨∅,none,none⟩ acts ∧
      reached.one.map (fun q => (q.popFront (.healthy 1500000000) flagCoder).1) = some (.ok (some true)) ∧
      dashedPlace.pagePath ['0'] ∉ reached.files := by
  refine ⟨?_,by decide +kernel,by decide +kernel⟩
  intro admitted
  rw [admits_append,stores_two dottedPlace (vacant_empty dashedPlace)] at admitted
  exact matching_takes (p := dottedPlace) (o := dashedPlace) rfl (by decide +kernel) (by decide +kernel) (vacant_empty _)
    (vacant_empty _) flagCoder flagCoder true admitted.2.1

end Kisscpp
