import Mathlib.Logic.Function.Basic
import Kisscpp.QueueNeighbours
import Kisscpp.Unwinding

namespace Kisscpp
open TextLines DecimalText Stepping PersistedQueue

variable {α β : Type}

def Alike (p : Place) (files other : FileSystem) : Prop := ∀ path, p.Owns path → files.lookup path = other.lookup path

namespace Alike
variable {p : Place} {files other : FileSystem}

theorem insert (alike : Alike p files other) (path contents : Text) :
    Alike p (files.insert path contents) (other.insert path contents) := by
  intro name own
  by_cases same : name = path
  · rw [same,AList.lookup_insert,AList.lookup_insert]
  · rw [AList.lookup_insert_ne same,AList.lookup_insert_ne same]
    exact alike name own

theorem erase (alike : Alike p files other) (path : Text) : Alike p (files.erase path) (other.erase path) := by
  intro name own
  by_cases same : name = path
  · rw [same,AList.lookup_erase,AList.lookup_erase]
  · rw [AList.lookup_erase_ne same,AList.lookup_erase_ne same]
    exact alike name own

theorem mem (alike : Alike p files other) {path : Text} (own : p.Owns path) : path ∈ files ↔ path ∈ other := by
  rw [← AList.lookup_isSome,← AList.lookup_isSome,alike path own]

theorem scanned (alike : Alike p files other) (tended : Tended p files) (tendedOther : Tended p other) (path : Text) :
    path ∈ files.keys.filter p.isQueueFile ↔ path ∈ other.keys.filter p.isQueueFile := by
  rw [List.mem_filter,List.mem_filter,← AList.mem_keys,← AList.mem_keys]
  constructor
  · rintro ⟨inside,queueFile⟩
    exact ⟨(alike.mem (.inl (tended.scanned path inside queueFile))).mp inside,queueFile⟩
  · rintro ⟨inside,queueFile⟩
    exact ⟨(alike.mem (.inl (tendedOther.scanned path inside queueFile))).mpr inside,queueFile⟩

theorem foundNames (alike : Alike p files other) (tended : Tended p files) (tendedOther : Tended p other) :
    foundNames p files = foundNames p other := by
  have scans : (files.keys.filter p.isQueueFile).Perm (other.keys.filter p.isQueueFile) :=
    (List.perm_ext_iff_of_nodup (files.keys_nodup.filter _) (other.keys_nodup.filter _)).mpr
      (alike.scanned tended tendedOther)
  have sorted : ((files.keys.filter p.isQueueFile).insertionSort (· ≤ ·)).Perm
      ((other.keys.filter p.isQueueFile).insertionSort (· ≤ ·)) :=
    ((List.perm_insertionSort _ _).trans scans).trans (List.perm_insertionSort _ _).symm
  unfold Kisscpp.foundNames
  rw [alike p.stateFilePath (.inr rfl),sorted.eq_of_sortedLE List.sortedLE_insertionSort List.sortedLE_insertionSort]

theorem cutShort (alike : Alike p files other) {path : Text} (own : p.Owns path) (length : Nat) :
    Alike p (cutShort path length files) (cutShort path length other) := by
  unfold Kisscpp.cutShort
  rw [alike path own]
  cases other.lookup path with
  | none => exact alike
  | some contents => exact alike.insert path _

end Alike

inductive Twin (p : Place) (q : PersistedQueue α) : PersistedQueue α → Prop where
  | mk {files : FileSystem} (alike : Alike p q.files files) : Twin p q {q with files := files}

inductive TwinResults (p : Place) (result : β × PersistedQueue α) : β × PersistedQueue α → Prop where
  | mk {files : FileSystem} (alike : Alike p result.2.files files) :
    TwinResults p result (result.1,{result.2 with files := files})

theorem TwinResults.shown {p : Place} {result other : β × PersistedQueue α} (twins : TwinResults p result other) :
    ∃ files, Alike p result.2.files files ∧ other = (result.1,{result.2 with files := files}) := by
  cases twins with
  | @mk files alike => exact ⟨files,alike,rfl⟩

theorem TwinResults.intro {p : Place} {answer : β} {q other : PersistedQueue α} (twin : Twin p q other) :
    TwinResults p (answer,q) (answer,other) := by
  cases twin with
  | mk alike => exact .mk alike

theorem TwinResults.map {γ : Type} {p : Place} {result other : β × PersistedQueue α}
    (twins : TwinResults p result other) (f : β → γ) : TwinResults p (result.map f id) (other.map f id) := by
  cases twins with
  | mk alike => exact .mk alike

namespace PersistedQueue
variable {p : Place} {before : FileSystem} {q other : PersistedQueue α} (io : Io) (coder : BiCoder α)

theorem twins_seqNumber (twin : Twin p q other) : TwinResults p (q.seqNumber io) (other.seqNumber io) := by
  cases twin with
  | @mk files alike =>
    rw [seqNumber_eq,seqNumber_eq]
    exact .mk alike

theorem twins_persistToFile (twin : Twin p q other) (seq : Text) (page : List α) :
    TwinResults p (q.persistToFile io coder seq page) (other.persistToFile io coder seq page) := by
  cases twin with
  | @mk files alike =>
    unfold persistToFile
    dsimp only
    by_cases opens : io.opens (q.place.pagePath seq) = true
    · rw [if_pos opens,if_pos opens]
      by_cases numbered : seq ≠ ['0']
      · rw [if_pos numbered,if_pos numbered]
        cases coder.encodePage page with
        | none => exact .mk (alike.insert _ [])
        | some contents => exact .mk (alike.insert _ contents)
      · rw [if_neg numbered,if_neg numbered]
        cases coder.encodePage page with
        | none => exact .mk (alike.insert _ [])
        | some contents => exact .mk (alike.insert _ contents)
    · rw [if_neg opens,if_neg opens]
      exact .mk alike

theorem twins_loadFromFile (twin : Twin p q other) {path : Text} (own : p.Owns path) :
    TwinResults p (q.loadFromFile io coder path) (other.loadFromFile io coder path) := by
  cases twin with
  | @mk files alike =>
    unfold loadFromFile
    dsimp only
    rw [alike path own]
    cases files.lookup path with
    | none => exact .mk alike
    | some contents =>
      by_cases opens : io.opens path = true
      · dsimp only
        rw [if_pos opens,if_pos opens]
        cases coder.decodePage contents with
        | none => exact .mk alike
        | some page => exact .mk (alike.erase path)
      · dsimp only
        rw [if_neg opens,if_neg opens]
        exact .mk alike

theorem twins_loadFrontFile (tends : Tends p before q) (twin : Twin p q other) :
    TwinResults p (q.loadFrontFile io coder) (other.loadFrontFile io coder) := by
  have named := tends.minds.named
  cases twin with
  | @mk files alike =>
    unfold loadFrontFile
    dsimp only
    split
    next => exact .intro (.mk alike)
    next filename rest listed =>
      have own := named filename (by rw [listed]; exact List.mem_cons_self)
      exact twins_loadFromFile io coder (.mk (q := {q with persistedFileNames := rest}) alike) (.inl own)

theorem twins_loadBackFile (tends : Tends p before q) (twin : Twin p q other) :
    TwinResults p (q.loadBackFile io coder) (other.loadBackFile io coder) := by
  have named := tends.minds.named
  cases twin with
  | @mk files alike =>
    unfold loadBackFile
    dsimp only
    cases listed : q.persistedFileNames.getLast? with
    | none => exact .intro (.mk alike)
    | some filename =>
      have own := named filename (List.mem_of_getLast? listed)
      exact twins_loadFromFile io coder (.mk (q := {q with persistedFileNames := q.persistedFileNames.dropLast}) alike)
        (.inl own)

theorem twins_pushBack (twin : Twin p q other) (item : α) :
    TwinResults p (q.pushBack io coder item) (other.pushBack io coder item) := by
  obtain ⟨counted,alikeCounted,numbered⟩ := (twins_seqNumber io twin).shown
  obtain ⟨written,alikeWritten,wrote⟩ := (twins_persistToFile io coder (.mk alikeCounted) (q.seqNumber io).1
    (q.seqNumber io).2.pages.last).shown
  cases twin with
  | @mk files alike =>
    unfold pushBack
    rw [numbered]
    dsimp only
    split
    · exact .intro (.mk alike)
    · split
      · split
        · exact .intro (.mk alike)
        · rw [wrote]
          generalize (q.seqNumber io).2.persistToFile io coder (q.seqNumber io).1 (q.seqNumber io).2.pages.last = done
            at alikeWritten ⊢
          obtain ⟨answer,after⟩ := done
          cases answer with
          | error e => exact .intro (.mk alikeWritten)
          | ok => exact .intro (.mk alikeWritten)
      · exact .intro (.mk alike)

theorem twins_pushFront (twin : Twin p q other) (item : α) : TwinResults p (q.pushFront item) (other.pushFront item) := by
  cases twin with
  | mk alike =>
    unfold pushFront
    dsimp only
    split
    · exact .intro (.mk alike)
    · exact .intro (.mk alike)

theorem twins_refillFirstPage (tends : Tends p before q) (twin : Twin p q other) :
    TwinResults p (q.refillFirstPage io coder) (other.refillFirstPage io coder) := by
  obtain ⟨left,alikeLeft,loaded⟩ := (twins_loadFrontFile io coder tends twin).shown
  cases twin with
  | @mk files alike =>
    unfold refillFirstPage
    rw [loaded]
    dsimp only
    split
    · split
      · exact .intro (.mk alike)
      · generalize q.loadFrontFile io coder = done at alikeLeft ⊢
        obtain ⟨answer,after⟩ := done
        cases answer with
        | error e => exact .intro (.mk alikeLeft)
        | ok page => exact .intro (.mk alikeLeft)
    · exact .intro (.mk alike)

theorem twins_popFront (tends : Tends p before q) (twin : Twin p q other) :
    TwinResults p (q.popFront io coder) (other.popFront io coder) := by
  obtain ⟨left,alikeLeft,refilled⟩ := (twins_refillFirstPage io coder tends twin).shown
  cases twin with
  | @mk files alike =>
    unfold popFront
    rw [refilled]
    dsimp only
    split
    · exact .intro (.mk alike)
    · generalize q.refillFirstPage io coder = done at alikeLeft ⊢
      obtain ⟨answer,after⟩ := done
      cases answer with
      | error e => exact .intro (.mk alikeLeft)
      | ok => exact .intro (.mk alikeLeft)

theorem twins_front (tends : Tends p before q) (twin : Twin p q other) :
    TwinResults p (q.front io coder) (other.front io coder) := by
  obtain ⟨left,alikeLeft,refilled⟩ := (twins_refillFirstPage io coder tends twin).shown
  unfold front
  rw [refilled]
  generalize q.refillFirstPage io coder = done at alikeLeft ⊢
  obtain ⟨answer,after⟩ := done
  cases answer with
  | error e => exact .intro (.mk alikeLeft)
  | ok => exact .intro (.mk alikeLeft)

theorem twins_call (tends : Tends p before q) (twin : Twin p q other) (op : Op α) :
    TwinResults p (q.call io coder op) (other.call io coder op) := by
  cases op with
  | pushBack item => exact (twins_pushBack io coder twin item).map _
  | pushFront item => exact (twins_pushFront twin item).map _
  | popFront => exact (twins_popFront io coder tends twin).map _
  | front => exact (twins_front io coder tends twin).map _

theorem twins_writeFirstAndLastPage (twin : Twin p q other) :
    TwinResults p (q.writeFirstAndLastPage io coder) (other.writeFirstAndLastPage io coder) := by
  obtain ⟨filed,alikeFiled,wrote⟩ : ∃ files, Alike p
      (if 0 < q.pages.first.length then q.persistToFile io coder ['0'] q.pages.first else (.ok (),q)).2.files files ∧
      (if 0 < q.pages.first.length then other.persistToFile io coder ['0'] q.pages.first else (.ok (),other)) =
        ((if 0 < q.pages.first.length then q.persistToFile io coder ['0'] q.pages.first else (.ok (),q)).1,
          {(if 0 < q.pages.first.length then q.persistToFile io coder ['0'] q.pages.first else (.ok (),q)).2 with
            files := files}) := by
    split
    · exact (twins_persistToFile io coder twin ['0'] q.pages.first).shown
    · exact (TwinResults.intro twin).shown
  cases twin with
  | @mk files alike =>
    unfold writeFirstAndLastPage
    dsimp only
    rw [wrote]
    generalize (if 0 < q.pages.first.length then q.persistToFile io coder ['0'] q.pages.first else (.ok (),q)) = done
      at alikeFiled ⊢
    obtain ⟨answer,after⟩ := done
    cases answer with
    | error e => exact .intro (.mk alikeFiled)
    | ok =>
      dsimp only
      split
      · exact .intro (.mk alikeFiled)
      · obtain ⟨counted,alikeCounted,numbered⟩ := (twins_seqNumber io (.mk alikeFiled)).shown
        rw [numbered]
        exact twins_persistToFile io coder (.mk alikeCounted) _ _

theorem twin_writeStateFile (twin : Twin p q other) : Twin p (q.writeStateFile io) (other.writeStateFile io) := by
  cases twin with
  | @mk files alike =>
    unfold writeStateFile
    dsimp only
    split
    · refine .mk ?_
      dsimp only
      split
      · exact alike.insert _ _
      · exact alike
    · exact .mk alike

theorem twins_shutdown (twin : Twin p q other) : TwinResults p (q.shutdown io coder) (other.shutdown io coder) := by
  have closing : Twin p {q with shutDown := true} {other with shutDown := true} := by
    cases twin with
    | mk alike => exact .mk alike
  obtain ⟨filed,alikeFiled,wrote⟩ := (twins_writeFirstAndLastPage io coder closing).shown
  unfold shutdown
  rw [wrote]
  generalize {q with shutDown := true}.writeFirstAndLastPage io coder = done at alikeFiled ⊢
  obtain ⟨answer,after⟩ := done
  cases answer with
  | error e => exact .intro (.mk alikeFiled)
  | ok => exact .intro (twin_writeStateFile io (.mk alikeFiled))

theorem twins_loadFirstAndLastPage (tends : Tends p before q) (twin : Twin p q other) :
    TwinResults p (q.loadFirstAndLastPage io coder) (other.loadFirstAndLastPage io coder) := by
  have fronted := tends_loadFrontFile io coder tends
  obtain ⟨left,alikeLeft,loaded⟩ := (twins_loadFrontFile io coder tends twin).shown
  cases twin with
  | @mk files alike =>
    unfold loadFirstAndLastPage
    rw [loaded]
    dsimp only
    split
    · exact .intro (.mk alike)
    · generalize q.loadFrontFile io coder = done at alikeLeft ⊢
      obtain ⟨answer,after⟩ := done
      cases answer with
      | error e => exact .intro (.mk alikeLeft)
      | ok page => exact .intro (.mk alikeLeft)
    · generalize q.loadFrontFile io coder = done at alikeLeft fronted ⊢
      obtain ⟨answer,after⟩ := done
      cases answer with
      | error e => exact .intro (.mk alikeLeft)
      | ok first =>
        obtain ⟨rest,alikeRest,backed⟩ := (twins_loadBackFile io coder fronted (.mk alikeLeft)).shown
        dsimp only
        rw [backed]
        generalize after.loadBackFile io coder = done at alikeRest ⊢
        obtain ⟨answer,after⟩ := done
        cases answer with
        | error e => exact .intro (.mk alikeRest)
        | ok last => exact .intro (.mk alikeRest)

end PersistedQueue

theorem twins_construct (io : Io) (coder : BiCoder α) {p : Place} {files other : FileSystem} (alike : Alike p files other)
    (tended : Tended p files) (tendedOther : Tended p other) (maxItemsPerPage : Nat) :
    TwinResults p (construct io coder p maxItemsPerPage files) (construct io coder p maxItemsPerPage other) := by
  rw [construct_found,construct_found,← alike.foundNames tended tendedOther]
  exact twins_loadFirstAndLastPage io coder ⟨rfl,(tended.minds tended.found).removed (.inr rfl)⟩
    (.mk (alike.erase p.stateFilePath))

-- What the program hears of a deed: a destructor tells nothing.
def Deed.reply (place : Place) (io : Io) (coder : BiCoder α) (files : FileSystem) :
    Option (PersistedQueue α) → Deed α → Option (Reply α)
  | none,.construct maxItemsPerPage => some (.ofDone (PersistedQueue.construct io coder place maxItemsPerPage files).1)
  | some q,.call op => some ({q with files := files}.call io coder op).1
  | some q,.shutdown => some (.ofDone ({q with files := files}.shutdown io coder).1)
  | _,_ => none

def Act.reply (place : Place) (files : FileSystem) (object : Option (PersistedQueue α)) (a : Act α) : Option (Reply α) :=
  match a.dies with
  | none => a.deed.reply place a.io a.coder files object
  | some _ => none

inductive SameObject : Option (PersistedQueue α) → Option (PersistedQueue α) → Prop where
  | absent : SameObject none none
  | live (q : PersistedQueue α) (files : FileSystem) : SameObject (some q) (some {q with files := files})

theorem SameObject.own {p : Place} {object other : Option (PersistedQueue α)} (same : SameObject object other)
    (own : Own p object) : Own p other := by
  cases same with
  | absent => exact own
  | live q files =>
    rintro _ ⟨⟩
    exact own q rfl

structure Parallel (p : Place) (one two : Outcome α) : Prop where
  consulted : one.consulted = two.consulted
  object : SameObject one.object two.object
  files : Alike p one.files two.files

section
variable {p : Place} {files other : FileSystem} {object objectOther : Option (PersistedQueue α)}
  (tended : Tended p files) (tendedOther : Tended p other) (own : Own p object) (alike : Alike p files other)
  (same : SameObject object objectOther)
include tended tendedOther own alike same

theorem parallel_deed (io : Io) (coder : BiCoder α) (deed : Deed α) :
    deed.reply p io coder files object = deed.reply p io coder other objectOther ∧
      Parallel p (deed.outcome p io coder files object) (deed.outcome p io coder other objectOther) := by
  cases same with
  | absent =>
    have idle : Parallel (α := α) p ⟨[],none,files⟩ ⟨[],none,other⟩ := ⟨rfl,.absent,alike⟩
    cases deed with
    | construct maxItemsPerPage =>
      obtain ⟨left,alikeLeft,made⟩ := (twins_construct io coder alike tended tendedOther maxItemsPerPage).shown
      have names := alike.foundNames tended tendedOther
      simp only [Deed.reply,Deed.outcome]
      rw [made,names]
      refine ⟨rfl,?_⟩
      generalize PersistedQueue.construct io coder p maxItemsPerPage files = done at alikeLeft ⊢
      obtain ⟨answer,after⟩ := done
      cases answer with
      | ok => exact ⟨rfl,.live after left,alikeLeft⟩
      | error e => exact ⟨rfl,.absent,alikeLeft⟩
    | call op => exact ⟨rfl,idle⟩
    | shutdown => exact ⟨rfl,idle⟩
    | destroy => exact ⟨rfl,idle⟩
    | crash => exact ⟨rfl,idle⟩
  | live q stale =>
    obtain ⟨place,named⟩ := own q rfl
    have tends : Tends p files {q with files := files} := ⟨place,tended.minds named⟩
    have twin : Twin p {q with files := files} {q with files := other} := .mk alike
    have closing : Twin p {q with files := files,shutDown := true} {q with files := other,shutDown := true} := .mk alike
    obtain ⟨written,alikeWritten,wrote⟩ := (twins_writeFirstAndLastPage io coder closing).shown
    obtain ⟨closed,alikeClosed,shut⟩ := (twins_shutdown io coder twin).shown
    have closes : {q with files := files}.closes io coder = {q with files := other}.closes io coder := by
      simp only [PersistedQueue.closes]
      rw [wrote]
    cases deed with
    | construct maxItemsPerPage => exact ⟨rfl,rfl,.live q stale,alike⟩
    | call op =>
      obtain ⟨left,alikeLeft,called⟩ := (twins_call io coder tends twin op).shown
      simp only [Deed.reply,Deed.outcome]
      rw [called]
      exact ⟨rfl,rfl,.live _ left,alikeLeft⟩
    | shutdown =>
      simp only [Deed.reply,Deed.outcome]
      rw [shut]
      exact ⟨rfl,closes,.live _ closed,alikeClosed⟩
    | destroy =>
      refine ⟨rfl,?_⟩
      simp only [Deed.outcome]
      rw [shut]
      exact ⟨closes,.absent,alikeClosed⟩
    | crash => exact ⟨rfl,rfl,.absent,alike⟩

theorem parallel_act (a : Act α) : a.reply p files object = a.reply p other objectOther ∧
    Parallel p (a.outcome p files object) (a.outcome p other objectOther) := by
  obtain ⟨answered,done⟩ := parallel_deed tended tendedOther own alike same a.io a.coder a.deed
  have consulted := (keeps_deed a.io a.coder tended own a.deed).consulted
  unfold Act.reply Act.outcome
  cases a.dies with
  | none => exact ⟨answered,done⟩
  | some cut =>
    obtain ⟨path,length⟩ := cut
    refine ⟨rfl,done.consulted,.absent,?_⟩
    dsimp only
    rw [← done.consulted]
    split
    next wrote => exact done.files.cutShort (consulted path (List.contains_iff_mem.mp wrote)) length
    next => exact done.files

end

-- Any number of programs, each with a queue of its own name and type, in one
-- directory.
structure Street {ν : Type} (α : ν → Type) where
  files : FileSystem
  objects : ∀ i, Option (PersistedQueue (α i))

def street {ν : Type} [DecidableEq ν] {α : ν → Type} (place : ν → Place) :
    Machine (Street α) (Σ i, Act (α i)) (Σ i, Option (Reply (α i))) where
  step s a :=
    let done := a.2.outcome (place a.1) s.files (s.objects a.1)
    (⟨a.1,a.2.reply (place a.1) s.files (s.objects a.1)⟩,⟨done.files,Function.update s.objects a.1 done.object⟩)

def solitary (place : Place) : Machine (FileSystem × Option (PersistedQueue α)) (Act α) (Option (Reply α)) where
  step s a :=
    let done := a.outcome place s.1 s.2
    (a.reply place s.1 s.2,(done.files,done.object))

section Street
variable {ν : Type} [DecidableEq ν] {α : ν → Type} {place : ν → Place}

structure OrderlyStreet (place : ν → Place) (s : Street α) : Prop where
  tended : ∀ i, Tended (place i) s.files
  own : ∀ i, Own (place i) (s.objects i)

structure Undisturbed (place : ν → Place) (j : ν) (s : Street α) (alone : FileSystem × Option (PersistedQueue (α j))) :
    Prop where
  orderly : OrderlyStreet place s
  tended : Tended (place j) alone.1
  files : Alike (place j) s.files alone.1
  object : SameObject (s.objects j) alone.2

variable (same : ∀ i j, (place i).workingDirectory = (place j).workingDirectory)
  (unmatched : ∀ i j, i ≠ j → ¬ Matches (place i).queueName.text (place j).queueName.text)

theorem matches_self (name : Text) : Matches name name := List.forall₂_same.mpr fun _ _ => .inr rfl

omit [DecidableEq ν] in
include unmatched in
theorem texts_differ {i j : ν} (different : i ≠ j) : (place i).queueName.text ≠ (place j).queueName.text :=
  fun equal => unmatched i j different (equal ▸ matches_self _)

include same unmatched

theorem orderly_street {s : Street α} (orderly : OrderlyStreet place s) (a : Σ i, Act (α i)) :
    OrderlyStreet place ((street place).step s a).2 := by
  obtain ⟨i,a⟩ := a
  have keeps := keeps_act (orderly.tended i) (orderly.own i) a
  obtain ⟨names,minds⟩ := keeps.files
  constructor
  · intro j
    by_cases mine : j = i
    · cases mine
      exact (orderly.tended i).kept minds
    · exact (orderly.tended j).elsewhere (same j i) (texts_differ unmatched mine) (unmatched j i mine) minds
  · intro j
    by_cases mine : j = i
    · cases mine
      simpa [street] using keeps.object
    · simpa [street,Function.update_of_ne mine] using orderly.own j

theorem undisturbed_own {j : ν} {s : Street α} {alone : FileSystem × Option (PersistedQueue (α j))}
    (undisturbed : Undisturbed place j s alone) (a : Act (α j)) :
    ((street place).step s ⟨j,a⟩).1 = ⟨j,((solitary (place j)).step alone a).1⟩ ∧
      Undisturbed place j ((street place).step s ⟨j,a⟩).2 ((solitary (place j)).step alone a).2 := by
  have orderly := undisturbed.orderly
  obtain ⟨answered,done⟩ := parallel_act (orderly.tended j) undisturbed.tended (orderly.own j) undisturbed.files
    undisturbed.object a
  refine ⟨congrArg (Sigma.mk j) answered,orderly_street same unmatched orderly ⟨j,a⟩,?_,done.files,?_⟩
  · obtain ⟨names,minds⟩ := (keeps_act undisturbed.tended (undisturbed.object.own (orderly.own j)) a).files
    exact undisturbed.tended.kept minds
  · have updated : ((street place).step s ⟨j,a⟩).2.objects j = (a.outcome (place j) s.files (s.objects j)).object :=
      Function.update_self ..
    rw [updated]
    exact done.object

theorem undisturbed_others {j : ν} {s : Street α} {alone : FileSystem × Option (PersistedQueue (α j))}
    (undisturbed : Undisturbed place j s alone) (a : Σ i, Act (α i)) (other : a.1 ≠ j) :
    Undisturbed place j ((street place).step s a).2 alone := by
  obtain ⟨i,a⟩ := a
  have orderly := undisturbed.orderly
  obtain ⟨names,minds⟩ := (keeps_act (orderly.tended i) (orderly.own i) a).files
  refine ⟨orderly_street same unmatched orderly ⟨i,a⟩,undisturbed.tended,?_,?_⟩
  · intro path own
    have foreign := Place.owns_apart (same j i) (texts_differ unmatched (Ne.symm other)) own
    exact (minds.kept path foreign).trans (undisturbed.files path own)
  · have kept : ((street place).step s ⟨i,a⟩).2.objects j = s.objects j := Function.update_of_ne (Ne.symm other) ..
    rw [kept]
    exact undisturbed.object

-- Each queue of a street answers as it would alone, from the same files, and is
-- left with the same content and the same files of its name, whatever the
-- others do, fail at or die in.
theorem queues_alone {files : FileSystem} (tended : ∀ i, Tended (place i) files) (acts : List (Σ i, Act (α i))) (j : ν) :
    let run := (street place).run ⟨files,fun _ => none⟩ acts
    let alone := (solitary (place j)).run (files,none) (only j acts)
    only j run.1 = alone.1 ∧ SameObject (run.2.objects j) alone.2.2 ∧ Alike (place j) run.2.files alone.2.1 := by
  have start : Undisturbed (α := α) place j ⟨files,fun _ => none⟩ (files,none) :=
    ⟨⟨tended,fun i => own_none (place i)⟩,tended j,fun _ _ => rfl,.absent⟩
  obtain ⟨answers,reached⟩ := run_only (street place) (solitary (place j)) (Undisturbed place j) (fun _ _ => rfl)
    (fun _ _ a undisturbed => undisturbed_own same unmatched undisturbed a)
    (fun _ _ a undisturbed => undisturbed_others same unmatched undisturbed a) start acts
  exact ⟨answers,reached.object,reached.files⟩

end Street

def twoLevels : List (Σ _ : Nat, Act Bool) :=
  ((storing flagCoder true).zip (storing flagCoder false)).flatMap (fun e => [⟨0,e.1⟩,⟨1,e.2⟩]) ++
    [⟨1,opening flagCoder⟩,⟨1,⟨.healthy 1500000000,flagCoder,.call .popFront,none⟩⟩]

theorem queues_alone_levels :
    only 1 ((street jobsPlace.level).run ⟨∅,fun _ => none⟩ twoLevels).1 =
      [some .done,some .done,none,some .done,some (.item (some false))] := by
  have directory : ∀ i j, (jobsPlace.level i).workingDirectory = (jobsPlace.level j).workingDirectory := fun _ _ => rfl
  have unmatched : ∀ i j, i ≠ j → ¬ Matches (jobsPlace.level i).queueName.text (jobsPlace.level j).queueName.text :=
    fun _ _ different found => different (level_injective found)
  have whole := queues_alone directory unmatched (fun i => .vacant (vacant_empty (jobsPlace.level i))) twoLevels 1
  exact whole.1.trans (by decide +kernel)

end Kisscpp
