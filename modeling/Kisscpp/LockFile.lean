import Mathlib.Logic.Function.Basic
import Kisscpp.Machine
import Kisscpp.TextLines

namespace Kisscpp
open TextLines Stepping

-- What all processes of one application id and instance share: the two names,
-- and the file that a path names in a process with this working directory.
structure LockSite (File : Type) where
  appid : Text
  appInstance : Text
  resolve : Text → Text → File

-- What each process has for itself: KCPP_LOCK_DIR and the directory it is started in.
structure Launch where
  kcppLockDir : Option Text
  directory : Text

-- A process counts as started once createLockFile has answered true. From then
-- on its directory may change.
inductive Process where
  | outside
  | checked (launch : Launch)
  | constructing (launch : Launch) (directory : Text)
  | running (launch : Launch) (directory : Text)

def Process.startedBy : Process → Option Launch
  | .constructing launch _ => some launch
  | .running launch _ => some launch
  | _ => none

variable {File : Type}

def LockSite.lockFilePath (site : LockSite File) (launch : Launch) : Text :=
  (launch.kcppLockDir.getD "/var/run".toList) ++ ['/'] ++ (site.appid ++ ['.'] ++ site.appInstance ++ ".lock".toList)

def LockSite.lockFile (site : LockSite File) (launch : Launch) : File :=
  site.resolve launch.directory (site.lockFilePath launch)

structure LockWorld (File : Type) where
  present : File → Bool
  processes : Nat → Process

-- The steps of process number p. An exception leaves the constructor without
-- the destructor being run.
inductive LockStep where
  | checkLockFile (p : Nat) (launch : Launch)
  | createLockFile (p : Nat) (opens : Bool)
  | becomeDaemonProcess (p : Nat)
  | constructorThrows (p : Nat)
  | constructed (p : Nat)
  | destroyed (p : Nat)

namespace LockWorld

def moved (w : LockWorld File) (p : Nat) (process : Process) : LockWorld File :=
  {w with processes := Function.update w.processes p process}

def checkLockFile (site : LockSite File) (w : LockWorld File) (p : Nat) (launch : Launch) : LockWorld File :=
  if w.present (site.lockFile launch) then w else w.moved p (.checked launch)

-- A daemon moves to "/".
def becomeDaemonProcess (w : LockWorld File) (p : Nat) (launch : Launch) : LockWorld File :=
  w.moved p (.constructing launch ['/'])

variable [DecidableEq File]

-- Opening for output takes an existing file as well.
def createLockFile (site : LockSite File) (w : LockWorld File) (p : Nat) (launch : Launch) (opens : Bool) :
    LockWorld File :=
  if opens then
    ({w with present := Function.update w.present (site.lockFile launch) true}).moved p
      (.constructing launch launch.directory)
  else w.moved p .outside

-- ~Server: the path is the one computed at the start, the directory may have changed.
def removeLockFile (site : LockSite File) (w : LockWorld File) (p : Nat) (launch : Launch) (directory : Text) :
    LockWorld File :=
  let file := site.resolve directory (site.lockFilePath launch)
  ({w with present := Function.update w.present file false}).moved p .outside

-- A step that the process is not at changes nothing.
def step (site : LockSite File) (w : LockWorld File) : LockStep → LockWorld File
  | .checkLockFile p launch => match w.processes p with
    | .outside => w.checkLockFile site p launch
    | _ => w
  | .createLockFile p opens => match w.processes p with
    | .checked launch => w.createLockFile site p launch opens
    | _ => w
  | .becomeDaemonProcess p => match w.processes p with
    | .constructing launch _ => w.becomeDaemonProcess p launch
    | _ => w
  | .constructorThrows p => match w.processes p with
    | .constructing _ _ => w.moved p .outside
    | _ => w
  | .constructed p => match w.processes p with
    | .constructing launch directory => w.moved p (.running launch directory)
    | _ => w
  | .destroyed p => match w.processes p with
    | .running launch directory => w.removeLockFile site p launch directory
    | _ => w

end LockWorld

def locking [DecidableEq File] (site : LockSite File) : Machine (LockWorld File) LockStep Unit where
  step w s := ((),w.step site s)

def unlocked : LockWorld File := ⟨fun _ => false,fun _ => .outside⟩

structure Exclusive (site : LockSite File) (w : LockWorld File) : Prop where
  single : ∀ p q, (w.processes p).startedBy ≠ none → (w.processes q).startedBy ≠ none → p = q
  locked : ∀ file, w.present file = true ↔
    ∃ p launch, (w.processes p).startedBy = some launch ∧ site.lockFile launch = file

-- The lock file is created while no process has one, no constructor throws after
-- that, and the destructor still finds the file.
def KeepsLock (site : LockSite File) (w : LockWorld File) : LockStep → Prop
  | .createLockFile p opens => ∀ launch, w.processes p = .checked launch → opens = true → ∀ file, w.present file = false
  | .constructorThrows p => ∀ launch directory, w.processes p ≠ .constructing launch directory
  | .destroyed p => ∀ launch directory, w.processes p = .running launch directory →
    site.resolve directory (site.lockFilePath launch) = site.lockFile launch
  | _ => True

theorem unlocked_exclusive (site : LockSite File) : Exclusive site unlocked := by
  refine ⟨fun p q started => absurd rfl started,?_⟩
  intro file
  refine iff_of_false Bool.false_ne_true ?_
  rintro ⟨p,launch,started,_⟩
  cases started

def Turned (w after : LockWorld File) (p : Nat) : Prop := ∀ q, q ≠ p → after.processes q = w.processes q

theorem Exclusive.same {site : LockSite File} {w after : LockWorld File} {p : Nat} (exclusive : Exclusive site w)
    (turned : Turned w after p) (present : after.present = w.present)
    (side : (after.processes p).startedBy = (w.processes p).startedBy) : Exclusive site after := by
  have all : ∀ q, (after.processes q).startedBy = (w.processes q).startedBy := by
    intro q
    by_cases same : q = p
    · rw [same]
      exact side
    · rw [turned q same]
  constructor
  · intro q r first second
    rw [all] at first second
    exact exclusive.single q r first second
  · intro file
    simp only [present,all,exclusive.locked]

theorem Exclusive.nobody {site : LockSite File} {w : LockWorld File} (exclusive : Exclusive site w) :
    (∀ file, w.present file = false) ↔ ∀ p, (w.processes p).startedBy = none := by
  constructor
  · intro absent p
    cases started : (w.processes p).startedBy with
    | none => rfl
    | some launch =>
      have locked := (exclusive.locked (site.lockFile launch)).mpr ⟨p,launch,started,rfl⟩
      rw [absent] at locked
      cases locked
  · intro nobody file
    apply Bool.eq_false_iff.mpr
    intro locked
    obtain ⟨p,launch,started,_⟩ := (exclusive.locked file).mp locked
    rw [nobody] at started
    cases started

theorem Exclusive.present {site : LockSite File} {w : LockWorld File} {p : Nat} {launch : Launch}
    (exclusive : Exclusive site w) (started : (w.processes p).startedBy = some launch) (file : File) :
    w.present file = true ↔ file = site.lockFile launch := by
  rw [exclusive.locked]
  constructor
  · rintro ⟨q,other,too,rfl⟩
    have same := exclusive.single q p (by simp [too]) (by simp [started])
    rw [same,started] at too
    cases too
    rfl
  · rintro rfl
    exact ⟨p,launch,started,rfl⟩

theorem create_exclusive [DecidableEq File] {site : LockSite File} {w after : LockWorld File} {p : Nat}
    {launch : Launch} (exclusive : Exclusive site w) (turned : Turned w after p)
    (outside : (w.processes p).startedBy = none) (inside : (after.processes p).startedBy = some launch)
    (locked : after.present = Function.update w.present (site.lockFile launch) true) :
    Exclusive site after ↔ ∀ file, w.present file = false := by
  rw [exclusive.nobody]
  constructor
  · intro next q
    by_cases same : q = p
    · rw [same,outside]
    · apply Classical.byContradiction
      intro started
      rw [← turned q same] at started
      exact same (next.single q p started (by simp [inside]))
  · intro nobody
    have only : ∀ q, (after.processes q).startedBy ≠ none → q = p := by
      intro q started
      apply Classical.byContradiction
      intro different
      rw [turned q different] at started
      exact started (nobody q)
    refine ⟨fun q r first second => (only q first).trans (only r second).symm,?_⟩
    intro file
    rw [locked]
    constructor
    · intro present
      by_cases same : file = site.lockFile launch
      · exact ⟨p,launch,inside,same.symm⟩
      · rw [Function.update_of_ne same,exclusive.nobody.mpr nobody] at present
        cases present
    · rintro ⟨q,other,started,rfl⟩
      rw [only q (by simp [started]),inside] at started
      cases started
      exact Function.update_self _ _ _

theorem leave_exclusive {site : LockSite File} {w after : LockWorld File} {p : Nat} {launch : Launch}
    (exclusive : Exclusive site w) (turned : Turned w after p) (inside : (w.processes p).startedBy = some launch)
    (outside : (after.processes p).startedBy = none) :
    Exclusive site after ↔ ∀ file, after.present file = false := by
  have nobody : ∀ q, (after.processes q).startedBy = none := by
    intro q
    by_cases same : q = p
    · rw [same,outside]
    · rw [turned q same]
      apply Classical.byContradiction
      intro started
      exact same (exclusive.single q p started (by simp [inside]))
  constructor
  · intro next
    exact next.nobody.mpr nobody
  · intro gone
    refine ⟨fun q r first => absurd (nobody q) first,?_⟩
    intro file
    refine iff_of_false (by simp [gone]) ?_
    rintro ⟨q,other,started,_⟩
    rw [nobody] at started
    cases started

theorem moved_turned (w : LockWorld File) (p : Nat) (process : Process) : Turned w (w.moved p process) p :=
  fun _ different => Function.update_of_ne different _ _

@[simp] theorem moved_process (w : LockWorld File) (p : Nat) (process : Process) :
    (w.moved p process).processes p = process := by
  simp only [LockWorld.moved,Function.update_self]

@[simp] theorem moved_present (w : LockWorld File) (p : Nat) (process : Process) :
    (w.moved p process).present = w.present := rfl

theorem moved_exclusive {site : LockSite File} {w : LockWorld File} {p : Nat} (exclusive : Exclusive site w)
    {process : Process} (side : process.startedBy = (w.processes p).startedBy) :
    Exclusive site (w.moved p process) := by
  apply exclusive.same (moved_turned w p process) rfl
  rw [moved_process,side]

theorem createLockFile_exclusive [DecidableEq File] {site : LockSite File} {w : LockWorld File} {p : Nat} {launch : Launch}
    (exclusive : Exclusive site w) (checked : w.processes p = .checked launch) (opens : Bool) :
    Exclusive site (w.createLockFile site p launch opens) ↔ (opens = true → ∀ file, w.present file = false) := by
  have outside : (w.processes p).startedBy = none := by rw [checked]; rfl
  unfold LockWorld.createLockFile
  cases opens with
  | false =>
    refine iff_of_true ?_ (fun opened => by cases opened)
    exact moved_exclusive exclusive outside.symm
  | true =>
    have created := @create_exclusive _ _ site w _ p launch exclusive
      (moved_turned {w with present := Function.update w.present (site.lockFile launch) true} p
        (.constructing launch launch.directory)) outside (by rw [moved_process]; rfl) rfl
    exact created.trans ⟨fun absent _ => absent,fun rules => rules rfl⟩

theorem thrown_not_exclusive {site : LockSite File} {w : LockWorld File} {p : Nat} {launch : Launch}
    (exclusive : Exclusive site w) (started : (w.processes p).startedBy = some launch) :
    ¬ Exclusive site (w.moved p .outside) := by
  have left := leave_exclusive exclusive (moved_turned w p .outside) started (by rw [moved_process]; rfl)
  intro next
  have gone := left.mp next (site.lockFile launch)
  rw [moved_present,(exclusive.present started _).mpr rfl] at gone
  cases gone

theorem removeLockFile_exclusive [DecidableEq File] {site : LockSite File} {w : LockWorld File} {p : Nat} {launch : Launch}
    {directory : Text} (exclusive : Exclusive site w) (started : (w.processes p).startedBy = some launch) :
    Exclusive site (w.removeLockFile site p launch directory) ↔
      site.resolve directory (site.lockFilePath launch) = site.lockFile launch := by
  have left := @leave_exclusive _ site w (w.removeLockFile site p launch directory) p launch exclusive
    (moved_turned ⟨Function.update w.present (site.resolve directory (site.lockFilePath launch)) false,w.processes⟩
      p .outside) started (by rw [LockWorld.removeLockFile,moved_process]; rfl)
  refine left.trans ?_
  simp only [LockWorld.removeLockFile,moved_present]
  constructor
  · intro absent
    apply Classical.byContradiction
    intro missed
    have kept := absent (site.lockFile launch)
    rw [Function.update_of_ne (Ne.symm missed),(exclusive.present started _).mpr rfl] at kept
    cases kept
  · intro found file
    by_cases same : file = site.lockFile launch
    · rw [same,found]
      exact Function.update_self _ _ _
    · rw [found,Function.update_of_ne same]
      exact Bool.eq_false_iff.mpr fun present => same ((exclusive.present started file).mp present)

theorem step_exclusive [DecidableEq File] {site : LockSite File} {w : LockWorld File} {s : LockStep}
    (exclusive : Exclusive site w) : Exclusive site (w.step site s) ↔ KeepsLock site w s := by
  cases s with
  | checkLockFile p launch =>
    refine iff_of_true ?_ trivial
    dsimp only [LockWorld.step]
    split
    · next outside =>
      unfold LockWorld.checkLockFile
      split
      · exact exclusive
      · exact moved_exclusive exclusive (by rw [outside]; rfl)
    · exact exclusive
  | createLockFile p opens =>
    dsimp only [LockWorld.step,KeepsLock]
    split
    · next launch checked =>
      rw [createLockFile_exclusive exclusive checked]
      constructor
      · intro rule other same
        exact rule
      · intro rules
        exact rules launch checked
    · next elsewhere => exact iff_of_true exclusive fun launch checked => absurd checked (elsewhere launch)
  | becomeDaemonProcess p =>
    refine iff_of_true ?_ trivial
    dsimp only [LockWorld.step]
    split
    · next constructing => exact moved_exclusive exclusive (by rw [constructing]; rfl)
    · exact exclusive
  | constructorThrows p =>
    dsimp only [LockWorld.step,KeepsLock]
    split
    · next launch directory constructing =>
      have started : (w.processes p).startedBy = some launch := by rw [constructing]; rfl
      exact iff_of_false (thrown_not_exclusive exclusive started) fun rules => rules launch directory constructing
    · next elsewhere => exact iff_of_true exclusive elsewhere
  | constructed p =>
    refine iff_of_true ?_ trivial
    dsimp only [LockWorld.step]
    split
    · next constructing => exact moved_exclusive exclusive (by rw [constructing]; rfl)
    · exact exclusive
  | destroyed p =>
    dsimp only [LockWorld.step,KeepsLock]
    split
    · next launch directory running =>
      have started : (w.processes p).startedBy = some launch := by rw [running]; rfl
      rw [removeLockFile_exclusive exclusive started]
      constructor
      · intro found other elsewhere same
        rw [running] at same
        cases same
        exact found
      · intro rules
        exact rules launch directory running
    · next elsewhere =>
      exact iff_of_true exclusive fun launch directory running => absurd running (elsewhere launch directory)

theorem locking_exclusive [DecidableEq File] (site : LockSite File) : ∀ w s, Exclusive site w →
    (Exclusive site ((locking site).step w s).2 ↔ KeepsLock site w s) :=
  fun _ _ exclusive => step_exclusive exclusive

-- In every run, by any number of processes in whatever directories: every state
-- is exclusive if and only if every step kept to the rules.
theorem lock_file_excludes [DecidableEq File] (site : LockSite File) (steps : List LockStep) :
    (locking site).Throughout (Exclusive site) unlocked steps ↔ (locking site).Admits (KeepsLock site) unlocked steps :=
  throughout_admits (locking_exclusive site) (unlocked_exclusive site)

-- Paths taken as written, without links and without "..".
def resolved (directory path : Text) : Text :=
  if path.head? = some '/' then path
  else if directory.getLast? = some '/' then directory ++ path
  else directory ++ '/' :: path

def someSite : LockSite Text := ⟨['a'],['1'],resolved⟩
def systemLaunch : Launch := ⟨none,['/']⟩
def relativeLaunch : Launch := ⟨some ['l','o','c','k','s'],['/','s','r','v']⟩
def homeLaunch : Launch := ⟨some ['l','o','c','k','s'],['/','h','o','m','e']⟩

def racing : List LockStep :=
  [.checkLockFile 0 systemLaunch,.checkLockFile 1 systemLaunch,.createLockFile 0 true,.createLockFile 1 true]

-- After a constructor that throws no start succeeds.
def throwing : List LockStep :=
  [.checkLockFile 0 systemLaunch,.createLockFile 0 true,.constructorThrows 0,.checkLockFile 1 systemLaunch]

-- A daemon looks for a relative lock file in "/".
def stranded : List LockStep :=
  [.checkLockFile 0 relativeLaunch,.createLockFile 0 true,.becomeDaemonProcess 0,.constructed 0,.destroyed 0]

def scattered : List LockStep :=
  [.checkLockFile 0 relativeLaunch,.createLockFile 0 true,.checkLockFile 1 homeLaunch,.createLockFile 1 true]

theorem lock_file_shared :
    ¬ (locking someSite).Throughout (Exclusive someSite) unlocked racing ∧
    ¬ (locking someSite).Throughout (Exclusive someSite) unlocked throwing ∧
    ¬ (locking someSite).Throughout (Exclusive someSite) unlocked stranded ∧
    ¬ (locking someSite).Throughout (Exclusive someSite) unlocked scattered := by
  have kept : ∀ steps, (locking someSite).Throughout (Exclusive someSite) unlocked steps →
      (locking someSite).Admits (KeepsLock someSite) unlocked steps := fun steps =>
    (throughout_admits (locking_exclusive someSite) (unlocked_exclusive someSite)).mp
  refine ⟨?_,?_,?_,?_⟩
  · intro always
    have absent := (kept _ always).2.2.2.1 systemLaunch rfl rfl (someSite.lockFile systemLaunch)
    exact absurd absent (by decide)
  · intro always
    exact (kept _ always).2.2.1 systemLaunch ['/'] rfl
  · intro always
    have found := (kept _ always).2.2.2.2.1 relativeLaunch ['/'] rfl
    exact absurd found (by decide)
  · intro always
    have absent := (kept _ always).2.2.2.1 homeLaunch rfl rfl (someSite.lockFile relativeLaunch)
    exact absurd absent (by decide)

end Kisscpp
