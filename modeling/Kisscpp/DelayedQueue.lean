import Mathlib.Data.Int.Order.Basic
import Kisscpp.Machine
import Kisscpp.KeyedLists
import Kisscpp.Fifo

namespace Kisscpp
open Stepping KeyedLists

variable {σ α : Type*}

-- The map from release times to the lists of the items held until then.
structure DelayedQueue (σ α : Type*) where
  persistedQ : σ
  delayedMap : List (Int × List α) := []

namespace DelayedQueue

-- The while loop over one list of the map, and its erase.
def moveKey (fifo : Fifo σ α) (q : DelayedQueue σ α) (key : Int) : DelayedQueue σ α where
  persistedQ := (listAt key q.delayedMap).foldl fifo.pushBack q.persistedQ
  delayedMap := erase key q.delayedMap

-- The keys are copied before the loop.
def moveExpired (fifo : Fifo σ α) (forceMove : Bool) (now : Int) (q : DelayedQueue σ α) : DelayedQueue σ α :=
  if forceMove || fifo.isEmpty q.persistedQ then
    (q.delayedMap.map Prod.fst).foldl (fun q key => if forceMove || key < now then moveKey fifo q key else q) q
  else q

-- The clock is read once for the release time and again in moveExpired.
def push (fifo : Fifo σ α) (p : α) (seconds2delay : Nat) (time now : Int) (q : DelayedQueue σ α) : DelayedQueue σ α :=
  let time2release := time + seconds2delay
  moveExpired fifo false now (if seconds2delay = 0 then {q with persistedQ := fifo.pushBack q.persistedQ p}
    else {q with delayedMap := pushAt time2release p q.delayedMap})

def pop (fifo : Fifo σ α) (now : Int) (q : DelayedQueue σ α) : Option α × DelayedQueue σ α :=
  let q := moveExpired fifo false now q
  ((fifo.popFront q.persistedQ).1,{q with persistedQ := (fifo.popFront q.persistedQ).2})

def empty (fifo : Fifo σ α) (now : Int) (q : DelayedQueue σ α) : Bool × DelayedQueue σ α :=
  let q := moveExpired fifo false now q
  (fifo.isEmpty q.persistedQ,q)

def noLockmapSize (q : DelayedQueue σ α) : Nat := q.delayedMap.foldl (fun count e => count + e.2.length) 0

def size (fifo : Fifo σ α) (q : DelayedQueue σ α) : Nat := fifo.size q.persistedQ + q.noLockmapSize

theorem noLockmapSize_held (q : DelayedQueue σ α) : q.noLockmapSize = (held q.delayedMap).length := by
  rw [noLockmapSize,foldl_length,Nat.zero_add]

theorem content_pushAll (fifo : Fifo σ α) (l : List α) (s : σ) :
    fifo.content (l.foldl fifo.pushBack s) = fifo.content s ++ l := by
  induction l generalizing s with
  | nil => exact (List.append_nil _).symm
  | cons x rest ih => rw [List.foldl_cons,ih,fifo.content_pushBack,List.append_assoc]; rfl

theorem moveLoop (fifo : Fifo σ α) (now : Int) (front m : List (Int × List α)) (sorted : Sorted (front ++ m)) (s : σ) :
    let moved := (m.map Prod.fst).foldl (fun q key => if key < now then moveKey fifo q key else q) ⟨s,front ++ m⟩
    fifo.content moved.persistedQ = fifo.content s ++ held (m.filter fun e => e.1 < now) ∧
      moved.delayedMap = front ++ m.filter fun e => ¬ e.1 < now := by
  induction m generalizing front s with
  | nil => simp
  | cons e rest ih =>
    obtain ⟨key,l⟩ := e
    obtain ⟨_,sortedRest,across⟩ := List.pairwise_append.mp sorted
    have least := (List.pairwise_cons.mp sortedRest).1
    have apart : ∀ e ∈ front, e.1 ≠ key := fun e member => ne_of_lt (across e member (key,l) List.mem_cons_self)
    have others : ∀ e ∈ rest, e.1 ≠ key := fun e member => Ne.symm (ne_of_lt (least e member))
    by_cases expired : key < now
    · have shorter : Sorted (front ++ rest) :=
        sorted.sublist (List.Sublist.append_left (List.sublist_cons_self _ _) front)
      obtain ⟨content,left⟩ := ih front shorter (l.foldl fifo.pushBack s)
      have once : moveKey fifo ⟨s,front ++ (key,l) :: rest⟩ key = ⟨l.foldl fifo.pushBack s,front ++ rest⟩ := by
        rw [moveKey,listAt_middle apart,erase_middle apart others]
      simp only [List.map_cons,List.foldl_cons,expired,if_true,once]
      refine ⟨?_,?_⟩
      · rw [content,content_pushAll,List.filter_cons_of_pos (by simpa using expired),held_cons,List.append_assoc]
      · rw [left,List.filter_cons_of_neg (by simpa using expired)]
    · have same : front ++ (key,l) :: rest = (front ++ [(key,l)]) ++ rest := by simp
      obtain ⟨content,left⟩ := ih (front ++ [(key,l)]) (same ▸ sorted) s
      simp only [List.map_cons,List.foldl_cons,expired,if_false]
      rw [same]
      refine ⟨?_,?_⟩
      · rw [content,List.filter_cons_of_neg (by simpa using expired)]
      · rw [left,List.filter_cons_of_pos (by simpa using expired)]
        simp

theorem moveExpired_moves (fifo : Fifo σ α) (now : Int) {q : DelayedQueue σ α} (sorted : Sorted q.delayedMap)
    (none : fifo.content q.persistedQ = []) :
    fifo.content (q.moveExpired fifo false now).persistedQ = held (q.delayedMap.filter fun e => e.1 < now) ∧
      (q.moveExpired fifo false now).delayedMap = q.delayedMap.filter fun e => ¬ e.1 < now := by
  have idle : fifo.isEmpty q.persistedQ = true := by rw [fifo.isEmpty_content,none]; rfl
  obtain ⟨content,left⟩ := moveLoop fifo now [] q.delayedMap sorted q.persistedQ
  simp only [moveExpired,idle,Bool.or_true,if_true,Bool.false_or]
  rw [none] at content
  exact ⟨by simpa using content,by simpa using left⟩

theorem moveExpired_waits (fifo : Fifo σ α) (now : Int) {q : DelayedQueue σ α}
    (some : fifo.content q.persistedQ ≠ []) : q.moveExpired fifo false now = q := by
  have busy : fifo.isEmpty q.persistedQ = false := by
    rw [fifo.isEmpty_content]
    exact List.isEmpty_eq_false_iff.mpr some
  simp [moveExpired,busy]

end DelayedQueue
end Kisscpp
