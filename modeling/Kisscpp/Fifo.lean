import Mathlib.Data.List.Basic

namespace Kisscpp

-- A first-in-first-out store, known by its content.
structure Fifo (σ α : Type*) where
  start : σ
  pushBack : σ → α → σ
  popFront : σ → Option α × σ
  isEmpty : σ → Bool
  size : σ → Nat
  content : σ → List α
  content_start : content start = []
  content_pushBack : ∀ s x, content (pushBack s x) = content s ++ [x]
  content_popFront : ∀ s, content (popFront s).2 = (content s).tail
  popFront_head : ∀ s, (popFront s).1 = (content s).head?
  isEmpty_content : ∀ s, isEmpty s = (content s).isEmpty
  size_content : ∀ s, size s = (content s).length

def listFifo (α : Type*) : Fifo (List α) α where
  start := []
  pushBack s x := s ++ [x]
  popFront s := (s.head?,s.tail)
  isEmpty := List.isEmpty
  size := List.length
  content s := s
  content_start := rfl
  content_pushBack _ _ := rfl
  content_popFront _ := rfl
  popFront_head _ := rfl
  isEmpty_content _ := rfl
  size_content _ := rfl

end Kisscpp
