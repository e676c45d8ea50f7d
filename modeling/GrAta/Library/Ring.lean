import Mathlib.Data.List.Basic
import Mathlib.Data.List.Infix
import Mathlib.Tactic.Common

/-!
# Bounded rings between a producer and a consumer

A ring of fixed capacity that overwrites its oldest element when it is full, filled by
a producer and emptied by a consumer. The consumer counts the elements first, and then
takes up to that many. In between the producer may go on, so the count is stale; it is
still safe, as a push never makes the ring shorter.

## Main definitions

- `Ring.push`: append an element, overwriting the oldest one of a full ring
- `Ring.HandOver`: what holds of a ring between producer and consumer

## Main results

- `Ring.HandOver.push`, `.recount`, `.take`: every operation keeps it
- `Ring.HandOver.taken_sublist`: what the consumer has taken
-/

namespace Ring

variable {α : Type*}

/-- Append an element. A full ring loses its oldest element, which is the new one when
the capacity is zero. -/
def push (capacity : ℕ) (ring : List α) (a : α) : List α :=
  if ring.length < capacity then ring ++ [a] else (ring ++ [a]).tail

theorem push_of_lt {capacity : ℕ} {ring : List α} (h : ring.length < capacity) (a : α) :
    push capacity ring a = ring ++ [a] := if_pos h

theorem push_suffix (capacity : ℕ) (ring : List α) (a : α) :
    push capacity ring a <:+ ring ++ [a] := by
  rw [push]
  split
  · exact List.suffix_rfl
  · exact List.tail_suffix _

/-- A push never makes the ring shorter. -/
theorem length_le_push (capacity : ℕ) (ring : List α) (a : α) :
    ring.length ≤ (push capacity ring a).length := by
  rw [push]
  split
  · rw [List.length_append]
    exact Nat.le_add_right _ _
  · rw [List.length_tail, List.length_append, List.length_singleton]
    exact le_rfl

/-- A ring between a producer, who has pushed `pushed`, and a consumer, who has taken
`taken` and may take `count` more elements. -/
structure HandOver (pushed taken ring : List α) (count : ℕ) : Prop where
  sublist : (taken ++ ring).Sublist pushed
  count_le : count ≤ ring.length

namespace HandOver

variable {pushed taken ring : List α} {count : ℕ}

theorem empty : HandOver ([] : List α) [] [] 0 := ⟨List.Sublist.refl _, le_rfl⟩

theorem push (h : HandOver pushed taken ring count) (capacity : ℕ) (a : α) :
    HandOver (pushed ++ [a]) taken (Ring.push capacity ring a) count where
  sublist := by
    have hring : (taken ++ Ring.push capacity ring a).Sublist (taken ++ (ring ++ [a])) :=
      (push_suffix capacity ring a).sublist.append_left taken
    rw [← List.append_assoc] at hring
    exact hring.trans (h.sublist.append_right [a])
  count_le := h.count_le.trans (length_le_push capacity ring a)

/-- The consumer counts anew. -/
theorem recount (h : HandOver pushed taken ring count) :
    HandOver pushed taken ring ring.length := ⟨h.sublist, le_rfl⟩

/-- While the count lasts there is an element to take. -/
theorem take (h : HandOver pushed taken ring (count + 1)) :
    ∃ a rest, ring = a :: rest ∧ HandOver pushed (taken ++ [a]) rest count := by
  obtain ⟨a, rest, rfl⟩ := List.exists_cons_of_length_pos (Nat.zero_lt_of_lt h.count_le)
  refine ⟨a, rest, rfl, ?_, Nat.le_of_succ_le_succ h.count_le⟩
  rw [List.append_assoc]
  exact h.sublist

/-- The consumer has taken some of the elements, each once, in the order of the pushes. -/
theorem taken_sublist (h : HandOver pushed taken ring count) : taken.Sublist pushed :=
  (List.sublist_append_left taken ring).trans h.sublist

end HandOver

end Ring
