import Mathlib.Data.List.Basic
import Mathlib.Data.List.Range
import Mathlib.Logic.Function.Basic
import Mathlib.Tactic

/-!
A queue in an array with two counters that only grow, and wrap around where their type ends.

The item of a counter is in the slot of the counter modulo the size of the array.  Because the size
divides the range of the counters, a wrap does not move the slots.

* `Dims`: the size of the array and the range of the counters;
* `Ring`, `Ring.push`, `Ring.pop`: the queue;
* `Ring.contents`: the items in it, the oldest first;
* `contents_push`, `pop_eq`: it is a bounded queue, first in, first out.
-/

namespace RaftRx

/-- An array of `size` slots and counters below `range`. -/
structure Dims where
  size : ℕ
  range : ℕ
  size_pos : 0 < size
  size_lt : size < range
  size_dvd : size ∣ range

namespace Dims

variable (d : Dims)

/-- The next value of a counter. -/
def next (c : ℕ) : ℕ := (c + 1) % d.range

/-- `tail - head` in the arithmetic of the counters. -/
def span (head tail : ℕ) : ℕ := (tail + (d.range - head)) % d.range

/-- The slot of a counter. -/
def slot (c : ℕ) : ℕ := c % d.size

variable {d} {head tail : ℕ}

lemma range_pos : 0 < d.range := d.size_pos.trans d.size_lt

lemma next_lt (c : ℕ) : d.next c < d.range := Nat.mod_lt _ range_pos

lemma next_eq {c : ℕ} (hc : c < d.range) : d.next c = if c + 1 = d.range then 0 else c + 1 := by
  rw [next]
  split_ifs with h
  · rw [h, Nat.mod_self]
  · exact Nat.mod_eq_of_lt (by omega)

/-- Behind the head the tail is that far away, before it the way goes around. -/
lemma span_eq (hh : head < d.range) (ht : tail < d.range) :
    d.span head tail = if head ≤ tail then tail - head else tail + d.range - head := by
  rw [span]
  split_ifs with h
  · rw [show tail + (d.range - head) = (tail - head) + d.range by omega, Nat.add_mod_right]
    exact Nat.mod_eq_of_lt (by omega)
  · rw [Nat.mod_eq_of_lt (by omega)]
    omega

lemma span_eq_zero (hh : head < d.range) (ht : tail < d.range) :
    d.span head tail = 0 ↔ head = tail := by
  rw [span_eq hh ht]
  split_ifs with h <;> omega

/-- One more item. -/
lemma span_next_tail (hh : head < d.range) (ht : tail < d.range) (hs : d.span head tail < d.size) :
    d.span head (d.next tail) = d.span head tail + 1 := by
  have hlt := d.size_lt
  rw [span_eq hh (next_lt tail)]
  rw [span_eq hh ht] at hs ⊢
  rw [next_eq ht]
  split_ifs at * <;> omega

/-- One item less. -/
lemma span_next_head (hh : head < d.range) (ht : tail < d.range) (hne : head ≠ tail) :
    d.span (d.next head) tail + 1 = d.span head tail := by
  rw [span_eq (next_lt head) ht, span_eq hh ht, next_eq hh]
  split_ifs <;> omega

/-- Counters modulo the range have the slots of the counters themselves. -/
lemma slot_mod (c : ℕ) : d.slot (c % d.range) = d.slot c := Nat.mod_mod_of_dvd c d.size_dvd

lemma tail_eq (hh : head < d.range) (ht : tail < d.range) :
    (head + d.span head tail) % d.range = tail := by
  rw [span_eq hh ht]
  split_ifs with h
  · rw [Nat.add_sub_cancel' h]
    exact Nat.mod_eq_of_lt ht
  · rw [show head + (tail + d.range - head) = tail + d.range by omega, Nat.add_mod_right]
    exact Nat.mod_eq_of_lt ht

/-- Counters less than a size apart have different slots. -/
lemma slot_ne {c k : ℕ} (hpos : 0 < k) (hk : k < d.size) : d.slot (c + k) ≠ d.slot c := by
  intro h
  have hmod : (c + k) % d.size = (c + 0) % d.size := h
  have hzero : k % d.size = 0 % d.size := Nat.ModEq.add_left_cancel' c hmod
  rw [Nat.mod_eq_of_lt hk, Nat.zero_mod] at hzero
  omega

end Dims

/-! ### The queue -/

/-- The array and the counters. -/
structure Ring (α : Type*) (d : Dims) where
  slots : ℕ → α
  head : ℕ
  tail : ℕ
  head_lt : head < d.range
  tail_lt : tail < d.range
  span_le : d.span head tail ≤ d.size

namespace Ring

variable {α : Type*} {d : Dims}

/-- An item for the queue; a full queue is left as it is. -/
def push (r : Ring α d) (x : α) : Ring α d :=
  if h : d.span r.head r.tail < d.size then
    { slots := Function.update r.slots (d.slot r.tail) x
      head := r.head
      tail := d.next r.tail
      head_lt := r.head_lt
      tail_lt := Dims.next_lt r.tail
      span_le := (Dims.span_next_tail r.head_lt r.tail_lt h).trans_le h }
  else r

/-- The oldest item, if there is one. -/
def pop (r : Ring α d) : Option α × Ring α d :=
  if h : r.head = r.tail then (none, r)
  else
    (some (r.slots (d.slot r.head)),
      { slots := r.slots
        head := d.next r.head
        tail := r.tail
        head_lt := Dims.next_lt r.head
        tail_lt := r.tail_lt
        span_le := by
          have hspan := Dims.span_next_head r.head_lt r.tail_lt h
          have hle := r.span_le
          omega })

/-- The items in the queue, the oldest first. -/
def contents (r : Ring α d) : List α :=
  (List.range (d.span r.head r.tail)).map fun i => r.slots (d.slot (r.head + i))

@[simp] lemma length_contents (r : Ring α d) : r.contents.length = d.span r.head r.tail := by
  rw [contents, List.length_map, List.length_range]

/-- **Pushing** appends an item to a queue that is not full. -/
theorem contents_push (r : Ring α d) (x : α) :
    (r.push x).contents =
      if r.contents.length < d.size then r.contents ++ [x] else r.contents := by
  rw [length_contents, push]
  split_ifs with h
  · have hspan := Dims.span_next_tail r.head_lt r.tail_lt h
    have htail : d.slot r.tail = d.slot (r.head + d.span r.head r.tail) := by
      rw [← Dims.slot_mod (r.head + d.span r.head r.tail), Dims.tail_eq r.head_lt r.tail_lt]
    rw [contents, hspan, List.range_succ, List.map_append]
    congr 1
    · refine List.map_congr_left fun i hi => ?_
      have hi' := List.mem_range.mp hi
      have hne : d.slot (r.head + i) ≠ d.slot r.tail := by
        rw [htail, show r.head + d.span r.head r.tail =
          r.head + i + (d.span r.head r.tail - i) by omega]
        exact (Dims.slot_ne (by omega) (by omega)).symm
      exact Function.update_of_ne hne x r.slots
    · rw [List.map_singleton]
      show [Function.update r.slots (d.slot r.tail) x _] = [x]
      rw [← htail, Function.update_self]
  · rfl

/-- **Popping** takes the oldest item out. -/
theorem pop_eq (r : Ring α d) :
    r.pop.1 = r.contents.head? ∧ r.pop.2.contents = r.contents.tail := by
  rw [pop]
  split_ifs with h
  · have hnil : r.contents = [] := by
      rw [← List.length_eq_zero_iff, length_contents]
      exact (Dims.span_eq_zero r.head_lt r.tail_lt).mpr h
    exact ⟨by rw [hnil]; rfl, by rw [hnil]; rfl⟩
  · have hspan := Dims.span_next_head r.head_lt r.tail_lt h
    have hcontents : r.contents = r.slots (d.slot r.head) ::
        (List.range (d.span (d.next r.head) r.tail)).map
          fun i => r.slots (d.slot (r.head + (i + 1))) := by
      rw [contents, ← hspan, List.range_succ_eq_map, List.map_cons, List.map_map]
      rfl
    rw [hcontents]
    refine ⟨rfl, ?_⟩
    rw [List.tail_cons, contents]
    refine List.map_congr_left fun i _ => ?_
    show r.slots (d.slot (d.next r.head + i)) = r.slots (d.slot (r.head + (i + 1)))
    have hslot : d.slot (d.next r.head + i) = d.slot (r.head + (i + 1)) :=
      calc d.slot (d.next r.head + i) = d.slot ((d.next r.head + i) % d.range) :=
            (Dims.slot_mod _).symm
        _ = d.slot ((r.head + 1 + i) % d.range) := by rw [Dims.next, Nat.mod_add_mod]
        _ = d.slot (r.head + 1 + i) := Dims.slot_mod _
        _ = d.slot (r.head + (i + 1)) := by rw [Nat.add_assoc, Nat.add_comm 1 i]
    rw [hslot]

end Ring

end RaftRx
