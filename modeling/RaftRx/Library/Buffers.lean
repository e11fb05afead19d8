import Mathlib.Data.List.TakeWhile
import Mathlib.Tactic

/-!
Strings in buffers of a fixed size.

A string ends at the first zero of its buffer.  Copying bytes over the beginning of a buffer leaves
what was behind them, so the string read afterwards can be longer than what was copied.

* `stored`: the string in a buffer;
* `overwrite`: bytes copied over the beginning of a buffer;
* `stored_overwrite_eq_iff`: when reading gives back what was copied.
-/

namespace RaftRx.Buffers

/-- The string in a buffer: the characters before the first zero. -/
def stored (buf : List Char) : List Char := buf.takeWhile (· ≠ '\x00')

/-- The buffer after some bytes were copied over its beginning. -/
def overwrite (buf data : List Char) : List Char := data ++ buf.drop data.length

lemma length_overwrite {buf data : List Char} (h : data.length ≤ buf.length) :
    (overwrite buf data).length = buf.length := by
  rw [overwrite, List.length_append, List.length_drop]
  omega

/-- Behind the copied bytes the buffer is as it was. -/
lemma getElem?_overwrite {buf data : List Char} {i : ℕ} (h : data.length ≤ i) :
    (overwrite buf data)[i]? = buf[i]? := by
  rw [overwrite, List.getElem?_append_right h, List.getElem?_drop]
  congr 1
  omega

/-- A string is over at a zero. -/
lemma stored_eq_nil_iff {buf : List Char} :
    stored buf = [] ↔ ∀ c, buf[0]? = some c → c = '\x00' := by
  cases buf with
  | nil => simp [stored]
  | cons c buf =>
      rw [stored, List.takeWhile_cons]
      by_cases hc : c = '\x00'
      · simp [hc]
      · simp [hc]

lemma stored_overwrite (buf data : List Char) : stored (overwrite buf data) =
    if '\x00' ∈ data then stored data else data ++ stored (buf.drop data.length) := by
  rw [stored, overwrite]
  split
  · rename_i hmem
    rw [List.takeWhile_append, if_neg]
    · rfl
    · intro hlen
      have hall := (List.takeWhile_eq_self_iff).mp
        ((List.takeWhile_prefix _).eq_of_length hlen)
      simpa using hall _ hmem
  · rename_i hmem
    have hall : data.takeWhile (· ≠ '\x00') = data := by
      refine List.takeWhile_eq_self_iff.mpr fun c hc => ?_
      have hne : c ≠ '\x00' := fun h => hmem (h ▸ hc)
      simpa using hne
    rw [List.takeWhile_append, hall, if_pos rfl]
    rfl

/-- A string without a zero is stored as it is. -/
lemma stored_of_not_mem {data : List Char} (h : '\x00' ∉ data) : stored data = data := by
  refine List.takeWhile_eq_self_iff.mpr fun c hc => ?_
  have hne : c ≠ '\x00' := fun hc0 => h (hc0 ▸ hc)
  simpa using hne

/-- **What is read back is what was copied**, if that has a zero of its own or the buffer has one
just behind it. -/
theorem stored_overwrite_eq_iff {buf data : List Char} (hlen : data.length < buf.length) :
    stored (overwrite buf data) = stored data ↔
      '\x00' ∈ data ∨ buf[data.length]? = some '\x00' := by
  rw [stored_overwrite]
  split
  · rename_i hmem
    exact iff_of_true rfl (Or.inl hmem)
  · rename_i hmem
    rw [stored_of_not_mem hmem, List.append_right_eq_self, stored_eq_nil_iff, or_iff_right hmem,
      List.getElem?_drop, Nat.add_zero, List.getElem?_eq_getElem hlen]
    simp

end RaftRx.Buffers
