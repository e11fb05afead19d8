import Mathlib.Data.List.Basic
import Mathlib.Tactic

/-!
Reading and writing a fixed count of items over a stream that moves them in pieces.

A read returns at least one item and at most as many as there is room for; nothing at all is the end
of the stream.  A write takes some of the items it is offered, or fails.

* `Pieces`: what the reader's end of a stream still holds, in the pieces it hands over;
* `Pieces.readFull`: reading until the count is reached;
* `Pieces.readFull_eq`, `Pieces.readFull_cases`: what is read does not depend on the pieces;
* `writeFull`: writing until everything is taken, `writeFull_isPrefix`, `writeFull_ok`.
-/

namespace RaftRx.Streams

variable {α : Type*}

/-- What a stream still holds: pieces none of which is empty. -/
structure Pieces (α : Type*) where
  parts : List (List α)
  nonempty : [] ∉ parts

namespace Pieces

/-- Everything that can still be read. -/
def content (s : Pieces α) : List α := s.parts.flatten

/-- One read with room for `k` items: the first piece, or as much of it as there is room for. -/
def read (k : ℕ) (s : Pieces α) : List α × Pieces α :=
  match h : s.parts with
  | [] => ([], s)
  | p :: ps =>
      if hk : k < p.length then
        (p.take k, ⟨p.drop k :: ps, by
          have hps : [] ∉ ps := fun hmem => s.nonempty (h ▸ List.mem_cons_of_mem p hmem)
          rw [List.mem_cons, not_or]
          refine ⟨fun hnil => ?_, hps⟩
          have := List.drop_eq_nil_iff.mp hnil.symm
          omega⟩)
      else (p, ⟨ps, fun hmem => s.nonempty (h ▸ List.mem_cons_of_mem p hmem)⟩)

/-- The loop over the reads, with the number of rounds as fuel. -/
def readLoop : ℕ → ℕ → Pieces α → Option (List α × Pieces α)
  | _, 0, s => some ([], s)
  | 0, _ + 1, _ => none
  | fuel + 1, k + 1, s =>
      let r := s.read (k + 1)
      if r.1.isEmpty then none
      else (readLoop fuel (k + 1 - r.1.length) r.2).map fun (xs, s) => (r.1 ++ xs, s)

/-- Reading exactly `k` items.  Every read returns something, so `k` rounds are enough. -/
def readFull (k : ℕ) (s : Pieces α) : Option (List α × Pieces α) := readLoop k k s

/-- **One read**: a beginning of the content that fits, and the rest. -/
lemma read_append (k : ℕ) (s : Pieces α) : (s.read k).1 ++ (s.read k).2.content = s.content := by
  rw [read]
  split
  · rfl
  · rename_i p ps h
    have hcontent : s.content = p ++ ps.flatten := by rw [content, h, List.flatten_cons]
    rw [hcontent]
    split
    · show p.take k ++ (p.drop k :: ps).flatten = p ++ ps.flatten
      rw [List.flatten_cons, ← List.append_assoc, List.take_append_drop]
    · rfl

lemma length_read_le (k : ℕ) (s : Pieces α) : (s.read k).1.length ≤ k := by
  rw [read]
  split
  · exact Nat.zero_le k
  · split
    · exact List.length_take_le k _
    · rename_i hk
      exact not_lt.mp hk

/-- Only the end of the stream gives nothing. -/
lemma read_eq_nil {k : ℕ} {s : Pieces α} (hk : 0 < k) (h : (s.read k).1 = []) :
    s.content = [] := by
  rw [read] at h
  split at h
  · rename_i hs
    rw [content, hs, List.flatten_nil]
  · rename_i p ps hs
    have hp : p ≠ [] := fun hnil => s.nonempty (hs ▸ hnil ▸ List.mem_cons_self)
    have hlen := List.length_pos_iff.mpr hp
    split at h
    · have hlen' := congrArg List.length h
      rw [List.length_take, List.length_nil] at hlen'
      omega
    · exact absurd h hp

/-- **The loop reads what is there**, in whatever pieces it comes. -/
lemma readLoop_eq {fuel k : ℕ} {s : Pieces α} (hfuel : k ≤ fuel) :
    (readLoop fuel k s).map (fun r => (r.1, r.2.content)) =
      if k ≤ s.content.length then some (s.content.take k, s.content.drop k) else none := by
  induction fuel generalizing k s with
  | zero =>
      obtain rfl : k = 0 := by omega
      rw [readLoop, if_pos (Nat.zero_le _)]
      rfl
  | succ fuel ih =>
      cases k with
      | zero =>
          rw [readLoop, if_pos (Nat.zero_le _)]
          rfl
      | succ k =>
          have happ := read_append (k + 1) s
          have hle := length_read_le (k + 1) s
          have hempty := read_eq_nil (s := s) (Nat.succ_pos k)
          rw [readLoop]
          dsimp only
          generalize s.read (k + 1) = r at happ hle hempty ⊢
          obtain ⟨xs, rest⟩ := r
          dsimp only at happ hle hempty ⊢
          split
          · rename_i hnil
            rw [hempty (List.isEmpty_iff.mp hnil), if_neg (by simp)]
            rfl
          · rename_i hne
            have hpos : 0 < xs.length := List.length_pos_iff.mpr fun h => hne (h ▸ rfl)
            have hloop := ih (s := rest) (show k + 1 - xs.length ≤ fuel by omega)
            calc ((readLoop fuel (k + 1 - xs.length) rest).map fun (ys, s) =>
                    (xs ++ ys, s)).map (fun r => (r.1, r.2.content))
                = ((readLoop fuel (k + 1 - xs.length) rest).map
                    fun r => (r.1, r.2.content)).map fun r => (xs ++ r.1, r.2) := by
                  rw [Option.map_map, Option.map_map]
                  rfl
              _ = if k + 1 ≤ s.content.length then
                    some (s.content.take (k + 1), s.content.drop (k + 1)) else none := by
                  rw [hloop, ← happ, List.length_append, List.take_append, List.drop_append,
                    List.take_of_length_le hle, List.drop_of_length_le hle, List.nil_append]
                  by_cases hk : k + 1 ≤ xs.length + rest.content.length
                  · rw [if_pos hk, if_pos (by omega)]
                    rfl
                  · rw [if_neg hk, if_neg (by omega)]
                    rfl

/-- **Reading a fixed count** does not depend on the pieces: it takes that much of the content, or
fails if there is less. -/
theorem readFull_eq (k : ℕ) (s : Pieces α) :
    (s.readFull k).map (fun r => (r.1, r.2.content)) =
      if k ≤ s.content.length then some (s.content.take k, s.content.drop k) else none :=
  readLoop_eq (le_refl k)

/-- A count is read, or there is less. -/
lemma readFull_cases (k : ℕ) (s : Pieces α) :
    (s.readFull k = none ∧ s.content.length < k) ∨
    ∃ s', s.readFull k = some (s.content.take k, s') ∧ s'.content = s.content.drop k ∧
      k ≤ s.content.length := by
  have h := readFull_eq k s
  split at h
  · rename_i hk
    obtain ⟨⟨xs, s'⟩, hr, heq⟩ := Option.map_eq_some_iff.mp h
    rw [Prod.mk.injEq] at heq
    exact Or.inr ⟨s', heq.1 ▸ hr, heq.2, hk⟩
  · rename_i hk
    exact Or.inl ⟨Option.map_eq_none_iff.mp h, not_le.mp hk⟩

end Pieces

/-! ### Writing -/

/-- The loop over the writes: what was taken until everything was, or until a write failed.  The
numbers are what the writes would take; one that takes nothing has failed. -/
def writeFull : List ℕ → List α → List α × Bool
  | _, [] => ([], true)
  | [], _ :: _ => ([], false)
  | 0 :: _, _ :: _ => ([], false)
  | (n + 1) :: ns, x :: xs =>
      let r := writeFull ns ((x :: xs).drop (n + 1))
      ((x :: xs).take (n + 1) ++ r.1, r.2)

/-- What was taken is a beginning. -/
lemma writeFull_isPrefix (ns : List ℕ) (xs : List α) : (writeFull ns xs).1 <+: xs := by
  induction ns generalizing xs with
  | nil =>
      cases xs with
      | nil => exact List.prefix_refl []
      | cons x xs => exact List.nil_prefix
  | cons n ns ih =>
      cases xs with
      | nil => exact List.prefix_refl []
      | cons x xs =>
          cases n with
          | zero => exact List.nil_prefix
          | succ n =>
              obtain ⟨rest, hrest⟩ := ih ((x :: xs).drop (n + 1))
              refine ⟨rest, ?_⟩
              rw [writeFull, List.append_assoc, hrest, List.take_append_drop]

/-- **Writing succeeds** if and only if everything was taken. -/
theorem writeFull_ok (ns : List ℕ) (xs : List α) :
    (writeFull ns xs).2 = true ↔ (writeFull ns xs).1 = xs := by
  induction ns generalizing xs with
  | nil =>
      cases xs with
      | nil => exact ⟨fun _ => rfl, fun _ => rfl⟩
      | cons x xs =>
          exact ⟨fun h => absurd h (by simp [writeFull]), fun h => by simp [writeFull] at h⟩
  | cons n ns ih =>
      cases xs with
      | nil => exact ⟨fun _ => rfl, fun _ => rfl⟩
      | cons x xs =>
          cases n with
          | zero =>
              exact ⟨fun h => absurd h (by simp [writeFull]), fun h => by simp [writeFull] at h⟩
          | succ n =>
              have hsplit := List.take_append_drop (n + 1) (x :: xs)
              rw [writeFull]
              constructor
              · intro h
                show (x :: xs).take (n + 1) ++ _ = x :: xs
                rw [(ih _).mp h, hsplit]
              · intro h
                refine (ih _).mpr ((List.append_right_inj ((x :: xs).take (n + 1))).mp ?_)
                rw [hsplit]
                exact h

end RaftRx.Streams
