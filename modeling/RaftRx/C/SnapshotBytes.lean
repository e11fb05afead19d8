import RaftRx.C.System
import RaftRx.Library.Words

/-!
The bytes of `snapshot.bin` (`raft_storage.c`).

The file is a header of three `int32_t`, index, term and size, and then the state of the
application.  Nothing in it tells a complete file from one that was cut off.

* `writeSnapshot`, `readSnapshot`: the functions of the program;
* `parseSnapshot`: the record some bytes stand for, `readSnapshot_eq`: reading is parsing and then
  comparing with `meta.txt`;
* `snapshot_prefix_read`: what is read from any beginning of a file.
-/

namespace RaftRx.C

open Words (encodeInt decodeInt)

/-- `write_snapshot` -/
def writeSnapshot (file : SnapshotFile) : List UInt8 :=
  encodeInt 4 file.index ++ (encodeInt 4 file.term ++
    (encodeInt 4 file.data.length ++ file.data))

/-- The size of the header. -/
def snapshotHeaderSize : ℕ := 12

/-- `fread` of one `int32_t`, with the bytes behind it. -/
def freadInt32 (bytes : List UInt8) : Option (ℤ × List UInt8) :=
  if 4 ≤ bytes.length then some (decodeInt (bytes.take 4), bytes.drop 4) else none

/-- The state behind a header that announces a size. -/
def freadState (size : ℤ) (bytes : List UInt8) : List UInt8 :=
  if 0 < size ∧ size ≤ maxSnapshotSize then bytes.take size.toNat else []

/-- The part of `raft_storage_node_load` that reads `snapshot.bin`: the state that is restored, if
the file belongs to `meta.txt`. -/
def readSnapshot (m : MetaFile) (bytes : List UInt8) : Option (List UInt8) := do
  let (snapIndex, bytes) ← freadInt32 bytes
  let (snapTerm, bytes) ← freadInt32 bytes
  let (snapSize, bytes) ← freadInt32 bytes
  if snapIndex = m.snapshotLastIncludedIndex ∧ snapTerm = m.snapshotLastIncludedTerm then
    some (freadState snapSize bytes)
  else none

/-- The record some bytes stand for. -/
def parseSnapshot (bytes : List UInt8) : Option SnapshotFile := do
  let (index, bytes) ← freadInt32 bytes
  let (term, bytes) ← freadInt32 bytes
  let (size, bytes) ← freadInt32 bytes
  some { index := index, term := term, data := freadState size bytes }

/-! ### Reading -/

lemma length_freadState_le (size : ℤ) (bytes : List UInt8) :
    (freadState size bytes).length ≤ maxSnapshotSize := by
  rw [freadState]
  split
  · rename_i hsize
    refine (List.length_take_le _ _).trans ?_
    omega
  · exact Nat.zero_le _

/-- **Reading the file** is reading the record and comparing it with `meta.txt`. -/
theorem readSnapshot_eq (m : MetaFile) (bytes : List UInt8) :
    readSnapshot m bytes = matchingSnapshot m (parseSnapshot bytes) := by
  rw [readSnapshot, parseSnapshot]
  cases h₁ : freadInt32 bytes with
  | none => rfl
  | some r₁ =>
      obtain ⟨index, bytes₁⟩ := r₁
      cases h₂ : freadInt32 bytes₁ with
      | none =>
          simp only [Option.bind_eq_bind, Option.bind_some, h₂, Option.bind_none, matchingSnapshot]
      | some r₂ =>
          obtain ⟨term, bytes₂⟩ := r₂
          cases h₃ : freadInt32 bytes₂ with
          | none =>
              simp only [Option.bind_eq_bind, Option.bind_some, h₂, h₃, Option.bind_none,
                matchingSnapshot]
          | some r₃ =>
              obtain ⟨size, bytes₃⟩ := r₃
              simp only [Option.bind_eq_bind, Option.bind_some, h₂, h₃, matchingSnapshot,
                if_pos (length_freadState_le size bytes₃)]

/-- A number in front of other bytes, of which the first `n` are there. -/
lemma freadInt32_take {z : ℤ} (hz : FitsInt z) (bytes : List UInt8) (n : ℕ) :
    freadInt32 ((encodeInt 4 z ++ bytes).take n) =
      if 4 ≤ n then some (z, bytes.take (n - 4)) else none := by
  have hlen : (encodeInt 4 z).length = 4 := Words.length_encodeInt 4 z
  obtain ⟨hlow, hhigh⟩ := hz
  have hback : decodeInt (encodeInt 4 z) = z :=
    Words.decodeInt_encodeInt 4 z (by norm_num; omega) (by norm_num; omega)
  split_ifs with hn
  · have htake : (encodeInt 4 z ++ bytes).take n = encodeInt 4 z ++ bytes.take (n - 4) := by
      rw [List.take_append, hlen, List.take_of_length_le (by omega)]
    rw [htake, freadInt32, if_pos (by rw [List.length_append, hlen]; omega), List.take_left' hlen,
      List.drop_left' hlen, hback]
  · rw [freadInt32, if_neg]
    rw [List.length_take]
    omega

/-- A state that fits, of which the first `n` bytes are there. -/
lemma freadState_take {data : List UInt8} (hsize : data.length ≤ maxSnapshotSize) (n : ℕ) :
    freadState data.length (data.take n) = data.take n := by
  rw [freadState]
  split_ifs with hpos
  · rw [Int.toNat_natCast, List.take_of_length_le (List.length_take_le' n data)]
  · have hnil : data = [] := List.length_eq_zero_iff.mp (by omega)
    rw [hnil, List.take_nil]

/-- **The record of the first `n` bytes** of a file. -/
lemma parseSnapshot_take {file : SnapshotFile} (hi : FitsInt file.index) (ht : FitsInt file.term)
    (hsize : file.data.length ≤ maxSnapshotSize) (n : ℕ) :
    parseSnapshot ((writeSnapshot file).take n) =
      if snapshotHeaderSize ≤ n then
        some { file with data := file.data.take (n - snapshotHeaderSize) }
      else none := by
  have hs : FitsInt file.data.length := by
    rw [maxSnapshotSize] at hsize
    exact ⟨by omega, by omega⟩
  rw [parseSnapshot, writeSnapshot, freadInt32_take hi]
  by_cases h4 : 4 ≤ n
  · rw [if_pos h4]
    simp only [Option.bind_eq_bind, Option.bind_some]
    rw [freadInt32_take ht]
    by_cases h8 : 4 ≤ n - 4
    · rw [if_pos h8]
      simp only [Option.bind_some]
      rw [freadInt32_take hs]
      by_cases h12 : 4 ≤ n - 4 - 4
      · have hn : n - 4 - 4 - 4 = n - snapshotHeaderSize := by
          rw [snapshotHeaderSize]
          omega
        rw [if_pos h12, if_pos (by rw [snapshotHeaderSize]; omega)]
        simp only [Option.bind_some]
        rw [freadState_take hsize, hn]
      · rw [if_neg h12, if_neg (by rw [snapshotHeaderSize]; omega), Option.bind_none]
    · rw [if_neg h8, if_neg (by rw [snapshotHeaderSize]; omega), Option.bind_none]
  · rw [if_neg h4, if_neg (by rw [snapshotHeaderSize]; omega)]
    rfl

lemma length_writeSnapshot (file : SnapshotFile) :
    (writeSnapshot file).length = snapshotHeaderSize + file.data.length := by
  simp only [writeSnapshot, List.length_append, Words.length_encodeInt, snapshotHeaderSize]
  omega

/-- **What is read from any beginning of a snapshot file**: nothing without a complete header; a
file of another index or term is passed over; otherwise the bytes of the state that are there are
restored, all of them exactly if nothing was cut off. -/
theorem snapshot_prefix_read (m : MetaFile) (file : SnapshotFile) (hi : FitsInt file.index)
    (ht : FitsInt file.term) (hsize : file.data.length ≤ maxSnapshotSize) (n : ℕ) :
    readSnapshot m ((writeSnapshot file).take n) =
        (if snapshotHeaderSize ≤ n then
          matchingSnapshot m (some { file with data := file.data.take (n - snapshotHeaderSize) })
        else none) ∧
      (readSnapshot m ((writeSnapshot file).take n) = some file.data ↔
        snapshotHeaderSize + file.data.length ≤ n ∧ file.index = m.snapshotLastIncludedIndex ∧
          file.term = m.snapshotLastIncludedTerm) := by
  have hread : readSnapshot m ((writeSnapshot file).take n) =
      if snapshotHeaderSize ≤ n then
        matchingSnapshot m (some { file with data := file.data.take (n - snapshotHeaderSize) })
      else none := by
    rw [readSnapshot_eq, parseSnapshot_take hi ht hsize]
    split_ifs
    · rfl
    · rfl
  refine ⟨hread, ?_⟩
  rw [hread]
  split_ifs with hn
  · rw [matchingSnapshot]
    dsimp only
    split_ifs with hmatch hle
    · rw [Option.some.injEq, List.take_eq_self_iff, and_iff_left hmatch]
      omega
    · exact absurd ((List.length_take_le' _ _).trans hsize) hle
    · exact iff_of_false (by simp) fun h => hmatch h.2
  · exact iff_of_false (by simp) fun h => hn (by omega)

/-- A snapshot of three bytes. -/
def threeBytes : SnapshotFile := { index := 7, term := 2, data := [1, 2, 3] }

/-- The whole file is restored; without its last byte so is the state without its last byte. -/
theorem snapshot_prefix_read_cut :
    readSnapshot { snapshotLastIncludedIndex := 7, snapshotLastIncludedTerm := 2 }
        (writeSnapshot threeBytes) = some [1, 2, 3] ∧
      readSnapshot { snapshotLastIncludedIndex := 7, snapshotLastIncludedTerm := 2 }
        ((writeSnapshot threeBytes).take 14) = some [1, 2] := by
  have h := snapshot_prefix_read
    { snapshotLastIncludedIndex := 7, snapshotLastIncludedTerm := 2 } threeBytes (by decide)
    (by decide) (by decide)
  have hlen : (writeSnapshot threeBytes).length ≤ 15 := (length_writeSnapshot threeBytes).le
  have hall := (h 15).2.mpr ⟨le_refl 15, rfl, rfl⟩
  rw [List.take_of_length_le hlen] at hall
  exact ⟨hall, (h 14).1⟩

end RaftRx.C
