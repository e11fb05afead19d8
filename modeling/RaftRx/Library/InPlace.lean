import Mathlib.Data.List.Basic
import Mathlib.Tactic

/-!
Files that are rewritten in place.

Opening a file for writing truncates it, and its new text then reaches it from the front.  A call
that writes files is the list of the texts the file goes through; a crash stops at one of them.

* `writes`: the texts a file goes through while one text is written;
* `fileAfter`: the file after a call, `fileAt`: the file when a crash stops the call;
* `fileAt_cases`: a crash at an end of the call leaves the file before or the file after it.
-/

namespace RaftRx.InPlace

variable {α : Type*}

/-- The file is truncated and the text is written from the front. -/
def writes (text : List α) : List (List α) :=
  (List.range (text.length + 1)).map text.take

/-- The file after a call that went through some texts; there may have been no file before. -/
def fileAfter (file : Option (List α)) (texts : List (List α)) : Option (List α) :=
  texts.getLast?.or file

/-- The file when the call is stopped at its `k`-th text, `0` standing for the file before it. -/
def fileAt (file : Option (List α)) (texts : List (List α)) (k : ℕ) : Option (Option (List α)) :=
  (file :: texts.map some)[k]?

/-- The crash is not between the first truncation of the call and the end of its last write. -/
def AtAnEnd (texts : List (List α)) (k : ℕ) : Prop := k = 0 ∨ k = texts.length

instance (texts : List (List α)) (k : ℕ) : Decidable (AtAnEnd texts k) :=
  inferInstanceAs (Decidable (k = 0 ∨ k = texts.length))

@[simp] lemma fileAfter_nil (file : Option (List α)) : fileAfter file [] = file := rfl

/-- A call that goes on writes over what it wrote before. -/
lemma fileAfter_append (file : Option (List α)) (texts more : List (List α)) :
    fileAfter file (texts ++ more) = fileAfter (fileAfter file texts) more := by
  rw [fileAfter, fileAfter, fileAfter, List.getLast?_append, Option.or_assoc]

/-- **A completed write leaves its text.** -/
lemma fileAfter_writes (file : Option (List α)) (text : List α) :
    fileAfter file (writes text) = some text := by
  rw [fileAfter, writes, List.range_succ, List.map_append, List.getLast?_append,
    List.map_singleton, List.take_length]
  rfl

/-- The first thing a write does is to empty the file. -/
lemma fileAt_writes_one (file : Option (List α)) (text : List α) :
    fileAt file (writes text) 1 = some (some []) := by
  rw [fileAt, writes, List.range_succ_eq_map]
  rfl

lemma fileAt_length (file : Option (List α)) (texts : List (List α)) :
    fileAt file texts texts.length = some (fileAfter file texts) := by
  rw [fileAt, fileAfter]
  cases texts with
  | nil => rfl
  | cons text texts =>
      rw [List.length_cons, List.getElem?_cons_succ, List.getElem?_map, List.getLast?_cons,
        Option.some_or, Option.map_eq_some_iff]
      refine ⟨texts.getLast?.getD text, ?_, rfl⟩
      calc (text :: texts)[texts.length]?
          = (text :: texts).getLast? := by
            rw [List.getLast?_eq_getElem?, List.length_cons, Nat.add_sub_cancel]
        _ = some (texts.getLast?.getD text) := List.getLast?_cons

/-- **A crash at an end of a call** leaves the file before it or the file after it. -/
theorem fileAt_cases {file file' : Option (List α)} {texts : List (List α)} {k : ℕ}
    (hk : AtAnEnd texts k) (h : fileAt file texts k = some file') :
    file' = file ∨ file' = fileAfter file texts := by
  cases hk with
  | inl hk =>
      rw [hk] at h
      exact Or.inl (Option.some.inj h).symm
  | inr hk =>
      rw [hk, fileAt_length] at h
      exact Or.inr (Option.some.inj h).symm

end RaftRx.InPlace
