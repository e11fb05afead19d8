import Mathlib.Data.List.Count
import Mathlib.Data.Set.Basic
import Mathlib.Tactic

/-!
Majorities of a finite list of voters.

A majority is counted by walking the list, the way an implementation counts votes; no
distinctness of the list is needed for two majorities to meet.

* `Majority l S`: more than half of the positions of `l` carry an element of `S`;
* `Majority.mono`: a larger set is a majority too;
* `Majority.inter`: two majorities of one list share an element of it;
* `JointMajority`: a majority of one list and of a second one, unless that is empty;
* `majority_of_countP`: the integer-division form `l.length / 2 + 1 ≤ count` of the test.
-/

namespace RaftRx

open Classical in
/-- More than half of the positions of `l` carry an element of `S`. -/
def Majority {α : Type*} (l : List α) (S : Set α) : Prop :=
  l.length < 2 * l.countP fun x => decide (x ∈ S)

namespace Majority

variable {α : Type*} {l : List α} {S S' : Set α}

/-- A set that contains a majority on the list is a majority. -/
lemma mono (h : Majority l S) (hS : ∀ x ∈ l, x ∈ S → x ∈ S') : Majority l S' := by
  classical
  refine lt_of_lt_of_le h (Nat.mul_le_mul_left 2 ?_)
  exact List.countP_mono_left fun x hx h => by simpa using hS x hx (by simpa using h)

/-- Counting argument: positions in `S` and positions in `S'` that together exceed the
length of the list overlap. -/
lemma exists_mem_of_countP (l : List α) (p q : α → Bool)
    (h : l.length < l.countP p + l.countP q) : ∃ x ∈ l, p x = true ∧ q x = true := by
  induction l with
  | nil => simp at h
  | cons a l ih =>
      by_cases hpq : p a = true ∧ q a = true
      · exact ⟨a, by simp, hpq⟩
      · have hl : l.length < l.countP p + l.countP q := by
          rw [List.countP_cons, List.countP_cons, List.length_cons] at h
          by_cases hp : p a = true
          · have hq : q a ≠ true := fun hq => hpq ⟨hp, hq⟩
            simp only [hp, if_true, if_neg hq] at h
            omega
          · simp only [if_neg hp] at h
            split at h <;> omega
        obtain ⟨x, hx, h'⟩ := ih hl
        exact ⟨x, List.mem_cons_of_mem _ hx, h'⟩

/-- **Two majorities of one list meet.** -/
theorem inter (h : Majority l S) (h' : Majority l S') : ∃ x ∈ l, x ∈ S ∧ x ∈ S' := by
  classical
  have hlt : l.length
      < l.countP (fun x => decide (x ∈ S)) + l.countP (fun x => decide (x ∈ S')) := by
    unfold Majority at h h'
    convert (show l.length < _ from ?_) using 2
    omega
  obtain ⟨x, hx, h1, h2⟩ := exists_mem_of_countP l _ _ hlt
  exact ⟨x, hx, by simpa using h1, by simpa using h2⟩

/-- A majority of a list has an element, so the list has one. -/
lemma ne_nil (h : Majority l S) : l ≠ [] := by
  rintro rfl
  simp [Majority] at h

end Majority

/-- A majority of the first list, and of the second one unless it is empty. -/
def JointMajority {α : Type*} (l m : List α) (S : Set α) : Prop :=
  Majority l S ∧ (m ≠ [] → Majority m S)

namespace JointMajority

variable {α : Type*} {l m m' : List α} {S S' : Set α}

/-- **Quorums with the same first list meet in it**, whatever the second lists are. -/
theorem inter_left (h : JointMajority l m S) (h' : JointMajority l m' S') :
    ∃ x ∈ l, x ∈ S ∧ x ∈ S' :=
  h.1.inter h'.1

/-- **A quorum meets the majorities of its second list**, which is not empty where there are
any. -/
theorem inter_right (h : JointMajority l m S) (h' : JointMajority m m' S') :
    ∃ x ∈ m, x ∈ S ∧ x ∈ S' :=
  (h.2 h'.1.ne_nil).inter h'.1

end JointMajority

/-- The test of an implementation, `length / 2 + 1 ≤ count`, is the majority test. -/
lemma majority_of_countP {α : Type*} {l : List α} {S : Set α} {p : α → Bool}
    (h : l.length / 2 + 1 ≤ l.countP p) (hp : ∀ x ∈ l, p x = true → x ∈ S) : Majority l S := by
  classical
  have hle : l.countP p ≤ l.countP fun x => decide (x ∈ S) :=
    List.countP_mono_left fun x hx h => by simpa using hp x hx h
  unfold Majority
  omega

end RaftRx
