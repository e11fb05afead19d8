import Mathlib.Data.List.Basic
import Mathlib.Tactic

/-!
The account of a mailbox: what it has accepted, what it has handed out and what it still holds.

* `Mailbox.Balanced`: what was handed out, followed by what is held, is what was accepted;
* `Mailbox.Short`: something is missing, and stays missing whatever is done;
* `Mailbox.Faithful`: nothing is invented, duplicated or reordered, though items may be missing;
* `Balanced.empty`, `Balanced.short_empty`: emptying a mailbox into a buffer keeps the balance when
  the buffer has room for everything in it, and only then;
* `Outcome`: a step that loses nothing, or one that loses something;
* `faithful_run`, `balanced_run_iff`: whole runs of such steps.
-/

namespace RaftRx

/-- What has gone into a mailbox, what has come out and what is inside. -/
structure Mailbox (α : Type*) where
  accepted : List α
  handed : List α
  held : List α

namespace Mailbox

variable {α : Type*} {m : Mailbox α}

/-- One more item is accepted. -/
def post (m : Mailbox α) (x : α) : Mailbox α :=
  { m with accepted := m.accepted ++ [x], held := m.held ++ [x] }

/-- One more item arrives and is turned away. -/
def turnAway (m : Mailbox α) (x : α) : Mailbox α := { m with accepted := m.accepted ++ [x] }

/-- The mailbox is emptied into a buffer: what does not fit is gone. -/
def empty (m : Mailbox α) (capacity : ℕ) : Mailbox α :=
  { m with handed := m.handed ++ m.held.take capacity, held := [] }

/-- The oldest items are handed out; the others stay. -/
def handOver (m : Mailbox α) (k : ℕ) : Mailbox α :=
  { m with handed := m.handed ++ m.held.take k, held := m.held.drop k }

/-- The oldest items are thrown away. -/
def lose (m : Mailbox α) (k : ℕ) : Mailbox α := { m with held := m.held.drop k }

/-- Nothing is lost, duplicated or reordered. -/
def Balanced (m : Mailbox α) : Prop := m.handed ++ m.held = m.accepted

/-- Something that was accepted has neither been handed out nor is it held. -/
def Short (m : Mailbox α) : Prop := m.handed.length + m.held.length < m.accepted.length

/-- What was handed out, followed by what is held, is part of what was accepted, in its order. -/
def Faithful (m : Mailbox α) : Prop := (m.handed ++ m.held).Sublist m.accepted

lemma Short.not_balanced (h : m.Short) : ¬m.Balanced := by
  intro hb
  have hlen := congrArg List.length hb
  rw [List.length_append] at hlen
  rw [Short] at h
  omega

lemma Balanced.post (h : m.Balanced) (x : α) : (m.post x).Balanced := by
  rw [Balanced] at h
  rw [Mailbox.post, Balanced, ← List.append_assoc, h]

lemma Short.post (h : m.Short) (x : α) : (m.post x).Short := by
  simp only [Short, Mailbox.post, List.length_append, List.length_singleton] at h ⊢
  omega

lemma Balanced.empty (h : m.Balanced) {capacity : ℕ} (hroom : m.held.length ≤ capacity) :
    (m.empty capacity).Balanced := by
  rw [Balanced] at h
  rw [Mailbox.empty, Balanced, List.take_of_length_le hroom, List.append_nil, h]

/-- **A buffer that is too small leaves the mailbox short.** -/
lemma Balanced.short_empty (h : m.Balanced) {capacity : ℕ} (hroom : capacity < m.held.length) :
    (m.empty capacity).Short := by
  have hlen := congrArg List.length h
  simp only [List.length_append] at hlen
  simp only [Short, Mailbox.empty, List.length_append, List.length_take, List.length_nil]
  omega

lemma Short.empty (h : m.Short) (capacity : ℕ) : (m.empty capacity).Short := by
  simp only [Short, Mailbox.empty, List.length_append, List.length_take, List.length_nil] at h ⊢
  omega

/-- **An item that is turned away leaves the mailbox short.** -/
lemma Balanced.short_turnAway (h : m.Balanced) (x : α) : (m.turnAway x).Short := by
  have hlen := congrArg List.length h
  simp only [List.length_append] at hlen
  simp only [Short, Mailbox.turnAway, List.length_append, List.length_singleton]
  omega

lemma Short.turnAway (h : m.Short) (x : α) : (m.turnAway x).Short := by
  simp only [Short, Mailbox.turnAway, List.length_append, List.length_singleton] at h ⊢
  omega

lemma Faithful.post (h : m.Faithful) (x : α) : (m.post x).Faithful := by
  rw [Faithful, Mailbox.post, ← List.append_assoc]
  exact List.Sublist.append h (List.Sublist.refl [x])

lemma Faithful.turnAway (h : m.Faithful) (x : α) : (m.turnAway x).Faithful :=
  h.trans (List.sublist_append_left m.accepted [x])

lemma Faithful.empty (h : m.Faithful) (capacity : ℕ) : (m.empty capacity).Faithful := by
  refine List.Sublist.trans ?_ h
  rw [Mailbox.empty, List.append_nil]
  exact List.Sublist.append_left (List.take_sublist capacity m.held) m.handed

lemma Balanced.handOver (h : m.Balanced) (k : ℕ) : (m.handOver k).Balanced := by
  rw [Balanced] at h
  rw [Mailbox.handOver, Balanced, List.append_assoc, List.take_append_drop, h]

lemma Short.handOver (h : m.Short) (k : ℕ) : (m.handOver k).Short := by
  simp only [Short, Mailbox.handOver, List.length_append, List.length_take, List.length_drop] at h ⊢
  omega

lemma Faithful.handOver (h : m.Faithful) (k : ℕ) : (m.handOver k).Faithful := by
  rw [Faithful, Mailbox.handOver, List.append_assoc, List.take_append_drop]
  exact h

/-- **Items that are thrown away leave the mailbox short.** -/
lemma Balanced.short_lose (h : m.Balanced) {k : ℕ} (hk : 0 < k) (hheld : m.held ≠ []) :
    (m.lose k).Short := by
  have hlen := congrArg List.length h
  have hpos := List.length_pos_iff.mpr hheld
  simp only [List.length_append] at hlen
  simp only [Short, Mailbox.lose, List.length_drop]
  omega

lemma Short.lose (h : m.Short) (k : ℕ) : (m.lose k).Short := by
  simp only [Short, Mailbox.lose, List.length_drop] at h ⊢
  omega

lemma Faithful.lose (h : m.Faithful) (k : ℕ) : (m.lose k).Faithful := by
  refine List.Sublist.trans ?_ h
  exact List.Sublist.append_left (List.drop_sublist k m.held) m.handed

/-! ### Steps and runs -/

/-- What a step can do without losing anything. -/
inductive Passes (m : Mailbox α) : Mailbox α → Prop where
  | same : Passes m m
  | post (x : α) : Passes m (m.post x)
  | handOver (k : ℕ) : Passes m (m.handOver k)
  | empty (capacity : ℕ) : m.held.length ≤ capacity → Passes m (m.empty capacity)

/-- What a step can do when something is lost. -/
inductive Drops (m : Mailbox α) : Mailbox α → Prop where
  | turnAway (x : α) : Drops m (m.turnAway x)
  | empty (capacity : ℕ) : capacity < m.held.length → Drops m (m.empty capacity)
  | lose (k : ℕ) : 0 < k → m.held ≠ [] → Drops m (m.lose k)

variable {m' : Mailbox α}

lemma Passes.balanced (h : Passes m m') (hm : m.Balanced) : m'.Balanced := by
  cases h with
  | same => exact hm
  | post x => exact hm.post x
  | handOver k => exact hm.handOver k
  | empty capacity hroom => exact hm.empty hroom

lemma Passes.short (h : Passes m m') (hm : m.Short) : m'.Short := by
  cases h with
  | same => exact hm
  | post x => exact hm.post x
  | handOver k => exact hm.handOver k
  | empty capacity => exact hm.empty capacity

lemma Passes.faithful (h : Passes m m') (hm : m.Faithful) : m'.Faithful := by
  cases h with
  | same => exact hm
  | post x => exact hm.post x
  | handOver k => exact hm.handOver k
  | empty capacity => exact hm.empty capacity

lemma Drops.short (h : Drops m m') (hm : m.Balanced ∨ m.Short) : m'.Short := by
  cases h with
  | turnAway x => exact hm.elim (fun hb => hb.short_turnAway x) (fun hs => hs.turnAway x)
  | empty capacity hroom =>
      exact hm.elim (fun hb => hb.short_empty hroom) (fun hs => hs.empty capacity)
  | lose k hk hheld => exact hm.elim (fun hb => hb.short_lose hk hheld) (fun hs => hs.lose k)

lemma Drops.faithful (h : Drops m m') (hm : m.Faithful) : m'.Faithful := by
  cases h with
  | turnAway x => exact hm.turnAway x
  | empty capacity => exact hm.empty capacity
  | lose k => exact hm.lose k

/-- A step that keeps everything passes, and one that does not drops something. -/
def Outcome (keeps : Prop) (m m' : Mailbox α) : Prop :=
  (keeps ∧ Passes m m') ∨ (¬keeps ∧ Drops m m')

lemma outcome_of_eq {keeps : Prop} (hkeeps : keeps) (h : m' = m) : Outcome keeps m m' :=
  Or.inl ⟨hkeeps, h ▸ Passes.same⟩

/-- Emptying a mailbox into a buffer. -/
lemma outcome_empty {keeps : Prop} (capacity : ℕ) (hkeeps : keeps ↔ m.held.length ≤ capacity)
    (h : m' = m.empty capacity) : Outcome keeps m m' := by
  rw [h]
  by_cases hroom : m.held.length ≤ capacity
  · exact Or.inl ⟨hkeeps.mpr hroom, Passes.empty capacity hroom⟩
  · exact Or.inr ⟨fun hk => hroom (hkeeps.mp hk), Drops.empty capacity (not_le.mp hroom)⟩

section Runs

variable {S A : Type*} (step : S → A → S) (account : S → Mailbox α) (keeps : S → A → Prop)

/-- Every step of a run keeps everything. -/
def AllKeep : S → List A → Prop
  | _, [] => True
  | s, a :: as => keeps s a ∧ AllKeep (step s a) as

variable {step account keeps}

/-- **A run invents nothing**, duplicates nothing and keeps the order. -/
theorem faithful_run (h : ∀ s a, Outcome (keeps s a) (account s) (account (step s a)))
    (as : List A) : ∀ {s : S}, (account s).Faithful → (account (as.foldl step s)).Faithful := by
  induction as with
  | nil => exact fun hs => hs
  | cons a as ih =>
      intro s hs
      refine ih (s := step s a) ?_
      rcases h s a with ⟨-, hpass⟩ | ⟨-, hdrop⟩
      · exact hpass.faithful hs
      · exact hdrop.faithful hs

lemma short_run (h : ∀ s a, Outcome (keeps s a) (account s) (account (step s a))) (as : List A) :
    ∀ {s : S}, (account s).Short → (account (as.foldl step s)).Short := by
  induction as with
  | nil => exact fun hs => hs
  | cons a as ih =>
      intro s hs
      refine ih (s := step s a) ?_
      rcases h s a with ⟨-, hpass⟩ | ⟨-, hdrop⟩
      · exact hpass.short hs
      · exact hdrop.short (Or.inr hs)

/-- **A run loses nothing** exactly if every step keeps everything. -/
theorem balanced_run_iff (h : ∀ s a, Outcome (keeps s a) (account s) (account (step s a)))
    (as : List A) : ∀ {s : S}, (account s).Balanced →
      ((account (as.foldl step s)).Balanced ↔ AllKeep step keeps s as) := by
  induction as with
  | nil => exact fun hs => iff_of_true hs trivial
  | cons a as ih =>
      intro s hs
      rw [AllKeep, List.foldl_cons]
      rcases h s a with ⟨hkeeps, hpass⟩ | ⟨hkeeps, hdrop⟩
      · exact (ih (hpass.balanced hs)).trans (and_iff_right hkeeps).symm
      · have hshort := short_run h as (hdrop.short (Or.inl hs))
        exact iff_of_false hshort.not_balanced fun hall => hkeeps hall.1

end Runs

end Mailbox

end RaftRx
