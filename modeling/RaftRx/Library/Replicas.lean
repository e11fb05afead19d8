import Mathlib.Data.List.Basic
import Mathlib.Tactic

/-!
Replicas that execute one log.

A replica knows a log and has executed a beginning of it.  If of the logs of two replicas one
continues the other, their states lie on one line: the one that executed more is where the other
gets by the entries in between.

* `Replica`, `Replica.Faithful`: the state is what the executed entries make of the first state;
* `Replica.Comparable`: one of two logs continues the other;
* `Faithful.init`, `Faithful.execute`, `Faithful.relog`: what a replica may do;
* `Faithful.executed_prefix`, `Faithful.follows`: two replicas.
-/

namespace RaftRx

variable {S C : Type*}

/-- A log, how much of it was executed, and the state. -/
structure Replica (S C : Type*) where
  log : List C
  count : ℕ
  state : S

namespace Replica

variable {step : S → C → S} {s₀ : S} {r r' : Replica S C}

/-- The entries that were executed. -/
def executed (r : Replica S C) : List C := r.log.take r.count

/-- **The state is that of the executed entries.** -/
structure Faithful (step : S → C → S) (s₀ : S) (r : Replica S C) : Prop where
  inside : r.count ≤ r.log.length
  state : r.state = r.executed.foldl step s₀

/-- One of the two logs continues the other. -/
def Comparable (r r' : Replica S C) : Prop := r.log <+: r'.log ∨ r'.log <+: r.log

lemma Comparable.symm (h : Comparable r r') : Comparable r' r := Or.symm h

namespace Faithful

lemma length_executed (h : r.Faithful step s₀) : r.executed.length = r.count := by
  rw [executed, List.length_take]
  exact min_eq_left h.inside

/-- A replica that has executed nothing. -/
lemma init (log : List C) : Faithful step s₀ { log := log, count := 0, state := s₀ } :=
  ⟨Nat.zero_le _, rfl⟩

/-- The next entry is executed. -/
lemma execute (h : r.Faithful step s₀) (hlt : r.count < r.log.length) :
    Faithful step s₀ { r with count := r.count + 1, state := step r.state r.log[r.count] } := by
  refine ⟨hlt, ?_⟩
  have htake : r.log.take (r.count + 1) = r.executed ++ [r.log[r.count]] :=
    List.take_succ_eq_append_getElem hlt
  rw [executed, htake, List.foldl_append, ← h.state]
  rfl

/-- The log changes, but not the executed entries. -/
lemma relog (h : r.Faithful step s₀) {log : List C} (hlen : r.count ≤ log.length)
    (htake : log.take r.count = r.executed) : Faithful step s₀ { r with log := log } :=
  ⟨hlen, h.state.trans (congrArg (List.foldl step s₀) htake.symm)⟩

/-- **Two replicas executed the same entries**, as far as both got. -/
lemma executed_prefix (h : r.Faithful step s₀) (h' : r'.Faithful step s₀)
    (hlog : Comparable r r') (hle : r.count ≤ r'.count) : r.executed <+: r'.executed := by
  rw [executed, executed]
  have hlen := h.inside
  have hlen' := h'.inside
  rcases hlog with ⟨t, ht⟩ | ⟨t, ht⟩
  · rw [← ht, List.prefix_take_iff, List.length_take]
    exact ⟨(List.take_prefix _ _).trans (List.prefix_append _ _), (min_le_left _ _).trans hle⟩
  · rw [← ht, List.take_append_of_le_length (hle.trans hlen'), List.prefix_take_iff,
      List.length_take]
    exact ⟨List.take_prefix _ _, (min_le_left _ _).trans hle⟩

/-- **Two states lie on one line**: the entries in between lead from one to the other. -/
theorem follows (h : r.Faithful step s₀) (h' : r'.Faithful step s₀) (hlog : Comparable r r')
    (hle : r.count ≤ r'.count) : r'.state = (r'.executed.drop r.count).foldl step r.state := by
  obtain ⟨t, ht⟩ := h.executed_prefix h' hlog hle
  have hdrop : r'.executed.drop r.count = t := by
    rw [← ht, List.drop_left' h.length_executed]
  calc r'.state = (r.executed ++ t).foldl step s₀ := by rw [h'.state, ht]
    _ = t.foldl step r.state := by rw [List.foldl_append, ← h.state]
    _ = (r'.executed.drop r.count).foldl step r.state := by rw [hdrop]

end Faithful

end Replica

end RaftRx
