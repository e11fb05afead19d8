import RaftRx.Library.Overlay
import Mathlib.Logic.Function.Iterate
import Mathlib.Tactic

/-!
Bringing a copy of a list up to date by probing back and filling.

The sender offers a batch of its list `L` that begins behind a cursor.  The receiver takes it if its
own list has no clash right before the cursor, writes it over what it has there and reports the
length of the outcome, which is the next cursor; otherwise the cursor moves back by one.

* `accepts`, `Probe.step`: one round;
* `Matches`: where the two lists do not clash they are equal up to there;
* `Within`: how far a state is from the end, `within_step`: a round gets one step closer;
* `prefix_of_rounds`: after `L.length + k` rounds, `k` batches covering `L`, the receiver has `L`,
  and keeps it from then on.
-/

namespace RaftRx.Backoff

variable {E : Type*}

/-- The cursor, counted in entries of the sender's list, and the receiver's list. -/
structure Probe (E : Type*) where
  next : ℕ
  log : List E

variable (clash : E → E → Bool) (L : List E) (beyond : ℕ → E) (batch : ℕ)

/-- The receiver compares the entry before the cursor with the sender's; `beyond` is what the sender
shows behind the end of its list. -/
def accepts (F : List E) : ℕ → Bool
  | 0 => true
  | p + 1 => (F[p]?).any fun e => !clash e ((L[p]?).getD (beyond p))

/-- The batch written over the receiver's list. -/
def taken (s : Probe E) : List E :=
  s.log.take s.next ++ overlay clash (s.log.drop s.next) ((L.drop s.next).take batch)

/-- One round. -/
def Probe.step (s : Probe E) : Probe E :=
  if accepts clash L beyond s.log s.next then
    { next := (taken clash L batch s).length, log := taken clash L batch s }
  else { s with next := s.next - 1 }

/-- Two lists with entries that do not clash at a position are equal up to it. -/
def Matches (F : List E) : Prop :=
  ∀ (k : ℕ) e' e, F[k]? = some e' → L[k]? = some e → clash e' e = false →
    F.take (k + 1) = L.take (k + 1)

/-- At most `n` rounds are left: the receiver has the list, or it has the part before the cursor and
nothing else and `n` batches are missing, or the cursor has only met clashes so far. -/
def Within (n : ℕ) (s : Probe E) : Prop :=
  L <+: s.log ∨
  (s.next ≤ L.length ∧ s.log = L.take s.next ∧ L.length ≤ s.next + n * batch) ∨
  (s.next ≤ L.length ∧ Matches clash L s.log ∧
    (∀ q, s.next < q → q ≤ L.length → accepts clash L beyond s.log q = false) ∧
    ∃ k, L.length ≤ k * batch ∧ s.next + k ≤ n)

variable {clash L beyond batch}

/-! ### One round -/

/-- Writing what is there changes nothing. -/
lemma overlay_of_isPrefix (hrefl : ∀ e, clash e e = false) :
    ∀ {old new : List E}, new <+: old → overlay clash old new = old := by
  intro old new
  induction new generalizing old with
  | nil => exact fun _ => overlay_nil_right clash old
  | cons e new ih =>
      intro h
      cases old with
      | nil => exact absurd h (by simp)
      | cons e' old =>
          obtain ⟨rfl, htail⟩ := List.cons_prefix_cons.mp h
          rw [overlay, hrefl, if_neg (by simp), ih htail]

/-- An accepted cursor inside the list: both lists are equal before it. -/
lemma take_of_accepts {F : List E} {p : ℕ} (hm : Matches clash L F) (hp : p ≤ L.length)
    (h : accepts clash L beyond F p = true) : F.take p = L.take p := by
  cases p with
  | zero => rw [List.take_zero, List.take_zero]
  | succ q =>
      rw [accepts, Option.any_eq_true] at h
      obtain ⟨e', he', hclash⟩ := h
      have hq : L[q]? = some L[q] := List.getElem?_eq_getElem hp
      rw [hq, Option.getD_some] at hclash
      exact hm q e' _ he' hq (by simpa using hclash)

/-- A cursor before which the receiver has the list is accepted. -/
lemma accepts_take (hrefl : ∀ e, clash e e = false) {p : ℕ} (hp : p ≤ L.length) :
    accepts clash L beyond (L.take p) p = true := by
  cases p with
  | zero => rfl
  | succ q =>
      have hq : L[q]? = some L[q] := List.getElem?_eq_getElem hp
      have htake : (L.take (q + 1))[q]? = some L[q] := by
        rw [List.getElem?_take_of_lt (Nat.lt_succ_self q), hq]
      rw [accepts, htake, hq, Option.any_some, Option.getD_some, hrefl]
      rfl

/-- The receiver has nothing, or a clash, behind an accepted cursor: the batch is all that follows
there. -/
lemma taken_of_fresh {s : Probe E} (hbatch : 0 < batch) (hlt : s.next < L.length)
    (hpre : s.log.take s.next = L.take s.next)
    (hfresh : accepts clash L beyond s.log (s.next + 1) = false) :
    taken clash L batch s = L.take (s.next + batch) := by
  have hget : L[s.next]? = some L[s.next] := List.getElem?_eq_getElem hlt
  have hover : overlay clash (s.log.drop s.next) ((L.drop s.next).take batch) =
      (L.drop s.next).take batch := by
    obtain ⟨b, rfl⟩ : ∃ b, batch = b + 1 := ⟨batch - 1, by omega⟩
    rw [List.drop_eq_getElem_cons hlt, List.take_succ_cons]
    cases hF : s.log.drop s.next with
    | nil => exact overlay_nil_left clash _
    | cons e' rest =>
        have he' : s.log[s.next]? = some e' := by
          rw [← Nat.add_zero s.next, ← List.getElem?_drop, hF]
          rfl
        rw [accepts, he', hget, Option.any_some, Option.getD_some] at hfresh
        rw [overlay, if_pos (by simpa using hfresh)]
  rw [taken, hover, hpre, ← List.take_add]

/-- A list that is there stays. -/
lemma prefix_step (hrefl : ∀ e, clash e e = false) {s : Probe E} (h : L <+: s.log) :
    L <+: (s.step clash L beyond batch).log := by
  rw [Probe.step]
  split
  · have hsame : taken clash L batch s = s.log := by
      have hbatch : (L.drop s.next).take batch <+: s.log.drop s.next :=
        (List.take_prefix _ _).trans (h.drop s.next)
      rw [taken, overlay_of_isPrefix hrefl hbatch, List.take_append_drop]
    rw [hsame]
    exact h
  · exact h

/-- After an accepted batch that is all there is behind the cursor, one batch less is missing. -/
lemma within_filled (hbatch : 0 < batch) {n : ℕ} {s : Probe E} (hlt : s.next < L.length)
    (hpre : s.log.take s.next = L.take s.next)
    (hacc : accepts clash L beyond s.log s.next = true)
    (hfresh : accepts clash L beyond s.log (s.next + 1) = false)
    (hle : L.length ≤ s.next + (n + 1) * batch) :
    Within clash L beyond batch n (s.step clash L beyond batch) := by
  rw [Probe.step, if_pos hacc, taken_of_fresh hbatch hlt hpre hfresh]
  have hlen : (L.take (s.next + batch)).length = min (s.next + batch) L.length := List.length_take
  refine Or.inr (Or.inl ⟨?_, ?_, ?_⟩)
  · dsimp only
    omega
  · dsimp only
    rw [hlen, List.take_eq_take_iff]
    omega
  · dsimp only
    rw [Nat.succ_mul] at hle
    omega

/-- **A round gets one step closer.** -/
lemma within_step (hrefl : ∀ e, clash e e = false) (hbatch : 0 < batch) {n : ℕ} {s : Probe E}
    (h : Within clash L beyond batch (n + 1) s) :
    Within clash L beyond batch n (s.step clash L beyond batch) := by
  rcases h with h | ⟨hnext, hlog, hle⟩ | ⟨hnext, hm, hclash, k, hk, hle⟩
  · exact Or.inl (prefix_step hrefl h)
  · -- filling: the cursor is the end of the receiver's list
    rcases hnext.lt_or_eq with hlt | heq
    · have hacc : accepts clash L beyond s.log s.next = true := by
        rw [hlog]
        exact accepts_take hrefl hnext
      have hfresh : accepts clash L beyond s.log (s.next + 1) = false := by
        have hnone : s.log[s.next]? = none := by
          rw [hlog, List.getElem?_eq_none_iff, List.length_take]
          omega
        rw [accepts, hnone]
        rfl
      have hpre : s.log.take s.next = L.take s.next := by rw [hlog, List.take_take, min_self]
      exact within_filled hbatch hlt hpre hacc hfresh hle
    · refine Or.inl (prefix_step hrefl ?_)
      rw [hlog, heq, List.take_length]
  · -- probing
    cases hacc : accepts clash L beyond s.log s.next with
    | false =>
        rw [Probe.step, if_neg (by rw [hacc]; simp)]
        have hpos : s.next ≠ 0 := by
          intro hzero
          rw [hzero] at hacc
          exact absurd hacc (by simp [accepts])
        refine Or.inr (Or.inr ⟨by dsimp only; omega, hm, fun q hq hqL => ?_, k, hk,
          by dsimp only; omega⟩)
        dsimp only at hq
        rcases Nat.lt_or_ge s.next q with hlt | hge
        · exact hclash q hlt hqL
        · rw [show q = s.next by omega]
          exact hacc
    | true =>
        have hpre := take_of_accepts hm hnext hacc
        rcases hnext.lt_or_eq with hlt | heq
        · refine within_filled hbatch hlt hpre hacc (hclash _ (Nat.lt_succ_self _) hlt) ?_
          calc L.length ≤ k * batch := hk
            _ ≤ (n + 1) * batch := Nat.mul_le_mul_right batch (by omega)
            _ ≤ s.next + (n + 1) * batch := Nat.le_add_left _ _
        · refine Or.inl (prefix_step hrefl ?_)
          rw [heq, List.take_length] at hpre
          rw [← hpre]
          exact List.take_prefix _ _

/-! ### Rounds -/

lemma prefix_of_within (hrefl : ∀ e, clash e e = false) (hbatch : 0 < batch) :
    ∀ {n : ℕ} {s : Probe E}, Within clash L beyond batch n s →
      L <+: ((Probe.step clash L beyond batch)^[n] s).log := by
  intro n
  induction n with
  | zero =>
      intro s h
      rw [Function.iterate_zero, id_eq]
      rcases h with h | ⟨hnext, hlog, hle⟩ | ⟨-, -, -, k, hk, hle⟩
      · exact h
      · rw [hlog, List.take_of_length_le (by omega)]
      · have hnil : L = [] := by
          rw [show k = 0 by omega, Nat.zero_mul] at hk
          exact List.eq_nil_of_length_eq_zero (Nat.le_zero.mp hk)
        rw [hnil]
        exact List.nil_prefix
  | succ n ih =>
      intro s h
      rw [Function.iterate_succ_apply]
      exact ih (within_step hrefl hbatch h)

/-- With the cursor at the end of the list nothing has been met so far. -/
lemma within_start {F : List E} (hm : Matches clash L F) {k n : ℕ} (hk : L.length ≤ k * batch)
    (hn : L.length + k ≤ n) : Within clash L beyond batch n ⟨L.length, F⟩ :=
  Or.inr (Or.inr ⟨le_rfl, hm, fun _ hlt hle => absurd hle (not_le.mpr hlt), k, hk, hn⟩)

/-- **Probing back and filling ends**: from a cursor at the end of the list on, the receiver has the
list after as many rounds as it has entries and batches. -/
theorem prefix_of_rounds (hrefl : ∀ e, clash e e = false) (hbatch : 0 < batch) {F : List E}
    (hm : Matches clash L F) {k n : ℕ} (hk : L.length ≤ k * batch) (hn : L.length + k ≤ n) :
    L <+: ((Probe.step clash L beyond batch)^[n] ⟨L.length, F⟩).log :=
  prefix_of_within hrefl hbatch (within_start hm hk hn)

end RaftRx.Backoff
