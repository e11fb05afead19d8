import Mathlib.Data.List.Basic
import Mathlib.Data.List.TakeDrop
import Mathlib.Order.Lattice

/-!
Writing one list over another.

Two lists are compared position by position by a test `clash`.  As long as no pair clashes the old
list is kept; from the first clash on, or from the end of the old list on, the new list is taken.

* `firstClash`: the position of the first pair that clashes;
* `overlay`: the outcome;
* `overlay_of_some`, `overlay_of_none`: the outcome in terms of `take` and `drop`;
* `overlay_take_idem`: once a list has been written, writing it again changes nothing, also when
  the outcome is cut off at a capacity in between.
-/

namespace RaftRx

variable {E : Type*} (clash : E → E → Bool)

/-- The position of the first pair that clashes. -/
def firstClash : List E → List E → Option ℕ
  | e' :: old, e :: new => if clash e' e then some 0 else (firstClash old new).map (· + 1)
  | _, _ => none

/-- `new` written over `old`. -/
def overlay : List E → List E → List E
  | old, [] => old
  | [], e :: new => e :: new
  | e' :: old, e :: new => if clash e' e then e :: new else e' :: overlay old new

@[simp] lemma overlay_nil_right (old : List E) : overlay clash old [] = old := by
  cases old <;> rfl

@[simp] lemma overlay_nil_left (new : List E) : overlay clash [] new = new := by
  cases new <;> rfl

@[simp] lemma firstClash_nil_right (old : List E) : firstClash clash old [] = none := by
  cases old <;> rfl

@[simp] lemma firstClash_nil_left (new : List E) : firstClash clash [] new = none := rfl

variable {clash}

/-! ### The first clash -/

/-- The first clash is the first position at which both lists have an element and these clash. -/
lemma firstClash_eq_some {k : ℕ} : ∀ {old new : List E}, firstClash clash old new = some k ↔
    (∃ e' e, old[k]? = some e' ∧ new[k]? = some e ∧ clash e' e = true) ∧
      ∀ j < k, ∀ e' e, old[j]? = some e' → new[j]? = some e → clash e' e = false := by
  induction k with
  | zero =>
      intro old new
      cases old with
      | nil => simp
      | cons e' old =>
          cases new with
          | nil => simp
          | cons e new =>
              rw [firstClash]
              split <;> simp_all
  | succ k ih =>
      intro old new
      cases old with
      | nil => simp
      | cons e' old =>
          cases new with
          | nil => simp
          | cons e new =>
              rw [firstClash]
              by_cases hc : clash e' e = true
              · rw [if_pos hc]
                refine iff_of_false (by simp) fun h => ?_
                have := h.2 0 (Nat.succ_pos k) e' e rfl rfl
                rw [hc] at this
                exact Bool.noConfusion this
              · rw [if_neg hc]
                have hstep : (firstClash clash old new).map (· + 1) = some (k + 1) ↔
                    firstClash clash old new = some k := by
                  cases firstClash clash old new <;> simp
                rw [hstep, ih]
                simp only [List.getElem?_cons_succ]
                refine and_congr_right fun _ => ⟨fun h j hj => ?_, fun h j hj => ?_⟩
                · cases j with
                  | zero => simpa using hc
                  | succ j => simpa using h j (by omega)
                · simpa using h (j + 1) (by omega)

lemma firstClash_eq_none : ∀ {old new : List E}, firstClash clash old new = none ↔
    ∀ (j : ℕ) e' e, old[j]? = some e' → new[j]? = some e → clash e' e = false := by
  intro old
  induction old with
  | nil => simp
  | cons e' old ih =>
      intro new
      cases new with
      | nil => simp
      | cons e new =>
          rw [firstClash]
          by_cases hc : clash e' e = true
          · rw [if_pos hc]
            refine iff_of_false (by simp) fun h => ?_
            have := h 0 e' e rfl rfl
            rw [hc] at this
            exact Bool.noConfusion this
          · rw [if_neg hc, Option.map_eq_none_iff, ih]
            refine ⟨fun h j => ?_, fun h j => by simpa using h (j + 1)⟩
            cases j with
            | zero => simpa using hc
            | succ j => simpa using h j

/-! ### The outcome -/

lemma overlay_of_some {k : ℕ} : ∀ {old new : List E}, firstClash clash old new = some k →
    overlay clash old new = old.take k ++ new.drop k := by
  induction k with
  | zero =>
      intro old new h
      obtain ⟨⟨e', e, ho, hn, hc⟩, -⟩ := firstClash_eq_some.mp h
      cases old with
      | nil => simp at ho
      | cons a old =>
          cases new with
          | nil => simp at hn
          | cons b new =>
              simp only [List.getElem?_cons_zero, Option.some.injEq] at ho hn
              rw [overlay, ho, hn, if_pos hc]
              simp
  | succ k ih =>
      intro old new h
      cases old with
      | nil => simp at h
      | cons a old =>
          cases new with
          | nil => simp at h
          | cons b new =>
              rw [firstClash] at h
              split at h
              · simp at h
              · rename_i hc
                have hk : firstClash clash old new = some k := by
                  cases hf : firstClash clash old new with
                  | none => rw [hf] at h; simp at h
                  | some j => rw [hf] at h; simpa using h
                rw [overlay, if_neg hc, ih hk]
                simp

lemma overlay_of_none : ∀ {old new : List E}, firstClash clash old new = none →
    overlay clash old new = old ++ new.drop old.length := by
  intro old
  induction old with
  | nil => simp
  | cons a old ih =>
      intro new h
      cases new with
      | nil => simp
      | cons b new =>
          rw [firstClash] at h
          split at h
          · simp at h
          · rename_i hc
            rw [overlay, if_neg hc, ih (Option.map_eq_none_iff.mp h)]
            simp

/-- The new list fits in the outcome. -/
lemma length_le_overlay (old new : List E) : new.length ≤ (overlay clash old new).length := by
  cases h : firstClash clash old new with
  | none =>
      rw [overlay_of_none h, List.length_append, List.length_drop]
      omega
  | some k =>
      obtain ⟨⟨e', e, ho, hn, -⟩, -⟩ := firstClash_eq_some.mp h
      have hk := (List.getElem?_eq_some_iff.mp ho).1
      rw [overlay_of_some h, List.length_append, List.length_take, List.length_drop]
      omega

/-- At most the old list and the part of the new one beyond it. -/
lemma overlay_length_le (old new : List E) :
    (overlay clash old new).length ≤ max old.length new.length := by
  cases h : firstClash clash old new with
  | none =>
      rw [overlay_of_none h, List.length_append, List.length_drop]
      omega
  | some k =>
      obtain ⟨⟨e', e, ho, hn, -⟩, -⟩ := firstClash_eq_some.mp h
      have hk := (List.getElem?_eq_some_iff.mp hn).1
      rw [overlay_of_some h, List.length_append, List.length_take, List.length_drop]
      omega

/-- Where both lists have an element, the outcome has one that does not clash with the new one. -/
lemma overlay_getElem? (hrefl : ∀ e, clash e e = false) {old new : List E} {j : ℕ} {e' e : E}
    (ho : (overlay clash old new)[j]? = some e') (hn : new[j]? = some e) : clash e' e = false := by
  have hlt := (List.getElem?_eq_some_iff.mp hn).1
  cases h : firstClash clash old new with
  | none =>
      rw [overlay_of_none h] at ho
      rcases lt_or_ge j old.length with hj | hj
      · rw [List.getElem?_append_left hj] at ho
        exact firstClash_eq_none.mp h j e' e ho hn
      · rw [List.getElem?_append_right hj, List.getElem?_drop,
          show old.length + (j - old.length) = j by omega, hn, Option.some.injEq] at ho
        rw [ho]
        exact hrefl _
  | some k =>
      obtain ⟨⟨a, b, ha, hb, -⟩, hbelow⟩ := firstClash_eq_some.mp h
      have hk := (List.getElem?_eq_some_iff.mp ha).1
      have hlen : (old.take k).length = k := by rw [List.length_take]; omega
      rw [overlay_of_some h] at ho
      rcases lt_or_ge j k with hj | hj
      · rw [List.getElem?_append_left (by omega), List.getElem?_take_of_lt hj] at ho
        exact hbelow j hj e' e ho hn
      · rw [List.getElem?_append_right (by omega), hlen, List.getElem?_drop,
          show k + (j - k) = j by omega, hn, Option.some.injEq] at ho
        rw [ho]
        exact hrefl _

/-- **A list that has been written clashes with nothing**, at whatever capacity it was cut. -/
theorem firstClash_overlay_take (hrefl : ∀ e, clash e e = false) (old new : List E) (n : ℕ) :
    firstClash clash ((overlay clash old new).take n) new = none := by
  rw [firstClash_eq_none]
  intro j e' e ho hn
  rw [List.getElem?_take] at ho
  split at ho
  · exact overlay_getElem? hrefl ho hn
  · simp at ho

/-- **Writing a list a second time changes nothing.** -/
theorem overlay_take_idem (hrefl : ∀ e, clash e e = false) (old new : List E) (n : ℕ) :
    (overlay clash ((overlay clash old new).take n) new).take n = (overlay clash old new).take n := by
  have hlen : new.length ≤ (overlay clash old new).length := length_le_overlay old new
  rw [overlay_of_none (firstClash_overlay_take hrefl old new n)]
  rcases le_total n (overlay clash old new).length with hn | hn
  · rw [List.take_append_of_le_length (by rw [List.length_take]; omega), List.take_take,
      min_self]
  · rw [List.take_of_length_le hn, List.drop_eq_nil_of_le hlen, List.append_nil,
      List.take_of_length_le hn]

end RaftRx
