import Mathlib.Data.List.Basic
import Mathlib.Tactic

/-!
Sequences and dictionaries of a language whose list indices may be negative.

An index `i < 0` counts from the end of the list; an index that is outside on either side has no
value.  Slices never fail: a bound that is outside is moved to the nearest end.

* `item`: `l[i]`;
* `sliceFrom`, `sliceTo`: `l[i:]` and `l[:i]`;
* `Dict`: a dictionary in insertion order, with `get`, `set` and `pop`;
* `sliceFrom_of_nonneg`, `sliceTo_of_nonneg`, `item_of_nonneg`, `Dict.get_set`: how they compute;
* `foldlM_invariant`: what every round of a loop that may fail keeps;
* `foldlM_total`: a loop none of whose rounds fails returns;
* `roundsOf`, `forall_roundsOf`: what the rounds of a loop note down, also when a later one fails.
-/

namespace RaftRx

variable {α κ ν : Type*}

/-! ### Lists -/

/-- `l[i]`; `none` is an index error. -/
def item (l : List α) (i : ℤ) : Option α :=
  if 0 ≤ i then l[i.toNat]? else if -(l.length : ℤ) ≤ i then l[(i + l.length).toNat]? else none

/-- A slice bound as a position. -/
def slicePos (l : List α) (i : ℤ) : ℕ := if 0 ≤ i then i.toNat else (i + l.length).toNat

/-- `l[i:]` -/
def sliceFrom (l : List α) (i : ℤ) : List α := l.drop (slicePos l i)

/-- `l[:i]` -/
def sliceTo (l : List α) (i : ℤ) : List α := l.take (slicePos l i)

lemma item_of_nonneg {l : List α} {i : ℤ} (h : 0 ≤ i) : item l i = l[i.toNat]? := by
  rw [item, if_pos h]

@[simp] lemma item_natCast (l : List α) (n : ℕ) : item l n = l[n]? := by
  rw [item_of_nonneg (Int.natCast_nonneg n), Int.toNat_natCast]

lemma sliceFrom_of_nonneg {l : List α} {i : ℤ} (h : 0 ≤ i) : sliceFrom l i = l.drop i.toNat := by
  rw [sliceFrom, slicePos, if_pos h]

lemma sliceTo_of_nonneg {l : List α} {i : ℤ} (h : 0 ≤ i) : sliceTo l i = l.take i.toNat := by
  rw [sliceTo, slicePos, if_pos h]

/-- **The loop rule**: what every round keeps holds when the loop returns. -/
lemma foldlM_invariant {β : Type*} {f : β → α → Option β} {I : β → Prop} :
    ∀ {l : List α} {b b' : β}, (∀ a ∈ l, ∀ c c', I c → f c a = some c' → I c') → I b →
      l.foldlM f b = some b' → I b'
  | [], b, b', _, hb, h => by
      rw [List.foldlM_nil] at h
      exact Option.some.inj h ▸ hb
  | a :: l, b, b', hf, hb, h => by
      rw [List.foldlM_cons] at h
      obtain ⟨c, hc, h⟩ := Option.bind_eq_some_iff.mp h
      exact foldlM_invariant (fun a' ha' => hf a' (List.mem_cons_of_mem a ha'))
        (hf a List.mem_cons_self b c hb hc) h

/-- **The loop returns** when every round returns and keeps what the next one needs. -/
lemma foldlM_total {β : Type*} {f : β → α → Option β} {I : β → Prop} :
    ∀ {l : List α} {b : β}, (∀ a ∈ l, ∀ c, I c → ∃ c', f c a = some c' ∧ I c') → I b →
      ∃ b', l.foldlM f b = some b' ∧ I b'
  | [], b, _, hb => ⟨b, rfl, hb⟩
  | a :: l, b, hf, hb => by
      obtain ⟨c, hc, hI⟩ := hf a List.mem_cons_self b hb
      obtain ⟨b', hb', hI'⟩ := foldlM_total (fun a' ha' => hf a' (List.mem_cons_of_mem a ha')) hI
      exact ⟨b', by rw [List.foldlM_cons, hc]; exact hb', hI'⟩

/-- What the rounds of a loop note down, up to the round that fails. -/
def roundsOf {β γ : Type*} (f : β → α → Option β) (note : β → α → List γ) : β → List α → List γ
  | _, [] => []
  | b, a :: l =>
      note b a ++
        match f b a with
        | none => []
        | some b' => roundsOf f note b' l

/-- **What is noted down** has what every round's notes have. -/
lemma forall_roundsOf {β γ : Type*} {f : β → α → Option β} {note : β → α → List γ}
    {I : β → Prop} {Q : γ → Prop} {l : List α} {b : β}
    (hf : ∀ a ∈ l, ∀ c c', I c → f c a = some c' → I c')
    (hnote : ∀ a ∈ l, ∀ c, I c → ∀ q ∈ note c a, Q q) (hb : I b) :
    ∀ q ∈ roundsOf f note b l, Q q := by
  induction l generalizing b with
  | nil => exact fun q hq => absurd hq List.not_mem_nil
  | cons a l ih =>
      intro q hq
      cases List.mem_append.mp hq with
      | inl hq => exact hnote a List.mem_cons_self b hb q hq
      | inr hq =>
          cases hc : f b a with
          | none =>
              rw [hc] at hq
              exact absurd hq List.not_mem_nil
          | some c =>
              rw [hc] at hq
              exact ih (fun a' ha' => hf a' (List.mem_cons_of_mem a ha'))
                (fun a' ha' => hnote a' (List.mem_cons_of_mem a ha'))
                (hf a List.mem_cons_self b c hb hc) q hq

/-! ### Dictionaries -/

/-- The items of a dictionary in insertion order. -/
abbrev Dict (κ ν : Type*) := List (κ × ν)

namespace Dict

variable [DecidableEq κ]

/-- `d.get(k)` -/
def get (d : Dict κ ν) (k : κ) : Option ν := d.lookup k

/-- `d[k] = v`: the item is replaced in place or added at the end. -/
def set : Dict κ ν → κ → ν → Dict κ ν
  | [], k, v => [(k, v)]
  | (k', v') :: d, k, v => if k' = k then (k, v) :: d else (k', v') :: set d k v

/-- `d.pop(k, None)` -/
def pop (d : Dict κ ν) (k : κ) : Dict κ ν := d.filter fun item => decide (item.1 ≠ k)

/-- `{k: f(k) for k in keys}`, for distinct keys -/
def ofKeys (keys : List κ) (f : κ → ν) : Dict κ ν := keys.map fun k => (k, f k)

@[simp] lemma get_nil (k : κ) : get ([] : Dict κ ν) k = none := rfl

lemma get_cons (k k' : κ) (v' : ν) (d : Dict κ ν) :
    get ((k', v') :: d) k = if k = k' then some v' else get d k := by
  rw [get, List.lookup_cons]
  by_cases h : k = k'
  · subst h
    simp
  · rw [if_neg h, beq_eq_false_iff_ne.mpr h]
    rfl

/-- **A dictionary after an assignment.** -/
lemma get_set (d : Dict κ ν) (k : κ) (v : ν) (k' : κ) :
    get (set d k v) k' = if k' = k then some v else get d k' := by
  induction d with
  | nil => rw [set, get_cons, get_nil]
  | cons p d ih =>
      obtain ⟨k₀, v₀⟩ := p
      rw [set]
      by_cases h : k₀ = k
      · subst h
        rw [if_pos rfl, get_cons, get_cons]
        by_cases h' : k' = k₀
        · rw [if_pos h', if_pos h']
        · rw [if_neg h', if_neg h', if_neg h']
      · rw [if_neg h, get_cons, get_cons, ih]
        by_cases h' : k' = k₀
        · subst h'
          rw [if_pos rfl, if_neg h, if_pos rfl]
        · rw [if_neg h', if_neg h']

/-- **A dictionary after a removal.** -/
lemma get_pop (d : Dict κ ν) (k k' : κ) :
    get (pop d k) k' = if k' = k then none else get d k' := by
  induction d with
  | nil => simp [pop]
  | cons p d ih =>
      obtain ⟨k₀, v₀⟩ := p
      rw [pop] at ih ⊢
      by_cases h : k₀ = k
      · subst h
        rw [List.filter_cons_of_neg (by simp), ih, get_cons]
        split
        · rfl
        · rfl
      · rw [List.filter_cons_of_pos (by simp [h]), get_cons, get_cons, ih]
        by_cases h' : k' = k₀
        · subst h'
          rw [if_pos rfl, if_neg h, if_pos rfl]
        · rw [if_neg h', if_neg h']

lemma get_ofKeys (keys : List κ) (f : κ → ν) (k : κ) :
    get (ofKeys keys f) k = if k ∈ keys then some (f k) else none := by
  induction keys with
  | nil => rw [ofKeys, List.map_nil, get_nil, if_neg List.not_mem_nil]
  | cons k₀ keys ih =>
      rw [ofKeys, List.map_cons, get_cons]
      rw [ofKeys] at ih
      rw [ih]
      by_cases h : k = k₀
      · subst h
        rw [if_pos rfl, if_pos List.mem_cons_self]
      · rw [if_neg h]
        simp only [List.mem_cons, h, false_or]

end Dict

end RaftRx
