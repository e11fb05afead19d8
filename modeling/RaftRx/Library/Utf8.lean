import Mathlib.Data.List.Basic
import Mathlib.Data.List.Lex
import Mathlib.Tactic

/-!
UTF-8 and the order of texts.

A program that keeps a text as code points and one that keeps its bytes sort the same names the
same way: the bytes of a smaller code point come first, whatever follows them.

* `utf8`: the bytes of a text, each as the character with its number;
* `Leads`, `Leads.snoc`: encodings whose order does not depend on what follows, and one more byte
  of six bits at the end of them;
* `utf8_lt_utf8`: the order of the bytes is the order of the code points.
-/

namespace RaftRx.Text

/-- The bytes of a code point. -/
def utf8Char (c : Char) : List Char := (String.utf8EncodeChar c).map Char.ofUInt8

/-- The bytes of a text. -/
def utf8 (s : List Char) : List Char := s.flatMap utf8Char

/-- The bytes of a code point as numbers. -/
def utf8Bytes (v : ℕ) : List ℕ :=
  if v ≤ 0x7f then [v]
  else if v ≤ 0x7ff then [v / 64 % 0x20 + 0xc0, v % 0x40 + 0x80]
  else if v ≤ 0xffff then [v / 4096 % 0x10 + 0xe0, v / 64 % 0x40 + 0x80, v % 0x40 + 0x80]
  else [v / 262144 % 0x08 + 0xf0, v / 4096 % 0x40 + 0x80, v / 64 % 0x40 + 0x80, v % 0x40 + 0x80]

lemma map_toNat_utf8Char (c : Char) : (utf8Char c).map Char.toNat = utf8Bytes c.toNat := by
  rw [utf8Char, List.map_map, String.utf8EncodeChar, utf8Bytes]
  change List.map UInt8.toNat _ = _
  have hc : c.toNat = c.val.toNat := rfl
  simp only [hc]
  split_ifs <;> simp <;> omega

/-! ### Encodings that are told apart -/

/-- The codes of different numbers below `b` differ at some position, the smaller number having the
smaller byte there. -/
def Leads (b : ℕ) (code : ℕ → List ℕ) : Prop :=
  ∀ v w, v < w → w < b → ∀ s t : List ℕ, code v ++ s < code w ++ t

lemma leads_singleton {b : ℕ} {f : ℕ → ℕ} (h : ∀ v w, v < w → w < b → f v < f w) :
    Leads b fun v => [f v] := by
  intro v w hvw hw s t
  rw [List.singleton_append, List.singleton_append, List.cons_lt_cons_iff]
  exact Or.inl (h v w hvw hw)

/-- One more byte, with the last six bits. -/
lemma Leads.snoc {b : ℕ} {code : ℕ → List ℕ} (h : Leads b code) :
    Leads (64 * b) fun v => code (v / 64) ++ [v % 64 + 0x80] := by
  intro v w hvw hw s t
  dsimp only
  rw [List.append_assoc, List.append_assoc, List.singleton_append, List.singleton_append]
  by_cases heq : v / 64 = w / 64
  · rw [heq]
    refine List.append_left_lt ?_
    rw [List.cons_lt_cons_iff]
    left
    omega
  · exact h (v / 64) (w / 64) (by omega) (by omega) _ _

lemma leads_two : Leads (64 * 32) fun v => [v / 64 % 32 + 0xc0, v % 64 + 0x80] := by
  have hlead : Leads 32 fun v => [v % 32 + 0xc0] := leads_singleton fun v w _ _ => by omega
  exact hlead.snoc

lemma leads_three : Leads (64 * (64 * 16)) fun v =>
    [v / 4096 % 16 + 0xe0, v / 64 % 64 + 0x80, v % 64 + 0x80] := by
  have hlead : Leads 16 fun v => [v % 16 + 0xe0] := leads_singleton fun v w _ _ => by omega
  have hcode : (fun v => [v / 4096 % 16 + 0xe0, v / 64 % 64 + 0x80, v % 64 + 0x80]) =
      fun v => ([v / 64 / 64 % 16 + 0xe0] ++ [v / 64 % 64 + 0x80]) ++ [v % 64 + 0x80] := by
    funext v
    rw [Nat.div_div_eq_div_mul]
    rfl
  rw [hcode]
  exact hlead.snoc.snoc

lemma leads_four : Leads (64 * (64 * (64 * 8))) fun v =>
    [v / 262144 % 8 + 0xf0, v / 4096 % 64 + 0x80, v / 64 % 64 + 0x80, v % 64 + 0x80] := by
  have hlead : Leads 8 fun v => [v % 8 + 0xf0] := leads_singleton fun v w _ _ => by omega
  have hcode : (fun v =>
        [v / 262144 % 8 + 0xf0, v / 4096 % 64 + 0x80, v / 64 % 64 + 0x80, v % 64 + 0x80]) =
      fun v => (([v / 64 / 64 / 64 % 8 + 0xf0] ++ [v / 64 / 64 % 64 + 0x80]) ++
        [v / 64 % 64 + 0x80]) ++ [v % 64 + 0x80] := by
    funext v
    have h2 : v / 64 / 64 = v / 4096 := Nat.div_div_eq_div_mul v 64 64
    have h3 : v / 4096 / 64 = v / 262144 := Nat.div_div_eq_div_mul v 4096 64
    rw [h2, h3]
    rfl
  rw [hcode]
  exact hlead.snoc.snoc.snoc

/-- A smaller first byte decides. -/
lemma append_lt_of_head {a b : ℕ} (h : a < b) (as bs s t : List ℕ) :
    a :: as ++ s < b :: bs ++ t := by
  rw [List.cons_append, List.cons_append, List.cons_lt_cons_iff]
  exact Or.inl h

/-- **The bytes of a smaller code point come first**, whatever follows them. -/
lemma leads_utf8Bytes : Leads 0x110000 utf8Bytes := by
  intro v w hvw hw s t
  rw [utf8Bytes, utf8Bytes]
  by_cases hv1 : v ≤ 0x7f
  · rw [if_pos hv1]
    split_ifs <;> exact append_lt_of_head (by omega) _ _ s t
  · rw [if_neg hv1, if_neg (show ¬w ≤ 0x7f by omega)]
    by_cases hv2 : v ≤ 0x7ff
    · rw [if_pos hv2]
      split_ifs
      · exact leads_two v w hvw (by omega) s t
      · exact append_lt_of_head (by omega) _ _ s t
      · exact append_lt_of_head (by omega) _ _ s t
    · rw [if_neg hv2, if_neg (show ¬w ≤ 0x7ff by omega)]
      by_cases hv3 : v ≤ 0xffff
      · rw [if_pos hv3]
        split_ifs
        · exact leads_three v w hvw (by omega) s t
        · exact append_lt_of_head (by omega) _ _ s t
      · rw [if_neg hv3, if_neg (show ¬w ≤ 0xffff by omega)]
        exact leads_four v w hvw (by omega) s t

/-! ### Texts -/

lemma toNat_lt (c : Char) : c.toNat < 0x110000 := by
  have h := c.valid
  simp only [UInt32.isValidChar, Nat.isValidChar] at h
  change c.val.toNat < _
  omega

lemma utf8_cons (c : Char) (s : List Char) : utf8 (c :: s) = utf8Char c ++ utf8 s :=
  List.flatMap_cons

lemma utf8Char_ne_nil (c : Char) : utf8Char c ≠ [] := by
  rw [utf8Char, Ne, List.map_eq_nil_iff]
  exact String.utf8EncodeChar_ne_nil

/-- The order of characters is that of their numbers. -/
lemma lt_of_map_toNat (s : List Char) : ∀ {t : List Char},
    s.map Char.toNat < t.map Char.toNat → s < t := by
  induction s with
  | nil =>
      intro t h
      cases t with
      | nil => exact absurd h (List.not_lt_nil _)
      | cons b t => exact List.nil_lt_cons b t
  | cons a s ih =>
      intro t h
      cases t with
      | nil => exact absurd h (List.not_lt_nil _)
      | cons b t =>
          rw [List.map_cons, List.map_cons, List.cons_lt_cons_iff] at h
          rw [List.cons_lt_cons_iff]
          cases h with
          | inl h => exact Or.inl h
          | inr h => exact Or.inr ⟨Char.toNat_inj.mp h.1, ih h.2⟩

/-- **UTF-8 keeps the order of texts.** -/
theorem utf8_lt_utf8 (s : List Char) : ∀ {t : List Char}, s < t → utf8 s < utf8 t := by
  induction s with
  | nil =>
      intro t h
      cases t with
      | nil => exact absurd h (List.not_lt_nil _)
      | cons b t =>
          rw [utf8_cons]
          obtain ⟨x, xs, hx⟩ := List.exists_cons_of_ne_nil (utf8Char_ne_nil b)
          rw [hx]
          exact List.nil_lt_cons x (xs ++ utf8 t)
  | cons a s ih =>
      intro t h
      cases t with
      | nil => exact absurd h (List.not_lt_nil _)
      | cons b t =>
          rw [utf8_cons, utf8_cons]
          rw [List.cons_lt_cons_iff] at h
          cases h with
          | inl h =>
              refine lt_of_map_toNat _ ?_
              rw [List.map_append, List.map_append, map_toNat_utf8Char, map_toNat_utf8Char]
              exact leads_utf8Bytes _ _ h (toNat_lt b) _ _
          | inr h =>
              rw [h.1]
              exact List.append_left_lt (ih h.2)

end RaftRx.Text
