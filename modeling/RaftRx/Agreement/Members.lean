import RaftRx.C.MemberLists
import RaftRx.Library.Utf8
import RaftRx.Python.JointMembers
import Mathlib.Data.Finset.Card

/-!
The member lists of the two libraries.

`normalize_members` drops empty ids and repetitions and sorts what is left: in C up to a capacity
and by swapping neighbours, in Python with `sorted`.  C compares bytes and Python code points.

* `pairwise_sinkMembers`: the insertion sort of the C library sorts;
* `foldl_gather`, `Fit.mem_normalizeMembers`: nothing is lost while the distinct ids fit;
* `mem_normalized`, `pairwise_normalized`: the same of the Python list;
* `normalizeMembers_canonical`: one list for each set of ids, and the same list in both libraries.
-/

namespace RaftRx.Agreement

open C (CString maxId maxNodes strncpy)
open Python (Str)
open Text (utf8)

/-! ### The list of the C library -/

/-- One step of the insertion sort keeps the list, last element first, in order. -/
lemma pairwise_sinkMember (m : CString) {rev : List CString} (h : rev.Pairwise (· ≥ ·)) :
    (C.sinkMember m rev).Pairwise (· ≥ ·) := by
  induction rev with
  | nil => exact List.pairwise_singleton _ m
  | cons x rev ih =>
      obtain ⟨hx, hrev⟩ := List.pairwise_cons.mp h
      rw [C.sinkMember]
      split
      · rename_i hm
        refine List.pairwise_cons.mpr ⟨fun y hy => ?_, ih hrev⟩
        have hmem := (C.sinkMember_perm m rev).mem_iff.mp hy
        cases List.mem_cons.mp hmem with
        | inl hym => exact hym ▸ le_of_lt hm
        | inr hyr => exact hx y hyr
      · rename_i hm
        refine List.pairwise_cons.mpr ⟨fun y hy => ?_, h⟩
        have hxm : x ≤ m := not_lt.mp hm
        cases List.mem_cons.mp hy with
        | inl hyx => exact hyx ▸ hxm
        | inr hyr => exact le_trans (hx y hyr) hxm

lemma pairwise_sinkMembers (ms : List CString) : ∀ rev : List CString, rev.Pairwise (· ≥ ·) →
    (ms.foldl (fun rev m => C.sinkMember m rev) rev).Pairwise (· ≥ ·) := by
  induction ms with
  | nil => exact fun _ h => h
  | cons m ms ih => exact fun rev h => ih _ (pairwise_sinkMember m h)

/-- **What is gathered**: every id that is not empty, once, while there is a place for each id of a
set that holds them all. -/
lemma foldl_gather {places : ℕ} {ids : Finset CString} (hplaces : ids.card ≤ places)
    (ms : List CString) : ∀ out : List CString, (∀ id ∈ ms, id.length < maxId) →
    (∀ id ∈ ms, id ≠ [] → id ∈ ids) → out.Nodup → (∀ id ∈ out, id ∈ ids) →
    (ms.foldl (fun out m =>
      if out.length < places ∧ m ≠ [] ∧ m ∉ out then out ++ [strncpy maxId m] else out) out).Nodup ∧
    ∀ id, id ∈ ms.foldl (fun out m =>
      if out.length < places ∧ m ≠ [] ∧ m ∉ out then out ++ [strncpy maxId m] else out) out ↔
        id ∈ out ∨ id ∈ ms ∧ id ≠ [] := by
  induction ms with
  | nil => exact fun out _ _ hnodup _ => ⟨hnodup, fun id => by simp⟩
  | cons m ms ih =>
      intro out hlen hids hnodup hout
      have hlen' : ∀ id ∈ ms, id.length < maxId := fun id hid => hlen id (List.mem_cons_of_mem _ hid)
      have hids' : ∀ id ∈ ms, id ≠ [] → id ∈ ids := fun id hid => hids id (List.mem_cons_of_mem _ hid)
      rw [List.foldl_cons]
      by_cases hnew : m ≠ [] ∧ m ∉ out
      · have hm : m ∈ ids := hids m List.mem_cons_self hnew.1
        -- the gathered ids and the new one are different members of the set
        have hroom : out.length < places := by
          have hcard : (m :: out).toFinset.card ≤ ids.card :=
            Finset.card_le_card fun id hid => by
              cases List.mem_cons.mp (List.mem_toFinset.mp hid) with
              | inl h => exact h ▸ hm
              | inr h => exact hout id h
          rw [List.toFinset_card_of_nodup (List.nodup_cons.mpr ⟨hnew.2, hnodup⟩),
            List.length_cons] at hcard
          omega
        rw [if_pos ⟨hroom, hnew⟩, C.strncpy_self (hlen m List.mem_cons_self)]
        have hnodup' : (out ++ [m]).Nodup := by
          rw [List.nodup_append_comm]
          exact List.nodup_cons.mpr ⟨hnew.2, hnodup⟩
        have hout' : ∀ id ∈ out ++ [m], id ∈ ids := fun id hid => by
          cases List.mem_append.mp hid with
          | inl h => exact hout id h
          | inr h => exact List.mem_singleton.mp h ▸ hm
        obtain ⟨h1, h2⟩ := ih (out ++ [m]) hlen' hids' hnodup' hout'
        refine ⟨h1, fun id => (h2 id).trans ?_⟩
        rw [List.mem_append, List.mem_singleton, List.mem_cons]
        constructor
        · rintro ((h | h) | h)
          · exact Or.inl h
          · exact Or.inr ⟨Or.inl h, h ▸ hnew.1⟩
          · exact Or.inr ⟨Or.inr h.1, h.2⟩
        · rintro (h | ⟨h | h, hne⟩)
          · exact Or.inl (Or.inl h)
          · exact Or.inl (Or.inr h)
          · exact Or.inr ⟨h, hne⟩
      · rw [if_neg fun h => hnew h.2]
        obtain ⟨h1, h2⟩ := ih out hlen' hids' hnodup hout
        refine ⟨h1, fun id => (h2 id).trans ?_⟩
        rw [List.mem_cons]
        constructor
        · rintro (h | h)
          · exact Or.inl h
          · exact Or.inr ⟨Or.inr h.1, h.2⟩
        · rintro (h | ⟨h | h, hne⟩)
          · exact Or.inl h
          · refine Or.inl ?_
            rw [h] at hne ⊢
            exact not_not.mp fun hm => hnew ⟨hne, hm⟩
          · exact Or.inr ⟨h, hne⟩

/-- At most as many distinct ids as a list has places, each with a byte to spare; repetitions and
empty ids do not count. -/
structure Fit (members : List CString) : Prop where
  places : (members.toFinset.erase []).card ≤ maxNodes
  length_lt : ∀ id ∈ members, id.length < maxId

variable {members members' : List CString}

lemma Fit.gathered (h : Fit members) :
    (C.gathered members).Nodup ∧ ∀ id, id ∈ C.gathered members ↔ id ∈ members ∧ id ≠ [] := by
  obtain ⟨h1, h2⟩ := foldl_gather h.places members [] h.length_lt
    (fun id hid hne => Finset.mem_erase.mpr ⟨hne, List.mem_toFinset.mpr hid⟩) List.nodup_nil
    (fun id hid => absurd hid List.not_mem_nil)
  exact ⟨h1, fun id => (h2 id).trans (by simp)⟩

lemma Fit.mem_normalizeMembers (h : Fit members) (id : CString) :
    id ∈ C.normalizeMembers members maxNodes ↔ id ∈ members ∧ id ≠ [] :=
  (C.perm_gathered members).mem_iff.trans (h.gathered.2 id)

/-- Sorting distinct ids leaves them in strictly increasing order. -/
lemma Fit.pairwise_normalizeMembers (h : Fit members) :
    (C.normalizeMembers members maxNodes).Pairwise (· < ·) := by
  have hnodup : (C.normalizeMembers members maxNodes).Nodup :=
    (C.perm_gathered members).nodup_iff.mpr h.gathered.1
  have hsorted : (C.normalizeMembers members maxNodes).Pairwise (· ≤ ·) :=
    List.pairwise_reverse.mpr (pairwise_sinkMembers (C.gathered members) [] List.Pairwise.nil)
  exact (hsorted.and hnodup).imp fun h => lt_of_le_of_ne h.1 h.2

/-- Two lists of the same ids fit alike. -/
lemma Fit.of_mem_iff (h : Fit members)
    (hsame : ∀ id, id ≠ [] → (id ∈ members' ↔ id ∈ members)) : Fit members' := by
  have hset : members'.toFinset.erase [] = members.toFinset.erase [] := by
    ext id
    rw [Finset.mem_erase, Finset.mem_erase, List.mem_toFinset, List.mem_toFinset]
    exact and_congr_right fun hne => hsame id hne
  refine ⟨hset ▸ h.places, fun id hid => ?_⟩
  by_cases hne : id = []
  · rw [hne]
    decide
  · exact h.length_lt id ((hsame id hne).mp hid)

/-- A strictly increasing list of the ids is the normal one. -/
lemma Fit.eq_normalizeMembers (h : Fit members) {ids : List CString} (hsorted : ids.Pairwise (· < ·))
    (hmem : ∀ id, id ∈ ids ↔ id ∈ members ∧ id ≠ []) :
    C.normalizeMembers members maxNodes = ids :=
  h.pairwise_normalizeMembers.eq_of_mem_iff hsorted fun id =>
    (h.mem_normalizeMembers id).trans (hmem id).symm

/-! ### The list of the Python library -/

lemma mem_collected (names : List Str) : ∀ (ms : List Str) (id : Str),
    id ∈ names.foldl (fun ms m => if m ≠ [] ∧ m ∉ ms then ms ++ [m] else ms) ms ↔
      id ∈ ms ∨ id ∈ names ∧ id ≠ [] := by
  induction names with
  | nil => exact fun ms id => by simp
  | cons m names ih =>
      intro ms id
      rw [List.foldl_cons, ih, List.mem_cons]
      split
      · rename_i hnew
        rw [List.mem_append, List.mem_singleton]
        constructor
        · rintro ((h | h) | h)
          · exact Or.inl h
          · exact Or.inr ⟨Or.inl h, h ▸ hnew.1⟩
          · exact Or.inr ⟨Or.inr h.1, h.2⟩
        · rintro (h | ⟨h | h, hne⟩)
          · exact Or.inl (Or.inl h)
          · exact Or.inl (Or.inr h)
          · exact Or.inr ⟨h, hne⟩
      · rename_i hold
        constructor
        · rintro (h | h)
          · exact Or.inl h
          · exact Or.inr ⟨Or.inr h.1, h.2⟩
        · rintro (h | ⟨h | h, hne⟩)
          · exact Or.inl h
          · refine Or.inl ?_
            rw [h] at hne ⊢
            exact not_not.mp fun hm => hold ⟨hne, hm⟩
          · exact Or.inr ⟨h, hne⟩

lemma mem_normalized (names : List Str) (id : Str) :
    id ∈ Python.ClusterConfiguration.normalizeMembers names ↔ id ∈ names ∧ id ≠ [] := by
  rw [Python.ClusterConfiguration.normalizeMembers, List.mem_insertionSort,
    mem_collected names [] id]
  simp

lemma pairwise_normalized (names : List Str) :
    (Python.ClusterConfiguration.normalizeMembers names).Pairwise (· < ·) := by
  obtain ⟨hnodup, -⟩ := Python.foldl_collect names [] List.nodup_nil (by simp)
  have hsorted : (Python.ClusterConfiguration.normalizeMembers names).Pairwise (· ≤ ·) :=
    List.pairwise_insertionSort _ _
  have hperm : (Python.ClusterConfiguration.normalizeMembers names).Nodup :=
    (List.perm_insertionSort _ _).nodup_iff.mpr hnodup
  exact (hsorted.and hperm).imp fun h => lt_of_le_of_ne h.1 h.2

/-! ### One list -/

lemma utf8_eq_nil {s : List Char} : utf8 s = [] ↔ s = [] := by
  constructor
  · intro h
    cases s with
    | nil => rfl
    | cons c s =>
        rw [Text.utf8_cons, List.append_eq_nil_iff] at h
        exact absurd h.1 (Text.utf8Char_ne_nil c)
  · rintro rfl
    rfl

/-- **Member normalization is canonical**: for at most eight distinct ids that fit, in any order and
with any repetitions and empty ids, the list is strictly increasing and holds exactly the ids,
it depends on the set of the ids only, it is its own normal form, and it is the list the Python
library makes of the same names. -/
theorem normalizeMembers_canonical (h : Fit members) :
    (C.normalizeMembers members maxNodes).Pairwise (· < ·) ∧
    (∀ id, id ∈ C.normalizeMembers members maxNodes ↔ id ∈ members ∧ id ≠ []) ∧
    (∀ members' : List CString, (∀ id, id ≠ [] → (id ∈ members' ↔ id ∈ members)) →
      C.normalizeMembers members' maxNodes = C.normalizeMembers members maxNodes) ∧
    C.normalizeMembers (C.normalizeMembers members maxNodes) maxNodes =
      C.normalizeMembers members maxNodes ∧
    ∀ names : List Str, names.map utf8 = members →
      C.normalizeMembers members maxNodes =
        (Python.ClusterConfiguration.normalizeMembers names).map utf8 := by
  have hsorted := h.pairwise_normalizeMembers
  have hmem := h.mem_normalizeMembers
  have hset : ∀ members' : List CString, (∀ id, id ≠ [] → (id ∈ members' ↔ id ∈ members)) →
      C.normalizeMembers members' maxNodes = C.normalizeMembers members maxNodes := by
    intro members' hsame
    refine (h.of_mem_iff hsame).eq_normalizeMembers hsorted fun id => (hmem id).trans ?_
    exact and_congr_left fun hne => (hsame id hne).symm
  refine ⟨hsorted, hmem, hset, ?_, ?_⟩
  · exact hset _ fun id hne => (hmem id).trans (and_iff_left hne)
  · rintro names rfl
    refine h.eq_normalizeMembers ?_ fun id => ?_
    · exact List.pairwise_map.mpr
        ((pairwise_normalized names).imp fun h => Text.utf8_lt_utf8 _ h)
    · rw [List.mem_map, List.mem_map]
      constructor
      · rintro ⟨name, hname, rfl⟩
        obtain ⟨hin, hne⟩ := (mem_normalized names name).mp hname
        exact ⟨⟨name, hin, rfl⟩, fun hnil => hne (utf8_eq_nil.mp hnil)⟩
      · rintro ⟨⟨name, hin, rfl⟩, hne⟩
        exact ⟨name, (mem_normalized names name).mpr
          ⟨hin, fun hnil => hne (utf8_eq_nil.mpr hnil)⟩, rfl⟩

/-- Names with a letter outside ASCII, a repetition and an empty one. -/
def someNames : List Str := ["é".toList, [], "z".toList, "a".toList, "z".toList]

/-- They come out in the same order in both libraries. -/
theorem normalizeMembers_canonical_some :
    C.normalizeMembers (someNames.map utf8) maxNodes =
      (Python.ClusterConfiguration.normalizeMembers someNames).map utf8 :=
  (normalizeMembers_canonical (⟨by decide, by decide⟩ : Fit (someNames.map utf8))).2.2.2.2
    someNames rfl

end RaftRx.Agreement
