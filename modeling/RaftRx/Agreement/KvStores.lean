import RaftRx.C.KvApp
import RaftRx.C.KvSnapshot
import RaftRx.Python.KvApp

/-!
The key-value stores of the two libraries under the same client requests.

The C client deletes with the operation `delete`, which `kv_apply` does not know, and its table
takes the first keys it is asked to set and no others.

* `Request`: a client request, with the command each client builds of it;
* `lastValue`, `liveValue`, `Admitted`: what a sequence of requests says about a key;
* `pyStore_get`, `Tracks`: what each store holds after a sequence of requests;
* `storesAgree_iff`: when both read the same for every key.
-/

namespace RaftRx.Agreement

open RaftRx.C (maxPairs maxKey maxValue FitsBuffer kvGet kvRun KvState)
open RaftRx.Python (KVApp)

/-- A client request. -/
inductive Request where
  | set (key value : List Char)
  | delete (key : List Char)
  deriving DecidableEq, Repr

namespace Request

/-- The key a request is about. -/
def key : Request → List Char
  | set key _ => key
  | delete key => key

/-- The texts fit the buffers of the C client. -/
def Fits : Request → Prop
  | set key value => FitsBuffer maxKey key ∧ FitsBuffer maxValue value
  | delete key => FitsBuffer maxKey key

/-- The command the C client builds. -/
def toC : Request → C.Command
  | set key value => C.cmdSet key value
  | delete key => C.cmdDelete key

/-- The command the Python client builds. -/
def toPython : Request → Python.Command
  | set key value => { op := "set".toList, key := key, value := some value }
  | delete key => { op := "delete".toList, key := key }

/-- The key, if the request sets it. -/
def setKey? : Request → Option (List Char)
  | set key _ => some key
  | delete _ => none

/-- The value, if the request sets one. -/
def setValue? : Request → Option (List Char)
  | set _ value => some value
  | delete _ => none

end Request

variable {rs : List Request} {key value : List Char}

/-- The C table after the requests. -/
def cStore (rs : List Request) : KvState := kvRun KvState.init (rs.map Request.toC)

/-- The Python application after the requests. -/
def pyStore (rs : List Request) : Option KVApp :=
  (rs.map Request.toPython).foldlM KVApp.apply (KVApp.init none)

/-- For every key both stores read the same, a missing value like the empty one. -/
def StoresAgree (rs : List Request) : Prop :=
  ∃ app, pyStore rs = some app ∧ ∀ key, kvGet (cStore rs) key = (app.get key).getD []

/-! ### What the requests say about a key -/

/-- The keys that are set, in order. -/
def setKeys (rs : List Request) : List (List Char) := rs.filterMap Request.setKey?

/-- The value of the last request that sets the key. -/
def lastValue (rs : List Request) (key : List Char) : Option (List Char) :=
  (rs.reverse.find? fun r => decide (r.setKey? = some key)).bind Request.setValue?

/-- The value the last request about the key sets, if it sets one. -/
def liveValue (rs : List Request) (key : List Char) : Option (List Char) :=
  (rs.reverse.find? fun r => decide (r.key = key)).bind Request.setValue?

/-- The key is set at a time when fewer keys have been set than the table has places. -/
def Admitted (rs : List Request) (key : List Char) : Prop :=
  ∃ before value after, rs = before ++ Request.set key value :: after ∧
    (setKeys before).toFinset.card < maxPairs

lemma find?_reverse_snoc {α : Type*} (l : List α) (a : α) (p : α → Bool) :
    (l ++ [a]).reverse.find? p = if p a then some a else l.reverse.find? p := by
  rw [List.reverse_append, List.reverse_singleton, List.singleton_append, List.find?_cons]
  split <;> simp_all

lemma lastValue_set (rs : List Request) (k v key : List Char) :
    lastValue (rs ++ [.set k v]) key = if k = key then some v else lastValue rs key := by
  rw [lastValue, find?_reverse_snoc]
  by_cases h : k = key
  · simp [Request.setKey?, Request.setValue?, h]
  · simp [Request.setKey?, h, lastValue]

lemma lastValue_delete (rs : List Request) (k key : List Char) :
    lastValue (rs ++ [.delete k]) key = lastValue rs key := by
  rw [lastValue, find?_reverse_snoc]
  simp [Request.setKey?, lastValue]

lemma liveValue_snoc (rs : List Request) (r : Request) (key : List Char) :
    liveValue (rs ++ [r]) key = if r.key = key then r.setValue? else liveValue rs key := by
  rw [liveValue, find?_reverse_snoc]
  by_cases h : r.key = key
  · simp [h]
  · simp [h, liveValue]

/-- A key that is live has its last value. -/
lemma lastValue_of_liveValue (rs : List Request) {v : List Char} :
    liveValue rs key = some v → lastValue rs key = some v := by
  induction rs using List.reverseRecOn with
  | nil => simp [liveValue]
  | append_singleton rs r ih =>
      rw [liveValue_snoc]
      cases r with
      | set k w =>
          rw [lastValue_set]
          change (if k = key then some w else liveValue rs key) = some v → _
          split
          · exact id
          · exact ih
      | delete k =>
          rw [lastValue_delete]
          change (if k = key then none else liveValue rs key) = some v → _
          split
          · exact fun h => absurd h (by simp)
          · exact ih

lemma setKeys_snoc (rs : List Request) (r : Request) :
    setKeys (rs ++ [r]) = setKeys rs ++ r.setKey?.toList := by
  rw [setKeys, List.filterMap_append]
  cases r <;> rfl

/-- A key is set by some request if it has a last value. -/
lemma mem_setKeys_iff (rs : List Request) : key ∈ setKeys rs ↔ lastValue rs key ≠ none := by
  induction rs using List.reverseRecOn with
  | nil => simp [setKeys, lastValue]
  | append_singleton rs r ih =>
      rw [setKeys_snoc, List.mem_append, ih]
      cases r with
      | set k w =>
          rw [lastValue_set]
          by_cases h : k = key
          · simp [Request.setKey?, h]
          · simp [Request.setKey?, h, Ne.symm h]
      | delete k =>
          rw [lastValue_delete]
          simp [Request.setKey?]

/-- One more request admits its key if there is room. -/
lemma admitted_snoc (rs : List Request) (r : Request) : Admitted (rs ++ [r]) key ↔
    Admitted rs key ∨ r.setKey? = some key ∧ (setKeys rs).toFinset.card < maxPairs := by
  constructor
  · rintro ⟨before, v, after, hsplit, hroom⟩
    rcases List.eq_nil_or_concat after with rfl | ⟨after, b, rfl⟩
    · obtain ⟨rfl, hr⟩ := List.append_inj' hsplit rfl
      rw [List.cons.injEq] at hr
      exact Or.inr ⟨by rw [hr.1]; rfl, hroom⟩
    · rw [List.concat_eq_append, ← List.cons_append, ← List.append_assoc] at hsplit
      obtain ⟨hrs, -⟩ := List.append_inj' hsplit rfl
      exact Or.inl ⟨before, v, after, hrs, hroom⟩
  · rintro (⟨before, v, after, rfl, hroom⟩ | ⟨hset, hroom⟩)
    · exact ⟨before, v, after ++ [r], by simp, hroom⟩
    · cases r with
      | delete k => simp [Request.setKey?] at hset
      | set k v =>
          rw [Request.setKey?, Option.some.injEq] at hset
          exact ⟨rs, v, [], by rw [hset], hroom⟩

/-! ### The Python store -/

/-- The Python application holds what the last requests set. -/
lemma pyStore_get (rs : List Request) :
    ∃ app, pyStore rs = some app ∧ ∀ key, app.get key = liveValue rs key := by
  induction rs using List.reverseRecOn with
  | nil => exact ⟨KVApp.init none, rfl, fun key => rfl⟩
  | append_singleton rs r ih =>
      obtain ⟨app, happ, hget⟩ := ih
      have hstep : pyStore (rs ++ [r]) = app.apply r.toPython := by
        rw [pyStore, List.map_append, List.foldlM_append]
        rw [pyStore] at happ
        rw [happ]
        simp
      rw [hstep]
      cases r with
      | set k v =>
          refine ⟨_, rfl, fun key => ?_⟩
          rw [liveValue_snoc, ← hget key]
          change Dict.get (Dict.set app.data k v) key = _
          rw [Dict.get_set]
          by_cases h : key = k
          · simp [Request.key, Request.setValue?, h]
          · simp [Request.key, h, Ne.symm h, KVApp.get]
      | delete k =>
          refine ⟨_, rfl, fun key => ?_⟩
          rw [liveValue_snoc, ← hget key]
          change Dict.get (Dict.pop app.data k) key = _
          rw [Dict.get_pop]
          by_cases h : key = k
          · simp [Request.key, Request.setValue?, h]
          · simp [Request.key, h, Ne.symm h, KVApp.get]

/-! ### The C store -/

/-- The table holds the keys that were admitted, with their last values. -/
structure Tracks (rs : List Request) (kv : KvState) : Prop where
  used : ∀ p ∈ kv.pairs, p.used = true
  distinct : (kv.pairs.map (·.key)).Nodup
  value : ∀ p ∈ kv.pairs, lastValue rs p.key = some p.value
  all : kv.pairs.length < maxPairs → ∀ k ∈ setKeys rs, k ∈ kv.pairs.map (·.key)
  admitted : ∀ k, k ∈ kv.pairs.map (·.key) ↔ Admitted rs k

variable {kv : KvState} {r : Request}

lemma Tracks.live_iff (h : Tracks rs kv) (key : List Char) :
    kv.Live key ↔ key ∈ kv.pairs.map (·.key) := by
  rw [List.mem_map]
  constructor
  · rintro ⟨p, hp, hfor⟩
    exact ⟨p, hp, (C.isFor_iff.mp hfor).2⟩
  · rintro ⟨p, hp, hkey⟩
    exact ⟨p, hp, C.isFor_iff.mpr ⟨h.used p hp, hkey⟩⟩

/-- A table that is not full has as many pairs as keys were set; a full one at most as many. -/
lemma Tracks.card (h : Tracks rs kv) : (setKeys rs).toFinset.card < maxPairs ↔
    kv.pairs.length < maxPairs := by
  have hsub : (kv.pairs.map (·.key)).toFinset ⊆ (setKeys rs).toFinset := by
    intro k hk
    rw [List.mem_toFinset, List.mem_map] at hk
    obtain ⟨p, hp, rfl⟩ := hk
    rw [List.mem_toFinset, mem_setKeys_iff, h.value p hp]
    simp
  have hcard : (kv.pairs.map (·.key)).toFinset.card = kv.pairs.length := by
    rw [List.toFinset_card_of_nodup h.distinct, List.length_map]
  constructor
  · intro hlt
    have := Finset.card_le_card hsub
    omega
  · intro hlt
    have hback : (setKeys rs).toFinset ⊆ (kv.pairs.map (·.key)).toFinset := by
      intro k hk
      rw [List.mem_toFinset] at hk ⊢
      exact h.all hlt k hk
    have := Finset.card_le_card hback
    omega

/-- A request that deletes is none to the C table. -/
lemma kvApply_cmdDelete (kv : KvState) (key : List Char) : C.kvApply kv (C.cmdDelete key) = kv :=
  C.kvApply_other kv (by change C.strncpy C.maxOp "delete".toList ≠ C.opSet; decide)
    (by change C.strncpy C.maxOp "delete".toList ≠ C.opDel; decide)

lemma Tracks.delete (h : Tracks rs kv) (key : List Char) :
    Tracks (rs ++ [.delete key]) (C.kvApply kv (C.cmdDelete key)) := by
  rw [kvApply_cmdDelete]
  have hkeys : setKeys (rs ++ [.delete key]) = setKeys rs := by
    rw [setKeys_snoc]
    exact List.append_nil _
  refine ⟨h.used, h.distinct, fun p hp => ?_, fun hlt => ?_, fun k => ?_⟩
  · rw [lastValue_delete]
    exact h.value p hp
  · rw [hkeys]
    exact h.all hlt
  · rw [h.admitted, admitted_snoc]
    simp [Request.setKey?]

lemma Tracks.set (h : Tracks rs kv) (hfits : (Request.set key value).Fits) :
    Tracks (rs ++ [.set key value]) (C.kvApply kv (C.cmdSet key value)) := by
  obtain ⟨hk, hv⟩ := hfits
  have hkey : (C.cmdSet key value).key = key := C.strncpy_fits hk
  have hvalue : (C.cmdSet key value).value = value := C.strncpy_fits hv
  have hop : (C.cmdSet key value).op = C.opSet := by
    change C.strncpy C.maxOp C.opSet = C.opSet
    decide
  have hkeys : setKeys (rs ++ [.set key value]) = setKeys rs ++ [key] := setKeys_snoc rs _
  have hadm : ∀ k, Admitted (rs ++ [.set key value]) k ↔
      Admitted rs k ∨ key = k ∧ kv.pairs.length < maxPairs := by
    intro k
    rw [admitted_snoc, h.card, Request.setKey?, Option.some.injEq]
  have hcases := C.kvApply_set kv hop
  rw [hkey, hvalue, C.strncpy_fits hk, C.strncpy_fits hv] at hcases
  rcases hcases with ⟨before, p, after, hps, hbefore, hp, heq⟩ | ⟨hnot, hlt, heq⟩ |
    ⟨hnot, hfull, heq⟩
  · -- the key has its pair
    obtain ⟨hpu, hpk⟩ := C.isFor_iff.mp hp
    have hmap : (C.kvApply kv (C.cmdSet key value)).pairs.map (·.key) = kv.pairs.map (·.key) := by
      rw [heq, hps]
      simp
    have hmem : key ∈ kv.pairs.map (·.key) := by
      rw [hps]
      simp [hpk]
    have hlen : (C.kvApply kv (C.cmdSet key value)).pairs.length = kv.pairs.length := by
      rw [heq, hps]
      simp
    have hne : ∀ q ∈ before ++ after, q.key ≠ key := by
      intro q hq hqk
      have hd := h.distinct
      rw [hps, List.map_append, List.map_cons, List.nodup_middle, List.nodup_cons,
        ← List.map_append] at hd
      exact hd.1 (List.mem_map.mpr ⟨q, hq, hqk.trans hpk.symm⟩)
    refine ⟨?_, by rw [hmap]; exact h.distinct, ?_, fun hlt k hk' => ?_, fun k => ?_⟩
    · have hused := h.used
      rw [hps] at hused
      rw [heq]
      intro q hq
      simp only [List.mem_append, List.mem_cons] at hq hused
      rcases hq with hq | rfl | hq
      · exact hused q (Or.inl hq)
      · exact hpu
      · exact hused q (Or.inr (Or.inr hq))
    · have hval := h.value
      rw [hps] at hval
      rw [heq]
      intro q hq
      simp only [List.mem_append, List.mem_cons] at hq hval hne
      rw [lastValue_set]
      rcases hq with hq | rfl | hq
      · rw [if_neg (Ne.symm (hne q (Or.inl hq)))]
        exact hval q (Or.inl hq)
      · rw [if_pos hpk.symm]
      · rw [if_neg (Ne.symm (hne q (Or.inr hq)))]
        exact hval q (Or.inr (Or.inr hq))
    · rw [hmap]
      rw [hlen] at hlt
      rw [hkeys, List.mem_append, List.mem_singleton] at hk'
      rcases hk' with hk' | rfl
      · exact h.all hlt k hk'
      · exact hmem
    · rw [hmap, hadm, h.admitted]
      refine ⟨Or.inl, ?_⟩
      rintro (hk' | ⟨rfl, -⟩)
      · exact hk'
      · exact (h.admitted key).mp hmem
  · -- a new key, and there is room
    rw [h.live_iff] at hnot
    refine ⟨?_, ?_, ?_, fun _ k hk' => ?_, fun k => ?_⟩
    · rw [heq]
      intro q hq
      rcases List.mem_append.mp hq with hq | hq
      · exact h.used q hq
      · rw [List.mem_singleton.mp hq]
    · rw [heq, List.map_append, List.map_singleton, List.nodup_append]
      refine ⟨h.distinct, by simp, fun a ha b hb => ?_⟩
      rw [List.mem_singleton.mp hb]
      rintro rfl
      exact hnot ha
    · rw [heq]
      intro q hq
      rw [lastValue_set]
      rcases List.mem_append.mp hq with hq | hq
      · rw [if_neg fun hqk => hnot (List.mem_map.mpr ⟨q, hq, hqk.symm⟩)]
        exact h.value q hq
      · rw [List.mem_singleton.mp hq, if_pos rfl]
    · rw [heq, List.map_append, List.mem_append, List.map_singleton, List.mem_singleton]
      rw [hkeys, List.mem_append, List.mem_singleton] at hk'
      exact hk'.imp (h.all hlt k) id
    · rw [heq, List.map_append, List.mem_append, List.map_singleton, List.mem_singleton, hadm,
        h.admitted]
      exact or_congr_right ⟨fun hk' => ⟨hk'.symm, hlt⟩, fun hk' => hk'.1.symm⟩
  · -- a new key, and the table is full
    rw [heq]
    rw [h.live_iff] at hnot
    refine ⟨h.used, h.distinct, fun q hq => ?_, fun hlt => by omega, fun k => ?_⟩
    · rw [lastValue_set, if_neg fun hqk => hnot (List.mem_map.mpr ⟨q, hq, hqk.symm⟩)]
      exact h.value q hq
    · rw [h.admitted, hadm]
      exact ⟨Or.inl, fun hk' => hk'.resolve_right fun hroom => by omega⟩

/-- **The C store** tracks the requests. -/
theorem tracks_cStore (rs : List Request) (hrs : ∀ r ∈ rs, r.Fits) : Tracks rs (cStore rs) := by
  induction rs using List.reverseRecOn with
  | nil =>
      refine ⟨by simp [cStore, kvRun, KvState.init], List.nodup_nil,
        by simp [cStore, kvRun, KvState.init], fun _ => by simp [setKeys], fun k => ?_⟩
      refine iff_of_false List.not_mem_nil ?_
      rintro ⟨before, v, after, h, -⟩
      simp at h
  | append_singleton rs r ih =>
      have h := ih fun r' hr' => hrs r' (List.mem_append_left _ hr')
      have hr := hrs r (by simp)
      have hstep : cStore (rs ++ [r]) = C.kvApply (cStore rs) r.toC := by
        rw [cStore, kvRun, List.map_append, List.foldl_append]
        rfl
      rw [hstep]
      cases r with
      | set key value => exact h.set hr
      | delete key => exact h.delete key

/-- What the C store reads for a key. -/
lemma cStore_get (hrs : ∀ r ∈ rs, r.Fits) (key : List Char) :
    (Admitted rs key ∧ lastValue rs key = some (kvGet (cStore rs) key)) ∨
      (¬ Admitted rs key ∧ kvGet (cStore rs) key = []) := by
  have h := tracks_cStore rs hrs
  by_cases hadm : Admitted rs key
  · obtain ⟨p, hp, hkey⟩ := List.mem_map.mp ((h.admitted key).mpr hadm)
    have hall : (cStore rs).pairs.filter (·.used) = (cStore rs).pairs :=
      List.filter_eq_self.mpr h.used
    have hget : kvGet (cStore rs) key = p.value :=
      C.kvGet_of_mem (by rw [KvState.liveKeys, hall]; exact h.distinct) hp
        (C.isFor_iff.mpr ⟨h.used p hp, hkey⟩)
    refine Or.inl ⟨hadm, ?_⟩
    rw [hget, ← hkey]
    exact h.value p hp
  · refine Or.inr ⟨hadm, C.kvGet_of_not_live ?_⟩
    rw [h.live_iff, h.admitted]
    exact hadm

/-- **The two stores agree** exactly when every key that was last set to a nonempty value is live
and was set in time, or is neither. -/
theorem storesAgree_iff (rs : List Request) (hrs : ∀ r ∈ rs, r.Fits) :
    StoresAgree rs ↔ ∀ key value, lastValue rs key = some value → value ≠ [] →
      (Admitted rs key ↔ liveValue rs key ≠ none) := by
  obtain ⟨app, happ, hget⟩ := pyStore_get rs
  have hagree : StoresAgree rs ↔
      ∀ key, kvGet (cStore rs) key = (liveValue rs key).getD [] := by
    constructor
    · rintro ⟨app', happ', h⟩ key
      rw [happ, Option.some.injEq] at happ'
      rw [h key, ← happ', hget]
    · exact fun h => ⟨app, happ, fun key => (h key).trans (by rw [hget])⟩
  rw [hagree]
  constructor
  · intro h key value hlast hne
    have hkey := h key
    rcases cStore_get hrs key with ⟨hadm, hc⟩ | ⟨hadm, hc⟩
    · rw [hlast, Option.some.injEq] at hc
      rw [← hc] at hkey
      refine iff_of_true hadm fun hnone => hne ?_
      rw [hkey, hnone]
      rfl
    · refine iff_of_false hadm (not_not.mpr ?_)
      cases hl : liveValue rs key with
      | none => rfl
      | some v =>
          rw [hc, hl] at hkey
          have := lastValue_of_liveValue rs hl
          rw [hlast, Option.some.injEq] at this
          exact absurd (this.trans hkey.symm) hne
  · intro h key
    rcases cStore_get hrs key with ⟨hadm, hc⟩ | ⟨hadm, hc⟩
    · by_cases hempty : kvGet (cStore rs) key = []
      · rw [hempty]
        rw [hempty] at hc
        cases hl : liveValue rs key with
        | none => rfl
        | some v =>
            have := lastValue_of_liveValue rs hl
            rw [hc, Option.some.injEq] at this
            rw [← this]
            rfl
      · cases hl : liveValue rs key with
        | none => exact absurd hl ((h key _ hc hempty).mp hadm)
        | some v =>
            have := lastValue_of_liveValue rs hl
            rw [hc, Option.some.injEq] at this
            exact this
    · rw [hc]
      cases hl : liveValue rs key with
      | none => rfl
      | some v =>
          have hlast := lastValue_of_liveValue rs hl
          by_cases hempty : v = []
          · rw [hempty]
            rfl
          · have := (h key v hlast hempty).mpr (by rw [hl]; simp)
            exact absurd this hadm

/-- A key that is set twice. -/
def setTwice : List Request := [.set ['a'] ['1'], .set ['a'] ['2']]

theorem storesAgree_setTwice : StoresAgree setTwice := by
  refine (storesAgree_iff setTwice ?_).mpr fun key value hlast _ => ?_
  · intro r hr
    simp only [setTwice, List.mem_cons, List.not_mem_nil, or_false] at hr
    rcases hr with rfl | rfl <;> exact ⟨by decide, by decide⟩
  · have hmem : key ∈ setKeys setTwice := by
      rw [mem_setKeys_iff, hlast]
      simp
    have hkey : key = ['a'] := by simpa [setKeys, setTwice, Request.setKey?] using hmem
    rw [hkey]
    exact iff_of_true ⟨[], ['1'], [.set ['a'] ['2']], rfl, by decide⟩ (by decide)

/-- **A deleted key** keeps its value in the C store. -/
theorem deleted_key_stays :
    (∀ r ∈ [Request.set ['a'] ['1'], .delete ['a']], r.Fits) ∧
      kvGet (cStore [.set ['a'] ['1'], .delete ['a']]) ['a'] = ['1'] ∧
      ¬ StoresAgree [.set ['a'] ['1'], .delete ['a']] := by
  refine ⟨fun r hr => ?_, by decide, ?_⟩
  · simp only [List.mem_cons, List.not_mem_nil, or_false] at hr
    rcases hr with rfl | rfl
    · exact ⟨by decide, by decide⟩
    · change _ < _
      decide
  · rintro ⟨app, happ, hget⟩
    have hnone : app.get ['a'] = none := by
      obtain ⟨app', happ', h⟩ := pyStore_get [.set ['a'] ['1'], .delete ['a']]
      rw [happ, Option.some.injEq] at happ'
      rw [happ', h]
      decide
    have := hget ['a']
    rw [hnone] at this
    revert this
    decide

end RaftRx.Agreement
