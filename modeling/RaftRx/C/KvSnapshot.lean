import RaftRx.C.KvApp
import RaftRx.C.System

/-!
Restoring the key-value table from its snapshot.

A restored table reads like the one that was saved, also after any further commands, exactly when
it is the same table: every pair is in use, no key or value reads as a separator, and the text fits
in the buffer.  Otherwise some further commands tell the two apart, if only by filling both.

* `KvCommand`, `KvState.Sound`: the commands, and what they keep;
* `snapshotLoop_spec`, `restoreLoop_lines`, `restoreLoop_clean`: what is written and what is read;
* `fill`: assigning fresh keys until the table is full;
* `restore_exact_iff`: when a restored table cannot be told from the one that was saved.
-/

namespace RaftRx.C

/-- A command of the application whose texts fit their buffers. -/
structure KvCommand (c : Command) : Prop where
  op : c.op = opSet ∨ c.op = opDel
  key : FitsBuffer maxKey c.key
  value : FitsBuffer maxValue c.value

/-- The keys in use, in the order of their pairs. -/
def KvState.liveKeys (kv : KvState) : List CString := (kv.pairs.filter (·.used)).map (·.key)

/-- What every table the commands lead to keeps. -/
structure KvState.Sound (kv : KvState) : Prop where
  distinct : kv.liveKeys.Nodup
  fits : ∀ p ∈ kv.pairs, FitsBuffer maxKey p.key ∧ FitsBuffer maxValue p.value

variable {kv kv' : KvState} {c : Command} {key : CString} {p : KvPair}

lemma KvState.live_iff : kv.Live key ↔ key ∈ kv.liveKeys := by
  simp only [KvState.Live, KvState.liveKeys, List.mem_map, List.mem_filter, isFor_iff]
  constructor
  · rintro ⟨p, hp, hu, hk⟩
    exact ⟨p, ⟨hp, hu⟩, hk⟩
  · rintro ⟨p, ⟨hp, hu⟩, hk⟩
    exact ⟨p, hp, hu, hk⟩

lemma strncpy_fits {size : ℕ} {s : CString} (h : FitsBuffer size s) : strncpy size s = s :=
  List.take_of_length_le (by rw [FitsBuffer] at h; omega)

/-- The live keys after an assignment. -/
lemma liveKeys_set (kv : KvState) (hc : KvCommand c) (hop : c.op = opSet) :
    (kvApply kv c).liveKeys = kv.liveKeys ∨
      ¬ kv.Live c.key ∧ (kvApply kv c).liveKeys = kv.liveKeys ++ [c.key] := by
  rcases kvApply_set kv hop with ⟨before, p, after, hps, -, hp, h⟩ | ⟨hlive, hlt, h⟩ |
    ⟨hlive, hfull, h⟩
  · obtain ⟨hu, -⟩ := isFor_iff.mp hp
    left
    rw [KvState.liveKeys, KvState.liveKeys, h, hps]
    simp [hu]
  · refine Or.inr ⟨hlive, ?_⟩
    rw [KvState.liveKeys, KvState.liveKeys, h, strncpy_fits hc.key]
    simp
  · exact Or.inl (by rw [h])

lemma KvState.Sound.apply (h : kv.Sound) (hc : KvCommand c) : (kvApply kv c).Sound := by
  have hval := strncpy_fits hc.value
  rcases hc.op with hop | hop
  · refine ⟨?_, ?_⟩
    · rcases liveKeys_set kv hc hop with heq | ⟨hnot, heq⟩
      · rw [heq]
        exact h.distinct
      · rw [heq, List.nodup_append]
        rw [KvState.live_iff] at hnot
        refine ⟨h.distinct, by simp, fun a ha b hb => ?_⟩
        rw [List.mem_singleton.mp hb]
        rintro rfl
        exact hnot ha
    · rcases kvApply_set kv hop with ⟨before, p, after, hps, -, -, heq⟩ | ⟨-, -, heq⟩ | ⟨-, -, heq⟩
      · intro q hq
        rw [heq] at hq
        have hfits := h.fits
        rw [hps] at hfits
        simp only [List.mem_append, List.mem_cons] at hq hfits
        rcases hq with hq | rfl | hq
        · exact hfits q (Or.inl hq)
        · refine ⟨(hfits p (Or.inr (Or.inl rfl))).1, ?_⟩
          dsimp only
          rw [hval]
          exact hc.value
        · exact hfits q (Or.inr (Or.inr hq))
      · intro q hq
        rw [heq] at hq
        rcases List.mem_append.mp hq with hq | hq
        · exact h.fits q hq
        · rw [List.mem_singleton.mp hq, hval, strncpy_fits hc.key]
          exact ⟨hc.key, hc.value⟩
      · rw [heq]
        exact h.fits
  · rcases kvApply_del kv hop with ⟨before, p, after, hps, -, -, heq⟩ | ⟨-, heq⟩
    · have hdistinct := h.distinct
      have hfits := h.fits
      rw [KvState.liveKeys, hps] at hdistinct
      rw [hps] at hfits
      have hless : (kvApply kv c).liveKeys = ((before ++ after).filter (·.used)).map (·.key) := by
        rw [KvState.liveKeys, heq]
        simp
      refine ⟨?_, fun q hq => ?_⟩
      · rw [hless]
        exact hdistinct.sublist (((List.sublist_cons_self p after).append_left before).filter _
          |>.map _)
      · rw [heq] at hq
        simp only [List.mem_append, List.mem_cons] at hq hfits
        rcases hq with hq | rfl | hq
        · exact hfits q (Or.inl hq)
        · exact hfits p (Or.inr (Or.inl rfl))
        · exact hfits q (Or.inr (Or.inr hq))
    · rw [heq]
      exact h

lemma KvState.Sound.run (cs : List Command) (hcs : ∀ c ∈ cs, KvCommand c) :
    ∀ {kv : KvState}, kv.Sound → (kvRun kv cs).Sound := by
  induction cs with
  | nil => exact fun h => h
  | cons c cs ih =>
      exact fun h => ih (fun c' hc' => hcs c' (List.mem_cons_of_mem _ hc'))
        (h.apply (hcs c List.mem_cons_self))

lemma KvState.sound_init : KvState.init.Sound := ⟨List.nodup_nil, by simp [KvState.init]⟩

/-! ### What is written -/

/-- The text of some pairs. -/
def pairLines (ps : List KvPair) : List Char := ps.flatMap pairLine

lemma length_pairLine (p : KvPair) : (pairLine p).length = p.key.length + p.value.length + 2 := by
  simp only [pairLine, List.length_append, List.length_cons, List.length_nil]
  omega

/-- **The snapshot** is the text of the first pairs in use: of all of them, if it fits. -/
lemma snapshotLoop_spec (ps : List KvPair) : ∀ out : List Char, out.length < maxSnapshotSize →
    ∃ written, written <+: ps.filter (·.used) ∧ snapshotLoop ps out = out ++ pairLines written ∧
      (written = ps.filter (·.used) ↔
        out.length + (pairLines (ps.filter (·.used))).length < maxSnapshotSize) := by
  induction ps with
  | nil =>
      intro out hout
      exact ⟨[], List.prefix_rfl, by simp [snapshotLoop, pairLines], by simp [pairLines, hout]⟩
  | cons p ps ih =>
      intro out hout
      rw [snapshotLoop]
      cases hu : p.used with
      | false =>
          obtain ⟨written, h1, h2, h3⟩ := ih out hout
          rw [if_pos rfl, List.filter_cons_of_neg (by simp [hu])]
          exact ⟨written, h1, h2, h3⟩
      | true =>
          have hcons : (p :: ps).filter (·.used) = p :: ps.filter (·.used) :=
            List.filter_cons_of_pos (by simp [hu])
          have htext : (pairLines (p :: ps.filter (·.used))).length
              = (pairLine p).length + (pairLines (ps.filter (·.used))).length := by
            simp [pairLines]
          rw [hcons, htext, if_neg (by simp), if_neg (by omega)]
          split
          · rename_i hfull
            refine ⟨[], List.nil_prefix, by simp [pairLines], ?_⟩
            refine iff_of_false (by simp) (by omega)
          · rename_i hroom
            obtain ⟨written, h1, h2, h3⟩ := ih (out ++ pairLine p) (by
              rw [List.length_append]
              omega)
            refine ⟨p :: written, (List.cons_prefix_cons).mpr ⟨rfl, h1⟩, ?_, ?_⟩
            · rw [h2, List.append_assoc]
              rfl
            · rw [List.cons_inj_right, h3, List.length_append]
              omega

/-! ### What is read -/

/-- Neither the key nor the value of the pair reads as a separator. -/
structure PairClean (p : KvPair) : Prop where
  key_ne : p.key ≠ []
  key_eq : '=' ∉ p.key
  key_line : '\n' ∉ p.key
  value_line : '\n' ∉ p.value

lemma findIdx?_append_cons {c : Char} {a rest : List Char} (h : c ∉ a) :
    (a ++ c :: rest).findIdx? (· = c) = some a.length := by
  have hnone : a.findIdx? (fun x => decide (x = c)) = none := by
    rw [List.findIdx?_eq_none_iff]
    intro x hx
    simp only [decide_eq_false_iff_not]
    rintro rfl
    exact h hx
  rw [List.findIdx?_append, hnone, List.findIdx?_cons]
  simp

/-- One round of the loop on the line of a clean pair. -/
lemma restoreLoop_line (hclean : PairClean p) (hused : p.used = true)
    (hfits : FitsBuffer maxKey p.key ∧ FitsBuffer maxValue p.value) (rest : List Char) (fuel : ℕ)
    (hroom : kv.pairs.length < maxPairs) :
    restoreLoop (fuel + 1) (pairLine p ++ rest) kv = restoreLoop fuel rest (kv.push p) := by
  have heq : (pairLine p ++ rest).findIdx? (· = '=') = some p.key.length := by
    rw [show pairLine p ++ rest = p.key ++ '=' :: (p.value ++ '\n' :: rest) by simp [pairLine]]
    exact findIdx?_append_cons hclean.key_eq
  have hnl : (pairLine p ++ rest).findIdx? (· = '\n')
      = some (p.key.length + 1 + p.value.length) := by
    rw [show pairLine p ++ rest = (p.key ++ '=' :: p.value) ++ '\n' :: rest by simp [pairLine],
      findIdx?_append_cons]
    · simp only [List.length_append, List.length_cons]
      congr 1
      omega
    · simp only [List.mem_append, List.mem_cons, not_or]
      exact ⟨hclean.key_line, by decide, hclean.value_line⟩
  have hkey : (pairLine p ++ rest).take p.key.length = p.key := by
    rw [pairLine, List.append_assoc, List.take_left' rfl]
  have hvalue : ((pairLine p ++ rest).drop (p.key.length + 1)).take
      (p.key.length + 1 + p.value.length - p.key.length - 1) = p.value := by
    rw [show pairLine p ++ rest = (p.key ++ ['=']) ++ (p.value ++ '\n' :: rest) by
        simp [pairLine], List.drop_left' (by simp), List.take_left' (by omega)]
  have hrest : (pairLine p ++ rest).drop (p.key.length + 1 + p.value.length + 1) = rest := by
    rw [List.drop_left' (by rw [length_pairLine]; omega)]
  have hne : pairLine p ++ rest ≠ [] := by simp [pairLine]
  have hlen : p.key.length ≠ 0 := by
    rw [Ne, List.length_eq_zero_iff]
    exact hclean.key_ne
  obtain ⟨hk, hv⟩ := hfits
  rw [FitsBuffer] at hk hv
  rw [restoreLoop, if_neg (by rw [not_or]; exact ⟨hne, by omega⟩), heq, hnl]
  dsimp only
  rw [if_neg (by omega), hkey, hvalue, hrest, if_neg (by omega)]
  congr 2
  rw [← hused]

/-- **The text of clean pairs is read back.** -/
lemma restoreLoop_lines (ps : List KvPair) (hps : ∀ p ∈ ps, PairClean p ∧ p.used = true ∧
    FitsBuffer maxKey p.key ∧ FitsBuffer maxValue p.value) : ∀ (fuel : ℕ) (kv : KvState),
      (pairLines ps).length ≤ fuel → kv.pairs.length + ps.length ≤ maxPairs →
      (restoreLoop fuel (pairLines ps) kv).pairs = kv.pairs ++ ps := by
  induction ps with
  | nil =>
      intro fuel kv _ _
      cases fuel with
      | zero => simp [restoreLoop]
      | succ fuel => simp [restoreLoop, pairLines]
  | cons p ps ih =>
      intro fuel kv hfuel hlen
      rw [List.length_cons] at hlen
      have htext : pairLines (p :: ps) = pairLine p ++ pairLines ps := by simp [pairLines]
      rw [htext, List.length_append, length_pairLine] at hfuel
      obtain ⟨hclean, hused, hfits⟩ := hps p List.mem_cons_self
      obtain ⟨fuel, rfl⟩ : ∃ k, fuel = k + 1 := ⟨fuel - 1, by omega⟩
      have hpush : (kv.push p).pairs = kv.pairs ++ [p] := KvState.push_of_room (by omega)
      rw [htext, restoreLoop_line hclean hused hfits _ _ (by omega),
        ih (fun q hq => hps q (List.mem_cons_of_mem _ hq)) fuel (kv.push p) (by omega)
          (by rw [hpush, List.length_append, List.length_singleton]; omega), hpush,
        List.append_assoc, List.singleton_append]

/-- **Whatever the text is**, the pairs read from it are clean. -/
lemma restoreLoop_clean (fuel : ℕ) : ∀ (text : List Char) (kv : KvState),
    (∀ p ∈ kv.pairs, PairClean p) → ∀ p ∈ (restoreLoop fuel text kv).pairs, PairClean p := by
  induction fuel with
  | zero => exact fun _ _ h => h
  | succ fuel ih =>
      intro text kv h
      rw [restoreLoop]
      split
      · exact h
      · rename_i hgo
        rw [not_or, not_le] at hgo
        split
        · rename_i eq nl heq hnl
          split
          · exact h
          · rename_i hlt
            dsimp only
            split
            · exact ih _ kv h
            · rename_i hok
              refine ih _ _ fun p hp => ?_
              rw [KvState.push_of_room hgo.2] at hp
              rcases List.mem_append.mp hp with hp | hp
              · exact h p hp
              · rw [List.mem_singleton.mp hp]
                rw [List.findIdx?_eq_some_iff_getElem] at heq hnl
                obtain ⟨heq, -, hbefore⟩ := heq
                obtain ⟨hnl, -, hline⟩ := hnl
                refine ⟨fun hnil => hok (Or.inl (List.length_eq_zero_iff.mpr hnil)), fun hmem => ?_,
                  fun hmem => ?_, fun hmem => ?_⟩
                · obtain ⟨i, hi, hget⟩ := List.mem_iff_getElem.mp hmem
                  rw [List.getElem_take] at hget
                  rw [List.length_take] at hi
                  simpa [hget] using hbefore i (by omega)
                · obtain ⟨i, hi, hget⟩ := List.mem_iff_getElem.mp hmem
                  rw [List.getElem_take] at hget
                  rw [List.length_take] at hi
                  simpa [hget] using hline i (by omega)
                · obtain ⟨i, hi, hget⟩ := List.mem_iff_getElem.mp hmem
                  rw [List.getElem_take, List.getElem_drop] at hget
                  rw [List.length_take, List.length_drop] at hi
                  simpa [hget] using hline (eq + 1 + i) (by omega)
        · exact h

/-! ### Filling a table -/

/-- There are as many fresh keys as one wants. -/
lemma exists_fresh (taken : List CString) (m : ℕ) (h : taken.length + m ≤ 10 ^ 9) :
    ∃ keys : List CString, keys.length = m ∧ keys.Nodup ∧
      ∀ k ∈ keys, k ∉ taken ∧ FitsBuffer maxKey k := by
  set numbers : List CString := (List.range (taken.length + m)).map fun i : ℕ => Text.decimal i
    with hnumbers
  have hinj : Function.Injective fun i : ℕ => Text.decimal i := by
    intro i j hij
    have hread : ∀ k : ℕ, Text.atoi (Text.decimal k) = k := fun k => by
      simpa using Text.atoi_decimal (k : ℤ) (by simp [Text.EndsNumber] : Text.EndsNumber [])
    have hi := hread i
    have hj := hread j
    dsimp only at hij
    rw [hij, hj] at hi
    exact_mod_cast hi.symm
  have hnodup : numbers.Nodup := (List.nodup_range).map hinj
  have hold : (numbers.filter (· ∈ taken)).length ≤ taken.length :=
    (List.subperm_of_subset (hnodup.filter _) fun k hk => by
      simpa using (List.mem_filter.mp hk).2).length_le
  have hsum := List.length_eq_length_filter_add (l := numbers) (· ∈ taken)
  have hlen : numbers.length = taken.length + m := by simp [hnumbers]
  have hnew : m ≤ (numbers.filter fun k => !decide (k ∈ taken)).length := by omega
  refine ⟨(numbers.filter fun k => !decide (k ∈ taken)).take m, ?_, ?_, fun k hk => ?_⟩
  · rw [List.length_take, min_eq_left hnew]
  · exact (hnodup.filter _).sublist (List.take_sublist _ _)
  · have hmem := List.mem_filter.mp (List.mem_of_mem_take hk)
    refine ⟨by simpa using hmem.2, ?_⟩
    rw [hnumbers, List.mem_map] at hmem
    obtain ⟨⟨i, hi, rfl⟩, -⟩ := hmem
    rw [List.mem_range] at hi
    have := Text.length_decimal_le (z := (i : ℤ)) (by rw [Int.natAbs_natCast]; omega)
    rw [FitsBuffer, maxKey]
    omega

/-- The assignment of a mark to a key. -/
def markKey (key : CString) : Command := ⟨opSet, key, ['x']⟩

lemma kvCommand_markKey (h : FitsBuffer maxKey key) : KvCommand (markKey key) :=
  ⟨Or.inl rfl, h, by change 1 < 128; decide⟩

/-- **Fresh keys are added as long as there is room.** -/
lemma fill_pairs (keys : List CString) : ∀ {kv : KvState}, keys.Nodup →
    (∀ k ∈ keys, ¬ kv.Live k ∧ FitsBuffer maxKey k) →
    (kvRun kv (keys.map markKey)).pairs = kv.pairs ++
      (keys.take (maxPairs - kv.pairs.length)).map fun k => ⟨k, ['x'], true⟩ := by
  induction keys with
  | nil =>
      intro kv _ _
      simp [kvRun]
  | cons k keys ih =>
      intro kv hnodup hkeys
      obtain ⟨hfresh, hfits⟩ := hkeys k List.mem_cons_self
      obtain ⟨hk, hnodup'⟩ := List.nodup_cons.mp hnodup
      have hrun : kvRun kv ((k :: keys).map markKey)
          = kvRun (kvApply kv (markKey k)) (keys.map markKey) := rfl
      rw [hrun]
      rcases kvApply_set kv (c := markKey k) rfl with ⟨before, p, after, hps, -, hp, -⟩ |
        ⟨-, hlt, heq⟩ | ⟨-, hfull, heq⟩
      · exact absurd ⟨p, by rw [hps]; simp, hp⟩ hfresh
      · have hpair : (kvApply kv (markKey k)).pairs = kv.pairs ++ [⟨k, ['x'], true⟩] := by
          rw [heq, show (markKey k).key = k from rfl, strncpy_fits hfits]
          rfl
        rw [ih hnodup' fun k' hk' => ⟨?_, (hkeys k' (List.mem_cons_of_mem _ hk')).2⟩, hpair,
          List.length_append, List.length_singleton, List.append_assoc,
          show maxPairs - kv.pairs.length = (maxPairs - (kv.pairs.length + 1)) + 1 by omega,
          List.take_succ_cons, List.map_cons, List.singleton_append]
        rintro ⟨q, hq, hfor⟩
        rw [hpair] at hq
        rcases List.mem_append.mp hq with hq | hq
        · exact (hkeys k' (List.mem_cons_of_mem _ hk')).1 ⟨q, hq, hfor⟩
        · rw [List.mem_singleton.mp hq] at hfor
          have hsame : k = k' := (isFor_iff.mp hfor).2
          exact hk (hsame ▸ hk')
      · have hnone : maxPairs - kv.pairs.length = 0 := by omega
        rw [heq, ih hnodup' fun k' hk' => hkeys k' (List.mem_cons_of_mem _ hk'), hnone]
        simp

/-- The keys in use after filling. -/
lemma fill_live {keys : List CString} (hnodup : keys.Nodup)
    (hkeys : ∀ k ∈ keys, ¬ kv.Live k ∧ FitsBuffer maxKey k) :
    (kvRun kv (keys.map markKey)).Live key ↔
      kv.Live key ∨ key ∈ keys.take (maxPairs - kv.pairs.length) := by
  rw [KvState.Live, fill_pairs keys hnodup hkeys, KvState.Live]
  constructor
  · rintro ⟨p, hp, hfor⟩
    rcases List.mem_append.mp hp with hp | hp
    · exact Or.inl ⟨p, hp, hfor⟩
    · obtain ⟨k, hk, rfl⟩ := List.mem_map.mp hp
      have hsame : k = key := (isFor_iff.mp hfor).2
      exact Or.inr (hsame ▸ hk)
  · rintro (⟨p, hp, hfor⟩ | hk)
    · exact ⟨p, List.mem_append_left _ hp, hfor⟩
    · exact ⟨⟨key, ['x'], true⟩, List.mem_append_right _ (List.mem_map.mpr ⟨key, hk, rfl⟩),
        isFor_iff.mpr ⟨rfl, rfl⟩⟩

/-- A key in use can be assigned, also in a full table. -/
lemma kvGet_mark_live (h : kv.Live key) : kvGet (kvApply kv (markKey key)) key = ['x'] := by
  rcases kvApply_set kv (c := markKey key) rfl with ⟨before, p, after, -, hbefore, hp, heq⟩ |
    ⟨hno, -, -⟩ | ⟨hno, -, -⟩
  · exact kvGet_of_split heq hbefore (isFor_iff.mpr (isFor_iff.mp hp))
  · exact absurd h hno
  · exact absurd h hno

/-- So can a new key in a table with room. -/
lemma kvGet_mark_room (h : kv.pairs.length < maxPairs) (hfits : FitsBuffer maxKey key) :
    kvGet (kvApply kv (markKey key)) key = ['x'] := by
  by_cases hlive : kv.Live key
  · exact kvGet_mark_live hlive
  · rcases kvApply_set kv (c := markKey key) rfl with ⟨before, p, after, hps, -, hp, -⟩ |
      ⟨-, -, heq⟩ | ⟨-, hfull, -⟩
    · exact absurd ⟨p, by rw [hps]; simp, hp⟩ hlive
    · refine kvGet_of_split heq (fun q hq => ?_) ?_
      · by_contra hfor
        exact hlive ⟨q, hq, by simpa using hfor⟩
      · exact isFor_iff.mpr ⟨rfl, strncpy_fits hfits⟩
    · omega

/-- A new key is refused by a full table. -/
lemma kvGet_mark_full (h : kv.pairs.length = maxPairs) (hno : ¬ kv.Live key) :
    kvGet (kvApply kv (markKey key)) key = [] := by
  rcases kvApply_set kv (c := markKey key) rfl with ⟨before, p, after, hps, -, hp, -⟩ |
    ⟨-, hlt, -⟩ | ⟨-, -, heq⟩
  · exact absurd ⟨p, by rw [hps]; simp, hp⟩ hno
  · omega
  · rw [heq]
    exact kvGet_of_not_live hno

/-! ### Telling tables apart -/

/-- No further commands tell the tables apart. -/
def Indistinguishable (kv kv' : KvState) : Prop :=
  ∀ cs : List Command, (∀ c ∈ cs, KvCommand c) → ∀ key, kvGet (kvRun kv cs) key = kvGet (kvRun kv' cs) key

lemma Indistinguishable.symm (h : Indistinguishable kv kv') : Indistinguishable kv' kv :=
  fun cs hcs key => (h cs hcs key).symm

/-- Keys that neither table has in use, nor the given one is among them. -/
lemma exists_fresh_both (kv kv' : KvState) (key : CString) {m : ℕ} (hm : m ≤ maxPairs) :
    ∃ keys : List CString, keys.length = m ∧ keys.Nodup ∧ key ∉ keys ∧
      (∀ k ∈ keys, ¬ kv.Live k ∧ FitsBuffer maxKey k) ∧
      ∀ k ∈ keys, ¬ kv'.Live k ∧ FitsBuffer maxKey k := by
  have hlive : ∀ kv : KvState, kv.liveKeys.length ≤ maxPairs := fun kv => by
    rw [KvState.liveKeys, List.length_map]
    exact (List.length_filter_le _ _).trans kv.length_le
  obtain ⟨keys, hlen, hnodup, hkeys⟩ := exists_fresh (key :: (kv.liveKeys ++ kv'.liveKeys)) m (by
    have h1 := hlive kv
    have h2 := hlive kv'
    rw [List.length_cons, List.length_append]
    rw [maxPairs] at hm h1 h2
    omega)
  simp only [List.mem_cons, List.mem_append, not_or] at hkeys
  refine ⟨keys, hlen, hnodup, fun hk => (hkeys key hk).1.1 rfl, fun k hk => ?_, fun k hk => ?_⟩
  · exact ⟨fun h => (hkeys k hk).1.2.1 (KvState.live_iff.mp h), (hkeys k hk).2⟩
  · exact ⟨fun h => (hkeys k hk).1.2.2 (KvState.live_iff.mp h), (hkeys k hk).2⟩

/-- **A table with fewer pairs takes more new keys.** -/
lemma Indistinguishable.length_le (h : Indistinguishable kv kv') :
    kv'.pairs.length ≤ kv.pairs.length := by
  by_contra hlt
  rw [not_le] at hlt
  have hmax := kv'.length_le
  obtain ⟨keys, hlen, hnodup, -, hfresh, hfresh'⟩ :=
    exists_fresh_both kv kv' [] (Nat.sub_le maxPairs (kv'.pairs.length))
  -- filled, the second table is full and the first is not
  have hroom : (kvRun kv (keys.map markKey)).pairs.length < maxPairs := by
    rw [fill_pairs keys hnodup hfresh, List.length_append, List.length_map, List.length_take]
    omega
  have hfull : (kvRun kv' (keys.map markKey)).pairs.length = maxPairs := by
    rw [fill_pairs keys hnodup hfresh', List.length_append, List.length_map, List.length_take]
    omega
  obtain ⟨more, hone, -, -, hmore, hmore'⟩ := exists_fresh_both (kvRun kv (keys.map markKey))
    (kvRun kv' (keys.map markKey)) [] (by decide : 1 ≤ maxPairs)
  obtain ⟨k, rfl⟩ := List.length_eq_one_iff.mp hone
  have hcs : ∀ c ∈ keys.map markKey ++ [markKey k], KvCommand c := by
    intro c hc
    rcases List.mem_append.mp hc with hc | hc
    · obtain ⟨k', hk', rfl⟩ := List.mem_map.mp hc
      exact kvCommand_markKey (hfresh k' hk').2
    · rw [List.mem_singleton.mp hc]
      exact kvCommand_markKey (hmore k (by simp)).2
  have hget := h _ hcs k
  rw [kvRun, kvRun, List.foldl_append, List.foldl_append] at hget
  change kvGet (kvApply (kvRun kv _) (markKey k)) k = kvGet (kvApply (kvRun kv' _) (markKey k)) k
    at hget
  rw [kvGet_mark_room hroom (hmore k (by simp)).2, kvGet_mark_full hfull (hmore' k (by simp)).1]
    at hget
  simp at hget

/-- **A full table can assign the keys it has.** -/
lemma Indistinguishable.live (h : Indistinguishable kv kv') (hfits : FitsBuffer maxKey key)
    (hkey : kv.Live key) : kv'.Live key := by
  have hlen : kv'.pairs.length = kv.pairs.length := le_antisymm h.length_le h.symm.length_le
  by_contra hno
  obtain ⟨keys, hm, hnodup, hnot, hfresh, hfresh'⟩ :=
    exists_fresh_both kv kv' key (Nat.sub_le maxPairs (kv.pairs.length))
  have hmax := kv.length_le
  have hfull : (kvRun kv' (keys.map markKey)).pairs.length = maxPairs := by
    rw [fill_pairs keys hnodup hfresh', List.length_append, List.length_map, List.length_take]
    omega
  have hcs : ∀ c ∈ keys.map markKey ++ [markKey key], KvCommand c := by
    intro c hc
    rcases List.mem_append.mp hc with hc | hc
    · obtain ⟨k', hk', rfl⟩ := List.mem_map.mp hc
      exact kvCommand_markKey (hfresh k' hk').2
    · rw [List.mem_singleton.mp hc]
      exact kvCommand_markKey hfits
  have hget := h _ hcs key
  rw [kvRun, kvRun, List.foldl_append, List.foldl_append] at hget
  change kvGet (kvApply (kvRun kv _) (markKey key)) key
    = kvGet (kvApply (kvRun kv' _) (markKey key)) key at hget
  have hlive : (kvRun kv (keys.map markKey)).Live key := (fill_live hnodup hfresh).mpr (Or.inl hkey)
  have hdead : ¬ (kvRun kv' (keys.map markKey)).Live key := by
    rw [fill_live hnodup hfresh', not_or]
    exact ⟨hno, fun hk => hnot (List.mem_of_mem_take hk)⟩
  rw [kvGet_mark_live hlive, kvGet_mark_full hfull hdead] at hget
  simp at hget

/-! ### Restored tables -/

/-- A table whose snapshot holds all of it: every pair is in use and clean, and the text leaves
room for its terminating zero. -/
structure KvState.Faithful (kv : KvState) : Prop where
  used : ∀ p ∈ kv.pairs, p.used = true
  clean : ∀ p ∈ kv.pairs, PairClean p
  fits : (pairLines kv.pairs).length < maxSnapshotSize

/-- In a table with distinct keys a pair in use is the one that is read. -/
lemma kvGet_of_mem (h : kv.liveKeys.Nodup) (hp : p ∈ kv.pairs) (hfor : p.isFor key = true) :
    kvGet kv key = p.value := by
  cases hfind : kv.pairs.find? (KvPair.isFor key) with
  | none =>
      rw [List.find?_eq_none] at hfind
      exact absurd hfor (hfind p hp)
  | some q =>
      have hq := List.find?_some hfind
      obtain ⟨hpu, hpk⟩ := isFor_iff.mp hfor
      obtain ⟨hqu, hqk⟩ := isFor_iff.mp hq
      have hsame : q = p := List.inj_on_of_nodup_map h
        (List.mem_filter.mpr ⟨List.mem_of_find?_eq_some hfind, hqu⟩)
        (List.mem_filter.mpr ⟨hp, hpu⟩) (hqk.trans hpk.symm)
      rw [kvGet, hfind, hsame]

lemma clean_kvRestore (text : List Char) : ∀ p ∈ (kvRestore text).pairs, PairClean p :=
  restoreLoop_clean _ text KvState.init (by simp [KvState.init])

/-- The text of clean pairs is restored. -/
lemma kvRestore_lines {ps : List KvPair} (hps : ∀ p ∈ ps, PairClean p ∧ p.used = true ∧
    FitsBuffer maxKey p.key ∧ FitsBuffer maxValue p.value) (hlen : ps.length ≤ maxPairs) :
    (kvRestore (pairLines ps)).pairs = ps :=
  restoreLoop_lines ps hps _ KvState.init le_rfl (by simpa [KvState.init] using hlen)

/-- A faithful snapshot restores the table itself. -/
lemma kvRestore_of_faithful (hs : kv.Sound) (h : kv.Faithful) : kvRestore (kvSnapshot kv) = kv := by
  have hall : kv.pairs.filter (·.used) = kv.pairs := List.filter_eq_self.mpr h.used
  obtain ⟨written, -, htext, hiff⟩ := snapshotLoop_spec kv.pairs [] (by decide)
  rw [hall] at hiff
  have hwritten : written = kv.pairs := hiff.mpr (by simpa using h.fits)
  refine KvState.ext_pairs ?_
  rw [kvSnapshot, htext, hwritten, List.nil_append]
  exact kvRestore_lines (fun p hp => ⟨h.clean p hp, h.used p hp, hs.fits p hp⟩) kv.length_le

/-- What cannot be told from its restored snapshot is clean where it is in use. -/
lemma clean_of_indistinguishable (hs : kv.Sound)
    (h : Indistinguishable (kvRestore (kvSnapshot kv)) kv) (hp : p ∈ kv.pairs)
    (hu : p.used = true) : PairClean p := by
  have hfor : p.isFor p.key = true := isFor_iff.mpr ⟨hu, rfl⟩
  obtain ⟨q, hq, hqfor⟩ := h.symm.live (hs.fits p hp).1 ⟨p, hp, hfor⟩
  have hqkey := (isFor_iff.mp hqfor).2
  have hclean := clean_kvRestore (kvSnapshot kv)
  have hvalue : '\n' ∉ kvGet (kvRestore (kvSnapshot kv)) p.key := by
    rw [kvGet]
    split
    · rename_i r hr
      exact (hclean r (List.mem_of_find?_eq_some hr)).value_line
    · simp
  have hget : kvGet (kvRestore (kvSnapshot kv)) p.key = kvGet kv p.key := h [] (by simp) p.key
  rw [hget, kvGet_of_mem hs.distinct hp hfor] at hvalue
  have hqclean := hclean q hq
  exact ⟨hqkey ▸ hqclean.key_ne, hqkey ▸ hqclean.key_eq, hqkey ▸ hqclean.key_line, hvalue⟩

/-- **A table that cannot be told from its restored snapshot is faithful.** -/
lemma faithful_of_indistinguishable (hs : kv.Sound)
    (h : Indistinguishable (kvRestore (kvSnapshot kv)) kv) : kv.Faithful := by
  have hclean : ∀ p ∈ kv.pairs.filter (·.used), PairClean p ∧ p.used = true ∧
      FitsBuffer maxKey p.key ∧ FitsBuffer maxValue p.value := by
    intro p hp
    obtain ⟨hp, hu⟩ := List.mem_filter.mp hp
    exact ⟨clean_of_indistinguishable hs h hp hu, hu, hs.fits p hp⟩
  obtain ⟨written, hfirst, htext, hiff⟩ := snapshotLoop_spec kv.pairs [] (by decide)
  have hfilter := List.length_filter_le (fun p : KvPair => p.used) kv.pairs
  have hwritten := hfirst.length_le
  have hrestored : (kvRestore (kvSnapshot kv)).pairs = written := by
    rw [kvSnapshot, htext, List.nil_append]
    exact kvRestore_lines (fun p hp => hclean p (hfirst.subset hp))
      ((hwritten.trans hfilter).trans kv.length_le)
  -- as many pairs as before: all are in use and all are written
  have hcount := h.length_le
  rw [hrestored] at hcount
  have hall : kv.pairs.filter (·.used) = kv.pairs :=
    List.filter_sublist.eq_of_length (by omega)
  have hwhole : written = kv.pairs.filter (·.used) := hfirst.eq_of_length (by omega)
  have hfits := hiff.mp hwhole
  rw [hall] at hclean hfits
  refine ⟨fun p hp => (hclean p hp).2.1, fun p hp => (hclean p hp).1, ?_⟩
  simpa using hfits

/-- **A restored table never diverges from the one that was saved** exactly when every pair is in
use, no key or value reads as a separator, and the text fits in the buffer. -/
theorem restore_exact_iff (cs : List Command) (hcs : ∀ c ∈ cs, KvCommand c) :
    Indistinguishable (kvRestore (kvSnapshot (kvRun KvState.init cs))) (kvRun KvState.init cs) ↔
      (kvRun KvState.init cs).Faithful := by
  have hs := KvState.sound_init.run cs hcs
  refine ⟨faithful_of_indistinguishable hs, fun h => ?_⟩
  rw [kvRestore_of_faithful hs h]
  exact fun _ _ _ => rfl

/-- An assignment. -/
def setKey (key value : String) : Command := ⟨opSet, key.toList, value.toList⟩

/-- A table with a plain pair. -/
theorem restore_exact_plain :
    Indistinguishable (kvRestore (kvSnapshot (kvRun KvState.init [setKey "a" "b=c"])))
      (kvRun KvState.init [setKey "a" "b=c"]) := by
  have hc : ∀ c ∈ [setKey "a" "b=c"], KvCommand c := by
    intro c hc
    rw [List.mem_singleton.mp hc]
    exact ⟨Or.inl rfl, by decide, by decide⟩
  have hpairs : (kvRun KvState.init [setKey "a" "b=c"]).pairs
      = [⟨"a".toList, "b=c".toList, true⟩] := by decide
  refine (restore_exact_iff _ hc).mpr ⟨?_, ?_, ?_⟩
  · rw [hpairs]
    simp
  · rw [hpairs]
    intro p hp
    rw [List.mem_singleton.mp hp]
    exact ⟨by decide, by decide, by decide, by decide⟩
  · rw [hpairs]
    decide

/-- **A separator in a key**: the restored table has another key. -/
theorem restore_moves_key :
    (∀ c ∈ [setKey "a=b" "c"], KvCommand c) ∧
      kvGet (kvRun KvState.init [setKey "a=b" "c"]) "a=b".toList = "c".toList ∧
      kvGet (kvRestore (kvSnapshot (kvRun KvState.init [setKey "a=b" "c"]))) "a=b".toList = [] ∧
      ¬ Indistinguishable (kvRestore (kvSnapshot (kvRun KvState.init [setKey "a=b" "c"])))
        (kvRun KvState.init [setKey "a=b" "c"]) := by
  refine ⟨fun c hc => ?_, by decide, by decide, fun h => ?_⟩
  · rw [List.mem_singleton.mp hc]
    exact ⟨Or.inl rfl, by decide, by decide⟩
  · have hget := h [] (by simp) "a=b".toList
    revert hget
    decide

end RaftRx.C
