import RaftRx.C.Node

/-!
The key-value application of the C library (`raft_kv_app.c`).

The table is an array of pairs that only grows: a deletion marks its pair unused, and the pair
keeps its place.  The bytes of a snapshot are a text.

* `KvPair`, `KvState`: the table; its invariant is the size of the array;
* `kvGet`, `kvApply`: `raft_kv_get`, `kv_apply`;
* `kvSnapshot`, `kvRestore`: `kv_snapshot`, `kv_restore_snapshot`;
* `cmdSet`, `cmdDelete`: the commands of the command line client (`cli_fsm.c`);
* `kvApply_set`, `kvApply_del`, `kvApply_other`: what a command does to the table.
-/

namespace RaftRx.C

/-- `RAFT_KV_MAX_PAIRS` -/
def maxPairs : ℕ := 128

/-- `raft_kv_pair_t` -/
structure KvPair where
  key : CString
  value : CString
  used : Bool
  deriving DecidableEq, Repr

/-- The pair is in use for this key. -/
def KvPair.isFor (key : CString) (p : KvPair) : Bool := p.used && decide (p.key = key)

/-- The search loop of `kv_apply`: the first pair in use for the key is changed, if there is one. -/
def updateFirst (key : CString) (f : KvPair → KvPair) : List KvPair → Option (List KvPair)
  | [] => none
  | p :: ps => if p.isFor key then some (f p :: ps) else (updateFirst key f ps).map (p :: ·)

lemma length_updateFirst {key : CString} {f : KvPair → KvPair} :
    ∀ {ps ps' : List KvPair}, updateFirst key f ps = some ps' → ps'.length = ps.length := by
  intro ps
  induction ps with
  | nil =>
      intro ps' h
      simp [updateFirst] at h
  | cons p ps ih =>
      intro ps' h
      rw [updateFirst] at h
      split at h
      · rw [← Option.some.inj h]
        rfl
      · obtain ⟨qs, hqs, rfl⟩ := Option.map_eq_some_iff.mp h
        rw [List.length_cons, List.length_cons, ih hqs]

/-- `raft_kv_state_t` -/
structure KvState where
  pairs : List KvPair
  length_le : pairs.length ≤ maxPairs

namespace KvState

/-- `raft_kv_state_init` -/
def init : KvState := ⟨[], Nat.zero_le _⟩

lemma ext_pairs {kv kv' : KvState} (h : kv.pairs = kv'.pairs) : kv = kv' := by
  cases kv
  cases kv'
  cases h
  rfl

/-- The table with its first pair for the key changed, if there is one. -/
def update (kv : KvState) (key : CString) (f : KvPair → KvPair) : Option KvState :=
  match h : updateFirst key f kv.pairs with
  | some ps => some ⟨ps, by rw [length_updateFirst h]; exact kv.length_le⟩
  | none => none

/-- A pair is added, if there is room. -/
def push (kv : KvState) (p : KvPair) : KvState :=
  if h : kv.pairs.length < maxPairs then
    ⟨kv.pairs ++ [p], by rw [List.length_append, List.length_singleton]; exact h⟩
  else kv

end KvState

/-- `raft_kv_get` -/
def kvGet (kv : KvState) (key : CString) : CString :=
  match kv.pairs.find? (KvPair.isFor key) with
  | some p => p.value
  | none => []

/-- The operation `kv_apply` assigns with. -/
def opSet : CString := "set".toList
/-- The operation `kv_apply` deletes with. -/
def opDel : CString := "del".toList

/-- `kv_apply` -/
def kvApply (kv : KvState) (command : Command) : KvState :=
  if command.op = opSet then
    match kv.update command.key fun p => { p with value := strncpy maxValue command.value } with
    | some kv' => kv'
    | none => kv.push ⟨strncpy maxKey command.key, strncpy maxValue command.value, true⟩
  else if command.op = opDel then
    (kv.update command.key fun p => { p with used := false }).getD kv
  else kv

/-- The commands in order. -/
def kvRun (kv : KvState) (commands : List Command) : KvState := commands.foldl kvApply kv

/-! ### Snapshots -/

/-- What `snprintf` prints for a pair. -/
def pairLine (p : KvPair) : List Char := p.key ++ '=' :: (p.value ++ ['\n'])

/-- The loop of `kv_snapshot`: `out` is what has been written.  A line has to leave room for the
terminating zero; the first one that does not ends the loop. -/
def snapshotLoop : List KvPair → List Char → List Char
  | [], out => out
  | p :: ps, out =>
      if p.used = false then snapshotLoop ps out
      else if maxSnapshotSize ≤ out.length then out
      else if maxSnapshotSize - out.length ≤ (pairLine p).length then out
      else snapshotLoop ps (out ++ pairLine p)

/-- `kv_snapshot` with a buffer of `RAFT_MAX_SNAPSHOT_SIZE` bytes. -/
def kvSnapshot (kv : KvState) : List Char := snapshotLoop kv.pairs []

/-- The loop of `kv_restore_snapshot` on the rest of the text; every round but the last reads at
least one character, so `fuel` is the length of the text. -/
def restoreLoop : ℕ → List Char → KvState → KvState
  | 0, _, kv => kv
  | fuel + 1, p, kv =>
      if p = [] ∨ maxPairs ≤ kv.pairs.length then kv
      else match p.findIdx? (· = '='), p.findIdx? (· = '\n') with
        | some eq, some nl =>
            if nl ≤ eq then kv
            else
              let key := p.take eq
              let value := (p.drop (eq + 1)).take (nl - eq - 1)
              if key.length = 0 ∨ maxKey ≤ key.length ∨ maxValue ≤ value.length then
                restoreLoop fuel (p.drop (nl + 1)) kv
              else restoreLoop fuel (p.drop (nl + 1)) (kv.push ⟨key, value, true⟩)
        | _, _ => kv

/-- `kv_restore_snapshot` -/
def kvRestore (text : List Char) : KvState := restoreLoop text.length text KvState.init

/-! ### Client commands -/

/-- The command of `cmd_set`. -/
def cmdSet (key value : CString) : Command :=
  { op := strncpy maxOp opSet, key := strncpy maxKey key, value := strncpy maxValue value }

/-- The command of `cmd_delete`. -/
def cmdDelete (key : CString) : Command :=
  { op := strncpy maxOp "delete".toList, key := strncpy maxKey key, value := [] }

/-! ### Reading and writing -/

section Table

variable {kv : KvState} {key key' : CString} {p : KvPair} {ps : List KvPair} {f : KvPair → KvPair}

/-- A pair is in use for the key. -/
def KvState.Live (kv : KvState) (key : CString) : Prop := ∃ p ∈ kv.pairs, p.isFor key = true

lemma isFor_iff : p.isFor key = true ↔ p.used = true ∧ p.key = key := by
  rw [KvPair.isFor, Bool.and_eq_true, decide_eq_true_eq]

lemma updateFirst_eq_none : updateFirst key f ps = none ↔ ∀ p ∈ ps, p.isFor key = false := by
  induction ps with
  | nil => simp [updateFirst]
  | cons p ps ih =>
      rw [updateFirst]
      split
      · rename_i h
        refine iff_of_false (by simp) fun hno => ?_
        have := hno p List.mem_cons_self
        rw [h] at this
        exact Bool.noConfusion this
      · rename_i h
        rw [Option.map_eq_none_iff, ih, List.forall_mem_cons]
        exact ⟨fun hps => ⟨by simpa using h, hps⟩, fun hps => hps.2⟩

/-- The first pair in use for the key, and what is around it. -/
lemma updateFirst_eq_some {ps' : List KvPair} : updateFirst key f ps = some ps' ↔
    ∃ before p after, ps = before ++ p :: after ∧ (∀ q ∈ before, q.isFor key = false) ∧
      p.isFor key = true ∧ ps' = before ++ f p :: after := by
  induction ps generalizing ps' with
  | nil => simp [updateFirst]
  | cons p ps ih =>
      rw [updateFirst]
      split
      · rename_i h
        constructor
        · intro heq
          exact ⟨[], p, ps, rfl, by simp, h, (Option.some.inj heq).symm⟩
        · rintro ⟨before, q, after, hsplit, hbefore, hq, rfl⟩
          cases before with
          | nil =>
              obtain ⟨rfl, rfl⟩ := List.cons.inj hsplit
              rfl
          | cons b before =>
              obtain ⟨rfl, -⟩ := List.cons.inj hsplit
              have := hbefore p List.mem_cons_self
              rw [h] at this
              exact Bool.noConfusion this
      · rename_i h
        rw [Option.map_eq_some_iff]
        constructor
        · rintro ⟨qs, hqs, rfl⟩
          obtain ⟨before, q, after, rfl, hbefore, hq, rfl⟩ := ih.mp hqs
          refine ⟨p :: before, q, after, rfl, ?_, hq, rfl⟩
          rw [List.forall_mem_cons]
          exact ⟨by simpa using h, hbefore⟩
        · rintro ⟨before, q, after, hsplit, hbefore, hq, rfl⟩
          cases before with
          | nil =>
              obtain ⟨rfl, -⟩ := List.cons.inj hsplit
              exact absurd hq h
          | cons b before =>
              obtain ⟨rfl, rfl⟩ := List.cons.inj hsplit
              exact ⟨before ++ f q :: after, ih.mpr ⟨before, q, after, rfl,
                fun r hr => hbefore r (List.mem_cons_of_mem _ hr), hq, rfl⟩, rfl⟩

lemma KvState.update_eq_none : kv.update key f = none ↔ ¬ kv.Live key := by
  have h : kv.update key f = none ↔ updateFirst key f kv.pairs = none := by
    rw [KvState.update]
    split <;> simp_all
  rw [h, updateFirst_eq_none, KvState.Live]
  simp

lemma KvState.update_eq_some {kv' : KvState} : kv.update key f = some kv' ↔
    ∃ before p after, kv.pairs = before ++ p :: after ∧ (∀ q ∈ before, q.isFor key = false) ∧
      p.isFor key = true ∧ kv'.pairs = before ++ f p :: after := by
  rw [← updateFirst_eq_some, KvState.update]
  split
  · rename_i ps h
    constructor
    · intro heq
      rw [← Option.some.inj heq]
      exact h
    · intro heq
      exact congrArg some (KvState.ext_pairs (Option.some.inj (h.symm.trans heq)))
  · rename_i h
    refine iff_of_false (by simp) fun heq => ?_
    simpa using h.symm.trans heq

lemma KvState.push_of_room (h : kv.pairs.length < maxPairs) :
    (kv.push p).pairs = kv.pairs ++ [p] := by
  rw [KvState.push, dif_pos h]

lemma KvState.push_of_full (h : kv.pairs.length = maxPairs) : kv.push p = kv := by
  rw [KvState.push, dif_neg (by omega)]

lemma kvGet_of_not_live (h : ¬ kv.Live key) : kvGet kv key = [] := by
  have hnone : kv.pairs.find? (KvPair.isFor key) = none := by
    rw [List.find?_eq_none]
    exact fun p hp hfor => h ⟨p, hp, hfor⟩
  rw [kvGet, hnone]

/-- What is read is the value of the first pair in use for the key. -/
lemma kvGet_of_split {before after : List KvPair} (hps : kv.pairs = before ++ p :: after)
    (hbefore : ∀ q ∈ before, q.isFor key = false) (hp : p.isFor key = true) :
    kvGet kv key = p.value := by
  have hnone : before.find? (KvPair.isFor key) = none := by
    rw [List.find?_eq_none]
    intro q hq hfor
    rw [hbefore q hq] at hfor
    exact Bool.noConfusion hfor
  rw [kvGet, hps, List.find?_append, hnone, List.find?_cons_of_pos hp]
  rfl

/-! ### What a command does -/

variable {c : Command}

/-- An assignment changes the first pair in use for its key, or adds one if there is room. -/
lemma kvApply_set (kv : KvState) (hop : c.op = opSet) :
    (∃ before p after, kv.pairs = before ++ p :: after ∧ (∀ q ∈ before, q.isFor c.key = false) ∧
      p.isFor c.key = true ∧
      (kvApply kv c).pairs = before ++ { p with value := strncpy maxValue c.value } :: after) ∨
    (¬ kv.Live c.key ∧ kv.pairs.length < maxPairs ∧ (kvApply kv c).pairs =
      kv.pairs ++ [⟨strncpy maxKey c.key, strncpy maxValue c.value, true⟩]) ∨
    (¬ kv.Live c.key ∧ kv.pairs.length = maxPairs ∧ kvApply kv c = kv) := by
  rw [kvApply, if_pos hop]
  cases hup : kv.update c.key fun p => { p with value := strncpy maxValue c.value } with
  | some kv' => exact Or.inl (KvState.update_eq_some.mp hup)
  | none =>
      have hlive := KvState.update_eq_none.mp hup
      rcases kv.length_le.lt_or_eq with hlt | heq
      · exact Or.inr (Or.inl ⟨hlive, hlt, KvState.push_of_room hlt⟩)
      · exact Or.inr (Or.inr ⟨hlive, heq, KvState.push_of_full heq⟩)

/-- A deletion marks the first pair in use for its key. -/
lemma kvApply_del (kv : KvState) (hop : c.op = opDel) :
    (∃ before p after, kv.pairs = before ++ p :: after ∧ (∀ q ∈ before, q.isFor c.key = false) ∧
      p.isFor c.key = true ∧ (kvApply kv c).pairs = before ++ { p with used := false } :: after) ∨
    (¬ kv.Live c.key ∧ kvApply kv c = kv) := by
  rw [kvApply, if_neg (by rw [hop]; decide), if_pos hop]
  cases hup : kv.update c.key fun p => { p with used := false } with
  | some kv' => exact Or.inl (KvState.update_eq_some.mp hup)
  | none => exact Or.inr ⟨KvState.update_eq_none.mp hup, rfl⟩

lemma kvApply_other (kv : KvState) (hset : c.op ≠ opSet) (hdel : c.op ≠ opDel) :
    kvApply kv c = kv := by
  rw [kvApply, if_neg hset, if_neg hdel]

end Table

end RaftRx.C
