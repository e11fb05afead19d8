import RaftRx.Python.Compaction

/-!
What a restarted Python node applies.

`_load_from_storage` restores the application from the snapshot and sets `last_applied` to `0`, not
to the index of the snapshot.  The first dump then counts from index `1`: the entries behind a
snapshot are looked up before the beginning of the list, where Python counts from its end.

* `Env.step`, `Env.steps`: the effect of commands on the application, or the exception;
* `applyAll_trace`: the lookups of the apply loop on a log that was never compacted;
* `firstTick`, `Replayed`: the first tick after a restart and what it is meant to apply;
* `replayed_iff`: it applies that exactly when the loaded snapshot index is `0`, or nothing at all;
* `replayed_twice`: with a snapshot, an entry is applied twice.
-/

namespace RaftRx.Python

open Protocol (Role)

variable {σ ν : Type} {E : Env σ ν} {F : Disk ν} {x y : Node σ ν}

/-! ### Commands -/

/-- The effect of a committed command on the application; `none` is an exception of its handler. -/
def Env.step (E : Env σ ν) (user : σ) (command : Command) : Option σ :=
  if command.op = "cluster.set_maxlog".toList then
    (command.value.bind E.int).map fun _ => user
  else if command.op = "cluster.enter_joint".toList ∨ command.op = "cluster.leave_joint".toList then
    (command.value.bind (Node.decodeMembers E)).map fun _ => user
  else E.apply user command

/-- The effect of several commands. -/
def Env.steps (E : Env σ ν) (user : σ) (commands : List Command) : Option σ :=
  commands.foldlM E.step user

lemma applyEnterJoint_user (x : Node σ ν) (command : Command) :
    (x.applyEnterJoint E command).map Node.user =
      (command.value.bind (Node.decodeMembers E)).map fun _ => x.user := by
  rw [Node.applyEnterJoint]
  cases command.value with
  | none => rfl
  | some encoded =>
      simp only [Option.bind_eq_bind, Option.bind_some]
      cases Node.decodeMembers E encoded with
      | none => rfl
      | some target =>
          simp only [Option.bind_some, Option.map_some]
          split <;> rfl

lemma applyLeaveJoint_user (x : Node σ ν) (command : Command) :
    (x.applyLeaveJoint E command).map Node.user =
      (command.value.bind (Node.decodeMembers E)).map fun _ => x.user := by
  rw [Node.applyLeaveJoint]
  cases command.value with
  | none => rfl
  | some encoded =>
      simp only [Option.bind_eq_bind, Option.bind_some]
      cases Node.decodeMembers E encoded with
      | none => rfl
      | some target =>
          simp only [Option.bind_some, Option.map_some]
          split
          · rfl
          · rw [Option.map_some]
            split <;> rfl

/-- **A handler raises** exactly when the command has no effect on the application. -/
lemma applyCommittedCommand_user (x : Node σ ν) (command : Command) :
    (x.applyCommittedCommand E command).map Node.user = E.step x.user command := by
  rw [Node.applyCommittedCommand, Env.step]
  split
  · cases command.value with
    | none => rfl
    | some value =>
        simp only [Option.bind_eq_bind, Option.bind_some]
        cases E.int value <;> rfl
  · split
    · rename_i hop
      rw [if_pos (Or.inl hop)]
      exact applyEnterJoint_user x command
    · rename_i hjoint
      split
      · rename_i hop
        rw [if_pos (Or.inr hop)]
        exact applyLeaveJoint_user x command
      · rename_i hleave
        rw [if_neg (not_or.mpr ⟨hjoint, hleave⟩)]
        cases E.apply x.user command <;> rfl

/-! ### The apply loop -/

/-- The lookups of entries from index `j + 1` on, each of which finds its entry. -/
def lookups (j : ℤ) (es : List LogEntry) : List (ℤ × Option LogEntry) :=
  es.mapIdx fun i e => (j + 1 + i, some e)

@[simp] lemma lookups_nil (j : ℤ) : lookups j [] = [] := rfl

lemma lookups_cons (j : ℤ) (e : LogEntry) (es : List LogEntry) :
    lookups j (e :: es) = (j + 1, some e) :: lookups (j + 1) es := by
  simp only [lookups, List.mapIdx_cons, Nat.cast_zero, add_zero, Nat.cast_add, Nat.cast_one]
  congr 2
  funext i e
  congr 1
  ring

/-- The first lookup is the one after `last_applied`. -/
lemma applyAll_head (k : ℕ) (h : x.lastApplied < x.commitIndex) :
    ((Node.applyAll E (k + 1) x).1.head?).map Prod.fst = some (x.lastApplied + 1) := by
  rw [Node.applyAll, if_pos h]
  dsimp only
  split
  · rfl
  · split <;> rfl

/-- **The lookups of the apply loop** on a log that starts at index `1`: one for each entry up to
the commit index, unless a handler raises before the last of them. -/
lemma applyAll_trace : ∀ (es rest : List LogEntry) (x : Node σ ν) (j : ℕ),
    x.snapshotLastIncludedIndex = 0 → x.lastApplied = j → x.log.drop j = es ++ rest →
    x.commitIndex = j + es.length →
    ((Node.applyAll E es.length x).1 = lookups j es ↔
      (E.steps x.user (es.dropLast.map LogEntry.command)).isSome = true)
  | [], rest, x, j, _, _, _, _ => by
      simp [Node.applyAll, Env.steps]
  | e :: es, rest, x, j, hs, hj, hlog, hc => by
      have hlt : x.lastApplied < x.commitIndex := by
        rw [hj, hc, List.length_cons]
        push_cast
        omega
      have hget : x.log[j]? = some e := by
        have h0 : (x.log.drop j)[0]? = some e := by rw [hlog]; rfl
        rwa [List.getElem?_drop, add_zero] at h0
      have hentry : Node.entryAtIndex { x with lastApplied := x.lastApplied + 1 }
          (x.lastApplied + 1) = some e := by
        rw [Node.entryAtIndex, Node.physicalIndex, Node.logBaseIndex]
        rw [show x.lastApplied + 1 - (x.snapshotLastIncludedIndex + 1) = (j : ℤ) by omega]
        exact (item_natCast x.log j).trans hget
      have huser := applyCommittedCommand_user (E := E)
        { x with lastApplied := x.lastApplied + 1 } e.command
      rw [List.length_cons, Node.applyAll, if_pos hlt, lookups_cons]
      simp only [hentry]
      cases happ : Node.applyCommittedCommand E { x with lastApplied := x.lastApplied + 1 }
          e.command with
      | none =>
          -- the handler raises: the trace ends here
          rw [happ, Option.map_none] at huser
          dsimp only
          cases es with
          | nil => simp [hj, Env.steps]
          | cons e' es =>
              rw [lookups_cons, List.dropLast_cons_of_ne_nil (List.cons_ne_nil e' es),
                List.map_cons, Env.steps, List.foldlM_cons, ← huser]
              simp
      | some y =>
          rw [happ, Option.map_some] at huser
          obtain ⟨hkept, -, hlast⟩ := applyCommittedCommand_cases happ
          have hrest : x.log.drop (j + 1) = es ++ rest := by
            rw [← List.drop_drop, hlog]
            rfl
          have ih := applyAll_trace es rest y (j + 1) (hkept.snapshotIndex.trans hs)
            (by rw [hlast]; push_cast; omega) (by rw [hkept.log]; exact hrest)
            (by rw [hkept.commitIndex, hc, List.length_cons]; push_cast; ring)
          dsimp only
          push_cast at ih
          rw [hj, List.cons.injEq, and_iff_right rfl, ih]
          cases es with
          | nil => simp [Env.steps]
          | cons e' es =>
              rw [List.dropLast_cons_of_ne_nil (List.cons_ne_nil e' es), List.map_cons, Env.steps,
                Env.steps, List.foldlM_cons, ← huser]
              rfl

/-! ### The first tick -/

/-- The first tick of a node that is constructed on the files, with no message pending. -/
def firstTick (E : Env σ ν) (config : NodeConfig) (disk : Disk ν) (user : σ)
    (clockMs latchMs actMs : ℤ) (commands : List Command) : Option (Node.Dumped σ ν) :=
  (Node.latchInputs { Node.init E config disk user clockMs with clockMs := latchMs } []
    commands).bind fun x =>
      (Node.transition E disk { x with clockMs := actMs }).map fun y => y.dumpOutputs E

/-- **The restart replays** exactly the entries from behind the snapshot to the commit index, in
order, and looks no other index up. -/
def Replayed (E : Env σ ν) (config : NodeConfig) (disk : Disk ν) (user : σ)
    (clockMs latchMs actMs : ℤ) (commands : List Command) : Prop :=
  let x := Node.init E config disk user clockMs
  ∃ d, firstTick E config disk user clockMs latchMs actMs commands = some d ∧
    d.applied = lookups x.snapshotLastIncludedIndex
      (x.log.take (x.commitIndex - x.snapshotLastIncludedIndex).toNat)

/-- A follower with nothing pending can only time out. -/
lemma transition_idle (hrole : x.role = .follower) (ha : x.pendingAppendEntries = [])
    (hr : x.pendingVoteRequests = []) (hv : x.pendingVotes = []) :
    ∃ y, x.transition E F = some y ∧ y.running = x.running ∧
      y.snapshotLastIncludedIndex = x.snapshotLastIncludedIndex ∧ y.log = x.log ∧
      y.commitIndex = x.commitIndex ∧ y.lastApplied = x.lastApplied ∧ y.user = x.user := by
  rw [Node.transition]
  cases hnext : x.nextTransition with
  | none => exact ⟨x, rfl, rfl, rfl, rfl, rfl, rfl, rfl⟩
  | some t =>
      obtain ⟨hmem, hfrom, hguard⟩ := nextOf_spec hnext
      simp only [Node.roleTransitions, List.mem_cons, List.not_mem_nil, or_false] at hmem
      rcases hmem with rfl | rfl | rfl | rfl | rfl | rfl | rfl | rfl | rfl | rfl | rfl | rfl | rfl |
        rfl | rfl
      · exact ⟨_, rfl, rfl, rfl, rfl, rfl, rfl, rfl⟩
      · simp [Node.hasAppendEntries, ha] at hguard
      · simp [Node.hasVoteRequest, hr] at hguard
      · simp [Node.hasVote, hv] at hguard
      all_goals
        rw [hrole] at hfrom
        exact absurd hfrom (by simp)

/-- The dump of the first tick looks entries up as if it followed the restart at once. -/
lemma firstTick_applied (E : Env σ ν) (config : NodeConfig) (disk : Disk ν) (user : σ)
    (clockMs latchMs actMs : ℤ) (commands : List Command) :
    ∃ d, firstTick E config disk user clockMs latchMs actMs commands = some d ∧
      ∃ y : Node σ ν, d.applied = (Node.applyAll E y.rounds y.saved).1 ∧
        y.snapshotLastIncludedIndex =
          (Node.init E config disk user clockMs).snapshotLastIncludedIndex ∧
        y.log = (Node.init E config disk user clockMs).log ∧
        y.commitIndex = (Node.init E config disk user clockMs).commitIndex ∧
        y.lastApplied = 0 ∧ y.user = (Node.init E config disk user clockMs).user := by
  obtain ⟨y, hy, hrun, hs, hl, hc, hlast, hu⟩ := transition_idle (E := E) (F := disk)
    (x := { Node.init E config disk user clockMs with clockMs := actMs }) rfl rfl rfl rfl
  refine ⟨y.dumpOutputs E, ?_, y, ?_, hs, hl, hc, hlast, hu⟩
  · have hlatch : Node.latchInputs { Node.init E config disk user clockMs with clockMs := latchMs }
        [] commands = some { Node.init E config disk user clockMs with clockMs := latchMs } := rfl
    rw [firstTick, hlatch, Option.bind_some]
    show (Node.transition E disk { Node.init E config disk user clockMs with
      clockMs := actMs }).map _ = _
    rw [hy]
    rfl
  · rw [dumpOutputs_running (hrun.trans rfl)]

/-- The commit index a node loads is not behind its log. -/
lemma init_commit_le (E : Env σ ν) (config : NodeConfig) (disk : Disk ν) (user : σ) (clockMs : ℤ) :
    (Node.init E config disk user clockMs).commitIndex ≤
      (Node.init E config disk user clockMs).snapshotLastIncludedIndex +
        (Node.init E config disk user clockMs).log.length :=
  min_le_right _ _

lemma lookups_head (j : ℤ) (es : List LogEntry) :
    ∀ i ∈ (lookups j es).head?.map Prod.fst, i = j + 1 := by
  cases es with
  | nil => simp
  | cons e es =>
      rw [lookups_cons]
      simp

/-- A node that has applied nothing looks nothing up when nothing is committed. -/
lemma applyAll_nothing (h : x.commitIndex ≤ 0) : (Node.applyAll E x.commitIndex.toNat y).1 = [] := by
  rw [Int.toNat_of_nonpos h]
  rfl

/-- **The loop from index `1`** against a log whose base is `s`. -/
lemma applyAll_iff {s : ℤ} (hs : x.snapshotLastIncludedIndex = s) (hlast : x.lastApplied = 0)
    (hle : x.commitIndex ≤ s + x.log.length) :
    (Node.applyAll E x.commitIndex.toNat x).1 =
        lookups s (x.log.take (x.commitIndex - s).toNat) ↔
      (s = 0 ∨ x.commitIndex ≤ min 0 s) ∧
        (E.steps x.user ((x.log.take x.commitIndex.toNat).dropLast.map
          LogEntry.command)).isSome = true := by
  by_cases hmin : x.commitIndex ≤ min 0 s
  · -- nothing is looked up and nothing is to be applied
    obtain ⟨hzero, hbase⟩ := le_min_iff.mp hmin
    rw [applyAll_nothing hzero, Int.toNat_of_nonpos hzero,
      Int.toNat_of_nonpos (by omega : x.commitIndex - s ≤ 0)]
    simp [hmin, Env.steps]
  · by_cases hpos : 0 < x.commitIndex
    · by_cases hbase : s = 0
      · -- the log starts at index 1
        subst hbase
        have hlen : (x.log.take x.commitIndex.toNat).length = x.commitIndex.toNat := by
          rw [List.length_take]
          omega
        have htrace := applyAll_trace (E := E) (x.log.take x.commitIndex.toNat)
          (x.log.drop x.commitIndex.toNat) x 0 hs hlast
          (by rw [List.drop_zero, List.take_append_drop]) (by rw [hlen]; omega)
        rw [hlen, Nat.cast_zero] at htrace
        rw [sub_zero, htrace]
        simp
      · -- the first lookup is at index 1, behind the base
        refine iff_of_false (fun heq => ?_) (fun h => h.1.elim hbase hmin)
        obtain ⟨k, hk⟩ : ∃ k, x.commitIndex.toNat = k + 1 := ⟨x.commitIndex.toNat - 1, by omega⟩
        have hhead := applyAll_head (E := E) (x := x) k (by omega)
        rw [← hk, heq, hlast] at hhead
        have h1 := lookups_head s (x.log.take (x.commitIndex - s).toNat) _ hhead
        omega
    · -- entries are to be applied, and the loop does not start
      rw [not_lt] at hpos
      have hgap : 0 < x.commitIndex - s := by
        rw [le_min_iff, not_and, not_le] at hmin
        have := hmin hpos
        omega
      refine iff_of_false (fun heq => ?_) (fun h => h.1.elim (by omega) hmin)
      rw [applyAll_nothing hpos] at heq
      have hlen : (lookups s (x.log.take (x.commitIndex - s).toNat)).length = 0 := by
        rw [← heq]
        rfl
      rw [lookups, List.length_mapIdx, List.length_take] at hlen
      omega

/-- **What a restart replays.**  The loop counts from index `1`: it is right when the loaded
snapshot index is `0` or nothing is committed, and no handler raises before the last entry. -/
theorem replayed_iff (E : Env σ ν) (config : NodeConfig) (disk : Disk ν) (user : σ)
    (clockMs latchMs actMs : ℤ) (commands : List Command) :
    Replayed E config disk user clockMs latchMs actMs commands ↔
      let x := Node.init E config disk user clockMs
      (x.snapshotLastIncludedIndex = 0 ∨ x.commitIndex ≤ min 0 x.snapshotLastIncludedIndex) ∧
        (E.steps x.user ((x.log.take x.commitIndex.toNat).dropLast.map
          LogEntry.command)).isSome = true := by
  obtain ⟨d, hd, y, happlied, hs, hl, hc, hlast, hu⟩ :=
    firstTick_applied E config disk user clockMs latchMs actMs commands
  have hle := init_commit_le E config disk user clockMs
  rw [Replayed]
  dsimp only
  generalize Node.init E config disk user clockMs = x at hs hl hc hu hle ⊢
  have hrounds : y.rounds = x.commitIndex.toNat := by
    rw [Node.rounds, hlast, hc, sub_zero]
  have hiff := applyAll_iff (E := E) (x := y.saved) (s := x.snapshotLastIncludedIndex) hs hlast
    (show y.commitIndex ≤ x.snapshotLastIncludedIndex + y.log.length by rw [hc, hl]; exact hle)
  have hlog : y.saved.log = x.log := hl
  have hcommit : y.saved.commitIndex = x.commitIndex := hc
  have huser : y.saved.user = x.user := hu
  rw [hlog, hcommit, huser, ← hrounds, ← happlied, hrounds] at hiff
  rw [← hiff]
  constructor
  · rintro ⟨d', hd', heq⟩
    rw [hd, Option.some.injEq] at hd'
    exact hd' ▸ heq
  · exact fun heq => ⟨d, hd, heq⟩

/-! ### A restart after a compaction -/

/-- **Every restart replays** what it has to, from every state at a tick boundary. -/
def RestartsReplay (E : Env σ ν) (h₀ : Host σ ν) : Prop :=
  ∀ h, Run (Host.next E) (fun _ _ => True) h₀ h → h.phase = .idle →
    ∀ (user : σ) (clockMs latchMs actMs : ℤ) (commands : List Command),
      Replayed E h.config h.disk user clockMs latchMs actMs commands

/-- The follower compacts up to index 1, then applies and saves two more entries. -/
def compactedEarly : List (HostAct Unit) :=
  hostTick 0 [batch n2 n1 1 0 0 [] threeEntries 1] [] ++ [.compaction, .compaction, .compaction] ++
    hostTick 0 [batch n2 n1 1 3 1 n2 [] 3] []

instance (E : Env σ ν) (config : NodeConfig) (disk : Disk ν) (user : σ)
    (clockMs latchMs actMs : ℤ) (commands : List Command) :
    Decidable (Replayed E config disk user clockMs latchMs actMs commands) :=
  match h : firstTick E config disk user clockMs latchMs actMs commands with
  | none => isFalse fun ⟨d, hd, _⟩ => by rw [h] at hd; simp at hd
  | some d => decidable_of_iff (d.applied = lookups _ _)
      ⟨fun heq => ⟨d, h, heq⟩, fun ⟨d', hd', heq⟩ => by
        rw [h, Option.some.injEq] at hd'
        exact hd' ▸ heq⟩

/-- **An entry is applied twice**: with the snapshot at index 1 the loop looks up the indices 1, 2
and 3, and finds the entries 3, 2 and 3. -/
theorem replays_last_entry_twice : ¬ RestartsReplay quiet loneHost := by
  intro hreplay
  have hexec : (execAll (Host.next quiet) (fun _ _ => true) loneHost compactedEarly).any
      (fun h => decide (h.phase = .idle) &&
        decide (¬ Replayed quiet h.config h.disk () 0 0 0 [])) = true := by
    decide +kernel
  obtain ⟨h, hrun, hq⟩ := Run.exists_of_execAll hexec
  rw [Bool.and_eq_true, decide_eq_true_eq, decide_eq_true_eq] at hq
  exact hq.2 (hreplay h (hrun.mono fun _ _ _ => trivial) hq.1 () 0 0 0 [])

end RaftRx.Python
