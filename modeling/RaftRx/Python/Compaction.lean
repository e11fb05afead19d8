import RaftRx.Python.Turns

/-!
Compaction of a Python node.

The compaction machine marks a snapshot in one tick, picks its target in the next and truncates the
log in a third.  The target is `_compactible_index()` at the second of these moments, and nothing
compares it with the snapshot the node already has: a node that was elected in between has match
indices of `0` and compacts back to index `0`.

* `Node.Contiguous`: `log[k].index == snapshot_last_included_index + 1 + k`;
* `Node.Compact`: the invariant, with the commit index and the target of a compaction that runs;
* `compact_turn`, `compact_applyAll`, `compact_finish`: what keeps it;
* `MachineAct`, `TargetOk`: the moves of the machines, and targets that are not behind the snapshot;
* `IndicesKept`, `indicesKept_of_targetOk`, `snapshot_decreases`: the result and its failure.
-/

namespace RaftRx.Python

open Protocol (Role)

variable {σ ν : Type} {E : Env σ ν} {F : Disk ν} {x x' y : Node σ ν} {m : Message}
  {H : Message → Prop} {C : List LogEntry → Message → Prop}

/-! ### The invariant -/

/-- `log[k].index == snapshot_last_included_index + 1 + k` for every `k`. -/
def Node.Contiguous (x : Node σ ν) : Prop := Numbered x.snapshotLastIncludedIndex x.log

/-- **The invariant**: the log is contiguous, the commit index is in it, and a compaction that runs
does not go back. -/
structure Node.Compact (x : Node σ ν) : Prop where
  contiguous : x.Contiguous
  commit : x.commitIndex ≤ x.lastLogIndex
  target : x.compactionState = .compacting →
    x.snapshotLastIncludedIndex ≤ x.compactionTargetIndex

/-- A change that leaves the log, its base and the compaction alone. -/
lemma Node.Compact.frame (h : x.Compact) (hl : y.log = x.log)
    (hs : y.snapshotLastIncludedIndex = x.snapshotLastIncludedIndex)
    (hc : y.commitIndex = x.commitIndex)
    (hst : y.compactionState = .compacting → x.compactionState = .compacting)
    (ht : y.compactionTargetIndex = x.compactionTargetIndex) : y.Compact where
  contiguous := by
    rw [Node.Contiguous, hl, hs]
    exact h.contiguous
  commit := by
    rw [Node.lastLogIndex, hc, hl, hs]
    exact h.commit
  target := fun hy => by
    rw [hs, ht]
    exact h.target (hst hy)

/-! ### The role machine -/

/-- **A client's entry** is numbered next. -/
lemma compact_appendEntry (h : x.Compact) (command : Command) : (x.appendEntry command).Compact where
  contiguous := h.contiguous.snoc rfl
  commit := by
    have hc := h.commit
    simp only [Node.appendEntry, Node.lastLogIndex, List.length_append, List.length_singleton]
      at hc ⊢
    push_cast
    omega
  target := h.target

lemma compact_sendAppendEntries {peer : Str} (h : x.Compact)
    (hy : x.sendAppendEntries peer = some y) : y.Compact := by
  obtain ⟨m, -, rfl⟩ := sendAppendEntries_cases hy
  exact h.frame rfl rfl rfl id rfl

lemma compact_advance (h : x.Compact) {i : ℤ} (hi : i ≤ x.lastLogIndex) :
    Node.Compact { x with commitIndex := i, persistDirty := true } :=
  ⟨h.contiguous, hi, h.target⟩

/-- Contiguous logs stay so when the next entry is appended. -/
lemma contiguous_appendIfNext (h : x.Contiguous) (e : LogEntry) : (x.appendIfNext e).Contiguous := by
  rw [Node.appendIfNext]
  split
  · rename_i he
    exact h.snoc he
  · exact h

lemma contiguous_truncate (h : x.Contiguous) (i : ℤ) :
    Node.Contiguous { x.truncateLogSuffixFrom i with persistDirty := true } := by
  rw [Node.truncateLogSuffixFrom]
  split
  · exact numbered_nil _
  · exact h.take _

/-- **A batch** leaves the log contiguous. -/
lemma contiguous_mergeEntries {es : List LogEntry} {rebuild : Bool} (h : x.Contiguous)
    (hy : x.mergeEntries es = some (y, rebuild)) : y.Contiguous := by
  have hall : (y, rebuild).1.Contiguous := by
    refine foldlM_invariant (I := fun r : Node σ ν × Bool => r.1.Contiguous) ?_ h hy
    rintro e - ⟨z, b⟩ ⟨z', b'⟩ hz hz'
    rcases mergeEntry_cases hz' with ⟨rfl, -⟩ | ⟨rfl, -⟩ | ⟨-, -, -, -, rfl⟩
    · exact hz
    · exact contiguous_appendIfNext hz e
    · exact contiguous_appendIfNext (contiguous_truncate hz e.index) e
  exact hall

/-- **A batch and the commit index** after it. -/
lemma compact_accept {es : List LogEntry} {rebuild : Bool} {c : ℤ} (h : x.Compact)
    (hy : x.mergeEntries es = some (y, rebuild)) : (y.settleCommit E F rebuild c).Compact := by
  have hcont : y.Contiguous := contiguous_mergeEntries h.contiguous hy
  obtain ⟨L, d, rfl, -⟩ := rewritten_mergeEntries hy
  obtain ⟨commit, user, applied, d', heq, -, hcommit⟩ :=
    settleCommit_eq (E := E) (F := F)
      { x with log := L, persistDirty := d } rebuild c
  rw [heq]
  refine ⟨hcont, ?_, h.target⟩
  show commit ≤ Node.lastLogIndex { x with log := L, persistDirty := d }
  rcases hcommit with hc | ⟨-, hc⟩ | ⟨hc, -⟩
  · rw [hc]
    exact min_le_right _ _
  · exact hc
  · exact hc.le

/-- **One turn** keeps the invariant and the snapshot index. -/
lemma compact_turn (ht : Turn E F H C x y) (h : x.Compact) :
    y.Compact ∧ y.snapshotLastIncludedIndex = x.snapshotLastIncludedIndex := by
  cases ht with
  | tune ht =>
      refine ⟨h.frame ht.log ht.snapshotIndex ht.commitIndex ?_ ?_, ht.snapshotIndex⟩
      · exact fun hy => (congrArg Core.compactionState ht.core).symm.trans hy
      · exact congrArg Core.compactionTargetIndex ht.core
  | observe m hm =>
      rw [Node.handleTermUpdate, if_pos hm]
      exact ⟨h.frame rfl rfl rfl id rfl, rfl⟩
  | follow => exact ⟨h.frame rfl rfl rfl id rfl, rfl⟩
  | forget => exact ⟨h.frame rfl rfl rfl id rfl, rfl⟩
  | grant m _ _ _ hg =>
      rw [Node.answerRequestVote, hg]
      exact ⟨h.frame rfl rfl rfl id rfl, rfl⟩
  | refuse => exact ⟨h.frame rfl rfl rfl id rfl, rfl⟩
  | collect => exact ⟨h.frame rfl rfl rfl id rfl, rfl⟩
  | append command => exact ⟨compact_appendEntry h command, rfl⟩
  | send peer _ _ hsend =>
      refine ⟨compact_sendAppendEntries h hsend, ?_⟩
      obtain ⟨m, -, rfl⟩ := sendAppendEntries_cases hsend
      rfl
  | record => exact ⟨h.frame rfl rfl rfl id rfl, rfl⟩
  | advance k _ _ _ hk => exact ⟨compact_advance h hk, rfl⟩
  | accept m rebuild _ _ _ _ _ _ hmerge _ =>
      have hacc := compact_accept (E := E) (F := F) (c := m.leaderCommit) h hmerge
      refine ⟨hacc.frame rfl rfl rfl id rfl, ?_⟩
      obtain ⟨L, d, rfl, -⟩ := rewritten_mergeEntries hmerge
      obtain ⟨commit, user, applied, d', heq, -⟩ := settleCommit_eq (E := E) (F := F)
        { x with log := L, persistDirty := d } rebuild m.leaderCommit
      rw [Node.answerAppendEntries, heq]

/-- **Turns** keep the invariant and the snapshot index. -/
lemma compact_turns (ht : Turns E F H C x y) (h : x.Compact) :
    y.Compact ∧ y.snapshotLastIncludedIndex = x.snapshotLastIncludedIndex := by
  induction ht with
  | refl => exact ⟨h, rfl⟩
  | tail _ hturn ih =>
      obtain ⟨hy, hs⟩ := compact_turn hturn ih.1
      exact ⟨hy, hs.trans ih.2⟩

/-! ### Applying, and the other machines -/

/-- **Applying** keeps the invariant. -/
lemma compact_kept (hk : Kept x y) (h : x.Compact) : y.Compact := by
  refine h.frame hk.log hk.snapshotIndex hk.commitIndex (fun hy => ?_) hk.target
  rcases hk.machines with ⟨-, hc, -⟩ | ⟨hc, -⟩
  · exact hc.symm.trans hy
  · rw [hc] at hy
    exact absurd hy (by simp)

/-- **A command of the membership machine** is appended like a client's. -/
lemma compact_appendClientCommand {command : Command} (h : x.Compact)
    (hy : x.appendClientCommand command = some y) :
    y.Compact ∧ y.snapshotLastIncludedIndex = x.snapshotLastIncludedIndex := by
  obtain ⟨z, hz, hy⟩ := Option.bind_eq_some_iff.mp hy
  have hzc : z.Compact ∧ z.snapshotLastIncludedIndex = x.snapshotLastIncludedIndex := by
    have happ : (x.appendEntry command).Compact := compact_appendEntry h command
    rcases advanceCommitIndex_cases hz with rfl | ⟨i, -, hi, -, -, rfl⟩
    · exact ⟨happ, rfl⟩
    · exact ⟨compact_advance happ hi, rfl⟩
  refine broadcastAppendEntries_induct
    (I := fun w => w.Compact ∧ w.snapshotLastIncludedIndex = x.snapshotLastIncludedIndex) ?_ hzc hy
  rintro w w' peer - ⟨hw, hs⟩ hw'
  refine ⟨compact_sendAppendEntries hw hw', ?_⟩
  obtain ⟨m, -, rfl⟩ := sendAppendEntries_cases hw'
  exact hs

lemma compact_noted (hn : Noted x y) (h : x.Compact) :
    y.Compact ∧ y.snapshotLastIncludedIndex = x.snapshotLastIncludedIndex := by
  have hs : y.snapshotLastIncludedIndex = x.snapshotLastIncludedIndex :=
    congrArg Core.snapshotLastIncludedIndex hn.core
  exact ⟨h.frame (congrArg Core.log hn.core) hs (congrArg Core.commitIndex hn.core)
    (fun hc => (congrArg Core.compactionState hn.core).symm.trans hc)
    (congrArg Core.compactionTargetIndex hn.core), hs⟩

/-- **A move of the membership machine.** -/
lemma compact_membershipTransition (h : x.Compact) (hy : x.membershipTransition E = some y) :
    y.Compact ∧ y.snapshotLastIncludedIndex = x.snapshotLastIncludedIndex := by
  rcases membershipTransition_cases hy with hn | ⟨z, command, hy, hn⟩
  · exact compact_noted hn h
  · obtain ⟨hz, hs⟩ := compact_noted hn h
    obtain ⟨hc, hs'⟩ := compact_appendClientCommand hz hy
    exact ⟨hc, hs'.trans hs⟩

/-- A log that is cut at its front is numbered from the new base. -/
lemma numbered_truncatePrefix (h : x.Contiguous) {t : ℤ} (ht : x.snapshotLastIncludedIndex ≤ t) :
    Numbered t (x.truncateLogPrefixThrough t).log := by
  rw [Node.truncateLogPrefixThrough]
  split
  · rename_i hbase
    rw [Node.logBaseIndex] at hbase
    rw [show t = x.snapshotLastIncludedIndex by omega]
    exact h
  · split
    · exact numbered_nil t
    · rename_i hbase _
      rw [Node.logBaseIndex] at hbase
      have hpos : 0 ≤ x.physicalIndex (t + 1) := by
        rw [Node.physicalIndex, Node.logBaseIndex]
        omega
      have hdrop := Numbered.drop h (x.physicalIndex (t + 1)).toNat
      rw [Int.toNat_of_nonneg hpos, Node.physicalIndex, Node.logBaseIndex] at hdrop
      show Numbered t (sliceFrom x.log (x.physicalIndex (t + 1)))
      rw [sliceFrom_of_nonneg hpos, Node.physicalIndex, Node.logBaseIndex]
      convert hdrop using 1
      omega

/-- The last index does not go down when the front of the log is cut. -/
lemma lastLogIndex_truncatePrefix {t : ℤ} (ht : x.snapshotLastIncludedIndex ≤ t) :
    x.lastLogIndex ≤ t + (x.truncateLogPrefixThrough t).log.length := by
  rw [Node.truncateLogPrefixThrough]
  split
  · rw [Node.lastLogIndex]
    omega
  · split
    · rename_i hlast
      rw [List.length_nil]
      omega
    · rename_i hbase hlast
      rw [Node.logBaseIndex] at hbase
      rw [Node.lastLogIndex] at hlast ⊢
      have hpos : 0 ≤ x.physicalIndex (t + 1) := by
        rw [Node.physicalIndex, Node.logBaseIndex]
        omega
      show _ ≤ t + ((sliceFrom x.log (x.physicalIndex (t + 1))).length : ℤ)
      rw [sliceFrom_of_nonneg hpos, List.length_drop, Node.physicalIndex, Node.logBaseIndex]
      omega

/-- **A finished compaction** moves the base of the log to its target. -/
lemma compact_finish (h : x.Compact) (ht : x.snapshotLastIncludedIndex ≤ x.compactionTargetIndex)
    (hst : x.compactionState = .idle) : x.finishCompaction.Compact := by
  have hstate : x.finishCompaction.compactionState = .idle := by
    rw [Node.finishCompaction, Node.truncateLogPrefixThrough]
    split_ifs <;> exact hst
  have hcommit : x.finishCompaction.commitIndex = x.commitIndex := by
    rw [Node.finishCompaction, Node.truncateLogPrefixThrough]
    split_ifs <;> rfl
  refine ⟨numbered_truncatePrefix h.contiguous ht, ?_, fun hc => ?_⟩
  · calc x.finishCompaction.commitIndex = x.commitIndex := hcommit
      _ ≤ x.lastLogIndex := h.commit
      _ ≤ x.finishCompaction.lastLogIndex := lastLogIndex_truncatePrefix ht
  · rw [hstate] at hc
    exact absurd hc (by simp)

/-- **A move of the compaction machine** whose target is not behind the snapshot. -/
lemma compact_compactionTransition {writes : List (Write ν)} (h : x.Compact)
    (hok : x.nextCompaction.map TransitionSpec.action = some .beginCompaction →
      x.snapshotLastIncludedIndex ≤ x.compactibleIndex)
    (hy : x.compactionTransition E = some (y, writes)) :
    y.Compact ∧ x.snapshotLastIncludedIndex ≤ y.snapshotLastIncludedIndex := by
  rw [Node.compactionTransition] at hy
  cases hnext : x.nextCompaction with
  | none =>
      simp only [hnext, Option.some.injEq, Prod.mk.injEq] at hy
      exact hy.1 ▸ ⟨h, le_refl _⟩
  | some t =>
      rw [hnext] at hy hok
      obtain ⟨hmem, hfrom, -⟩ := nextOf_spec hnext
      simp only [Node.compactionTransitions, List.mem_cons, List.not_mem_nil, or_false] at hmem
      rcases hmem with rfl | rfl | rfl
      · simp only [Option.some.injEq, Prod.mk.injEq] at hy
        rw [← hy.1]
        exact ⟨⟨h.contiguous, h.commit, fun hc => absurd hc (by simp [Node.markSnapshotPending])⟩,
          le_refl _⟩
      · simp only [Option.map_eq_some_iff, Prod.mk.injEq] at hy
        obtain ⟨z, hz, rfl, -⟩ := hy
        obtain ⟨term, -, hz⟩ := Option.bind_eq_some_iff.mp hz
        rw [Option.some.injEq] at hz
        subst hz
        exact ⟨⟨h.contiguous, h.commit, fun _ => hok rfl⟩, le_refl _⟩
      · simp only [Option.some.injEq, Prod.mk.injEq] at hy
        rw [← hy.1]
        have htarget := h.target hfrom.symm
        exact ⟨compact_finish (x := { x with compactionState := .idle })
          (h.frame rfl rfl rfl (fun hc => absurd hc (by simp)) rfl) htarget rfl, htarget⟩

/-! ### Runs -/

/-- One act of a host, without what it sends. -/
def Host.next (E : Env σ ν) (h : Host σ ν) (a : HostAct σ) : Option (Host σ ν) :=
  (h.exec E a).map Prod.fst

/-- The moves of the three machines, with requests for membership changes. -/
def MachineAct : HostAct σ → Prop
  | .latch _ _ _ | .transition _ | .dump | .compaction | .membership | .request _ => True
  | _ => False

instance (a : HostAct σ) : Decidable (MachineAct a) :=
  match a with
  | .latch _ _ _ | .transition _ | .dump | .compaction | .membership | .request _ => isTrue trivial
  | .stop | .start _ | .crash _ _ | .crashInDump _ _ _ _ => isFalse id

/-- A compaction that begins has a target that is not behind the snapshot. -/
def TargetOk (h : Host σ ν) : HostAct σ → Prop
  | .compaction => h.node.nextCompaction.map TransitionSpec.action = some .beginCompaction →
      h.node.snapshotLastIncludedIndex ≤ h.node.compactibleIndex
  | _ => True

instance (h : Host σ ν) (a : HostAct σ) : Decidable (TargetOk h a) :=
  match a with
  | .compaction => inferInstanceAs (Decidable (_ → _))
  | .latch _ _ _ | .transition _ | .dump | .membership | .request _ | .stop | .start _
  | .crash _ _ | .crashInDump _ _ _ _ => isTrue trivial

/-- **The indices of a log are kept**: in every state of a run from `h₀` the log is contiguous, the
commit index is not behind its end, and the snapshot index does not decrease from there on. -/
def IndicesKept (E : Env σ ν) (P : Host σ ν → HostAct σ → Prop) (h₀ : Host σ ν) : Prop :=
  ∀ h, Run (Host.next E) P h₀ h → h.node.Contiguous ∧ h.node.commitIndex ≤ h.node.lastLogIndex ∧
    ∀ h', Run (Host.next E) P h h' →
      h.node.snapshotLastIncludedIndex ≤ h'.node.snapshotLastIncludedIndex

/-- The invariant of a run. -/
structure Host.Compact (h : Host σ ν) : Prop where
  node : h.node.Compact
  pending : Pending (fun _ => True) h.node

/-- **An act of a machine** keeps the invariant and does not decrease the snapshot index. -/
lemma compact_next {h h' : Host σ ν} {a : HostAct σ} (hinv : h.Compact) (ha : MachineAct a)
    (hok : TargetOk h a) (hnext : h.next E a = some h') :
    h'.Compact ∧ h.node.snapshotLastIncludedIndex ≤ h'.node.snapshotLastIncludedIndex := by
  obtain ⟨⟨h'', sends⟩, hexec, rfl⟩ := Option.map_eq_some_iff.mp hnext
  rw [Host.exec] at hexec
  split at hexec
  · cases a with
    | latch clockMs ms cs =>
        obtain ⟨y, hy, heq⟩ := Option.map_eq_some_iff.mp hexec
        simp only [Prod.mk.injEq] at heq
        obtain ⟨rfl, -⟩ := heq
        have hturns : Turns E h.disk (fun _ => True) (fun _ _ => True)
            { h.node with clockMs := clockMs } y := turns_latchInputs (fun _ _ => trivial) hy
        obtain ⟨hc, hs⟩ := compact_turns hturns (hinv.node.frame rfl rfl rfl id rfl)
        exact ⟨⟨hc, hturns.pending (hinv.pending.frame id rfl rfl rfl)⟩, hs.ge⟩
    | transition clockMs =>
        obtain ⟨y, hy, heq⟩ := Option.map_eq_some_iff.mp hexec
        simp only [Prod.mk.injEq] at heq
        obtain ⟨rfl, -⟩ := heq
        have hpending : Pending (fun _ => True) { h.node with clockMs := clockMs } :=
          hinv.pending.frame id rfl rfl rfl
        rcases transition_cases (C := fun _ _ => True) hpending (fun _ _ => trivial) hy with
          hturns | ⟨-, -, rfl⟩ | ⟨-, -, hturns⟩
        · obtain ⟨hc, hs⟩ := compact_turns hturns (hinv.node.frame rfl rfl rfl id rfl)
          exact ⟨⟨hc, hturns.pending hpending⟩, hs.ge⟩
        · exact ⟨⟨hinv.node.frame rfl rfl rfl id rfl, hpending.frame id rfl rfl rfl⟩, le_refl _⟩
        · obtain ⟨hc, hs⟩ := compact_turns hturns (hinv.node.frame rfl rfl rfl id rfl)
          exact ⟨⟨hc, hturns.pending (hpending.frame id rfl rfl rfl)⟩, hs.ge⟩
    | dump =>
        obtain ⟨y, hy, heq⟩ := Option.map_eq_some_iff.mp hexec
        simp only [Prod.mk.injEq] at heq
        obtain ⟨rfl, -⟩ := heq
        have hkept : Kept h.node y := kept_dumpOutputs hy
        exact ⟨⟨compact_kept hkept hinv.node, hkept.pending hinv.pending⟩, hkept.snapshotIndex.ge⟩
    | compaction =>
        obtain ⟨⟨y, writes⟩, hy, heq⟩ := Option.map_eq_some_iff.mp hexec
        simp only [Prod.mk.injEq] at heq
        obtain ⟨rfl, -⟩ := heq
        obtain ⟨hc, hs⟩ := compact_compactionTransition hinv.node hok hy
        exact ⟨⟨hc, pending_compactionTransition hinv.pending hy⟩, hs⟩
    | membership =>
        obtain ⟨y, hy, heq⟩ := Option.map_eq_some_iff.mp hexec
        simp only [Prod.mk.injEq] at heq
        obtain ⟨rfl, -⟩ := heq
        obtain ⟨hc, hs⟩ := compact_membershipTransition hinv.node hy
        exact ⟨⟨hc, pending_membershipTransition hinv.pending hy⟩, hs.ge⟩
    | request members =>
        simp only [Host.run, Option.some.injEq, Prod.mk.injEq] at hexec
        obtain ⟨rfl, -⟩ := hexec
        exact ⟨⟨hinv.node.frame rfl rfl rfl id rfl, hinv.pending.frame id rfl rfl rfl⟩, le_refl _⟩
    | stop => exact absurd ha id
    | start clockMs => exact absurd ha id
    | crash user clockMs => exact absurd ha id
    | crashInDump i j user clockMs => exact absurd ha id
  · exact absurd hexec (by simp)

/-- A node on an empty directory. -/
lemma compact_boot (E : Env σ ν) (config : NodeConfig) (user : σ) (clockMs : ℤ) :
    (Host.boot E config user clockMs).Compact :=
  ⟨⟨numbered_nil 0, le_refl _, fun h => absurd h (by
      simp [Host.boot, Node.init, Node.loadFromStorage, Node.refreshMembershipState, Node.blank])⟩,
    Pending.nil rfl rfl rfl⟩

/-- **Compaction keeps the indices** as long as no target is behind the snapshot. -/
theorem indicesKept_of_targetOk (E : Env σ ν) (config : NodeConfig) (user : σ) (clockMs : ℤ) :
    IndicesKept E (fun h a => MachineAct a ∧ TargetOk h a) (Host.boot E config user clockMs) := by
  intro h hrun
  have hinv : h.Compact := by
    refine hrun.invariant (fun _ _ _ hh hP hnext => ?_) (compact_boot E config user clockMs)
    exact (compact_next hh hP.1 hP.2 hnext).1
  refine ⟨hinv.node.contiguous, hinv.node.commit, fun h' hrun' => ?_⟩
  have hmono : h'.Compact ∧
      h.node.snapshotLastIncludedIndex ≤ h'.node.snapshotLastIncludedIndex := by
    refine hrun'.invariant (I := fun g : Host σ ν => g.Compact ∧
      h.node.snapshotLastIncludedIndex ≤ g.node.snapshotLastIncludedIndex)
      (fun _ _ _ hg hP hnext => ?_) ⟨hinv, le_refl _⟩
    obtain ⟨hc, hs⟩ := compact_next hg.1 hP.1 hP.2 hnext
    exact ⟨hc, hg.2.trans hs⟩
  exact hmono.2

/-! ### A follower that is elected while it compacts -/

/-- `n1` of a cluster of two. -/
def loneHost : Host Unit Unit := Host.boot quiet (impatient [n1, n2] n1) () 0

/-- The leader `n2` of term 1 sets the threshold to `1` and commits two more entries, the last of
them in a later batch. -/
def threeEntries : List LogEntry :=
  [⟨1, 1, ⟨"cluster.set_maxlog".toList, "maxlog".toList, some "1".toList⟩, n2⟩,
    ⟨2, 1, putCommand "x", n2⟩, ⟨3, 1, putCommand "y", n2⟩]

/-- The follower compacts up to index 2. -/
def compacted : List (HostAct Unit) :=
  hostTick 0 [batch n2 n1 1 0 0 [] threeEntries 2] [] ++ [.compaction, .compaction, .compaction]

/-- It marks another snapshot, is elected in term 2 and compacts with match indices of `0`. -/
def electedMeanwhile : List (HostAct Unit) :=
  hostTick 0 [batch n2 n1 1 3 1 n2 [] 3] [] ++ [.compaction] ++ hostTick 5 [] [] ++
    hostTick 5 [voteGrant n2 n1 2] [] ++ hostTick 5 [] [] ++ [.compaction, .compaction]

/-- **A compaction whose target is not behind the snapshot** leaves the log contiguous. -/
theorem indicesKept_compacted : ∃ h, Run (Host.next quiet) (fun h a => MachineAct a ∧ TargetOk h a)
    loneHost h ∧ h.node.snapshotLastIncludedIndex = 2 ∧ h.node.log.length = 1 ∧
    h.node.Contiguous := by
  have hexec : (execAll (Host.next quiet) (fun h a => decide (MachineAct a ∧ TargetOk h a))
      loneHost compacted).any (fun h => decide (h.node.snapshotLastIncludedIndex = 2) &&
        decide (h.node.log.length = 1)) = true := by
    decide +kernel
  obtain ⟨h, hrun, hq⟩ := Run.exists_of_execAll hexec
  rw [Bool.and_eq_true, decide_eq_true_eq, decide_eq_true_eq] at hq
  have hrun' := hrun.mono (fun _ _ => of_decide_eq_true)
  exact ⟨h, hrun', hq.1, hq.2,
    (indicesKept_of_targetOk quiet (impatient [n1, n2] n1) () 0 h hrun').1⟩

/-- **The snapshot index decreases**: from 2 back to 0. -/
theorem snapshot_decreases : ¬ IndicesKept quiet (fun _ a => MachineAct a) loneHost := by
  intro hkept
  have hexec : (execAll (Host.next quiet) (fun _ a => decide (MachineAct a)) loneHost
      compacted).any (fun h => decide (h.node.snapshotLastIncludedIndex = 2) &&
        (execAll (Host.next quiet) (fun _ a => decide (MachineAct a)) h electedMeanwhile).any
          fun h' => decide (h'.node.snapshotLastIncludedIndex = 0)) = true := by
    decide +kernel
  obtain ⟨h, h', hrun, hq, hrun', hq'⟩ := Run.exists_two_of_execAll hexec
  rw [decide_eq_true_eq] at hq hq'
  have hle := (hkept h (hrun.mono fun _ _ => of_decide_eq_true)).2.2 h'
    (hrun'.mono fun _ _ => of_decide_eq_true)
  omega

end RaftRx.Python
