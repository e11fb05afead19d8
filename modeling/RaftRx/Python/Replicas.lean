import RaftRx.Library.Replicas
import RaftRx.Python.Completeness
import RaftRx.Python.KvApp
import RaftRx.Python.RestartReplay

/-!
The applications of the nodes of a Python cluster are replicas of one state machine.

An application is looked at through a view of its state, which `apply` moves and `restore_snapshot`
of the empty object resets.  The runs are those of covered acts, in which no node restarts.

* `Machine`: such a view of an application;
* `Spared`: what everything but a batch and an applied command leaves of a node;
* `Node.Replayed`: the view is that of the applied entries; `Replayed.transition`, `Replayed.dump`;
* `replayed_covered`: every node of a run;
* `replicas_agree`: of two nodes at two moments, the one that applied more is where the commands in
  between lead the other;
* `kvMachine`: the key-value application.
-/

namespace RaftRx.Python

open Protocol (Role Mode State)

variable {σ ν τ : Type} {E : Env σ ν} {F : Disk ν} {x y z : Node σ ν} {m : Message}

/-! ### Views of an application -/

/-- A view of the state of an application: what a command makes of it, and what it is after
`restore_snapshot({})`. -/
structure Machine (E : Env σ ν) (τ : Type) where
  view : σ → τ
  step : τ → Command → τ
  start : τ
  apply : ∀ {u u' : σ} {c : Command}, E.apply u c = some u' → view u' = step (view u) c
  restore : ∀ u : σ, view (E.restoreSnapshot u E.emptyObject) = start

/-- The commands of the engine itself. -/
def Command.isInternal (c : Command) : Bool :=
  decide (c.op = "cluster.set_maxlog".toList ∨ c.op = "cluster.enter_joint".toList ∨
    c.op = "cluster.leave_joint".toList)

namespace Machine

variable (M : Machine E τ)

/-- What an entry makes of the view. -/
def take (t : τ) (e : LogEntry) : τ := if e.command.isInternal then t else M.step t e.command

/-- What some entries make of it. -/
def replay (t : τ) (es : List LogEntry) : τ := es.foldl M.take t

/-- A node as a replica with a log. -/
def replica (x : Node σ ν) (log : List LogEntry) : Replica τ LogEntry :=
  { log := log, count := x.lastApplied.toNat, state := M.view x.user }

/-- A command that is applied moves the view. -/
lemma take_of_step {u u' : σ} {e : LogEntry} (h : E.step u e.command = some u') :
    M.view u' = M.take (M.view u) e := by
  rw [Env.step] at h
  split at h
  · rename_i hop
    obtain ⟨-, -, rfl⟩ := Option.map_eq_some_iff.mp h
    have hint : e.command.isInternal = true := decide_eq_true (Or.inl hop)
    rw [take, if_pos hint]
  · rename_i hmax
    split at h
    · rename_i hop
      obtain ⟨-, -, rfl⟩ := Option.map_eq_some_iff.mp h
      have hint : e.command.isInternal = true := decide_eq_true (Or.inr hop)
      rw [take, if_pos hint]
    · rename_i hjoint
      have hno : ¬e.command.isInternal = true :=
        fun hint => (of_decide_eq_true hint).elim hmax hjoint
      rw [take, if_neg hno]
      exact M.apply h

end Machine

variable {M : Machine E τ}

/-- **The view is that of the applied entries**, and the indices are in order. -/
structure Node.Replayed (M : Machine E τ) (x : Node σ ν) : Prop where
  snap : x.snapshotLastIncludedIndex = 0
  applied_nonneg : 0 ≤ x.lastApplied
  applied_le : x.lastApplied ≤ x.commitIndex
  commit_le : x.commitIndex ≤ x.lastLogIndex
  faithful : (M.replica x x.log).Faithful M.take M.start

lemma Node.Replayed.last (h : x.Replayed M) : x.lastLogIndex = x.log.length := by
  rw [Node.lastLogIndex, h.snap, zero_add]

lemma Node.Replayed.applied_le_length (h : x.Replayed M) :
    x.lastApplied.toNat ≤ x.log.length := h.faithful.inside

/-! ### What spares the application -/

/-- The application and the applied index stay, the log and the commit index may grow. -/
structure Spared (x y : Node σ ν) : Prop where
  user : y.user = x.user
  applied : y.lastApplied = x.lastApplied
  snap : y.snapshotLastIncludedIndex = x.snapshotLastIncludedIndex
  log : x.log <+: y.log
  commit : x.commitIndex ≤ y.commitIndex
  bound : x.commitIndex ≤ x.lastLogIndex → y.commitIndex ≤ y.lastLogIndex

namespace Spared

lemma refl (x : Node σ ν) : Spared x x := ⟨rfl, rfl, rfl, List.prefix_rfl, le_rfl, id⟩

lemma trans (h : Spared x y) (h' : Spared y z) : Spared x z :=
  ⟨h'.user.trans h.user, h'.applied.trans h.applied, h'.snap.trans h.snap, h.log.trans h'.log,
    h.commit.trans h'.commit, fun hb => h'.bound (h.bound hb)⟩

/-- Nothing that matters has changed. -/
lemma of_eq (hu : y.user = x.user) (ha : y.lastApplied = x.lastApplied)
    (hs : y.snapshotLastIncludedIndex = x.snapshotLastIncludedIndex) (hl : y.log = x.log)
    (hc : y.commitIndex = x.commitIndex) : Spared x y := by
  refine ⟨hu, ha, hs, hl ▸ List.prefix_rfl, hc.ge, fun hb => ?_⟩
  rw [hc, Node.lastLogIndex, hs, hl]
  exact hb

lemma replayed (hs : Spared x y) (h : x.Replayed M) : y.Replayed M := by
  refine ⟨hs.snap.trans h.snap, hs.applied ▸ h.applied_nonneg, ?_, hs.bound h.commit_le, ?_⟩
  · rw [hs.applied]
    exact h.applied_le.trans hs.commit
  · have hlen : (M.replica x x.log).count ≤ y.log.length :=
      h.applied_le_length.trans hs.log.length_le
    have htake : y.log.take (M.replica x x.log).count = (M.replica x x.log).executed := by
      obtain ⟨t, ht⟩ := hs.log
      rw [← ht]
      exact List.take_append_of_le_length h.applied_le_length
    have hlog := h.faithful.relog hlen htake
    rw [Machine.replica, hs.user, hs.applied]
    exact hlog

end Spared

lemma Node.Replayed.frame (h : x.Replayed M) (hu : y.user = x.user)
    (ha : y.lastApplied = x.lastApplied)
    (hs : y.snapshotLastIncludedIndex = x.snapshotLastIncludedIndex) (hl : y.log = x.log)
    (hc : y.commitIndex = x.commitIndex) : y.Replayed M :=
  (Spared.of_eq hu ha hs hl hc).replayed h

namespace Spared

lemma handleTermUpdate (x : Node σ ν) (m : Message) : Spared x (x.handleTermUpdate m) := by
  rw [Node.handleTermUpdate]
  split
  · exact of_eq rfl rfl rfl rfl rfl
  · exact refl x

lemma handleRequestVote (x : Node σ ν) (m : Message) : Spared x (x.handleRequestVote m) := by
  refine (handleTermUpdate x m).trans ?_
  rw [Node.handleRequestVote, Node.answerRequestVote]
  split <;> exact of_eq rfl rfl rfl rfl rfl

lemma handleRequestVoteResponse (x : Node σ ν) (m : Message) :
    Spared x (x.handleRequestVoteResponse m) := by
  refine (handleTermUpdate x m).trans ?_
  rw [Node.handleRequestVoteResponse, Node.collectVote]
  split_ifs
  all_goals exact of_eq rfl rfl rfl rfl rfl

lemma sendAppendEntries {peer : Str} (h : x.sendAppendEntries peer = some y) : Spared x y := by
  obtain ⟨m, -, rfl⟩ := sendAppendEntries_cases h
  exact of_eq rfl rfl rfl rfl rfl

lemma broadcastAppendEntries (h : x.broadcastAppendEntries = some y) : Spared x y :=
  broadcastAppendEntries_induct (I := Spared x)
    (fun _ _ _ _ hz hsend => hz.trans (sendAppendEntries hsend)) (refl x) h

lemma advanceCommitIndex (h : x.advanceCommitIndex = some y) : Spared x y := by
  rcases advanceCommitIndex_cases h with rfl | ⟨i, hlt, hle, -, -, rfl⟩
  · exact refl y
  · exact ⟨rfl, rfl, rfl, List.prefix_rfl, hlt.le, fun _ => hle⟩

lemma handleAppendEntriesResponse (h : x.handleAppendEntriesResponse m = some y) :
    Spared x y := by
  refine (handleTermUpdate x m).trans ?_
  rw [Node.handleAppendEntriesResponse, Node.takeAnswer] at h
  split_ifs at h
  · rw [Option.some.injEq] at h
    exact h ▸ refl _
  · have hrecord : Spared (x.handleTermUpdate m) ((x.handleTermUpdate m).recordMatch m) :=
      of_eq rfl rfl rfl rfl rfl
    exact hrecord.trans (advanceCommitIndex h)
  · obtain ⟨z, hz, h⟩ := Option.bind_eq_some_iff.mp h
    obtain ⟨next, -, rfl⟩ := Option.map_eq_some_iff.mp hz
    have hback : ∀ d, Spared (x.handleTermUpdate m) { x.handleTermUpdate m with nextIndex := d } :=
      fun _ => of_eq rfl rfl rfl rfl rfl
    exact (hback _).trans (sendAppendEntries h)

lemma appendClientCommand {command : Command} (h : x.appendClientCommand command = some y) :
    Spared x y := by
  obtain ⟨z, hz, h⟩ := Option.bind_eq_some_iff.mp h
  have hentry : Spared x (x.appendEntry command) := by
    refine ⟨rfl, rfl, rfl, List.prefix_append _ _, le_rfl, fun hb => ?_⟩
    refine hb.trans ?_
    simp [Node.lastLogIndex, Node.appendEntry]
  exact (hentry.trans (advanceCommitIndex hz)).trans (broadcastAppendEntries h)

lemma latchMessage (h : x.latchMessage m = some y) : Spared x y := by
  rw [Node.latchMessage] at h
  cases hk : m.kind with
  | appendEntriesResponse =>
      rw [hk] at h
      exact handleAppendEntriesResponse h
  | appendEntries | requestVote | requestVoteResponse | clientCommand =>
      rw [hk] at h
      rw [← Option.some.inj h]
      exact of_eq rfl rfl rfl rfl rfl

/-- **Latching** spares the application. -/
lemma latchInputs {ms : List Message} {cs : List Command} (h : x.latchInputs ms cs = some y) :
    Spared x y := by
  rw [Node.latchInputs] at h
  split at h
  · obtain ⟨z, hz, h⟩ := Option.bind_eq_some_iff.mp h
    have hlatched : Spared x z := foldlM_invariant (I := Spared x)
      (fun m _ _ _ hu hv => hu.trans (latchMessage hv)) (refl x) hz
    split at h
    · exact foldlM_invariant (I := Spared x)
        (fun c _ _ _ hu hv => hu.trans (appendClientCommand hv)) hlatched h
    · rw [Option.some.injEq] at h
      exact h ▸ hlatched
  · rw [Option.some.injEq] at h
    exact h ▸ refl x

lemma handleNextVoteRequest (x : Node σ ν) : Spared x x.handleNextVoteRequest := by
  rw [Node.handleNextVoteRequest]
  split
  · exact refl x
  · rename_i m rest _
    have hpop : Spared x { x with pendingVoteRequests := rest } := of_eq rfl rfl rfl rfl rfl
    exact hpop.trans (handleRequestVote _ m)

lemma handleNextVote (h : x.handleNextVote = some y) : Spared x y := by
  rw [Node.handleNextVote] at h
  split at h
  · rw [Option.some.injEq] at h
    exact h ▸ refl x
  · rename_i m rest _
    have hpop : Spared x { x with pendingVotes := rest } := of_eq rfl rfl rfl rfl rfl
    dsimp only at h
    split at h
    · rw [Option.some.injEq] at h
      exact h ▸ hpop.trans (handleRequestVoteResponse _ m)
    · exact hpop.trans (handleAppendEntriesResponse h)
    · rw [Option.some.injEq] at h
      exact h ▸ hpop

lemma ignoreVote (h : x.ignoreVote = some y) : Spared x y := by
  rw [Node.ignoreVote] at h
  split at h
  · rw [Option.some.injEq] at h
    exact h ▸ refl x
  · rename_i m rest _
    have hpop : Spared x { x with pendingVotes := rest } := of_eq rfl rfl rfl rfl rfl
    dsimp only at h
    split at h
    · exact hpop.trans (handleAppendEntriesResponse h)
    · rw [Option.some.injEq] at h
      exact h ▸ hpop

/-- **Every action but the one that takes a batch** spares the application. -/
lemma perform {a : Node.RoleAction} (hne : a ≠ .handleNextAppendEntries)
    (h : x.perform E F a = some y) : Spared x y := by
  cases a with
  | handleNextAppendEntries => exact absurd rfl hne
  | becomeCandidate | backToFollowerDueToTimeout =>
      rw [← Option.some.inj h]
      exact of_eq rfl rfl rfl rfl rfl
  | becomeLeader =>
      obtain ⟨z, hz, rfl⟩ := Option.map_eq_some_iff.mp h
      have hlead : Spared x x.lead := of_eq rfl rfl rfl rfl rfl
      exact (hlead.trans (broadcastAppendEntries hz)).trans (of_eq rfl rfl rfl rfl rfl)
  | sendHeartbeat =>
      obtain ⟨z, hz, rfl⟩ := Option.map_eq_some_iff.mp h
      exact (broadcastAppendEntries hz).trans (of_eq rfl rfl rfl rfl rfl)
  | handleNextVoteRequest | ignoreVoteRequest =>
      rw [← Option.some.inj h]
      exact handleNextVoteRequest x
  | handleNextVote => exact handleNextVote h
  | ignoreVote => exact ignoreVote h

end Spared

/-! ### Taking a batch -/

/-- An entry behind the first `k` ones leaves these alone. -/
lemma take_appendIfNext {k : ℕ} (x : Node σ ν) (e : LogEntry) (hk : k ≤ x.log.length) :
    (x.appendIfNext e).log.take k = x.log.take k ∧ k ≤ (x.appendIfNext e).log.length := by
  rw [Node.appendIfNext]
  split
  · dsimp only
    rw [List.take_append_of_le_length hk, List.length_append]
    exact ⟨rfl, by omega⟩
  · exact ⟨rfl, hk⟩

/-- A cut behind the first `k` entries leaves these alone. -/
lemma take_truncate {k : ℕ} (hs : x.snapshotLastIncludedIndex = 0) (hk : k ≤ x.log.length) {i : ℤ}
    (hi : (k : ℤ) < i) : (x.truncateLogSuffixFrom i).log.take k = x.log.take k ∧
      k ≤ (x.truncateLogSuffixFrom i).log.length := by
  have hphys : x.physicalIndex i = i - 1 := by
    rw [Node.physicalIndex, Node.logBaseIndex, hs]
    ring
  rw [Node.truncateLogSuffixFrom, if_neg (by omega), hphys]
  dsimp only
  rw [sliceTo_of_nonneg (by omega), List.take_take, List.length_take,
    min_eq_left (show k ≤ (i - 1).toNat by omega)]
  exact ⟨rfl, by omega⟩

/-- **A batch without a rebuild** leaves the applied entries alone. -/
lemma take_mergeEntries (hs : x.snapshotLastIncludedIndex = 0) (h0 : 0 ≤ x.lastApplied)
    (hk : x.lastApplied.toNat ≤ x.log.length) {es : List LogEntry}
    (h : x.mergeEntries es = some (y, false)) :
    y.log.take x.lastApplied.toNat = x.log.take x.lastApplied.toNat ∧
      x.lastApplied.toNat ≤ y.log.length := by
  have hall : Rewritten x (y, false).1 ∧ ((y, false).2 = false →
      (y, false).1.log.take x.lastApplied.toNat = x.log.take x.lastApplied.toNat ∧
        x.lastApplied.toNat ≤ (y, false).1.log.length) := by
    refine foldlM_invariant (I := fun r : Node σ ν × Bool => Rewritten x r.1 ∧ (r.2 = false →
      r.1.log.take x.lastApplied.toNat = x.log.take x.lastApplied.toNat ∧
        x.lastApplied.toNat ≤ r.1.log.length)) ?_ ⟨Rewritten.refl x, fun _ => ⟨rfl, hk⟩⟩ h
    rintro e - ⟨z, b⟩ ⟨z', b'⟩ ⟨hz, hkeep⟩ hz'
    refine ⟨hz.trans (rewritten_mergeEntry hz'), ?_⟩
    have hzs : z.snapshotLastIncludedIndex = 0 ∧ z.lastApplied = x.lastApplied := by
      obtain ⟨L, d, rfl, -⟩ := hz
      exact ⟨hs, rfl⟩
    rintro (rfl : b' = false)
    rcases mergeEntry_cases hz' with ⟨rfl, rfl, -⟩ | ⟨rfl, rfl, -⟩ | ⟨-, -, -, hb, rfl⟩
    · exact hkeep rfl
    · obtain ⟨htake, hlen⟩ := hkeep rfl
      obtain ⟨htake', hlen'⟩ := take_appendIfNext z e hlen
      exact ⟨htake'.trans htake, hlen'⟩
    · obtain ⟨rfl, habove⟩ := Bool.or_eq_false_iff.mp hb.symm
      rw [decide_eq_false_iff_not, hzs.2, not_le] at habove
      obtain ⟨htake, hlen⟩ := hkeep rfl
      obtain ⟨hcut, hcutLen⟩ := take_truncate hzs.1 hlen (i := e.index) (by omega)
      obtain ⟨htake', hlen'⟩ := take_appendIfNext
        { z.truncateLogSuffixFrom e.index with persistDirty := true } e hcutLen
      exact ⟨htake'.trans (hcut.trans htake), hlen'⟩
  exact hall.2 rfl

/-- After a rebuild nothing is applied, and the application is as at its start. -/
lemma Node.Replayed.rebuilt (h : x.Replayed M) (hF : F.load.snapshot = none) {L : List LogEntry}
    {d : Bool} {c : ℤ} (hc : 0 ≤ c) :
    (Node.settleCommit E F { x with log := L, persistDirty := d } true c).Replayed M := by
  have hlast : Node.lastLogIndex { x with log := L, persistDirty := d } = L.length := by
    rw [Node.lastLogIndex]
    change x.snapshotLastIncludedIndex + _ = _
    rw [h.snap, zero_add]
  rw [Node.settleCommit, if_pos rfl, hlast, Node.restoreApplicationBaseState, hF]
  refine ⟨h.snap, h.snap.ge, ?_, ?_, ?_⟩
  · change x.snapshotLastIncludedIndex ≤ min c L.length
    rw [h.snap]
    exact le_min hc (Int.natCast_nonneg _)
  · change min c (L.length : ℤ) ≤ x.snapshotLastIncludedIndex + L.length
    rw [h.snap, zero_add]
    exact min_le_right _ _
  · rw [Machine.replica]
    dsimp only
    rw [h.snap, Option.getD_none, M.restore]
    exact Replica.Faithful.init L

/-- Without one the application stays. -/
lemma Node.Replayed.settled (h : x.Replayed M) {L : List LogEntry} {d : Bool} {c : ℤ}
    (htake : L.take x.lastApplied.toNat = x.log.take x.lastApplied.toNat)
    (hlen : x.lastApplied.toNat ≤ L.length) :
    (Node.settleCommit E F { x with log := L, persistDirty := d } false c).Replayed M := by
  have hfaithful : (M.replica x L).Faithful M.take M.start := h.faithful.relog hlen htake
  have h0 := h.applied_nonneg
  have hle := h.applied_le
  have hinside : x.lastApplied ≤ (L.length : ℤ) := by omega
  have hlast : Node.lastLogIndex { x with log := L, persistDirty := d } = L.length := by
    rw [Node.lastLogIndex]
    change x.snapshotLastIncludedIndex + _ = _
    rw [h.snap, zero_add]
  have hlast' : x.snapshotLastIncludedIndex + (L.length : ℤ) = L.length := by rw [h.snap, zero_add]
  rw [Node.settleCommit, if_neg Bool.false_ne_true, hlast]
  split_ifs with hlt hgt
  · refine ⟨h.snap, h0, le_min (hle.trans hlt.le) hinside, ?_, hfaithful⟩
    change min c (L.length : ℤ) ≤ x.snapshotLastIncludedIndex + L.length
    rw [hlast']
    exact min_le_right _ _
  · exact ⟨h.snap, h0, hinside, hlast'.ge, hfaithful⟩
  · refine ⟨h.snap, h0, hle, ?_, hfaithful⟩
    change x.commitIndex ≤ x.snapshotLastIncludedIndex + (L.length : ℤ)
    rw [hlast']
    exact not_lt.mp hgt

/-- **A batch** keeps the view that of the applied entries. -/
lemma Node.Replayed.handleAppendEntries (h : x.Replayed M) (hF : F.load.snapshot = none)
    (hc : 0 ≤ m.leaderCommit) (hy : x.handleAppendEntries E F m = some y) : y.Replayed M := by
  have hterm := (Spared.handleTermUpdate x m).replayed h
  rw [Node.handleAppendEntries, Node.takeBatch] at hy
  generalize x.handleTermUpdate m = x' at hterm hy
  split at hy
  · obtain ⟨⟨z, success⟩, hz, hy⟩ := Option.bind_eq_some_iff.mp hy
    rw [← Option.some.inj hy]
    have hcontact : Node.Replayed M (Node.contact { x' with leaderId := some m.source }) :=
      hterm.frame rfl rfl rfl rfl rfl
    have hanswer : Spared z (z.answerAppendEntries m success) := Spared.of_eq rfl rfl rfl rfl rfl
    refine hanswer.replayed ?_
    rcases appendEntriesFromLeader_cases hz with ⟨rfl, -⟩ | ⟨w, rebuild, -, -, hmerge, rfl⟩
    · exact hcontact
    · obtain ⟨L, d, hw, -⟩ := rewritten_mergeEntries hmerge
      cases rebuild with
      | true =>
          rw [hw]
          exact hcontact.rebuilt hF hc
      | false =>
          obtain ⟨htake, hlen⟩ := take_mergeEntries hcontact.snap hcontact.applied_nonneg
            hcontact.applied_le_length hmerge
          rw [hw] at htake hlen ⊢
          exact hcontact.settled htake hlen
  · rw [← Option.some.inj hy]
    exact hterm.frame rfl rfl rfl rfl rfl

/-- **The transition.** -/
lemma Node.Replayed.transition (h : x.Replayed M) (hF : F.load.snapshot = none)
    (hc : ∀ m ∈ x.pendingAppendEntries, 0 ≤ m.leaderCommit) (hy : x.transition E F = some y) :
    y.Replayed M := by
  rw [Node.transition] at hy
  cases hnext : x.nextTransition with
  | none =>
      rw [hnext] at hy
      exact Option.some.inj hy ▸ h
  | some t =>
      rw [hnext] at hy
      dsimp only at hy
      have hrole : Node.Replayed M { x with role := t.toState } := h.frame rfl rfl rfl rfl rfl
      by_cases hact : t.action = .handleNextAppendEntries
      · rw [hact, Node.perform, Node.handleNextAppendEntries] at hy
        split at hy
        · exact Option.some.inj hy ▸ hrole
        · rename_i m rest hpending
          have hm : m ∈ x.pendingAppendEntries := by
            change x.pendingAppendEntries = m :: rest at hpending
            rw [hpending]
            exact List.mem_cons_self
          have hpop : Node.Replayed M { x with role := t.toState, pendingAppendEntries := rest } :=
            h.frame rfl rfl rfl rfl rfl
          exact hpop.handleAppendEntries hF (hc m hm) hy
      · exact (Spared.perform hact hy).replayed hrole

/-! ### Applying -/

/-- The next command is applied. -/
lemma Node.Replayed.applyNext (h : x.Replayed M) (hlt : x.lastApplied < x.commitIndex)
    {e : LogEntry} (he : Node.entryAtIndex { x with lastApplied := x.lastApplied + 1 }
      (x.lastApplied + 1) = some e)
    (hy : Node.applyCommittedCommand E { x with lastApplied := x.lastApplied + 1 } e.command =
      some y) : y.Replayed M ∧ y.commitIndex = x.commitIndex ∧
        y.lastApplied = x.lastApplied + 1 := by
  obtain ⟨hkept, -, happlied⟩ := applyCommittedCommand_cases hy
  have hstep : E.step x.user e.command = some y.user := by
    rw [← applyCommittedCommand_user { x with lastApplied := x.lastApplied + 1 } e.command, hy]
    rfl
  have h0 := h.applied_nonneg
  have hc := h.commit_le
  rw [h.last] at hc
  have hk : x.lastApplied.toNat < x.log.length := by omega
  have hentry : e = x.log[x.lastApplied.toNat] := by
    have hphys : Node.physicalIndex { x with lastApplied := x.lastApplied + 1 }
        (x.lastApplied + 1) = x.lastApplied := by
      rw [Node.physicalIndex, Node.logBaseIndex]
      change _ - (x.snapshotLastIncludedIndex + 1) = _
      rw [h.snap]
      ring
    rw [Node.entryAtIndex, hphys, item_of_nonneg h0] at he
    change x.log[x.lastApplied.toNat]? = some e at he
    rw [List.getElem?_eq_getElem hk, Option.some.injEq] at he
    exact he.symm
  have hlog : y.log = x.log := hkept.log
  have hcommit : y.commitIndex = x.commitIndex := hkept.commitIndex
  have hsnap : y.snapshotLastIncludedIndex = x.snapshotLastIncludedIndex := hkept.snapshotIndex
  have hlast : y.lastApplied = x.lastApplied + 1 := happlied
  refine ⟨⟨hsnap.trans h.snap, by omega, by omega, ?_, ?_⟩, hcommit, hlast⟩
  · rw [hcommit, Node.lastLogIndex, hsnap, hlog]
    exact h.commit_le
  · have hexec := h.faithful.execute hk
    rw [Machine.replica, hlog, hlast, M.take_of_step hstep, hentry,
      show (x.lastApplied + 1).toNat = x.lastApplied.toNat + 1 by omega]
    exact hexec

/-- **The apply loop.** -/
lemma Node.Replayed.applyAll (k : ℕ) : ∀ {x : Node σ ν}, x.Replayed M →
    (Node.applyAll E k x).2 = some y → y.Replayed M := by
  induction k with
  | zero => exact fun h hy => Option.some.inj hy ▸ h
  | succ k ih =>
      intro x h hy
      rw [Node.applyAll] at hy
      split at hy
      · rename_i hlt
        dsimp only at hy
        split at hy
        · exact absurd hy (by simp)
        · rename_i e he
          split at hy
          · exact absurd hy (by simp)
          · rename_i z hz
            exact ih (h.applyNext hlt he hz).1 hy
      · exact Option.some.inj hy ▸ h

/-- **The dump.** -/
lemma Node.Replayed.dump (h : x.Replayed M) (hy : (x.dumpOutputs E).node = some y) :
    y.Replayed M := by
  rcases dumpOutputs_cases hy with ⟨-, rfl, -⟩ | ⟨-, z, hz, rfl, -⟩
  · exact h
  · have hsaved : Node.Replayed M x.saved := h.frame rfl rfl rfl rfl rfl
    exact (hsaved.applyAll _ hz).frame rfl rfl rfl rfl rfl

/-! ### Hosts -/

/-- An act of a run without membership changes, compactions and restarts. -/
def SparingAct (h : Host σ ν) : HostAct σ → Prop
  | .latch _ _ _ | .transition _ | .dump => True
  | .compaction => ¬h.node.Compacts
  | .membership => h.node.nextMembership = none
  | _ => False

lemma sparing_of_covered {D : Str → Env σ ν} {c : Cluster σ ν} {act : ClusterAct σ}
    (h : CoveredAct D c act) : SparingAct (c.hosts act.host) act.act := by
  obtain ⟨n, a⟩ := act
  obtain ⟨hmember, hcompact, hrestart, -⟩ := h
  cases a with
  | latch | transition | dump => trivial
  | compaction => exact hcompact
  | membership => exact hmember
  | request => exact hmember.elim
  | stop | start | crash | crashInDump => exact hrestart.elim

/-- A move of the compaction machine that ends no compaction. -/
lemma spared_compactionTransition {writes : List (Write ν)} (hno : ¬x.Compacts)
    (h : x.compactionTransition E = some (y, writes)) : Spared x y ∧ writes = [] := by
  rw [Node.compactionTransition] at h
  cases hnext : x.nextCompaction with
  | none =>
      simp only [hnext, Option.some.injEq, Prod.mk.injEq] at h
      obtain ⟨rfl, rfl⟩ := h
      exact ⟨Spared.refl x, rfl⟩
  | some t =>
      simp only [hnext] at h
      split at h
      · simp only [Option.some.injEq, Prod.mk.injEq] at h
        obtain ⟨rfl, rfl⟩ := h
        exact ⟨Spared.of_eq rfl rfl rfl rfl rfl, rfl⟩
      · simp only [Option.map_eq_some_iff, Prod.mk.injEq] at h
        obtain ⟨z, hz, rfl, rfl⟩ := h
        obtain ⟨term, -, hz⟩ := Option.bind_eq_some_iff.mp hz
        rw [Option.some.injEq] at hz
        subst hz
        exact ⟨Spared.of_eq rfl rfl rfl rfl rfl, rfl⟩
      · rename_i hact
        exact absurd (by rw [Node.Compacts, hnext, Option.map_some, hact]) hno

/-- A host whose node is replayed, with no snapshot in its files. -/
structure Host.Replayed (M : Machine E τ) (h : Host σ ν) : Prop where
  node : h.node.Replayed M
  file : h.disk.snapshotJson = none

lemma load_snapshot (h : F.snapshotJson = none) : F.load.snapshot = none := by
  rw [Disk.load]
  split
  · rfl
  · dsimp only
    rw [h, Option.map_none]

/-- Saving a node leaves the snapshot alone. -/
lemma snapshotJson_dump (h : (x.dumpOutputs E).node = some y) (disk : Disk ν) :
    (disk.writeAll (x.dumpOutputs E).writes).snapshotJson = disk.snapshotJson := by
  rcases dumpOutputs_cases h with ⟨-, -, hw, -⟩ | ⟨-, z, -, -, -, hw⟩
  · rw [hw]
    rfl
  · rw [hw]
    split <;> rfl

/-- **Every such act** keeps the view that of the applied entries. -/
lemma Host.Replayed.exec {h h' : Host σ ν} {a : HostAct σ} {sends : List Message}
    (hh : h.Replayed M) (hc : ∀ m ∈ h.node.pendingAppendEntries, 0 ≤ m.leaderCommit)
    (ha : SparingAct h a) (he : h.exec E a = some (h', sends)) : h'.Replayed M := by
  rw [Host.exec, Option.ite_none_right_eq_some] at he
  obtain ⟨-, he⟩ := he
  cases a with
  | latch clockMs ms cs =>
      obtain ⟨y, hy, heq⟩ := Option.map_eq_some_iff.mp he
      simp only [Prod.mk.injEq] at heq
      obtain ⟨rfl, -⟩ := heq
      have hclock : Node.Replayed M { h.node with clockMs := clockMs } :=
        hh.node.frame rfl rfl rfl rfl rfl
      exact ⟨(Spared.latchInputs hy).replayed hclock, hh.file⟩
  | transition clockMs =>
      obtain ⟨y, hy, heq⟩ := Option.map_eq_some_iff.mp he
      simp only [Prod.mk.injEq] at heq
      obtain ⟨rfl, -⟩ := heq
      have hclock : Node.Replayed M { h.node with clockMs := clockMs } :=
        hh.node.frame rfl rfl rfl rfl rfl
      exact ⟨hclock.transition (load_snapshot hh.file) hc hy, hh.file⟩
  | dump =>
      obtain ⟨y, hy, heq⟩ := Option.map_eq_some_iff.mp he
      simp only [Prod.mk.injEq] at heq
      obtain ⟨rfl, -⟩ := heq
      exact ⟨hh.node.dump hy, (snapshotJson_dump hy h.disk).trans hh.file⟩
  | compaction =>
      obtain ⟨⟨y, writes⟩, hy, heq⟩ := Option.map_eq_some_iff.mp he
      simp only [Prod.mk.injEq] at heq
      obtain ⟨rfl, -⟩ := heq
      obtain ⟨hspared, rfl⟩ := spared_compactionTransition ha hy
      exact ⟨hspared.replayed hh.node, hh.file⟩
  | membership =>
      obtain ⟨y, hy, heq⟩ := Option.map_eq_some_iff.mp he
      simp only [Prod.mk.injEq] at heq
      obtain ⟨rfl, -⟩ := heq
      have hnext : h.node.nextMembership = none := ha
      rw [Node.membershipTransition, hnext, Option.some.injEq] at hy
      exact hy ▸ hh
  | request | stop | start | crash | crashInDump => exact ha.elim

/-- A host on an empty directory. -/
lemma Host.Replayed.boot {config : NodeConfig} {user : σ} {clockMs : ℤ}
    (hstart : M.view (E.reload user) = M.start) : (Host.boot E config user clockMs).Replayed M := by
  refine ⟨⟨rfl, le_rfl, le_rfl, le_rfl, ?_⟩, rfl⟩
  have hinit : (Replica.mk ([] : List LogEntry) 0 M.start).Faithful M.take M.start :=
    Replica.Faithful.init []
  rw [← hstart] at hinit
  exact hstart ▸ hinit

/-! ### Clusters -/

variable {members : List Str} {config : Str → NodeConfig} {c c' : Cluster σ ν}

/-- **Every node of a run.** -/
lemma replayed_covered (M : Machine E τ) (hboot : ∀ n, Bootstrapped members n (config n))
    {user : Str → σ} (hstart : ∀ n, M.view (E.reload (user n)) = M.start) {clockMs : ℤ}
    (hrun : Run (Cluster.exec fun _ => E) (CoveredAct fun _ => E)
      (Cluster.boot (fun _ => E) config user clockMs) c) (n : Str) : (c.hosts n).Replayed M := by
  induction hrun with
  | refl => exact Host.Replayed.boot (hstart n)
  | @tail c c' hrun hst ih =>
      obtain ⟨act, hact, hexec⟩ := hst
      obtain ⟨a, hat, hon⟩ := clusterAt_coveredBoot hboot hrun
      rw [Cluster.exec, Option.ite_none_right_eq_some] at hexec
      obtain ⟨-, hmap⟩ := hexec
      obtain ⟨⟨h', sends⟩, hstep, rfl⟩ := Option.map_eq_some_iff.mp hmap
      by_cases hn : n = act.host
      · subst hn
        simp only [Function.update_self]
        refine ih.exec (fun m hm => ?_) (sparing_of_covered hact) hstep
        rcases ((hat.hosts act.host).running (hon act.host)).ok.pending.appends m hm with
          hnil | ⟨-, hheard, -⟩
        · exact absurd hnil List.not_mem_nil
        · exact (hheard.sane trivial).commit
      · simp only [Function.update_of_ne hn]
        exact ih

/-- The entries a node has applied, of a log that is not compacted. -/
def Node.applied (x : Node σ ν) : List LogEntry := x.log.take x.lastApplied.toNat

/-- The node with what it knows to be committed is a replica, which executed what was applied. -/
lemma Node.Replayed.committed (h : x.Replayed M) :
    (M.replica x x.committed).Faithful M.take M.start ∧
      (M.replica x x.committed).executed = x.applied := by
  have hle : x.lastApplied.toNat ≤ x.commitIndex.toNat := Int.toNat_le_toNat h.applied_le
  have htake : x.committed.take x.lastApplied.toNat = x.applied := by
    rw [Node.committed, List.take_take, min_eq_left hle]
    rfl
  have hlen : x.lastApplied.toNat ≤ x.committed.length := by
    have := h.applied_le_length
    rw [Node.committed, List.length_take]
    omega
  exact ⟨h.faithful.relog hlen htake, htake⟩

/-- The second node is where the commands that it applied beyond the first one lead the first. -/
def Machine.Ahead (M : Machine E τ) (x y : Node σ ν) : Prop :=
  x.applied <+: y.applied ∧
    M.view y.user = M.replay (M.view x.user) (y.applied.drop x.lastApplied.toNat)

lemma ahead_of_replayed (hx : x.Replayed M) (hy : y.Replayed M)
    (hlog : Replica.Comparable (M.replica x x.committed) (M.replica y y.committed))
    (hle : x.lastApplied ≤ y.lastApplied) : M.Ahead x y := by
  obtain ⟨hfaithful, hexec⟩ := hx.committed
  obtain ⟨hfaithful', hexec'⟩ := hy.committed
  have hcount : (M.replica x x.committed).count ≤ (M.replica y y.committed).count :=
    Int.toNat_le_toNat hle
  refine ⟨?_, ?_⟩
  · rw [← hexec, ← hexec']
    exact hfaithful.executed_prefix hfaithful' hlog hcount
  · rw [← hexec']
    exact hfaithful.follows hfaithful' hlog hcount

/-- **Replicas of one state machine**: of two nodes, at two moments of a run, the one that applied
more is where the commands in between lead the other; equal applied indices mean equal views. -/
theorem replicas_agree (M : Machine E τ) (hboot : ∀ n, Bootstrapped members n (config n))
    (user : Str → σ) (hstart : ∀ n, M.view (E.reload (user n)) = M.start) (clockMs : ℤ)
    (hrun : Run (Cluster.exec fun _ => E) (CoveredAct fun _ => E)
      (Cluster.boot (fun _ => E) config user clockMs) c)
    (hrun' : Run (Cluster.exec fun _ => E) (CoveredAct fun _ => E) c c') (p q : Str) :
    ((c.hosts p).node.lastApplied ≤ (c'.hosts q).node.lastApplied →
        M.Ahead (c.hosts p).node (c'.hosts q).node) ∧
      ((c'.hosts q).node.lastApplied ≤ (c.hosts p).node.lastApplied →
        M.Ahead (c'.hosts q).node (c.hosts p).node) := by
  obtain ⟨a, hat, hon⟩ := clusterAt_coveredBoot hboot hrun
  have hp := (replayed_covered M hboot hstart hrun p).node
  have hq := (replayed_covered M hboot hstart (hrun.trans hrun') q).node
  have hlog : Replica.Comparable (M.replica (c.hosts p).node (c.hosts p).node.committed)
      (M.replica (c'.hosts q).node (c'.hosts q).node.committed) := hat.comparable hon hrun' p q
  exact ⟨ahead_of_replayed hp hq hlog, ahead_of_replayed hq hp hlog.symm⟩

/-! ### The key-value application -/

/-- `KVApp`, with the JSON functions for lists of members and `int`. -/
def kvEnv (dumps : List Str → Str) (loads : Str → Option (List Str)) (int : Str → Option ℤ) :
    Env KVApp (Dict Str Str) :=
  { apply := KVApp.apply, reload := KVApp.reload, snapshot := KVApp.data
    restoreSnapshot := KVApp.restoreSnapshot, emptyObject := [], dumps := dumps, loads := loads
    int := int }

/-- What a command makes of the data. -/
def kvStep (data : Dict Str Str) (command : Command) : Dict Str Str :=
  if command.op = "set".toList then
    (command.value.map fun value => data.set command.key value).getD data
  else data.pop command.key

/-- The data are a view of the application. -/
def kvMachine (dumps : List Str → Str) (loads : Str → Option (List Str))
    (int : Str → Option ℤ) : Machine (kvEnv dumps loads int) (Dict Str Str) where
  view := KVApp.data
  step := kvStep
  start := []
  apply := by
    intro u u' command h
    change KVApp.apply u command = some u' at h
    rw [KVApp.apply] at h
    rw [kvStep]
    split_ifs at h ⊢ with hset hdelete
    · obtain ⟨value, hvalue, rfl⟩ := Option.map_eq_some_iff.mp h
      rw [hvalue]
      rfl
    · rw [← Option.some.inj h]
      rfl
  restore := fun _ => rfl

/-- The application of the example; no list of members is read or written. -/
def plainKv : Env KVApp (Dict Str Str) :=
  kvEnv (fun _ => []) (fun _ => some []) decimalInt

/-- Three key-value stores without files. -/
def threeStores : Cluster KVApp (Dict Str Str) :=
  Cluster.boot (fun _ => plainKv) (impatient [n1, n2, n3]) (fun _ => KVApp.init none) 0

/-- A whole tick of the role machine of a store. -/
def storeTick (n : Str) (clockMs : ℤ) (ms : List Message) (cs : List Command) :
    List (ClusterAct KVApp) :=
  [⟨n, .latch clockMs ms cs⟩, ⟨n, .transition clockMs⟩, ⟨n, .dump⟩]

/-- An assignment. -/
def setCommand : Command := { op := "set".toList, key := "x".toList, value := some "1".toList }

/-- The leader `n1` and then `n2` apply an assignment. -/
def sharedSet : List (ClusterAct KVApp) :=
  storeTick n1 1 [] [] ++ storeTick n2 0 [voteRequest n1 n2 1 0 0] [] ++
    storeTick n1 1 [voteGrant n2 n1 1] [] ++ storeTick n1 1 [] [] ++
    storeTick n1 1 [] [setCommand] ++
    storeTick n2 0 [batch n1 n2 1 0 0 [] [⟨1, 1, setCommand, n1⟩] 0] [] ++
    storeTick n1 1 [appendAnswer n2 n1 1 true 1] [] ++ storeTick n1 60 [] [] ++
    storeTick n2 0 [batch n1 n2 1 1 1 n1 [] 1] []

/-- Both hold what was assigned. -/
theorem replicas_agree_set : ∃ c,
    Run (Cluster.exec fun _ => plainKv) (CoveredAct fun _ => plainKv) threeStores c ∧
    (c.hosts n1).node.user.get "x".toList = some "1".toList ∧
    (c.hosts n1).node.lastApplied = 1 ∧ (c.hosts n2).node.lastApplied = 1 ∧
    (kvMachine (fun _ => []) (fun _ => some []) decimalInt).Ahead
      (c.hosts n1).node (c.hosts n2).node := by
  have hexec : (execAll (Cluster.exec fun _ => plainKv)
      (fun c act => decide (CoveredAct (fun _ => plainKv) c act)) threeStores sharedSet).any
        (fun c => decide ((c.hosts n1).node.user.get "x".toList = some "1".toList ∧
          (c.hosts n1).node.lastApplied = 1 ∧ (c.hosts n2).node.lastApplied = 1)) = true := by
    decide +kernel
  obtain ⟨c, hrun, hc⟩ := Run.exists_of_execAll hexec
  obtain ⟨hget, hp, hq⟩ := of_decide_eq_true hc
  have hrun' := hrun.mono (fun _ _ => of_decide_eq_true)
  refine ⟨c, hrun', hget, hp, hq, ?_⟩
  exact (replicas_agree (kvMachine (fun _ => []) (fun _ => some []) decimalInt) bootstrapped_three
    (fun _ => KVApp.init none) (fun _ => rfl) 0 hrun' (Run.refl c) n1 n2).1 (by rw [hp, hq])

end RaftRx.Python
