import RaftRx.C.StateMachineSafety
import RaftRx.C.WriteAhead

/-!
The applied state of a single C node without compaction.

Whatever the node is sent, also batches that replace entries it has applied already, the state of
its application is what the applied part of its log makes of the empty state.

* `Application.replay`: the empty state after the commands of some entries;
* `Node.Replayed`: applied index, commit index and end of the log are in order, and the application
  is the replay of the applied entries;
* `Node.Replayed.absorbed`: an accepted batch, with and without a rebuild;
* `Host.Replayed`, `replayed_exec`: every act keeps it so;
* `applied_state_replayed`: the invariant over whole runs.
-/

namespace RaftRx.C

open Protocol (Role)

variable {σ : Type*} {A : Application σ} {empty : σ} {x y : Node σ} {H : Message → Prop}
  {C : Command → Prop} {m : Message} {disk : Disk}

/-! ### Replay -/

/-- What the application makes of a command; nothing if it has no `apply`. -/
def Application.run (A : Application σ) (u : σ) (c : Command) : σ :=
  match A.apply with
  | some apply => apply u c
  | none => u

/-- The empty state after the commands of the entries that are not the engine's own. -/
def Application.replay (A : Application σ) (empty : σ) (es : List LogEntry) : σ :=
  ((es.map LogEntry.command).filter fun c => !c.isInternal).foldl A.run empty

/-- `reload` puts the application back to its empty state. -/
def Application.ReloadsTo (A : Application σ) (empty : σ) : Prop :=
  ∃ reload, A.reload = some reload ∧ ∀ u, reload u = empty

lemma replay_concat (es : List LogEntry) (e : LogEntry) : A.replay empty (es ++ [e]) =
    if e.command.isInternal then A.replay empty es else A.run (A.replay empty es) e.command := by
  rw [Application.replay, List.map_append, List.filter_append, List.foldl_append]
  cases he : e.command.isInternal with
  | true => simp [he, Application.replay]
  | false => simp [he, Application.replay]

/-- Indices in order, and the application in the state the applied entries make of the empty
one. -/
structure Node.Replayed (A : Application σ) (empty : σ) (x : Node σ) : Prop where
  snap : x.snapshotLastIncludedIndex = 0
  applied_nonneg : 0 ≤ x.lastApplied
  applied_le : x.lastApplied ≤ x.commitIndex
  commit_le : x.commitIndex ≤ x.lastLogIndex
  user : x.user = A.replay empty (x.log.take x.lastApplied.toNat)

lemma Node.Replayed.frame (h : x.Replayed A empty)
    (hs : y.snapshotLastIncludedIndex = x.snapshotLastIncludedIndex)
    (ha : y.lastApplied = x.lastApplied) (hc : y.commitIndex = x.commitIndex)
    (hl : y.log = x.log) (hu : y.user = x.user) : y.Replayed A empty := by
  obtain ⟨h1, h2, h3, h4, h5⟩ := h
  refine ⟨hs.trans h1, ha ▸ h2, by rw [ha, hc]; exact h3, ?_, ?_⟩
  · rw [hc, Node.lastLogIndex, hs, hl]
    exact h4
  · rw [hu, hl, ha]
    exact h5

lemma Node.Replayed.last (h : x.Replayed A empty) : x.lastLogIndex = x.log.length := by
  rw [Node.lastLogIndex, h.snap, zero_add]

lemma Node.Replayed.applied_le_length (h : x.Replayed A empty) :
    x.lastApplied.toNat ≤ x.log.length := by
  have h1 := h.applied_nonneg
  have h2 := h.applied_le
  have h3 := h.commit_le
  rw [h.last] at h3
  omega

/-- An entry at the end of the log is not applied yet. -/
lemma Node.Replayed.append_end (h : x.Replayed A empty) {e : LogEntry}
    (hs : y.snapshotLastIncludedIndex = x.snapshotLastIncludedIndex)
    (ha : y.lastApplied = x.lastApplied) (hc : y.commitIndex = x.commitIndex)
    (hl : y.log = x.log ++ [e]) (hu : y.user = x.user) : y.Replayed A empty := by
  refine ⟨hs.trans h.snap, ha ▸ h.applied_nonneg, by rw [ha, hc]; exact h.applied_le, ?_, ?_⟩
  · have := h.commit_le
    rw [h.last] at this
    rw [Node.lastLogIndex, hs, h.snap, hl, hc, List.length_append]
    push_cast
    omega
  · rw [hu, hl, ha, List.take_append_of_le_length h.applied_le_length]
    exact h.user

lemma Node.Replayed.turn (hx : x.Replayed A empty) (h : Turn H C x y) : y.Replayed A empty := by
  cases h with
  | commit k hlt hle => exact ⟨hx.snap, hx.applied_nonneg, hx.applied_le.trans hlt.le, hle, hx.user⟩
  | append c _ _ => exact hx.append_end rfl rfl rfl rfl rfl
  | tune | role | lead | raise | campaign | vote | queue | clear | report | backOff =>
      exact hx.frame rfl rfl rfl rfl rfl

lemma Node.Replayed.turns (hx : x.Replayed A empty) (h : Turns H C x y) : y.Replayed A empty :=
  h.invariant (fun _ _ hx h => hx.turn h) hx

/-! ### Accepting a batch -/

/-- Without a snapshot a rebuild starts from the empty state. -/
lemma baseUser_empty (hA : A.ReloadsTo empty) (hs : x.snapshotLastIncludedIndex = 0) :
    x.baseUser A = empty := by
  obtain ⟨reload, hr, hempty⟩ := hA
  rw [Node.baseUser, Node.resetApplication, if_neg (by rw [hs]; simp), hr]
  exact hempty _

/-- **A batch that replaces applied entries** rewinds the application; any other one leaves them
alone. -/
lemma Node.Replayed.absorbed (hx : x.Replayed A empty) (hA : A.ReloadsTo empty)
    (hlc : 0 ≤ m.leaderCommit) (d : Bool) :
    Node.Replayed A empty { x.absorbed A m with persistDirty := d } := by
  have hlast : Node.lastLogIndex { x with log := (x.merged m).1 } = (x.merged m).1.length := by
    rw [Node.lastLogIndex]
    change x.snapshotLastIncludedIndex + _ = _
    rw [hx.snap, zero_add]
  have hle := settledCommit_le_last { x with log := (x.merged m).1 } m (x.merged m).2
  cases hb : (x.merged m).2 with
  | true =>
      obtain ⟨happ, huser, hcommit⟩ := absorbed_rebuild (A := A) hb
      rw [hx.snap] at happ
      rw [baseUser_empty hA hx.snap] at huser
      rw [hlast] at hcommit
      refine ⟨hx.snap, happ.ge, ?_, hle, ?_⟩
      · change (x.absorbed A m).lastApplied ≤ (x.absorbed A m).commitIndex
        rw [happ, hcommit]
        omega
      · change (x.absorbed A m).user = A.replay empty
          ((x.absorbed A m).log.take (x.absorbed A m).lastApplied.toNat)
        rw [happ, huser]
        rfl
  | false =>
      obtain ⟨happ, huser, hcommit⟩ := absorbed_keep (A := A) hb
      have h0 := hx.applied_nonneg
      have hk : x.snapshotLastIncludedIndex + (x.lastApplied.toNat : ℤ) = x.lastApplied := by
        rw [hx.snap]
        omega
      obtain ⟨htake, hlen⟩ := mergeEntries_applied m.entries x.lastApplied.toNat x false
        hx.applied_le_length hk.le hb
      have hlen' : x.lastApplied ≤ Node.lastLogIndex { x with log := (x.merged m).1 } := by
        rw [hlast]
        have : x.lastApplied.toNat ≤ (x.merged m).1.length := hlen
        omega
      have hmono : x.lastApplied ≤ (x.absorbed A m).commitIndex := by
        have hle := hx.applied_le
        rw [hcommit, settledCommit, if_neg Bool.false_ne_true]
        split
        · rename_i hlt
          change x.commitIndex < m.leaderCommit at hlt
          exact le_min (by omega) hlen'
        · split
          · exact hlen'
          · exact hle
      refine ⟨hx.snap, ?_, ?_, hle, ?_⟩
      · change 0 ≤ (x.absorbed A m).lastApplied
        rw [happ]
        exact h0
      · change (x.absorbed A m).lastApplied ≤ (x.absorbed A m).commitIndex
        rw [happ]
        exact hmono
      · change (x.absorbed A m).user = A.replay empty
          ((x.absorbed A m).log.take (x.absorbed A m).lastApplied.toNat)
        rw [happ, huser, hx.user, ← htake]
        rfl

lemma Node.Replayed.transition (hx : x.Replayed A empty) (hA : A.ReloadsTo empty)
    (hlc : ∀ m ∈ x.pendingAppendEntries, 0 ≤ m.leaderCommit) :
    (x.transition A).Replayed A empty := by
  rcases transition_turns (C := fun _ => False) (A := A) x with h | ⟨m, rest, hacc, hrest, htrans⟩
  · exact hx.turns h
  · obtain ⟨t, v, l, e, d₀, d, z, -, hz, -, heq, -⟩ :=
      transition_accept (C := fun _ => False) hacc hrest htrans
    have hzr : z.Replayed A empty := hx.turns hz
    have hm : 0 ≤ m.leaderCommit := hlc m (mem_of_eq_cons hrest).1
    rw [heq]
    exact (hzr.absorbed hA hm d).turns (H := fun _ => False) (C := fun _ => False)
      (turns_queueMessage rfl fun _ => rfl)

/-! ### The end of a tick -/

/-- Applying the next entry. -/
lemma Node.Replayed.applyNext (hx : x.Replayed A empty) (hlt : x.lastApplied < x.commitIndex) :
    (x.applyNext A).1.Replayed A empty := by
  obtain ⟨happ, hla⟩ := applying_applyNext (A := A) x
  have h0 := hx.applied_nonneg
  have hk : x.lastApplied.toNat < x.log.length := by
    have := hx.commit_le
    rw [hx.last] at this
    omega
  have hentry : x.entryAt (x.lastApplied + 1) = x.log[x.lastApplied.toNat] := by
    rw [← Node.entryAt_eq (x := x) (List.getElem?_eq_getElem hk), hx.snap]
    congr 1
    omega
  have huser : (x.applyNext A).1.user =
      if x.log[x.lastApplied.toNat].command.isInternal then x.user
      else A.run x.user x.log[x.lastApplied.toNat].command := by
    have hcase := applyCommand_case (A := A) { x with lastApplied := x.lastApplied + 1 }
      (x.entryAt (x.lastApplied + 1)).command
    change (Node.applyCommand A { x with lastApplied := x.lastApplied + 1 }
      (x.entryAt (x.lastApplied + 1)).command).user = _
    rw [hentry] at hcase ⊢
    generalize x.log[x.lastApplied.toNat].command = c at hcase ⊢
    generalize Node.applyCommand A { x with lastApplied := x.lastApplied + 1 } c = z at hcase ⊢
    cases hcase with
    | user apply hint happly =>
        rw [hint, if_neg Bool.false_ne_true, Application.run, happly]
    | noUser hint happly => rw [hint, if_neg Bool.false_ne_true, Application.run, happly]
    | threshold t hop => rw [show c.isInternal = true by simp [Command.isInternal, hop], if_pos rfl]
    | skip hint _ => rw [hint, if_pos rfl]
    | enter hop _ _ =>
        rw [show c.isInternal = true by simp [Command.isInternal, hop], if_pos rfl]
        rfl
    | leave hop hidx hne =>
        obtain ⟨r, l, v, s, heq, -⟩ := applyLeaveJoint_eq
          (x := { x with lastApplied := x.lastApplied + 1 }) hidx hne
        rw [heq, show c.isInternal = true by simp [Command.isInternal, hop], if_pos rfl]
        rfl
  refine ⟨happ.snapIndex.trans hx.snap, ?_, ?_, ?_, ?_⟩
  · rw [hla]
    omega
  · rw [hla, happ.commit]
    omega
  · rw [happ.commit, Node.lastLogIndex, happ.snapIndex, happ.log]
    exact hx.commit_le
  · have htake : x.log.take (x.lastApplied + 1).toNat =
        x.log.take x.lastApplied.toNat ++ [x.log[x.lastApplied.toNat]] := by
      rw [show (x.lastApplied + 1).toNat = x.lastApplied.toNat + 1 by omega,
        List.take_succ_eq_append_getElem hk]
    rw [huser, happ.log, hla, htake, replay_concat, ← hx.user]

/-- **The apply loop** passes on entries of the log, in order. -/
lemma Node.Replayed.applyCommitted (k : ℕ) : ∀ x : Node σ, x.Replayed A empty →
    x.lastApplied + k ≤ x.commitIndex →
    (x.applyCommitted A k).1.Replayed A empty ∧
      ∀ p ∈ (x.applyCommitted A k).2, 0 < p.1 ∧ p.1 ≤ x.lastLogIndex ∧
        x.log[(p.1 - 1).toNat]? = some p.2 := by
  induction k with
  | zero => exact fun x hx _ => ⟨hx, fun p hp => absurd hp List.not_mem_nil⟩
  | succ k ih =>
      intro x hx hle
      push_cast at hle
      obtain ⟨happ, hla⟩ := applying_applyNext (A := A) x
      have h0 := hx.applied_nonneg
      have hc := hx.commit_le
      obtain ⟨hr, hrest⟩ := ih (x.applyNext A).1 (hx.applyNext (by omega)) (by
        rw [hla, happ.commit]
        omega)
      refine ⟨hr, fun p hp => ?_⟩
      rcases List.mem_cons.mp hp with rfl | hp
      · have hk : x.lastApplied.toNat < x.log.length := by
          rw [hx.last] at hc
          omega
        change 0 < x.lastApplied + 1 ∧ x.lastApplied + 1 ≤ x.lastLogIndex ∧
          x.log[(x.lastApplied + 1 - 1).toNat]? = some (x.entryAt (x.lastApplied + 1))
        refine ⟨by omega, by omega, ?_⟩
        rw [show x.lastApplied + 1 - 1 = x.lastApplied by omega, List.getElem?_eq_getElem hk,
          ← Node.entryAt_eq (x := x) (List.getElem?_eq_getElem hk), hx.snap]
        congr 2
        omega
      · obtain ⟨h1, h2, h3⟩ := hrest p hp
        rw [Node.lastLogIndex, happ.snapIndex, happ.log] at h2
        rw [happ.log] at h3
        exact ⟨h1, h2, h3⟩

lemma Node.Replayed.advanced (hx : x.Replayed A empty) : x.advanced.Replayed A empty := by
  rcases advanced_cases x with h | ⟨k, hlt, hle, h⟩
  · rw [h]
    exact hx
  · rw [h]
    exact ⟨hx.snap, hx.applied_nonneg, hx.applied_le.trans hlt.le, hle, hx.user⟩

lemma Node.Replayed.commitAndApply (hx : x.Replayed A empty) :
    (x.commitAndApply A).1.Replayed A empty ∧
      ∀ p ∈ (x.commitAndApply A).2, 0 < p.1 ∧ p.1 ≤ x.lastLogIndex ∧
        x.log[(p.1 - 1).toNat]? = some p.2 := by
  have hsame : x.advanced.log = x.log ∧ x.advanced.lastLogIndex = x.lastLogIndex := by
    rcases advanced_cases x with h | ⟨k, -, -, h⟩
    all_goals
      rw [h]
      exact ⟨rfl, rfl⟩
  have hle := hx.advanced.applied_le
  obtain ⟨hr, happ⟩ := Node.Replayed.applyCommitted x.advanced.toApplyCount x.advanced hx.advanced
    (by rw [Node.toApplyCount]; omega)
  rw [commitAndApply_eq]
  rw [hsame.1, hsame.2] at happ
  exact ⟨hr, happ⟩

lemma Node.Replayed.maybeDriveMembership (hx : x.Replayed A empty) :
    x.maybeDriveMembership.Replayed A empty := by
  have hcase := maybeDriveMembership_cases x
  generalize x.maybeDriveMembership = y at hcase ⊢
  cases hcase with
  | enter => exact hx.append_end rfl rfl rfl rfl rfl
  | leave => exact hx.append_end rfl rfl rfl rfl rfl
  | none | fullEnter | joint | fullLeave | stable => exact hx.frame rfl rfl rfl rfl rfl

/-- A tick that compacts nothing. -/
lemma Node.Replayed.dumped (hx : x.Replayed A empty)
    (hno : (((x.commitAndApply A).1.maybeDriveMembership).maybeCompact A).2 = none) :
    (x.dumped A).Replayed A empty := by
  have hdrive := hx.commitAndApply.1.maybeDriveMembership
  rw [Node.dumped]
  rcases maybeCompact_cases (A := A) (x.commitAndApply A).1.maybeDriveMembership with
    heq | ⟨data, -, -, -, -, heq⟩
  · rw [heq]
    exact hdrive
  · rw [heq] at hno
    simp at hno

/-! ### Hosts -/

/-- The replaced file is `snapshot.bin`. -/
def Write.isSnapshot : Write → Bool
  | .snapshot _ => true
  | _ => false

/-- The end of the tick compacts the log. -/
def Node.compacts (A : Application σ) (x : Node σ) : Bool :=
  (x.dumpOutputs A).writes.any Write.isSnapshot

lemma not_mem_of_not_compacts (h : x.compacts A = false) (f : SnapshotFile) :
    Write.snapshot f ∉ (x.dumpOutputs A).writes := by
  intro hf
  have htrue : x.compacts A = true := List.any_eq_true.mpr ⟨_, hf, rfl⟩
  rw [h] at htrue
  exact Bool.noConfusion htrue

lemma compacts_iff : x.compacts A = true ↔ ∃ f, Write.snapshot f ∈ (x.dumpOutputs A).writes := by
  refine ⟨fun h => ?_, fun ⟨f, hf⟩ => List.any_eq_true.mpr ⟨_, hf, rfl⟩⟩
  obtain ⟨w, hw, hsnap⟩ := List.any_eq_true.mp h
  cases w with
  | snapshot f => exact ⟨f, hw⟩
  | metaText | logText => exact absurd hsnap Bool.false_ne_true

instance (h : Host σ) : (a : HostAct σ) → Decidable (CrashOk A h a)
  | .crash _ _ => inferInstanceAs (Decidable (_ = _))
  | .crashInDump writes _ _ _ => decidable_of_iff
      (h.config.learner = false ∧ (writes = 1 → h.node.compacts A = true →
        (readMeta h.disk.metaText).snapshotLastIncludedIndex = 0))
      (by rw [CrashOk, compacts_iff])
  | .crashInReset _ _ _ => inferInstanceAs (Decidable (_ ∧ (_ → _)))
  | .latch _ _ _ _ | .transition _ | .dump | .stop | .start _ | .request _ | .resetForJoin _ _ =>
      inferInstanceAs (Decidable True)

lemma maybeCompact_of_not_compacts (hrun : x.running = true) (h : x.compacts A = false) :
    (((x.commitAndApply A).1.maybeDriveMembership).maybeCompact A).2 = none := by
  have hno := not_mem_of_not_compacts h
  rw [dumpOutputs_eq hrun] at hno
  cases hfile : (((x.commitAndApply A).1.maybeDriveMembership).maybeCompact A).2 with
  | none => rfl
  | some f => exact absurd (by simp [hfile]) (hno f)

/-- What the environment may do to the node: leaders' commit indices are not negative, texts are
free of separators, and nothing is compacted. -/
def QuietAct (A : Application σ) (h : Host σ) : HostAct σ → Prop
  | .latch _ _ messages commands =>
      (∀ m ∈ messages, MessageFree separators m ∧ 0 ≤ m.leaderCommit) ∧
      ∀ c ∈ commands, CommandFree separators c
  | .request members => ∀ id ∈ members, Free separators id
  | .dump | .crashInDump _ _ _ _ => h.node.compacts A = false
  | .transition _ | .stop | .start _ | .crash _ _ => True
  | .resetForJoin _ _ | .crashInReset _ _ _ => False

instance (h : Host σ) : (a : HostAct σ) → Decidable (QuietAct A h a)
  | .latch _ _ messages commands => inferInstanceAs (Decidable
      ((∀ m ∈ messages, MessageFree separators m ∧ 0 ≤ m.leaderCommit) ∧
        ∀ c ∈ commands, CommandFree separators c))
  | .request members => inferInstanceAs (Decidable (∀ id ∈ members, Free separators id))
  | .dump | .crashInDump _ _ _ _ => inferInstanceAs (Decidable (h.node.compacts A = false))
  | .transition _ | .stop | .start _ | .crash _ _ => inferInstanceAs (Decidable True)
  | .resetForJoin _ _ | .crashInReset _ _ _ => inferInstanceAs (Decidable False)

lemma QuietAct.spelled {h : Host σ} {a : HostAct σ} (ha : QuietAct A h a) :
    a.Spelled separators := by
  cases a with
  | latch => exact ⟨fun m hm => (ha.1 m hm).1, ha.2⟩
  | request => exact ha
  | transition | dump | stop | start | resetForJoin | crash | crashInDump | crashInReset => trivial

lemma QuietAct.crashOk {h : Host σ} {a : HostAct σ} (ha : QuietAct A h a)
    (hl : h.config.learner = false) : CrashOk A h a := by
  cases a with
  | crash => exact hl
  | crashInDump => exact ⟨hl, fun _ ⟨f, hf⟩ => absurd hf (not_mem_of_not_compacts ha f)⟩
  | crashInReset => exact ha.elim
  | latch | request | transition | dump | stop | start | resetForJoin => trivial

/-- Files from which a load starts with nothing applied. -/
structure Disk.Plain (disk : Disk) : Prop where
  snap : (readMeta disk.metaText).snapshotLastIncludedIndex = 0
  commit : 0 ≤ (readMeta disk.metaText).commitIndex
  snapshot : disk.snapshot = none

/-- A host whose application is the replay of its log. -/
structure Host.Replayed (A : Application σ) (empty : σ) (h : Host σ) : Prop where
  sound : h.Sound separators
  node : h.node.Replayed A empty
  commits : ∀ m, h.node.Waiting m → 0 ≤ m.leaderCommit
  learner : h.config.learner = false
  disk : h.disk.Plain

/-- **A load** empties the application. -/
lemma replayed_load (hA : A.ReloadsTo empty) (hd : disk.Plain) (y : Node σ) :
    (y.load A disk).Replayed A empty := by
  obtain ⟨reload, hr, hempty⟩ := hA
  have hnone : matchingSnapshot (readMeta disk.metaText) disk.snapshot = none := by
    rw [hd.snapshot]
    rfl
  have h0 := hd.snap
  have hc := hd.commit
  rw [Node.load]
  simp only [hnone, hr, hempty]
  refine ⟨h0, le_rfl, ?_, min_le_right _ _, rfl⟩
  exact le_min hc (by dsimp only; omega)

lemma replayed_start (hA : A.ReloadsTo empty) (hd : disk.Plain) (x : Node σ) :
    (x.start A disk).Replayed A empty := by
  have hload := replayed_load hA hd x
  rw [Node.start]
  generalize x.load A disk = z at hload ⊢
  split
  · exact hload.frame rfl rfl rfl rfl rfl
  · exact hload.frame rfl rfl rfl rfl rfl

lemma replayed_init {config : NodeConfig} (hA : A.ReloadsTo empty) (hl : config.learner = false)
    (hd : disk.Plain) (user : σ) (clock : ℤ) :
    (Node.init A config disk user clock).Replayed A empty := by
  have hload := replayed_load hA hd (Node.zero config user clock)
  obtain ⟨s, d, e, heq⟩ := init_eq (A := A) hl disk user clock
  have hloaded : (Node.loaded A config disk user clock).Replayed A empty := by
    rw [Node.loaded]
    generalize (Node.zero config user clock).load A disk = z at hload ⊢
    split
    · exact hload.frame rfl rfl rfl rfl rfl
    · exact hload
  rw [heq]
  exact hloaded.frame rfl rfl rfl rfl rfl

/-- Nothing waits in a node that was just initialised. -/
lemma waiting_init {config : NodeConfig} (hl : config.learner = false) (disk : Disk) (user : σ)
    (clock : ℤ) (m : Message) : ¬ (Node.init A config disk user clock).Waiting m := by
  obtain ⟨s, d, e, heq⟩ := init_eq (A := A) hl disk user clock
  obtain ⟨u, la, buf, c, t, hloaded⟩ := loaded_eq (A := A) config disk user clock
  rw [heq, hloaded]
  rintro (hm | hm)
  · exact List.not_mem_nil hm
  · exact List.not_mem_nil hm

/-- The `meta.txt` of a node whose application is the replay of its log. -/
lemma Node.Replayed.plain (hx : x.Replayed A empty) (hs : x.Sound separators) (hfit : x.Fits)
    {log : Option (List Char)} :
    Disk.Plain { metaText := some (writeMeta x), logText := log, snapshot := none } := by
  obtain ⟨-, -, -, h1, h2, -⟩ := numbers_readMeta hfit
    (hs.spelled.linesOk separators_self.newline hfit)
  refine ⟨?_, ?_, rfl⟩
  · exact h2.trans hx.snap
  · have h3 := hx.applied_nonneg
    have h4 := hx.applied_le
    rw [show (readMeta _).commitIndex = x.commitIndex from h1]
    omega

/-- The files some replacements of a tick leave. -/
lemma Host.Replayed.writes {h : Host σ} (hh : h.Replayed A empty) (hrun : h.node.running = true)
    (hno : h.node.compacts A = false) (hfit : (h.node.dumped A).Fits) (k : ℕ) :
    (h.disk.writeAll ((h.node.dumpOutputs A).writes.take k)).Plain := by
  have hnone := maybeCompact_of_not_compacts hrun hno
  have hdump := hh.node.dumped hnone
  have hsound := hh.sound.node.dumped (A := A) separators_self
  rw [dumpOutputs_eq hrun, hnone]
  rcases writeAll_cases h.disk none (h.node.dumped A) k (by simp) with
    heq | ⟨f, hf, -⟩ | ⟨-, heq⟩ | ⟨-, heq⟩
  · dsimp only
    rw [heq]
    exact hh.disk
  · exact absurd hf (by simp)
  · dsimp only
    rw [heq, hh.disk.snapshot]
    exact hdump.plain hsound hfit
  · dsimp only
    rw [heq, hh.disk.snapshot]
    exact hdump.plain hsound hfit

lemma plain_empty : Disk.empty.Plain := ⟨rfl, le_rfl, rfl⟩

/-- **A host that starts on an empty data directory.** -/
lemma replayed_boot {config : NodeConfig} (hA : A.ReloadsTo empty)
    (hconf : config.Spelled separators) (hl : config.learner = false) (user : σ) (clock : ℤ) :
    (Host.boot A config user clock).Replayed A empty :=
  ⟨sound_boot separators_self hconf user clock, replayed_init hA hl plain_empty user clock,
    fun m hm => absurd hm (waiting_init hl _ _ _ m), hl, plain_empty⟩

/-- A change of the node alone. -/
lemma Host.Replayed.node' {h : Host σ} (hh : h.Replayed A empty) {p : Phase}
    (hs : Host.Sound separators { h with node := y, phase := p }) (hy : y.Replayed A empty)
    (hw : ∀ m, y.Waiting m → 0 ≤ m.leaderCommit) :
    Host.Replayed A empty { h with node := y, phase := p } :=
  ⟨hs, hy, hw, hh.learner, hh.disk⟩

/-- **Every quiet act keeps the application the replay of the log.** -/
lemma replayed_exec {h h' : Host σ} {a : HostAct σ} {e : Effect} (hA : A.ReloadsTo empty)
    (hh : h.Replayed A empty) (ha : QuietAct A h a) (he : h.exec A a = some (h', e)) :
    h'.Replayed A empty := by
  have hsound := sound_exec separators_self hh.sound ha.spelled (ha.crashOk hh.learner) he
  obtain ⟨hcase, hfit⟩ := exec_cases he
  cases hcase with
  | latch clock slots ms cs _ =>
      have hturns := turns_latchInputs (x := h.node) (H := (· ∈ ms)) (C := (· ∈ cs))
        (fun _ => id) (fun _ => id) clock slots
      exact hh.node' hsound (hh.node.turns hturns)
        (waiting_turns hturns (fun m hm => (ha.1 m hm).2) hh.commits)
  | transition clock _ =>
      have hclock : Node.Replayed A empty { h.node with clockMs := clock } :=
        hh.node.frame rfl rfl rfl rfl rfl
      exact hh.node' hsound (hclock.transition hA fun m hm => hh.commits m (Or.inl hm))
        (waiting_transition (x := { h.node with clockMs := clock }) hh.commits)
  | dumpStopped _ _ => exact hh.node' hsound (hh.node.frame rfl rfl rfl rfl rfl) hh.commits
  | dump _ hrun =>
      have hdump := hh.node.dumped (maybeCompact_of_not_compacts hrun ha)
      have hdisk := hh.writes hrun ha hfit (h.node.dumpOutputs A).writes.length
      rw [List.take_length] at hdisk
      exact ⟨hsound, hdump.frame rfl rfl rfl rfl rfl,
        fun m hm => hh.commits m (waiting_dumped h.node m hm), hh.learner, hdisk⟩
  | stop _ =>
      refine hh.node' hsound (hh.node.frame rfl rfl rfl rfl rfl) ?_
      rintro m (hm | hm)
      · exact absurd hm List.not_mem_nil
      · exact absurd hm List.not_mem_nil
  | start clock _ =>
      have hwait := (start_fields (A := A) { h.node with clockMs := clock } h.disk).2.2.2
      have hstart := replayed_start hA hh.disk { h.node with clockMs := clock }
      generalize Node.start A { h.node with clockMs := clock } h.disk = y at hsound hwait hstart ⊢
      exact hh.node' hsound hstart fun m hm => hh.commits m (hwait m hm)
  | request members _ =>
      obtain ⟨r, b, hreq⟩ := requestMembershipChange_eq h.node members
      refine hh.node' hsound ?_ ?_
      all_goals rw [hreq]
      · exact hh.node.frame rfl rfl rfl rfl rfl
      · exact hh.commits
  | resetForJoin | crashInReset => exact ha.elim
  | crash user clock =>
      exact ⟨hsound, replayed_init hA hh.learner hh.disk user clock,
        fun m hm => absurd hm (waiting_init hh.learner _ _ _ m), hh.learner, hh.disk⟩
  | crashInDump k j user clock _ hfits =>
      have hdisk : (h.disk.writeAll ((h.node.dumpOutputs A).writes.take k)).Plain := by
        cases hrun : h.node.running with
        | false =>
            rw [dumpOutputs_stopped hrun]
            simpa [Disk.writeAll] using hh.disk
        | true =>
            refine hh.writes hrun ha ?_ k
            rw [dumpOutputs_eq hrun] at hfits
            exact hfits
      exact ⟨hsound, replayed_init hA hh.learner hdisk user clock,
        fun m hm => absurd hm (waiting_init hh.learner _ _ _ m), hh.learner, hdisk⟩

/-- The entries an act applies come out of the log. -/
lemma Host.Replayed.applied {h h' : Host σ} {a : HostAct σ} {e : Effect}
    (hh : h.Replayed A empty) (he : h.exec A a = some (h', e)) :
    ∀ p ∈ e.applied, 0 < p.1 ∧ p.1 ≤ h.node.lastLogIndex ∧
      h.node.log[(p.1 - 1).toNat]? = some p.2 := by
  have hdump : ∀ p ∈ (h.node.dumpOutputs A).applied, 0 < p.1 ∧ p.1 ≤ h.node.lastLogIndex ∧
      h.node.log[(p.1 - 1).toNat]? = some p.2 := by
    cases hrun : h.node.running with
    | false =>
        rw [dumpOutputs_stopped hrun]
        simp
    | true =>
        rw [dumpOutputs_eq hrun]
        exact hh.node.commitAndApply.2
  obtain ⟨hcase, -⟩ := exec_cases he
  cases hcase with
  | dump => exact hdump
  | crashInDump => exact hdump
  | latch | transition | dumpStopped | stop | start | request | resetForJoin | crash
  | crashInReset =>
      exact fun p hp => absurd hp List.not_mem_nil

/-! ### Runs -/

lemma replayed_run {config : NodeConfig} (hA : A.ReloadsTo empty)
    (hconf : config.Spelled separators) (hl : config.learner = false) {user : σ} {clock : ℤ}
    {h : Host σ} (hrun : Run (Host.step A) (QuietAct A) (Host.boot A config user clock) h) :
    h.Replayed A empty :=
  hrun.invariant (fun _ _ _ hh ha hs => by
    obtain ⟨e, he⟩ := exec_of_step hs
    exact replayed_exec hA hh ha he) (replayed_boot hA hconf hl user clock)

/-- The entries of the log up to the applied index. -/
def Node.appliedEntries (x : Node σ) : List LogEntry :=
  x.log.filter fun e => decide (1 ≤ e.index ∧ e.index ≤ x.lastApplied)

/-- In a numbered log they are its first entries. -/
lemma appliedEntries_eq (h0 : 0 ≤ x.lastApplied) (hs : x.snapshotLastIncludedIndex = 0)
    (hn : x.Contiguous) : x.appliedEntries = x.log.take x.lastApplied.toNat := by
  rw [Node.Contiguous, hs] at hn
  have hindex : ∀ (k : ℕ) (e : LogEntry), x.log[k]? = some e → e.index = k + 1 := by
    intro k e he
    have := hn k e he
    push_cast at this
    omega
  rw [Node.appliedEntries]
  conv_lhs => rw [← List.take_append_drop x.lastApplied.toNat x.log, List.filter_append]
  have hlow : (x.log.take x.lastApplied.toNat).filter
      (fun e => decide (1 ≤ e.index ∧ e.index ≤ x.lastApplied)) =
        x.log.take x.lastApplied.toNat := by
    rw [List.filter_eq_self]
    intro e he
    obtain ⟨j, hj⟩ := List.getElem?_of_mem he
    rw [List.getElem?_take] at hj
    split at hj
    · have := hindex j e hj
      simp only [decide_eq_true_eq]
      omega
    · simp at hj
  have hhigh : (x.log.drop x.lastApplied.toNat).filter
      (fun e => decide (1 ≤ e.index ∧ e.index ≤ x.lastApplied)) = [] := by
    rw [List.filter_eq_nil_iff]
    intro e he
    obtain ⟨j, hj⟩ := List.getElem?_of_mem he
    rw [List.getElem?_drop] at hj
    have := hindex _ e hj
    simp only [decide_eq_true_eq]
    push_cast at this
    omega
  rw [hlow, hhigh, List.append_nil]

/-- **The applied state.**  In every run without compaction the applied index, the commit index and
the end of the log stay in order, the application is the empty state after the commands of the
applied entries of the log as it is now, and what a tick passes on lies inside the log. -/
theorem applied_state_replayed (A : Application σ) {empty : σ} (hA : A.ReloadsTo empty)
    {config : NodeConfig} (hconf : config.Spelled separators) (hl : config.learner = false)
    (user : σ) (clock : ℤ) {h : Host σ}
    (hrun : Run (Host.step A) (QuietAct A) (Host.boot A config user clock) h) :
    h.node.lastApplied ≤ h.node.commitIndex ∧ h.node.commitIndex ≤ h.node.lastLogIndex ∧
      h.node.user = A.replay empty h.node.appliedEntries ∧
      ∀ (a : HostAct σ) (h' : Host σ) (e : Effect), h.exec A a = some (h', e) →
        ∀ p ∈ e.applied, 0 < p.1 ∧ p.1 ≤ h.node.lastLogIndex ∧
          h.node.log[(p.1 - 1).toNat]? = some p.2 := by
  have hh := replayed_run hA hconf hl hrun
  refine ⟨hh.node.applied_le, hh.node.commit_le, ?_, fun a h' e he => hh.applied he⟩
  rw [appliedEntries_eq hh.node.applied_nonneg hh.node.snap hh.sound.node.numbered]
  exact hh.node.user

/-! ### A rebuild -/

/-- An application that counts the commands it is given. -/
def counter : Application UInt8 where
  apply := some fun u _ => u + 1
  reload := some fun _ => 0
  snapshot := some fun u => ⟨[u], by simp [maxSnapshotSize]⟩
  restoreSnapshot := some fun _ data => data.headD 0

lemma counter_reloads : counter.ReloadsTo 0 := ⟨_, rfl, fun _ => rfl⟩

/-- A whole tick of one host. -/
def hostTick (clock : ℤ) (ms : List Message) (cs : List Command) : List (HostAct σ) :=
  openTick clock ms cs ++ [.dump]

/-- Two entries of term 1 are applied; a leader of term 2 replaces the first of them. -/
def replacedEntries : List (HostAct UInt8) :=
  hostTick 1 [{ batch n1 n2 1 0 0 []
    [⟨1, 1, n1, putCommand "x"⟩, ⟨2, 1, n1, putCommand "y"⟩] with leaderCommit := 2 }] [] ++
  openTick 2 [{ batch n3 n2 2 0 0 [] [⟨1, 2, n3, putCommand "z"⟩] with leaderCommit := 1 }] []

lemma spelled_three : (threeConfig n2).Spelled separators := by
  refine ⟨by decide, ?_, by simp [threeConfig]⟩
  intro id hid
  simp only [threeConfig, List.mem_cons, List.not_mem_nil, or_false] at hid
  rcases hid with rfl | rfl | rfl
  all_goals decide

/-- The application that had counted two commands is back at zero, and so is the applied index;
the end of the tick applies the one entry that is committed. -/
theorem applied_state_replayed_rebuild : ∃ (h h' : Host UInt8) (e : Effect),
    Run (Host.step counter) (QuietAct counter) (Host.boot counter (threeConfig n2) 7 0) h ∧
    h.node.user = 0 ∧ h.node.lastApplied = 0 ∧ h.exec counter .dump = some (h', e) ∧
    e.applied.length = 1 ∧
    h.node.lastApplied ≤ h.node.commitIndex ∧ h.node.commitIndex ≤ h.node.lastLogIndex ∧
    h.node.user = counter.replay 0 h.node.appliedEntries ∧
    ∀ p ∈ e.applied, 0 < p.1 ∧ p.1 ≤ h.node.lastLogIndex ∧
      h.node.log[(p.1 - 1).toNat]? = some p.2 := by
  have hexec : (execAll (Host.step counter) (fun h a => decide (QuietAct counter h a))
      (Host.boot counter (threeConfig n2) 7 0) replacedEntries).any (fun h =>
        decide (h.node.user = 0 ∧ h.node.lastApplied = 0) &&
        (h.exec counter .dump).any fun r => r.2.applied.length == 1) = true := by
    decide +kernel
  obtain ⟨h, hrun, hq⟩ := Run.exists_of_execAll hexec
  rw [Bool.and_eq_true, decide_eq_true_eq, Option.any_eq_true] at hq
  obtain ⟨⟨hu, hla⟩, ⟨h', e⟩, hdump, hlen⟩ := hq
  have hrun' := hrun.mono (fun _ _ => of_decide_eq_true)
  obtain ⟨h1, h2, h3, h4⟩ := applied_state_replayed counter counter_reloads spelled_three rfl 7 0
    hrun'
  exact ⟨h, h', e, hrun', hu, hla, hdump, beq_iff_eq.mp hlen, h1, h2, h3,
    h4 .dump h' e hdump⟩

end RaftRx.C
