import RaftRx.C.SnapshotFaith

/-!
A crash between the two files of a save.

A save replaces `meta.txt` first and `log.txt` second.  A process that dies in between leaves the
commit index of the tick beside the entries of the tick before.

* `Host.Filed`: between two ticks `log.txt` holds the entries of the node;
* `filed_exec`: every act keeps it so;
* `mergeEntries_position`: what the merge loop may put at an index;
* `KeepsCommitted`: a batch does not change a stored entry that ends up committed;
* `Recovers`: the load after the crash agrees with the node up to its commit index;
* `recovers_of_keepsCommitted`: it does so after every tick whose batch meets the condition;
* `committed_entry_changed`: a tick that replaces an entry and commits it.
-/

namespace RaftRx.C

open Protocol (Role)
open Text

variable {σ : Type*} {A : Application σ} {x y : Node σ} {H : Message → Prop}
  {C : Command → Prop} {m : Message} {h h' : Host σ} {act : HostAct σ} {effect : Effect}
  {disk : Disk} {s : ℤ}

/-! ### What `log.txt` holds -/

/-- The entries a load keeps that is told of a snapshot up to the index. -/
def Disk.beyond (disk : Disk) (s : ℤ) : List LogEntry :=
  disk.entries.filter fun e => decide (s < e.index)

lemma Numbered.beyond_self {es : List LogEntry} (hn : Numbered s 0 es) :
    es.filter (fun e => decide (s < e.index)) = es := by
  rw [hn.filter le_rfl, sub_self, Int.toNat_zero, List.drop_zero]

/-- What was just saved. -/
lemma beyond_save (hx : x.Sound separators) (hfit : x.Fits) {d : Disk}
    (hlog : d.logText = some (writeLog x)) :
    d.beyond x.snapshotLastIncludedIndex = x.log := by
  obtain ⟨-, -, hsame⟩ := entries_writeLog separators_self hfit hx.spelled.log hlog
  rw [Disk.beyond, hsame (by simp [separators])]
  exact Numbered.beyond_self hx.numbered

/-- What a load finds. -/
lemma Disk.Sound.load_log (hd : disk.Sound separators) (y : Node σ) :
    (y.load A disk).log = disk.beyond (y.load A disk).snapshotLastIncludedIndex := by
  obtain ⟨user, heq⟩ := load_record (A := A) y disk
  rw [heq]
  exact readLog_eq hd.full _

lemma Disk.Sound.init_log (hd : disk.Sound separators) {config : NodeConfig}
    (hl : config.learner = false) (user : σ) (clock : ℤ) :
    (Node.init A config disk user clock).log =
      disk.beyond (Node.init A config disk user clock).snapshotLastIncludedIndex := by
  obtain ⟨st, d, e, hinit⟩ := init_eq (A := A) hl disk user clock
  have hload := hd.load_log (A := A) (Node.zero config user clock)
  have hloaded : (Node.loaded A config disk user clock).log =
      disk.beyond (Node.loaded A config disk user clock).snapshotLastIncludedIndex := by
    rw [Node.loaded]
    generalize (Node.zero config user clock).load A disk = z at hload ⊢
    split
    · exact hload
    · exact hload
  rw [hinit]
  exact hloaded

lemma Disk.Sound.start_log (hd : disk.Sound separators) (x : Node σ) :
    (x.start A disk).log = disk.beyond (x.start A disk).snapshotLastIncludedIndex := by
  have hload := hd.load_log (A := A) x
  rw [Node.start]
  generalize x.load A disk = z at hload ⊢
  split
  · exact hload
  · exact hload

/-! ### Hosts -/

/-- The running flag is left alone. -/
lemma turns_running (h : Turns H C x y) : y.running = x.running :=
  h.invariant (I := fun z => z.running = x.running)
    (fun _ _ hz ht => by cases ht <;> exact hz) rfl

/-- Nothing is taken from the log, and only clients add to it. -/
lemma turns_log (h : Turns H C x y) : ∃ es, y.log = x.log ++ es ∧
    y.snapshotLastIncludedIndex = x.snapshotLastIncludedIndex := by
  refine h.invariant (I := fun z => ∃ es, z.log = x.log ++ es ∧
    z.snapshotLastIncludedIndex = x.snapshotLastIncludedIndex) (fun u v hu ht => ?_)
    ⟨[], (List.append_nil _).symm, rfl⟩
  obtain ⟨es, hlog, hsnap⟩ := hu
  cases ht with
  | append c =>
      refine ⟨es ++ [u.clientEntry c], ?_, hsnap⟩
      rw [← List.append_assoc, ← hlog]
  | tune | role | lead | raise | campaign | vote | queue | clear | report | backOff | commit =>
      exact ⟨es, hlog, hsnap⟩

/-- Without clients the log stays. -/
lemma turns_log_silent (h : Turns H (fun _ => False) x y) : y.log = x.log :=
  h.invariant (I := fun z => z.log = x.log)
    (fun _ _ hz ht => by
      cases ht with
      | append c hc => exact hc.elim
      | tune | role | lead | raise | campaign | vote | queue | clear | report | backOff | commit =>
          exact hz) rfl

/-- **Between two ticks** `log.txt` holds the entries of the node; during a tick it does as long as
the node has nothing to save. -/
structure Host.Filed (h : Host σ) : Prop where
  sound : h.Sound separators
  stored : h.phase = .idle ∨ h.node.running = false ∨ h.node.persistDirty = false →
    h.disk.beyond h.node.snapshotLastIncludedIndex = h.node.log
  quiet : h.phase = .latched → h.node.running = false → h.node.pendingAppendEntries = []

/-- What a marked change of a clean node leaves. -/
lemma Marked.stored (h : Marked x y)
    (hx : x.persistDirty = false → disk.beyond x.snapshotLastIncludedIndex = x.log)
    (hy : y.persistDirty = false) : disk.beyond y.snapshotLastIncludedIndex = y.log := by
  have hxd : x.persistDirty = false := by
    cases hd : x.persistDirty with
    | false => rfl
    | true => exact absurd (h.dirty hd) (by simp [hy])
  rw [(h.same hy).snapIndex, (h.same hy).log]
  exact hx hxd

lemma filed_boot {config : NodeConfig} (hconf : config.Spelled separators) (user : σ) (clock : ℤ) :
    (Host.boot A config user clock).Filed := by
  refine ⟨sound_boot separators_self hconf user clock, fun _ => ?_, fun h => ?_⟩
  · obtain ⟨u, c, st, d, e₁, e₂, heq, -⟩ := init_empty (A := A) config user clock
    have hnode : (Host.boot A config user clock).node = Node.init A config Disk.empty user clock :=
      rfl
    rw [hnode, heq]
    rfl
  · exact absurd h (by simp [Host.boot])

/-- A stopped node latches nothing. -/
lemma latchInputs_stopped (hrun : x.running = false) (ms : List Message) (cs : List Command) :
    x.latchInputs ms cs =
      { x with pendingAppendEntries := [], pendingVoteRequests := [], pendingVotes := []
               outbox := [] } := by
  rw [Node.latchInputs]
  dsimp only
  rw [if_pos hrun]

/-- The transition of a node without a waiting batch leaves the log alone. -/
lemma transition_log (hquiet : x.pendingAppendEntries = []) :
    (x.transition A).log = x.log ∧
      (x.transition A).snapshotLastIncludedIndex = x.snapshotLastIncludedIndex := by
  rcases transition_turns (C := fun _ => False) (A := A) x with h | ⟨m, rest, -, hrest, -⟩
  · exact ⟨turns_log_silent h, (turns_snap h).1⟩
  · rw [hquiet] at hrest
    simp at hrest

/-- A host that was initialised from its files. -/
lemma filed_init (hsound : h'.Sound separators) (hd : disk.Sound separators)
    (hl : h.config.learner = false) {user : σ} {clock : ℤ}
    (heq : h' = { h with
      node := Node.init A h.config disk user clock, disk := disk, phase := .idle }) :
    h'.Filed := by
  refine ⟨hsound, fun _ => ?_, fun hlatched => ?_⟩
  · rw [heq]
    exact (hd.init_log hl user clock).symm
  · rw [heq] at hlatched
    exact absurd hlatched (by simp)

/-- **Every act keeps it so.** -/
lemma filed_exec (hh : h.Filed) (hact : act.Spelled separators) (hcrash : CrashOk A h act)
    (hexec : h.exec A act = some (h', effect)) : h'.Filed := by
  have hsound := sound_exec separators_self hh.sound hact hcrash hexec
  obtain ⟨hcase, hfit⟩ := exec_cases hexec
  cases hcase with
  | latch clock slots ms cs hidle =>
      have hturns := turns_latchInputs (x := h.node) (H := (· ∈ ms)) (C := (· ∈ cs))
        (fun _ => id) (fun _ => id) clock slots
      refine ⟨hsound, ?_, fun _ hrun => ?_⟩
      · rintro (hphase | hrun | hclean)
        · exact absurd hphase (by simp)
        · have hrun' : h.node.running = false := (turns_running hturns).symm.trans hrun
          rw [latchInputs_stopped (x := { h.node with clockMs := clock, slots := slots }) hrun']
          exact hh.stored (Or.inl hidle)
        · exact (marked_turns hturns).stored (fun _ => hh.stored (Or.inl hidle)) hclean
      · have hrun' : h.node.running = false := (turns_running hturns).symm.trans hrun
        rw [latchInputs_stopped (x := { h.node with clockMs := clock, slots := slots }) hrun']
  | transition clock hlatched =>
      have hrunning := transition_running (A := A) { h.node with clockMs := clock }
      refine ⟨hsound, ?_, fun h => absurd h (by simp)⟩
      rintro (hphase | hrun | hclean)
      · exact absurd hphase (by simp)
      · have hrun' : h.node.running = false := hrunning.symm.trans hrun
        obtain ⟨hlog, hsnap⟩ := transition_log (A := A) (x := { h.node with clockMs := clock })
          (hh.quiet hlatched hrun')
        rw [hlog, hsnap]
        exact hh.stored (Or.inr (Or.inl hrun'))
      · exact (marked_transition (A := A) { h.node with clockMs := clock }).stored
          (fun hd => hh.stored (Or.inr (Or.inr hd))) hclean
  | dumpStopped _ hrun =>
      exact ⟨hsound, fun _ => hh.stored (Or.inr (Or.inl hrun)), fun h => absurd h (by simp)⟩
  | dump _ hrun =>
      refine ⟨hsound, fun _ => ?_, fun h => absurd h (by simp)⟩
      rw [dumpOutputs_eq hrun]
      dsimp only
      rcases writeAll_all h.disk _ (h.node.dumped A) (dirty_of_compacts (A := A) h.node) with
        ⟨hclean, -, heq⟩ | ⟨-, heq⟩
      · rw [heq]
        exact (marked_dumped (A := A) h.node).stored
          (fun hd => hh.stored (Or.inr (Or.inr hd))) hclean
      · rw [heq]
        exact beyond_save (hh.sound.node.dumped separators_self) hfit rfl
  | stop hidle => exact ⟨hsound, fun _ => hh.stored (Or.inl hidle), fun h => absurd h (by simp [hidle])⟩
  | start clock hidle =>
      exact ⟨hsound, fun _ => (hh.sound.disk.start_log _).symm, fun h => absurd h (by simp [hidle])⟩
  | request members hidle =>
      obtain ⟨r, b, hreq⟩ := requestMembershipChange_eq h.node members
      refine ⟨hsound, fun _ => ?_, fun h => absurd h (by simp [hidle])⟩
      rw [hreq]
      exact hh.stored (Or.inl hidle)
  | resetForJoin clock user hidle =>
      exact ⟨hsound, fun _ => beyond_save hsound.node hfit rfl, fun h => absurd h (by simp [hidle])⟩
  | crash user clock => exact filed_init hsound hh.sound.disk hcrash rfl
  | crashInDump | crashInReset => exact filed_init hsound hsound.disk hcrash.1 rfl

/-! ### What a batch leaves -/

/-- Two entries of the same term with the same command. -/
def LogEntry.Same (e e' : LogEntry) : Prop := e.term = e'.term ∧ e.command = e'.command

instance (e e' : LogEntry) : Decidable (e.Same e') := inferInstanceAs (Decidable (_ ∧ _))

/-- **At one index** the merge loop leaves what was there or puts an entry of the batch. -/
lemma mergeEntries_position (es : List LogEntry) {p : ℕ} {o : LogEntry} :
    ∀ acc : Node σ × Bool,
    (∀ e ∈ es, e.index = acc.1.snapshotLastIncludedIndex + p + 1 → e.Same o) →
    (∀ a, acc.1.log[p]? = some a → a.Same o) →
    ∀ a, (es.foldl Node.mergeEntry acc).1.log[p]? = some a → a.Same o := by
  induction es with
  | nil => exact fun acc _ h => h
  | cons e es ih =>
      rintro ⟨x, b⟩ hes hx
      have hes' : ∀ e ∈ es, e.index = x.snapshotLastIncludedIndex + p + 1 → e.Same o :=
        fun e he => hes e (List.mem_cons_of_mem _ he)
      rw [List.foldl_cons]
      rcases mergeEntry_cases x b e with h | ⟨-, hidx, -, h⟩ | ⟨hlo, hhas, -, t, ht, h⟩
      · rw [h]
        exact ih _ hes' hx
      · rw [h]
        refine ih _ hes' fun a ha => ?_
        dsimp only at ha
        rcases lt_or_ge p x.log.length with hlt | hge
        · rw [List.getElem?_append_left hlt] at ha
          exact hx a ha
        · rw [List.getElem?_append_right hge, List.getElem?_singleton] at ha
          split at ha
          · rename_i hp
            obtain rfl := Option.some.inj ha
            rw [Node.lastLogIndex] at hidx
            exact hes e List.mem_cons_self (by dsimp only; omega)
          · simp at ha
      · rw [h]
        refine ih _ hes' fun a ha => ?_
        rw [Node.hasLogIndex_eq_true] at hhas
        dsimp only at ha
        have hlen : (x.log.take (x.physicalIndex e.index).toNat).length =
            (e.index - x.snapshotLastIncludedIndex - 1).toNat := by
          rw [List.length_take, Node.physicalIndex]
          omega
        rcases lt_or_ge p (e.index - x.snapshotLastIncludedIndex - 1).toNat with hlt | hge
        · rw [List.getElem?_append_left (by omega), Node.physicalIndex,
            List.getElem?_take_of_lt hlt] at ha
          exact hx a ha
        · rw [List.getElem?_append_right (by omega), hlen] at ha
          rcases ht with rfl | rfl
          · rw [List.getElem?_singleton] at ha
            split at ha
            · rename_i hp
              obtain rfl := Option.some.inj ha
              exact hes e List.mem_cons_self (by dsimp only; omega)
            · simp at ha
          · simp at ha

/-- **The batch does not change a stored entry that ends up committed**: what it brings for an index
up to the leader's commit index, or that is committed and not yet applied, is what `log.txt` holds
there. -/
def KeepsCommitted (stored : List LogEntry) (x : Node σ) (m : Message) : Prop :=
  ∀ e ∈ m.entries, ∀ p ∈ stored.zipIdx, e.index = x.snapshotLastIncludedIndex + p.2 + 1 →
    e.index ≤ m.leaderCommit ∨ x.lastApplied < e.index ∧ e.index ≤ x.commitIndex → e.Same p.1

instance (stored : List LogEntry) (x : Node σ) (m : Message) :
    Decidable (KeepsCommitted stored x m) :=
  inferInstanceAs (Decidable (∀ e ∈ _, ∀ p ∈ _, _ → _ → _))

/-- Where the commit index of an accepting node comes from. -/
lemma settledCommit_cases (x : Node σ) (m : Message) (b : Bool) :
    settledCommit x m b ≤ m.leaderCommit ∨
      b = false ∧ settledCommit x m b ≤ x.commitIndex := by
  rw [settledCommit]
  split
  · exact Or.inl (min_le_left _ _)
  · rename_i hb
    split
    · exact Or.inl (min_le_left _ _)
    · right
      split
      · exact ⟨by simpa using hb, by omega⟩
      · exact ⟨by simpa using hb, le_rfl⟩

/-- **An accepted batch** that keeps what is committed. -/
lemma absorbed_keeps {stored es : List LogEntry} (hlog : x.log = stored ++ es)
    (hm : KeepsCommitted stored x m) {p : ℕ} {o a : LogEntry} (ho : stored[p]? = some o)
    (ha : (x.absorbed A m).log[p]? = some a)
    (hle : x.snapshotLastIncludedIndex + p + 1 ≤ (x.absorbed A m).commitIndex) : a.Same o := by
  have hp : p < stored.length := (List.getElem?_eq_some_iff.mp ho).1
  have hx : x.log[p]? = some o := by rw [hlog, List.getElem?_append_left hp, ho]
  have hkept : ∀ a, x.log[p]? = some a → a.Same o := by
    intro a ha
    rw [hx] at ha
    obtain rfl := Option.some.inj ha
    exact ⟨rfl, rfl⟩
  have hbatch : x.snapshotLastIncludedIndex + p + 1 ≤ m.leaderCommit ∨
      x.lastApplied < x.snapshotLastIncludedIndex + p + 1 ∧
        x.snapshotLastIncludedIndex + p + 1 ≤ x.commitIndex → a.Same o := by
    intro hreach
    refine mergeEntries_position m.entries (x, false) (fun e he hidx => ?_) hkept a ha
    refine hm e he (o, p) (List.mk_mem_zipIdx_iff_getElem?.mpr ho) hidx ?_
    rw [hidx]
    exact hreach
  rcases settledCommit_cases { x with log := (x.merged m).1 } m (x.merged m).2 with hc | ⟨hb, hc⟩
  · exact hbatch (Or.inl (hle.trans hc))
  · rcases lt_or_ge x.lastApplied (x.snapshotLastIncludedIndex + p + 1) with hlt | hge
    · exact hbatch (Or.inr ⟨hlt, hle.trans hc⟩)
    · -- without a rebuild the applied entries stay
      obtain ⟨htake, -⟩ := mergeEntries_applied m.entries (p + 1) x false
        (by rw [hlog, List.length_append]; omega) (by push_cast; omega) hb
      have hsame : (x.absorbed A m).log[p]? = x.log[p]? := by
        have hpos : p < p + 1 := Nat.lt_succ_self p
        rw [← List.getElem?_take_of_lt hpos, ← List.getElem?_take_of_lt (l := x.log) hpos]
        exact congrArg (·[p]?) htake
      rw [hsame] at ha
      exact hkept a ha

/-! ### The end of the tick -/

/-- The log a tick ends with: what the driver appended, less what was compacted. -/
lemma dumped_log (x : Node σ) : ∃ es, (x.dumped A).log =
    (x.log ++ es).drop
      ((x.dumped A).snapshotLastIncludedIndex - x.snapshotLastIncludedIndex).toNat ∧
    (x.dumped A).commitIndex = x.advanced.commitIndex := by
  obtain ⟨es, hes⟩ := log_beforeCompaction (A := A) x
  have hcommit : (x.beforeCompaction A).commitIndex = x.advanced.commitIndex := by
    have happ : (x.commitAndApply A).1.commitIndex = x.advanced.commitIndex := by
      rw [commitAndApply_eq]
      exact (applying_applyCommitted _ _).1.commit
    rw [← happ, Node.beforeCompaction]
    have hcase := maybeDriveMembership_cases (x.commitAndApply A).1
    generalize (x.commitAndApply A).1.maybeDriveMembership = y at hcase ⊢
    cases hcase <;> rfl
  have hsnap : (x.beforeCompaction A).snapshotLastIncludedIndex = x.snapshotLastIncludedIndex := by
    have happ : (x.commitAndApply A).1.snapshotLastIncludedIndex = x.snapshotLastIncludedIndex := by
      rw [commitAndApply_eq, (applying_applyCommitted _ _).1.snapIndex]
      rcases advanced_cases x with h | ⟨k, -, -, h⟩
      all_goals rw [h]
    rw [← happ, Node.beforeCompaction]
    have hcase := maybeDriveMembership_cases (x.commitAndApply A).1
    generalize (x.commitAndApply A).1.maybeDriveMembership = y at hcase ⊢
    cases hcase <;> rfl
  refine ⟨es, ?_⟩
  rw [← hes, ← hcommit, ← hsnap]
  change ((x.beforeCompaction A).maybeCompact A).1.log = _ ∧
    ((x.beforeCompaction A).maybeCompact A).1.commitIndex = _
  rcases maybeCompact_cases (A := A) (x.beforeCompaction A) with heq | ⟨data, -, -, -, -, heq⟩
  · have hsame : (x.dumped A) = x.beforeCompaction A := congrArg Prod.fst heq
    rw [heq, hsame, sub_self, Int.toNat_zero, List.drop_zero]
    exact ⟨rfl, rfl⟩
  · have hlabel : (x.dumped A).snapshotLastIncludedIndex =
        (x.beforeCompaction A).compactibleIndex := by
      change ((x.beforeCompaction A).maybeCompact A).1.snapshotLastIncludedIndex = _
      rw [heq]
    rw [heq, hlabel]
    exact ⟨rfl, rfl⟩

/-- Applying entries makes no leader. -/
lemma ApplyCase.state_ne {c : Command} (hcase : ApplyCase A x c y) (hx : x.state ≠ .leader) :
    y.state ≠ .leader := by
  cases hcase with
  | user | noUser | threshold | skip | enter => exact hx
  | leave hop hidx hne =>
      obtain ⟨r, l, v, t, heq, hcase⟩ := applyLeaveJoint_eq (x := x) hidx hne
      rw [heq]
      rcases hcase with ⟨-, ht⟩ | ⟨-, ht⟩
      · rw [ht]
        exact hx
      · rw [ht]
        simp

lemma Node.Inside.commitAndApply_state (hin : x.Inside) (hx : x.state ≠ .leader) :
    (x.commitAndApply A).1.state ≠ .leader := by
  have hadv : x.advanced = x := by
    rw [Node.advanced, if_neg]
    rw [Node.isLeader, Bool.and_eq_true, decide_eq_true_eq]
    exact fun h => hx h.2
  refine commitAndApply_induct (I := fun z => z.state ≠ .leader) hin.advanced ?_ ?_
  · rw [hadv]
    exact hx
  · intro z hz hlt hstate
    obtain ⟨e, y, -, hcase, heq⟩ := applyNext_case (A := A) hz hlt
    rw [heq]
    exact hcase.state_ne (x := { z with lastApplied := z.lastApplied + 1 }) hstate

/-- **A follower that compacts** leaves nothing committed in the log. -/
lemma Node.Inside.commit_le_snap (hin : x.Inside) (hx : x.state ≠ .leader)
    (hrun : x.running = true) (hcompacts : x.compacts A = true) :
    (x.dumped A).commitIndex ≤ (x.dumped A).snapshotLastIncludedIndex := by
  have hstate := hin.commitAndApply_state (A := A) hx
  have hdrive : x.beforeCompaction A = (x.commitAndApply A).1 := by
    have hno : (x.commitAndApply A).1.isLeader = false := by
      rw [Node.isLeader, Bool.and_eq_false_iff, decide_eq_false_iff_not]
      exact Or.inr hstate
    rw [Node.beforeCompaction]
    have hcase := maybeDriveMembership_cases (x.commitAndApply A).1
    generalize (x.commitAndApply A).1.maybeDriveMembership = y at hcase ⊢
    cases hcase with
    | none => rfl
    | fullEnter hl | enter _ _ hl | joint hl | fullLeave hl | leave _ _ hl | stable hl =>
        rw [hno] at hl
        simp at hl
  obtain ⟨-, -, hcommit⟩ := dumped_log (A := A) x
  have happ : x.advanced.commitIndex ≤ (x.commitAndApply A).1.lastApplied := by
    rw [commitAndApply_eq, (applying_applyCommitted _ _).2, Node.toApplyCount]
    omega
  have hlabel : (x.dumped A).snapshotLastIncludedIndex = (x.commitAndApply A).1.lastApplied := by
    change ((x.beforeCompaction A).maybeCompact A).1.snapshotLastIncludedIndex = _
    rcases maybeCompact_cases (A := A) (x.beforeCompaction A) with heq | ⟨data, -, -, -, -, heq⟩
    · rw [Node.compacts, dumpOutputs_eq hrun] at hcompacts
      rw [show (((x.commitAndApply A).1.maybeDriveMembership).maybeCompact A).2 = none from
        congrArg Prod.snd heq, Node.maybeSave] at hcompacts
      split at hcompacts
      · simp [save, Write.isSnapshot] at hcompacts
      · simp at hcompacts
    · rw [heq, hdrive, Node.compactibleIndex, if_pos hstate]
  rw [hcommit, hlabel]
  exact happ

/-! ### The crash -/

/-- The files when the last replacement was that of `meta.txt`. -/
lemma writeAll_metaLast (disk : Disk) (file : Option SnapshotFile) (y : Node σ) {k : ℕ}
    {before : List Write} {text : List Char}
    (hpoint : ((file.map Write.snapshot).toList ++ y.maybeSave).take k =
      before ++ [.metaText text]) :
    disk.writeAll (((file.map Write.snapshot).toList ++ y.maybeSave).take k) =
      { disk with metaText := some (writeMeta y), snapshot := file.or disk.snapshot } := by
  rw [Node.maybeSave] at hpoint ⊢
  have hlast := congrArg List.getLast? hpoint
  rw [List.getLast?_concat] at hlast
  cases hd : y.persistDirty with
  | false =>
      rw [hd] at hlast
      cases file with
      | none => simp at hlast
      | some f => cases k <;> simp at hlast
  | true =>
      rw [hd] at hlast
      rw [if_pos rfl] at hlast ⊢
      cases file with
      | none =>
          obtain _ | _ | k := k
          · simp at hlast
          · rfl
          · simp [save] at hlast
      | some f =>
          obtain _ | _ | _ | k := k
          · simp at hlast
          · simp at hlast
          · rfl
          · simp [save] at hlast

/-- **The load after the crash**: the log is numbered from the snapshot on, and up to the recovered
commit index its entries are those the node held in memory. -/
structure Recovers (A : Application σ) (y : Node σ) (disk : Disk) : Prop where
  contiguous : ∀ u : Node σ, (u.load A disk).Contiguous
  committed : ∀ (u : Node σ) (i : ℤ) (e : LogEntry), (u.load A disk).HoldsAt (i, e) →
    i ≤ (u.load A disk).commitIndex → ∃ e', y.HoldsAt (i, e') ∧ e.Same e'

/-- What the crash leaves, in terms of the node before and after the tick. -/
lemma recovers_of_same {d : Disk} (hh : h.Filed)
    (hold : h.disk.beyond s = x.log) (hx : x.Contiguous) (hs : x.snapshotLastIncludedIndex = s)
    (hy : y.Inside) (hmeta : (readMeta d.metaText).snapshotLastIncludedIndex =
      y.snapshotLastIncludedIndex ∧ (readMeta d.metaText).commitIndex = y.commitIndex)
    (hlog : d.logText = h.disk.logText) (hle : s ≤ y.snapshotLastIncludedIndex)
    (hsame : ∀ (p : ℕ) (o : LogEntry), x.log[p]? = some o →
      y.snapshotLastIncludedIndex < s + p + 1 → s + p + 1 ≤ y.commitIndex →
      ∀ a, y.log[(s + p - y.snapshotLastIncludedIndex).toNat]? = some a → o.Same a) :
    Recovers A y d := by
  have hload : ∀ u : Node σ, (u.load A d).snapshotLastIncludedIndex = y.snapshotLastIncludedIndex ∧
      (u.load A d).commitIndex ≤ y.commitIndex ∧
      (u.load A d).log = x.log.drop (y.snapshotLastIncludedIndex - s).toNat := by
    intro u
    have hentries : d.entries = h.disk.entries := by rw [Disk.entries, Disk.entries, hlog]
    have hkeep : d.beyond y.snapshotLastIncludedIndex =
        x.log.drop (y.snapshotLastIncludedIndex - s).toNat := by
      have hn := hx
      rw [Node.Contiguous, hs] at hn
      rw [← hn.filter hle, ← hold, Disk.beyond, Disk.beyond, List.filter_filter, hentries]
      refine List.filter_congr fun e _ => ?_
      rw [← Bool.decide_and, decide_eq_decide]
      omega
    obtain ⟨user, heq⟩ := load_record (A := A) u d
    rw [heq]
    refine ⟨hmeta.1, ?_, ?_⟩
    · rw [← hmeta.2]
      exact min_le_left _ _
    · change RaftRx.C.readLog (readMeta d.metaText).snapshotLastIncludedIndex d.logText = _
      rw [hmeta.1, readLog_eq (by rw [hentries]; exact hh.sound.disk.full)]
      exact hkeep
  refine ⟨fun u => ?_, fun u i e he hi => ?_⟩
  · obtain ⟨h1, -, h3⟩ := hload u
    rw [Node.Contiguous, h1, h3]
    have hdrop := hx.drop (y.snapshotLastIncludedIndex - s).toNat
    rw [hs, show s + ((y.snapshotLastIncludedIndex - s).toNat : ℤ) =
      y.snapshotLastIncludedIndex by omega] at hdrop
    exact hdrop
  · obtain ⟨h1, h2, h3⟩ := hload u
    obtain ⟨hlo, -, hget⟩ := he
    rw [h1] at hlo hget
    rw [h3, List.getElem?_drop] at hget
    dsimp only at hlo hget
    have hiy : i ≤ y.commitIndex := hi.trans h2
    have hlast := hy.commit
    rw [Node.lastLogIndex] at hlast
    obtain ⟨a, ha⟩ : ∃ a, y.log[(i - y.snapshotLastIncludedIndex - 1).toNat]? = some a :=
      ⟨_, List.getElem?_eq_getElem (by omega)⟩
    refine ⟨a, ⟨hlo, ?_, ha⟩, ?_⟩
    · rw [Node.lastLogIndex]
      exact hiy.trans hlast
    · obtain ⟨p, hp⟩ : ∃ p : ℕ, s + p + 1 = i := ⟨(i - s - 1).toNat, by omega⟩
      refine hsame p e ?_ (by omega) (by omega) a ?_
      · rw [← hget]
        congr 1
        omega
      · rw [← ha]
        congr 2
        omega

lemma LogEntry.Same.symm {e e' : LogEntry} (h : e.Same e') : e'.Same e := ⟨h.1.symm, h.2.symm⟩

/-- A transition keeps the stored entries, or it accepts a batch as a follower. -/
lemma transition_keeps {stored es : List LogEntry} (hlog : x.log = stored ++ es)
    (hkeeps : (x.transition A).compacts A = false → x.AcceptsOnly (KeepsCommitted stored x))
    (hin : (x.transition A).Inside) (hrun : (x.transition A).running = true) {p : ℕ} {o a : LogEntry}
    (ho : stored[p]? = some o) (ha : (x.transition A).log[p]? = some a)
    (hlo : ((x.transition A).dumped A).snapshotLastIncludedIndex <
      x.snapshotLastIncludedIndex + p + 1)
    (hhi : x.snapshotLastIncludedIndex + p + 1 ≤ ((x.transition A).dumped A).commitIndex) :
    a.Same o := by
  rcases transition_turns (C := fun _ => False) (A := A) x with h | ⟨m, rest, hacc, hrest, htrans⟩
  · have hp : p < stored.length := (List.getElem?_eq_some_iff.mp ho).1
    rw [turns_log_silent h, hlog, List.getElem?_append_left hp, ho] at ha
    obtain rfl := Option.some.inj ha
    exact ⟨rfl, rfl⟩
  · obtain ⟨t, v, l, e, d₀, d, z, hz, -, -, heq, -⟩ :=
      transition_accept (C := fun _ => False) hacc hrest htrans
    obtain ⟨ms, hqueue⟩ : ∃ ms, x.transition A =
        { z.absorbed A m with persistDirty := d, outbox := ms } := by
      rw [heq, Node.queueMessage]
      split
      · exact ⟨_, rfl⟩
      · exact ⟨_, rfl⟩
    have hstate : (x.transition A).state ≠ .leader := by
      rw [hqueue]
      change z.state ≠ .leader
      rw [hz]
      simp
    obtain ⟨-, -, hcommit⟩ := dumped_log (A := A) (x.transition A)
    have hadv : (x.transition A).advanced = x.transition A := by
      rw [Node.advanced, if_neg]
      rw [Node.isLeader, Bool.and_eq_true, decide_eq_true_eq]
      exact fun h => hstate h.2
    rw [hadv] at hcommit
    cases hcompacts : (x.transition A).compacts A with
    | true =>
        have hle := hin.commit_le_snap hstate hrun hcompacts
        omega
    | false =>
        have hm : KeepsCommitted stored z m := by
          have hkeep := hkeeps hcompacts m hacc
          rw [hz]
          exact hkeep
        have hzlog : z.log = stored ++ es := by
          rw [hz]
          exact hlog
        have hzsnap : z.snapshotLastIncludedIndex = x.snapshotLastIncludedIndex := by rw [hz]
        rw [hcommit] at hhi
        rw [hqueue] at ha hhi
        exact absorbed_keeps (A := A) hzlog hm ho ha (by rw [hzsnap]; exact hhi)

/-- The files after such a crash, `x` being the node as it latched. -/
lemma recovers_dumped {es : List LogEntry} {p : Phase} (hh : h.Filed) (hidle : h.phase = .idle)
    (hh₂ : Host.Sound separators { h with node := x.transition A, phase := p })
    (hlog : x.log = h.node.log ++ es)
    (hsnap : x.snapshotLastIncludedIndex = h.node.snapshotLastIncludedIndex)
    (hfits : ((x.transition A).dumped A).Fits) (hrun : (x.transition A).running = true)
    (hkeeps : (x.transition A).compacts A = false →
      x.AcceptsOnly (KeepsCommitted h.node.log x)) (file : Option SnapshotFile) :
    Recovers A ((x.transition A).dumped A)
      { h.disk with metaText := some (writeMeta ((x.transition A).dumped A)), snapshot := file } := by
  have hin : (x.transition A).Inside := hh₂.node.inside
  have hsound : ((x.transition A).dumped A).Sound separators := hh₂.node.dumped separators_self
  have hsame : (x.transition A).snapshotLastIncludedIndex = h.node.snapshotLastIncludedIndex :=
    (transition_snap x).1.trans hsnap
  have hle := snap_le_dumped (A := A) (x.transition A)
  rw [hsame] at hle
  obtain ⟨es', hdumped, hadv⟩ := dumped_log (A := A) (x.transition A)
  have hinside : ((x.transition A).dumped A).commitIndex ≤ (x.transition A).lastLogIndex := by
    rw [hadv]
    have hcommit' := hin.advanced.commit
    rcases advanced_cases (x.transition A) with heq | ⟨c, -, -, heq⟩
    all_goals
      rw [heq] at hcommit' ⊢
      exact hcommit'
  rw [Node.lastLogIndex, hsame] at hinside
  have hkept : ∀ (q : ℕ) (o a : LogEntry), h.node.log[q]? = some o →
      (x.transition A).log[q]? = some a →
      ((x.transition A).dumped A).snapshotLastIncludedIndex <
        x.snapshotLastIncludedIndex + q + 1 →
      x.snapshotLastIncludedIndex + q + 1 ≤ ((x.transition A).dumped A).commitIndex → a.Same o :=
    fun q o a => transition_keeps hlog hkeeps hin hrun
  have hnumbers := numbers_readMeta hfits (hsound.spelled.linesOk separators_self.newline hfits)
  have hmeta : (readMeta (some (writeMeta ((x.transition A).dumped A)))).snapshotLastIncludedIndex =
      ((x.transition A).dumped A).snapshotLastIncludedIndex ∧
      (readMeta (some (writeMeta ((x.transition A).dumped A)))).commitIndex =
        ((x.transition A).dumped A).commitIndex := by
    obtain ⟨-, -, -, hcommit, hindex, -⟩ := hnumbers
    exact ⟨hindex, hcommit⟩
  refine recovers_of_same (y := (x.transition A).dumped A) hh (hh.stored (Or.inl hidle))
    hh.sound.node.numbered rfl hsound.inside hmeta rfl hle fun q o ho hlo hhi a ha => ?_
  rw [hdumped, List.getElem?_drop, List.getElem?_append_left (by omega)] at ha
  rw [← hsnap] at hlo hhi
  refine (hkept q o a ho ?_ hlo hhi).symm
  rw [← ha]
  congr 1
  omega

/-- **The crash in a tick** of a host. -/
lemma recovers_of_tick {es : List LogEntry} {k : ℕ} {before : List Write} {text : List Char}
    {p : Phase} (hh : h.Filed) (hidle : h.phase = .idle)
    (hh₂ : Host.Filed { h with node := x.transition A, phase := p })
    (hlog : x.log = h.node.log ++ es)
    (hsnap : x.snapshotLastIncludedIndex = h.node.snapshotLastIncludedIndex)
    (hfits : ((x.transition A).dumpOutputs A).node.Fits)
    (hpoint : ((x.transition A).dumpOutputs A).writes.take k = before ++ [.metaText text])
    (hkeeps : (x.transition A).compacts A = false →
      x.AcceptsOnly (KeepsCommitted h.node.log x)) :
    Recovers A ((x.transition A).dumpOutputs A).node
      (h.disk.writeAll (((x.transition A).dumpOutputs A).writes.take k)) := by
  have hrun : (x.transition A).running = true := by
    cases hr : (x.transition A).running with
    | true => rfl
    | false =>
        rw [dumpOutputs_stopped hr] at hpoint
        simp at hpoint
  rw [dumpOutputs_eq hrun] at hpoint hfits ⊢
  dsimp only at hpoint
  have hrec := recovers_dumped hh hidle hh₂.sound hlog hsnap hfits hrun hkeeps
    (((((x.transition A).commitAndApply A).1.maybeDriveMembership).maybeCompact A).2.or
      h.disk.snapshot)
  rw [← writeAll_metaLast h.disk _ _ hpoint] at hrec
  exact ⟨hrec.contiguous, hrec.committed⟩

/-- A tick whose process dies when `meta.txt` was replaced and `log.txt` was not. -/
structure TornTick (A : Application σ) (h h₁ h₂ h₃ : Host σ) (clock : ℤ) : Prop where
  latch : ∃ (c : ℤ) (slots : ℤ → LogEntry) (ms : List Message) (cs : List Command) (e : Effect),
    HostAct.Spelled separators (.latch c slots ms cs : HostAct σ) ∧
      h.exec A (.latch c slots ms cs) = some (h₁, e)
  transition : ∃ e, h₁.exec A (.transition clock) = some (h₂, e)
  crash : ∃ (k j : ℕ) (user : σ) (c : ℤ) (e : Effect) (before : List Write) (text : List Char),
    h₂.exec A (.crashInDump k j user c) = some (h₃, e) ∧
      (h₂.node.dumpOutputs A).writes.take k = before ++ [.metaText text]

/-- **A crash between `meta.txt` and `log.txt`** loses nothing committed, if the batch the tick took
in keeps the stored entries that end up committed or the tick compacts. -/
theorem recovers_of_keepsCommitted (A : Application σ) {config : NodeConfig}
    (hconf : config.Spelled separators) (user : σ) (clock : ℤ) {h h₁ h₂ h₃ : Host σ}
    (hrun : Run (Host.step A) (fun h act => act.Spelled separators ∧ CrashOk A h act)
      (Host.boot A config user clock) h)
    {clock₂ : ℤ} (htick : TornTick A h h₁ h₂ h₃ clock₂)
    (hkeeps : h₂.node.compacts A = false →
      Node.AcceptsOnly { h₁.node with clockMs := clock₂ }
        (KeepsCommitted h.node.log { h₁.node with clockMs := clock₂ })) :
    Recovers A (h₂.node.dumpOutputs A).node h₃.disk := by
  obtain ⟨⟨c, slots, ms, cs, e₁, hspelled, hlatch⟩, ⟨e₂, htrans⟩,
    ⟨k, j, user₃, c₃, e₃, before, text, hcrash, hpoint⟩⟩ := htick
  have hh : h.Filed := hrun.invariant (fun _ _ _ hh ha hs => by
    obtain ⟨e, he⟩ := exec_of_step hs
    exact filed_exec hh ha.1 ha.2 he) (filed_boot hconf user clock)
  have hh₁ := filed_exec hh hspelled trivial hlatch
  have hh₂ := filed_exec hh₁ (by exact trivial) (by exact trivial) htrans
  obtain ⟨hcase, -⟩ := exec_cases hlatch
  obtain ⟨hcase₂, -⟩ := exec_cases htrans
  obtain ⟨hcase₃, -⟩ := exec_cases hcrash
  cases hcase with
  | latch _ _ _ _ hidle =>
      cases hcase₂ with
      | transition _ _ =>
          cases hcase₃ with
          | crashInDump _ _ _ _ _ hfits =>
              have hturns := turns_latchInputs (x := h.node) (H := (· ∈ ms)) (C := (· ∈ cs))
                (fun _ => id) (fun _ => id) c slots
              obtain ⟨es, hlog, hsnap⟩ := turns_log hturns
              exact recovers_of_tick (h := h) (p := .acted) hh hidle hh₂ hlog hsnap hfits hpoint
                hkeeps

/-! ### A replaced entry -/

/-- A follower that stored one entry of term 1. -/
def oneStored : List (HostAct UInt8) :=
  hostTick 1 [batch n1 n2 1 0 0 [] [⟨1, 1, n1, putCommand "x"⟩]] []

/-- A leader of term 2 sends its first entry, with a commit index. -/
def replacing (commit : ℤ) : Message :=
  { batch n3 n2 2 0 0 [] [⟨1, 2, n3, putCommand "z"⟩] with leaderCommit := commit }

/-- A running node that will save and not compact. -/
def Node.saves (A : Application σ) (x : Node σ) : Bool :=
  x.running && (x.dumped A).persistDirty && !x.compacts A

lemma take_one_of_saves (h : x.saves A = true) :
    (x.dumpOutputs A).writes.take 1 = [.metaText (writeMeta (x.dumped A))] := by
  rw [Node.saves, Bool.and_eq_true, Bool.and_eq_true, Bool.not_eq_true'] at h
  obtain ⟨⟨hrun, hdirty⟩, hno⟩ := h
  rw [dumpOutputs_eq hrun, maybeCompact_of_not_compacts hrun hno, Node.maybeSave, if_pos hdirty]
  rfl

/-- The tick that takes the batch in and dies after `meta.txt`, with a property of what it leaves. -/
def tornTick (h : Host UInt8) (commit : ℤ) (q : Host UInt8 → Host UInt8 → Host UInt8 → Bool) :
    Bool :=
  (h.exec counter (.latch 2 (fun _ => ⟨0, 0, [], ⟨[], [], []⟩⟩) [replacing commit] [])).any
    fun r₁ => (r₁.1.exec counter (.transition 2)).any fun r₂ =>
      (r₂.1.exec counter (.crashInDump 1 0 7 3)).any fun r₃ =>
        r₂.1.node.saves counter && q r₁.1 r₂.1 r₃.1

lemma tornTick_spec {h : Host UInt8} {commit : ℤ}
    {q : Host UInt8 → Host UInt8 → Host UInt8 → Bool} (hq : tornTick h commit q = true) :
    ∃ h₁ h₂ h₃, TornTick counter h h₁ h₂ h₃ 2 ∧ q h₁ h₂ h₃ = true := by
  rw [tornTick, Option.any_eq_true] at hq
  obtain ⟨⟨h₁, e₁⟩, hlatch, hq⟩ := hq
  rw [Option.any_eq_true] at hq
  obtain ⟨⟨h₂, e₂⟩, htrans, hq⟩ := hq
  rw [Option.any_eq_true] at hq
  obtain ⟨⟨h₃, e₃⟩, hcrash, hq⟩ := hq
  rw [Bool.and_eq_true] at hq
  have hfree : MessageFree separators (replacing commit) := by
    refine ⟨?_, ?_⟩
    · change Free separators n3
      decide
    · change ∀ e ∈ [(⟨1, 2, n3, putCommand "z"⟩ : LogEntry)], EntryFree separators e
      decide
  refine ⟨h₁, h₂, h₃, ⟨⟨2, _, _, _, e₁, ⟨?_, by simp⟩, hlatch⟩, ⟨e₂, htrans⟩,
    ⟨1, 0, 7, 3, e₃, [], _, hcrash, take_one_of_saves hq.1⟩⟩, hq.2⟩
  intro m hm
  rw [List.mem_singleton.mp hm]
  exact hfree

lemma spelled_oneStored : ∀ act ∈ oneStored,
    act.Spelled separators ∧ ∀ h : Host UInt8, CrashOk counter h act := by
  have hfree : MessageFree separators
      (batch n1 n2 1 0 0 [] [⟨1, 1, n1, putCommand "x"⟩]) := by decide
  intro act hact
  simp only [oneStored, hostTick, openTick, List.cons_append, List.nil_append, List.mem_cons,
    List.not_mem_nil, or_false] at hact
  rcases hact with rfl | rfl | rfl
  · refine ⟨⟨fun m hm => ?_, by simp⟩, fun _ => trivial⟩
    rw [List.mem_singleton.mp hm]
    exact hfree
  · exact ⟨trivial, fun _ => trivial⟩
  · exact ⟨trivial, fun _ => trivial⟩

instance (x : Node σ) (p : ℤ × LogEntry) : Decidable (x.HoldsAt p) :=
  inferInstanceAs (Decidable (_ ∧ _ ∧ _))

/-- What a load makes of the files. -/
def recovered (disk : Disk) : Node UInt8 := (Node.zero (threeConfig n2) 0 0).load counter disk

/-- The runs of a follower of three that is given plain texts. -/
def PlainRun (h : Host UInt8) : Prop :=
  Run (Host.step counter) (fun h act => act.Spelled separators ∧ CrashOk counter h act)
    (Host.boot counter (threeConfig n2) 7 0) h

lemma exists_tornTick {commit : ℤ} {q : Host UInt8 → Host UInt8 → Host UInt8 → Host UInt8 → Bool}
    (hexec : (execAll (Host.step counter) (fun _ _ => true)
      (Host.boot counter (threeConfig n2) 7 0) oneStored).any
      (fun h => tornTick h commit (q h)) = true) :
    ∃ h h₁ h₂ h₃, PlainRun h ∧ TornTick counter h h₁ h₂ h₃ 2 ∧ q h h₁ h₂ h₃ = true := by
  obtain ⟨h, hrun, hq⟩ := Run.exists_of_forall spelled_oneStored hexec
  obtain ⟨h₁, h₂, h₃, htick, hq⟩ := tornTick_spec hq
  exact ⟨h, h₁, h₂, h₃, hrun.mono fun h act hact => ⟨hact.1, hact.2 h⟩, htick, hq⟩

/-- The batch replaces the stored entry and commits nothing: the entry that is read back does not
count. -/
theorem recovers_uncommitted : ∃ h h₁ h₂ h₃ : Host UInt8,
    PlainRun h ∧ TornTick counter h h₁ h₂ h₃ 2 ∧ h₁.node.log ≠ h₂.node.log ∧
    Recovers counter (h₂.node.dumpOutputs counter).node h₃.disk := by
  have hexec : (execAll (Host.step counter) (fun _ _ => true)
      (Host.boot counter (threeConfig n2) 7 0) oneStored).any (fun h =>
        tornTick h 0 fun h₁ h₂ _ => decide (h₁.node.log ≠ h₂.node.log ∧
          Node.AcceptsOnly { h₁.node with clockMs := 2 }
            (KeepsCommitted h.node.log { h₁.node with clockMs := 2 }))) = true := by
    decide +kernel
  obtain ⟨h, h₁, h₂, h₃, hrun, htick, hq⟩ := exists_tornTick hexec
  rw [decide_eq_true_eq] at hq
  exact ⟨h, h₁, h₂, h₃, hrun, htick, hq.1,
    recovers_of_keepsCommitted counter spelled_three 7 0 hrun htick fun _ => hq.2⟩

/-- **A replaced entry that is committed**: the commit index of the new entry is read back beside
the old one. -/
theorem committed_entry_changed : ¬ ∀ h h₁ h₂ h₃ : Host UInt8,
    PlainRun h → TornTick counter h h₁ h₂ h₃ 2 →
      Recovers counter (h₂.node.dumpOutputs counter).node h₃.disk := by
  intro hclaim
  have hexec : (execAll (Host.step counter) (fun _ _ => true)
      (Host.boot counter (threeConfig n2) 7 0) oneStored).any (fun h =>
        tornTick h 1 fun _ h₂ h₃ => decide
          ((recovered h₃.disk).HoldsAt (1, ⟨1, 1, n1, putCommand "x"⟩) ∧
            1 ≤ (recovered h₃.disk).commitIndex ∧
            (h₂.node.dumpOutputs counter).node.HoldsAt (1, ⟨1, 2, n3, putCommand "z"⟩))) = true := by
    decide +kernel
  obtain ⟨h, h₁, h₂, h₃, hrun, htick, hq⟩ := exists_tornTick hexec
  rw [decide_eq_true_eq] at hq
  obtain ⟨hold, hle, hnew⟩ := hq
  obtain ⟨e, he, hsame⟩ := (hclaim h h₁ h₂ h₃ hrun htick).committed _ 1 _ hold hle
  obtain rfl := Option.some.inj (he.2.2.symm.trans hnew.2.2)
  exact absurd hsame.1 (by decide)

end RaftRx.C
