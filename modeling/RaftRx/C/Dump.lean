import RaftRx.C.Roles

/-!
The dump of the C node as steps of the protocol: applying, saving and sending.

* `ApplyOnly`, `applyCommitted_cases`: applying entries moves the applied index, unless an entry
  brought a new configuration in;
* `Reconfigured`: a new configuration comes with its peers;
* `reach_dumped`: the part of the dump before the files are written, given `DumpOk`;
* `Simulates`: steps of one server that send and apply;
* `DiskOk`, `At.save`, `At.sends`, `At.restart`: files, messages and restarts.
-/

namespace RaftRx.C

open Protocol

variable {σ : Type*} {A : Application σ} {members : List CString} {mode : Mode}
  {S : Set (Msg CString ℤ LogEntry)} {n : CString} {st : Stored} {u : Bool}
  {a : State CString ℤ LogEntry} {x x' : Node σ} {m : Message}

/-! ### Applying entries -/

/-- Only what the apply loop may touch without a change of the configuration. -/
structure ApplyOnly (k : ℕ) (x x' : Node σ) : Prop where
  eq : ∃ (user : σ) (threshold : ℤ) (d : Bool), x' =
    { x with
      user := user, lastApplied := x.lastApplied + k, compactionThreshold := threshold
      persistDirty := d } ∧ (x.persistDirty = true → d = true)

lemma ApplyOnly.refl (x : Node σ) : ApplyOnly 0 x x :=
  ⟨x.user, x.compactionThreshold, x.persistDirty, by simp, id⟩

lemma ApplyOnly.trans {x'' : Node σ} {k l : ℕ} (h : ApplyOnly k x x') (h' : ApplyOnly l x' x'') :
    ApplyOnly (k + l) x x'' := by
  obtain ⟨v, t, d, rfl, hd⟩ := h
  obtain ⟨v', t', d', rfl, hd'⟩ := h'
  refine ⟨v', t', d', ?_, fun hx => hd' (hd hx)⟩
  simp only [Nat.cast_add]
  rw [add_assoc]

/-- A configuration entry is applied beyond the index of the configuration. -/
lemma index_applyEnterJoint (x : Node σ) (c : Command) : x.applyEnterJoint c = x ∨
    x.configState.index < (x.applyEnterJoint c).configState.index := by
  rw [Node.applyEnterJoint]
  dsimp only
  split
  · exact Or.inl rfl
  · split
    · exact Or.inl rfl
    · right
      change x.configState.index < x.lastApplied
      omega

lemma index_applyLeaveJoint (x : Node σ) (c : Command) : x.applyLeaveJoint c = x ∨
    x.configState.index < (x.applyLeaveJoint c).configState.index := by
  rw [Node.applyLeaveJoint]
  dsimp only
  split
  · exact Or.inl rfl
  · split
    · exact Or.inl rfl
    · right
      split
      all_goals
        change x.configState.index < x.lastApplied
        omega

/-- A command touches the application or the threshold, unless it brings a configuration in. -/
lemma applyCommand_cases (x : Node σ) (c : Command) : ApplyOnly 0 x (x.applyCommand A c) ∨
    x.configState.index < (x.applyCommand A c).configState.index := by
  rw [Node.applyCommand]
  split
  · rw [Node.applyInternalCommand]
    split
    · left
      dsimp only
      split
      · exact ⟨x.user, Text.atoi c.value, true, by simp, fun _ => rfl⟩
      · exact ApplyOnly.refl x
    · split
      · exact (index_applyEnterJoint x c).imp_left fun h => by rw [h]; exact ApplyOnly.refl x
      · split
        · exact (index_applyLeaveJoint x c).imp_left fun h => by rw [h]; exact ApplyOnly.refl x
        · exact Or.inl (ApplyOnly.refl x)
  · left
    split
    · rename_i apply _
      exact ⟨apply x.user c, x.compactionThreshold, x.persistDirty, by simp, id⟩
    · exact ApplyOnly.refl x

lemma applyNext_cases (x : Node σ) : ApplyOnly 1 x (x.applyNext A).1 ∨
    x.configState.index < (x.applyNext A).1.configState.index := by
  have h := applyCommand_cases (A := A) { x with lastApplied := x.lastApplied + 1 }
    (Node.entryAt { x with lastApplied := x.lastApplied + 1 } (x.lastApplied + 1)).command
  refine h.imp (fun h => ?_) id
  obtain ⟨v, t, d, heq, -⟩ := h
  refine ⟨v, t, true, ?_, fun _ => rfl⟩
  simp only [Node.applyNext, heq]
  simp

/-- The entries the apply loop passes on when it reads them from `x`. -/
def Node.toApply (x : Node σ) (k : ℕ) : List (ℤ × LogEntry) :=
  (List.range k).map fun i : ℕ =>
    (x.lastApplied + i + 1, x.entryAt (x.lastApplied + i + 1))

lemma toApply_succ (x : Node σ) (k : ℕ) (user : σ) (t : ℤ) (d : Bool) :
    x.toApply (k + 1) = (x.lastApplied + 1, x.entryAt (x.lastApplied + 1)) ::
      Node.toApply
        { x with
          user := user, lastApplied := x.lastApplied + 1, compactionThreshold := t
          persistDirty := d } k := by
  simp only [Node.toApply, List.range_succ_eq_map, List.map_cons, List.map_map, Nat.cast_zero,
    add_zero, List.cons.injEq, true_and]
  refine List.map_congr_left fun i _ => ?_
  have hidx : x.lastApplied + (Nat.succ i : ℕ) + 1 = x.lastApplied + 1 + i + 1 := by
    push_cast
    ring
  simp only [Function.comp_apply, hidx]
  rfl

/-- **The apply loop** reads consecutive entries and moves the applied index, unless one of them
brought a configuration in. -/
theorem applyCommitted_cases (k : ℕ) : ∀ x : Node σ,
    (ApplyOnly k x (x.applyCommitted A k).1 ∧ (x.applyCommitted A k).2 = x.toApply k) ∨
      x.configState.index < (x.applyCommitted A k).1.configState.index := by
  induction k with
  | zero => exact fun x => Or.inl ⟨ApplyOnly.refl x, rfl⟩
  | succ k ih =>
      intro x
      have hrest := ih (x.applyNext A).1
      rcases applyNext_cases (A := A) x with h1 | h1
      · have hidx : (x.applyNext A).1.configState.index = x.configState.index := by
          obtain ⟨v, t, d, heq, -⟩ := h1
          rw [heq]
        rcases hrest with ⟨h2, hl⟩ | h2
        · left
          have htrans := h1.trans h2
          rw [add_comm] at htrans
          refine ⟨htrans, ?_⟩
          obtain ⟨v, t, d, heq, -⟩ := h1
          have hlist : (x.applyCommitted A (k + 1)).2
              = (x.applyNext A).2 :: ((x.applyNext A).1.applyCommitted A k).2 := rfl
          rw [hlist, hl, heq, toApply_succ x k v t d]
          rfl
        · rw [hidx] at h2
          exact Or.inr h2
      · right
        refine lt_of_lt_of_le h1 ?_
        rcases hrest with ⟨⟨v, t, d, heq, -⟩, -⟩ | h2
        · rw [Node.applyCommitted]
          simp only [heq]
          exact le_rfl
        · exact h2.le

/-! ### Configurations -/

/-- An element a loop put into a list satisfied the loop's test. -/
lemma mem_foldl_guarded {α β : Type*} {c : List β → α → Prop} [∀ l b, Decidable (c l b)]
    {f : α → β} (ms : List α) : ∀ {acc : List β} {y : β},
    y ∈ ms.foldl (fun acc b => if c acc b then acc ++ [f b] else acc) acc →
      y ∈ acc ∨ ∃ b ∈ ms, y = f b ∧ ∃ acc', c acc' b := by
  induction ms with
  | nil => exact fun h => Or.inl h
  | cons b ms ih =>
      intro acc y h
      rcases ih h with h | ⟨b', hb', hy⟩
      · dsimp only at h
        split at h
        · rename_i hc
          rcases List.mem_append.mp h with h | h
          · exact Or.inl h
          · exact Or.inr ⟨b, List.mem_cons_self, List.mem_singleton.mp h, acc, hc⟩
        · exact Or.inl h
      · exact Or.inr ⟨b', List.mem_cons_of_mem _ hb', hy⟩

/-- A loop that stops at a capacity. -/
lemma length_foldl_guarded {α β : Type*} {c : List β → α → Prop} [∀ l b, Decidable (c l b)]
    {f : α → β} {cap : ℕ} (hc : ∀ l b, c l b → l.length < cap) (ms : List α) :
    ∀ {acc : List β}, acc.length ≤ cap →
      (ms.foldl (fun acc b => if c acc b then acc ++ [f b] else acc) acc).length ≤ cap := by
  induction ms with
  | nil => exact fun h => h
  | cons b ms ih =>
      intro acc h
      refine ih ?_
      dsimp only
      split
      · rename_i hcb
        have := hc acc b hcb
        rw [List.length_append, List.length_singleton]
        omega
      · exact h

lemma sinkMember_perm (m : CString) (rev : List CString) : (sinkMember m rev).Perm (m :: rev) := by
  induction rev with
  | nil => exact List.Perm.refl _
  | cons y rev ih =>
      rw [sinkMember]
      split
      · exact (ih.cons y).trans (List.Perm.swap m y rev)
      · exact List.Perm.refl _

lemma sinkMembers_perm (ms : List CString) : ∀ rev : List CString,
    (ms.foldl (fun rev m => sinkMember m rev) rev).Perm (ms.reverse ++ rev) := by
  induction ms with
  | nil => exact fun _ => List.Perm.refl _
  | cons m ms ih =>
      intro rev
      refine (ih _).trans ?_
      rw [List.reverse_cons, List.append_assoc]
      exact (sinkMember_perm m rev).append_left _

/-- Sorting aside, `normalize_members` keeps the first members up to the capacity. -/
lemma normalizeMembers_perm (ms : List CString) (cap : ℕ) : (normalizeMembers ms cap).Perm
    (ms.foldl (fun out m =>
      if out.length < cap ∧ m ≠ [] ∧ m ∉ out then out ++ [strncpy maxId m] else out) []) := by
  rw [normalizeMembers]
  refine (List.reverse_perm _).trans ((sinkMembers_perm _ []).trans ?_)
  rw [List.append_nil]
  exact List.reverse_perm _

lemma length_normalizeMembers (ms : List CString) (cap : ℕ) :
    (normalizeMembers ms cap).length ≤ cap := by
  rw [(normalizeMembers_perm ms cap).length_eq]
  exact length_foldl_guarded (fun _ _ h => h.1) ms (Nat.zero_le _)

/-- The members of a normalised list are well formed if those it was made of are. -/
lemma membersOk_normalizeMembers {ms : List CString} (h : ∀ m ∈ ms, m = [] ∨ IdOk m) :
    MembersOk (normalizeMembers ms maxNodes) where
  length_le := length_normalizeMembers ms maxNodes
  id := by
    intro y hy
    rw [(normalizeMembers_perm ms maxNodes).mem_iff] at hy
    rcases mem_foldl_guarded ms hy with hy | ⟨m, hm, rfl, -, -, hne, -⟩
    · simp at hy
    · have hid := (h m hm).resolve_left hne
      rw [strncpy_self hid.length_lt]
      exact hid

lemma mem_refreshPeers {p : CString} (h : p ∈ x.refreshPeers.config.peers) :
    ∃ m ∈ x.configState.oldMembers ++ x.configState.newMembers, p = strncpy maxId m := by
  rcases mem_foldl_guarded x.configState.newMembers h with h | ⟨m, hm, rfl, -⟩
  · rcases mem_foldl_guarded x.configState.oldMembers h with h | ⟨m, hm, rfl, -⟩
    · simp at h
    · exact ⟨m, List.mem_append_left _ hm, rfl⟩
  · exact ⟨m, List.mem_append_right _ hm, rfl⟩

/-- The configuration is as it was, or a new one with its peers. -/
structure Reconfigured (x x' : Node σ) : Prop where
  nodeId : x'.config.nodeId = x.config.nodeId
  learner : x'.config.learner = x.config.learner
  initial : x'.config.initialMembers = x.config.initialMembers
  appends : x'.pendingAppendEntries = x.pendingAppendEntries
  requests : x'.pendingVoteRequests = x.pendingVoteRequests
  responses : x'.pendingVotes = x.pendingVotes
  peers : (x'.configState = x.configState ∧ x'.config.peers = x.config.peers) ∨
    (x'.configState.oldMembers.length ≤ maxNodes ∧ x'.configState.newMembers.length ≤ maxNodes ∧
      ∀ p ∈ x'.config.peers, ∃ m ∈ x'.configState.oldMembers ++ x'.configState.newMembers,
        p = strncpy maxId m)

lemma Reconfigured.refl (x : Node σ) : Reconfigured x x :=
  ⟨rfl, rfl, rfl, rfl, rfl, rfl, Or.inl ⟨rfl, rfl⟩⟩

lemma Reconfigured.trans {x'' : Node σ} (h : Reconfigured x x') (h' : Reconfigured x' x'') :
    Reconfigured x x'' where
  nodeId := h'.nodeId.trans h.nodeId
  learner := h'.learner.trans h.learner
  initial := h'.initial.trans h.initial
  appends := h'.appends.trans h.appends
  requests := h'.requests.trans h.requests
  responses := h'.responses.trans h.responses
  peers := by
    rcases h'.peers with ⟨hc, hp⟩ | hnew
    · rw [hc, hp]
      exact h.peers
    · exact Or.inr hnew

lemma reconfigured_applyInternalCommand (x : Node σ) (c : Command) :
    Reconfigured x (x.applyInternalCommand c) := by
  rw [Node.applyInternalCommand]
  split
  · dsimp only
    split
    · exact ⟨rfl, rfl, rfl, rfl, rfl, rfl, Or.inl ⟨rfl, rfl⟩⟩
    · exact Reconfigured.refl x
  · split
    · rw [Node.applyEnterJoint]
      dsimp only
      split
      · exact Reconfigured.refl x
      · split
        · exact Reconfigured.refl x
        · exact ⟨rfl, rfl, rfl, rfl, rfl, rfl, Or.inr ⟨length_normalizeMembers _ _,
            length_normalizeMembers _ _, fun p hp => mem_refreshPeers hp⟩⟩
    · split
      · rw [Node.applyLeaveJoint]
        dsimp only
        split
        · exact Reconfigured.refl x
        · split
          · exact Reconfigured.refl x
          · split
            all_goals exact ⟨rfl, rfl, rfl, rfl, rfl, rfl, Or.inr ⟨length_normalizeMembers _ _,
              Nat.zero_le _, fun p hp => mem_refreshPeers hp⟩⟩
      · exact Reconfigured.refl x

lemma reconfigured_applyNext (x : Node σ) : Reconfigured x (x.applyNext A).1 := by
  have h : ∀ (y : Node σ) (c : Command), Reconfigured y (y.applyCommand A c) := by
    intro y c
    rw [Node.applyCommand]
    split
    · exact reconfigured_applyInternalCommand y c
    · split <;> exact ⟨rfl, rfl, rfl, rfl, rfl, rfl, Or.inl ⟨rfl, rfl⟩⟩
  have h1 := h { x with lastApplied := x.lastApplied + 1 }
    (Node.entryAt { x with lastApplied := x.lastApplied + 1 } (x.lastApplied + 1)).command
  exact ⟨h1.nodeId, h1.learner, h1.initial, h1.appends, h1.requests, h1.responses, h1.peers⟩

lemma reconfigured_applyCommitted (k : ℕ) :
    ∀ x : Node σ, Reconfigured x (x.applyCommitted A k).1 := by
  induction k with
  | zero => exact Reconfigured.refl
  | succ k ih => exact fun x => (reconfigured_applyNext x).trans (ih _)

/-! ### The dump -/

/-- The node after the commit index was advanced. -/
def Node.advanced (x : Node σ) : Node σ := if x.isLeader then x.advanceCommitIndex else x

/-- The entries the dump of a tick passes on, as a number. -/
def Node.toApplyCount (x : Node σ) : ℕ := (x.commitIndex - x.lastApplied).toNat

/-- The node when its files are written. -/
def Node.dumped (A : Application σ) (x : Node σ) : Node σ :=
  (((x.commitAndApply A).1.maybeDriveMembership).maybeCompact A).1

/-- The dump of a running node in one record. -/
lemma dumpOutputs_eq (hrun : x.running = true) : x.dumpOutputs A =
    { node := { x.dumped A with persistDirty := false, outbox := [] }
      writes := ((((x.commitAndApply A).1.maybeDriveMembership).maybeCompact A).2.map
        Write.snapshot).toList ++ (x.dumped A).maybeSave
      sends := (x.dumped A).outbox
      applied := (x.commitAndApply A).2 } := by
  rw [Node.dumpOutputs, if_neg (by simp [hrun])]
  rfl

lemma dumpOutputs_stopped (hrun : x.running = false) : x.dumpOutputs A =
    { node := { x with outbox := [] }, writes := [], sends := [], applied := [] } := by
  rw [Node.dumpOutputs, if_pos hrun]

/-- What is asked of a dump: the ids of the configuration it ends with are well formed; elections
are studied under one configuration and logs without compaction. -/
structure DumpOk (mode : Mode) (A : Application σ) (x : Node σ) : Prop where
  ids : ∀ m ∈ (x.dumpOutputs A).node.configState.oldMembers ++
    (x.dumpOutputs A).node.configState.newMembers, IdOk m
  stable : mode.elects → (x.dumpOutputs A).node.configState = x.configState
  whole : mode.keepsLogs → ∀ file, Write.snapshot file ∉ (x.dumpOutputs A).writes

lemma still_advanced (x : Node σ) : Still x x.advanced := by
  rw [Node.advanced]
  split
  · exact still_advanceCommitIndex x
  · exact Still.refl x

lemma reach_advanced (h : At members mode S n st u a x) :
    Reach members mode S n st u a x.advanced := by
  rw [Node.advanced]
  split
  · rename_i hl
    rw [Node.isLeader, Bool.and_eq_true, decide_eq_true_eq] at hl
    exact reach_advanceCommitIndex h fun _ => hl.2
  · exact h.self

/-- Applying entries without a new configuration. -/
lemma reach_applyOnly {k : ℕ} (h : At members mode S n st u a x) (hx : ApplyOnly k x x') :
    Reach members mode S n st u a x' := by
  obtain ⟨v, t, d, rfl, hd⟩ := hx
  refine h.reach (moves_touch h.srv hd) (h.ok.frame rfl rfl (Or.inl rfl) (fun _ => id)
    (fun _ => id) (fun _ => id) (fun _ => Or.inl) fun hk => ?_)
  have g := h.ok.good hk
  have := g.applied_nonneg
  exact ⟨g.snapIndex, g.snapTerm, g.commit_nonneg, by simp only; omega, g.full, g.queued, g.next⟩

/-- The configuration is the one before, or its ids are well formed. -/
lemma Reconfigured.nodeOk (hel : ¬ mode.elects) (h : NodeOk members mode S n x)
    (hr : Reconfigured x x') (hc : Calm x x')
    (hids : ∀ m ∈ x'.configState.oldMembers ++ x'.configState.newMembers, IdOk m) :
    NodeOk members mode S n x' where
  nodeId := hr.nodeId.trans h.nodeId
  fits := h.fits
  config :=
    { learner := hr.learner.trans h.config.learner
      initial := by rw [hr.initial]; exact h.config.initial
      alone := by
        intro hi
        rw [hr.initial] at hi
        obtain ⟨hn, hp⟩ := h.config.alone hi
        refine ⟨by rw [hr.nodeId]; exact hn, fun p hpmem => ?_⟩
        rcases hr.peers with ⟨-, heq⟩ | ⟨-, -, hnew⟩
        · rw [heq] at hpmem
          exact hp p hpmem
        · obtain ⟨m, hm, rfl⟩ := hnew p hpmem
          rw [strncpy_self (hids m hm).length_lt]
          exact hids m hm
      common := fun he => absurd he hel }
  vote := by rw [hc.vote]; exact h.vote
  old := by
    refine ⟨?_, fun m hm => hids m (List.mem_append_left _ hm)⟩
    rcases hr.peers with ⟨heq, -⟩ | ⟨hlen, -⟩
    · rw [heq]; exact h.old.length_le
    · exact hlen
  new := by
    refine ⟨?_, fun m hm => hids m (List.mem_append_right _ hm)⟩
    rcases hr.peers with ⟨heq, -⟩ | ⟨-, hlen, -⟩
    · rw [heq]; exact h.new.length_le
    · exact hlen
  stable := fun he => absurd he hel
  appends := by rw [hr.appends]; exact h.appends
  requests := by rw [hr.requests]; exact h.requests
  responses := by rw [hr.responses]; exact h.responses
  sources := fun m hm => (hc.queued.mem m hm).elim (h.sources m) h.source_of_answer
  good := fun hk => absurd hk.elects hel

/-- The apply loop of a dump. -/
lemma reach_applyCommitted (h : At members mode S n st u a x) (k : ℕ)
    (hids : ∀ m ∈ (x.applyCommitted A k).1.configState.oldMembers ++
      (x.applyCommitted A k).1.configState.newMembers, IdOk m)
    (hstable : mode.elects → (x.applyCommitted A k).1.configState = x.configState) :
    Reach members mode S n st u a (x.applyCommitted A k).1 := by
  by_cases hel : mode.elects
  · rcases applyCommitted_cases (A := A) k x with ⟨honly, -⟩ | hlt
    · exact reach_applyOnly h honly
    · rw [hstable hel] at hlt
      exact absurd hlt (lt_irrefl _)
  · exact reach_of_calm hel h (calm_applyCommitted k x)
      ((reconfigured_applyCommitted k x).nodeOk hel h.ok (calm_applyCommitted k x) hids)

/-- The driver's own fields are not the protocol's business. -/
lemma Reach.driver {y : Node σ} (h : Reach members mode S n st u a y) (s : MembershipState)
    (j f : ℤ) :
    Reach members mode S n st u a
      { y with membershipState := s, jointConfigIndex := j, finalConfigIndex := f } :=
  h.bind fun _ _ h1 => h1.same rfl (h1.ok.frame rfl rfl (Or.inl rfl) (fun _ => id) (fun _ => id)
    (fun _ => id) (fun _ => Or.inl) fun hk => (h1.ok.good hk).frame rfl rfl rfl rfl rfl
      (fun _ => Or.inl) fun hl => ⟨hl, rfl, rfl, rfl⟩)

lemma reach_appendInternalCommand (h : At members mode S n st u a x) (op key value : CString) :
    Reach members mode S n st u a (x.appendInternalCommand op key value).1 := by
  rw [Node.appendInternalCommand]
  split
  · exact h.self
  · rename_i hcond
    rw [not_or, Bool.not_eq_false, not_le, Node.isLeader, Bool.and_eq_true,
      decide_eq_true_eq] at hcond
    exact reach_appendOwn h (fun _ => hcond.1.2) rfl rfl hcond.2

/-- **`node_maybe_drive_membership`**: a leader may append an entry of its own. -/
lemma reach_maybeDriveMembership (h : At members mode S n st u a x) :
    Reach members mode S n st u a x.maybeDriveMembership := by
  rw [Node.maybeDriveMembership]
  split
  · exact h.self
  · split
    · dsimp only
      split
      all_goals exact (reach_appendInternalCommand h _ _ _).driver _ _ _
    · split
      · exact h.self.driver _ _ _
      · split
        · dsimp only
          split
          all_goals exact (reach_appendInternalCommand h _ _ _).driver _ _ _
        · split
          · exact h.self.driver _ _ _
          · exact h.self

/-- Compaction is free where logs are arbitrary. -/
lemma reach_maybeCompact (h : At members mode S n st u a x)
    (hwhole : mode.keepsLogs → (x.maybeCompact A).2 = none) :
    Reach members mode S n st u a (x.maybeCompact A).1 := by
  by_cases hk : mode.keepsLogs
  · have hnone := hwhole hk
    rw [Node.maybeCompact] at hnone ⊢
    split
    · rename_i hs
      rw [if_pos hs, Node.doCompact] at hnone
      rw [Node.doCompact]
      dsimp only at hnone ⊢
      split
      · exact h.self
      · rename_i hc
        rw [if_neg hc] at hnone
        simp at hnone
    · exact h.self
  · exact reach_of_still hk h (still_maybeCompact x)

/-- The part of a dump before the files are written, after the commit index was advanced. -/
lemma reach_dumped (hrun : x.running = true) (hok : DumpOk mode A x)
    (h : At members mode S n st u a x.advanced) :
    Reach members mode S n st u a (x.dumped A) := by
  obtain ⟨hids, hstable, hwhole⟩ := hok
  rw [dumpOutputs_eq hrun] at hids hstable hwhole
  have hdrive := still_maybeDriveMembership (x.commitAndApply A).1
  have hcompact := still_maybeCompact (A := A) (x.commitAndApply A).1.maybeDriveMembership
  have hconf : (x.dumped A).configState = (x.commitAndApply A).1.configState :=
    hcompact.configState.trans hdrive.configState
  simp only [hconf] at hids hstable
  have happly : Reach members mode S n st u a (x.commitAndApply A).1 :=
    reach_applyCommitted h _ hids fun hel =>
      (hstable hel).trans (still_advanced x).configState.symm
  refine happly.bind fun a1 _ h1 => ?_
  refine (reach_maybeDriveMembership h1).bind fun a2 _ h2 => ?_
  refine reach_maybeCompact h2 fun hk => ?_
  cases hsnap : ((x.commitAndApply A).1.maybeDriveMembership.maybeCompact A).2 with
  | none => rfl
  | some file =>
      have := hwhole hk file
      rw [hsnap] at this
      simp at this

/-! ### Steps that are seen outside -/

/-- What is known of a message the node `n` hands to the transport. -/
structure SendOk (mode : Mode) (n : CString) (m : Message) : Prop where
  source : m.source = n
  campaign : m.kind = .requestVote → IdOk n
  sane : mode.keepsLogs → m.Sane

/-- Steps of the server `n` that send these messages and apply these entries. -/
structure Simulates (members : List CString) (mode : Mode) (n : CString)
    (sends : List Message) (applied : List (ℤ × LogEntry))
    (a a' : State CString ℤ LogEntry) : Prop where
  steps : Steps (params members) mode a a'
  others : ∀ p, p ≠ n → a'.srv p = a.srv p
  sent : a'.sent = a.sent ∪ {p | ∃ m ∈ sends, m.promise = some p}
  applied : mode = .commits →
    a'.applied = a.applied ∪ {q | ∃ r ∈ applied, q = (n, (r.1 - 1).toNat, r.2)}
  sendOk : ∀ m ∈ sends, SendOk mode n m

variable {a' a'' : State CString ℤ LogEntry}

lemma simulates_of_local (h : Local (params members) mode n a a') :
    Simulates members mode n [] [] a a' :=
  ⟨h.steps, h.others, by simp [h.sent], fun _ => by simp [h.applied], by simp⟩

lemma Simulates.trans {ms ms' : List Message} {es es' : List (ℤ × LogEntry)}
    (h : Simulates members mode n ms es a a') (h' : Simulates members mode n ms' es' a' a'') :
    Simulates members mode n (ms ++ ms') (es ++ es') a a'' where
  steps := Relation.ReflTransGen.trans h.steps h'.steps
  others := fun p hp => (h'.others p hp).trans (h.others p hp)
  sent := by
    rw [h'.sent, h.sent, Set.union_assoc]
    congr 1
    ext p
    simp only [Set.mem_union, Set.mem_ofPred_eq, List.mem_append]
    constructor
    · rintro (⟨m, hm, hp⟩ | ⟨m, hm, hp⟩)
      · exact ⟨m, Or.inl hm, hp⟩
      · exact ⟨m, Or.inr hm, hp⟩
    · rintro ⟨m, hm | hm, hp⟩
      · exact Or.inl ⟨m, hm, hp⟩
      · exact Or.inr ⟨m, hm, hp⟩
  applied := by
    intro hmode
    rw [h'.applied hmode, h.applied hmode, Set.union_assoc]
    congr 1
    ext q
    simp only [Set.mem_union, Set.mem_ofPred_eq, List.mem_append]
    constructor
    · rintro (⟨r, hr, hq⟩ | ⟨r, hr, hq⟩)
      · exact ⟨r, Or.inl hr, hq⟩
      · exact ⟨r, Or.inr hr, hq⟩
    · rintro ⟨r, hr | hr, hq⟩
      · exact Or.inl ⟨r, hr, hq⟩
      · exact Or.inr ⟨r, hr, hq⟩
  sendOk := by
    intro m hm
    rcases List.mem_append.mp hm with hm | hm
    · exact h.sendOk m hm
    · exact h'.sendOk m hm

/-- Committed entries are applied. -/
lemma simulates_apply (members : List CString) (es : List (ℤ × LogEntry)) : ∀ {a : State CString ℤ LogEntry},
    (mode = .commits → ∀ r ∈ es, (r.1 - 1).toNat < (a.srv n).commit ∧
      (a.srv n).log[(r.1 - 1).toNat]? = some r.2) →
    ∃ a', Simulates members mode n [] es a a' ∧ a'.srv n = a.srv n := by
  induction es with
  | nil => exact fun _ => ⟨_, simulates_of_local (Local.refl _), rfl⟩
  | cons r es ih =>
      intro a hes
      by_cases hmode : mode = .commits
      · obtain ⟨hk, he⟩ := hes hmode r List.mem_cons_self
        obtain ⟨a', hsim, hsrv⟩ := ih
          (a := { a with applied := insert (n, (r.1 - 1).toNat, r.2) a.applied })
          fun _ r' hr' => hes hmode r' (List.mem_cons_of_mem _ hr')
        have hone : Simulates members mode n [] [r] a
            { a with applied := insert (n, (r.1 - 1).toNat, r.2) a.applied } := by
          refine ⟨steps_apply hk he, fun _ _ => rfl, by simp, fun _ => ?_, by simp⟩
          ext q
          simp [or_comm]
        exact ⟨a', hone.trans hsim, hsrv⟩
      · exact ⟨a, ⟨Relation.ReflTransGen.refl, fun _ _ => rfl, by simp,
          fun h => absurd h hmode, by simp⟩, rfl⟩

/-- The entries of a dump are live and committed. -/
lemma mem_toApply (g : Good x) (hc : x.commitIndex.toNat ≤ x.log.length) {r : ℤ × LogEntry}
    (hr : r ∈ x.toApply x.toApplyCount) :
    (r.1 - 1).toNat < x.commitIndex.toNat ∧ x.log[(r.1 - 1).toNat]? = some r.2 := by
  obtain ⟨i, hi, rfl⟩ := List.mem_map.mp hr
  rw [List.mem_range, Node.toApplyCount] at hi
  have h0 := g.applied_nonneg
  obtain ⟨j, hj⟩ : ∃ j : ℕ, x.lastApplied + (i : ℤ) = j :=
    ⟨(x.lastApplied + (i : ℤ)).toNat, by omega⟩
  have hlt : j < x.log.length := by omega
  have hget : x.log[j]? = some x.log[j] := List.getElem?_eq_getElem hlt
  have hentry := Node.entryAt_eq hget
  rw [g.snapIndex, zero_add] at hentry
  simp only [hj, add_sub_cancel_right, Int.toNat_natCast, hentry]
  exact ⟨by omega, hget⟩

/-- The entries a dump applies, as steps of the protocol. -/
lemma simulates_commitAndApply (hrun : x.running = true) (hok : DumpOk mode A x)
    (h : At members mode S n st u a x.advanced) :
    ∃ a', Simulates members mode n [] (x.commitAndApply A).2 a a' ∧
      At members mode S n st u a' x.advanced := by
  have hes : mode = .commits → ∀ r ∈ (x.commitAndApply A).2,
      (r.1 - 1).toNat < (a.srv n).commit ∧ (a.srv n).log[(r.1 - 1).toNat]? = some r.2 := by
    intro hmode r hr
    subst hmode
    have g := h.ok.good Mode.keepsLogs_commits
    have hle := (CommitInv.law h.inv n).commit_le
    have hdrive := still_maybeDriveMembership (x.commitAndApply A).1
    have hcompact := still_maybeCompact (A := A) (x.commitAndApply A).1.maybeDriveMembership
    have hstable := hok.stable Mode.elects_commits
    rw [dumpOutputs_eq hrun] at hstable
    have hconf : (x.commitAndApply A).1.configState = x.advanced.configState :=
      ((hcompact.configState.trans hdrive.configState).symm.trans hstable).trans
        (still_advanced x).configState.symm
    rw [h.srv] at hle ⊢
    rcases applyCommitted_cases (A := A) x.advanced.toApplyCount x.advanced with
      ⟨-, hlist⟩ | hlt
    · exact mem_toApply g hle (hlist ▸ hr)
    · have : (x.advanced.applyCommitted A x.advanced.toApplyCount).1.configState
          = x.advanced.configState := hconf
      rw [this] at hlt
      exact absurd hlt (lt_irrefl _)
  obtain ⟨a', hsim, hsrv⟩ := simulates_apply members (x.commitAndApply A).2 hes
  refine ⟨a', hsim, modeInv_steps h.inv hsim.steps, ?_, hsrv.trans h.srv, h.ok⟩
  rw [hsim.sent, h.sent]
  simp

/-! ### Files -/

/-- What `meta.txt` holds was saved by a node with well-formed ids. -/
structure DiskOk (members : List CString) (mode : Mode) (disk : Disk) : Prop where
  vote : (readMeta disk.metaText).votedFor = [] ∨ IdOk (readMeta disk.metaText).votedFor
  old : MembersOk (readMeta disk.metaText).configState.oldMembers
  new : MembersOk (readMeta disk.metaText).configState.newMembers
  stable : mode.elects → (disk.metaText = none ∧ disk.logText = none) ∨
    ((readMeta disk.metaText).configState.oldMembers = members ∧
      (readMeta disk.metaText).configState.newMembers = [])

lemma diskOk_empty : DiskOk members mode Disk.empty where
  vote := Or.inl rfl
  old := ⟨Nat.zero_le _, by simp [Disk.empty, readMeta, fileLines, MetaFile.configState]⟩
  new := ⟨Nat.zero_le _, by simp [Disk.empty, readMeta, fileLines, MetaFile.configState]⟩
  stable := fun _ => Or.inl ⟨rfl, rfl⟩

/-- The disk after some of the replacements of a tick: either `meta.txt` is the old one, and with
it `log.txt`, or it is the new one. -/
lemma disk_of_take (disk : Disk) (file : Option SnapshotFile) (y : Node σ) (k : ℕ) :
    ((disk.writeAll (((file.map Write.snapshot).toList ++ y.maybeSave).take k)).metaText
        = disk.metaText ∧
      (disk.writeAll (((file.map Write.snapshot).toList ++ y.maybeSave).take k)).logText
        = disk.logText) ∨
    (y.persistDirty = true ∧
      (disk.writeAll (((file.map Write.snapshot).toList ++ y.maybeSave).take k)).metaText
        = some (writeMeta y)) := by
  rw [Node.maybeSave]
  split
  · rename_i hd
    cases file with
    | none =>
        match k with
        | 0 => exact Or.inl ⟨rfl, rfl⟩
        | 1 => exact Or.inr ⟨hd, rfl⟩
        | k + 2 => exact Or.inr ⟨hd, by simp [save, Disk.writeAll, Disk.write]⟩
    | some f =>
        match k with
        | 0 => exact Or.inl ⟨rfl, rfl⟩
        | 1 => exact Or.inl ⟨rfl, rfl⟩
        | 2 => exact Or.inr ⟨hd, rfl⟩
        | k + 3 => exact Or.inr ⟨hd, by simp [save, Disk.writeAll, Disk.write]⟩
  · left
    cases file with
    | none => simp [Disk.writeAll]
    | some f =>
        cases k with
        | zero => exact ⟨rfl, rfl⟩
        | succ k => simp [Disk.writeAll, Disk.write]

/-- All the replacements of a tick: `meta.txt` is the new one if the node was dirty. -/
lemma disk_of_all (disk : Disk) (file : Option SnapshotFile) {y : Node σ}
    (hd : y.persistDirty = true) :
    (disk.writeAll ((file.map Write.snapshot).toList ++ y.maybeSave)).metaText
      = some (writeMeta y) := by
  rw [Node.maybeSave, if_pos hd]
  cases file <;> rfl

lemma NodeOk.storedIdsOk (h : NodeOk members mode S n x) : StoredIdsOk x := ⟨h.vote, h.old, h.new⟩

/-- What a saved `meta.txt` says. -/
lemma stored_of_writeMeta {disk : Disk} (hfit : x.Fits) (hids : StoredIdsOk x)
    (h : disk.metaText = some (writeMeta x)) : disk.stored = ⟨x.currentTerm, x.votedFor⟩ := by
  rw [Disk.stored, h, readMeta_writeMeta hfit hids]
  rfl

lemma stored_congr {disk disk' : Disk} (h : disk'.metaText = disk.metaText) :
    disk'.stored = disk.stored := by
  rw [Disk.stored, Disk.stored, h]

lemma diskOk_of_writeMeta {disk : Disk} (hfit : x.Fits) (h : NodeOk members mode S n x)
    (hd : disk.metaText = some (writeMeta x)) : DiskOk members mode disk := by
  have hread : readMeta disk.metaText = metaOf x := by
    rw [hd, readMeta_writeMeta hfit h.storedIdsOk]
  have hconf : (readMeta disk.metaText).configState = x.configState := by
    rw [hread, configState_metaOf]
  refine ⟨?_, by rw [hconf]; exact h.old, by rw [hconf]; exact h.new, fun hel => Or.inr ?_⟩
  · rw [hread]
    exact h.vote
  · rw [hconf]
    exact h.stable hel

lemma DiskOk.congr {disk disk' : Disk} (h : DiskOk members mode disk)
    (hm : disk'.metaText = disk.metaText) (hl : disk'.logText = disk.logText) :
    DiskOk members mode disk' := by
  obtain ⟨h1, h2, h3, h4⟩ := h
  refine ⟨?_, ?_, ?_, ?_⟩
  all_goals rw [hm]
  · exact h1
  · exact h2
  · exact h3
  · rw [hl]
    exact h4

/-- **The files are saved**: term and vote are stable. -/
lemma At.save (h : At members mode S n st u a x) :
    Reach members mode S n ⟨x.currentTerm, x.votedFor⟩ false a { x with persistDirty := false } := by
  have hmove : Moves (params members) mode a n
      (Node.view { x with persistDirty := false } ⟨x.currentTerm, x.votedFor⟩ false) := by
    refine (moves_save h.srv).bind fun a1 hl h1 => ?_
    refine (moves_settle (hl.inv h.inv).ballots h1 rfl).bind fun a2 _ h2 => ?_
    exact Moves.refl h2
  obtain ⟨a', hl, hx⟩ := hmove
  exact ⟨a', hl, hl.inv h.inv, hl.sent.trans h.sent, hx, h.ok.frame rfl rfl (Or.inl rfl)
    (fun _ => id) (fun _ => id) (fun _ => id) (fun _ => Or.inl) fun hk =>
      (h.ok.good hk).frame rfl rfl rfl rfl rfl (fun _ => Or.inl) fun hl => ⟨hl, rfl, rfl, rfl⟩⟩

/-- A clean node has nothing to save. -/
lemma At.settle (h : At members mode S n st u a x) (hd : x.persistDirty = false) :
    Reach members mode S n st false a { x with persistDirty := false } := by
  have hmove : Moves (params members) mode a n
      (Node.view { x with persistDirty := false } st false) := by
    refine (moves_settle h.inv.ballots h.srv hd).bind fun a1 _ h1 => Moves.refl (h1.trans ?_)
    simp only [Node.view, hd]
    rfl
  obtain ⟨a', hl, hx⟩ := hmove
  exact ⟨a', hl, hl.inv h.inv, hl.sent.trans h.sent, hx, h.ok.frame rfl rfl (Or.inl rfl)
    (fun _ => id) (fun _ => id) (fun _ => id) (fun _ => Or.inl) fun hk =>
      (h.ok.good hk).frame rfl rfl rfl rfl rfl (fun _ => Or.inl) fun hl => ⟨hl, rfl, rfl, rfl⟩⟩

/-- What was heard before more messages were sent is still heard. -/
lemma Hears.mono {S' : Set (Msg CString ℤ LogEntry)} (hS : S ⊆ S') (h : Hears mode S n m) :
    Hears mode S' n m :=
  ⟨fun hel => ⟨(h.1 hel).1, (h.1 hel).2.1, fun p hp => hS ((h.1 hel).2.2 p hp)⟩, h.2⟩

lemma NodeOk.mono {S' : Set (Msg CString ℤ LogEntry)} (hS : S ⊆ S')
    (h : NodeOk members mode S n x) : NodeOk members mode S' n x :=
  { h with
    appends := fun m hm => ⟨(h.appends m hm).1, (h.appends m hm).2.mono hS⟩
    requests := fun m hm =>
      ⟨(h.requests m hm).1, (h.requests m hm).2.1, (h.requests m hm).2.2.mono hS⟩
    responses := fun m hm => ⟨(h.responses m hm).1, (h.responses m hm).2.mono hS⟩ }

/-- **Messages leave** a clean node in their order. -/
lemma At.sends (h : At members mode S n st u a x) (hd : x.persistDirty = false) (k : ℕ) :
    ∃ a', Simulates members mode n (x.outbox.take k) [] a a' ∧
      At members mode a'.sent n st u a' { x with outbox := x.outbox.drop k } := by
  have hout : (x.view st u).outbox = (x.outbox.take k).filterMap Message.promise ++
      (x.outbox.drop k).filterMap Message.promise := by
    rw [← List.filterMap_append, List.take_append_drop]
    rfl
  obtain ⟨a', hsteps, hothers, hself, hsent, happ⟩ :=
    sends_of_clean (params members) mode _ h.inv.ballots h.srv hd hout
  have hset : {p | p ∈ (x.outbox.take k).filterMap Message.promise}
      = {p | ∃ m ∈ x.outbox.take k, m.promise = some p} := by
    ext p
    simp only [Set.mem_ofPred_eq, List.mem_filterMap]
  rw [hset] at hsent
  have hsend : ∀ m ∈ x.outbox.take k, SendOk mode n m := by
    intro m hm
    have hmem := List.mem_of_mem_take hm
    exact ⟨(h.ok.sources m hmem).1, (h.ok.sources m hmem).2, fun hk => (h.ok.good hk).queued m hmem⟩
  refine ⟨a', ⟨hsteps, hothers, hsent, fun _ => by simp [happ], hsend⟩, ?_⟩
  have hsub : S ⊆ a'.sent := by
    rw [hsent, h.sent]
    exact Set.subset_union_left
  have hok : NodeOk members mode S n { x with outbox := x.outbox.drop k } :=
    h.ok.frame rfl rfl (Or.inl rfl) (fun _ => id) (fun _ => id) (fun _ => id)
      (fun m hm => Or.inl (List.mem_of_mem_drop hm)) fun hk => (h.ok.good hk).frame rfl rfl rfl rfl
        rfl (fun m hm => Or.inl (List.mem_of_mem_drop hm)) fun hl => ⟨hl, rfl, rfl, rfl⟩
  exact ⟨modeInv_steps h.inv hsteps, rfl, hself, hok.mono hsub⟩

/-- **Volatile state is lost**: the node comes back with what its files say. -/
lemma At.restart {y : Node σ} (h : At members mode S n st u a x) (hk : ¬ mode.keepsLogs) (u' : Bool)
    (hterm : y.currentTerm = st.term) (hvote : y.votedFor = st.vote)
    (hstate : y.state = .follower) (hout : y.outbox = []) (hok : NodeOk members mode S n y) :
    Reach members mode S n st u' a y := by
  have hmode : mode ≠ .commits := by
    rintro rfl
    exact hk trivial
  have hmove : Moves (params members) mode a n (y.view st u') := by
    refine (moves_crash h.srv {v | v ∈ y.votesReceived} (fun p => ((y.matchOf p).getD 0).toNat)
      y.commitIndex.toNat y.persistDirty u' hmode).bind fun a1 _ h1 => ?_
    have hnone : ∀ m ∈ ([] : List (Msg CString ℤ LogEntry)), m.ballot = none := by simp
    refine (moves_havocLog h1 y.log (fun p => ((y.matchOf p).getD 0).toNat) y.commitIndex.toNat
      (d := y.persistDirty) hk hnone id).bind fun a2 _ h2 => ?_
    refine Moves.refl (h2.trans ?_)
    simp only [Node.view, hterm, hvote, hstate, hout]
    rfl
  obtain ⟨a', hl, hx⟩ := hmove
  exact ⟨a', hl, hl.inv h.inv, hl.sent.trans h.sent, hx, hok⟩

end RaftRx.C
