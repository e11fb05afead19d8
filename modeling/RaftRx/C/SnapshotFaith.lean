import RaftRx.C.CompactionCrash

/-!
What a snapshot of a C node holds.

A compaction serialises the application as it is now, that is after every applied entry, and labels
it with the compactible index.  On a leader that index is the smallest match index, which may lie
before the applied one.

* `Archive`: a host with the entries its snapshot replaces;
* `Application.Restores`: what is asked of the callbacks of the application;
* `Node.Faithful`: the application is the replay of the applied entries, those in the snapshot
  included, and the buffer is the image of the snapshot's part;
* `Node.CaughtUp`: no match index of a leader lies before the applied index;
* `FaithfulAct`: the acts whose compactions happen in nodes that are caught up;
* `faithful_exec`: such an act keeps node and files faithful;
* `snapshots_faithful`: every snapshot such a run saves is the image of the replay of the entries up
  to its label;
* `snapshot_ahead`: a leader with a lagging peer saves another one.
-/

namespace RaftRx.C

open Protocol (Role)

variable {σ : Type*} {A : Application σ} {empty : σ} {x y : Node σ} {H : Message → Prop}
  {C : Command → Prop} {m : Message} {h h' : Host σ} {act : HostAct σ} {effect : Effect}
  {disk : Disk} {past : List LogEntry}

/-! ### Applications -/

/-- What a snapshot of the state holds. -/
def Application.image (A : Application σ) (u : σ) : List UInt8 :=
  match A.snapshot with
  | some snapshot => (snapshot u).val
  | none => []

/-- What restoring from a snapshot makes of a state. -/
def Application.revive (A : Application σ) (u : σ) (data : List UInt8) : σ :=
  match A.restoreSnapshot with
  | some restore => restore u data
  | none => u

/-- `reload` empties the application, and restoring inverts the snapshot. -/
structure Application.Restores (A : Application σ) (empty : σ) : Prop where
  reloads : A.ReloadsTo empty
  inverse : ∀ u v, A.revive v (A.image u) = u

/-- Only the empty state has a snapshot of no bytes. -/
def Application.Visible (A : Application σ) (empty u : σ) : Prop := A.image u = [] → u = empty

instance [DecidableEq σ] (u : σ) : Decidable (A.Visible empty u) :=
  inferInstanceAs (Decidable (_ → _))

lemma length_image (u : σ) : (A.image u).length ≤ maxSnapshotSize := by
  rw [Application.image]
  split
  · rename_i snapshot _
    exact (snapshot u).property
  · exact Nat.zero_le _

/-! ### Nodes -/

/-- **The application is the replay of the applied entries**; `past` are those the snapshot
replaces. -/
structure Node.Faithful (A : Application σ) (empty : σ) (past : List LogEntry) (x : Node σ) :
    Prop where
  inside : x.Inside
  applied_le : x.lastApplied ≤ x.lastLogIndex
  length : (past.length : ℤ) = x.snapshotLastIncludedIndex
  user : x.user = A.replay empty ((past ++ x.log).take x.lastApplied.toNat)
  buf : 0 < x.snapshotLastIncludedIndex → x.snapshotBuf = A.image (A.replay empty past)
  visible : A.Visible empty (A.replay empty past)

lemma Node.Faithful.frame (hx : x.Faithful A empty past) (hl : y.log = x.log)
    (hs : y.snapshotLastIncludedIndex = x.snapshotLastIncludedIndex)
    (hb : y.snapshotBuf = x.snapshotBuf) (ha : y.lastApplied = x.lastApplied)
    (hc : y.commitIndex = x.commitIndex) (hu : y.user = x.user) : y.Faithful A empty past := by
  obtain ⟨⟨h1, h2, h3⟩, h4, h5, h6, h7, h8⟩ := hx
  refine ⟨⟨?_, ?_, ?_⟩, ?_, ?_, ?_, ?_, h8⟩
  · rw [hs]
    exact h1
  · rw [hs, ha]
    exact h2
  · rw [hc, Node.lastLogIndex, hs, hl]
    exact h3
  · rw [ha, Node.lastLogIndex, hs, hl]
    exact h4
  · rw [hs]
    exact h5
  · rw [hu, hl, ha]
    exact h6
  · rw [hs, hb]
    exact h7

/-- The applied entries are in the snapshot or in the log. -/
lemma Node.Faithful.applied_le_length (hx : x.Faithful A empty past) :
    x.lastApplied.toNat ≤ (past ++ x.log).length := by
  have hle := hx.applied_le
  have hlen := hx.length
  rw [Node.lastLogIndex] at hle
  rw [List.length_append]
  omega

/-- More entries at the end of the log. -/
lemma Node.Faithful.extend (hx : x.Faithful A empty past) (es : List LogEntry)
    (hl : y.log = x.log ++ es)
    (hs : y.snapshotLastIncludedIndex = x.snapshotLastIncludedIndex)
    (hb : y.snapshotBuf = x.snapshotBuf) (ha : y.lastApplied = x.lastApplied)
    (hc : y.commitIndex = x.commitIndex) (hu : y.user = x.user) : y.Faithful A empty past := by
  have hlast : x.lastLogIndex ≤ y.lastLogIndex := by
    rw [Node.lastLogIndex, Node.lastLogIndex, hs, hl, List.length_append]
    push_cast
    omega
  refine ⟨⟨?_, ?_, ?_⟩, ?_, ?_, ?_, ?_, hx.visible⟩
  · rw [hs]
    exact hx.inside.snap_nonneg
  · rw [hs, ha]
    exact hx.inside.applied
  · rw [hc]
    exact hx.inside.commit.trans hlast
  · rw [ha]
    exact hx.applied_le.trans hlast
  · rw [hs]
    exact hx.length
  · rw [hu, hl, ha, ← List.append_assoc, List.take_append_of_le_length hx.applied_le_length]
    exact hx.user
  · rw [hs, hb]
    exact hx.buf

lemma Node.Faithful.turn (hx : x.Faithful A empty past) (ht : Turn H C x y) :
    y.Faithful A empty past := by
  cases ht with
  | commit k _ hle =>
      exact ⟨⟨hx.inside.snap_nonneg, hx.inside.applied, hle⟩, hx.applied_le, hx.length, hx.user,
        hx.buf, hx.visible⟩
  | append c _ _ => exact hx.extend [x.clientEntry c] rfl rfl rfl rfl rfl rfl
  | tune | role | lead | raise | campaign | vote | queue | clear | report | backOff =>
      exact hx.frame rfl rfl rfl rfl rfl rfl

lemma Node.Faithful.turns (hx : x.Faithful A empty past) (ht : Turns H C x y) :
    y.Faithful A empty past :=
  ht.invariant (fun _ _ hx ht => hx.turn ht) hx

/-! ### Accepting a batch -/

/-- A rebuild starts from the snapshot. -/
lemma Node.Faithful.baseUser (hA : A.Restores empty) (hx : x.Faithful A empty past) :
    x.baseUser A = A.replay empty past := by
  obtain ⟨⟨reload, hreload, hempty⟩, hinverse⟩ := hA
  rw [Node.baseUser, Node.resetApplication]
  by_cases hpos : 0 < x.snapshotLastIncludedIndex
  · have hbuf := hx.buf hpos
    split
    · -- the buffer holds the image
      have hrevive := hinverse (A.replay empty past) x.user
      rw [Application.revive, ← hbuf] at hrevive
      cases hr : A.restoreSnapshot with
      | none =>
          rw [hr] at hrevive
          exact hrevive
      | some restore =>
          rw [hr] at hrevive
          exact hrevive
    · rename_i hshort
      have himage : A.image (A.replay empty past) = [] := by
        rw [← hbuf]
        by_contra hne
        exact hshort ⟨hpos, List.length_pos_iff.mpr hne⟩
      rw [hreload]
      exact (hempty _).trans (hx.visible himage).symm
  · have hpast : past = [] := by
      have hlen := hx.length
      have h0 := hx.inside.snap_nonneg
      exact List.length_eq_zero_iff.mp (by omega)
    rw [if_neg fun hboth => hpos hboth.1, hreload, hpast]
    exact hempty _

/-- **A batch** rewinds the application to the snapshot or leaves the applied entries alone. -/
lemma Node.Faithful.absorbed (hA : A.Restores empty) (hx : x.Faithful A empty past) (m : Message)
    (d : Bool) : Node.Faithful A empty past { x.absorbed A m with persistDirty := d } := by
  have hin := hx.inside.absorbed (A := A) m d
  have hlen := hx.length
  have hs := hx.inside.applied
  cases hb : (x.merged m).2 with
  | true =>
      obtain ⟨happ, huser, -⟩ := absorbed_rebuild (A := A) hb
      refine ⟨hin, ?_, hx.length, ?_, hx.buf, hx.visible⟩
      · change (x.absorbed A m).lastApplied ≤ x.snapshotLastIncludedIndex + _
        rw [happ]
        omega
      · change (x.absorbed A m).user = A.replay empty
          ((past ++ (x.absorbed A m).log).take (x.absorbed A m).lastApplied.toNat)
        rw [happ, huser, ← hlen, Int.toNat_natCast, List.take_left]
        exact hx.baseUser hA
  | false =>
      obtain ⟨happ, huser, -⟩ := absorbed_keep (A := A) hb
      obtain ⟨k, hk⟩ : ∃ k : ℕ, x.lastApplied = x.snapshotLastIncludedIndex + k :=
        ⟨(x.lastApplied - x.snapshotLastIncludedIndex).toNat, by omega⟩
      have hkl : k ≤ x.log.length := by
        have hle := hx.applied_le
        rw [Node.lastLogIndex] at hle
        omega
      obtain ⟨htake, hlog⟩ := mergeEntries_applied m.entries k x false hkl hk.ge hb
      have hnat : x.lastApplied.toNat = past.length + k := by omega
      refine ⟨hin, ?_, hx.length, ?_, hx.buf, hx.visible⟩
      · change (x.absorbed A m).lastApplied ≤
          x.snapshotLastIncludedIndex + ((x.merged m).1.length : ℤ)
        rw [happ, hk]
        have : k ≤ (x.merged m).1.length := hlog
        omega
      · change (x.absorbed A m).user = A.replay empty
          ((past ++ (x.absorbed A m).log).take (x.absorbed A m).lastApplied.toNat)
        rw [happ, huser, hx.user, hnat, List.take_length_add_append, List.take_length_add_append,
          ← htake]
        rfl

lemma Node.Faithful.transition (hA : A.Restores empty) (hx : x.Faithful A empty past) :
    (x.transition A).Faithful A empty past := by
  rcases transition_turns (C := fun _ => False) (A := A) x with h | ⟨m, rest, hacc, hrest, htrans⟩
  · exact hx.turns h
  · obtain ⟨t, v, l, e, d₀, d, z, -, hz, -, heq, -⟩ :=
      transition_accept (C := fun _ => False) hacc hrest htrans
    rw [heq]
    exact ((hx.turns hz).absorbed hA m d).turns (H := fun _ => False) (C := fun _ => False)
      (turns_queueMessage rfl fun _ => rfl)

/-! ### The end of a tick -/

/-- What applying a command makes of the application. -/
lemma ApplyCase.user_eq {c : Command} (hcase : ApplyCase A x c y) :
    y.user = if c.isInternal then x.user else A.run x.user c := by
  cases hcase with
  | user apply hint happly => rw [hint, if_neg Bool.false_ne_true, Application.run, happly]
  | noUser hint happly => rw [hint, if_neg Bool.false_ne_true, Application.run, happly]
  | threshold t hop => rw [show c.isInternal = true by simp [Command.isInternal, hop], if_pos rfl]
  | skip hint _ => rw [hint, if_pos rfl]
  | enter hop _ _ =>
      rw [show c.isInternal = true by simp [Command.isInternal, hop], if_pos rfl]
      rfl
  | leave hop hidx hne =>
      obtain ⟨r, l, v, s, heq, -⟩ := applyLeaveJoint_eq (x := x) hidx hne
      rw [heq, show c.isInternal = true by simp [Command.isInternal, hop], if_pos rfl]
      rfl

lemma Node.Faithful.applyNext (hx : x.Faithful A empty past) (hlt : x.lastApplied < x.commitIndex) :
    (x.applyNext A).1.Faithful A empty past := by
  obtain ⟨happ, hla⟩ := applying_applyNext (A := A) x
  obtain ⟨e, z, he, hcase, heq⟩ := applyNext_case (A := A) hx.inside hlt
  have hs := hx.inside.applied
  have h0 := hx.inside.snap_nonneg
  have hc := hx.inside.commit
  have hlen := hx.length
  have hentry : (past ++ x.log)[x.lastApplied.toNat]? = some e := by
    rw [List.getElem?_append_right (by omega), ← he]
    congr 1
    omega
  refine ⟨hx.inside.applying happ (by omega), ?_, ?_, ?_, ?_, hx.visible⟩
  · rw [hla, Node.lastLogIndex, happ.snapIndex, happ.log]
    rw [Node.lastLogIndex] at hc
    omega
  · rw [happ.snapIndex]
    exact hlen
  · have huser : (x.applyNext A).1.user = z.user := by rw [heq]
    have htake : (past ++ x.log).take (x.lastApplied + 1).toNat =
        (past ++ x.log).take x.lastApplied.toNat ++ [e] := by
      rw [show (x.lastApplied + 1).toNat = x.lastApplied.toNat + 1 by omega, List.take_add_one,
        hentry]
      rfl
    rw [huser, happ.log, hla, htake, replay_concat, ← hx.user]
    exact hcase.user_eq
  · rw [happ.snapIndex, happ.snapBuf]
    exact hx.buf

lemma Node.Faithful.advanced (hx : x.Faithful A empty past) : x.advanced.Faithful A empty past := by
  rcases advanced_cases x with h | ⟨k, -, hle, h⟩
  · rw [h]
    exact hx
  · rw [h]
    exact ⟨⟨hx.inside.snap_nonneg, hx.inside.applied, hle⟩, hx.applied_le, hx.length, hx.user,
      hx.buf, hx.visible⟩

lemma Node.Faithful.commitAndApply (hx : x.Faithful A empty past) :
    (x.commitAndApply A).1.Faithful A empty past :=
  commitAndApply_induct hx.inside.advanced hx.advanced fun _ _ hlt hI => hI.applyNext hlt

lemma Node.Faithful.maybeDriveMembership (hx : x.Faithful A empty past) :
    x.maybeDriveMembership.Faithful A empty past := by
  have hcase := maybeDriveMembership_cases x
  generalize x.maybeDriveMembership = y at hcase ⊢
  cases hcase with
  | enter => exact hx.extend [_] rfl rfl rfl rfl rfl rfl
  | leave => exact hx.extend [_] rfl rfl rfl rfl rfl rfl
  | none | fullEnter | joint | fullLeave | stable => exact hx.frame rfl rfl rfl rfl rfl rfl

/-- The node that compacts at the end of a tick. -/
def Node.beforeCompaction (A : Application σ) (x : Node σ) : Node σ :=
  (x.commitAndApply A).1.maybeDriveMembership

/-- **No peer of a leader lacks an applied command of the application.** -/
def Node.CaughtUp (x : Node σ) : Prop :=
  x.state = .leader → ∀ p ∈ x.log.zipIdx, x.snapshotLastIncludedIndex + p.2 + 1 ≤ x.lastApplied →
    ∀ k ∈ x.matchIndex.take x.config.peers.length, k < x.snapshotLastIncludedIndex + p.2 + 1 →
      p.1.command.isInternal = true

instance (x : Node σ) : Decidable x.CaughtUp :=
  inferInstanceAs (Decidable (_ → ∀ p ∈ _, _ → ∀ k ∈ _, _ → _))

lemma lt_of_foldl_min_lt {l : List ℤ} {a j : ℤ} (h : l.foldl min a < j) : a < j ∨ ∃ k ∈ l, k < j := by
  induction l generalizing a with
  | nil => exact Or.inl h
  | cons k l ih =>
      rw [List.foldl_cons] at h
      rcases ih h with hmin | ⟨k', hk', hlt⟩
      · rcases min_lt_iff.mp hmin with ha | hk
        · exact Or.inl ha
        · exact Or.inr ⟨k, List.mem_cons_self, hk⟩
      · exact Or.inr ⟨k', List.mem_cons_of_mem _ hk', hlt⟩

/-- Past the label only a leader has applied something, and some peer lacks it. -/
lemma lagging_of_compactibleIndex_lt {j : ℤ} (hlt : x.compactibleIndex < j)
    (hle : j ≤ x.lastApplied) : x.state = .leader ∧
      ∃ k ∈ x.matchIndex.take x.config.peers.length, k < j := by
  rw [Node.compactibleIndex] at hlt
  split at hlt
  · exact absurd hle (not_le.mpr hlt)
  · rename_i hleads
    rcases lt_of_foldl_min_lt hlt with happ | hlag
    · exact absurd hle (not_le.mpr happ)
    · exact ⟨not_not.mp hleads, hlag⟩

/-- Internal commands pass the application by. -/
lemma replay_internal {es es' : List LogEntry} (h : ∀ e ∈ es', e.command.isInternal = true) :
    A.replay empty (es ++ es') = A.replay empty es := by
  have hnil : (es'.map LogEntry.command).filter (fun c => !c.isInternal) = [] := by
    rw [List.filter_eq_nil_iff]
    intro c hc
    obtain ⟨e, he, rfl⟩ := List.mem_map.mp hc
    rw [h e he]
    decide
  rw [Application.replay, List.map_append, List.filter_append, hnil, List.append_nil]
  rfl

/-- **Then the state is the replay of the entries up to the label.** -/
lemma Node.Faithful.user_label (hx : x.Faithful A empty past) (hup : x.CaughtUp)
    (hlo : x.snapshotLastIncludedIndex ≤ x.compactibleIndex) :
    x.user = A.replay empty ((past ++ x.log).take x.compactibleIndex.toNat) := by
  have hle := compactibleIndex_le x
  have hlen := hx.length
  have hs := hx.inside.snap_nonneg
  have hsplit : (past ++ x.log).take x.lastApplied.toNat =
      (past ++ x.log).take x.compactibleIndex.toNat ++
        ((past ++ x.log).drop x.compactibleIndex.toNat).take
          (x.lastApplied - x.compactibleIndex).toNat := by
    rw [← List.take_add]
    congr 1
    omega
  rw [hx.user, hsplit]
  refine replay_internal fun e he => ?_
  obtain ⟨j, hj⟩ := List.getElem?_of_mem he
  rw [List.getElem?_take, Option.ite_none_right_eq_some, List.getElem?_drop,
    List.getElem?_append_right (by omega)] at hj
  obtain ⟨hlt, hj⟩ := hj
  obtain ⟨i, hi⟩ : ∃ i : ℕ, x.compactibleIndex.toNat + j - past.length = i := ⟨_, rfl⟩
  rw [hi] at hj
  have hlast : x.snapshotLastIncludedIndex + i + 1 ≤ x.lastApplied := by omega
  obtain ⟨hleads, k, hk, hlag⟩ := lagging_of_compactibleIndex_lt
    (x := x) (j := x.snapshotLastIncludedIndex + i + 1) (by omega) hlast
  exact hup hleads (e, i) (List.mk_mem_zipIdx_iff_getElem?.mpr hj) hlast k hk hlag

/-- **The state belongs to the label** and can be told from the empty one by its snapshot. -/
structure Node.Serialisable (A : Application σ) (empty : σ) (x : Node σ) : Prop where
  caughtUp : x.CaughtUp
  visible : A.Visible empty x.user

instance [DecidableEq σ] (x : Node σ) : Decidable (x.Serialisable A empty) :=
  decidable_of_iff (x.CaughtUp ∧ A.Visible empty x.user)
    ⟨fun h => ⟨h.1, h.2⟩, fun h => ⟨h.caughtUp, h.visible⟩⟩

/-- **A compaction** of such a node. -/
lemma Node.Faithful.maybeCompact (hx : x.Faithful A empty past)
    (hok : (x.maybeCompact A).2.isSome = true → x.Serialisable A empty) :
    (x.maybeCompact A).1.Faithful A empty
        ((past ++ x.log).take (x.maybeCompact A).1.snapshotLastIncludedIndex.toNat) ∧
      ∀ f, (x.maybeCompact A).2 = some f →
        f.data = A.image (A.replay empty ((past ++ x.log).take f.index.toNat)) := by
  rcases maybeCompact_cases (A := A) x with heq | ⟨data, -, hlo, hhi, hdata, heq⟩
  · rw [heq]
    refine ⟨?_, by simp⟩
    have htake : (past ++ x.log).take x.snapshotLastIncludedIndex.toNat = past := by
      rw [← hx.length, Int.toNat_natCast, List.take_left]
    rw [htake]
    exact hx
  · rw [heq] at hok ⊢
    obtain ⟨hup, hvisible⟩ := hok rfl
    have huser := hx.user_label hup hlo.le
    have himage : data = A.image (A.replay empty
        ((past ++ x.log).take x.compactibleIndex.toNat)) := by
      rw [← huser, hdata]
      rfl
    have hs := hx.inside.snap_nonneg
    have hlen := hx.length
    rw [Node.lastLogIndex] at hhi
    obtain ⟨k, hk⟩ : ∃ k : ℕ, x.compactibleIndex = x.snapshotLastIncludedIndex + k :=
      ⟨(x.compactibleIndex - x.snapshotLastIncludedIndex).toNat, by omega⟩
    have hdrop : (x.compactibleIndex - x.snapshotLastIncludedIndex).toNat = k := by omega
    have hnat : x.compactibleIndex.toNat = past.length + k := by omega
    have hwhole : (past ++ x.log).take x.compactibleIndex.toNat ++ x.log.drop k =
        past ++ x.log := by
      rw [hnat, List.take_length_add_append, List.append_assoc, List.take_append_drop]
    have hlast : x.compactibleIndex + ((x.log.drop k).length : ℤ) =
        x.snapshotLastIncludedIndex + x.log.length := by
      rw [List.length_drop]
      omega
    constructor
    · refine ⟨⟨?_, ?_, ?_⟩, ?_, ?_, ?_, fun _ => himage, ?_⟩
      · change 0 ≤ x.compactibleIndex
        omega
      · exact compactibleIndex_le x
      · change x.commitIndex ≤ x.compactibleIndex + ((x.log.drop _).length : ℤ)
        rw [hdrop, hlast]
        exact hx.inside.commit
      · change x.lastApplied ≤ x.compactibleIndex + ((x.log.drop _).length : ℤ)
        rw [hdrop, hlast]
        exact hx.applied_le
      · change (((past ++ x.log).take x.compactibleIndex.toNat).length : ℤ) = x.compactibleIndex
        rw [List.length_take, List.length_append]
        omega
      · change x.user = A.replay empty (((past ++ x.log).take x.compactibleIndex.toNat ++
          x.log.drop _).take x.lastApplied.toNat)
        rw [hdrop, hwhole]
        exact hx.user
      · change A.Visible empty (A.replay empty ((past ++ x.log).take x.compactibleIndex.toNat))
        rw [← huser]
        exact hvisible
    · rintro f hf
      obtain rfl := Option.some.inj hf
      exact himage

/-- The driver appends to the log. -/
lemma log_beforeCompaction (x : Node σ) : ∃ es, (x.beforeCompaction A).log = x.log ++ es := by
  rw [Node.beforeCompaction, ← log_commitAndApply (A := A) x]
  have hcase := maybeDriveMembership_cases (x.commitAndApply A).1
  generalize (x.commitAndApply A).1.maybeDriveMembership = y at hcase ⊢
  cases hcase with
  | enter => exact ⟨_, rfl⟩
  | leave => exact ⟨_, rfl⟩
  | none | fullEnter | joint | fullLeave | stable => exact ⟨[], (List.append_nil _).symm⟩

/-- **The end of a tick.** -/
lemma Node.Faithful.dumped (hx : x.Faithful A empty past)
    (hok : ((x.beforeCompaction A).maybeCompact A).2.isSome = true →
      (x.beforeCompaction A).Serialisable A empty) :
    (x.dumped A).Faithful A empty
        ((past ++ x.log).take (x.dumped A).snapshotLastIncludedIndex.toNat) ∧
      ∀ f, ((x.beforeCompaction A).maybeCompact A).2 = some f →
        f.data = A.image (A.replay empty ((past ++ x.log).take f.index.toNat)) := by
  have happly := hx.commitAndApply (A := A)
  have hz : (x.beforeCompaction A).Faithful A empty past := happly.maybeDriveMembership
  obtain ⟨es, hes⟩ := log_beforeCompaction (A := A) x
  -- the label does not reach the entry the driver may have appended
  have htake : ∀ t : ℤ, t ≤ (x.beforeCompaction A).lastApplied →
      (past ++ (x.beforeCompaction A).log).take t.toNat = (past ++ x.log).take t.toNat := by
    intro t ht
    have hsame : (x.beforeCompaction A).lastApplied = (x.commitAndApply A).1.lastApplied := by
      have hcase := maybeDriveMembership_cases (x.commitAndApply A).1
      rw [Node.beforeCompaction]
      generalize (x.commitAndApply A).1.maybeDriveMembership = y at hcase ⊢
      cases hcase <;> rfl
    have hle := happly.applied_le_length
    rw [log_commitAndApply] at hle
    rw [hes, ← List.append_assoc, List.take_append_of_le_length (by omega)]
  obtain ⟨hfaith, hfile⟩ := hz.maybeCompact hok
  have happlied : (x.dumped A).snapshotLastIncludedIndex ≤ (x.beforeCompaction A).lastApplied := by
    have h := hfaith.inside.applied
    have hsame : ((x.beforeCompaction A).maybeCompact A).1.lastApplied =
        (x.beforeCompaction A).lastApplied := by
      rcases maybeCompact_cases (A := A) (x.beforeCompaction A) with heq | ⟨data, -, -, -, -, heq⟩
      all_goals rw [heq]
    rw [hsame] at h
    exact h
  constructor
  · rw [← htake _ happlied]
    exact hfaith
  · intro f hf
    have hidx : f.index = (x.dumped A).snapshotLastIncludedIndex := by
      rcases dumped_snap (A := A) x with ⟨hnone, -⟩ | ⟨g, hsome, -, hindex, -⟩
      · rw [Node.beforeCompaction, hnone] at hf
        simp at hf
      · rw [Node.beforeCompaction, hsome] at hf
        obtain rfl := Option.some.inj hf
        exact hindex
    rw [hfile f hf, htake]
    rw [hidx]
    exact happlied

/-! ### Files -/

/-- **The snapshot `meta.txt` names** is there and is the image of the replay of `past`. -/
structure Disk.Faithful (A : Application σ) (empty : σ) (past : List LogEntry) (disk : Disk) :
    Prop where
  length : (past.length : ℤ) = (readMeta disk.metaText).snapshotLastIncludedIndex
  file : past ≠ [] → ∃ f, disk.snapshot = some f ∧
    (f.index, f.term) = (readMeta disk.metaText).snap ∧ f.data = A.image (A.replay empty past)
  labelled : ∀ f, disk.snapshot = some f → 0 < f.index
  visible : A.Visible empty (A.replay empty past)

lemma faithful_empty : Disk.empty.Faithful A empty [] where
  length := rfl
  file := fun h => absurd rfl h
  labelled := by simp [Disk.empty]
  visible := fun _ => rfl

/-- **A load** finds the snapshot, or starts with an empty application. -/
lemma Disk.Faithful.load (hA : A.Restores empty) (hd : disk.Faithful A empty past) (y : Node σ) :
    (y.load A disk).Faithful A empty past ∧
      (y.load A disk).lastApplied = (y.load A disk).snapshotLastIncludedIndex := by
  obtain ⟨reload, hreload, hempty⟩ := hA.reloads
  have hlen := hd.length
  by_cases hpast : past = []
  · rw [hpast] at hlen ⊢
    rw [List.length_nil, Nat.cast_zero] at hlen
    have hnone : matchingSnapshot (readMeta disk.metaText) disk.snapshot = none := by
      cases hfile : disk.snapshot with
      | none => rfl
      | some f =>
          have hpos := hd.labelled f hfile
          rw [matchingSnapshot, if_neg]
          rintro ⟨hindex, -⟩
          omega
    rw [Node.load]
    simp only [hnone, hreload]
    refine ⟨⟨⟨hlen.le, hlen.ge, min_le_right _ _⟩, ?_, hlen, ?_, ?_, fun _ => rfl⟩, hlen⟩
    · change (0 : ℤ) ≤ (readMeta disk.metaText).snapshotLastIncludedIndex + _
      omega
    · exact hempty _
    · intro hpos
      change 0 < (readMeta disk.metaText).snapshotLastIncludedIndex at hpos
      omega
  · obtain ⟨f, hfile, hlabel, hdata⟩ := hd.file hpast
    have hsome : matchingSnapshot (readMeta disk.metaText) disk.snapshot =
        some (A.image (A.replay empty past)) := by
      have hshort := length_image (A := A) (A.replay empty past)
      rw [hfile, matchingSnapshot, if_pos (Prod.mk.inj hlabel), hdata, if_pos hshort]
    have huser := hA.inverse (A.replay empty past) y.user
    rw [Node.load]
    simp only [hsome]
    refine ⟨⟨⟨?_, le_rfl, min_le_right _ _⟩, ?_, hlen, ?_, fun _ => rfl, hd.visible⟩, trivial⟩
    · change 0 ≤ (readMeta disk.metaText).snapshotLastIncludedIndex
      omega
    · change (readMeta disk.metaText).snapshotLastIncludedIndex ≤
        (readMeta disk.metaText).snapshotLastIncludedIndex + _
      omega
    · change _ = A.replay empty ((past ++ _).take
        (readMeta disk.metaText).snapshotLastIncludedIndex.toNat)
      rw [← hlen, Int.toNat_natCast, List.take_left]
      exact huser

/-- A learner forgets an empty log. -/
lemma Node.Faithful.forget (hx : x.Faithful A empty [])
    (happ : x.lastApplied = x.snapshotLastIncludedIndex) (d : Bool) :
    Node.Faithful A empty [] { x.forget with persistDirty := d } := by
  have hlen := hx.length
  have huser := hx.user
  rw [happ, ← hlen] at huser
  exact ⟨⟨le_rfl, le_rfl, le_rfl⟩, le_rfl, rfl, huser, fun h => absurd h (lt_irrefl 0), fun _ => rfl⟩

/-- A node that was initialised; a learner has nothing to forget. -/
lemma Disk.Faithful.init (hA : A.Restores empty) (hd : disk.Faithful A empty past)
    {config : NodeConfig} (hl : config.learner = true → past = []) (user : σ) (clock : ℤ) :
    (Node.init A config disk user clock).Faithful A empty past := by
  have hload : (Node.loaded A config disk user clock).Faithful A empty past ∧
      (Node.loaded A config disk user clock).lastApplied =
        (Node.loaded A config disk user clock).snapshotLastIncludedIndex := by
    have hload := hd.load hA (Node.zero config user clock)
    rw [Node.loaded]
    generalize (Node.zero config user clock).load A disk = z at hload ⊢
    split
    · exact ⟨hload.1.frame rfl rfl rfl rfl rfl rfl, hload.2⟩
    · exact hload
  have hfresh : (Node.fresh A config disk user clock).Faithful A empty past := by
    rw [Node.fresh]
    split
    · rename_i hlearner
      obtain rfl := hl hlearner
      exact hload.1.forget hload.2 true
    · exact hload.1
  rw [init_ready]
  exact hfresh.frame rfl rfl rfl rfl rfl rfl

lemma Disk.Faithful.start (hA : A.Restores empty) (hd : disk.Faithful A empty past) (x : Node σ) :
    (x.start A disk).Faithful A empty past := by
  have hload := (hd.load hA x).1
  rw [Node.start]
  generalize x.load A disk = z at hload ⊢
  split
  · exact hload.frame rfl rfl rfl rfl rfl rfl
  · exact hload.frame rfl rfl rfl rfl rfl rfl

/-! ### Hosts -/

/-- A host and the entries the snapshot of its node replaces. -/
structure Archive (σ : Type*) where
  host : Host σ
  past : List LogEntry

/-- An act: what goes from the log into the snapshot is kept. -/
def Archive.exec (A : Application σ) (a : Archive σ) (act : HostAct σ) :
    Option (Archive σ × Effect) :=
  (a.host.exec A act).map fun (h, effect) =>
    ({ host := h
       past := (a.past ++ a.host.node.log).take h.node.snapshotLastIncludedIndex.toNat }, effect)

/-- The archive after an act. -/
def Archive.step (A : Application σ) (a : Archive σ) (act : HostAct σ) : Option (Archive σ) :=
  (a.exec A act).map Prod.fst

/-- A host on an empty data directory. -/
def Archive.boot (A : Application σ) (config : NodeConfig) (user : σ) (clock : ℤ) : Archive σ :=
  { host := Host.boot A config user clock, past := [] }

/-- **Between two acts** node and files are faithful. -/
structure Archive.Faithful (A : Application σ) (empty : σ) (a : Archive σ) : Prop where
  short : a.host.node.ShortIds
  node : a.host.node.Faithful A empty a.past
  disk : a.host.disk.Faithful A empty a.past
  stored : a.past ≠ [] → (readMeta a.host.disk.metaText).snap =
    (a.host.node.snapshotLastIncludedIndex, a.host.node.snapshotLastIncludedTerm)

/-- **What is asked of an act.**  A compaction happens in a node whose state belongs to the label,
and the process does not die between `snapshot.bin` and the `meta.txt` that replaces an older one.
A learner that is initialised again has compacted nothing, and the caller of a reset empties the
application. -/
def FaithfulAct (A : Application σ) (empty : σ) (h : Host σ) : HostAct σ → Prop
  | .dump => h.node.compacts A = true → (h.node.beforeCompaction A).Serialisable A empty
  | .crashInDump writes _ _ _ =>
      (h.node.compacts A = true → 0 < writes →
        (h.node.beforeCompaction A).Serialisable A empty ∧
          (writes = 1 → h.node.snapshotLastIncludedIndex = 0)) ∧
      (h.config.learner = true → (h.node.dumped A).snapshotLastIncludedIndex = 0)
  | .crash _ _ | .crashInReset _ _ _ =>
      h.config.learner = true → h.node.snapshotLastIncludedIndex = 0
  | .resetForJoin _ user => user = empty
  | _ => True

instance [DecidableEq σ] (h : Host σ) :
    (act : HostAct σ) → Decidable (FaithfulAct A empty h act)
  | .dump => inferInstanceAs (Decidable (_ → _))
  | .crashInDump _ _ _ _ => inferInstanceAs (Decidable ((_ → _ → _ ∧ (_ → _)) ∧ (_ → _)))
  | .crash _ _ | .crashInReset _ _ _ => inferInstanceAs (Decidable (_ → _))
  | .resetForJoin _ _ => inferInstanceAs (Decidable (_ = _))
  | .latch .. | .transition _ | .stop | .start _ | .request _ => inferInstanceAs (Decidable True)

variable {a b : Archive σ}

lemma take_past (past es : List LogEntry) {s : ℤ} (hs : (past.length : ℤ) = s) :
    (past ++ es).take s.toNat = past := by
  rw [← hs, Int.toNat_natCast, List.take_left]

lemma isSome_of_compacts (hrun : x.running = true)
    (h : ((x.beforeCompaction A).maybeCompact A).2.isSome = true) : x.compacts A = true := by
  cases hc : x.compacts A with
  | true => rfl
  | false =>
      rw [Node.beforeCompaction, maybeCompact_of_not_compacts hrun hc] at h
      simp at h

/-- **The files after `meta.txt` was replaced.** -/
lemma Archive.Faithful.saved (ha : a.Faithful A empty) (disk : Disk)
    (hfit : (a.host.node.dumped A).Fits)
    (hok : ((a.host.node.beforeCompaction A).maybeCompact A).2.isSome = true →
      (a.host.node.beforeCompaction A).Serialisable A empty)
    (hmeta : disk.metaText = some (writeMeta (a.host.node.dumped A)))
    (hsnap : disk.snapshot =
      ((a.host.node.beforeCompaction A).maybeCompact A).2.or a.host.disk.snapshot) :
    disk.Faithful A empty ((a.past ++ a.host.node.log).take
        (a.host.node.dumped A).snapshotLastIncludedIndex.toNat) ∧
      (readMeta disk.metaText).snap = ((a.host.node.dumped A).snapshotLastIncludedIndex,
        (a.host.node.dumped A).snapshotLastIncludedTerm) := by
  obtain ⟨hfaith, hdata⟩ := ha.node.dumped hok
  have hread := snap_readMeta hfit ha.short.dumped
  rw [← hmeta] at hread
  refine ⟨⟨?_, ?_, ?_, hfaith.visible⟩, hread⟩
  · exact hfaith.length.trans (congrArg Prod.fst hread).symm
  · intro hne
    rw [hread, hsnap]
    rcases dumped_snap (A := A) a.host.node with ⟨hnone, hi, ht⟩ | ⟨f, hsome, -, hi, ht, -⟩
    · -- the snapshot of before
      rw [hi, take_past _ _ ha.node.length] at hne ⊢
      obtain ⟨f, hf, hlabel, himage⟩ := ha.disk.file hne
      rw [Node.beforeCompaction, hnone, ht]
      rw [ha.stored hne] at hlabel
      exact ⟨f, hf, hlabel, himage⟩
    · have himage := hdata f hsome
      rw [hi] at himage
      rw [Node.beforeCompaction, hsome]
      exact ⟨f, rfl, by rw [hi, ht], himage⟩
  · intro g hg
    rw [hsnap] at hg
    rcases dumped_snap (A := A) a.host.node with ⟨hnone, -⟩ | ⟨f, hsome, -, hi, -, hlt⟩
    · rw [Node.beforeCompaction, hnone] at hg
      exact ha.disk.labelled g hg
    · rw [Node.beforeCompaction, hsome] at hg
      obtain rfl := Option.some.inj hg
      have h0 := ha.node.inside.snap_nonneg
      omega

/-- **The files after some of the replacements of a tick.** -/
lemma Archive.Faithful.writes (ha : a.Faithful A empty) (hrun : a.host.node.running = true)
    (hfit : (a.host.node.dumped A).Fits) {k : ℕ}
    (hok : a.host.node.compacts A = true → 0 < k →
      (a.host.node.beforeCompaction A).Serialisable A empty ∧
        (k = 1 → a.host.node.snapshotLastIncludedIndex = 0)) :
    ∃ past, past <+: a.past ++ a.host.node.log ∧
      (past.length : ℤ) ≤ (a.host.node.dumped A).snapshotLastIncludedIndex ∧
      (a.host.disk.writeAll ((a.host.node.dumpOutputs A).writes.take k)).Faithful A empty past := by
  have hle := snap_le_dumped (A := A) a.host.node
  have hsame : ∃ past, past <+: a.past ++ a.host.node.log ∧
      (past.length : ℤ) ≤ (a.host.node.dumped A).snapshotLastIncludedIndex ∧
      a.host.disk.Faithful A empty past :=
    ⟨a.past, List.prefix_append _ _, ha.node.length.le.trans hle, ha.disk⟩
  rcases Nat.eq_zero_or_pos k with rfl | hk
  · exact hsame
  have hserial : ((a.host.node.beforeCompaction A).maybeCompact A).2.isSome = true →
      (a.host.node.beforeCompaction A).Serialisable A empty :=
    fun h => (hok (isSome_of_compacts hrun h) hk).1
  rw [dumpOutputs_eq hrun]
  rcases writeAll_cases a.host.disk _ (a.host.node.dumped A) k
    (dirty_of_compacts (A := A) a.host.node) with heq | ⟨f, hf, rfl, heq⟩ | ⟨-, heq⟩ | ⟨-, heq⟩
  · rw [heq]
    exact hsame
  · -- the first compaction; no `meta.txt` names a snapshot yet
    have hzero := (hok (isSome_of_compacts hrun (by
      rw [Node.beforeCompaction, hf]
      rfl)) hk).2 rfl
    have hpast : a.past = [] := by
      have hlen := ha.node.length
      exact List.length_eq_zero_iff.mp (by omega)
    have hdisk := ha.disk
    rw [hpast] at hdisk
    rw [heq]
    refine ⟨[], List.nil_prefix, ?_, hdisk.length, fun h => absurd rfl h, ?_, fun _ => rfl⟩
    · rw [List.length_nil, Nat.cast_zero, ← hzero]
      exact hle
    · intro g hg
      obtain rfl := Option.some.inj hg
      rcases dumped_snap (A := A) a.host.node with ⟨hnone, -⟩ | ⟨f', hsome, -, hi, -, hlt⟩
      · rw [hnone] at hf
        simp at hf
      · obtain rfl := Option.some.inj (hsome.symm.trans hf)
        omega
  · rw [heq]
    exact ⟨_, List.take_prefix _ _, (ha.node.dumped hserial).1.length.le,
      (ha.saved _ hfit hserial rfl rfl).1⟩
  · rw [heq]
    exact ⟨_, List.take_prefix _ _, (ha.node.dumped hserial).1.length.le,
      (ha.saved _ hfit hserial rfl rfl).1⟩

/-- What an initialised node may be put into. -/
lemma Archive.Faithful.restart (hA : A.Restores empty) {es : List LogEntry}
    (hpast : past <+: es) (hd : disk.Faithful A empty past) {config : NodeConfig}
    (hl : config.learner = true → past = []) (user : σ) (clock : ℤ) (p : Phase) :
    Archive.Faithful A empty
      { host := { config := config, node := Node.init A config disk user clock, disk := disk
                  phase := p }
        past := es.take (Node.init A config disk user clock).snapshotLastIncludedIndex.toNat } := by
  have hnode := hd.init hA hl user clock
  have htake : es.take (Node.init A config disk user clock).snapshotLastIncludedIndex.toNat =
      past := by
    obtain ⟨rest, rfl⟩ := hpast
    exact take_past past rest hnode.length
  rw [htake]
  refine ⟨?_, hnode, hd, ?_⟩
  · have hfresh : (Node.fresh A config disk user clock).ShortIds := by
      rw [Node.fresh]
      split
      · exact ⟨roster_nil [], roster_nil []⟩
      · obtain ⟨v, la, buf, c, t, hloaded⟩ := loaded_eq (A := A) config disk user clock
        obtain ⟨hold, hnew⟩ := shortIds_readMeta disk.metaText
        rw [hloaded]
        exact ⟨hold, hnew⟩
    rw [init_ready]
    exact hfresh.startConfig.same rfl
  · intro hne
    have hlearner : config.learner = false := by
      cases hc : config.learner with
      | false => rfl
      | true => exact absurd (hl hc) hne
    refine (init_snapKept (A := A) hlearner disk user clock ?_ p).stored
    rw [MetaFile.snap, ← hd.length]
    exact Int.natCast_nonneg _

lemma archive_exec_eq {act : HostAct σ} (hexec : a.exec A act = some (b, effect)) :
    ∃ h', a.host.exec A act = some (h', effect) ∧
      b = { host := h'
            past := (a.past ++ a.host.node.log).take
              h'.node.snapshotLastIncludedIndex.toNat } := by
  obtain ⟨⟨h', e⟩, hh, heq⟩ := Option.map_eq_some_iff.mp hexec
  obtain ⟨rfl, rfl⟩ := Prod.mk.inj heq
  exact ⟨h', hh, rfl⟩

/-- An act that leaves the files and the snapshot of the node alone. -/
lemma Archive.Faithful.same (ha : a.Faithful A empty) {p : Phase} (hshort : y.ShortIds)
    (hnode : y.Faithful A empty a.past)
    (ht : y.snapshotLastIncludedTerm = a.host.node.snapshotLastIncludedTerm) :
    Archive.Faithful A empty
      { host := { config := a.host.config, node := y, disk := a.host.disk, phase := p }
        past := (a.past ++ a.host.node.log).take y.snapshotLastIncludedIndex.toNat } := by
  rw [take_past _ _ hnode.length]
  refine ⟨hshort, hnode, ha.disk, fun hne => ?_⟩
  rw [ha.stored hne, ht, ← hnode.length, ← ha.node.length]

/-- A node that holds nothing and saves it. -/
lemma Archive.Faithful.reset (ha : a.Faithful A empty) (hy : y.Faithful A empty [])
    (hshort : y.ShortIds) (hfit : y.Fits) {p : Phase} :
    Archive.Faithful A empty
      { host := { config := a.host.config, node := y, disk := a.host.disk.writeAll (save y)
                  phase := p }
        past := (a.past ++ a.host.node.log).take y.snapshotLastIncludedIndex.toNat } := by
  have hzero : y.snapshotLastIncludedIndex = 0 := hy.length.symm
  have hread := snap_readMeta hfit hshort
  rw [MetaFile.snap, Prod.mk.injEq, hzero] at hread
  have hmeta : (a.host.disk.writeAll (save y)).metaText = some (writeMeta y) := rfl
  rw [hzero, Int.toNat_zero, List.take_zero]
  refine ⟨hshort, hy, ⟨?_, fun h => absurd rfl h, ha.disk.labelled, fun _ => rfl⟩,
    fun h => absurd rfl h⟩
  rw [hmeta, hread.1]
  rfl

/-- A reset around which the caller empties the application. -/
lemma Archive.Faithful.resetForJoin (ha : a.Faithful A empty) (clock : ℤ)
    (hfit : (Node.resetForJoin { a.host.node with clockMs := clock, user := empty }).1.Fits) :
    Archive.Faithful A empty
      { host := { a.host with
          node := (Node.resetForJoin { a.host.node with clockMs := clock, user := empty }).1
          disk := a.host.disk.writeAll
            (Node.resetForJoin { a.host.node with clockMs := clock, user := empty }).2 }
        past := (a.past ++ a.host.node.log).take
          (Node.resetForJoin { a.host.node with clockMs := clock, user := empty }
            ).1.snapshotLastIncludedIndex.toNat } :=
  ha.reset ⟨⟨le_rfl, le_rfl, le_rfl⟩, le_rfl, rfl, rfl, fun h => absurd h (lt_irrefl 0),
    fun _ => rfl⟩ ⟨roster_nil [], roster_nil []⟩ hfit

/-- **The files after some of the replacements of a reset**: the new `meta.txt` names no
snapshot. -/
lemma Archive.Faithful.resetDisk (ha : a.Faithful A empty)
    (hfit : a.host.node.resetForJoin.1.Fits) (k : ℕ) :
    ∃ past, past <+: a.past ∧
      (a.host.disk.writeAll (a.host.node.resetForJoin.2.take k)).Faithful A empty past := by
  have hread := snap_readMeta hfit ⟨roster_nil [], roster_nil []⟩
  have hindex : (readMeta (some (writeMeta a.host.node.resetForJoin.1))).snapshotLastIncludedIndex =
      0 := (Prod.mk.inj hread).1
  rcases resetWrites_cases a.host.disk a.host.node k with heq | ⟨-, heq⟩ | heq
  all_goals rw [heq]
  · exact ⟨a.past, List.prefix_refl _, ha.disk⟩
  · exact ⟨[], List.nil_prefix, hindex.symm, fun h => absurd rfl h, ha.disk.labelled, fun _ => rfl⟩
  · exact ⟨[], List.nil_prefix, hindex.symm, fun h => absurd rfl h, ha.disk.labelled, fun _ => rfl⟩

/-- **Every act that meets the condition keeps node and files faithful.** -/
lemma faithful_exec (hA : A.Restores empty) (ha : a.Faithful A empty) {act : HostAct σ}
    (hact : FaithfulAct A empty a.host act) (hexec : a.exec A act = some (b, effect)) :
    b.Faithful A empty := by
  obtain ⟨h', hh, rfl⟩ := archive_exec_eq hexec
  obtain ⟨hcase, hfit⟩ := exec_cases hh
  cases hcase with
  | latch clock slots ms cs _ =>
      have hturns := turns_latchInputs (x := a.host.node) (H := (· ∈ ms)) (C := (· ∈ cs))
        (fun _ => id) (fun _ => id) clock slots
      exact ha.same (ha.short.same (sameMembership_turns hturns).configState)
        (ha.node.turns hturns) (turns_snap hturns).2.1
  | transition clock _ =>
      have hsame := sameMembership_transition (A := A) { a.host.node with clockMs := clock }
      have hclock : Node.Faithful A empty a.past { a.host.node with clockMs := clock } :=
        ha.node.frame rfl rfl rfl rfl rfl rfl
      exact ha.same (ha.short.same hsame.configState) (hclock.transition hA)
        (transition_snap (A := A) { a.host.node with clockMs := clock }).2.1
  | dumpStopped _ _ =>
      exact ha.same (ha.short.same rfl) (ha.node.frame rfl rfl rfl rfl rfl rfl) rfl
  | dump _ hrun =>
      have hserial : ((a.host.node.beforeCompaction A).maybeCompact A).2.isSome = true →
          (a.host.node.beforeCompaction A).Serialisable A empty :=
        fun h => hact (isSome_of_compacts hrun h)
      have hdumped := (ha.node.dumped hserial).1
      have hnode := hdumped.frame (y := { a.host.node.dumped A with
        persistDirty := false, outbox := [] }) rfl rfl rfl rfl rfl rfl
      have hdirty := dirty_of_compacts (A := A) a.host.node
      have hsnap := dumped_snap (A := A) a.host.node
      have hshort : Node.ShortIds
          { a.host.node.dumped A with persistDirty := false, outbox := [] } :=
        ha.short.dumped.same rfl
      rw [dumpOutputs_eq hrun]
      dsimp only
      rcases writeAll_all a.host.disk _ (a.host.node.dumped A) hdirty with
        ⟨-, hnone, heq⟩ | ⟨-, heq⟩
      · rw [heq]
        rcases hsnap with ⟨-, hi, ht⟩ | ⟨f, hsome, -⟩
        · rw [hi, take_past _ _ ha.node.length] at hnode
          exact ha.same hshort hnode ht
        · rw [hsome] at hnone
          simp at hnone
      · rw [heq]
        obtain ⟨hdisk, hstored⟩ := ha.saved
          { metaText := some (writeMeta (a.host.node.dumped A))
            logText := some (writeLog (a.host.node.dumped A))
            snapshot := ((a.host.node.beforeCompaction A).maybeCompact A).2.or
              a.host.disk.snapshot } hfit hserial rfl rfl
        exact ⟨hshort, hnode, hdisk, fun _ => hstored⟩
  | stop _ => exact ha.same (ha.short.same rfl) (ha.node.frame rfl rfl rfl rfl rfl rfl) rfl
  | start clock _ =>
      have hnode := ha.disk.start hA { a.host.node with clockMs := clock }
      obtain ⟨hshort, hsnap⟩ := start_snapKept (A := A) { a.host.node with clockMs := clock }
        a.host.disk
      dsimp only
      rw [take_past _ _ hnode.length]
      exact ⟨hshort, hnode, ha.disk, fun _ => hsnap⟩
  | request members _ =>
      obtain ⟨r, c, hreq⟩ := requestMembershipChange_eq a.host.node members
      rw [hreq]
      exact ha.same (ha.short.same rfl) (ha.node.frame rfl rfl rfl rfl rfl rfl) rfl
  | resetForJoin clock user _ =>
      obtain rfl := hact
      exact ha.resetForJoin clock hfit
  | crash user clock =>
      refine Archive.Faithful.restart hA (List.prefix_append _ _) ha.disk (fun hl => ?_) _ _ _
      have hlen := ha.node.length
      exact List.length_eq_zero_iff.mp (by have := hact hl; omega)
  | crashInDump k j user clock _ hfits =>
      cases hrun : a.host.node.running with
      | false =>
          rw [dumpOutputs_stopped hrun, List.take_nil]
          have hzero : a.host.config.learner = true → a.past = [] := by
            intro hl
            have hlen := ha.node.length
            have hle := snap_le_dumped (A := A) a.host.node
            have hzero := hact.2 hl
            exact List.length_eq_zero_iff.mp (by omega)
          exact Archive.Faithful.restart hA (List.prefix_append _ _) ha.disk hzero _ _ _
      | true =>
          rw [dumpOutputs_eq hrun] at hfits
          obtain ⟨past, hpast, hle, hdisk⟩ := ha.writes hrun hfits hact.1
          refine Archive.Faithful.restart hA hpast hdisk (fun hl => ?_) _ _ _
          have hzero := hact.2 hl
          exact List.length_eq_zero_iff.mp (by omega)
  | crashInReset k user clock _ hfits =>
      obtain ⟨past, hpast, hdisk⟩ := ha.resetDisk hfits k
      refine Archive.Faithful.restart hA (hpast.trans (List.prefix_append _ _)) hdisk
        (fun hl => ?_) _ _ _
      have hlen := ha.node.length
      have hle := hpast.length_le
      exact List.length_eq_zero_iff.mp (by have := hact hl; omega)

lemma faithful_boot (hA : A.Restores empty) (config : NodeConfig) (user : σ) (clock : ℤ) :
    (Archive.boot A config user clock).Faithful A empty := by
  have hlearner : config.learner = true → ([] : List LogEntry) = [] := fun _ => rfl
  have h := Archive.Faithful.restart hA (List.prefix_refl []) faithful_empty hlearner user clock
    .idle
  rw [List.take_nil] at h
  exact h

/-- **What an act saves**: the image of the replay of the entries up to the label, those an earlier
snapshot replaced included. -/
def Archive.Saves (A : Application σ) (empty : σ) (a : Archive σ) (act : HostAct σ) : Prop :=
  ∀ (b : Archive σ) (effect : Effect), a.exec A act = some (b, effect) →
    ∀ f, Write.snapshot f ∈ effect.writes →
      f.data = A.image (A.replay empty ((a.past ++ a.host.node.log).take f.index.toNat))

lemma mem_writes {f : SnapshotFile} (hrun : x.running = true)
    (hf : Write.snapshot f ∈ (x.dumpOutputs A).writes) :
    ((x.beforeCompaction A).maybeCompact A).2 = some f := by
  rw [dumpOutputs_eq hrun] at hf
  rcases List.mem_append.mp hf with hf | hf
  · rw [Node.beforeCompaction]
    simpa using hf
  · rw [Node.maybeSave] at hf
    split at hf
    · simp [save] at hf
    · simp at hf

/-- The snapshot of a faithful node. -/
lemma Archive.Faithful.saves (ha : a.Faithful A empty) {act : HostAct σ}
    (hact : FaithfulAct A empty a.host act) : a.Saves A empty act := by
  intro b effect hexec f hf
  obtain ⟨h', hh, rfl⟩ := archive_exec_eq hexec
  obtain ⟨hcase, -⟩ := exec_cases hh
  cases hcase with
  | latch | transition | dumpStopped | stop | start | request | crash =>
      exact absurd hf List.not_mem_nil
  | resetForJoin clock user _ => simp [Node.resetForJoin, save] at hf
  | crashInReset k user clock _ _ =>
      have hmem := List.mem_of_mem_take hf
      simp [Node.resetForJoin, save] at hmem
  | dump _ hrun =>
      have hsome := mem_writes hrun hf
      exact (ha.node.dumped fun h => hact (isSome_of_compacts hrun h)).2 f hsome
  | crashInDump k j user clock _ _ =>
      cases hrun : a.host.node.running with
      | false =>
          rw [dumpOutputs_stopped hrun, List.take_nil] at hf
          exact absurd hf List.not_mem_nil
      | true =>
          have hk : 0 < k := by
            rcases Nat.eq_zero_or_pos k with rfl | hk
            · exact absurd hf List.not_mem_nil
            · exact hk
          have hsome := mem_writes hrun (List.mem_of_mem_take hf)
          exact (ha.node.dumped fun h => (hact.1 (isSome_of_compacts hrun h) hk).1).2 f hsome

/-- **Snapshots are faithful** in every run whose compactions happen in nodes without lagging
peers. -/
theorem snapshots_faithful (A : Application σ) {empty : σ} (hA : A.Restores empty)
    (config : NodeConfig) (user : σ) (clock : ℤ) {a : Archive σ}
    (hrun : Run (Archive.step A) (fun a act => FaithfulAct A empty a.host act)
      (Archive.boot A config user clock) a)
    {act : HostAct σ} (hact : FaithfulAct A empty a.host act) : a.Saves A empty act := by
  have ha : a.Faithful A empty := hrun.invariant (fun _ _ _ ha hact hs => by
    obtain ⟨⟨b, e⟩, he, rfl⟩ := Option.map_eq_some_iff.mp hs
    exact faithful_exec hA ha hact he) (faithful_boot hA config user clock)
  exact ha.saves hact

/-! ### A leader of three -/

lemma counter_restores : counter.Restores 0 := ⟨counter_reloads, fun _ _ => rfl⟩

/-- `n1` leads, sets the threshold to one and appends two commands; `n2` has all three entries and
`n3` those up to the index. -/
def laggingPeer (index : ℤ) : List (HostAct UInt8) :=
  hostTick 1 [] [] ++ hostTick 1 [voteGrant n2 n1 1] [] ++ hostTick 1 [] [] ++
    hostTick 2 [] [⟨opSetMaxlog, [], "1".toList⟩, putCommand "x", putCommand "y"] ++
    openTick 3 [appendAnswer n2 n1 1 true 3, appendAnswer n3 n1 1 true index] []

/-- The replaced file is a snapshot with that label and data. -/
def Write.isLabelled (index : ℤ) (data : List UInt8) : Write → Bool
  | .snapshot f => decide (f.index = index) && decide (f.data = data)
  | _ => false

lemma exists_labelled {a : Archive σ} {act : HostAct σ} {index : ℤ} {data : List UInt8}
    (h : (a.exec A act).any (fun r => r.2.writes.any (Write.isLabelled index data)) = true) :
    ∃ (b : Archive σ) (e : Effect) (f : SnapshotFile), a.exec A act = some (b, e) ∧
      Write.snapshot f ∈ e.writes ∧ f.index = index ∧ f.data = data := by
  rw [Option.any_eq_true] at h
  obtain ⟨⟨b, e⟩, hexec, hw⟩ := h
  obtain ⟨w, hmem, hlabel⟩ := List.any_eq_true.mp hw
  cases w with
  | snapshot f =>
      rw [Write.isLabelled, Bool.and_eq_true, decide_eq_true_eq, decide_eq_true_eq] at hlabel
      exact ⟨b, e, f, hexec, hmem, hlabel⟩
  | metaText | logText => exact absurd hlabel Bool.false_ne_true

/-- The leader saves a snapshot of both commands when `n3` has them too. -/
theorem snapshots_faithful_level : ∃ (a b : Archive UInt8) (e : Effect) (f : SnapshotFile),
    Run (Archive.step counter) (fun a act => FaithfulAct counter 0 a.host act)
      (Archive.boot counter (threeConfig n1) 0 0) a ∧
    FaithfulAct counter 0 a.host .dump ∧ a.exec counter .dump = some (b, e) ∧
    Write.snapshot f ∈ e.writes ∧ f.index = 3 ∧
    f.data = counter.image (counter.replay 0 ((a.past ++ a.host.node.log).take f.index.toNat)) := by
  have hexec : (execAll (Archive.step counter)
      (fun a act => decide (FaithfulAct counter 0 a.host act))
      (Archive.boot counter (threeConfig n1) 0 0) (laggingPeer 3)).any (fun a =>
        decide (FaithfulAct counter 0 a.host .dump) &&
        (a.exec counter .dump).any fun r => r.2.writes.any (Write.isLabelled 3 [2])) = true := by
    decide +kernel
  obtain ⟨a, hrun, hq⟩ := Run.exists_of_execAll hexec
  rw [Bool.and_eq_true, decide_eq_true_eq] at hq
  obtain ⟨b, e, f, hdump, hf, hindex, -⟩ := exists_labelled hq.2
  have hrun' : Run (Archive.step counter) (fun a act => FaithfulAct counter 0 a.host act)
      (Archive.boot counter (threeConfig n1) 0 0) a := hrun.mono fun _ _ => of_decide_eq_true
  exact ⟨a, b, e, f, hrun', hq.1, hdump, hf, hindex,
    snapshots_faithful counter counter_restores (threeConfig n1) 0 0 hrun' hq.1 b e hdump f hf⟩

/-- **A snapshot ahead of its label**: the label is that of the first command and the state that
after both. -/
theorem snapshot_ahead : ¬ ∀ a : Archive UInt8,
    Run (Archive.step counter) (fun _ _ => True) (Archive.boot counter (threeConfig n1) 0 0) a →
      a.Saves counter 0 .dump := by
  intro hclaim
  have hexec : (execAll (Archive.step counter) (fun _ _ => true)
      (Archive.boot counter (threeConfig n1) 0 0) (laggingPeer 2)).any (fun a =>
        (a.exec counter .dump).any (fun r => r.2.writes.any (Write.isLabelled 2 [2])) &&
        decide (counter.image (counter.replay 0 ((a.past ++ a.host.node.log).take 2)) = [1])) =
      true := by
    decide +kernel
  obtain ⟨a, hrun, hq⟩ := Run.exists_of_execAll hexec
  rw [Bool.and_eq_true, decide_eq_true_eq] at hq
  obtain ⟨b, e, f, hdump, hf, hindex, hdata⟩ := exists_labelled hq.1
  have hsaved := hclaim a (hrun.mono fun _ _ _ => trivial) b e hdump f hf
  rw [hindex, hdata, show (2 : ℤ).toNat = 2 from rfl, hq.2] at hsaved
  exact absurd hsaved (by decide)

end RaftRx.C
