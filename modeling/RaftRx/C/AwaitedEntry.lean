import RaftRx.C.JointLeave

/-!
The entry the membership machine waits for.

A leader that has written `cluster.enter_joint` or `cluster.leave_joint` waits until it has applied
the entry.  Neither the loss of the entry to another leader nor its application without effect ends
the wait, so the entry has to be there.

* `Node.Holds`: an entry of the log that is not applied yet;
* `Node.AwaitsPresent`: the machine waits for such an entry only;
* `Node.Awaiting`: the invariant behind it;
* `AwaitKept`, `AwaitedAct`: batches and requests that do not take the entry away;
* `awaitsPresent_of_awaitedAct`: every run of them;
* `awaits_lost_entry`: an entry that another leader has replaced.
-/

namespace RaftRx.C

open Protocol (Role)

variable {σ : Type*} {A : Application σ} {x y : Node σ} {H : Message → Prop}
  {C : Command → Prop} {m : Message} {disk : Disk}

/-! ### Waiting -/

/-- The log holds a command with the property at the index, and it is not applied yet. -/
def Node.Holds (x : Node σ) (i : ℤ) (P : Command → Prop) : Prop :=
  x.lastApplied < i ∧ ∃ (k : ℕ) (e : LogEntry), x.log[k]? = some e ∧
    i = x.snapshotLastIncludedIndex + k + 1 ∧ P e.command

/-- A command that enters a joint configuration. -/
def Enters (c : Command) : Prop := c.op = opEnterJoint

/-- A command that leaves to members it names. -/
def Leaves (c : Command) : Prop :=
  c.op = opLeaveJoint ∧ decodeMemberList c.value maxNodes ≠ []

/-- **The membership machine waits for entries that are there.** -/
def Node.AwaitsPresent (x : Node σ) : Prop :=
  (x.membershipState = .jointPending → x.Holds x.jointConfigIndex Enters) ∧
    (x.membershipState = .finalizing → x.Holds x.finalConfigIndex Leaves)

/-- A command that changes the configuration to members it names. -/
def Effective (c : Command) : Prop :=
  c.configures = true ∧ decodeMemberList c.value maxNodes ≠ []

/-- The awaited entry lies beyond the configuration and will have an effect, the log reaches beyond
applied entries and configuration, and a change is only pending with members to change to. -/
structure Node.Awaiting (x : Node σ) : Prop where
  enters : x.membershipState = .jointPending → x.configState.index < x.jointConfigIndex ∧
    x.Holds x.jointConfigIndex fun c => Enters c ∧ Effective c
  leaves : x.membershipState = .finalizing → x.configState.index < x.finalConfigIndex ∧
    x.Holds x.finalConfigIndex fun c => Leaves c ∧ Effective c
  applied_le : x.lastApplied ≤ x.lastLogIndex
  index_le : x.configState.index ≤ x.lastLogIndex
  pending : x.requestedMembershipPending = true → x.requestedMembership ≠ []
  joint : x.configState.isJoint = true → x.requestedMembership ≠ []

lemma Node.Holds.mono {i : ℤ} {P Q : Command → Prop} (h : x.Holds i P) (hPQ : ∀ c, P c → Q c) :
    x.Holds i Q := by
  obtain ⟨hlt, k, e, he, hi, hP⟩ := h
  exact ⟨hlt, k, e, he, hi, hPQ _ hP⟩

lemma Node.Awaiting.present (h : x.Awaiting) : x.AwaitsPresent :=
  ⟨fun hs => (h.enters hs).2.mono fun _ hc => hc.1, fun hs => (h.leaves hs).2.mono fun _ hc => hc.1⟩

lemma Node.Holds.le_last {i : ℤ} {P : Command → Prop} (h : x.Holds i P) : i ≤ x.lastLogIndex := by
  obtain ⟨-, k, e, he, rfl, -⟩ := h
  obtain ⟨hk, -⟩ := List.getElem?_eq_some_iff.mp he
  rw [Node.lastLogIndex]
  omega

lemma Node.Holds.snap_lt {i : ℤ} {P : Command → Prop} (h : x.Holds i P) :
    x.snapshotLastIncludedIndex < i := by
  obtain ⟨-, k, e, -, rfl, -⟩ := h
  omega

/-- An entry that stays in the log. -/
lemma Node.Holds.keep {i : ℤ} {P : Command → Prop} (h : x.Holds i P)
    (hs : y.snapshotLastIncludedIndex = x.snapshotLastIncludedIndex) (ha : y.lastApplied < i)
    {k : ℕ} (hk : i ≤ x.snapshotLastIncludedIndex + k) (hlog : y.log.take k = x.log.take k) :
    y.Holds i P := by
  obtain ⟨-, j, e, he, rfl, hP⟩ := h
  refine ⟨ha, j, e, ?_, by rw [hs], hP⟩
  have hj : j < k := by omega
  rw [← List.getElem?_take_of_lt hj, hlog, List.getElem?_take_of_lt hj]
  exact he

/-- Waiting depends on log, indices and the membership fields; a smaller applied index and a
configuration from before the log do no harm. -/
lemma Node.Awaiting.congr (h : x.Awaiting) (h0 : 0 ≤ x.snapshotLastIncludedIndex)
    (hl : y.log = x.log) (hs : y.snapshotLastIncludedIndex = x.snapshotLastIncludedIndex)
    (ha : y.lastApplied ≤ x.lastApplied) (hm : y.membershipState = x.membershipState)
    (hj : y.jointConfigIndex = x.jointConfigIndex) (hf : y.finalConfigIndex = x.finalConfigIndex)
    (hc : y.configState.index = x.configState.index ∨ y.configState.index = 0)
    (hpend : y.requestedMembershipPending = true → y.requestedMembership ≠ [])
    (hjoint : y.configState.isJoint = true → y.requestedMembership ≠ []) : y.Awaiting := by
  have hhold : ∀ (i : ℤ) (P : Command → Prop), x.configState.index < i → x.Holds i P →
      y.configState.index < i ∧ y.Holds i P := by
    intro i P hidx hold
    have hpos := hold.snap_lt
    refine ⟨by omega, hold.keep hs (by have := hold.1; omega) hold.le_last ?_⟩
    rw [hl]
  have hlast : y.lastLogIndex = x.lastLogIndex := by
    rw [Node.lastLogIndex, Node.lastLogIndex, hs, hl]
  have hx0 : 0 ≤ x.lastLogIndex := by
    rw [Node.lastLogIndex]
    omega
  refine ⟨?_, ?_, ?_, ?_, hpend, hjoint⟩
  · rw [hm, hj]
    exact fun hp => hhold _ _ (h.enters hp).1 (h.enters hp).2
  · rw [hm, hf]
    exact fun hp => hhold _ _ (h.leaves hp).1 (h.leaves hp).2
  · rw [hlast]
    exact ha.trans h.applied_le
  · have := h.index_le
    omega

lemma Node.Awaiting.frame (h : x.Awaiting) (hl : y.log = x.log)
    (hs : y.snapshotLastIncludedIndex = x.snapshotLastIncludedIndex)
    (ha : y.lastApplied = x.lastApplied) (hm : SameMembership x y) : y.Awaiting := by
  obtain ⟨h1, h2, h3, h4, h5, h6⟩ := h
  refine ⟨?_, ?_, ?_, ?_, ?_, ?_⟩
  · rw [hm.machine, hm.configState, hm.jointIndex, Node.Holds, ha, hl, hs]
    exact h1
  · rw [hm.machine, hm.configState, hm.finalIndex, Node.Holds, ha, hl, hs]
    exact h2
  · rw [ha, Node.lastLogIndex, hs, hl]
    exact h3
  · rw [hm.configState, Node.lastLogIndex, hs, hl]
    exact h4
  · rw [hm.pending, hm.requested]
    exact h5
  · rw [hm.configState, hm.requested]
    exact h6

/-- An entry is written to the end of the log. -/
lemma Node.Awaiting.append (h : x.Awaiting) {e : LogEntry} (hl : y.log = x.log ++ [e])
    (hs : y.snapshotLastIncludedIndex = x.snapshotLastIncludedIndex)
    (ha : y.lastApplied = x.lastApplied) (hm : SameMembership x y) : y.Awaiting := by
  have hlast : x.lastLogIndex ≤ y.lastLogIndex := by
    rw [Node.lastLogIndex, Node.lastLogIndex, hs, hl, List.length_append]
    push_cast
    omega
  have htake : y.log.take x.log.length = x.log.take x.log.length := by
    rw [hl, List.take_append_of_le_length le_rfl]
  obtain ⟨h1, h2, h3, h4, h5, h6⟩ := h
  refine ⟨?_, ?_, by omega, ?_, ?_, ?_⟩
  · rw [hm.machine, hm.configState, hm.jointIndex]
    intro hp
    obtain ⟨hidx, hold⟩ := h1 hp
    exact ⟨hidx, hold.keep hs (ha ▸ hold.1) hold.le_last htake⟩
  · rw [hm.machine, hm.configState, hm.finalIndex]
    intro hp
    obtain ⟨hidx, hold⟩ := h2 hp
    exact ⟨hidx, hold.keep hs (ha ▸ hold.1) hold.le_last htake⟩
  · rw [hm.configState]
    omega
  · rw [hm.pending, hm.requested]
    exact h5
  · rw [hm.configState, hm.requested]
    exact h6

lemma Node.Awaiting.turn (hx : x.Awaiting) (h : Turn H C x y) : y.Awaiting := by
  have hm := sameMembership_turns h.turns
  cases h with
  | append c _ _ => exact hx.append rfl rfl rfl hm
  | tune | role | lead | raise | campaign | vote | queue | clear | report | backOff | commit =>
      exact hx.frame rfl rfl rfl hm

lemma Node.Awaiting.turns (hx : x.Awaiting) (h : Turns H C x y) : y.Awaiting :=
  h.invariant (fun _ _ hx h => hx.turn h) hx

/-! ### Accepting a batch -/

/-- The index up to which a node relies on its log. -/
def Node.keepIndex (x : Node σ) : ℤ :=
  max x.configState.index (match x.membershipState with
    | .jointPending => x.jointConfigIndex
    | .finalizing => x.finalConfigIndex
    | _ => 0)

/-- The batch conflicts with nothing up to the configuration and the awaited entry. -/
def AwaitKept (x : Node σ) (m : Message) : Prop :=
  ∀ e ∈ m.entries, x.snapshotLastIncludedIndex < e.index → e.index ≤ x.keepIndex →
    x.conflicts e = false

instance (m : Message) : Decidable (AwaitKept x m) := inferInstanceAs (Decidable (∀ e ∈ _, _))

lemma Node.Awaiting.keepIndex_le (hx : x.Awaiting) (h0 : 0 ≤ x.lastLogIndex) :
    x.keepIndex ≤ x.lastLogIndex := by
  have hi := hx.index_le
  rw [Node.keepIndex, max_le_iff]
  refine ⟨hi, ?_⟩
  split
  · rename_i hs
    exact (hx.enters hs).2.le_last
  · rename_i hs
    exact (hx.leaves hs).2.le_last
  · exact h0

lemma index_le_keepIndex (x : Node σ) : x.configState.index ≤ x.keepIndex := le_max_left _ _

/-- **A batch that leaves the awaited entry in place.** -/
lemma Node.Awaiting.absorbed (hx : x.Awaiting) (hin : x.Inside) (hm : AwaitKept x m) (d : Bool) :
    Node.Awaiting { x.absorbed A m with persistDirty := d } := by
  have hlast : x.lastLogIndex = x.snapshotLastIncludedIndex + x.log.length := rfl
  have hs0 := hin.snap_nonneg
  have hkeep := hx.keepIndex_le (by omega)
  obtain ⟨htake, hlen, -⟩ := mergeEntries_take m.entries
    (x.keepIndex - x.snapshotLastIncludedIndex).toNat (x, false) (by dsimp only; omega)
    fun e he hlo hhi => by
      change x.snapshotLastIncludedIndex < e.index at hlo
      exact hm e he hlo (by dsimp only at hhi; omega)
  have hlen' : (x.keepIndex - x.snapshotLastIncludedIndex).toNat ≤ (x.merged m).1.length := hlen
  have htake' : (x.merged m).1.take (x.keepIndex - x.snapshotLastIncludedIndex).toNat =
      x.log.take (x.keepIndex - x.snapshotLastIncludedIndex).toNat := htake
  have hback : (x.absorbed A m).lastApplied ≤ x.lastApplied := by
    change (if (x.merged m).2 then x.snapshotLastIncludedIndex else x.lastApplied) ≤ _
    split
    · exact hin.applied
    · exact le_rfl
  have hmerged : Node.lastLogIndex { x.absorbed A m with persistDirty := d } =
      x.snapshotLastIncludedIndex + (x.merged m).1.length := rfl
  refine ⟨fun hp => ?_, fun hp => ?_, ?_, ?_, hx.pending, hx.joint⟩
  · change x.membershipState = .jointPending at hp
    obtain ⟨hidx, hold⟩ := hx.enters hp
    have hle : x.jointConfigIndex ≤ x.keepIndex := by
      rw [Node.keepIndex, hp]
      exact le_max_right _ _
    exact ⟨hidx, hold.keep (y := { x.absorbed A m with persistDirty := d }) rfl
      (lt_of_le_of_lt hback hold.1)
      (k := (x.keepIndex - x.snapshotLastIncludedIndex).toNat) (by omega) htake'⟩
  · change x.membershipState = .finalizing at hp
    obtain ⟨hidx, hold⟩ := hx.leaves hp
    have hle : x.finalConfigIndex ≤ x.keepIndex := by
      rw [Node.keepIndex, hp]
      exact le_max_right _ _
    exact ⟨hidx, hold.keep (y := { x.absorbed A m with persistDirty := d }) rfl
      (lt_of_le_of_lt hback hold.1)
      (k := (x.keepIndex - x.snapshotLastIncludedIndex).toNat) (by omega) htake'⟩
  · rw [hmerged]
    change (x.absorbed A m).lastApplied ≤ _
    cases hb : (x.merged m).2 with
    | true =>
        rw [(absorbed_rebuild (A := A) hb).1]
        omega
    | false =>
        have happ := hin.applied
        have hle := hx.applied_le
        obtain ⟨-, hlenA⟩ := mergeEntries_applied m.entries
          (x.lastApplied - x.snapshotLastIncludedIndex).toNat x false (by omega)
          (by omega) hb
        have hlenA' : (x.lastApplied - x.snapshotLastIncludedIndex).toNat ≤
          (x.merged m).1.length := hlenA
        rw [(absorbed_keep (A := A) hb).1]
        omega
  · rw [hmerged]
    have := index_le_keepIndex x
    change x.configState.index ≤ _
    omega

lemma Node.Awaiting.transition (hx : x.Awaiting) (hin : x.Inside)
    (hm : x.AcceptsOnly (AwaitKept x)) : (x.transition A).Awaiting := by
  rcases transition_turns (C := fun _ => False) (A := A) x with h | ⟨m, rest, hacc, hrest, htrans⟩
  · exact hx.turns h
  · obtain ⟨t, v, l, e, d₀, d, z, hzeq, hz, -, heq, -⟩ :=
      transition_accept (C := fun _ => False) hacc hrest htrans
    have hzin : z.Inside := by
      rw [hzeq]
      exact ⟨hin.snap_nonneg, hin.applied, hin.commit⟩
    have hkept : AwaitKept z m := by
      rw [hzeq]
      exact hm m hacc
    rw [heq]
    exact ((hx.turns hz).absorbed hzin hkept d).turns (H := fun _ => False) (C := fun _ => False)
      (turns_queueMessage rfl fun _ => rfl)

/-! ### The end of a tick -/

/-- An awaited entry that is applied ends the wait. -/
lemma Node.Awaiting.applyNext (hx : x.Awaiting) (hin : x.Inside)
    (hlt : x.lastApplied < x.commitIndex) : (x.applyNext A).1.Awaiting := by
  obtain ⟨e, y, he, hcase, heq⟩ := applyNext_case (A := A) hin hlt
  have hcommit := hin.commit
  have happ := hin.applied
  -- an entry without effect is not the awaited one
  have hstay : ∀ z : Node σ, z.log = x.log →
      z.snapshotLastIncludedIndex = x.snapshotLastIncludedIndex →
      z.lastApplied = x.lastApplied + 1 → SameMembership x z →
      (Effective e.command → x.lastApplied + 1 ≤ x.configState.index) → z.Awaiting := by
    intro z hl hs ha hm hno
    have hhold : ∀ (i : ℤ) (P : Command → Prop), x.configState.index < i →
        x.Holds i (fun c => P c ∧ Effective c) → z.Holds i fun c => P c ∧ Effective c := by
      rintro i P hidx ⟨hlo, k, e', he', hi, hP, heff⟩
      refine ⟨?_, k, e', by rw [hl]; exact he', by rw [hs]; exact hi, hP, heff⟩
      rcases eq_or_ne i (x.lastApplied + 1) with heqi | hne
      · have hk : k = (x.lastApplied - x.snapshotLastIncludedIndex).toNat := by omega
        rw [hk, he] at he'
        rw [← Option.some.inj he'] at heff
        have := hno heff
        omega
      · omega
    obtain ⟨h1, h2, h3, h4, h5, h6⟩ := hx
    refine ⟨?_, ?_, ?_, ?_, ?_, ?_⟩
    · rw [hm.machine, hm.configState, hm.jointIndex]
      exact fun hp => ⟨(h1 hp).1, hhold _ _ (h1 hp).1 (h1 hp).2⟩
    · rw [hm.machine, hm.configState, hm.finalIndex]
      exact fun hp => ⟨(h2 hp).1, hhold _ _ (h2 hp).1 (h2 hp).2⟩
    · rw [ha, Node.lastLogIndex, hs, hl]
      rw [Node.lastLogIndex] at hcommit
      omega
    · rw [hm.configState, Node.lastLogIndex, hs, hl]
      exact h4
    · rw [hm.pending, hm.requested]
      exact h5
    · rw [hm.configState, hm.requested]
      exact h6
  have hlast : x.lastApplied + 1 ≤ x.lastLogIndex := by omega
  have hy : y.Awaiting := by
    cases hcase with
    | user apply hint _ =>
        refine hstay _ rfl rfl rfl ⟨rfl, rfl, rfl, rfl, rfl, rfl, rfl⟩ fun heff => ?_
        exact absurd (isInternal_of_configures heff.1) (by simp [hint])
    | noUser hint _ =>
        refine hstay _ rfl rfl rfl ⟨rfl, rfl, rfl, rfl, rfl, rfl, rfl⟩ fun heff => ?_
        exact absurd (isInternal_of_configures heff.1) (by simp [hint])
    | threshold t hset =>
        refine hstay _ rfl rfl rfl ⟨rfl, rfl, rfl, rfl, rfl, rfl, rfl⟩ fun heff => ?_
        have hop := heff.1
        rw [Command.configures, hset] at hop
        exact absurd hop (by decide)
    | skip _ hskip =>
        refine hstay _ rfl rfl rfl ⟨rfl, rfl, rfl, rfl, rfl, rfl, rfl⟩ fun heff => ?_
        have hop : e.command.op = opEnterJoint ∨ e.command.op = opLeaveJoint := by
          simpa [Command.configures] using heff.1
        exact (hskip hop).resolve_right heff.2
    | enter _ _ hne =>
        exact ⟨by rintro ⟨⟩, by rintro ⟨⟩, hlast, hlast, fun _ => hne, fun _ => hne⟩
    | leave _ hidx hne =>
        obtain ⟨r, l, v, s, hleave, -⟩ := applyLeaveJoint_eq
          (x := { x with lastApplied := x.lastApplied + 1 }) hidx hne
        rw [hleave]
        exact ⟨by rintro ⟨⟩, by rintro ⟨⟩, hlast, hlast, by rintro ⟨⟩, fun hjoint => absurd hjoint Bool.false_ne_true⟩
  rw [heq]
  exact hy.frame rfl rfl rfl ⟨rfl, rfl, rfl, rfl, rfl, rfl, rfl⟩

lemma Node.Awaiting.advanced (hx : x.Awaiting) : x.advanced.Awaiting := by
  rcases advanced_cases x with h | ⟨k, -, -, h⟩
  · rw [h]
    exact hx
  · rw [h]
    exact hx.frame rfl rfl rfl ⟨rfl, rfl, rfl, rfl, rfl, rfl, rfl⟩

/-- The entry the driver writes is one to wait for. -/
lemma holds_internalEntry (hx : x.Awaiting) (ht : x.Steady) (hreq : x.requestedMembership ≠ [])
    (op : CString) (hop : strncpy maxOp op = op)
    (hconf : op = opEnterJoint ∨ op = opLeaveJoint) (hs : y.snapshotLastIncludedIndex =
      x.snapshotLastIncludedIndex) (ha : y.lastApplied = x.lastApplied)
    (hl : y.log = x.log ++ [x.internalEntry op "members".toList
      (encodeMemberList x.requestedMembership maxValue)]) :
    y.Holds (x.lastLogIndex + 1) fun c => c.op = op ∧ Effective c := by
  have happ := hx.applied_le
  have hdec := decode_internalEntry x op "members".toList ht.requested
  have hne : gathered x.requestedMembership ≠ [] :=
    gathered_ne_nil (fun id hid => (ht.requested.id id hid).short) hreq
  have hcop : (x.internalEntry op "members".toList
      (encodeMemberList x.requestedMembership maxValue)).command.op = op := hop
  refine ⟨by omega, x.log.length, _, ?_, ?_, hcop, ?_, ?_⟩
  · rw [hl, List.getElem?_append_right le_rfl, Nat.sub_self]
    rfl
  · rw [hs]
    rfl
  · simp only [Command.configures, hcop, Bool.or_eq_true, decide_eq_true_eq]
    exact hconf
  · rw [hdec]
    exact hne

lemma Node.Awaiting.maybeDriveMembership (hx : x.Awaiting) (ht : x.Steady) :
    x.maybeDriveMembership.Awaiting := by
  have happ := hx.applied_le
  have hidx := hx.index_le
  have hgrow : ∀ e : LogEntry, x.lastLogIndex ≤
      x.snapshotLastIncludedIndex + ((x.log ++ [e]).length : ℤ) := by
    intro e
    rw [Node.lastLogIndex, List.length_append]
    push_cast
    omega
  have hcase := maybeDriveMembership_cases x
  generalize x.maybeDriveMembership = y at hcase ⊢
  cases hcase with
  | none => exact hx
  | fullEnter _ hst =>
      refine ⟨fun hp => ?_, fun hp => ?_, happ, hidx, hx.pending, hx.joint⟩
      · exact absurd (hp.symm.trans hst) (by decide)
      · exact absurd (hp.symm.trans hst) (by decide)
  | enter ms s _ hst hpend _ _ _ hs =>
      have hhold := holds_internalEntry (y := { x with
          log := x.log ++ [x.internalEntry opEnterJoint "members".toList
            (encodeMemberList x.requestedMembership maxValue)]
          persistDirty := true, outbox := x.outbox ++ ms
          jointConfigIndex := x.lastLogIndex + 1, membershipState := s })
        hx ht (hx.pending hpend) opEnterJoint (by decide) (Or.inl rfl) rfl rfl rfl
      refine ⟨fun _ => ⟨?_, hhold⟩, fun hp => ?_, happ.trans (hgrow _), hidx.trans (hgrow _),
        hx.pending, hx.joint⟩
      · change x.configState.index < x.lastLogIndex + 1
        omega
      · change s = .finalizing at hp
        rw [hs, hst] at hp
        split at hp
        · exact absurd hp (by decide)
        · exact absurd hp (by decide)
  | joint => exact ⟨by rintro ⟨⟩, by rintro ⟨⟩, happ, hidx, hx.pending, hx.joint⟩
  | fullLeave _ hst =>
      refine ⟨fun hp => ?_, fun hp => ?_, happ, hidx, hx.pending, hx.joint⟩
      · exact absurd (hp.symm.trans hst) (by decide)
      · exact absurd (hp.symm.trans hst) (by decide)
  | leave ms s _ hst hjoint _ _ _ hs =>
      have hhold := holds_internalEntry (y := { x with
          log := x.log ++ [x.internalEntry opLeaveJoint "members".toList
            (encodeMemberList x.requestedMembership maxValue)]
          persistDirty := true, outbox := x.outbox ++ ms
          finalConfigIndex := x.lastLogIndex + 1, membershipState := s })
        hx ht (hx.joint hjoint) opLeaveJoint (by decide) (Or.inr rfl) rfl rfl rfl
      refine ⟨fun hp => ?_, fun _ => ⟨?_, hhold.mono fun c hc => ⟨⟨hc.1, hc.2.2⟩, hc.2⟩⟩,
        happ.trans (hgrow _), hidx.trans (hgrow _), hx.pending, hx.joint⟩
      · change s = .jointPending at hp
        rw [hs, hst] at hp
        split at hp
        · exact absurd hp (by decide)
        · exact absurd hp (by decide)
      · change x.configState.index < x.lastLogIndex + 1
        omega
  | stable => exact ⟨by rintro ⟨⟩, by rintro ⟨⟩, happ, hidx, hx.pending, hx.joint⟩

lemma Node.Awaiting.maybeCompact (hx : x.Awaiting) : (x.maybeCompact A).1.Awaiting := by
  rcases maybeCompact_cases (A := A) x with heq | ⟨data, -, hlo, hhi, -, heq⟩
  · rw [heq]
    exact hx
  · have hla := compactibleIndex_le x
    rw [heq]
    have hlast : Node.lastLogIndex
        { x with
          snapshotBuf := data
          log := x.log.drop (x.compactibleIndex - x.snapshotLastIncludedIndex).toNat
          snapshotLastIncludedIndex := x.compactibleIndex
          snapshotLastIncludedTerm := x.termAtIndex x.compactibleIndex
          persistDirty := true } = x.lastLogIndex := by
      simp only [Node.lastLogIndex, List.length_drop] at hhi ⊢
      omega
    -- what is dropped has been applied
    have hhold : ∀ (i : ℤ) (P : Command → Prop), x.Holds i P → Node.Holds
        { x with
          snapshotBuf := data
          log := x.log.drop (x.compactibleIndex - x.snapshotLastIncludedIndex).toNat
          snapshotLastIncludedIndex := x.compactibleIndex
          snapshotLastIncludedTerm := x.termAtIndex x.compactibleIndex
          persistDirty := true } i P := by
      rintro i P ⟨hlt, k, e, he, rfl, hP⟩
      refine ⟨hlt, k - (x.compactibleIndex - x.snapshotLastIncludedIndex).toNat, e, ?_, ?_, hP⟩
      · change (x.log.drop _)[_]? = some e
        rw [List.getElem?_drop, Nat.add_sub_cancel' (by omega)]
        exact he
      · change x.snapshotLastIncludedIndex + k + 1 = x.compactibleIndex + _ + 1
        omega
    refine ⟨fun hp => ⟨(hx.enters hp).1, hhold _ _ (hx.enters hp).2⟩,
      fun hp => ⟨(hx.leaves hp).1, hhold _ _ (hx.leaves hp).2⟩, ?_, ?_, hx.pending, hx.joint⟩
    · rw [hlast]
      exact hx.applied_le
    · rw [hlast]
      exact hx.index_le

/-- **The end of a tick** leaves the machine waiting for what is there. -/
lemma Node.Awaiting.dumped (hx : x.Awaiting) (ht : x.Steady) (hin : x.Inside) :
    (x.dumped A).Awaiting := by
  have hboth : (x.commitAndApply A).1.Awaiting ∧ (x.commitAndApply A).1.Steady := by
    refine commitAndApply_induct (I := fun z => z.Awaiting ∧ z.Steady) hin.advanced
      ⟨hx.advanced, ht.advanced⟩ fun z hz hlt hI => ?_
    exact ⟨hI.1.applyNext hz hlt, hI.2.applyNext hz hlt⟩
  exact (hboth.1.maybeDriveMembership hboth.2).maybeCompact

/-! ### Files -/

/-- The node a start would read. -/
def Node.reloaded (A : Application σ) (disk : Disk) (x : Node σ) : Node σ :=
  { x.load A disk with configState := (x.load A disk).startConfig }

/-- What a start reads depends on the membership fields, and on the rest through the files. -/
lemma reloaded_eq (x : Node σ) (disk : Disk) : ∃ user : σ, x.reloaded A disk =
    { x with
      currentTerm := (readMeta disk.metaText).currentTerm
      votedFor := (readMeta disk.metaText).votedFor
      log := readLog (readMeta disk.metaText).snapshotLastIncludedIndex disk.logText
      snapshotLastIncludedIndex := (readMeta disk.metaText).snapshotLastIncludedIndex
      snapshotLastIncludedTerm := (readMeta disk.metaText).snapshotLastIncludedTerm
      commitIndex := min (readMeta disk.metaText).commitIndex
        ((readMeta disk.metaText).snapshotLastIncludedIndex +
          (readLog (readMeta disk.metaText).snapshotLastIncludedIndex disk.logText).length)
      snapshotBuf := (matchingSnapshot (readMeta disk.metaText) disk.snapshot).getD []
      compactionThreshold := (readMeta disk.metaText).compactionThreshold
      configState := if disk.fallsBack x.config.learner then x.fallbackConfig
        else (readMeta disk.metaText).configState
      user := user
      lastApplied := if (matchingSnapshot (readMeta disk.metaText) disk.snapshot).isSome then
        (readMeta disk.metaText).snapshotLastIncludedIndex else 0 } := by
  rw [Node.reloaded, startConfig_load]
  obtain ⟨user, heq⟩ := load_record (A := A) x disk
  rw [heq]
  exact ⟨user, rfl⟩

lemma index_fallbackConfig (y : Node σ) : y.fallbackConfig.index = 0 := by
  rw [Node.fallbackConfig]
  split <;> rfl

/-- Two nodes that share their membership machine read the same. -/
lemma Node.Awaiting.reload (h : (x.reloaded A disk).Awaiting)
    (h0 : 0 ≤ (readMeta disk.metaText).snapshotLastIncludedIndex)
    (hm : y.membershipState = x.membershipState) (hj : y.jointConfigIndex = x.jointConfigIndex)
    (hf : y.finalConfigIndex = x.finalConfigIndex)
    (hl : y.config.learner = x.config.learner)
    (hr : y.requestedMembership = x.requestedMembership ∨ y.requestedMembership ≠ [])
    (hpend : y.requestedMembershipPending = true → y.requestedMembership ≠ []) :
    (y.reloaded A disk).Awaiting := by
  obtain ⟨u, hx⟩ := reloaded_eq (A := A) x disk
  obtain ⟨v, hy⟩ := reloaded_eq (A := A) y disk
  have hindex : (if disk.fallsBack y.config.learner then y.fallbackConfig
      else (readMeta disk.metaText).configState).index =
      (if disk.fallsBack x.config.learner then x.fallbackConfig
      else (readMeta disk.metaText).configState).index := by
    rw [hl]
    split
    · rw [index_fallbackConfig, index_fallbackConfig]
    · rfl
  have hjoint : (if disk.fallsBack y.config.learner then y.fallbackConfig
      else (readMeta disk.metaText).configState).isJoint =
      (if disk.fallsBack x.config.learner then x.fallbackConfig
      else (readMeta disk.metaText).configState).isJoint := by
    rw [hl]
    split
    · rw [isJoint_fallbackConfig, isJoint_fallbackConfig]
    · rfl
  have hne := h.joint
  rw [hx] at h hne
  rw [hy]
  refine h.congr h0 rfl rfl le_rfl hm hj hf (Or.inl hindex) hpend fun hyj => ?_
  rcases hr with hr | hr
  · change y.requestedMembership ≠ []
    rw [hr]
    exact hne (hjoint.symm.trans hyj)
  · exact hr

/-- **A node that was started** waits for what its files hold. -/
lemma awaiting_start (h : (x.reloaded A disk).Awaiting)
    (h0 : 0 ≤ (readMeta disk.metaText).snapshotLastIncludedIndex) :
    (x.start A disk).Awaiting ∧ ((x.start A disk).reloaded A disk).Awaiting := by
  have hstart : ∃ (r : Bool) (s : Role) (e : ℤ) (c : NodeConfig),
      c.learner = (x.load A disk).config.learner ∧ x.start A disk =
        { x.reloaded A disk with
          running := r, state := s, electionDeadlineMs := e, config := c } := by
    rw [Node.start, Node.reloaded, Node.startConfig]
    generalize x.load A disk = z
    by_cases hneeds : z.needsFallback = true
    · simp only [if_pos hneeds]
      exact ⟨_, _, _, (Node.refreshPeers { z with configState := z.fallbackConfig }).config, rfl,
        rfl⟩
    · simp only [if_neg hneeds]
      exact ⟨_, _, _, z.config, rfl, rfl⟩
  obtain ⟨r, s, e, c, hl, heq⟩ := hstart
  obtain ⟨u, hx⟩ := reloaded_eq (A := A) x disk
  have hload : (x.load A disk).config = x.config := by
    obtain ⟨user, hrec⟩ := load_record (A := A) x disk
    rw [hrec]
  have hpend := h.pending
  constructor
  · rw [heq]
    rw [hx] at h hpend ⊢
    exact h.congr h0 rfl rfl le_rfl rfl rfl rfl (Or.inl rfl) hpend h.joint
  · refine Node.Awaiting.reload h h0 ?_ ?_ ?_ ?_ ?_ ?_
    all_goals rw [heq]
    · rw [hx]
    · rw [hx]
    · rw [hx]
    · rw [← hload]
      exact hl
    · left
      rw [hx]
    · exact hpend

/-- What a node saves is what a start reads. -/
lemma Node.Awaiting.saved (hx : x.Awaiting) (ht : x.Steady) (hs : x.Sound separators)
    (hfit : x.Fits) {file : Option SnapshotFile}
    (hfile : SnapMatches x.snapshotLastIncludedIndex x.snapshotLastIncludedTerm file) :
    (x.reloaded A { metaText := some (writeMeta x), logText := some (writeLog x)
                    snapshot := file }).Awaiting := by
  have hconf := configState_save ht hs hfit
  obtain ⟨hi, hterm⟩ := snap_writeMeta separators_self hs.spelled hfit
  have h0 := hs.inside.snap_nonneg
  have happ := hs.inside.applied
  have hentries : Disk.entries
      { metaText := some (writeMeta x), logText := some (writeLog x), snapshot := file } = x.log := by
    obtain ⟨-, -, hsame⟩ := entries_writeLog (d :=
      { metaText := some (writeMeta x), logText := some (writeLog x), snapshot := file })
      separators_self hfit hs.spelled.log rfl
    exact hsame (by simp [separators])
  have hlog : readLog x.snapshotLastIncludedIndex (some (writeLog x)) = x.log := by
    have hfull : (Disk.entries { metaText := some (writeMeta x), logText := some (writeLog x)
                                 snapshot := file }).length ≤ maxLog := by
      rw [hentries]
      exact hs.full
    have h := readLog_eq hfull x.snapshotLastIncludedIndex
    rw [hentries, Numbered.filter hs.numbered le_rfl, sub_self] at h
    exact h
  obtain ⟨u, heq⟩ := reloaded_eq (A := A) x
    { metaText := some (writeMeta x), logText := some (writeLog x), snapshot := file }
  rw [heq]
  dsimp only
  refine hx.congr h0 (by dsimp only; rw [hi]; exact hlog) hi ?_ rfl rfl rfl ?_ hx.pending ?_
  · dsimp only
    split
    · rw [hi]
      exact happ
    · rename_i hnone
      have hzero : x.snapshotLastIncludedIndex = 0 := by
        by_contra hne
        refine hnone (matchingSnapshot_isSome ?_ (by rw [hi]; exact hne))
        rw [hi, hterm]
        exact hfile
      omega
  · dsimp only
    split
    · exact Or.inr (index_fallbackConfig x)
    · exact Or.inl (by rw [hconf])
  · dsimp only
    split
    · intro hjoint
      rw [isJoint_fallbackConfig] at hjoint
      exact absurd hjoint Bool.false_ne_true
    · rw [hconf]
      exact hx.joint

/-! ### Hosts -/

/-- Ticks, messages, requests, stops and starts, with whole ids. -/
def TickedAct (a : HostAct σ) : Prop :=
  SteadyAct a ∧ match a with
    | .resetForJoin _ _ | .crash _ _ | .crashInDump _ _ _ _ | .crashInReset _ _ _ => False
    | _ => True

/-- A transition accepts only batches that leave the awaited entry in place, and a leader is asked
for members only. -/
def AwaitedAct (h : Host σ) : HostAct σ → Prop
  | .transition clock => Node.AcceptsOnly { h.node with clockMs := clock } (AwaitKept h.node)
  | .request members => h.node.isLeader = true → members ≠ []
  | _ => True

instance : (a : HostAct σ) → Decidable (TickedAct a)
  | .resetForJoin _ _ | .crash _ _ | .crashInDump _ _ _ _ | .crashInReset _ _ _ =>
      inferInstanceAs (Decidable (_ ∧ False))
  | .latch _ _ _ _ | .transition _ | .dump | .stop | .start _ | .request _ =>
      inferInstanceAs (Decidable (_ ∧ True))

instance (h : Host σ) : (a : HostAct σ) → Decidable (AwaitedAct h a)
  | .transition _ => inferInstanceAs (Decidable (Node.AcceptsOnly _ _))
  | .request members => inferInstanceAs (Decidable (_ → members ≠ []))
  | .latch _ _ _ _ | .dump | .stop | .start _ | .resetForJoin _ _ | .crash _ _
  | .crashInDump _ _ _ _ | .crashInReset _ _ _ => inferInstanceAs (Decidable True)

lemma TickedAct.crashOk {h : Host σ} {a : HostAct σ} (ha : TickedAct a) : CrashOk A h a := by
  cases a with
  | crash | crashInDump | crashInReset => exact ha.2.elim
  | latch | request | transition | dump | stop | start | resetForJoin => trivial

/-- The node of a host, and the one a start would read, wait for what is there. -/
structure Host.Awaiting (A : Application σ) (h : Host σ) : Prop where
  steady : h.Steady
  node : h.node.Awaiting
  stored : (h.node.reloaded A h.disk).Awaiting

lemma Host.Awaiting.same {h h' : Host σ} (hh : h.Awaiting A) (hs : h'.Steady)
    (hn : h'.node.Awaiting) (hd : h'.disk = h.disk) (hm : SameMembership h.node h'.node) :
    h'.Awaiting A := by
  refine ⟨hs, hn, ?_⟩
  rw [hd]
  exact hh.stored.reload hh.steady.sound.disk.snap_nonneg hm.machine hm.jointIndex hm.finalIndex
    (by rw [hm.config]) (Or.inl hm.requested) hn.pending

lemma awaiting_boot {config : NodeConfig} (hc : config.Steady) (user : σ) (clock : ℤ) :
    (Host.boot A config user clock).Awaiting A := by
  obtain ⟨u, c, s, d, e₁, e₂, heq, hconf⟩ := init_empty (A := A) config user clock
  have hc0 : c.index = 0 ∧ c.isJoint = false := by
    rw [hconf]
    split
    · exact ⟨rfl, rfl⟩
    · exact ⟨index_fallbackConfig _, isJoint_fallbackConfig _⟩
  have hstable : (Node.init A config Disk.empty user clock).membershipState = .stable := by
    have hready := init_ready (A := A) config Disk.empty user clock
    have hstart : (Node.fresh A config Disk.empty user clock).startConfig.isJoint = false := by
      have hsame : (Node.init A config Disk.empty user clock).configState =
          (Node.fresh A config Disk.empty user clock).startConfig := by
        rw [hready]
        rfl
      rw [← hsame, heq]
      exact hc0.2
    rw [hready]
    change (if (Node.fresh A config Disk.empty user clock).startConfig.isJoint = true
      then MembershipState.joint else .stable) = .stable
    rw [hstart]
    rfl
  have hnode : (Node.init A config Disk.empty user clock).Awaiting := by
    refine ⟨fun hp => ?_, fun hp => ?_, ?_, ?_, ?_, ?_⟩
    · exact absurd (hp.symm.trans hstable) (by decide)
    · exact absurd (hp.symm.trans hstable) (by decide)
    · rw [heq]
      exact le_rfl
    · rw [heq]
      exact hc0.1.le
    · rw [heq]
      exact nofun
    · rw [heq]
      intro hjoint
      change c.isJoint = true at hjoint
      exact absurd (hjoint.symm.trans hc0.2) (by simp)
  refine ⟨steady_boot hc user clock, hnode, ?_⟩
  obtain ⟨v, hre⟩ := reloaded_eq (A := A) (Node.init A config Disk.empty user clock) Disk.empty
  have hlog : (Node.init A config Disk.empty user clock).log = [] := by
    rw [heq]
    rfl
  have hsnap : (Node.init A config Disk.empty user clock).snapshotLastIncludedIndex = 0 := by
    rw [heq]
    rfl
  have hla : (Node.init A config Disk.empty user clock).lastApplied = 0 := by
    rw [heq]
    rfl
  change ((Node.init A config Disk.empty user clock).reloaded A Disk.empty).Awaiting
  rw [hre]
  generalize Node.init A config Disk.empty user clock = z at hnode hlog hsnap hla
  have hconf0 : (if Disk.empty.fallsBack z.config.learner then z.fallbackConfig
      else (readMeta Disk.empty.metaText).configState).index = 0 ∧
      (if Disk.empty.fallsBack z.config.learner then z.fallbackConfig
      else (readMeta Disk.empty.metaText).configState).isJoint = false := by
    split
    · exact ⟨index_fallbackConfig _, isJoint_fallbackConfig _⟩
    · exact ⟨rfl, rfl⟩
  refine hnode.congr (by omega) (by rw [hlog]; rfl) (by rw [hsnap]; rfl) (by rw [hla]; exact le_rfl)
    rfl rfl rfl (Or.inr hconf0.1) hnode.pending fun hjoint => ?_
  exact absurd (hjoint.symm.trans hconf0.2) (by simp)

/-- A tick that saves nothing ends a wait at most. -/
lemma awaiting_clean {h : Host σ} (hh : h.Awaiting A) {b : Bool} {o : List Message}
    (hclean : h.node.maybeDriveMembership.persistDirty = false) : (Node.reloaded A h.disk
      { h.node.maybeDriveMembership with persistDirty := b, outbox := o }).Awaiting := by
  have h0 := hh.steady.sound.disk.snap_nonneg
  have hpend := hh.node.pending
  -- a machine that does not wait
  have hrest : ∀ (s : MembershipState) (j f : ℤ), s ≠ .jointPending → s ≠ .finalizing →
      (Node.reloaded A h.disk
        { h.node with
          membershipState := s, jointConfigIndex := j, finalConfigIndex := f }).Awaiting := by
    intro s j f hj hf
    obtain ⟨u, hx⟩ := reloaded_eq (A := A) h.node h.disk
    obtain ⟨v, hy⟩ := reloaded_eq (A := A)
      { h.node with membershipState := s, jointConfigIndex := j, finalConfigIndex := f } h.disk
    have hold := hh.stored
    rw [hx] at hold
    rw [hy]
    exact ⟨fun hp => absurd hp hj, fun hp => absurd hp hf, hold.applied_le, hold.index_le, hpend,
      hold.joint⟩
  have hcase := maybeDriveMembership_cases h.node
  generalize h.node.maybeDriveMembership = y at hcase hclean ⊢
  cases hcase with
  | none => exact hh.stored.reload h0 rfl rfl rfl rfl (Or.inl rfl) hpend
  | fullEnter _ hst =>
      exact (hrest h.node.membershipState (-1) h.node.finalConfigIndex (by rw [hst]; decide)
        (by rw [hst]; decide)).reload h0 rfl rfl rfl rfl (Or.inl rfl) hpend
  | enter => exact absurd hclean (by simp)
  | joint =>
      exact (hrest .joint h.node.jointConfigIndex h.node.finalConfigIndex (by decide)
        (by decide)).reload h0 rfl rfl rfl rfl (Or.inl rfl) hpend
  | fullLeave _ hst =>
      exact (hrest h.node.membershipState h.node.jointConfigIndex (-1) (by rw [hst]; decide)
        (by rw [hst]; decide)).reload h0 rfl rfl rfl rfl (Or.inl rfl) hpend
  | leave => exact absurd hclean (by simp)
  | stable =>
      exact (hrest .stable h.node.jointConfigIndex h.node.finalConfigIndex (by decide)
        (by decide)).reload h0 rfl rfl rfl rfl (Or.inl rfl) hpend

/-- The end of a tick. -/
lemma Host.Awaiting.dump {h h' : Host σ} (hh : h.Awaiting A) (hs : h'.Steady)
    (hrun : h.node.running = true) (hfit : (h.node.dumped A).Fits)
    (hnode : h'.node = { h.node.dumped A with persistDirty := false, outbox := [] })
    (hdisk : h'.disk = h.disk.writeAll (h.node.dumpOutputs A).writes) : h'.Awaiting A := by
  have hin := hh.steady.sound.node.inside
  have hwait := hh.node.dumped (A := A) hh.steady.node hin
  have hsteady := hh.steady.node.dumped (A := A) hin
  have hsound := hh.steady.sound.node.dumped (A := A) separators_self
  have hsnap := snapMatches_dumped (A := A) hh.steady.sound.snapshot
  refine ⟨hs, ?_, ?_⟩
  · rw [hnode]
    exact hwait.frame rfl rfl rfl ⟨rfl, rfl, rfl, rfl, rfl, rfl, rfl⟩
  · rw [hdisk, hnode, dumpOutputs_eq hrun]
    dsimp only
    rcases writeAll_all h.disk _ (h.node.dumped A) (dirty_of_compacts h.node) with
      ⟨hclean, -, heq⟩ | ⟨-, heq⟩
    · obtain ⟨hdrive, -⟩ := dumped_clean hclean
      rw [hdrive] at hclean
      rw [heq, hdrive]
      exact awaiting_clean hh hclean
    · rw [heq]
      have hsaved := hwait.saved (A := A) hsteady hsound hfit hsnap
      have h0 : 0 ≤ (readMeta (some (writeMeta (h.node.dumped A)))).snapshotLastIncludedIndex := by
        rw [(snap_writeMeta separators_self hsound.spelled hfit).1]
        exact hsound.inside.snap_nonneg
      exact hsaved.reload h0 rfl rfl rfl rfl (Or.inl rfl) hwait.pending

lemma normalizeMembers_ne_nil {ids : List CString} (h : ∀ id ∈ ids, MemberId id) (hne : ids ≠ []) :
    normalizeMembers ids maxNodes ≠ [] := by
  intro hnil
  have hperm := perm_gathered ids
  rw [hnil] at hperm
  exact gathered_ne_nil (fun id hid => (h id hid).short) hne (List.nil_perm.mp hperm)

/-- **Every act that leaves the awaited entry in place.** -/
lemma awaiting_exec {h h' : Host σ} {a : HostAct σ} {e : Effect} (hh : h.Awaiting A)
    (ha : TickedAct a) (hk : AwaitedAct h a) (he : h.exec A a = some (h', e)) : h'.Awaiting A := by
  have hs := steady_exec hh.steady ha.1 ha.crashOk he
  have h0 := hh.steady.sound.disk.snap_nonneg
  obtain ⟨hcase, hfit⟩ := exec_cases he
  cases hcase with
  | latch clock slots ms cs _ =>
      have hturns := turns_latchInputs (x := h.node) (H := (· ∈ ms)) (C := (· ∈ cs))
        (fun _ => id) (fun _ => id) clock slots
      exact hh.same hs (hh.node.turns hturns) rfl (sameMembership_turns hturns)
  | transition clock _ =>
      have hsame : SameMembership h.node { h.node with clockMs := clock } :=
        ⟨rfl, rfl, rfl, rfl, rfl, rfl, rfl⟩
      have hclock : Node.Awaiting { h.node with clockMs := clock } :=
        hh.node.frame rfl rfl rfl hsame
      have hin : Node.Inside { h.node with clockMs := clock } :=
        ⟨hh.steady.sound.node.inside.snap_nonneg, hh.steady.sound.node.inside.applied,
          hh.steady.sound.node.inside.commit⟩
      exact hh.same hs (hclock.transition hin hk) rfl (hsame.trans (sameMembership_transition _))
  | dumpStopped _ _ =>
      have hsame : SameMembership h.node { h.node with outbox := [] } :=
        ⟨rfl, rfl, rfl, rfl, rfl, rfl, rfl⟩
      exact hh.same hs (hh.node.frame rfl rfl rfl hsame) rfl hsame
  | dump _ hrun => exact hh.dump hs hrun hfit rfl rfl
  | stop _ =>
      have hsame : SameMembership h.node h.node.stop := ⟨rfl, rfl, rfl, rfl, rfl, rfl, rfl⟩
      exact hh.same hs (hh.node.frame rfl rfl rfl hsame) rfl hsame
  | start clock _ =>
      have hclock : (Node.reloaded A h.disk { h.node with clockMs := clock }).Awaiting :=
        hh.stored.reload h0 rfl rfl rfl rfl (Or.inl rfl) hh.node.pending
      obtain ⟨hn, hr⟩ := awaiting_start hclock h0
      exact ⟨hs, hn, hr⟩
  | request members _ =>
      by_cases hlead : h.node.isLeader = true
      · have hne := normalizeMembers_ne_nil ha.1 (hk hlead)
        rcases requestMembershipChange_cases h.node members with hreq | ⟨b, hreq⟩
        · refine hh.same hs ?_ rfl ?_
          all_goals rw [hreq]
          · exact hh.node
          · exact SameMembership.refl _
        · refine ⟨hs, ?_, ?_⟩
          all_goals rw [hreq]
          · exact ⟨hh.node.enters, hh.node.leaves, hh.node.applied_le, hh.node.index_le,
              fun _ => hne, fun _ => hne⟩
          · exact hh.stored.reload h0 rfl rfl rfl rfl (Or.inr hne) fun _ => hne
      · have hreq : (h.node.requestMembershipChange members).1 = h.node := by
          rw [Node.requestMembershipChange, if_pos (by simpa using hlead)]
        refine hh.same hs ?_ rfl ?_
        all_goals rw [hreq]
        · exact hh.node
        · exact SameMembership.refl _
  | resetForJoin | crash | crashInDump | crashInReset => exact ha.2.elim

/-! ### Runs -/

/-- **The membership machine never waits for an entry that is not there**, in every run whose
batches leave the awaited entry in place and whose requests name members. -/
theorem awaitsPresent_of_awaitedAct (A : Application σ) {config : NodeConfig} (hc : config.Steady)
    (user : σ) (clock : ℤ) {h : Host σ}
    (hrun : Run (Host.step A) (fun h a => TickedAct a ∧ AwaitedAct h a)
      (Host.boot A config user clock) h) : h.node.AwaitsPresent := by
  have hh : h.Awaiting A := hrun.invariant (fun _ _ _ hh ha hs => by
    obtain ⟨e, he⟩ := exec_of_step hs
    exact awaiting_exec hh ha.1 ha.2 he) (awaiting_boot hc user clock)
  exact hh.node.present

/-- `n1` leads term 1 and writes the entry that lets it enter a joint configuration. -/
def writtenJoint : List (HostAct UInt8) :=
  hostTick 1 [] [] ++ hostTick 1 [voteGrant n2 n1 1] [] ++ hostTick 1 [] [] ++
    [.request [n1, n2]] ++ hostTick 1 [] []

/-- `n1` is elected again in the term. -/
def ledAgain (term : ℤ) : List (HostAct UInt8) :=
  hostTick 10 [] [] ++ hostTick 10 [voteGrant n2 n1 term] [] ++ hostTick 10 [] []

lemma steady_threeFirst : (threeConfig n1).Steady := by
  refine ⟨by decide, ?_, by simp [threeConfig]⟩
  intro id hid
  simp only [threeConfig, List.mem_cons, List.not_mem_nil, or_false] at hid
  rcases hid with rfl | rfl | rfl
  all_goals decide

/-- A leader that was stopped, started and elected again still waits for its entry. -/
theorem awaitsPresent_restarted : ∃ h : Host UInt8,
    Run (Host.step counter) (fun h a => TickedAct a ∧ AwaitedAct h a)
      (Host.boot counter (threeConfig n1) 0 0) h ∧ h.node.isLeader = true ∧
    h.node.membershipState = .jointPending ∧ h.node.Holds h.node.jointConfigIndex Enters := by
  have hexec : (execAll (Host.step counter) (fun h a => decide (TickedAct a ∧ AwaitedAct h a))
      (Host.boot counter (threeConfig n1) 0 0)
      (writtenJoint ++ [.stop, .start 5] ++ ledAgain 2)).any (fun h =>
        h.node.isLeader && decide (h.node.membershipState = .jointPending)) = true := by
    decide +kernel
  obtain ⟨h, hrun, hq⟩ := Run.exists_of_execAll hexec
  rw [Bool.and_eq_true, decide_eq_true_eq] at hq
  have hrun' := hrun.mono (fun _ _ => of_decide_eq_true)
  exact ⟨h, hrun', hq.1, hq.2,
    (awaitsPresent_of_awaitedAct counter steady_threeFirst 0 0 hrun').1 hq.2⟩

/-- **A wait for an entry that is gone**: `n3` leads term 2 and replaces the entry; `n1` leads
again in term 3. -/
theorem awaits_lost_entry : ¬ ∀ h : Host UInt8,
    Run (Host.step counter) (fun _ a => TickedAct a) (Host.boot counter (threeConfig n1) 0 0) h →
      h.node.isLeader = true → h.node.AwaitsPresent := by
  intro hall
  have hexec : (execAll (Host.step counter) (fun _ a => decide (TickedAct a))
      (Host.boot counter (threeConfig n1) 0 0)
      (writtenJoint ++ hostTick 2 [batch n3 n1 2 0 0 [] [⟨1, 2, n3, putCommand "z"⟩]] [] ++
        ledAgain 3)).any (fun h => h.node.isLeader &&
          decide (h.node.membershipState = .jointPending ∧
            h.node.log.map LogEntry.command = [putCommand "z"])) = true := by
    decide +kernel
  obtain ⟨h, hrun, hq⟩ := Run.exists_of_execAll hexec
  rw [Bool.and_eq_true, decide_eq_true_eq] at hq
  obtain ⟨hlead, hst, hlog⟩ := hq
  have hwait := (hall h (hrun.mono fun _ _ => of_decide_eq_true) hlead).1 hst
  obtain ⟨-, k, e, he, -, hop⟩ := hwait
  have hmem : e.command ∈ h.node.log.map LogEntry.command :=
    List.mem_map_of_mem (List.mem_of_getElem? he)
  rw [hlog, List.mem_singleton] at hmem
  rw [Enters, hmem] at hop
  exact absurd hop (by decide)

end RaftRx.C
