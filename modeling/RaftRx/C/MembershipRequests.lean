import RaftRx.C.JointLeave

/-!
Membership requests of a C leader.

`raft_node_request_membership_change` returns 0 and keeps the list in one slot until the driver
writes it into a `cluster.enter_joint` entry.  The slot is not guarded: a second call overwrites it,
a call during a change waits for a driver that is busy, and an applied entry of an earlier leader
takes it over.

* `Node.Entered`: a list that is in an entry of the log;
* `Petitioned`: a host with the lists of the calls that returned 0;
* `KeepsLeading`: a running leader goes on as one, without compaction;
* `Petitioned.Unserved`, `Undisturbed`: a list that waits in the slot, and acts that leave it there;
* `RequestsKept`, `requestsKept_of_undisturbed`, `request_lost`: the result and its failure.
-/

namespace RaftRx.C

open Protocol (Role)

variable {σ : Type*} {A : Application σ} {x y z : Node σ} {H : Message → Prop}
  {C : Command → Prop} {m : Message}

/-! ### Lists in the log -/

/-- An entry enters the configuration with exactly these members. -/
def LogEntry.Enlists (e : LogEntry) (l : List CString) : Prop :=
  e.command.op = opEnterJoint ∧ e.command.value = [','].intercalate l

instance (e : LogEntry) (l : List CString) : Decidable (e.Enlists l) :=
  inferInstanceAs (Decidable (_ ∧ _))

/-- The log has such an entry. -/
def Node.Entered (x : Node σ) (l : List CString) : Prop := ∃ e ∈ x.log, e.Enlists l

instance (x : Node σ) (l : List CString) : Decidable (x.Entered l) :=
  inferInstanceAs (Decidable (∃ e ∈ x.log, _))

lemma Node.Entered.grow {l : List CString} (h : x.Entered l) (hlog : ∀ e ∈ x.log, e ∈ y.log) :
    y.Entered l := by
  obtain ⟨e, he, hl⟩ := h
  exact ⟨e, hlog e he, hl⟩

/-- The members of a normalized list fit their arrays. -/
lemma normal_fits (members : List CString) :
    (∀ id ∈ normalizeMembers members maxNodes, id.length < maxId) ∧
      (normalizeMembers members maxNodes).length ≤ maxNodes := by
  refine ⟨fun id hid => ?_, length_normalizeMembers members maxNodes⟩
  rw [(perm_gathered members).mem_iff] at hid
  rcases mem_foldl_guarded members hid with hid | ⟨m, -, rfl, -⟩
  · exact absurd hid List.not_mem_nil
  · rw [strncpy, List.length_take, maxId]
    omega

/-- **The driver writes the whole list** into its entry. -/
lemma enlists_internalEntry (x : Node σ) (members : List CString) :
    (x.internalEntry opEnterJoint "members".toList
      (encodeMemberList (normalizeMembers members maxNodes) maxValue)).Enlists
        (normalizeMembers members maxNodes) := by
  obtain ⟨hids, hlen⟩ := normal_fits members
  obtain ⟨heq, hfit⟩ := encodeMemberList_eq hids hlen
  refine ⟨?_, ?_⟩
  · change strncpy maxOp opEnterJoint = opEnterJoint
    decide
  · change strncpy maxValue (encodeMemberList (normalizeMembers members maxNodes) maxValue) = _
    rw [strncpy_of_fits hfit, heq]

/-! ### The slot -/

/-- What the slot and the machine hold. -/
structure SameSlot (x y : Node σ) : Prop where
  requested : y.requestedMembership = x.requestedMembership
  pending : y.requestedMembershipPending = x.requestedMembershipPending
  machine : y.membershipState = x.membershipState
  configState : y.configState = x.configState

lemma SameSlot.refl (x : Node σ) : SameSlot x x := ⟨rfl, rfl, rfl, rfl⟩

lemma SameSlot.trans (h : SameSlot x y) (h' : SameSlot y z) : SameSlot x z where
  requested := h'.requested.trans h.requested
  pending := h'.pending.trans h.pending
  machine := h'.machine.trans h.machine
  configState := h'.configState.trans h.configState

lemma SameMembership.sameSlot (h : SameMembership x y) : SameSlot x y :=
  ⟨h.requested, h.pending, h.machine, h.configState⟩

/-- The driver is to write this list: it is pending, and no change is under way. -/
structure Node.Asks (x : Node σ) (l : List CString) : Prop where
  pending : x.requestedMembershipPending = true
  requested : x.requestedMembership = l
  machine : x.membershipState = .stable
  stable : x.configState.isJoint = false

lemma Node.Asks.same {l : List CString} (h : x.Asks l) (hs : SameSlot x y) : y.Asks l where
  pending := hs.pending.trans h.pending
  requested := hs.requested.trans h.requested
  machine := hs.machine.trans h.machine
  stable := by rw [hs.configState, h.stable]

/-- The entry at an index enters or leaves a joint configuration when it is applied. -/
def Node.TakesOver (x : Node σ) (k : ℤ) : Prop :=
  (x.entryAt k).command.configures = true ∧ x.configState.index < k ∧
    decodeMemberList (x.entryAt k).command.value maxNodes ≠ []

instance (x : Node σ) (k : ℤ) : Decidable (x.TakesOver k) :=
  inferInstanceAs (Decidable (_ ∧ _ ∧ _))

/-- One turn of the apply loop. -/
lemma sameSlot_applyNext (h : ¬ x.TakesOver (x.lastApplied + 1)) :
    SameSlot x (x.applyNext A).1 := by
  have hcase := applyCommand_case (A := A) { x with lastApplied := x.lastApplied + 1 }
    (Node.entryAt { x with lastApplied := x.lastApplied + 1 } (x.lastApplied + 1)).command
  have heq : (x.applyNext A).1 = { Node.applyCommand A { x with lastApplied := x.lastApplied + 1 }
      (Node.entryAt { x with lastApplied := x.lastApplied + 1 } (x.lastApplied + 1)).command with
      persistDirty := true } := rfl
  rw [heq]
  generalize Node.applyCommand A { x with lastApplied := x.lastApplied + 1 } _ = y at hcase ⊢
  cases hcase with
  | user | noUser | threshold | skip => exact ⟨rfl, rfl, rfl, rfl⟩
  | enter hop hidx hne => exact absurd ⟨configures_enter hop, hidx, hne⟩ h
  | leave hop hidx hne => exact absurd ⟨configures_leave hop, hidx, hne⟩ h

/-- **The apply loop** leaves the slot alone if no entry takes it over. -/
lemma sameSlot_applyCommitted (k : ℕ) : ∀ x : Node σ,
    (∀ i < k, ¬ x.TakesOver (x.lastApplied + i + 1)) →
    SameSlot x (x.applyCommitted A k).1 := by
  induction k with
  | zero => exact fun x _ => SameSlot.refl x
  | succ k ih =>
      intro x hquiet
      have hfirst : SameSlot x (x.applyNext A).1 :=
        sameSlot_applyNext (by simpa using hquiet 0 (Nat.succ_pos k))
      obtain ⟨happ, hlast⟩ := applying_applyNext (A := A) x
      refine hfirst.trans (ih _ fun i hi htakes => hquiet (i + 1) (by omega) ?_)
      have hread : (x.applyNext A).1.entryAt ((x.applyNext A).1.lastApplied + i + 1) =
          x.entryAt (x.lastApplied + (i + 1 : ℕ) + 1) := by
        rw [hlast, Node.entryAt, Node.entryAt, Node.slot, Node.slot, Node.physicalIndex,
          Node.physicalIndex, happ.log, happ.slots, happ.snapIndex]
        push_cast
        ring_nf
      obtain ⟨hconf, hidx, hne⟩ := htakes
      rw [hread] at hconf hne
      rw [hfirst.configState, hlast] at hidx
      refine ⟨hconf, ?_, hne⟩
      push_cast
      omega

/-! ### Hosts and their petitions -/

/-- A host with the normalized lists of the calls that returned 0. -/
structure Petitioned (σ : Type*) where
  host : Host σ
  granted : List (List CString)

/-- The list of a call that returns 0. -/
def Host.grants (h : Host σ) : HostAct σ → List (List CString)
  | .request members =>
      if (h.node.requestMembershipChange members).2 = 0 then [normalizeMembers members maxNodes]
      else []
  | _ => []

/-- One act, with its request. -/
def Petitioned.step (A : Application σ) (s : Petitioned σ) (a : HostAct σ) :
    Option (Petitioned σ) :=
  (s.host.step A a).map fun h => { host := h, granted := s.granted ++ s.host.grants a }

/-- The dump of a tick compacts nothing. -/
def Node.CompactsNothing (A : Application σ) (x : Node σ) : Prop :=
  (x.commitAndApply A).1.maybeDriveMembership.shouldCompact = false

/-- A tick or a request after which the node is a running leader, without compaction. -/
def KeepsLeading (A : Application σ) (h : Host σ) (a : HostAct σ) : Prop :=
  (match a with
    | .latch _ _ _ _ | .transition _ | .request _ => True
    | .dump => h.node.CompactsNothing A
    | _ => False) ∧
  (h.step A a).all (fun h' => h'.node.running && decide (h'.node.state = .leader)) = true

instance (x : Node σ) : Decidable (x.CompactsNothing A) := inferInstanceAs (Decidable (_ = _))

instance (h : Host σ) (a : HostAct σ) : Decidable (KeepsLeading A h a) := by
  unfold KeepsLeading
  cases a <;> exact instDecidableAnd

/-- A list that was granted waits in the slot for the driver. -/
def Petitioned.Unserved (s : Petitioned σ) : Prop :=
  s.host.node.requestedMembership ∈ s.granted ∧
    ¬ s.host.node.Entered s.host.node.requestedMembership ∧
    s.host.node.requestedMembershipPending = true ∧ s.host.node.membershipState = .stable ∧
    s.host.node.configState.isJoint = false

instance (s : Petitioned σ) : Decidable s.Unserved :=
  inferInstanceAs (Decidable (_ ∧ _ ∧ _ ∧ _ ∧ _))

/-- **No list is put out of the slot.**  A leader's call does not replace a list that waits, and
during a change it asks for nothing or for what the log has already; no entry is applied over a list
that waits. -/
def Undisturbed (s : Petitioned σ) : HostAct σ → Prop
  | .request members => s.host.node.isLeader = true →
      (s.Unserved → normalizeMembers members maxNodes = s.host.node.requestedMembership) ∧
      (normalizeMembers members maxNodes = [] ∨
        s.host.node.Entered (normalizeMembers members maxNodes) ∨
        s.host.node.membershipState = .stable ∧ s.host.node.configState.isJoint = false)
  | .dump => s.Unserved → ∀ i < s.host.node.advanced.toApplyCount,
      ¬ s.host.node.advanced.TakesOver (s.host.node.advanced.lastApplied + i + 1)
  | _ => True

instance (s : Petitioned σ) : (a : HostAct σ) → Decidable (Undisturbed s a)
  | .request _ => inferInstanceAs (Decidable (_ → _ ∧ (_ ∨ _ ∨ _ ∧ _)))
  | .dump => inferInstanceAs (Decidable (_ → ∀ i < _, ¬ _))
  | .latch _ _ _ _ | .transition _ | .stop | .start _ | .resetForJoin _ _ | .crash _ _
  | .crashInDump _ _ _ _ | .crashInReset _ _ _ => isTrue trivial

/-- **Requests are kept**: in every state of a run from `h₀` in which no change is under way or
pending, the log has an entry for every call that returned 0. -/
def RequestsKept (A : Application σ) (P : Petitioned σ → HostAct σ → Prop) (h₀ : Host σ) : Prop :=
  ∀ s, Run (Petitioned.step A) P ⟨h₀, []⟩ s → s.host.node.configState.isJoint = false →
    s.host.node.membershipState = .stable → s.host.node.requestedMembershipPending = false →
    ∀ l ∈ s.granted, s.host.node.Entered l

/-- The invariant: a granted list is normal, and in the log or still waiting. -/
def Petitioned.Kept (s : Petitioned σ) : Prop :=
  ∀ l ∈ s.granted, (∃ members, l = normalizeMembers members maxNodes) ∧
    (s.host.node.Entered l ∨ s.host.node.Asks l)

/-! ### Acts -/

/-- Elementary changes of a tick do not take entries away. -/
lemma mem_log_turns (h : Turns H C x y) : ∀ e ∈ x.log, e ∈ y.log := by
  refine h.invariant (I := fun z => ∀ e ∈ x.log, e ∈ z.log) (fun z z' hz hstep => ?_)
    fun _ he => he
  cases hstep with
  | append c _ _ => exact fun e he => List.mem_append_left _ (hz e he)
  | tune | role | lead | raise | campaign | vote | queue | clear | report | backOff | commit =>
      exact hz

/-- A transition after which the node leads takes no entries away. -/
lemma mem_log_transition (hlead : (x.transition A).state = .leader) :
    ∀ e ∈ x.log, e ∈ (x.transition A).log := by
  rcases transition_turns (C := fun _ => False) (A := A) x with h | ⟨m, rest, hacc, hrest, htrans⟩
  · exact mem_log_turns h
  · obtain ⟨t, v, l, e, d₀, d, z, hz, -, -, heq, -⟩ :=
      transition_accept (C := fun _ => False) hacc hrest htrans
    obtain ⟨ms, hq, -⟩ := queueMessage_eq { z.absorbed A m with persistDirty := d }
      (Node.appendResponse { z.absorbed A m with persistDirty := d } m true)
    have hfollower : (x.transition A).state = .follower := by
      rw [heq, hq, hz]
      rfl
    exact absurd (hfollower.symm.trans hlead) (by simp)

/-- The driver takes no entries away. -/
lemma mem_log_maybeDriveMembership (x : Node σ) : ∀ e ∈ x.log, e ∈ x.maybeDriveMembership.log := by
  have hcase := maybeDriveMembership_cases x
  generalize x.maybeDriveMembership = y at hcase ⊢
  cases hcase with
  | enter | leave => exact fun e he => List.mem_append_left _ he
  | none | fullEnter | joint | fullLeave | stable => exact fun e he => he

/-- **The driver serves a list that waits**, or leaves it waiting. -/
lemma Node.Asks.maybeDriveMembership {members : List CString}
    (h : x.Asks (normalizeMembers members maxNodes)) :
    x.maybeDriveMembership.Entered (normalizeMembers members maxNodes) ∨
      x.maybeDriveMembership.Asks (normalizeMembers members maxNodes) := by
  have hcase := maybeDriveMembership_cases x
  generalize x.maybeDriveMembership = y at hcase ⊢
  cases hcase with
  | none => exact Or.inr h
  | fullEnter => exact Or.inr ⟨h.pending, h.requested, h.machine, h.stable⟩
  | enter ms s =>
      refine Or.inl ⟨_, List.mem_append_right _ (List.mem_singleton_self _), ?_⟩
      rw [h.requested]
      exact enlists_internalEntry x members
  | joint _ hm => exact absurd (h.machine.symm.trans hm) (by simp)
  | fullLeave _ hm => exact absurd (h.machine.symm.trans hm) (by simp)
  | leave _ _ _ hm => exact absurd (h.machine.symm.trans hm) (by simp)
  | stable _ hm => exact absurd (h.machine.symm.trans hm) (by simp)

/-- **A dump**: what waits is not taken over, and the driver may serve it. -/
lemma petitions_dumped {members : List CString} (hno : x.CompactsNothing A)
    (h : x.Entered (normalizeMembers members maxNodes) ∨
      (x.Asks (normalizeMembers members maxNodes) ∧ ∀ i < x.advanced.toApplyCount,
        ¬ x.advanced.TakesOver (x.advanced.lastApplied + i + 1))) :
    (x.dumped A).Entered (normalizeMembers members maxNodes) ∨
      (x.dumped A).Asks (normalizeMembers members maxNodes) := by
  have hdumped : x.dumped A = (x.commitAndApply A).1.maybeDriveMembership := by
    rw [Node.CompactsNothing] at hno
    rw [Node.dumped, Node.maybeCompact, if_neg (by rw [hno]; simp)]
  rw [hdumped]
  rcases h with h | ⟨h, hquiet⟩
  · refine Or.inl (h.grow fun e he => mem_log_maybeDriveMembership _ e ?_)
    rw [log_commitAndApply]
    exact he
  · have hadv : SameSlot x x.advanced := by
      rcases advanced_cases x with heq | ⟨k, -, -, heq⟩
      · rw [heq]
        exact SameSlot.refl x
      · rw [heq]
        exact ⟨rfl, rfl, rfl, rfl⟩
    have happ := sameSlot_applyCommitted (A := A) _ _ hquiet
    exact (h.same (hadv.trans happ)).maybeDriveMembership

/-- The outcomes of a call: refused, an empty list in the slot, or granted. -/
lemma requestMembershipChange_outcome (x : Node σ) (members : List CString) :
    (x.requestMembershipChange members = (x, -1)) ∨
    (x.isLeader = true ∧ normalizeMembers members maxNodes = [] ∧
      x.requestMembershipChange members =
        ({ x with requestedMembership := normalizeMembers members maxNodes }, -1)) ∨
    (x.isLeader = true ∧ normalizeMembers members maxNodes ≠ [] ∧
      x.requestMembershipChange members =
        ({ x with
          requestedMembership := normalizeMembers members maxNodes
          requestedMembershipPending := true }, 0)) := by
  rw [Node.requestMembershipChange]
  split
  · exact Or.inl rfl
  · rename_i hlead
    rw [Bool.not_eq_false] at hlead
    dsimp only
    split
    · exact Or.inr (Or.inl ⟨hlead, ‹_›, rfl⟩)
    · exact Or.inr (Or.inr ⟨hlead, ‹_›, rfl⟩)

/-- **A call** that replaces no list that waits, by a list that can be served. -/
lemma petitions_request {s : Petitioned σ} (hs : s.Kept) {members : List CString}
    (hquiet : Undisturbed s (.request members)) :
    Petitioned.Kept
      { host := { s.host with node := (s.host.node.requestMembershipChange members).1 }
        granted := s.granted ++ s.host.grants (.request members) } := by
  have hgrants : s.host.grants (.request members) =
      if (s.host.node.requestMembershipChange members).2 = 0 then
        [normalizeMembers members maxNodes] else [] := rfl
  have hwaits : ∀ l ∈ s.granted, s.host.node.isLeader = true → ¬ s.host.node.Entered l →
      s.host.node.Asks l ∧ normalizeMembers members maxNodes = l := by
    intro l hl hlead hent
    have hasks := (hs l hl).2.resolve_left hent
    have hsame := (hquiet hlead).1 ⟨by rw [hasks.requested]; exact hl,
      by rw [hasks.requested]; exact hent, hasks.pending, hasks.machine, hasks.stable⟩
    exact ⟨hasks, hsame.trans hasks.requested⟩
  rw [hgrants]
  rcases requestMembershipChange_outcome s.host.node members with heq | ⟨hlead, -, heq⟩ |
    ⟨hlead, hne, heq⟩
  · rw [heq, if_neg (by simp), List.append_nil]
    exact hs
  · rw [heq, if_neg (by simp), List.append_nil]
    intro l hl
    refine ⟨(hs l hl).1, ?_⟩
    by_cases hent : s.host.node.Entered l
    · exact Or.inl hent
    · obtain ⟨hasks, hsame⟩ := hwaits l hl hlead hent
      exact Or.inr ⟨hasks.pending, hsame, hasks.machine, hasks.stable⟩
  · rw [heq, if_pos rfl]
    intro l hl
    rcases List.mem_append.mp hl with hl | hl
    · refine ⟨(hs l hl).1, ?_⟩
      by_cases hent : s.host.node.Entered l
      · exact Or.inl hent
      · obtain ⟨hasks, hsame⟩ := hwaits l hl hlead hent
        exact Or.inr ⟨rfl, hsame, hasks.machine, hasks.stable⟩
    · rw [List.mem_singleton.mp hl]
      refine ⟨⟨members, rfl⟩, ?_⟩
      rcases (hquiet hlead).2 with hnil | hent | ⟨hmachine, hstable⟩
      · exact absurd hnil hne
      · exact Or.inl hent
      · exact Or.inr ⟨rfl, rfl, hmachine, hstable⟩

/-- **Every undisturbed act** of a leader keeps the granted lists. -/
lemma petitions_step {s s' : Petitioned σ} {a : HostAct σ} (hs : s.Kept)
    (hlead : KeepsLeading A s.host a) (hquiet : Undisturbed s a)
    (hstep : s.step A a = some s') : s'.Kept := by
  obtain ⟨h', hh', rfl⟩ := Option.map_eq_some_iff.mp hstep
  obtain ⟨hact, hall⟩ := hlead
  rw [hh', Option.all_some, Bool.and_eq_true, decide_eq_true_eq] at hall
  obtain ⟨e, he⟩ := exec_of_step hh'
  obtain ⟨hcase, -⟩ := exec_cases he
  have hframe : SameSlot s.host.node h'.node → (∀ e ∈ s.host.node.log, e ∈ h'.node.log) →
      ∀ l ∈ s.granted, (∃ members, l = normalizeMembers members maxNodes) ∧
        (h'.node.Entered l ∨ h'.node.Asks l) := fun hslot hlog l hl =>
    ⟨(hs l hl).1, (hs l hl).2.imp (fun h => h.grow hlog) fun h => h.same hslot⟩
  cases hcase with
  | latch clock slots ms cs _ =>
      have hturns := turns_latchInputs (x := s.host.node) (H := (· ∈ ms)) (C := (· ∈ cs))
        (fun _ => id) (fun _ => id) clock slots
      rw [Petitioned.Kept, show s.host.grants (.latch clock slots ms cs) = [] from rfl, List.append_nil]
      exact hframe (sameMembership_turns hturns).sameSlot (mem_log_turns hturns)
  | transition clock _ =>
      have hclock : SameSlot s.host.node { s.host.node with clockMs := clock } :=
        ⟨rfl, rfl, rfl, rfl⟩
      rw [Petitioned.Kept, show s.host.grants (.transition clock) = [] from rfl, List.append_nil]
      exact hframe (hclock.trans (sameMembership_transition _).sameSlot)
        (mem_log_transition hall.2)
  | dumpStopped _ hstop => exact absurd (hstop.symm.trans hall.1) (by simp)
  | dump _ _ =>
      rw [Petitioned.Kept, show s.host.grants .dump = [] from rfl, List.append_nil]
      intro l hl
      obtain ⟨⟨members, rfl⟩, hkept⟩ := hs l hl
      refine ⟨⟨members, rfl⟩, ?_⟩
      have hwaits : s.host.node.Entered (normalizeMembers members maxNodes) ∨
          (s.host.node.Asks (normalizeMembers members maxNodes) ∧
            ∀ i < s.host.node.advanced.toApplyCount,
              ¬ s.host.node.advanced.TakesOver (s.host.node.advanced.lastApplied + i + 1)) := by
        by_cases hent : s.host.node.Entered (normalizeMembers members maxNodes)
        · exact Or.inl hent
        · have hasks := hkept.resolve_left hent
          exact Or.inr ⟨hasks, hquiet ⟨by rw [hasks.requested]; exact hl,
            by rw [hasks.requested]; exact hent, hasks.pending, hasks.machine, hasks.stable⟩⟩
      exact (petitions_dumped hact hwaits).imp (fun h => h.grow fun _ he => he)
        fun h => ⟨h.pending, h.requested, h.machine, h.stable⟩
  | request members _ => exact petitions_request hs hquiet
  | stop | start | resetForJoin | crash | crashInDump | crashInReset => exact hact.elim

/-! ### Runs -/

/-- **No request is lost** in a run of undisturbed acts. -/
theorem requestsKept_of_undisturbed (A : Application σ) (h₀ : Host σ) :
    RequestsKept A (fun s a => KeepsLeading A s.host a ∧ Undisturbed s a) h₀ := by
  intro s hrun _ _ hpending l hl
  have hkept : s.Kept := by
    refine hrun.invariant (fun _ _ _ hs ha hstep => petitions_step hs ha.1 ha.2 hstep) ?_
    exact fun l hl => absurd hl List.not_mem_nil
  exact (hkept l hl).2.resolve_right fun h => absurd (h.pending.symm.trans hpending) (by simp)

/-- `n1`, alone, becomes the leader. -/
def soloElected : List (HostAct UInt8) := hostTick 1 [] [] ++ hostTick 1 [] []

/-- Ticks in which a change that needs nobody else is carried out. -/
def changeTicks : List (HostAct UInt8) :=
  hostTick 1 [] [] ++ hostTick 1 [] [] ++ hostTick 1 [] [] ++ hostTick 1 [] []

/-- The change is over. -/
def Petitioned.settled (s : Petitioned UInt8) : Bool :=
  decide (s.host.node.configState.isJoint = false) &&
    decide (s.host.node.membershipState = .stable) &&
    decide (s.host.node.requestedMembershipPending = false)

/-- A single request is served. -/
theorem request_served : ∃ h₀ s, Run (Host.step counter) (fun _ _ => True)
      (Host.boot counter soloConfig 0 0) h₀ ∧ h₀.node.state = .leader ∧
    Run (Petitioned.step counter) (fun s a => KeepsLeading counter s.host a ∧ Undisturbed s a)
      ⟨h₀, []⟩ s ∧ s.granted = [[n1]] ∧ s.host.node.Entered [n1] := by
  have hexec : (execAll (Host.step counter) (fun _ _ => true)
      (Host.boot counter soloConfig 0 0) soloElected).any (fun h₀ =>
        decide (h₀.node.state = .leader) &&
        (execAll (Petitioned.step counter)
          (fun s a => decide (KeepsLeading counter s.host a ∧ Undisturbed s a)) ⟨h₀, []⟩
          (.request [n1] :: changeTicks)).any fun s =>
            s.settled && decide (s.granted = [[n1]])) = true := by
    decide +kernel
  obtain ⟨h₀, hrun, hq⟩ := Run.exists_of_execAll hexec
  rw [Bool.and_eq_true, decide_eq_true_eq] at hq
  obtain ⟨s, hrun', hs⟩ := Run.exists_of_execAll hq.2
  simp only [Petitioned.settled, Bool.and_eq_true, decide_eq_true_eq] at hs
  have hrun'' : Run (Petitioned.step counter)
      (fun s a => KeepsLeading counter s.host a ∧ Undisturbed s a) ⟨h₀, []⟩ s :=
    hrun'.mono fun _ _ => of_decide_eq_true
  have hboot := hrun.mono (Q := fun _ _ => True) (fun _ _ _ => trivial)
  have hmem : [n1] ∈ s.granted := by
    rw [hs.2]
    exact List.mem_singleton_self _
  have hentered : s.host.node.Entered [n1] :=
    requestsKept_of_undisturbed counter h₀ s hrun'' hs.1.1.1 hs.1.1.2 hs.1.2 [n1] hmem
  exact ⟨h₀, s, hboot, hq.1, hrun'', hs.2, hentered⟩

/-- **A request that is overwritten**: both calls return 0, and the first list never reaches the
log. -/
theorem request_lost : ∃ h₀, Run (Host.step counter) (fun _ _ => True)
      (Host.boot counter soloConfig 0 0) h₀ ∧ h₀.node.state = .leader ∧
    ¬ RequestsKept counter (fun s a => KeepsLeading counter s.host a) h₀ := by
  have hexec : (execAll (Host.step counter) (fun _ _ => true)
      (Host.boot counter soloConfig 0 0) soloElected).any (fun h₀ =>
        decide (h₀.node.state = .leader) &&
        (execAll (Petitioned.step counter) (fun s a => decide (KeepsLeading counter s.host a))
          ⟨h₀, []⟩ (.request [n1, n2] :: .request [n1] :: changeTicks)).any fun s =>
            s.settled && decide ([n1, n2] ∈ s.granted) &&
              !decide (s.host.node.Entered [n1, n2])) = true := by
    decide +kernel
  obtain ⟨h₀, hrun, hq⟩ := Run.exists_of_execAll hexec
  rw [Bool.and_eq_true, decide_eq_true_eq] at hq
  obtain ⟨s, hrun', hs⟩ := Run.exists_of_execAll hq.2
  simp only [Petitioned.settled, Bool.and_eq_true, decide_eq_true_eq, Bool.not_eq_true',
    decide_eq_false_iff_not] at hs
  have hboot := hrun.mono (Q := fun _ _ => True) (fun _ _ _ => trivial)
  have hrun'' : Run (Petitioned.step counter) (fun s a => KeepsLeading counter s.host a)
      ⟨h₀, []⟩ s := hrun'.mono fun _ _ => of_decide_eq_true
  refine ⟨h₀, hboot, hq.1, fun hkept => hs.2 ?_⟩
  exact hkept s hrun'' hs.1.1.1.1 hs.1.1.1.2 hs.1.1.2 [n1, n2] hs.1.2

end RaftRx.C
