import RaftRx.C.Turns

/-!
Texts without separators.

The files of a node are made of lines and fields, so what it stores must not hold the characters
that end them.  No id holds a separator; the set `bad` of characters that are forbidden in commands
is a parameter: some results forbid the newline only, others the field separator too.

* `Free`, `CommandFree`, `EntryFree`, `MessageFree`: texts without forbidden characters;
* `Node.Spelled`: a node all whose texts are so;
* `Node.Spelled.linesOk`, `EntryFree.stampOk`, `EntryFree.lineOk`: its files are read back;
* `Node.Spelled.turns`, `Node.Spelled.transition`, `Node.Spelled.dumped`: what it writes is made of
  what it has heard and was given.
-/

namespace RaftRx.C

open Protocol (Role)
open Text

variable {σ : Type*} {A : Application σ} {bad : List Char} {x y : Node σ}
  {H : Message → Prop} {C : Command → Prop} {m : Message} {disk : Disk}

/-! ### Texts -/

/-- The text has none of the forbidden characters. -/
def Free (bad : List Char) (s : CString) : Prop := ∀ c ∈ s, c ∉ bad

/-- The characters that end lines and fields. -/
def separators : List Char := ['\n', '|']

/-- Only separators are forbidden, the newline among them. -/
structure Separators (bad : List Char) : Prop where
  newline : '\n' ∈ bad
  subset : ∀ c ∈ bad, c ∈ separators

/-- The texts of a command are free. -/
structure CommandFree (bad : List Char) (c : Command) : Prop where
  op : Free bad c.op
  key : Free bad c.key
  value : Free bad c.value

/-- The texts of an entry are free. -/
structure EntryFree (bad : List Char) (e : LogEntry) : Prop where
  leader : Free separators e.leaderId
  command : CommandFree bad e.command

/-- The texts of a message that a node stores are free. -/
structure MessageFree (bad : List Char) (m : Message) : Prop where
  source : Free bad m.source
  entries : ∀ e ∈ m.entries, EntryFree bad e

instance (s : CString) : Decidable (Free bad s) := inferInstanceAs (Decidable (∀ c ∈ s, c ∉ bad))

instance (c : Command) : Decidable (CommandFree bad c) :=
  decidable_of_iff (Free bad c.op ∧ Free bad c.key ∧ Free bad c.value)
    ⟨fun h => ⟨h.1, h.2.1, h.2.2⟩, fun h => ⟨h.op, h.key, h.value⟩⟩

instance (e : LogEntry) : Decidable (EntryFree bad e) :=
  decidable_of_iff (Free separators e.leaderId ∧ CommandFree bad e.command)
    ⟨fun h => ⟨h.1, h.2⟩, fun h => ⟨h.leader, h.command⟩⟩

instance (m : Message) : Decidable (MessageFree bad m) :=
  decidable_of_iff (Free bad m.source ∧ ∀ e ∈ m.entries, EntryFree bad e)
    ⟨fun h => ⟨h.1, h.2⟩, fun h => ⟨h.source, h.entries⟩⟩

lemma free_nil (bad : List Char) : Free bad [] := by simp [Free]

lemma Free.of_subset {s t : CString} (h : Free bad s) (hsub : ∀ c ∈ t, c ∈ s) : Free bad t :=
  fun c hc => h c (hsub c hc)

lemma Free.strncpy {s : CString} (h : Free bad s) (n : ℕ) : Free bad (strncpy n s) :=
  h.of_subset fun _ => List.mem_of_mem_take

lemma Free.append {s t : CString} (hs : Free bad s) (ht : Free bad t) : Free bad (s ++ t) := by
  intro c hc
  rcases List.mem_append.mp hc with hc | hc
  · exact hs c hc
  · exact ht c hc

/-- A text without separators is free, whichever of them are forbidden. -/
lemma Free.of_separators {s : CString} (h : Free separators s) (hbad : Separators bad) :
    Free bad s :=
  fun c hc hb => h c hc (hbad.subset c hb)

/-- The keys and names of the engine are without separators. -/
lemma free_of_all {s : CString} (h : s.all (fun c => decide (c ∉ separators)) = true) :
    Free separators s := by
  intro c hc
  simpa using List.all_eq_true.mp h c hc

lemma mem_of_mem_splitOn {a c : Char} (s : List Char) : ∀ {t : List Char}, t ∈ s.splitOn a →
    c ∈ t → c ∈ s := by
  induction s with
  | nil =>
      intro t ht hc
      rw [List.splitOn_nil, List.mem_singleton] at ht
      rwa [ht] at hc
  | cons b s ih =>
      intro t ht hc
      rw [List.splitOn_cons_eq_if_modifyHead] at ht
      split at ht
      · rcases List.mem_cons.mp ht with rfl | ht
        · simp at hc
        · exact List.mem_cons_of_mem _ (ih ht hc)
      · cases hs : s.splitOn a with
        | nil => exact absurd hs (List.splitOn_ne_nil a s)
        | cons u us =>
            rw [hs, List.modifyHead_cons] at ht
            rcases List.mem_cons.mp ht with rfl | ht
            · rcases List.mem_cons.mp hc with rfl | hc
              · exact List.mem_cons_self
              · exact List.mem_cons_of_mem _ (ih (by rw [hs]; exact List.mem_cons_self) hc)
            · exact List.mem_cons_of_mem _ (ih (by rw [hs]; exact List.mem_cons_of_mem _ ht) hc)

/-- The members read from a free value are free. -/
lemma free_decodeMemberList {value : CString} (h : Free bad value) (cap : ℕ) :
    ∀ id ∈ decodeMemberList value cap, Free bad id := by
  intro id hid
  rcases mem_foldl_guarded _ hid with hid | ⟨t, ht, rfl, -⟩
  · simp at hid
  · have hmem := (List.mem_filter.mp ht).1
    exact ((h.strncpy maxValue).of_subset fun c hc => mem_of_mem_splitOn _ hmem hc).strncpy maxId

/-- The text of a member list holds the characters of the members and commas. -/
lemma free_encodeMembers (hcomma : ',' ∉ bad) (size : ℕ) (ms : List CString) :
    ∀ out sep : CString, Free bad out → Free bad sep → (∀ id ∈ ms, Free bad id) →
      Free bad (encodeMembers size out sep ms) := by
  induction ms with
  | nil => exact fun out sep hout _ _ => hout
  | cons id ms ih =>
      intro out sep hout hsep hms
      have hpiece : Free bad (sep ++ id) := hsep.append (hms id List.mem_cons_self)
      rw [encodeMembers]
      split
      · exact ih _ _ (hout.append hpiece) (by simpa [Free] using hcomma)
          fun id' hid' => hms id' (List.mem_cons_of_mem _ hid')
      · exact hout.append (hpiece.of_subset fun _ => List.mem_of_mem_take)

lemma Separators.comma (hbad : Separators bad) : ',' ∉ bad := by
  intro h
  exact absurd (hbad.subset _ h) (by decide)

/-! ### Nodes -/

/-- A member list whose ids fit their buffers and are free. -/
structure Roster (bad : List Char) (ids : List CString) : Prop where
  count : ids.length ≤ maxNodes
  short : ∀ id ∈ ids, id.length < maxId
  free : ∀ id ∈ ids, Free bad id

lemma roster_nil (bad : List Char) : Roster bad [] := ⟨Nat.zero_le _, by simp, by simp⟩

lemma roster_normalizeMembers {ids : List CString} (h : ∀ id ∈ ids, Free bad id) :
    Roster bad (normalizeMembers ids maxNodes) := by
  have hmem : ∀ id ∈ normalizeMembers ids maxNodes, ∃ id' ∈ ids, id = strncpy maxId id' := by
    intro id hid
    rw [(normalizeMembers_perm ids maxNodes).mem_iff] at hid
    rcases mem_foldl_guarded ids hid with hid | ⟨id', hid', rfl, -⟩
    · simp at hid
    · exact ⟨id', hid', rfl⟩
  refine ⟨length_normalizeMembers ids maxNodes, ?_, ?_⟩
  · intro id hid
    obtain ⟨id', -, rfl⟩ := hmem id hid
    exact length_strncpy_lt _
  · intro id hid
    obtain ⟨id', hid', rfl⟩ := hmem id hid
    exact (h id' hid').strncpy maxId

/-- The ids a configuration starts from are free. -/
structure NodeConfig.Spelled (bad : List Char) (c : NodeConfig) : Prop where
  nodeId : Free separators c.nodeId
  initial : ∀ id ∈ c.initialMembers, Free bad id
  peers : ∀ id ∈ c.peers, Free bad id

/-- All texts of a node are free. -/
structure Node.Spelled (bad : List Char) (x : Node σ) : Prop where
  config : x.config.Spelled bad
  vote : Free bad x.votedFor
  old : Roster bad x.configState.oldMembers
  new : Roster bad x.configState.newMembers
  requested : ∀ id ∈ x.requestedMembership, Free bad id
  log : ∀ e ∈ x.log, EntryFree bad e
  appends : ∀ m ∈ x.pendingAppendEntries, MessageFree bad m
  requests : ∀ m ∈ x.pendingVoteRequests, MessageFree bad m

/-- The texts of a node depend on a few of its fields. -/
lemma Node.Spelled.frame (h : x.Spelled bad) (hc : y.config = x.config)
    (hv : y.votedFor = x.votedFor) (hs : y.configState = x.configState)
    (hr : y.requestedMembership = x.requestedMembership) (hl : y.log = x.log)
    (ha : y.pendingAppendEntries = x.pendingAppendEntries)
    (hq : y.pendingVoteRequests = x.pendingVoteRequests) : y.Spelled bad := by
  obtain ⟨h1, h2, h3, h4, h5, h6, h7, h8⟩ := h
  refine ⟨?_, ?_, ?_, ?_, ?_, ?_, ?_, ?_⟩
  · rw [hc]
    exact h1
  · rw [hv]
    exact h2
  · rw [hs]
    exact h3
  · rw [hs]
    exact h4
  · rw [hr]
    exact h5
  · rw [hl]
    exact h6
  · rw [ha]
    exact h7
  · rw [hq]
    exact h8

lemma Node.Spelled.linesOk (h : x.Spelled bad) (hn : '\n' ∈ bad) (hfit : x.Fits) : LinesOk x where
  vote := ⟨fun hc => h.vote _ hc hn, by
    have := hfit.2.2.1
    rw [FitsBuffer, maxId] at this
    omega⟩
  oldCount := h.old.count
  old := fun id hid => ⟨fun hc => h.old.free id hid _ hc hn, by
    have := h.old.short id hid
    rw [maxId] at this
    omega⟩
  newCount := h.new.count
  new := fun id hid => ⟨fun hc => h.new.free id hid _ hc hn, by
    have := h.new.short id hid
    rw [maxId] at this
    omega⟩

lemma EntryFree.stampOk {e : LogEntry} (h : EntryFree bad e) (hn : '\n' ∈ bad) : StampOk e where
  leader := ⟨fun hc => h.leader _ hc (by decide), fun hc => h.leader _ hc (by decide)⟩
  op := fun hc => h.command.op _ hc hn
  key := fun hc => h.command.key _ hc hn
  value := fun hc => h.command.value _ hc hn

lemma EntryFree.lineOk {e : LogEntry} (h : EntryFree bad e) (hn : '\n' ∈ bad) (hp : '|' ∈ bad) :
    LineOk e where
  toStampOk := h.stampOk hn
  opField := fun hc => h.command.op _ hc hp
  keyField := fun hc => h.command.key _ hc hp
  valueField := fun hc => h.command.value _ hc hp

/-- What a turn writes is made of what the node heard and was given. -/
lemma Node.Spelled.turn (hbad : Separators bad) (hx : x.Spelled bad) (hH : ∀ m, H m → MessageFree bad m)
    (hC : ∀ c, C c → CommandFree bad c) (h : Turn H C x y) : y.Spelled bad := by
  obtain ⟨hconf, hvote, hold, hnew, hreq, hlog, happ, hrv⟩ := hx
  cases h with
  | tune _ _ _ _ appends requests _ _ _ ha hr =>
      refine ⟨hconf, hvote, hold, hnew, hreq, hlog, fun m hm => ?_, fun m hm => ?_⟩
      · rcases ha m hm with h | h
        · exact happ m h
        · exact hH m h.1
      · rcases hr m hm with h | h
        · exact hrv m h
        · exact hH m h.1
  | raise t _ => exact ⟨hconf, free_nil bad, hold, hnew, hreq, hlog, happ, hrv⟩
  | campaign =>
      exact ⟨hconf, (hconf.nodeId.of_separators hbad).strncpy _, hold, hnew, hreq, hlog, happ, hrv⟩
  | vote m hm => exact ⟨hconf, (hH m hm).source.strncpy _, hold, hnew, hreq, hlog, happ, hrv⟩
  | append c hc _ =>
      refine ⟨hconf, hvote, hold, hnew, hreq, fun e he => ?_, happ, hrv⟩
      rcases List.mem_append.mp he with he | he
      · exact hlog e he
      · rw [List.mem_singleton.mp he]
        exact ⟨hconf.nodeId.strncpy _, hC c hc⟩
  | role | lead | queue | clear | report | backOff | commit =>
      exact ⟨hconf, hvote, hold, hnew, hreq, hlog, happ, hrv⟩

lemma Node.Spelled.turns (hbad : Separators bad) (hx : x.Spelled bad)
    (hH : ∀ m, H m → MessageFree bad m) (hC : ∀ c, C c → CommandFree bad c) (h : Turns H C x y) :
    y.Spelled bad :=
  h.invariant (fun _ _ hx h => hx.turn hbad hH hC h) hx

/-- The entries of a merged log come from the log or from the batch. -/
lemma mem_mergeEntries (es : List LogEntry) : ∀ (acc : Node σ × Bool) {e : LogEntry},
    e ∈ (es.foldl Node.mergeEntry acc).1.log → e ∈ acc.1.log ∨ e ∈ es := by
  induction es with
  | nil => exact fun acc e h => Or.inl h
  | cons e' es ih =>
      rintro ⟨x, b⟩ e h
      rw [List.foldl_cons] at h
      rcases ih _ h with h | h
      · rcases mergeEntry_cases x b e' with heq | ⟨-, -, -, heq⟩ | ⟨-, -, -, t, ht, heq⟩
        · rw [heq] at h
          exact Or.inl h
        · rw [heq] at h
          rcases List.mem_append.mp h with h | h
          · exact Or.inl h
          · exact Or.inr (List.mem_singleton.mp h ▸ List.mem_cons_self)
        · rw [heq] at h
          rcases List.mem_append.mp h with h | h
          · exact Or.inl (List.mem_of_mem_take h)
          · rcases ht with rfl | rfl
            · exact Or.inr (List.mem_singleton.mp h ▸ List.mem_cons_self)
            · simp at h
      · exact Or.inr (List.mem_cons_of_mem _ h)

lemma mem_merged {e : LogEntry} (h : e ∈ (x.merged m).1) : e ∈ x.log ∨ e ∈ m.entries :=
  mem_mergeEntries m.entries (x, false) h

lemma Node.Spelled.absorbed (hx : x.Spelled bad) (hm : MessageFree bad m) (d : Bool) :
    Node.Spelled bad { x.absorbed A m with persistDirty := d } := by
  obtain ⟨hconf, hvote, hold, hnew, hreq, hlog, happ, hrv⟩ := hx
  refine ⟨hconf, hvote, hold, hnew, hreq, fun e he => ?_, happ, hrv⟩
  rcases mem_merged he with he | he
  · exact hlog e he
  · exact hm.entries e he

/-- **A transition** writes what the node has heard. -/
lemma Node.Spelled.transition (hbad : Separators bad) (hx : x.Spelled bad) : (x.transition A).Spelled bad := by
  have hwait : ∀ m, x.Waiting m → MessageFree bad m := by
    rintro m (hm | hm)
    · exact hx.appends m hm
    · exact hx.requests m hm
  rcases transition_turns (C := fun _ => False) (A := A) x with h | ⟨m, rest, hacc, hrest, htrans⟩
  · exact hx.turns hbad hwait (fun _ h => h.elim) h
  · obtain ⟨t, v, l, e, d₀, d, z, -, hz, -, heq, -⟩ :=
      transition_accept (C := fun _ => False) hacc hrest htrans
    have hzs : z.Spelled bad := hx.turns hbad (fun _ h => h.elim) (fun _ h => h.elim) hz
    have hm : MessageFree bad m := hx.appends m (mem_of_eq_cons hrest).1
    rw [heq]
    exact (hzs.absorbed hm d).turns (H := fun _ => False) (C := fun _ => False) hbad
      (fun _ h => h.elim) (fun _ h => h.elim) (turns_queueMessage rfl fun _ => rfl)

/-! ### The end of a tick -/

/-- Snapshot, applied entries and commit index lie in this order, inside the log. -/
structure Node.Inside (x : Node σ) : Prop where
  snap_nonneg : 0 ≤ x.snapshotLastIncludedIndex
  applied : x.snapshotLastIncludedIndex ≤ x.lastApplied
  commit : x.commitIndex ≤ x.lastLogIndex

/-- A read between the snapshot and the end of the log is a read of an entry. -/
lemma entryAt_mem {i : ℤ} (hlo : x.snapshotLastIncludedIndex < i) (hhi : i ≤ x.lastLogIndex) :
    x.entryAt i ∈ x.log := by
  obtain ⟨k, rfl⟩ : ∃ k : ℕ, i = x.snapshotLastIncludedIndex + k + 1 :=
    ⟨(i - x.snapshotLastIncludedIndex - 1).toNat, by omega⟩
  rw [Node.lastLogIndex] at hhi
  have hk : k < x.log.length := by omega
  rw [Node.entryAt_eq (List.getElem?_eq_getElem hk)]
  exact List.getElem_mem hk

lemma spelled_refreshPeers (hx : x.Spelled bad) : x.refreshPeers.Spelled bad := by
  obtain ⟨hconf, hvote, hold, hnew, hreq, hlog, happ, hrv⟩ := hx
  refine ⟨⟨hconf.nodeId, hconf.initial, fun id hid => ?_⟩, hvote, hold, hnew, hreq, hlog, happ, hrv⟩
  obtain ⟨id', hid', rfl⟩ := mem_refreshPeers hid
  rcases List.mem_append.mp hid' with h | h
  · exact (hold.free id' h).strncpy _
  · exact (hnew.free id' h).strncpy _

lemma Node.Spelled.applyCommand {c : Command} (hx : x.Spelled bad) (hc : CommandFree bad c) :
    (x.applyCommand A c).Spelled bad := by
  have hdec := free_decodeMemberList hc.value maxNodes
  have hcase := applyCommand_case (A := A) x c
  generalize x.applyCommand A c = y at hcase ⊢
  cases hcase with
  | user | noUser | threshold | skip =>
      exact ⟨hx.config, hx.vote, hx.old, hx.new, hx.requested, hx.log, hx.appends, hx.requests⟩
  | enter _ _ _ =>
      have h := spelled_refreshPeers (x := { x with
        configState := configurationSetJoint x.configState.oldMembers
          (decodeMemberList c.value maxNodes) x.lastApplied
        membershipState := .joint, jointConfigIndex := x.lastApplied
        requestedMembership := decodeMemberList c.value maxNodes
        requestedMembershipPending := true })
        ⟨hx.config, hx.vote, roster_normalizeMembers hx.old.free, roster_normalizeMembers hdec,
          hdec, hx.log, hx.appends, hx.requests⟩
      exact ⟨h.config, h.vote, h.old, h.new, h.requested, h.log, h.appends, h.requests⟩
  | leave _ hidx hne =>
      obtain ⟨r, l, v, s, heq, -⟩ := applyLeaveJoint_eq (x := x) hidx hne
      have h := spelled_refreshPeers (x := { x with
        configState := configurationSetStable (decodeMemberList c.value maxNodes) x.lastApplied
        membershipState := .stable, finalConfigIndex := x.lastApplied, jointConfigIndex := 0
        requestedMembershipPending := false, requestedMembership := [] })
        ⟨hx.config, hx.vote, roster_normalizeMembers hdec, roster_nil bad, by simp, hx.log,
          hx.appends, hx.requests⟩
      rw [heq]
      exact ⟨h.config, h.vote, h.old, h.new, h.requested, h.log, h.appends, h.requests⟩

lemma Node.Spelled.applyNext (hx : x.Spelled bad) (hin : x.Inside)
    (hlt : x.lastApplied < x.commitIndex) : (x.applyNext A).1.Spelled bad := by
  have hmem : x.entryAt (x.lastApplied + 1) ∈ x.log := by
    have := hin.applied
    have := hin.commit
    exact entryAt_mem (by omega) (by omega)
  have h : Node.Spelled bad (Node.applyCommand A { x with lastApplied := x.lastApplied + 1 }
      (x.entryAt (x.lastApplied + 1)).command) :=
    Node.Spelled.applyCommand ⟨hx.config, hx.vote, hx.old, hx.new, hx.requested, hx.log, hx.appends,
      hx.requests⟩ (hx.log _ hmem).command
  exact ⟨h.config, h.vote, h.old, h.new, h.requested, h.log, h.appends, h.requests⟩

lemma Node.Inside.applying (hin : x.Inside) (h : Applying x y)
    (hla : x.lastApplied ≤ y.lastApplied) : y.Inside := by
  refine ⟨h.snapIndex ▸ hin.snap_nonneg, ?_, ?_⟩
  · rw [h.snapIndex]
    exact hin.applied.trans hla
  · rw [h.commit, Node.lastLogIndex, h.snapIndex, h.log]
    exact hin.commit

/-- The apply loop applies entries of the log. -/
lemma Node.Spelled.applyCommitted (k : ℕ) : ∀ x : Node σ, x.Spelled bad → x.Inside →
    x.lastApplied + k ≤ x.commitIndex → (x.applyCommitted A k).1.Spelled bad := by
  induction k with
  | zero => exact fun x hx _ _ => hx
  | succ k ih =>
      intro x hx hin hle
      push_cast at hle
      obtain ⟨happ, hla⟩ := applying_applyNext (A := A) x
      refine ih _ (hx.applyNext hin (by omega)) (hin.applying happ (by omega)) ?_
      rw [hla, happ.commit]
      omega

lemma free_opEnterJoint : Free separators opEnterJoint := free_of_all (by decide)

lemma free_opLeaveJoint : Free separators opLeaveJoint := free_of_all (by decide)

lemma free_members : Free separators "members".toList := free_of_all (by decide)

/-- The entry of an internal command is made of the requested ids. -/
lemma entryFree_internalEntry (hbad : Separators bad) (hx : x.Spelled bad) {op : CString}
    (hop : Free separators op) : EntryFree bad (x.internalEntry op "members".toList
      (encodeMemberList x.requestedMembership maxValue)) where
  leader := hx.config.nodeId.strncpy _
  command :=
    { op := (hop.of_separators hbad).strncpy _
      key := (free_members.of_separators hbad).strncpy _
      value := (free_encodeMembers hbad.comma _ _ _ _ (free_nil bad) (free_nil bad)
        hx.requested).strncpy _ }

lemma Node.Spelled.maybeDriveMembership (hbad : Separators bad) (hx : x.Spelled bad) :
    x.maybeDriveMembership.Spelled bad := by
  have happend : ∀ op : CString, Free separators op → ∀ e ∈ x.log ++
      [x.internalEntry op "members".toList (encodeMemberList x.requestedMembership maxValue)],
      EntryFree bad e := by
    intro op hop e he
    rcases List.mem_append.mp he with he | he
    · exact hx.log e he
    · rw [List.mem_singleton.mp he]
      exact entryFree_internalEntry hbad hx hop
  have hcase := maybeDriveMembership_cases x
  generalize x.maybeDriveMembership = y at hcase ⊢
  cases hcase with
  | none | fullEnter | joint | fullLeave | stable =>
      exact ⟨hx.config, hx.vote, hx.old, hx.new, hx.requested, hx.log, hx.appends, hx.requests⟩
  | enter => exact ⟨hx.config, hx.vote, hx.old, hx.new, hx.requested,
      happend _ free_opEnterJoint, hx.appends, hx.requests⟩
  | leave => exact ⟨hx.config, hx.vote, hx.old, hx.new, hx.requested,
      happend _ free_opLeaveJoint, hx.appends, hx.requests⟩

lemma Node.Spelled.maybeCompact (hx : x.Spelled bad) : (x.maybeCompact A).1.Spelled bad := by
  rcases maybeCompact_cases (A := A) x with heq | ⟨data, -, -, -, -, heq⟩
  · rw [heq]
    exact hx
  · rw [heq]
    exact ⟨hx.config, hx.vote, hx.old, hx.new, hx.requested,
      fun e he => hx.log e (List.mem_of_mem_drop he), hx.appends, hx.requests⟩

lemma advanced_cases (x : Node σ) : x.advanced = x ∨ ∃ k, x.commitIndex < k ∧ k ≤ x.lastLogIndex ∧
    x.advanced = { x with commitIndex := k, persistDirty := true } := by
  rw [Node.advanced]
  split
  · exact advanceCommitIndex_cases x
  · exact Or.inl rfl

lemma commitAndApply_eq (x : Node σ) :
    x.commitAndApply A = x.advanced.applyCommitted A x.advanced.toApplyCount := rfl

/-- The log of a node after its apply loop. -/
lemma log_commitAndApply (x : Node σ) : (x.commitAndApply A).1.log = x.log := by
  rw [commitAndApply_eq, (applying_applyCommitted _ _).1.log]
  rcases advanced_cases x with h | ⟨k, -, -, h⟩
  · rw [h]
  · rw [h]

/-- **The apply loop** inside the log, by the entries it applies. -/
theorem commitAndApply_induct {I : Node σ → Prop} (hin : x.advanced.Inside) (hx : I x.advanced)
    (hI : ∀ z, z.Inside → z.lastApplied < z.commitIndex → I z → I (z.applyNext A).1) :
    I (x.commitAndApply A).1 := by
  have hloop : ∀ (k : ℕ) (z : Node σ), z.Inside → z.lastApplied + k ≤ z.commitIndex → I z →
      I (z.applyCommitted A k).1 := by
    intro k
    induction k with
    | zero => exact fun z _ _ hz => hz
    | succ k ih =>
        intro z hz hle hIz
        push_cast at hle
        obtain ⟨happ, hla⟩ := applying_applyNext (A := A) z
        refine ih _ (hz.applying happ (by omega)) ?_ (hI z hz (by omega) hIz)
        rw [hla, happ.commit]
        omega
  rw [commitAndApply_eq]
  rcases le_or_gt x.advanced.lastApplied x.advanced.commitIndex with hle | hlt
  · refine hloop _ _ hin ?_ hx
    rw [Node.toApplyCount]
    omega
  · rw [Node.toApplyCount, show (x.advanced.commitIndex - x.advanced.lastApplied).toNat = 0 by omega]
    exact hx

/-- The entry that is applied next. -/
lemma applyNext_case (hin : x.Inside) (hlt : x.lastApplied < x.commitIndex) :
    ∃ (e : LogEntry) (y : Node σ),
      x.log[(x.lastApplied - x.snapshotLastIncludedIndex).toNat]? = some e ∧
      ApplyCase A { x with lastApplied := x.lastApplied + 1 } e.command y ∧
      x.applyNext A = ({ y with persistDirty := true }, (x.lastApplied + 1, e)) := by
  obtain ⟨-, happ, hc⟩ := hin
  rw [Node.lastLogIndex] at hc
  have hk : (x.lastApplied - x.snapshotLastIncludedIndex).toNat < x.log.length := by omega
  have hentry : x.entryAt (x.lastApplied + 1) =
      x.log[(x.lastApplied - x.snapshotLastIncludedIndex).toNat] := by
    rw [← Node.entryAt_eq (x := x) (List.getElem?_eq_getElem hk)]
    congr 1
    omega
  refine ⟨_, _, List.getElem?_eq_getElem hk, applyCommand_case _ _, ?_⟩
  rw [← hentry]
  rfl

lemma Node.Inside.advanced (hin : x.Inside) : x.advanced.Inside := by
  rcases advanced_cases x with h | ⟨k, -, hle, h⟩
  · rw [h]
    exact hin
  · rw [h]
    exact ⟨hin.snap_nonneg, hin.applied, hle⟩

lemma Node.Spelled.advanced (hx : x.Spelled bad) : x.advanced.Spelled bad := by
  rcases advanced_cases x with h | ⟨k, -, -, h⟩
  · rw [h]
    exact hx
  · rw [h]
    exact ⟨hx.config, hx.vote, hx.old, hx.new, hx.requested, hx.log, hx.appends, hx.requests⟩

lemma Node.Spelled.commitAndApply (hx : x.Spelled bad) (hin : x.Inside) :
    (x.commitAndApply A).1.Spelled bad := by
  rw [commitAndApply_eq]
  rcases le_or_gt x.advanced.lastApplied x.advanced.commitIndex with hle | hlt
  · refine Node.Spelled.applyCommitted _ _ hx.advanced hin.advanced ?_
    rw [Node.toApplyCount]
    omega
  · rw [Node.toApplyCount, show (x.advanced.commitIndex - x.advanced.lastApplied).toNat = 0 by omega]
    exact hx.advanced

/-- **The end of a tick** writes what the node holds. -/
lemma Node.Spelled.dumped (hbad : Separators bad) (hx : x.Spelled bad) (hin : x.Inside) :
    (x.dumped A).Spelled bad :=
  ((hx.commitAndApply hin).maybeDriveMembership hbad).maybeCompact

end RaftRx.C
