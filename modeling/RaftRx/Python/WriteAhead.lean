import RaftRx.Python.Completeness
import RaftRx.Python.Compaction

/-!
Write-ahead discipline of a Python node: what is sent is backed by the files.

A node is driven by any messages, commands and membership requests, by its three machines in any
order, by any stops and starts, and is lost at any moment, also inside a dump.  `persist_dirty` is
the hinge, as in C: whoever touches term, vote, log or snapshot index sets it, and a dump saves
before it sends.

* `Kernel`, `Disk.kernel`: what a promise rests on, of a node and of its files;
* `Flags`: a change that keeps the kernel or leaves the node dirty;
* `Vouched`: the ballots in the outbox are not disowned by term and vote;
* `Host.Backed`: the invariant of a host;
* `files_back_messages`: the files that are there when messages leave.
-/

namespace RaftRx.Python

open Protocol (Role)

variable {σ ν : Type} {E : Env σ ν} {F : Disk ν} {x x' y : Node σ ν} {m : Message}
  {disk : Disk ν} {h h' : Host σ ν} {H : Message → Prop} {C : List LogEntry → Message → Prop}

/-! ### What a promise rests on -/

/-- Term, vote, log and snapshot. -/
structure Kernel where
  term : ℤ
  vote : Option Str
  log : List LogEntry
  snapshotIndex : ℤ
  snapshotTerm : ℤ
  deriving DecidableEq

/-- The kernel of a node. -/
def Node.kernel (x : Node σ ν) : Kernel :=
  { term := x.currentTerm, vote := x.votedFor, log := x.log
    snapshotIndex := x.snapshotLastIncludedIndex, snapshotTerm := x.snapshotLastIncludedTerm }

/-- The kernel in the files of a disk. -/
def Disk.kernel (disk : Disk ν) : Kernel :=
  { term := disk.load.currentTerm, vote := disk.load.votedFor, log := disk.load.log
    snapshotIndex := disk.load.snapshotLastIncludedIndex
    snapshotTerm := disk.load.snapshotLastIncludedTerm }

/-- A node that was just loaded has the kernel of its files and nothing to save. -/
lemma Loaded.kernel {config : NodeConfig} (hl : Loaded disk config y) :
    y.kernel = disk.kernel := by
  rw [Node.kernel, hl.term, hl.vote, hl.log, hl.snapIndex, hl.snapTerm]
  rfl

/-- A snapshot alone is not part of the kernel. -/
lemma kernel_snapshot {writes : List (Write ν)}
    (hw : writes = [] ∨ ∃ file, writes = [.snapshotJson file]) :
    (disk.writeAll writes).kernel = disk.kernel := by
  rcases hw with rfl | ⟨file, rfl⟩
  · rfl
  · show Disk.kernel { disk with snapshotJson := some file } = disk.kernel
    rw [Disk.kernel, Disk.kernel, Disk.load, Disk.load]
    cases disk.metaJson <;> rfl

/-- A save leaves the kernel of the node. -/
lemma kernel_save : (disk.writeAll x.save).kernel = x.kernel := rfl

/-! ### Changes that are flagged -/

/-- A change keeps the kernel of a node that was saved, or leaves the node dirty. -/
def Flags (x y : Node σ ν) : Prop :=
  y.persistDirty = false → x.persistDirty = false ∧ y.kernel = x.kernel

lemma Flags.refl (x : Node σ ν) : Flags x x := fun hd => ⟨hd, rfl⟩

lemma Flags.trans (h : Flags x x') (h' : Flags x' y) : Flags x y := by
  intro hd
  obtain ⟨hd', hk'⟩ := h' hd
  obtain ⟨hd'', hk⟩ := h hd'
  exact ⟨hd'', hk'.trans hk⟩

/-- A dirty node has said everything. -/
lemma Flags.of_dirty (hd : y.persistDirty = true) : Flags x y := fun hc => by
  rw [hd] at hc
  exact absurd hc (by simp)

lemma flags_appendIfNext (x : Node σ ν) (e : LogEntry) : Flags x (x.appendIfNext e) := by
  rw [Node.appendIfNext]
  split
  · exact Flags.of_dirty rfl
  · exact Flags.refl x

/-- A batch that changes the log leaves the node dirty. -/
lemma flags_mergeEntries {es : List LogEntry} {rebuild : Bool}
    (hm : x.mergeEntries es = some (y, rebuild)) : Flags x y := by
  have hall : Flags x (y, rebuild).1 := by
    refine foldlM_invariant (I := fun r : Node σ ν × Bool => Flags x r.1) ?_ (Flags.refl x) hm
    rintro e - ⟨z, b⟩ ⟨z', b'⟩ hz hz'
    rcases mergeEntry_cases hz' with ⟨rfl, -⟩ | ⟨rfl, -⟩ | ⟨-, -, -, -, rfl⟩
    · exact hz
    · exact hz.trans (flags_appendIfNext z e)
    · exact hz.trans ((Flags.of_dirty rfl).trans (flags_appendIfNext _ e))
  exact hall

/-- **A turn** is flagged. -/
lemma Turn.flags (ht : Turn E F H C x y) : Flags x y := by
  cases ht with
  | tune ht =>
      intro hd
      refine ⟨?_, by rw [Node.kernel, Node.kernel, ht.currentTerm, ht.votedFor, ht.log,
        ht.snapshotIndex, ht.snapshotTerm]⟩
      cases hx : x.persistDirty with
      | false => rfl
      | true => exact absurd (ht.dirty hx) (by simp [hd])
  | observe m hm =>
      rw [Node.handleTermUpdate, if_pos hm]
      exact Flags.of_dirty rfl
  | grant m _ _ _ hg =>
      rw [Node.answerRequestVote, hg]
      exact Flags.of_dirty rfl
  | append | advance => exact Flags.of_dirty rfl
  | send peer _ _ hsend =>
      obtain ⟨m, -, rfl⟩ := sendAppendEntries_cases hsend
      exact fun hd => ⟨hd, rfl⟩
  | follow | forget | refuse | collect | record => exact fun hd => ⟨hd, rfl⟩
  | @accept z m rebuild _ _ _ _ _ _ hmerge _ =>
      have hz : Flags x z := flags_mergeEntries hmerge
      refine hz.trans ?_
      obtain ⟨commit, user, applied, d, heq, hd, -⟩ :=
        settleCommit_eq (E := E) (F := F) z rebuild m.leaderCommit
      rw [Node.answerAppendEntries, heq]
      intro hclean
      refine ⟨?_, rfl⟩
      cases hzd : z.persistDirty with
      | false => rfl
      | true => exact absurd (hd hzd) (by simpa using hclean)

/-- **Turns** are flagged. -/
lemma Turns.flags (ht : Turns E F H C x y) : Flags x y := by
  induction ht with
  | refl => exact Flags.refl x
  | tail _ hturn ih => exact ih.trans hturn.flags

/-- **A transition** is flagged. -/
lemma flags_transition (hp : Pending (fun _ => True) x) (ht : x.transition E F = some y) :
    Flags x y := by
  rcases transition_cases (C := fun _ _ => True) hp (fun _ _ => trivial) ht with
    hturns | ⟨-, -, rfl⟩ | ⟨-, -, hturns⟩
  · exact hturns.flags
  · exact Flags.of_dirty rfl
  · have hlead : Flags x (Node.lead { x with role := .leader }) := fun hd => ⟨hd, rfl⟩
    exact hlead.trans hturns.flags

/-- A command of the client or of the membership machine leaves the node dirty. -/
lemma dirty_appendClientCommand {command : Command} (hy : x.appendClientCommand command = some y) :
    y.persistDirty = true := by
  obtain ⟨z, hz, hy⟩ := Option.bind_eq_some_iff.mp hy
  have hzd : z.persistDirty = true := by
    rcases advanceCommitIndex_cases hz with rfl | ⟨i, -, -, -, -, rfl⟩
    · rfl
    · rfl
  refine broadcastAppendEntries_induct (I := fun w => w.persistDirty = true) ?_ hzd hy
  intro w w' peer _ hw hw'
  obtain ⟨m, -, rfl⟩ := sendAppendEntries_cases hw'
  exact hw

/-- A note of the membership machine: the kernel and the flag stay, the outbox may be emptied. -/
structure Jotted (x y : Node σ ν) : Prop where
  kernel : y.kernel = x.kernel
  dirty : y.persistDirty = x.persistDirty
  outbox : y.outbox = x.outbox ∨ y.outbox = []

/-- **A move of the membership machine** is a note, and perhaps a command after it. -/
lemma membershipTransition_jotted (hy : x.membershipTransition E = some y) :
    ∃ z, Jotted x z ∧ (y = z ∨ ∃ command, z.appendClientCommand command = some y) := by
  have hsame : ∀ {z : Node σ ν}, some z = some y → Jotted x z →
      ∃ z, Jotted x z ∧ (y = z ∨ ∃ command, z.appendClientCommand command = some y) :=
    fun hz hj => ⟨_, hj, Or.inl (Option.some.inj hz).symm⟩
  rw [Node.membershipTransition] at hy
  split at hy
  · exact hsame hy ⟨rfl, rfl, Or.inl rfl⟩
  · dsimp only at hy
    split at hy
    · rw [Node.beginMembershipChange] at hy
      split at hy
      · exact hsame hy ⟨rfl, rfl, Or.inl rfl⟩
      · refine ⟨_, ?_, Or.inr ⟨_, hy⟩⟩
        exact ⟨rfl, rfl, Or.inr rfl⟩
    · exact hsame hy ⟨rfl, rfl, Or.inl rfl⟩
    · rw [Node.appendFinalConfig] at hy
      split at hy
      · exact hsame hy ⟨rfl, rfl, Or.inl rfl⟩
      · refine ⟨_, ?_, Or.inr ⟨_, hy⟩⟩
        exact ⟨rfl, rfl, Or.inl rfl⟩
    · exact hsame hy ⟨rfl, rfl, Or.inl rfl⟩

/-- The membership machine is flagged. -/
lemma flags_membershipTransition (hy : x.membershipTransition E = some y) : Flags x y := by
  obtain ⟨z, hz, rfl | ⟨command, hy⟩⟩ := membershipTransition_jotted hy
  · exact fun hd => ⟨hz.dirty ▸ hd, hz.kernel⟩
  · exact Flags.of_dirty (dirty_appendClientCommand hy)

/-- **A move of the compaction machine** is flagged. -/
lemma flags_compactionTransition {writes : List (Write ν)}
    (hy : x.compactionTransition E = some (y, writes)) : Flags x y := by
  rw [Node.compactionTransition] at hy
  split at hy
  · simp only [Option.some.injEq, Prod.mk.injEq] at hy
    exact hy.1 ▸ Flags.refl x
  · dsimp only at hy
    split at hy
    · simp only [Option.some.injEq, Prod.mk.injEq] at hy
      exact hy.1 ▸ fun hd => ⟨hd, rfl⟩
    · simp only [Option.map_eq_some_iff, Prod.mk.injEq] at hy
      obtain ⟨z, hz, rfl, -⟩ := hy
      obtain ⟨term, -, hz⟩ := Option.bind_eq_some_iff.mp hz
      exact Option.some.inj hz ▸ fun hd => ⟨hd, rfl⟩
    · simp only [Option.some.injEq, Prod.mk.injEq] at hy
      exact hy.1 ▸ Flags.of_dirty rfl

/-! ### Ballots in the outbox -/

/-- A ballot is not disowned: the term is over, or the vote of the term is that one. -/
def Kernel.Vouches (k : Kernel) (m : Message) : Prop :=
  ∀ v t p, m.ballot = some (v, t, p) → t < k.term ∨ (t = k.term ∧ k.vote = some p)

/-- The ballots in the outbox are not disowned. -/
def Vouched (x : Node σ ν) : Prop := ∀ m ∈ x.outbox, x.kernel.Vouches m

lemma ballot_append (hk : m.kind = .appendEntries ∨ m.kind = .appendEntriesResponse) :
    m.ballot = none := by
  rw [Message.ballot]
  rcases hk with hk | hk <;> rw [hk]

/-- A later term disowns nothing, and neither does a first vote in the same term. -/
lemma Kernel.Vouches.later {k k' : Kernel} (hv : k.Vouches m)
    (hk : k.term < k'.term ∨ (k'.term = k.term ∧ (k.vote = none ∨ k'.vote = k.vote))) :
    k'.Vouches m := by
  intro v t p hb
  rcases hv v t p hb with hlt | ⟨rfl, hvote⟩
  · refine Or.inl ?_
    rcases hk with hk | ⟨hk, -⟩ <;> omega
  · rcases hk with hk | ⟨hk, hnone | hkv⟩
    · exact Or.inl hk
    · exact absurd (hnone.symm.trans hvote) (by simp)
    · exact Or.inr ⟨hk.symm, hkv.trans hvote⟩

lemma vouches_of_none {k : Kernel} (hb : m.ballot = none) : k.Vouches m := by
  intro v t p h
  rw [hb] at h
  exact absurd h (by simp)

lemma Vouched.nil (ho : x.outbox = []) : Vouched x := fun m hm => by
  rw [ho] at hm
  exact absurd hm List.not_mem_nil

/-- A change that keeps term and vote and queues nothing. -/
lemma Vouched.frame (hx : Vouched x) (ht : y.currentTerm = x.currentTerm)
    (hv : y.votedFor = x.votedFor) (ho : y.outbox = x.outbox ∨ y.outbox = []) : Vouched y := by
  rcases ho with ho | ho
  · intro m hm
    exact (hx m (ho ▸ hm)).later (Or.inr ⟨ht, Or.inr hv⟩)
  · exact Vouched.nil ho

/-- A change that queues one message, which vouches for itself. -/
lemma Vouched.snoc (hx : Vouched x) (ho : y.outbox = x.outbox ++ [m])
    (hk : y.currentTerm = x.currentTerm ∧ (x.votedFor = none ∨ y.votedFor = x.votedFor))
    (hm : y.kernel.Vouches m) : Vouched y := by
  intro m' hm'
  rw [ho, List.mem_append, List.mem_singleton] at hm'
  rcases hm' with hm' | rfl
  · exact (hx m' hm').later (Or.inr hk)
  · exact hm

/-- **A turn** queues no ballot but that of its own vote. -/
lemma Vouched.turn (hx : Vouched x) (ht : Turn E F H C x y) : Vouched y := by
  cases ht with
  | tune ht => exact hx.frame ht.currentTerm ht.votedFor (Or.inl ht.outbox)
  | observe m hm =>
      rw [Node.handleTermUpdate, if_pos hm]
      exact fun m' hm' => (hx m' hm').later (Or.inl hm)
  | follow | forget | collect | append | record | advance =>
      exact hx.frame rfl rfl (Or.inl rfl)
  | grant m _ _ _ hg =>
      have hvote : x.votedFor = none ∨ x.votedFor = some m.source := by
        simp only [Node.grantsVote, Bool.and_eq_true, decide_eq_true_eq] at hg
        exact hg.1.2
      rw [Node.answerRequestVote, hg]
      refine hx.snoc rfl ⟨rfl, hvote.imp_right Eq.symm⟩ fun v t p hb => ?_
      rw [Message.ballot, if_pos rfl] at hb
      obtain ⟨-, rfl, rfl⟩ : _ ∧ _ ∧ _ := by simpa using hb
      exact Or.inr ⟨rfl, rfl⟩
  | refuse m hr =>
      refine hx.snoc rfl ⟨rfl, Or.inr rfl⟩ (vouches_of_none ?_)
      rw [Message.ballot]
      rcases hr.kind with hk | hk
      · rw [hk, hr.granted]
        rfl
      · rw [hk]
  | send peer _ _ hsend =>
      obtain ⟨m, hslice, rfl⟩ := sendAppendEntries_cases hsend
      exact hx.snoc rfl ⟨rfl, Or.inr rfl⟩ (vouches_of_none (ballot_append (Or.inl hslice.kind)))
  | @accept z m rebuild _ _ _ _ _ _ hmerge _ =>
      obtain ⟨L, d, rfl, -⟩ := rewritten_mergeEntries hmerge
      obtain ⟨commit, user, applied, d', heq, -⟩ := settleCommit_eq (E := E) (F := F)
        { x with log := L, persistDirty := d } rebuild m.leaderCommit
      rw [Node.answerAppendEntries, heq]
      exact hx.snoc rfl ⟨rfl, Or.inr rfl⟩ (vouches_of_none (ballot_append (Or.inr rfl)))

/-- **Turns** queue no ballots but those of their own votes. -/
lemma Vouched.turns (hx : Vouched x) (ht : Turns E F H C x y) : Vouched y := by
  induction ht with
  | refl => exact hx
  | tail _ hturn ih => exact ih.turn hturn

/-- A candidate asks for votes in a new term, in which it votes for itself. -/
lemma Vouched.campaign (hx : Vouched x) :
    Vouched (Node.becomeCandidate { x with role := .candidate }) := by
  intro m hm
  rcases List.mem_append.mp hm with hm | hm
  · refine (hx m hm).later (Or.inl ?_)
    show x.currentTerm < x.currentTerm + 1
    omega
  · obtain ⟨peer, -, rfl⟩ := List.mem_map.mp hm
    intro v t p hb
    obtain ⟨rfl, rfl, rfl⟩ : _ ∧ _ ∧ _ := by simpa [Message.ballot] using hb
    exact Or.inr ⟨rfl, rfl⟩

/-- A transition takes from the queues only. -/
lemma pending_transition (hp : Pending H x) (ht : x.transition E F = some y) : Pending H y := by
  rcases transition_cases (C := fun _ _ => True) hp (fun _ _ => trivial) ht with
    hturns | ⟨-, -, rfl⟩ | ⟨-, -, hturns⟩
  · exact hturns.pending hp
  · exact hp.frame id rfl rfl rfl
  · have hlead : Pending H (Node.lead { x with role := .leader }) := hp.frame id rfl rfl rfl
    exact hturns.pending hlead

/-- **A transition** keeps the outbox vouched for. -/
lemma Vouched.transition (hx : Vouched x) (hp : Pending (fun _ => True) x)
    (ht : x.transition E F = some y) : Vouched y := by
  rcases transition_cases (C := fun _ _ => True) hp (fun _ _ => trivial) ht with
    hturns | ⟨-, -, rfl⟩ | ⟨-, -, hturns⟩
  · exact hx.turns hturns
  · exact hx.campaign
  · have hlead : Vouched (Node.lead { x with role := .leader }) :=
      hx.frame rfl rfl (Or.inl rfl)
    exact hlead.turns hturns

/-- **A command** queues batches only. -/
lemma Vouched.command {command : Command} (hx : Vouched x)
    (hy : x.appendClientCommand command = some y) : Vouched y := by
  obtain ⟨z, hz, hy⟩ := Option.bind_eq_some_iff.mp hy
  have hzv : Vouched z := by
    rcases advanceCommitIndex_cases hz with rfl | ⟨i, -, -, -, -, rfl⟩
    · exact hx.frame rfl rfl (Or.inl rfl)
    · exact hx.frame rfl rfl (Or.inl rfl)
  refine broadcastAppendEntries_induct (I := Vouched) ?_ hzv hy
  intro w w' peer _ hw hw'
  obtain ⟨m, hslice, rfl⟩ := sendAppendEntries_cases hw'
  exact hw.snoc rfl ⟨rfl, Or.inr rfl⟩ (vouches_of_none (ballot_append (Or.inl hslice.kind)))

/-- The membership machine queues batches only. -/
lemma Vouched.membership (hx : Vouched x) (hy : x.membershipTransition E = some y) :
    Vouched y := by
  obtain ⟨z, hz, hy⟩ := membershipTransition_jotted hy
  have hzv : Vouched z :=
    hx.frame (congrArg Kernel.term hz.kernel) (congrArg Kernel.vote hz.kernel) hz.outbox
  rcases hy with rfl | ⟨command, hy⟩
  · exact hzv
  · exact hzv.command hy

/-! ### Hosts -/

/-- **The files back the node**: a node that is not dirty has the kernel of its files, and its
outbox is vouched for. -/
structure Host.Backed (h : Host σ ν) : Prop where
  files : h.node.persistDirty = false → h.node.kernel = h.disk.kernel
  vouched : Vouched h.node
  pending : Pending (fun _ => True) h.node

/-- A node that was just loaded is backed. -/
lemma backed_loaded {config : NodeConfig} (hl : Loaded disk config y) (hh : h.node = y)
    (hd : h.disk = disk) : h.Backed := by
  subst hh
  subst hd
  exact ⟨fun _ => hl.kernel, Vouched.nil hl.outbox, Pending.nil hl.appends hl.requests hl.votes⟩

/-- The new node of a flagged change is backed. -/
lemma Host.Backed.flagged (hb : h.Backed) (hf : Flags h.node h'.node)
    (hk : h'.disk.kernel = h.disk.kernel) (hv : Vouched h'.node)
    (hp : Pending (fun _ => True) h'.node) : h'.Backed := by
  refine ⟨fun hd => ?_, hv, hp⟩
  obtain ⟨hd', hkernel⟩ := hf hd
  exact hkernel.trans ((hb.files hd').trans hk.symm)

/-- The time of a tick changes nothing. -/
lemma Host.Backed.clocked (hb : h.Backed) (clockMs : ℤ) :
    Flags h.node { h.node with clockMs := clockMs } ∧
      Vouched { h.node with clockMs := clockMs } ∧
      Pending (fun _ => True) { h.node with clockMs := clockMs } :=
  ⟨fun hd => ⟨hd, rfl⟩, hb.vouched.frame rfl rfl (Or.inl rfl), hb.pending.frame id rfl rfl rfl⟩

/-! ### The apply loop -/

/-- No command changes the term of the snapshot. -/
lemma snapshotTerm_applyCommittedCommand {command : Command}
    (hy : x.applyCommittedCommand E command = some y) :
    y.snapshotLastIncludedTerm = x.snapshotLastIncludedTerm := by
  rw [Node.applyCommittedCommand] at hy
  split_ifs at hy
  · obtain ⟨value, -, hy⟩ := Option.bind_eq_some_iff.mp hy
    obtain ⟨threshold, -, hy⟩ := Option.bind_eq_some_iff.mp hy
    exact Option.some.inj hy ▸ rfl
  · obtain ⟨encoded, -, hy⟩ := Option.bind_eq_some_iff.mp hy
    obtain ⟨target, -, hy⟩ := Option.bind_eq_some_iff.mp hy
    split_ifs at hy <;> exact Option.some.inj hy ▸ rfl
  · obtain ⟨encoded, -, hy⟩ := Option.bind_eq_some_iff.mp hy
    obtain ⟨target, -, hy⟩ := Option.bind_eq_some_iff.mp hy
    split_ifs at hy
    · exact Option.some.inj hy ▸ rfl
    · rw [Option.some.injEq] at hy
      subst hy
      split <;> rfl
  · obtain ⟨user, -, rfl⟩ := Option.map_eq_some_iff.mp hy
    rfl

/-- **The apply loop** keeps the kernel. -/
lemma kernel_applyAll {k : ℕ} (hy : (Node.applyAll E k x).2 = some y) : y.kernel = x.kernel := by
  have hterm : y.snapshotLastIncludedTerm = x.snapshotLastIncludedTerm := by
    induction k generalizing x with
    | zero => exact congrArg Node.snapshotLastIncludedTerm (Option.some.inj hy).symm
    | succ k ih =>
        rw [Node.applyAll] at hy
        split at hy
        · dsimp only at hy
          split at hy
          · exact absurd hy (by simp)
          · split at hy
            · exact absurd hy (by simp)
            · rename_i z hz
              have hterm := snapshotTerm_applyCommittedCommand hz
              exact (ih hy).trans hterm
        · exact congrArg Node.snapshotLastIncludedTerm (Option.some.inj hy).symm
  obtain ⟨hk, -⟩ := applyAll_cases hy
  rw [Node.kernel, Node.kernel, hk.currentTerm, hk.votedFor, hk.log, hk.snapshotIndex, hterm]

/-! ### Acts of a host -/

/-- **The files of a dump** hold the kernel of the node, once they are all written. -/
lemma Host.Backed.dumped (hb : h.Backed) (hrun : h.node.running = true) :
    (h.disk.writeAll (h.node.dumpOutputs E).writes).kernel = h.node.kernel := by
  rw [dumpOutputs_running hrun]
  show (h.disk.writeAll (if h.node.persistDirty then h.node.save else [])).kernel = _
  cases hd : h.node.persistDirty with
  | false => exact (hb.files hd).symm
  | true => exact kernel_save

/-- **What a dump sends** is vouched for by the node. -/
lemma Host.Backed.sends (hb : h.Backed) (hm : m ∈ (h.node.dumpOutputs E).sends) :
    h.node.running = true ∧ h.node.kernel.Vouches m := by
  cases hrun : h.node.running with
  | false =>
      rw [dumpOutputs_stopped hrun] at hm
      exact absurd hm List.not_mem_nil
  | true =>
      refine ⟨rfl, ?_⟩
      rw [dumpOutputs_running hrun] at hm
      cases hz : (Node.applyAll E h.node.rounds h.node.saved).2 with
      | none =>
          simp only [hz, Option.map_none, Option.getD_none] at hm
          exact absurd hm List.not_mem_nil
      | some z =>
          simp only [hz, Option.map_some, Option.getD_some] at hm
          obtain ⟨hk, -⟩ := applyAll_cases hz
          rcases hk.outbox with ho | ho
          · rw [ho] at hm
            exact hb.vouched m hm
          · rw [ho] at hm
            exact absurd hm List.not_mem_nil

/-- **One act** of a host, crashes included. -/
lemma Host.Backed.next {act : HostAct σ} (hb : h.Backed) (hnext : h.next E act = some h') :
    h'.Backed := by
  obtain ⟨⟨g, sends⟩, hexec, rfl⟩ := Option.map_eq_some_iff.mp hnext
  rw [Host.exec] at hexec
  split at hexec
  · cases act with
    | latch clockMs ms cs =>
        simp only [Host.run, Option.map_eq_some_iff, Prod.mk.injEq] at hexec
        obtain ⟨x, hx, rfl, -⟩ := hexec
        obtain ⟨hf, hv, hp⟩ := hb.clocked clockMs
        have ht := turns_latchInputs (E := E) (F := h.disk) (C := fun _ _ => True)
          (fun _ _ => trivial) hx
        exact hb.flagged (hf.trans ht.flags) rfl (hv.turns ht) (ht.pending hp)
    | transition clockMs =>
        simp only [Host.run, Option.map_eq_some_iff, Prod.mk.injEq] at hexec
        obtain ⟨x, hx, rfl, -⟩ := hexec
        obtain ⟨hf, hv, hp⟩ := hb.clocked clockMs
        exact hb.flagged (hf.trans (flags_transition hp hx)) rfl (hv.transition hp hx)
          (pending_transition hp hx)
    | dump =>
        simp only [Host.run, Option.map_eq_some_iff, Prod.mk.injEq] at hexec
        obtain ⟨x, hx, rfl, -⟩ := hexec
        rcases dumpOutputs_cases hx with ⟨hrun, rfl, hw, -⟩ | ⟨hrun, z, hz, rfl, -, -⟩
        · exact hb.flagged (Flags.refl _) (by rw [hw]; rfl) hb.vouched hb.pending
        · have hk := kernel_applyAll hz
          exact ⟨fun _ => hk.trans (hb.dumped hrun).symm, Vouched.nil rfl,
            (kept_dumpOutputs hx).pending hb.pending⟩
    | compaction =>
        simp only [Host.run, Option.map_eq_some_iff, Prod.mk.injEq, Prod.exists] at hexec
        obtain ⟨x, writes, hx, rfl, -⟩ := hexec
        obtain ⟨hs, hw⟩ := shelved_compactionTransition hx
        exact hb.flagged (flags_compactionTransition hx) (kernel_snapshot hw)
          (hb.vouched.frame hs.term hs.vote (Or.inl hs.outbox))
          (pending_compactionTransition hb.pending hx)
    | membership =>
        simp only [Host.run, Option.map_eq_some_iff, Prod.mk.injEq] at hexec
        obtain ⟨x, hx, rfl, -⟩ := hexec
        exact hb.flagged (flags_membershipTransition hx) rfl (hb.vouched.membership hx)
          (pending_membershipTransition hb.pending hx)
    | request members =>
        simp only [Host.run, Option.some.injEq, Prod.mk.injEq] at hexec
        obtain ⟨rfl, -⟩ := hexec
        exact hb.flagged (fun hd => ⟨hd, rfl⟩) rfl (hb.vouched.frame rfl rfl (Or.inl rfl))
          (hb.pending.frame id rfl rfl rfl)
    | stop =>
        simp only [Host.run, Option.some.injEq, Prod.mk.injEq] at hexec
        obtain ⟨rfl, -⟩ := hexec
        exact hb.flagged (fun hd => ⟨hd, rfl⟩) rfl (Vouched.nil rfl) (Pending.nil rfl rfl rfl)
    | start clockMs =>
        simp only [Host.run, Option.some.injEq, Prod.mk.injEq] at hexec
        obtain ⟨rfl, -⟩ := hexec
        exact backed_loaded (loaded_start (E := E) { h.node with clockMs := clockMs }) rfl rfl
    | crash user clockMs =>
        simp only [Host.run, Option.some.injEq, Prod.mk.injEq] at hexec
        obtain ⟨rfl, -⟩ := hexec
        exact backed_loaded (loaded_init (E := E) h.config user clockMs) rfl rfl
    | crashInDump i j user clockMs =>
        simp only [Host.run, Option.some.injEq, Prod.mk.injEq] at hexec
        obtain ⟨rfl, -⟩ := hexec
        exact backed_loaded (loaded_init (E := E) h.config user clockMs) rfl rfl
  · exact absurd hexec (by simp)

/-! ### Messages and files -/

/-- A loaded node has the kernel of its files. -/
lemma kernel_init (config : NodeConfig) (disk : Disk ν) (user : σ) (clockMs : ℤ) :
    (Node.init E config disk user clockMs).kernel = disk.kernel :=
  (loaded_init (E := E) config user clockMs).kernel

/-- Only a dump sends, one that is cut short too, and only with its files written. -/
lemma sends_exec {act : HostAct σ} {sends : List Message}
    (hexec : h.exec E act = some (h', sends)) (hsent : sends ≠ []) :
    h'.disk = h.disk.writeAll (h.node.dumpOutputs E).writes ∧
      ∀ m ∈ sends, m ∈ (h.node.dumpOutputs E).sends := by
  rw [Host.exec] at hexec
  split at hexec
  · cases act with
    | dump =>
        simp only [Host.run, Option.map_eq_some_iff, Prod.mk.injEq] at hexec
        obtain ⟨x, -, rfl, rfl⟩ := hexec
        exact ⟨rfl, fun m => id⟩
    | crashInDump i j user clockMs =>
        simp only [Host.run, Option.some.injEq, Prod.mk.injEq] at hexec
        obtain ⟨rfl, rfl⟩ := hexec
        rw [Host.lateSends] at hsent ⊢
        dsimp only at hsent ⊢
        split at hsent
        · rename_i hall
          rw [if_pos hall, List.take_of_length_le hall]
          exact ⟨rfl, fun m => List.mem_of_mem_take⟩
        · exact absurd rfl hsent
    | request members | stop | start clockMs | crash user clockMs =>
        simp only [Host.run, Option.some.injEq, Prod.mk.injEq] at hexec
        exact absurd hexec.2.symm hsent
    | latch clockMs ms cs | transition clockMs | membership =>
        simp only [Host.run, Option.map_eq_some_iff, Prod.mk.injEq] at hexec
        obtain ⟨x, -, -, hnil⟩ := hexec
        exact absurd hnil.symm hsent
    | compaction =>
        simp only [Host.run, Option.map_eq_some_iff, Prod.mk.injEq, Prod.exists] at hexec
        obtain ⟨x, writes, -, -, hnil⟩ := hexec
        exact absurd hnil.symm hsent
  · exact absurd hexec (by simp)

/-- **The files back every message**: in every run of a host, with compactions, membership changes
and crashes at any moment, a node loaded from the files that are there when messages leave has the
term, vote, log and snapshot index of the sender, and disowns none of the votes that are sent. -/
theorem files_back_messages (E : Env σ ν) (config : NodeConfig) (disk : Disk ν) (user : σ)
    (clockMs : ℤ) (hrun : Run (Host.next E) (fun _ _ => True)
      { config := config, node := Node.init E config disk user clockMs, disk := disk
        phase := .idle } h) {act : HostAct σ} {sends : List Message}
    (hexec : h.exec E act = some (h', sends)) (hsent : sends ≠ []) (user' : σ) (clockMs' : ℤ) :
    (Node.init E h'.config h'.disk user' clockMs').kernel = h.node.kernel ∧
      ∀ m ∈ sends, (Node.init E h'.config h'.disk user' clockMs').kernel.Vouches m := by
  have hb : h.Backed := hrun.invariant (I := Host.Backed) (fun _ _ _ hb _ hnext => hb.next hnext)
    (backed_loaded (loaded_init (E := E) config user clockMs) rfl rfl)
  obtain ⟨hdisk, hsends⟩ := sends_exec hexec hsent
  obtain ⟨m₀, hm₀⟩ := List.exists_mem_of_ne_nil sends hsent
  have hkernel : (Node.init E h'.config h'.disk user' clockMs').kernel = h.node.kernel :=
    calc (Node.init E h'.config h'.disk user' clockMs').kernel = h'.disk.kernel :=
          kernel_init _ _ _ _
      _ = (h.disk.writeAll (h.node.dumpOutputs E).writes).kernel := by rw [hdisk]
      _ = h.node.kernel := hb.dumped (hb.sends (hsends m₀ hm₀)).1
  refine ⟨hkernel, fun m hm => ?_⟩
  rw [hkernel]
  exact (hb.sends (hsends m hm)).2

/-- `n2` has handled a vote request and is about to answer. -/
def votePending : List (HostAct Unit) :=
  [.latch 0 [voteRequest n1 n2 1 0 0] [], .transition 0]

/-- `n2` sends its vote and dies: the vote is in its files. -/
theorem files_back_messages_voted : ∃ h h' m, Run (Host.next quiet) (fun _ _ => True)
      (Host.boot quiet (impatient [n1, n2, n3] n2) () 0) h ∧
    h.exec quiet (.crashInDump 2 1 () 9) = some (h', [m]) ∧ m.ballot = some (n2, 1, n1) ∧
    h'.disk.kernel.term = 1 ∧ h'.disk.kernel.vote = some n1 ∧ h'.disk.kernel.Vouches m := by
  have hexec : (execAll (Host.next quiet) (fun _ _ => true)
      (Host.boot quiet (impatient [n1, n2, n3] n2) () 0) votePending).any (fun h =>
        decide (h.node.kernel.term = 1) && decide (h.node.kernel.vote = some n1) &&
        ((h.exec quiet (.crashInDump 2 1 () 9)).map fun r => r.2.map Message.ballot) ==
          some [some (n2, 1, n1)]) = true := by
    decide +kernel
  obtain ⟨h, hrun, hq⟩ := Run.exists_of_execAll hexec
  simp only [Bool.and_eq_true, decide_eq_true_eq, beq_iff_eq] at hq
  obtain ⟨⟨hterm, hvote⟩, hsent⟩ := hq
  obtain ⟨⟨h', sends⟩, hstep, hballots⟩ := Option.map_eq_some_iff.mp hsent
  obtain ⟨m, rfl, hballot⟩ := List.map_eq_singleton_iff.mp hballots
  obtain ⟨hkernel, hvouch⟩ := files_back_messages quiet (impatient [n1, n2, n3] n2) Disk.empty () 0
    (hrun.mono (Q := fun _ _ => True) (fun _ _ _ => trivial)) hstep (by simp) () 9
  have hloaded := kernel_init (E := quiet) h'.config h'.disk () 9
  rw [hloaded] at hkernel hvouch
  exact ⟨h, h', m, hrun.mono (fun _ _ _ => trivial), hstep, hballot, hkernel ▸ hterm,
    hkernel ▸ hvote, hvouch m List.mem_cons_self⟩

end RaftRx.Python
