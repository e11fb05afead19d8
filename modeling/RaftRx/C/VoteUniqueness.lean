import RaftRx.C.ElectionSafety

/-!
Votes of a single C node over a whole run, with crashes at every point.

The node is driven by any messages, commands, clocks, membership requests, stops, starts and
crashes, also inside the dump.  Its ids are well formed.

* `Sender`: a host with the messages it handed to the transport, each beside the term of the node
  at that moment;
* `IdsAct`: the ids an act meets are well formed, and the node does not join another cluster;
* `stored_of_send`: the files hold the term of the node when a message leaves;
* `votes_unique`: the grants of a term go to one candidate, a node that campaigned in a term grants
  a vote of that term to nobody but itself, and the terms of the sent messages do not decrease;
* `votes_for_itself`: it does grant a vote to itself when it reads a request in its own name.
-/

namespace RaftRx.C

open Protocol

variable {σ : Type*} {A : Application σ} {n : CString} {a a' : State CString ℤ LogEntry}
  {h h' : Host σ} {act : HostAct σ} {effect : Effect} {x : Node σ}

/-! ### Hosts and what they sent -/

/-- A host and the messages it handed to the transport, with the term of the node then. -/
structure Sender (σ : Type*) where
  host : Host σ
  sent : List (ℤ × Message)

/-- One act of the host. -/
def Sender.exec (A : Application σ) (s : Sender σ) (act : HostAct σ) : Option (Sender σ) :=
  (s.host.exec A act).map fun (h, effect) =>
    { host := h, sent := s.sent ++ effect.sends.map fun m => (s.host.node.currentTerm, m) }

/-- A host on an empty data directory. -/
def Sender.boot (A : Application σ) (config : NodeConfig) (user : σ) (clockMs : ℤ) : Sender σ :=
  { host := Host.boot A config user clockMs, sent := [] }

/-- A dump ends with a configuration of well-formed ids. -/
def IdsDump (A : Application σ) (x : Node σ) : Prop :=
  ∀ m ∈ (x.dumpOutputs A).node.configState.oldMembers ++
    (x.dumpOutputs A).node.configState.newMembers, IdOk m

/-- The ids an act meets are well formed. -/
def IdsAct (A : Application σ) (s : Sender σ) : HostAct σ → Prop
  | .latch _ _ ms _ => ∀ m ∈ ms, m.kind = .requestVote → IdOk m.source
  | .dump => IdsDump A s.host.node
  | .crashInDump _ _ _ _ => IdsDump A s.host.node
  | .resetForJoin _ _ | .crashInReset _ _ _ => False
  | _ => True

instance (id : CString) : Decidable (IdOk id) :=
  decidable_of_iff
    (id ≠ [] ∧ id.length ≤ maxId - 1 ∧ (∀ c ∈ id, Text.isSpace c = false) ∧ id ≠ ['-'])
    ⟨fun h => ⟨h.1, h.2.1, h.2.2.1, h.2.2.2⟩,
      fun h => ⟨h.ne_nil, h.length_le, h.no_space, h.ne_dash⟩⟩

instance (A : Application σ) (x : Node σ) : Decidable (IdsDump A x) :=
  inferInstanceAs (Decidable (∀ m ∈ _, IdOk m))

instance (A : Application σ) (s : Sender σ) (act : HostAct σ) : Decidable (IdsAct A s act) :=
  match act with
  | .latch _ _ ms _ => inferInstanceAs (Decidable (∀ m ∈ ms, m.kind = .requestVote → IdOk m.source))
  | .dump | .crashInDump _ _ _ _ => inferInstanceAs (Decidable (IdsDump A s.host.node))
  | .resetForJoin _ _ | .crashInReset _ _ _ => inferInstanceAs (Decidable False)
  | .transition _ | .stop | .start _ | .request _ | .crash _ _ => inferInstanceAs (Decidable True)

/-- A granted vote. -/
def Message.Grants (m : Message) : Prop := m.kind = .requestVoteResponse ∧ m.granted = true

instance (m : Message) : Decidable m.Grants := inferInstanceAs (Decidable (_ ∧ _))

/-- **Grants of one term** go to one candidate. -/
def Sender.GrantsOnce (s : Sender σ) : Prop :=
  ∀ p ∈ s.sent, ∀ q ∈ s.sent, p.2.Grants → q.2.Grants → p.2.term = q.2.term →
    p.2.target = q.2.target

/-- A node that campaigned in a term grants no vote of that term, except to those in `E`. -/
def Sender.CandidateGrants (E : Set CString) (s : Sender σ) : Prop :=
  ∀ p ∈ s.sent, ∀ q ∈ s.sent, p.2.kind = .requestVote → q.2.Grants → p.2.term = q.2.term →
    q.2.target ∈ E

/-- **The terms of the node** do not decrease from one sent message to the next. -/
def Sender.TermsAscend (s : Sender σ) : Prop := (s.sent.map Prod.fst).Pairwise (· ≤ ·)

/-! ### Ballots of sent messages -/

lemma promise_of_grants {m : Message} (h : m.Grants) :
    m.promise = some (.grant m.source m.target m.term) := by
  rw [Message.promise, h.1, h.2]
  rfl

lemma promise_of_requestVote {m : Message} (h : m.kind = .requestVote) : m.promise =
    some (.voteReq m.source m.target m.term m.lastLogIndex.toNat m.lastLogTerm) := by
  rw [Message.promise, h]

/-! ### Terms on disk -/

/-- The stable term of a server never decreases. -/
lemma stableTerm_le_step {s s' : State CString ℤ LogEntry} {members : List CString} {mode : Mode}
    (hinv : BallotInv s) (hs : Step (params members) mode s s') (p : CString) :
    (s.srv p).stableTerm ≤ (s'.srv p).stableTerm := by
  have hput : ∀ (k : CString) (y : Server CString ℤ LogEntry),
      (s.srv k).stableTerm ≤ y.stableTerm → (s.srv p).stableTerm ≤ ((s.put k y).srv p).stableTerm := by
    intro k y hy
    by_cases hp : p = k
    · subst hp
      rw [State.put_self]
      exact hy
    · rw [State.put_ne s y hp]
  cases hs with
  | save k => exact hput k _ (hinv.law k).stable_le
  | apply k i e _ _ => exact le_rfl
  | observe k | stepDown k | clear k | campaign k | grant k | collect k | win k | append k
  | send k | accept k | record k | advance k | touch k | unsettle k | saveLog k | settle k
  | flush k | drop k | crash k | havocLog k | havocRole k => exact hput k _ le_rfl

lemma stableTerm_le_steps {s s' : State CString ℤ LogEntry} {members : List CString} {mode : Mode}
    (hinv : BallotInv s) (hs : Steps (params members) mode s s') (p : CString) :
    (s.srv p).stableTerm ≤ (s'.srv p).stableTerm := by
  have hboth : BallotInv s' ∧ (s.srv p).stableTerm ≤ (s'.srv p).stableTerm := by
    induction hs with
    | refl => exact ⟨hinv, le_rfl⟩
    | tail _ hstep ih =>
        exact ⟨ballotInv_step ih.1 hstep, ih.2.trans (stableTerm_le_step ih.1 hstep p)⟩
  exact hboth.2

lemma HostAt.ballots {members : List CString} {mode : Mode} (hat : HostAt members mode n a h) :
    BallotInv a := hat.node.inv.ballots

/-- The files are behind the node. -/
lemma HostAt.stored_le {members : List CString} {mode : Mode} (hat : HostAt members mode n a h) :
    h.disk.stored.term ≤ h.node.currentTerm := by
  have hle := (hat.ballots.law n).stable_le
  rw [hat.node.srv] at hle
  exact hle

lemma term_dumped (x : Node σ) : (x.dumped A).currentTerm = x.currentTerm := by
  have hcompact := still_maybeCompact (A := A) (x.commitAndApply A).1.maybeDriveMembership
  have hdrive := still_maybeDriveMembership (x.commitAndApply A).1
  have happly := calm_applyCommitted (A := A) x.advanced.toApplyCount x.advanced
  exact hcompact.term.trans (hdrive.term.trans (happly.term.trans (still_advanced x).term))

lemma running_of_sends (hs : (x.dumpOutputs A).sends ≠ []) : x.running = true := by
  cases hrun : x.running with
  | true => rfl
  | false =>
      rw [dumpOutputs_stopped hrun] at hs
      exact absurd rfl hs

/-- After a dump the files hold the term of the node. -/
lemma HostAt.stored_dump {members : List CString} {mode : Mode} (hat : HostAt members mode n a h)
    (hok : DumpOk mode A h.node) (hfit : (h.node.dumpOutputs A).node.Fits)
    (hrun : h.node.running = true) :
    (h.disk.writeAll (h.node.dumpOutputs A).writes).stored.term = h.node.currentTerm := by
  obtain ⟨a', -, hat'⟩ := hat.dump hok hfit
  have hclean := ((hat'.ballots.law n).clean (by
    rw [hat'.node.srv, dumpOutputs_eq hrun]
    rfl)).1
  rw [hat'.node.srv] at hclean
  have hterm : (h.node.dumpOutputs A).node.currentTerm = h.node.currentTerm := by
    rw [dumpOutputs_eq hrun]
    exact term_dumped h.node
  exact hclean.trans hterm

/-- **When a message leaves**, the files hold the term of the node. -/
lemma stored_of_send {members : List CString} (hat : HostAt members .ballots n a h)
    (hok : ActOk members .ballots A n a h act) (hexec : h.exec A act = some (h', effect))
    (hs : effect.sends ≠ []) : h'.disk.stored.term = h.node.currentTerm := by
  rw [Host.exec, Option.filter_eq_some_iff, decide_eq_true_eq] at hexec
  obtain ⟨hact, hfit⟩ := hexec
  cases act with
  | dump =>
      simp only [Host.act, Option.ite_none_right_eq_some, Option.some.injEq, Prod.mk.injEq] at hact
      obtain ⟨-, rfl, rfl⟩ := hact
      exact hat.stored_dump hok hfit (running_of_sends hs)
  | crashInDump i j user c =>
      simp only [Host.act, Option.ite_none_right_eq_some, Option.some.injEq, Prod.mk.injEq] at hact
      obtain ⟨⟨-, hfits⟩, rfl, rfl⟩ := hact
      by_cases hall : (h.node.dumpOutputs A).writes.length ≤ i
      · dsimp only at hs ⊢
        rw [if_pos hall] at hs
        rw [List.take_of_length_le hall]
        refine hat.stored_dump hok.2 hfits (running_of_sends (A := A) fun hnil => ?_)
        rw [hnil, List.take_nil] at hs
        exact absurd rfl hs
      · dsimp only at hs
        rw [if_neg hall] at hs
        exact absurd rfl hs
  | latch c s ms cs =>
      simp only [Host.act, Option.ite_none_right_eq_some, Option.some.injEq, Prod.mk.injEq] at hact
      obtain ⟨-, -, rfl⟩ := hact
      exact absurd rfl hs
  | transition c =>
      simp only [Host.act, Option.ite_none_right_eq_some, Option.some.injEq, Prod.mk.injEq] at hact
      obtain ⟨-, -, rfl⟩ := hact
      exact absurd rfl hs
  | stop =>
      simp only [Host.act, Option.ite_none_right_eq_some, Option.some.injEq, Prod.mk.injEq] at hact
      obtain ⟨-, -, rfl⟩ := hact
      exact absurd rfl hs
  | start c =>
      simp only [Host.act, Option.ite_none_right_eq_some, Option.some.injEq, Prod.mk.injEq] at hact
      obtain ⟨-, -, rfl⟩ := hact
      exact absurd rfl hs
  | request ms =>
      simp only [Host.act, Option.ite_none_right_eq_some, Option.some.injEq, Prod.mk.injEq] at hact
      obtain ⟨-, -, rfl⟩ := hact
      exact absurd rfl hs
  | resetForJoin c user => exact absurd hok id
  | crashInReset i user c => exact absurd hok id
  | crash user c =>
      simp only [Host.act, Option.some.injEq, Prod.mk.injEq] at hact
      obtain ⟨-, rfl⟩ := hact
      exact absurd rfl hs

/-! ### The invariant -/

/-- **The sender is a server of the protocol**: what it sent is on record there, and its files
hold no smaller term. -/
structure SenderAt (n : CString) (s : Sender σ) : Prop where
  host : ∃ a, HostAt [] .ballots n a s.host ∧ ∀ p ∈ s.sent, p.2.source = n ∧
    ∀ q, p.2.promise = some q → q ∈ a.sent
  stored : ∀ p ∈ s.sent, p.1 ≤ s.host.disk.stored.term
  ascend : s.TermsAscend

lemma actOk_of_idsAct {s : Sender σ} (hok : IdsAct A s act) :
    ActOk [] .ballots A n a s.host act := by
  cases act with
  | latch c sl ms cs => exact ⟨fun m hm => ⟨⟨nofun, nofun⟩, hok m hm⟩, nofun⟩
  | transition c => exact ⟨nofun, fun _ _ _ h => absurd h (by simp)⟩
  | dump => exact ⟨hok, nofun, nofun⟩
  | stop => trivial
  | start c => exact id
  | request ms => trivial
  | resetForJoin c user => exact hok
  | crashInReset i user c => exact hok
  | crash user c => exact id
  | crashInDump i j user c => exact ⟨id, hok, nofun, nofun⟩

/-- **Every act keeps the invariant.** -/
lemma senderAt_exec {s s' : Sender σ} (hs : SenderAt n s) (hok : IdsAct A s act)
    (hexec : s.exec A act = some s') : SenderAt n s' := by
  obtain ⟨⟨h, effect⟩, hhost, rfl⟩ := Option.map_eq_some_iff.mp hexec
  obtain ⟨⟨a, hat, hsent⟩, hstored, hascend⟩ := hs
  have hact : ActOk [] .ballots A n a s.host act := actOk_of_idsAct hok
  obtain ⟨a', hsim, hat'⟩ := hostAt_exec hat (by simp) hhost hact
  have hgrow : s.host.disk.stored.term ≤ h.disk.stored.term := by
    have hle := stableTerm_le_steps hat.ballots hsim.steps n
    rw [hat.node.srv, hat'.node.srv] at hle
    exact hle
  have hnow : ∀ m ∈ effect.sends, h.disk.stored.term = s.host.node.currentTerm :=
    fun m hm => stored_of_send hat hact hhost (List.ne_nil_of_mem hm)
  refine ⟨⟨a', hat', ?_⟩, ?_, ?_⟩
  · intro p hp
    rcases List.mem_append.mp hp with hp | hp
    · refine ⟨(hsent p hp).1, fun q hq => ?_⟩
      rw [hsim.sent]
      exact Or.inl ((hsent p hp).2 q hq)
    · obtain ⟨m, hm, rfl⟩ := List.mem_map.mp hp
      refine ⟨(hsim.sendOk m hm).source, fun q hq => ?_⟩
      rw [hsim.sent]
      exact Or.inr ⟨m, hm, hq⟩
  · intro p hp
    rcases List.mem_append.mp hp with hp | hp
    · exact (hstored p hp).trans hgrow
    · obtain ⟨m, hm, rfl⟩ := List.mem_map.mp hp
      exact (hnow m hm).ge
  · rw [Sender.TermsAscend, List.map_append, List.pairwise_append]
    refine ⟨hascend, ?_, ?_⟩
    · rw [List.map_map, List.pairwise_map]
      exact List.pairwise_of_forall fun _ _ => le_rfl
    · intro t ht t' ht'
      obtain ⟨p, hp, rfl⟩ := List.mem_map.mp ht
      obtain ⟨q, hq, rfl⟩ := List.mem_map.mp ht'
      obtain ⟨m, -, rfl⟩ := List.mem_map.mp hq
      exact (hstored p hp).trans hat.stored_le

lemma senderAt_boot {config : NodeConfig} (hl : config.learner = false) (hid : IdOk config.nodeId)
    (hpeers : ∀ p ∈ config.peers, IdOk p) (hinit : ∀ m ∈ config.initialMembers, IdOk m)
    (user : σ) (clockMs : ℤ) : SenderAt config.nodeId (Sender.boot A config user clockMs) := by
  have hconf : ConfigOk .ballots [] config :=
    ⟨hl, fun m hm => Or.inr (hinit m hm), fun _ => ⟨hid, hpeers⟩, nofun⟩
  have hfresh : Fresh ((Node.init A config Disk.empty user clockMs).view Disk.empty.stored false) := by
    obtain ⟨s, d, e, hi⟩ := init_eq (A := A) hl Disk.empty user clockMs
    obtain ⟨v, hloaded⟩ := loaded_empty (A := A) config user clockMs
    rw [hi, hloaded]
    exact ⟨rfl, rfl, rfl, rfl, rfl, rfl, rfl, rfl, rfl⟩
  have hinv : ModeInv (params []) .ballots (State.fresh fun _ : CString =>
      (Node.init A config Disk.empty user clockMs).view Disk.empty.stored false) :=
    modeInv_fresh fun _ => hfresh
  obtain ⟨hok, -, -, -, hout⟩ := nodeOk_init (A := A) (S := ∅) rfl hid.length_lt hconf diskOk_empty
    user clockMs nofun
  have hat : HostAt [] .ballots config.nodeId (State.fresh fun _ : CString =>
      (Node.init A config Disk.empty user clockMs).view Disk.empty.stored false)
      (Host.boot A config user clockMs) :=
    ⟨⟨hinv, rfl, rfl, hok⟩, rfl, hconf, fun _ => hout, diskOk_empty⟩
  exact
    { host := ⟨_, hat, fun p hp => absurd hp List.not_mem_nil⟩
      stored := fun p hp => absurd hp List.not_mem_nil
      ascend := List.Pairwise.nil }

/-- What the ballots say about the messages that were sent. -/
lemma SenderAt.grants {s : Sender σ} (hs : SenderAt n s) :
    s.GrantsOnce ∧ s.CandidateGrants {n} := by
  obtain ⟨a, hat, hsent⟩ := hs.host
  constructor
  · intro p hp q hq hpg hqg hterm
    obtain ⟨hps, hpm⟩ := hsent p hp
    obtain ⟨hqs, hqm⟩ := hsent q hq
    refine hat.ballots.sent_unique (hpm _ (promise_of_grants hpg)) (hqm _ (promise_of_grants hqg))
      (v := n) (t := p.2.term) ?_ ?_
    · rw [Msg.ballot, hps]
    · rw [Msg.ballot, hqs, hterm]
  · intro p hp q hq hpr hqg hterm
    obtain ⟨hps, hpm⟩ := hsent p hp
    obtain ⟨hqs, hqm⟩ := hsent q hq
    refine (hat.ballots.sent_unique (hpm _ (promise_of_requestVote hpr))
      (hqm _ (promise_of_grants hqg)) (v := n) (t := p.2.term) (c := n) ?_ ?_).symm
    · rw [Msg.ballot, hps]
    · rw [Msg.ballot, hqs, hterm]

/-- **Votes over a whole run.** -/
theorem votes_unique {config : NodeConfig} (hl : config.learner = false) (hid : IdOk config.nodeId)
    (hpeers : ∀ p ∈ config.peers, IdOk p) (hinit : ∀ m ∈ config.initialMembers, IdOk m)
    (user : σ) (clockMs : ℤ) {s : Sender σ}
    (hrun : Run (Sender.exec A) (IdsAct A) (Sender.boot A config user clockMs) s) :
    s.GrantsOnce ∧ s.CandidateGrants {config.nodeId} ∧ s.TermsAscend := by
  have hs : SenderAt config.nodeId s := hrun.invariant
    (fun _ _ _ hs hok hexec => senderAt_exec hs hok hexec)
    (senderAt_boot hl hid hpeers hinit user clockMs)
  exact ⟨hs.grants.1, hs.grants.2, hs.ascend⟩

/-! ### A request in the node's own name -/

/-- A whole tick. -/
def ownTick (clockMs : ℤ) (ms : List Message) : List (HostAct Unit) :=
  [.latch clockMs (fun _ => ⟨0, 0, [], ⟨[], [], []⟩⟩) ms [], .transition clockMs, .dump]

/-- The candidate of term 1 crashes, refuses a vote of term 1 and grants one of term 2. -/
def campaignThenCrash : List (HostAct Unit) :=
  ownTick 1 [] ++ [.crash () 1] ++ ownTick 1 [voteRequest n3 n1 1 0 0] ++
    ownTick 1 [voteRequest n3 n1 2 0 0]

lemma idOk_config : (threeConfig n1).learner = false ∧ IdOk (threeConfig n1).nodeId ∧
    (∀ p ∈ (threeConfig n1).peers, IdOk p) ∧ ∀ m ∈ (threeConfig n1).initialMembers, IdOk m :=
  ⟨rfl, idOk_three n1 List.mem_cons_self, fun _ hp => absurd hp List.not_mem_nil, idOk_three⟩

/-- A run with a candidacy, a crash and a grant. -/
theorem votes_unique_crashed : ∃ s, Run (Sender.exec silent) (IdsAct silent)
    (Sender.boot silent (threeConfig n1) () 0) s ∧
    (s.sent.any fun p => decide (p.2.kind = .requestVote)) = true ∧
    (s.sent.any fun p => decide p.2.Grants) = true ∧
    s.GrantsOnce ∧ s.CandidateGrants {n1} ∧ s.TermsAscend := by
  have hexec : (execAll (Sender.exec silent) (fun s a => decide (IdsAct silent s a))
      (Sender.boot silent (threeConfig n1) () 0) campaignThenCrash).any (fun s =>
        s.sent.any (fun p => decide (p.2.kind = .requestVote)) &&
          s.sent.any fun p => decide p.2.Grants) = true := by
    decide +kernel
  obtain ⟨s, hrun, hs⟩ := Run.exists_of_execAll hexec
  have hrun' : Run (Sender.exec silent) (IdsAct silent)
      (Sender.boot silent (threeConfig n1) () 0) s := hrun.mono fun _ _ => of_decide_eq_true
  rw [Bool.and_eq_true] at hs
  obtain ⟨hl, hid, hpeers, hinit⟩ := idOk_config
  exact ⟨s, hrun', hs.1, hs.2, votes_unique hl hid hpeers hinit () 0 hrun'⟩

/-- **A candidate grants a vote to itself** when it reads a request in its own name. -/
theorem votes_for_itself : ¬ ∀ s, Run (Sender.exec silent) (IdsAct silent)
    (Sender.boot silent (threeConfig n1) () 0) s →
      s.GrantsOnce ∧ s.CandidateGrants ∅ ∧ s.TermsAscend := by
  intro hclaim
  have hexec : (execAll (Sender.exec silent) (fun s a => decide (IdsAct silent s a))
      (Sender.boot silent (threeConfig n1) () 0)
      (ownTick 1 [] ++ ownTick 1 [voteRequest n1 n1 1 0 0])).any (fun s =>
        s.sent.any fun p => s.sent.any fun q => decide (p.2.kind = .requestVote ∧ q.2.Grants ∧
          p.2.term = q.2.term)) = true := by
    decide +kernel
  obtain ⟨s, hrun, hs⟩ := Run.exists_of_execAll hexec
  have hrun' : Run (Sender.exec silent) (IdsAct silent)
      (Sender.boot silent (threeConfig n1) () 0) s := hrun.mono fun _ _ => of_decide_eq_true
  obtain ⟨p, hp, hpq⟩ := List.any_eq_true.mp hs
  obtain ⟨q, hq, hboth⟩ := List.any_eq_true.mp hpq
  obtain ⟨hreq, hgrant, hterm⟩ := of_decide_eq_true hboth
  exact (hclaim s hrun').2.1 p hp q hq hreq hgrant hterm

end RaftRx.C
