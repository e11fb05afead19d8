import RaftRx.Protocol.Commit

/-!
Local moves: sequences of steps of one server between two messages it sends.

An implementation is compared with the protocol one function at a time.  Each function is a move
of one server that leaves the other servers, the network and the applied entries alone.

* `ModeInv`: the invariant that belongs to a mode, kept by every step of the mode;
* `Local`, `Moves`: sequences of steps of one server, and the servers it can become;
* `moves_observe` .. `moves_havoc`: the moves, each for a server given as a record;
* `Sends`: queued messages leave.
-/

set_option linter.unusedSectionVars false

namespace RaftRx.Protocol

variable {N T E : Type*} [DecidableEq N] [LinearOrder T] [Zero T]

/-! ### The invariant of a mode -/

/-- The invariant of the mode. -/
def ModeInv (P : Params N T E) (mode : Mode) (s : State N T E) : Prop :=
  match mode with
  | .ballots => BallotInv s
  | .election => ElectionInv P s
  | .logs => LogInv P s
  | .commits => CommitInv P s

variable {P : Params N T E} {mode : Mode} {s s' a a' a'' : State N T E} {n : N}

lemma modeInv_step (h : ModeInv P mode s) (hs : Step P mode s s') : ModeInv P mode s' := by
  cases mode with
  | ballots => exact ballotInv_step h hs
  | election => exact electionInv_step (show Mode.election.elects from trivial) h hs
  | logs => exact logInv_step (show Mode.logs.keepsLogs from trivial) h hs
  | commits => exact commitInv_step h hs

lemma modeInv_steps (h : ModeInv P mode s) (hs : Steps P mode s s') : ModeInv P mode s' := by
  induction hs with
  | refl => exact h
  | tail _ hst ih => exact modeInv_step ih hst

lemma ModeInv.logs (h : ModeInv P mode s) (hm : mode.keepsLogs) : LogInv P s := by
  cases mode with
  | ballots => exact absurd hm id
  | election => exact absurd hm id
  | logs => exact h
  | commits => exact CommitInv.logs h

lemma ModeInv.election (h : ModeInv P mode s) (hm : mode.elects) : ElectionInv P s := by
  cases mode with
  | ballots => exact absurd hm id
  | election => exact h
  | logs => exact LogInv.election h
  | commits => exact (CommitInv.logs h).election

lemma ModeInv.ballots (h : ModeInv P mode s) : BallotInv s := by
  cases mode with
  | ballots => exact h
  | election => exact ElectionInv.ballots h
  | logs => exact (LogInv.election h).ballots
  | commits => exact (CommitInv.logs h).election.ballots

/-! ### Fresh states -/

/-- A server that has done nothing. -/
structure Fresh (x : Server N T E) : Prop where
  term : x.term = 0
  vote : x.vote = none
  role : x.role = .follower
  log : x.log = []
  commit : x.commit = 0
  outbox : x.outbox = []
  stableTerm : x.stableTerm = 0
  stableVote : x.stableVote = none
  stableLog : x.stableLog = []

/-- Nothing is recorded. -/
def History.empty : History N T E :=
  { ballot := fun _ _ => none, led := fun _ => none, leaderLog := fun _ => []
    candLog := fun _ _ => none, acked := fun _ _ _ => False }

/-- A state in which nothing has happened. -/
def State.fresh (srv : N → Server N T E) : State N T E :=
  { srv := srv, sent := ∅, applied := ∅, hist := History.empty }

variable {srv : N → Server N T E}

lemma ballotInv_fresh (h : ∀ n, Fresh (srv n)) : BallotInv (State.fresh srv) where
  law := fun n =>
    { zero_le := by rw [State.fresh, (h n).stableTerm]
      recorded := fun t c hb => absurd hb (by simp [State.fresh, History.empty])
      stable_le := by rw [State.fresh, (h n).stableTerm, (h n).term]
      volatile := fun _ c hc => by
        rw [State.fresh, (h n).stableVote] at hc
        exact absurd hc (by simp)
      clean := fun _ => by
        rw [State.fresh, (h n).stableTerm, (h n).term, (h n).stableVote, (h n).vote]
        exact ⟨rfl, rfl⟩
      queued := fun m hm => by
        rw [State.fresh, (h n).outbox] at hm
        exact absurd hm List.not_mem_nil
      queued_unique := fun m hm => by
        rw [State.fresh, (h n).outbox] at hm
        exact absurd hm List.not_mem_nil }
  sent := fun _ hm => absurd hm (Set.notMem_empty _)

lemma electionInv_fresh (h : ∀ n, Fresh (srv n)) : ElectionInv P (State.fresh srv) where
  ballots := ballotInv_fresh h
  law := fun n =>
    { vote_self := fun hr => absurd ((h n).role.symm.trans hr) (by simp)
      votes := fun hr => absurd ((h n).role.symm.trans hr) (by simp)
      settled := fun hr => absurd ((h n).role.symm.trans hr) (by simp)
      leader := fun hr => absurd ((h n).role.symm.trans hr) (by simp)
      past := fun t ht => absurd ht (by simp [State.fresh, History.empty]) }
  elected := fun t n ht => absurd ht (by simp [State.fresh, History.empty])

lemma logInv_fresh (h : ∀ n, Fresh (srv n)) : LogInv P (State.fresh srv) where
  election := electionInv_fresh h
  leaders :=
    { coherent := fun _ => Coherent.nil
      index := fun _ _ _ he => absurd he (by simp [State.fresh, History.empty])
      nonneg := fun _ _ he => absurd he List.not_mem_nil
      bounded := fun _ _ he => absurd he List.not_mem_nil
      unled := fun _ _ => rfl }
  law := fun n =>
    { log := by rw [State.fresh, (h n).log]; exact Coherent.nil
      stableLog := by rw [State.fresh, (h n).stableLog]; exact Coherent.nil
      log_le := by rw [State.fresh, (h n).log]; exact fun _ he => absurd he List.not_mem_nil
      stable_le := by
        rw [State.fresh, (h n).stableLog]
        exact fun _ he => absurd he List.not_mem_nil
      leader := fun hr => absurd ((h n).role.symm.trans hr) (by simp)
      queued := by rw [State.fresh, (h n).outbox]; exact fun _ hm => absurd hm List.not_mem_nil }
  sent := fun _ hm => absurd hm (Set.notMem_empty _)

lemma commitInv_fresh (h : ∀ n, Fresh (srv n)) : CommitInv P (State.fresh srv) where
  logs := logInv_fresh h
  acked_in := fun _ _ _ hk => absurd hk id
  acked_down := fun _ _ _ _ hk => absurd hk id
  held := fun _ _ _ hk => absurd hk id
  complete := fun _ t' _ _ hled => absurd rfl hled
  campaigned := fun _ _ _ hc => absurd hc (by simp [State.fresh, History.empty])
  recorded := fun _ _ _ hb => absurd hb (by simp [State.fresh, History.empty])
  law := fun n =>
    { own_log := fun hr => absurd ((h n).role.symm.trans hr) (by simp)
      matched := fun hr => absurd ((h n).role.symm.trans hr) (by simp)
      candidate := fun hr => absurd ((h n).role.symm.trans hr) (by simp)
      vote := fun c hc => absurd ((h n).vote.symm.trans hc) (by simp)
      queued := by rw [State.fresh, (h n).outbox]; exact fun _ hm => absurd hm List.not_mem_nil
      ballots := by rw [State.fresh, (h n).outbox]; exact fun _ hm => absurd hm List.not_mem_nil
      commit_le := by rw [State.fresh, (h n).commit]; exact Nat.zero_le _
      committed := by
        rw [State.fresh, (h n).commit, List.take_zero]
        exact Or.inl rfl }
  sent := fun _ hm => absurd hm (Set.notMem_empty _)
  applied := fun _ _ _ hm => absurd hm (Set.notMem_empty _)

/-- **A fresh state satisfies the invariant of every mode.** -/
theorem modeInv_fresh (h : ∀ n, Fresh (srv n)) : ModeInv P mode (State.fresh srv) := by
  cases mode with
  | ballots => exact ballotInv_fresh h
  | election => exact electionInv_fresh h
  | logs => exact logInv_fresh h
  | commits => exact commitInv_fresh h

/-! ### Local moves -/

/-- Steps of the server `n` that send and apply nothing. -/
structure Local (P : Params N T E) (mode : Mode) (n : N) (a a' : State N T E) : Prop where
  steps : Steps P mode a a'
  others : ∀ p, p ≠ n → a'.srv p = a.srv p
  sent : a'.sent = a.sent
  applied : a'.applied = a.applied

lemma Local.refl (a : State N T E) : Local P mode n a a :=
  ⟨Relation.ReflTransGen.refl, fun _ _ => rfl, rfl, rfl⟩

lemma Local.trans (h : Local P mode n a a') (h' : Local P mode n a' a'') :
    Local P mode n a a'' where
  steps := Relation.ReflTransGen.trans h.steps h'.steps
  others := fun p hp => (h'.others p hp).trans (h.others p hp)
  sent := h'.sent.trans h.sent
  applied := h'.applied.trans h.applied

lemma Local.inv (h : Local P mode n a a') (hinv : ModeInv P mode a) : ModeInv P mode a' :=
  modeInv_steps hinv h.steps

/-- The server `n` can become `y`. -/
def Moves (P : Params N T E) (mode : Mode) (a : State N T E) (n : N) (y : Server N T E) : Prop :=
  ∃ a', Local P mode n a a' ∧ a'.srv n = y

variable {x y z : Server N T E}

lemma Moves.refl (hx : a.srv n = x) : Moves P mode a n x := ⟨a, Local.refl a, hx⟩

lemma Moves.bind (h : Moves P mode a n y)
    (h' : ∀ a', Local P mode n a a' → a'.srv n = y → Moves P mode a' n z) :
    Moves P mode a n z := by
  obtain ⟨a', hl, hy⟩ := h
  obtain ⟨a'', hl', hz⟩ := h' a' hl hy
  exact ⟨a'', hl.trans hl', hz⟩

/-- One step that replaces the server and may add to the records. -/
lemma moves_of_step {g : History N T E} (h : Step P mode a { a.put n y with hist := g }) :
    Moves P mode a n y :=
  ⟨_, ⟨Relation.ReflTransGen.single h, fun _ hp => State.put_ne a y hp, rfl, rfl⟩,
    State.put_self a n y⟩

lemma moves_observe (hx : a.srv n = x) {t : T} (ht : x.term < t) :
    Moves P mode a n { x with term := t, vote := none, role := .follower, dirty := true } := by
  subst hx
  exact moves_of_step (g := a.hist) (Step.observe n t ht)

lemma moves_stepDown (hx : a.srv n = x) : Moves P mode a n { x with role := .follower } := by
  subst hx
  exact moves_of_step (g := a.hist) (Step.stepDown n)

lemma moves_clear (hx : a.srv n = x) (V : Set N) (μ : N → ℕ)
    (hV : x.role = .candidate → V = x.votes) (hμ : x.role = .leader → μ = x.matched) :
    Moves P mode a n { x with votes := V, matched := μ } := by
  subst hx
  exact moves_of_step (g := a.hist) (Step.clear n V μ hV hμ)

lemma moves_campaign (hx : a.srv n = x) {t : T} {reqs : List (Msg N T E)} (ht : x.term < t)
    (hreqs : ∀ m ∈ reqs, ∃ p li lt, m = .voteReq n p t li lt ∧
      (mode.keepsLogs → li = x.log.length ∧ lt = lastTerm P.termOf x.log)) :
    Moves P mode a n
      { x with
        term := t, vote := some n, role := .candidate, votes := {n}
        dirty := true, unsettled := true, outbox := x.outbox ++ reqs } := by
  subst hx
  exact moves_of_step (Step.campaign n t reqs ht hreqs)

lemma moves_grant (hx : a.srv n = x) {c : N} {li : ℕ} {lt : T}
    (hheard : Heard mode a (.voteReq c n x.term li lt)) (hv : x.vote = none ∨ x.vote = some c)
    (hup : mode.keepsLogs → UpToDate P.termOf li lt x.log) :
    Moves P mode a n
      { x with vote := some c, dirty := true, outbox := x.outbox ++ [.grant n c x.term] } := by
  subst hx
  exact moves_of_step (g := a.hist) (Step.grant n c li lt hheard hv hup)

lemma moves_collect (hx : a.srv n = x) {v : N} (hr : x.role = .candidate)
    (hheard : Heard mode a (.grant v n x.term)) :
    Moves P mode a n { x with votes := insert v x.votes } := by
  subst hx
  exact moves_of_step (g := a.hist) (Step.collect n v hr hheard)

/-- A candidate whose candidacy is settled wins with a majority. -/
lemma moves_win (hinv : ElectionInv P a) (hx : a.srv n = x) (hr : x.role = .candidate)
    (hu : x.unsettled = false) (hm : Majority P.members x.votes) :
    Moves P mode a n { x with role := .leader, matched := fun _ => 0 } := by
  subst hx
  obtain ⟨hst, hsv⟩ := (hinv.law n).settled hr hu
  exact moves_of_step (Step.win n hr hst hsv hm)

lemma moves_append (hx : a.srv n = x) {e : E} (hr : x.role = .leader) (ht : P.termOf e = x.term)
    (hi : P.indexOf e = x.log.length + 1) :
    Moves P mode a n { x with log := x.log ++ [e], dirty := true } := by
  subst hx
  exact moves_of_step (Step.append n e hr ht hi)

lemma moves_send (hx : a.srv n = x) {p : N} {prev : ℕ} {es : List E} {c : ℕ}
    (hr : x.role = .leader) (hprev : prev ≤ x.log.length) (hes : es <+: x.log.drop prev)
    (hc : c ≤ x.commit) :
    Moves P mode a n
      { x with
        outbox := x.outbox ++ [.append n p x.term prev (termAt P.termOf x.log prev) es c] } := by
  subst hx
  exact moves_of_step (g := a.hist) (Step.send n p prev es c hr hprev hes hc)

lemma moves_accept (hx : a.srv n = x) {src : N} {prev : ℕ} {pt : T} {es L : List E} {lc c : ℕ}
    {d : Bool} (hheard : Heard mode a (.append src n x.term prev pt es lc))
    (hr : x.role = .follower) (hprev : prev ≤ x.log.length)
    (hpt : termAt P.termOf x.log prev = pt) (hmerge : Merge P.termOf x.log prev es L)
    (hcL : c ≤ L.length) (hc : c ≤ max x.commit lc) (hd : x.dirty = true → d = true)
    (hcov : mode = .commits → Covered P a src x.term (prev + es.length) L) :
    Moves P mode a n
      { x with
        log := L, commit := c, dirty := d
        outbox := x.outbox ++ [.ack n src x.term L.length] } := by
  subst hx
  exact moves_of_step (Step.accept n src prev pt es L lc c d hheard hr hprev hpt hmerge hcL hc hd
    hcov)

lemma moves_record (hx : a.srv n = x) {p : N} {k : ℕ} (hr : x.role = .leader)
    (hheard : Heard mode a (.ack p n x.term k)) :
    Moves P mode a n { x with matched := Function.update x.matched p k } := by
  subst hx
  exact moves_of_step (g := a.hist) (Step.record n p k hr hheard)

lemma moves_advance (hx : a.srv n = x) {k : ℕ} (hr : x.role = .leader) (hpos : 0 < k)
    (hk : k ≤ x.log.length) (ht : termAt P.termOf x.log k = x.term)
    (hm : Majority P.members {p | p = n ∨ (p ≠ n ∧ k ≤ x.matched p)}) :
    Moves P mode a n { x with commit := k, dirty := true } := by
  subst hx
  exact moves_of_step (g := a.hist) (Step.advance n k hr hpos hk ht hm)

lemma moves_touch (hx : a.srv n = x) {d : Bool} (hd : x.dirty = true → d = true) :
    Moves P mode a n { x with dirty := d } := by
  subst hx
  cases d with
  | true => exact moves_of_step (g := a.hist) (Step.touch n)
  | false =>
      refine Moves.refl ?_
      cases hdirty : (a.srv n).dirty with
      | true => exact absurd (hd hdirty) (by simp)
      | false => rw [← hdirty]

lemma moves_unsettle (hx : a.srv n = x) : Moves P mode a n { x with unsettled := true } := by
  subst hx
  exact moves_of_step (g := a.hist) (Step.unsettle n)

lemma moves_save (hx : a.srv n = x) :
    Moves P mode a n { x with stableTerm := x.term, stableVote := x.vote, dirty := false } := by
  subst hx
  exact moves_of_step (g := a.hist) (Step.save n)

lemma moves_saveLog (hx : a.srv n = x) (hst : x.stableTerm = x.term) :
    Moves P mode a n { x with stableLog := x.log } := by
  subst hx
  exact moves_of_step (g := a.hist) (Step.saveLog n hst)

/-- A clean server settles. -/
lemma moves_settle (hinv : BallotInv a) (hx : a.srv n = x) (hd : x.dirty = false) :
    Moves P mode a n { x with unsettled := false } := by
  subst hx
  obtain ⟨hst, hsv⟩ := (hinv.law n).clean hd
  exact moves_of_step (g := a.hist) (Step.settle n hst hsv)

lemma moves_drop (hx : a.srv n = x) {out : List (Msg N T E)} (h : out.Sublist x.outbox) :
    Moves P mode a n { x with outbox := out } := by
  subst hx
  exact moves_of_step (g := a.hist) (Step.drop n out h)

lemma moves_crash (hx : a.srv n = x) (V : Set N) (μ : N → ℕ) (c : ℕ) (d u : Bool)
    (hm : mode ≠ .commits) :
    Moves P mode a n
      { x with
        term := x.stableTerm, vote := x.stableVote, role := .follower
        votes := V, log := x.stableLog, matched := μ, commit := c
        outbox := [], dirty := d, unsettled := u } := by
  subst hx
  exact moves_of_step (g := a.hist) (Step.crash n V μ c d u hm)

/-- Logs are arbitrary in the modes that do not keep them. -/
lemma moves_havocLog (hx : a.srv n = x) (L : List E) (μ : N → ℕ) (c : ℕ)
    {ms : List (Msg N T E)} {d : Bool} (hm : ¬ mode.keepsLogs) (hms : ∀ m ∈ ms, m.ballot = none)
    (hd : x.dirty = true → d = true) :
    Moves P mode a n
      { x with log := L, matched := μ, commit := c, outbox := x.outbox ++ ms, dirty := d } := by
  subst hx
  refine Moves.bind (moves_of_step (g := a.hist) (Step.havocLog n L μ c ms hm hms)) ?_
  intro a' _ hy
  exact moves_touch hy hd

/-- Roles are arbitrary in the modes that do not elect. -/
lemma moves_havocRole (hx : a.srv n = x) (r : Role) (V : Set N) (u : Bool) (hm : ¬ mode.elects) :
    Moves P mode a n { x with role := r, votes := V, unsettled := u } := by
  subst hx
  exact moves_of_step (g := a.hist) (Step.havocRole n r V u hm)

/-! ### Sending and applying -/

/-- The first messages of a clean server's queue leave. -/
lemma sends_of_clean (P : Params N T E) (mode : Mode) (ms : List (Msg N T E)) :
    ∀ {a : State N T E} {x : Server N T E} {rest : List (Msg N T E)}, BallotInv a →
      a.srv n = x → x.dirty = false → x.outbox = ms ++ rest →
      ∃ a', Steps P mode a a' ∧ (∀ p, p ≠ n → a'.srv p = a.srv p) ∧
        a'.srv n = { x with outbox := rest } ∧ a'.sent = a.sent ∪ {m | m ∈ ms} ∧
        a'.applied = a.applied := by
  induction ms with
  | nil =>
      intro a x rest _ hx _ hout
      refine ⟨a, Relation.ReflTransGen.refl, fun _ _ => rfl, ?_, by simp, rfl⟩
      rw [hx, ← show x.outbox = rest from by simpa using hout]
  | cons m ms ih =>
      intro a x rest hinv hx hd hout
      subst hx
      obtain ⟨hst, hsv⟩ := (hinv.law n).clean hd
      have hstep : Step P mode a _ := Step.flush n m (ms ++ rest) hout hst hsv
      obtain ⟨a', hsteps, hothers, hself, hsent, happ⟩ :=
        ih (ballotInv_step hinv hstep) (State.put_self _ n _) hd rfl
      refine ⟨a', Relation.ReflTransGen.head hstep hsteps, fun p hp => ?_, hself, ?_, happ⟩
      · rw [hothers p hp]
        exact State.put_ne _ _ hp
      · rw [hsent]
        ext m'
        simp only [Set.mem_union, Set.mem_insert_iff, Set.mem_ofPred_eq, List.mem_cons]
        tauto

/-- Applying one committed entry. -/
lemma steps_apply {k : ℕ} {e : E} (hk : k < (a.srv n).commit) (he : (a.srv n).log[k]? = some e) :
    Steps P mode a { a with applied := insert (n, k, e) a.applied } :=
  Relation.ReflTransGen.single (Step.apply n k e hk he)

end RaftRx.Protocol
