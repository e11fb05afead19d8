import RaftRx.Protocol.Ballots

/-!
Election safety: a term has one winner, for ever.

* `ballot_mono`: a recorded ballot is never overwritten by another one;
* `ElectionLaw g n x`: a candidate's votes are ballots for it, a settled candidacy is stable, a
  leader is the winner of its term, and a winner never campaigns in its term again;
* `ElectionInv`, `electionInv_step`: the invariant and its preservation in every mode that
  elects;
* `led_mono`: the winner of a term stays its winner;
* `election_safety`: leaders of one term, at any two moments of a run, are one server.
-/

set_option linter.unusedSectionVars false

namespace RaftRx.Protocol

variable {N T E : Type*} [DecidableEq N] [LinearOrder T] [Zero T]

/-! ### Records grow -/

@[simp] lemma History.campaign_led (g : History N T E) (n : N) (t : T) (L : List E) :
    (g.campaign n t L).led = g.led := rfl

@[simp] lemma History.hold_led (g : History N T E) (n : N) (t : T) (k : ℕ) :
    (g.hold n t k).led = g.led := rfl

@[simp] lemma History.cast_led (g : History N T E) (m : Msg N T E) : (g.cast m).led = g.led := by
  unfold History.cast
  split <;> rfl

@[simp] lemma History.lead_led (g : History N T E) (n : N) (t : T) (L : List E) :
    (g.lead n t L).led = Function.update g.led t (some n) := rfl

/-- Recording a ballot that agrees with the record only adds to it. -/
lemma History.cast_mono {g : History N T E} {m : Msg N T E}
    (h : ∀ v t c, m.ballot = some (v, t, c) → ∀ c', g.ballot v t = some c' → c' = c)
    {v : N} {t : T} {c : N} (hb : g.ballot v t = some c) : (g.cast m).ballot v t = some c := by
  cases hm : m.ballot with
  | none => rw [History.cast_of_none hm]; exact hb
  | some b =>
      obtain ⟨v', t', c'⟩ := b
      rw [History.cast_ballot hm]
      split
      · rename_i heq
        obtain ⟨rfl, rfl⟩ := heq
        rw [h _ _ _ hm c hb]
      · exact hb

/-- **A recorded ballot stays.** -/
lemma ballot_mono {s s' : State N T E} {P : Params N T E} {mode : Mode} (h : BallotInv s)
    (hs : Step P mode s s') {v : N} {t : T} {c : N} (hb : s.hist.ballot v t = some c) :
    s'.hist.ballot v t = some c := by
  cases hs with
  | win n _ hst hsv _ =>
      have hlaw := h.law n
      refine History.cast_mono (m := .grant n n (s.srv n).term) (fun v t c hm c' hc' => ?_) hb
      simp only [Msg.ballot, Option.some.injEq, Prod.mk.injEq] at hm
      obtain ⟨rfl, rfl, rfl⟩ := hm
      have := hlaw.recorded_current hc'
      rw [hlaw.volatile hst _ hsv] at this
      exact (Option.some.inj this).symm
  | flush n m rest hout hst hsv =>
      have hmem : m ∈ (s.srv n).outbox := by rw [hout]; exact List.mem_cons_self
      refine History.cast_mono (fun v t c hm c' hc' => ?_) hb
      obtain ⟨rfl, -, -, hrec⟩ := (h.law n).queued m hmem v t c hm
      exact hrec c' hc'
  | _ => exact hb

/-! ### The law of one server -/

/-- **The election law of a server.** -/
structure ElectionLaw (g : History N T E) (n : N) (x : Server N T E) : Prop where
  vote_self : x.role = .candidate → x.vote = some n
  votes : x.role = .candidate → ∀ v ∈ x.votes, v = n ∨ g.ballot v x.term = some n
  settled : x.role = .candidate → x.unsettled = false →
    x.stableTerm = x.term ∧ x.stableVote = some n
  leader : x.role = .leader → g.led x.term = some n
  past : ∀ t, g.led t = some n → t ≤ x.stableTerm ∧ (t = x.term → x.role ≠ .candidate)

namespace ElectionLaw

variable {g g' : History N T E} {n : N} {x x' : Server N T E}

/-- The law survives new ballots and wins of other servers. -/
lemma mono (h : ElectionLaw g n x) (hb : ∀ v t c, g.ballot v t = some c → g'.ballot v t = some c)
    (hled : ∀ t, g.led t = some n → g'.led t = some n)
    (hled' : ∀ t, g'.led t = some n → g.led t = some n) : ElectionLaw g' n x where
  vote_self := h.vote_self
  votes := fun hr v hv => (h.votes hr v hv).imp_right (hb v x.term n)
  settled := h.settled
  leader := fun hr => hled _ (h.leader hr)
  past := fun t ht => h.past t (hled' t ht)

/-- A step that keeps role, term, vote, votes and stable copies. -/
lemma frame (h : ElectionLaw g n x) (hr : x'.role = x.role) (ht : x'.term = x.term)
    (hv : x'.vote = x.vote) (hvs : x'.votes = x.votes) (hst : x'.stableTerm = x.stableTerm)
    (hsv : x'.stableVote = x.stableVote) (hu : x'.unsettled = false → x.unsettled = false) :
    ElectionLaw g n x' where
  vote_self := by rw [hr, hv]; exact h.vote_self
  votes := by rw [hr, hvs, ht]; exact h.votes
  settled := by rw [hr, hst, ht, hsv]; exact fun hc hf => h.settled hc (hu hf)
  leader := by rw [hr, ht]; exact h.leader
  past := by rw [hst, ht, hr]; exact h.past

/-- A follower with the same stable term obeys the law. -/
lemma follower (h : ElectionLaw g n x) (hr : x'.role = .follower)
    (hst : x.stableTerm ≤ x'.stableTerm) : ElectionLaw g n x' where
  vote_self := by rw [hr]; simp
  votes := by rw [hr]; simp
  settled := by rw [hr]; simp
  leader := by rw [hr]; simp
  past := fun t ht => ⟨(h.past t ht).1.trans hst, fun _ => by rw [hr]; simp⟩

end ElectionLaw

/-! ### The invariant -/

/-- **The election invariant.** -/
structure ElectionInv (P : Params N T E) (s : State N T E) : Prop where
  ballots : BallotInv s
  law : ∀ n, ElectionLaw s.hist n (s.srv n)
  elected : ∀ t n, s.hist.led t = some n → Majority P.members {v | s.hist.ballot v t = some n}

namespace ElectionInv

variable {s s' : State N T E} {P : Params N T E} {mode : Mode}

/-- The votes of a candidate whose own vote is stable are ballots once the win is recorded. -/
lemma votes_ballot (h : ElectionInv P s) {n : N} (hr : (s.srv n).role = .candidate)
    (hm : Majority P.members (s.srv n).votes) :
    Majority P.members
      {v | (s.hist.cast (.grant n n (s.srv n).term)).ballot v (s.srv n).term = some n} := by
  refine hm.mono fun v _ hv => ?_
  rw [Set.mem_ofPred_eq, History.cast_ballot (v := n) (t := (s.srv n).term) (c := n) rfl]
  rcases (h.law n).votes hr v hv with rfl | hb
  · rw [if_pos ⟨rfl, rfl⟩]
  · split
    · rfl
    · exact hb

/-- **Nobody has won the term of a candidate that has a majority.** -/
lemma led_none_of_win (h : ElectionInv P s) {n : N} (hr : (s.srv n).role = .candidate)
    (hst : (s.srv n).stableTerm = (s.srv n).term) (hsv : (s.srv n).stableVote = some n)
    (hm : Majority P.members (s.srv n).votes) : s.hist.led (s.srv n).term = none := by
  by_contra hne
  obtain ⟨c, hc⟩ := Option.ne_none_iff_exists'.mp hne
  obtain ⟨v, -, h1, h2⟩ := (h.elected _ c hc).inter hm
  rw [Set.mem_ofPred_eq] at h1
  have hcn : c = n := by
    rcases (h.law n).votes hr v h2 with rfl | hb
    · have hcur := (h.ballots.law v).recorded_current h1
      rw [(h.law v).vote_self hr] at hcur
      exact (Option.some.inj hcur).symm
    · rw [h1] at hb
      exact Option.some.inj hb
  subst hcn
  exact ((h.law c).past _ hc).2 rfl hr

/-- A step of one server that records no win. -/
lemma put {n : N} {x : Server N T E} {S : Set (Msg N T E)} {g : History N T E}
    (h : ElectionInv P s) (hinv : BallotInv { s.put n x with sent := S, hist := g })
    (hb : ∀ v t c, s.hist.ballot v t = some c → g.ballot v t = some c)
    (hled : g.led = s.hist.led) (hx : ElectionLaw s.hist n x) :
    ElectionInv P { s.put n x with sent := S, hist := g } where
  ballots := hinv
  law := State.forall_put
    (hx.mono hb (fun t ht => by rw [hled]; exact ht) fun t ht => by rw [← hled]; exact ht)
    fun p _ => (h.law p).mono hb (fun t ht => by rw [hled]; exact ht)
      fun t ht => by rw [← hled]; exact ht
  elected := by
    intro t n' ht
    have ht' : s.hist.led t = some n' := by rw [← hled]; exact ht
    exact (h.elected t n' ht').mono fun v _ hv => hb v t n' hv

end ElectionInv

/-- **Every step keeps the election invariant in the modes that elect.** -/
theorem electionInv_step {s s' : State N T E} {P : Params N T E} {mode : Mode}
    (hmode : mode.elects) (h : ElectionInv P s) (hs : Step P mode s s') : ElectionInv P s' := by
  have hinv := ballotInv_step h.ballots hs
  have hb := fun v t c => ballot_mono h.ballots hs (v := v) (t := t) (c := c)
  cases hs with
  | observe n t ht => exact h.put hinv hb rfl ((h.law n).follower rfl (le_refl _))
  | stepDown n => exact h.put hinv hb rfl ((h.law n).follower rfl (le_refl _))
  | crash n V μ c d u _ => exact h.put hinv hb rfl ((h.law n).follower rfl (le_refl _))
  | clear n V μ hV _ =>
      have hlaw := h.law n
      refine h.put hinv hb rfl ⟨hlaw.vote_self, fun hr v hv => ?_, hlaw.settled, hlaw.leader,
        hlaw.past⟩
      exact hlaw.votes hr v (hV hr ▸ hv)
  | campaign n t reqs ht _ =>
      have hlaw := h.law n
      refine h.put hinv hb rfl ⟨fun _ => rfl, fun _ v hv => Or.inl hv, fun _ hu => absurd hu (by simp),
        fun hr => absurd hr (by simp), fun t' ht' => ?_⟩
      have hle := (hlaw.past t' ht').1
      refine ⟨hle, ?_⟩
      rintro rfl
      exact absurd (hle.trans (h.ballots.law n).stable_le) (not_le.mpr ht)
  | grant n c li lt _ hv _ =>
      have hlaw := h.law n
      refine h.put hinv hb rfl ⟨fun hr => ?_, hlaw.votes, hlaw.settled, hlaw.leader, hlaw.past⟩
      have hself := hlaw.vote_self hr
      rcases hv with hv | hv
      · rw [hself] at hv; exact absurd hv (by simp)
      · rw [← hv]; exact hself
  | collect n v hr hheard =>
      have hlaw := h.law n
      refine h.put hinv hb rfl ⟨hlaw.vote_self, fun hr v' hv' => ?_, hlaw.settled, hlaw.leader,
        hlaw.past⟩
      rcases hv' with rfl | hv'
      · exact Or.inr (h.ballots.sent _ (hheard hmode) v' _ n rfl)
      · exact hlaw.votes hr v' hv'
  | save n =>
      have hlaw := h.law n
      refine h.put hinv hb rfl ⟨hlaw.vote_self, hlaw.votes, fun hr _ => ⟨rfl, hlaw.vote_self hr⟩,
        hlaw.leader, fun t ht => ⟨?_, (hlaw.past t ht).2⟩⟩
      exact (hlaw.past t ht).1.trans (h.ballots.law n).stable_le
  | settle n hst hsv =>
      have hlaw := h.law n
      exact h.put hinv hb rfl ⟨hlaw.vote_self, hlaw.votes,
        fun hr _ => ⟨hst, hsv.trans (hlaw.vote_self hr)⟩, hlaw.leader, hlaw.past⟩
  | win n hr hst hsv hm =>
      have hlaw := h.law n
      have hnone := h.led_none_of_win hr hst hsv hm
      refine ⟨hinv, State.forall_put ?_ fun p hp => ?_, fun t n' ht => ?_⟩
      · refine ⟨fun hr => absurd hr (by simp), fun hr => absurd hr (by simp),
          fun hr => absurd hr (by simp), fun _ => ?_, fun t ht => ?_⟩
        · simp
        · refine ⟨?_, fun _ => by simp⟩
          by_cases heq : t = (s.srv n).term
          · rw [heq]; exact hst.ge
          · refine (hlaw.past t ?_).1
            simpa [Function.update_of_ne heq] using ht
      · refine (h.law p).mono hb (fun t ht => ?_) fun t ht => ?_
        · have hne : t ≠ (s.srv n).term := by
            rintro rfl
            rw [hnone] at ht
            exact absurd ht (by simp)
          simpa [Function.update_of_ne hne] using ht
        · by_cases heq : t = (s.srv n).term
          · subst heq
            simp only [History.hold_led, History.lead_led, Function.update_self,
              Option.some.injEq] at ht
            exact absurd ht.symm hp
          · simpa [Function.update_of_ne heq] using ht
      · by_cases heq : t = (s.srv n).term
        · subst heq
          simp only [History.hold_led, History.lead_led, Function.update_self,
            Option.some.injEq] at ht
          subst ht
          exact h.votes_ballot hr hm
        · have ht' : s.hist.led t = some n' := by simpa [Function.update_of_ne heq] using ht
          exact (h.elected t n' ht').mono fun v _ hv => hb v t n' hv
  | append n e hr _ _ =>
      refine h.put hinv hb ?_ ((h.law n).frame rfl rfl rfl rfl rfl rfl id)
      -- the term is already on record as won by `n`
      simp only [History.hold_led, History.lead_led]
      rw [← (h.law n).leader hr, Function.update_eq_self]
  | flush n m rest _ _ _ =>
      exact h.put hinv hb (by simp) ((h.law n).frame rfl rfl rfl rfl rfl rfl id)
  | unsettle n => exact h.put hinv hb rfl ((h.law n).frame rfl rfl rfl rfl rfl rfl (by simp))
  | havocRole n r V u hne => exact absurd hmode hne
  | apply n k e _ _ => exact ⟨hinv, h.law, h.elected⟩
  | _ => exact h.put hinv hb rfl ((h.law _).frame rfl rfl rfl rfl rfl rfl id)

/-! ### Runs -/

/-- **The winner of a term stays its winner.** -/
lemma led_mono {s s' : State N T E} {P : Params N T E} {mode : Mode}
    (h : ElectionInv P s) (hs : Step P mode s s') {t : T} {n : N} (hled : s.hist.led t = some n) :
    s'.hist.led t = some n := by
  cases hs with
  | win p hr hst hsv hm =>
      have hne : t ≠ (s.srv p).term := by
        rintro rfl
        rw [h.led_none_of_win hr hst hsv hm] at hled
        exact absurd hled (by simp)
      simpa [Function.update_of_ne hne] using hled
  | append p e hr _ _ =>
      simp only [History.hold_led, History.lead_led]
      rw [← (h.law p).leader hr, Function.update_eq_self]
      exact hled
  | flush p m rest _ _ _ => simpa using hled
  | _ => exact hled

lemma electionInv_steps {s s' : State N T E} {P : Params N T E} {mode : Mode}
    (hmode : mode.elects) (h : ElectionInv P s) (hs : Steps P mode s s') : ElectionInv P s' := by
  induction hs with
  | refl => exact h
  | tail _ hst ih => exact electionInv_step hmode ih hst

lemma led_mono_steps {s s' : State N T E} {P : Params N T E} {mode : Mode}
    (hmode : mode.elects) (h : ElectionInv P s) (hs : Steps P mode s s') {t : T} {n : N}
    (hled : s.hist.led t = some n) : s'.hist.led t = some n := by
  induction hs with
  | refl => exact hled
  | tail hpre hst ih => exact led_mono (electionInv_steps hmode h hpre) hst ih

/-- **Election safety over a run**: leaders of one term at two moments are one server. -/
theorem election_safety {s s' : State N T E} {P : Params N T E} {mode : Mode}
    (hmode : mode.elects) (h : ElectionInv P s) (hs : Steps P mode s s') {a b : N}
    (ha : (s.srv a).role = .leader) (hb : (s'.srv b).role = .leader)
    (hab : (s.srv a).term = (s'.srv b).term) : a = b := by
  have h' := electionInv_steps hmode h hs
  have hla := led_mono_steps hmode h hs ((h.law a).leader ha)
  have hlb := (h'.law b).leader hb
  rw [hab, hlb] at hla
  exact (Option.some.inj hla).symm

end RaftRx.Protocol
