import RaftRx.Protocol.State

/-!
Ballots: a server announces at most one candidate per term, whatever it hears and wherever it
crashes.

The ballot of a term is recorded when the first message that announces it leaves (or when the
server wins the term).  At that moment the vote is stable, so no restart can forget it.

* `BallotLaw g n x`: the law of one server, relating the recorded ballots, the stable copies,
  the volatile vote and the queued messages;
* `BallotLaw.frame`: what does not touch any of these keeps the law;
* `BallotInv`, `ballotInv_step`: the invariant and its preservation by every step in every mode;
* `BallotInv.sent_unique`: two sent messages that announce a ballot of one voter in one term
  name one candidate.
-/

set_option linter.unusedSectionVars false

namespace RaftRx.Protocol

variable {N T E : Type*} [DecidableEq N] [LinearOrder T] [Zero T]

/-! ### Histories that record more ballots -/

@[simp] lemma History.campaign_ballot (g : History N T E) (n : N) (t : T) (L : List E) :
    (g.campaign n t L).ballot = g.ballot := rfl

@[simp] lemma History.hold_ballot (g : History N T E) (n : N) (t : T) (k : ℕ) :
    (g.hold n t k).ballot = g.ballot := rfl

@[simp] lemma History.lead_ballot (g : History N T E) (n : N) (t : T) (L : List E) :
    (g.lead n t L).ballot = g.ballot := rfl

lemma History.cast_of_none {g : History N T E} {m : Msg N T E} (h : m.ballot = none) :
    g.cast m = g := by
  rw [History.cast, h]

lemma History.cast_ballot {g : History N T E} {m : Msg N T E} {v : N} {t : T} {c : N}
    (h : m.ballot = some (v, t, c)) (v' : N) (t' : T) :
    (g.cast m).ballot v' t' = if v' = v ∧ t' = t then some c else g.ballot v' t' := by
  rw [History.cast, h]

@[simp] lemma State.put_self (s : State N T E) (n : N) (x : Server N T E) :
    (s.put n x).srv n = x := by
  simp [State.put]

lemma State.put_ne (s : State N T E) {n p : N} (x : Server N T E) (h : p ≠ n) :
    (s.put n x).srv p = s.srv p := by
  simp [State.put, h]

@[simp] lemma State.put_sent (s : State N T E) (n : N) (x : Server N T E) :
    (s.put n x).sent = s.sent := rfl

@[simp] lemma State.put_hist (s : State N T E) (n : N) (x : Server N T E) :
    (s.put n x).hist = s.hist := rfl

@[simp] lemma State.put_applied (s : State N T E) (n : N) (x : Server N T E) :
    (s.put n x).applied = s.applied := rfl

/-- A law of every server survives the replacement of one server by one that obeys it. -/
lemma State.forall_put {s : State N T E} {n : N} {x : Server N T E}
    {Q : N → Server N T E → Prop} (hx : Q n x) (h : ∀ p, p ≠ n → Q p (s.srv p)) :
    ∀ p, Q p ((s.put n x).srv p) := by
  intro p
  by_cases hp : p = n
  · subst hp
    rw [State.put_self]
    exact hx
  · rw [State.put_ne s x hp]
    exact h p hp

/-! ### The law of one server -/

/-- **The ballot law of a server**: recorded ballots are in the stable copies, the stable copies
are a past of the volatile vote, and every queued announcement is the vote of its term. -/
structure BallotLaw (g : History N T E) (n : N) (x : Server N T E) : Prop where
  zero_le : 0 ≤ x.stableTerm
  recorded : ∀ t c, g.ballot n t = some c →
    t ≤ x.stableTerm ∧ (t = x.stableTerm → x.stableVote = some c)
  stable_le : x.stableTerm ≤ x.term
  volatile : x.stableTerm = x.term → ∀ c, x.stableVote = some c → x.vote = some c
  clean : x.dirty = false → x.stableTerm = x.term ∧ x.stableVote = x.vote
  queued : ∀ m ∈ x.outbox, ∀ v t c, m.ballot = some (v, t, c) →
    v = n ∧ t ≤ x.term ∧ (t = x.term → x.vote = some c) ∧ ∀ c', g.ballot n t = some c' → c' = c
  queued_unique : ∀ m ∈ x.outbox, ∀ m' ∈ x.outbox, ∀ v v' t c c',
    m.ballot = some (v, t, c) → m'.ballot = some (v', t, c') → c = c'

namespace BallotLaw

variable {g g' : History N T E} {n : N} {x x' : Server N T E}

lemma recorded_le_term (h : BallotLaw g n x) {t : T} {c : N} (hb : g.ballot n t = some c) :
    t ≤ x.term := (h.recorded t c hb).1.trans h.stable_le

/-- A ballot recorded in the current term is the volatile vote. -/
lemma recorded_current (h : BallotLaw g n x) {c : N} (hb : g.ballot n x.term = some c) :
    x.vote = some c := by
  obtain ⟨hle, heq⟩ := h.recorded _ _ hb
  have hst : x.stableTerm = x.term := le_antisymm h.stable_le hle
  exact h.volatile hst c (heq hst.symm)

/-- **Frame**: a step that leaves term, vote and stable copies alone, cleans nothing and queues
no announcement keeps the law. -/
lemma frame (h : BallotLaw g n x) (hg : g'.ballot n = g.ballot n) (ht : x'.term = x.term)
    (hv : x'.vote = x.vote) (hst : x'.stableTerm = x.stableTerm)
    (hsv : x'.stableVote = x.stableVote) (hd : x'.dirty = false → x.dirty = false)
    (hout : ∀ m ∈ x'.outbox, m.ballot ≠ none → m ∈ x.outbox) : BallotLaw g' n x' where
  zero_le := by rw [hst]; exact h.zero_le
  recorded := by rw [hg, hst, hsv]; exact h.recorded
  stable_le := by rw [hst, ht]; exact h.stable_le
  volatile := by rw [hst, ht, hsv, hv]; exact h.volatile
  clean := by rw [hst, ht, hsv, hv]; exact fun hc => h.clean (hd hc)
  queued := by
    rw [hg, ht, hv]
    exact fun m hm v t c hb => h.queued m (hout m hm (by simp [hb])) v t c hb
  queued_unique := fun m hm m' hm' v v' t c c' hb hb' =>
    h.queued_unique m (hout m hm (by simp [hb])) m' (hout m' hm' (by simp [hb'])) v v' t c c' hb hb'

/-- Seeing a higher term. -/
lemma observe (h : BallotLaw g n x) {t : T} (ht : x.term < t) (r : Role) :
    BallotLaw g n { x with term := t, vote := none, role := r, dirty := true } where
  zero_le := h.zero_le
  recorded := h.recorded
  stable_le := h.stable_le.trans ht.le
  volatile := fun heq => absurd heq (ne_of_lt (lt_of_le_of_lt h.stable_le ht))
  clean := fun hc => absurd hc (by simp)
  queued := by
    intro m hm v t' c hb
    obtain ⟨hv, hle, -, hrec⟩ := h.queued m hm v t' c hb
    exact ⟨hv, hle.trans ht.le, fun heq => absurd heq (ne_of_lt (lt_of_le_of_lt hle ht)), hrec⟩
  queued_unique := h.queued_unique

/-- Starting a candidacy: the new term has no ballot yet, recorded or queued. -/
lemma campaign (h : BallotLaw g n x) (hg : g'.ballot n = g.ballot n) {t : T} (ht : x.term < t)
    {reqs : List (Msg N T E)} (hreqs : ∀ m ∈ reqs, m.ballot = some (n, t, n)) :
    BallotLaw g' n
      { x with
        term := t, vote := some n, role := .candidate, votes := {n}
        dirty := true, unsettled := true, outbox := x.outbox ++ reqs } where
  zero_le := h.zero_le
  recorded := by rw [hg]; exact h.recorded
  stable_le := h.stable_le.trans ht.le
  volatile := fun heq => absurd heq (ne_of_lt (lt_of_le_of_lt h.stable_le ht))
  clean := fun hc => absurd hc (by simp)
  queued := by
    intro m hm v t' c hb
    rw [hg]
    rcases List.mem_append.mp hm with hm | hm
    · obtain ⟨hv, hle, -, hrec⟩ := h.queued m hm v t' c hb
      exact ⟨hv, hle.trans ht.le, fun heq => absurd heq (ne_of_lt (lt_of_le_of_lt hle ht)), hrec⟩
    · rw [hreqs m hm] at hb
      simp only [Option.some.injEq, Prod.mk.injEq] at hb
      obtain ⟨rfl, rfl, rfl⟩ := hb
      exact ⟨rfl, le_refl _, fun _ => rfl,
        fun c' hc' => absurd (h.recorded_le_term hc') (not_le.mpr ht)⟩
  queued_unique := by
    intro m hm m' hm' v v' t' c c' hb hb'
    rcases List.mem_append.mp hm with hm | hm <;> rcases List.mem_append.mp hm' with hm' | hm'
    · exact h.queued_unique m hm m' hm' v v' t' c c' hb hb'
    · have hle := (h.queued m hm v t' c hb).2.1
      rw [hreqs m' hm'] at hb'
      simp only [Option.some.injEq, Prod.mk.injEq] at hb'
      exact absurd (hb'.2.1 ▸ hle) (not_le.mpr ht)
    · have hle := (h.queued m' hm' v' t' c' hb').2.1
      rw [hreqs m hm] at hb
      simp only [Option.some.injEq, Prod.mk.injEq] at hb
      exact absurd (hb.2.1 ▸ hle) (not_le.mpr ht)
    · rw [hreqs m hm] at hb
      rw [hreqs m' hm'] at hb'
      simp only [Option.some.injEq, Prod.mk.injEq] at hb hb'
      rw [← hb.2.2, ← hb'.2.2]

/-- Granting a vote in the current term to the candidate already voted for, or to anyone when
there is no vote yet. -/
lemma grant (h : BallotLaw g n x) {c : N} (hv : x.vote = none ∨ x.vote = some c) :
    BallotLaw g n
      { x with vote := some c, dirty := true, outbox := x.outbox ++ [.grant n c x.term] } where
  zero_le := h.zero_le
  recorded := h.recorded
  stable_le := h.stable_le
  volatile := by
    intro heq c' hc'
    have hvote := h.volatile heq c' hc'
    rcases hv with hv | hv
    · rw [hv] at hvote; exact absurd hvote (by simp)
    · rw [← hv]; exact hvote
  clean := fun hc => absurd hc (by simp)
  queued := by
    intro m hm v t c' hb
    rcases List.mem_append.mp hm with hm | hm
    · obtain ⟨hvn, hle, hcur, hrec⟩ := h.queued m hm v t c' hb
      refine ⟨hvn, hle, fun heq => ?_, hrec⟩
      rcases hv with hv | hv
      · rw [hv] at hcur; exact absurd (hcur heq) (by simp)
      · rw [← hv]; exact hcur heq
    · simp only [List.mem_singleton] at hm
      subst hm
      simp only [Msg.ballot, Option.some.injEq, Prod.mk.injEq] at hb
      obtain ⟨rfl, rfl, rfl⟩ := hb
      refine ⟨rfl, le_refl _, fun _ => rfl, fun c' hc' => ?_⟩
      have hvote := h.recorded_current hc'
      rcases hv with hv | hv
      · rw [hv] at hvote; exact absurd hvote (by simp)
      · rw [hv] at hvote; exact (Option.some.inj hvote).symm
  queued_unique := by
    -- an announcement already queued in this term names the present vote
    have key : ∀ m ∈ x.outbox, ∀ v c', m.ballot = some (v, x.term, c') → c' = c := by
      intro m hm v c' hb
      have hvote := (h.queued m hm v _ c' hb).2.2.1 rfl
      rcases hv with hv | hv
      · rw [hv] at hvote; exact absurd hvote (by simp)
      · rw [hv] at hvote; exact (Option.some.inj hvote).symm
    intro m hm m' hm' v v' t c₁ c₂ hb hb'
    rcases List.mem_append.mp hm with hm | hm <;> rcases List.mem_append.mp hm' with hm' | hm'
    · exact h.queued_unique m hm m' hm' v v' t c₁ c₂ hb hb'
    · simp only [List.mem_singleton] at hm'
      subst hm'
      simp only [Msg.ballot, Option.some.injEq, Prod.mk.injEq] at hb'
      obtain ⟨-, rfl, rfl⟩ := hb'
      exact key m hm v c₁ hb
    · simp only [List.mem_singleton] at hm
      subst hm
      simp only [Msg.ballot, Option.some.injEq, Prod.mk.injEq] at hb
      obtain ⟨-, rfl, rfl⟩ := hb
      exact (key m' hm' v' c₂ hb').symm
    · simp only [List.mem_singleton] at hm hm'
      subst hm hm'
      rw [hb] at hb'
      simp only [Option.some.injEq, Prod.mk.injEq] at hb'
      exact hb'.2.2

/-- Making term and vote stable. -/
lemma save (h : BallotLaw g n x) :
    BallotLaw g n { x with stableTerm := x.term, stableVote := x.vote, dirty := false } where
  zero_le := h.zero_le.trans h.stable_le
  recorded := by
    intro t c hb
    refine ⟨h.recorded_le_term hb, ?_⟩
    rintro rfl
    exact h.recorded_current hb
  stable_le := le_refl _
  volatile := fun _ _ hc => hc
  clean := fun _ => ⟨rfl, rfl⟩
  queued := h.queued
  queued_unique := h.queued_unique

/-- Reading the stable copies back. -/
lemma crash (h : BallotLaw g n x) (x' : Server N T E) (ht : x'.term = x.stableTerm)
    (hv : x'.vote = x.stableVote) (hst : x'.stableTerm = x.stableTerm)
    (hsv : x'.stableVote = x.stableVote) (hout : x'.outbox = []) : BallotLaw g n x' where
  zero_le := by rw [hst]; exact h.zero_le
  recorded := by rw [hst, hsv]; exact h.recorded
  stable_le := by rw [hst, ht]
  volatile := by rw [hv, hsv]; exact fun _ _ hc => hc
  clean := fun _ => by rw [hst, ht, hsv, hv]; exact ⟨rfl, rfl⟩
  queued := by rw [hout]; simp
  queued_unique := by rw [hout]; simp

/-- Recording a ballot that is stable and that the queue agrees with. -/
lemma cast (h : BallotLaw g n x) {m : Msg N T E} {t : T} {c : N} (hm : m.ballot = some (n, t, c))
    (hle : t ≤ x.stableTerm) (hst : t = x.stableTerm → x.stableVote = some c)
    (hq : ∀ m' ∈ x.outbox, ∀ v c', m'.ballot = some (v, t, c') → c' = c) :
    BallotLaw (g.cast m) n x where
  zero_le := h.zero_le
  recorded := by
    intro t' c' hb
    rw [History.cast_ballot hm] at hb
    split at hb
    · rename_i heq
      obtain rfl := heq.2
      obtain rfl := Option.some.inj hb
      exact ⟨hle, hst⟩
    · exact h.recorded t' c' hb
  stable_le := h.stable_le
  volatile := h.volatile
  clean := h.clean
  queued := by
    intro m' hm' v t' c' hb
    obtain ⟨hv, hle', hcur, hrec⟩ := h.queued m' hm' v t' c' hb
    refine ⟨hv, hle', hcur, fun c'' hc'' => ?_⟩
    rw [History.cast_ballot hm] at hc''
    split at hc''
    · rename_i heq
      obtain rfl := heq.2
      obtain rfl := Option.some.inj hc''
      exact (hq m' hm' v c' hb).symm
    · exact hrec c'' hc''
  queued_unique := h.queued_unique

end BallotLaw

/-- Recording a ballot of another voter does not concern a server. -/
lemma History.cast_ballot_ne {g : History N T E} {m : Msg N T E} {v p : N} {t : T} {c : N}
    (hm : m.ballot = some (v, t, c)) (hp : p ≠ v) : (g.cast m).ballot p = g.ballot p := by
  funext t'
  rw [History.cast_ballot hm, if_neg fun h => hp h.1]

/-! ### The invariant -/

/-- **The ballot invariant**: every server obeys its law and every sent announcement is on
record. -/
structure BallotInv (s : State N T E) : Prop where
  law : ∀ n, BallotLaw s.hist n (s.srv n)
  sent : ∀ m ∈ s.sent, ∀ v t c, m.ballot = some (v, t, c) → s.hist.ballot v t = some c

namespace BallotInv

variable {s s' : State N T E} {P : Params N T E} {mode : Mode}

/-- **One ballot per voter and term**, over everything ever sent. -/
theorem sent_unique (h : BallotInv s) {m m' : Msg N T E} (hm : m ∈ s.sent) (hm' : m' ∈ s.sent)
    {v : N} {t : T} {c c' : N} (hb : m.ballot = some (v, t, c))
    (hb' : m'.ballot = some (v, t, c')) : c = c' := by
  have h1 := h.sent m hm v t c hb
  rw [h.sent m' hm' v t c' hb'] at h1
  exact (Option.some.inj h1).symm

/-- A step of one server that leaves the record of ballots alone. -/
lemma put {n : N} {x : Server N T E} {g : History N T E} (h : BallotInv s)
    (hg : g.ballot = s.hist.ballot) (hx : BallotLaw g n x) :
    BallotInv { s.put n x with hist := g } where
  law := State.forall_put hx fun p _ =>
    (h.law p).frame (by rw [hg]) rfl rfl rfl rfl id fun _ hm _ => hm
  sent := by
    intro m hm v t c hb
    show g.ballot v t = some c
    rw [hg]
    exact h.sent m hm v t c hb

/-- A step of one server that neither votes nor saves. -/
lemma put_frame {n : N} {x : Server N T E} {g : History N T E} (h : BallotInv s)
    (hg : g.ballot = s.hist.ballot) (ht : x.term = (s.srv n).term) (hv : x.vote = (s.srv n).vote)
    (hst : x.stableTerm = (s.srv n).stableTerm) (hsv : x.stableVote = (s.srv n).stableVote)
    (hd : x.dirty = false → (s.srv n).dirty = false)
    (hout : ∀ m ∈ x.outbox, m.ballot ≠ none → m ∈ (s.srv n).outbox) :
    BallotInv { s.put n x with hist := g } :=
  h.put hg ((h.law n).frame (by rw [hg]) ht hv hst hsv hd hout)

/-- Recording the ballot of one server. -/
lemma put_cast {n : N} {x : Server N T E} {m : Msg N T E} {g : History N T E} {t : T} {c : N}
    (h : BallotInv s) (hm : m.ballot = some (n, t, c)) (hg : g.ballot = (s.hist.cast m).ballot)
    (hnew : ∀ c', s.hist.ballot n t = some c' → c' = c)
    (hx : BallotLaw (s.hist.cast m) n x) (S : Set (Msg N T E))
    (hS : ∀ m' ∈ S, m' = m ∨ m' ∈ s.sent) :
    BallotInv { s.put n x with hist := g, sent := S } where
  law := State.forall_put (hx.frame (by rw [hg]) rfl rfl rfl rfl id fun _ hm _ => hm)
    fun p hp => (h.law p).frame (by rw [hg, History.cast_ballot_ne hm hp]) rfl rfl rfl rfl id
      fun _ hm _ => hm
  sent := by
    intro m' hm' v t' c' hb
    show g.ballot v t' = some c'
    rw [hg, History.cast_ballot hm]
    rcases hS m' hm' with rfl | hold
    · rw [hm] at hb
      simp only [Option.some.injEq, Prod.mk.injEq] at hb
      rw [if_pos ⟨hb.1.symm, hb.2.1.symm⟩, hb.2.2]
    · have hrec := h.sent m' hold v t' c' hb
      split
      · rename_i heq
        obtain ⟨rfl, rfl⟩ := heq
        rw [hnew c' hrec]
      · exact hrec

end BallotInv

open BallotInv in
/-- **Every step keeps the ballot invariant, in every mode.** -/
theorem ballotInv_step {s s' : State N T E} {P : Params N T E} {mode : Mode}
    (h : BallotInv s) (hs : Step P mode s s') : BallotInv s' := by
  cases hs with
  | observe n t ht => exact h.put rfl ((h.law n).observe ht .follower)
  | campaign n t reqs ht hreqs =>
      have hb : ∀ m ∈ reqs, m.ballot = some (n, t, n) := by
        intro m hm
        obtain ⟨p, li, lt, rfl, -⟩ := hreqs m hm
        rfl
      refine h.put (g := s.hist.campaign n t (s.srv n).log) rfl ?_
      exact (h.law n).campaign (by rw [History.campaign_ballot]) ht hb
  | grant n c li lt _ hv _ => exact h.put rfl ((h.law n).grant hv)
  | save n => exact h.put rfl (h.law n).save
  | crash n V μ c d u _ => exact h.put rfl ((h.law n).crash _ rfl rfl rfl rfl rfl)
  | win n _ hst hsv _ =>
      have hlaw := h.law n
      -- the candidate's own vote is stable, hence it may be recorded
      have hvote : (s.srv n).vote = some n := hlaw.volatile hst n hsv
      refine h.put_cast (m := .grant n n (s.srv n).term)
        (g := ((s.hist.cast (.grant n n (s.srv n).term)).lead n (s.srv n).term
          (s.srv n).log).hold n (s.srv n).term (s.srv n).log.length) rfl rfl
        (fun c' hc' => ?_) ?_ s.sent fun m hm => Or.inr hm
      · have := hlaw.recorded_current hc'
        rw [hvote] at this
        exact (Option.some.inj this).symm
      · refine (hlaw.cast (m := .grant n n (s.srv n).term) rfl hst.ge (fun _ => hsv) ?_).frame
          rfl rfl rfl rfl rfl id fun _ hm _ => hm
        intro m' hm' v c' hb
        have := (hlaw.queued m' hm' v _ c' hb).2.2.1 rfl
        rw [hvote] at this
        exact (Option.some.inj this).symm
  | flush n m rest hout hst hsv =>
      have hlaw := h.law n
      have hmem : m ∈ (s.srv n).outbox := by rw [hout]; exact List.mem_cons_self
      have hrest : ∀ m' ∈ rest, m' ∈ (s.srv n).outbox := fun m' hm' => by
        rw [hout]; exact List.mem_cons_of_mem _ hm'
      cases hb : m.ballot with
      | none =>
          have hinv : BallotInv { s.put n { s.srv n with outbox := rest } with hist := s.hist } :=
            h.put_frame rfl rfl rfl rfl rfl id fun m' hm' _ => hrest m' hm'
          refine ⟨?_, ?_⟩
          · rw [History.cast_of_none hb]; exact hinv.law
          · rw [History.cast_of_none hb]
            intro m' hm' v t c hb'
            rcases hm' with rfl | hm'
            · rw [hb] at hb'; exact absurd hb' (by simp)
            · exact hinv.sent m' hm' v t c hb'
      | some b =>
          obtain ⟨v, t, c⟩ := b
          obtain ⟨rfl, hle, hcur, hrec⟩ := hlaw.queued m hmem v t c hb
          refine h.put_cast hb rfl hrec ?_ _ fun m' hm' => hm'
          refine (hlaw.cast hb (hst ▸ hle) (fun heq => ?_) ?_).frame rfl rfl rfl rfl rfl id
            fun m' hm' _ => hrest m' hm'
          · rw [hsv]; exact hcur (heq.trans hst)
          · exact fun m' hm' v' c' hb' => hlaw.queued_unique m' hm' m hmem v' v t c' c hb' hb
  | apply n k e _ _ => exact ⟨h.law, h.sent⟩
  | append n e _ _ _ => exact h.put_frame rfl rfl rfl rfl rfl (by simp) fun _ hm _ => hm
  | accept n src prev pt es L lc c d _ _ _ _ _ _ _ hd _ =>
      refine h.put_frame rfl rfl rfl rfl rfl (fun hf => ?_) fun m hm hb => ?_
      · by_contra hdirty
        have := hd (by simpa using hdirty)
        simp_all
      · rcases List.mem_append.mp hm with hm | hm
        · exact hm
        · simp only [List.mem_singleton] at hm
          subst hm
          exact absurd rfl hb
  | send n p prev es c _ _ _ _ =>
      refine h.put_frame rfl rfl rfl rfl rfl id fun m hm hb => ?_
      rcases List.mem_append.mp hm with hm | hm
      · exact hm
      · simp only [List.mem_singleton] at hm
        subst hm
        exact absurd rfl hb
  | havocLog n L μ c ms _ hms =>
      refine h.put_frame rfl rfl rfl rfl rfl id fun m hm hb => ?_
      rcases List.mem_append.mp hm with hm | hm
      · exact hm
      · exact absurd (hms m hm) hb
  | drop n out hsub => exact h.put_frame rfl rfl rfl rfl rfl id fun m hm _ => hsub.subset hm
  | advance n k _ _ _ _ _ => exact h.put_frame rfl rfl rfl rfl rfl (by simp) fun _ hm _ => hm
  | touch n => exact h.put_frame rfl rfl rfl rfl rfl (by simp) fun _ hm _ => hm
  | _ => exact h.put_frame rfl rfl rfl rfl rfl id fun _ hm _ => hm

end RaftRx.Protocol
