import RaftRx.Protocol.Logs

/-!
State machine safety: what one server applied at an index is what every server applies there.

The argument is about *choosable* positions.  A position `k` of the leader of term `t` is
choosable while a majority has acknowledged it or may still do so, because its term has not
passed `t`.  Terms only grow and an acknowledgement is given in the current term, so a position
never becomes choosable again.

* `Own`, `Choosable`, `Chosen`: entries a leader made itself, and their chances;
* `prefix_of_upToDate`: the comparison of last entries carries a choosable prefix from the voter
  to the candidate;
* `Advances`: what all steps have in common for the history, `CommitInv` the invariant,
  `commitInv_step` its preservation in mode `commits`;
* `applied_unique`: two servers that applied an entry at one index applied one entry;
* `holders_of_quorum`: when a leader finds a quorum for one of its entries, a majority of the
  members hold that entry.
-/

set_option linter.unusedSectionVars false

namespace RaftRx.Protocol

variable {N T E : Type*} [DecidableEq N] [LinearOrder T] [Zero T]

@[simp] lemma History.cast_acked (g : History N T E) (m : Msg N T E) :
    (g.cast m).acked = g.acked := by
  rw [History.cast]
  split <;> rfl

@[simp] lemma History.cast_candLog (g : History N T E) (m : Msg N T E) :
    (g.cast m).candLog = g.candLog := by
  rw [History.cast]
  split <;> rfl

/-! ### Choosable positions -/

/-- Position `k` of the leader log of term `t` is an entry of that term. -/
def Own (P : Params N T E) (g : History N T E) (t : T) (k : ℕ) : Prop :=
  0 < k ∧ k ≤ (g.leaderLog t).length ∧ termAt P.termOf (g.leaderLog t) k = t

/-- A majority has acknowledged position `k` of term `t` or still may. -/
def Choosable (P : Params N T E) (s : State N T E) (t : T) (k : ℕ) : Prop :=
  Majority P.members {v | s.hist.acked v t k ∨ (s.srv v).term ≤ t}

/-- A majority has acknowledged the own entry of term `t` at position `k`. -/
def Chosen (P : Params N T E) (g : History N T E) (t : T) (k : ℕ) : Prop :=
  Own P g t k ∧ Majority P.members {v | g.acked v t k}

/-- The first `k` entries of the leader of term `t`. -/
def History.upTo (g : History N T E) (t : T) (k : ℕ) : List E := (g.leaderLog t).take k

/-- `L` has the leader's entries up to every choosable own position that `v` acknowledged before
term `t'`. -/
def Keeps (P : Params N T E) (s : State N T E) (v : N) (t' : T) (L : List E) : Prop :=
  ∀ t < t', ∀ k, s.hist.acked v t k → Own P s.hist t k → Choosable P s t k →
    s.hist.upTo t k <+: L

/-- A ballot of `v` for `c` in term `t` is for a candidate that keeps what `v` acknowledged. -/
def VoteOk (P : Params N T E) (s : State N T E) (v : N) (t : T) (c : N) : Prop :=
  ∃ L, s.hist.candLog c t = some L ∧ Keeps P s v t L

/-- The entries `Q` are below a chosen position of a term up to `t`. -/
def Committed (P : Params N T E) (g : History N T E) (t : T) (Q : List E) : Prop :=
  Q = [] ∨ ∃ t₀ k, t₀ ≤ t ∧ Chosen P g t₀ k ∧ Q <+: g.upTo t₀ k

/-- The law of messages about candidates, commit indices and acknowledgements. -/
def Msg.CommitOk (P : Params N T E) (g : History N T E) : Msg N T E → Prop
  | .voteReq src _ t li lt =>
      ∃ L, g.candLog src t = some L ∧ li = L.length ∧ lt = lastTerm P.termOf L
  | .append _ _ t _ _ _ lc =>
      g.led t ≠ none ∧ lc ≤ (g.leaderLog t).length ∧ Committed P g t (g.upTo t lc)
  | .ack src _ t k => g.acked src t k
  | .grant .. => True

lemma Chosen.choosable {P : Params N T E} {s : State N T E} {t : T} {k : ℕ}
    (h : Chosen P s.hist t k) : Choosable P s t k :=
  h.2.mono fun _ _ hv => Or.inl hv

/-- Terms do not decrease along a coherent log. -/
lemma Coherent.le_lastTerm {P : Params N T E} {g : History N T E} {L : List E}
    (hL : Coherent P g L) (hok : LeadersOk P g) {k : ℕ} {e : E} (he : L[k]? = some e) :
    P.termOf e ≤ lastTerm P.termOf L := by
  have hmem : e ∈ L := List.mem_of_getElem? he
  have hne : L ≠ [] := List.ne_nil_of_mem hmem
  exact hok.bounded _ e ((hL.prefix_of_lastTerm hne rfl).subset hmem)

/-- The last entry of a leader's own prefix is of its term. -/
lemma Own.getElem? {P : Params N T E} {g : History N T E} {t : T} {k : ℕ} (h : Own P g t k) :
    ∃ e, (g.leaderLog t)[k - 1]? = some e ∧ P.termOf e = t := by
  obtain ⟨hpos, hle, ht⟩ := h
  have he : (g.leaderLog t)[k - 1]? = some (g.leaderLog t)[k - 1] :=
    List.getElem?_eq_getElem (by omega)
  rw [termAt, if_neg (by omega), he] at ht
  exact ⟨_, he, ht⟩

lemma Own.length_upTo {P : Params N T E} {g : History N T E} {t : T} {k : ℕ} (h : Own P g t k) :
    (g.upTo t k).length = k := by
  rw [History.upTo, List.length_take]
  exact min_eq_left h.2.1

lemma Own.led {P : Params N T E} {g : History N T E} {t : T} {k : ℕ} (h : Own P g t k)
    (hok : LeadersOk P g) : g.led t ≠ none := by
  intro hnone
  have hle := h.2.1
  rw [hok.unled t hnone, List.length_nil] at hle
  have := h.1
  omega

/-- **The comparison of last entries carries a choosable prefix.**  A later last term belongs to
a leader that has the prefix already; with equal last terms the longer log has the shorter one. -/
theorem prefix_of_upToDate {P : Params N T E} {g : History N T E} {L Lc : List E} {t : T} {k : ℕ}
    (hok : LeadersOk P g) (hL : Coherent P g L) (hLc : Coherent P g Lc) (hown : Own P g t k)
    (hQ : g.upTo t k <+: L) (hup : UpToDate P.termOf Lc.length (lastTerm P.termOf Lc) L)
    (hlater : ∀ t', t < t' → g.led t' ≠ none → g.upTo t k <+: g.leaderLog t') :
    g.upTo t k <+: Lc := by
  obtain ⟨e, he, hte⟩ := hown.getElem?
  have heQ : (g.upTo t k)[k - 1]? = some e := by
    rw [History.upTo, List.getElem?_take_of_lt (by have := hown.1; omega)]
    exact he
  have heL : L[k - 1]? = some e := getElem?_of_isPrefix hQ heQ
  have hLne : L ≠ [] := List.ne_nil_of_mem (List.mem_of_getElem? heL)
  have htL : t ≤ lastTerm P.termOf L := hte ▸ hL.le_lastTerm hok heL
  have ht0 : 0 ≤ t := hte ▸ hok.nonneg t e (List.mem_of_getElem? he)
  have hLcne : Lc ≠ [] := by
    rintro rfl
    rcases hup with hlt | ⟨-, hlen⟩
    · exact absurd ht0 (not_le.mpr (lt_of_le_of_lt htL hlt))
    · exact hLne (List.length_eq_zero_iff.mp (by simpa using hlen))
  have hLcpre : Lc <+: g.leaderLog (lastTerm P.termOf Lc) := hLc.prefix_of_lastTerm hLcne rfl
  rcases hup with hlt | ⟨heq, hlen⟩
  · have htlt : t < lastTerm P.termOf Lc := lt_of_le_of_lt htL hlt
    have hled : g.led (lastTerm P.termOf Lc) ≠ none := by
      intro hnone
      rw [hok.unled _ hnone] at hLcpre
      exact hLcne (List.prefix_nil.mp hLcpre)
    have hQpre := hlater _ htlt hled
    rcases Nat.le_total (g.upTo t k).length Lc.length with hle | hle
    · exact prefix_of_prefix_le hQpre hLcpre hle
    · -- a shorter candidate log would end with an entry of term at most `t`
      have hsub : Lc <+: g.upTo t k := prefix_of_prefix_le hLcpre hQpre hle
      have hmem : Lc.getLast hLcne ∈ g.leaderLog t :=
        List.mem_of_mem_take (hsub.subset (List.getLast_mem hLcne))
      have hbd := hok.bounded t _ hmem
      have hlast : lastTerm P.termOf Lc = P.termOf (Lc.getLast hLcne) := by
        rw [lastTerm, List.getLast?_eq_some_getLast hLcne]
        rfl
      rw [← hlast] at hbd
      exact absurd hbd (not_le.mpr htlt)
  · have hLpre : L <+: g.leaderLog (lastTerm P.termOf Lc) :=
      hL.prefix_of_lastTerm hLne heq.symm
    exact hQ.trans (prefix_of_prefix_le hLpre hLcpre hlen)

/-! ### What all steps have in common -/

/-- Terms and records only grow, and a new acknowledgement is of the server's own log in its
current term. -/
structure Advances (s s' : State N T E) : Prop where
  term_le : ∀ v, (s.srv v).term ≤ (s'.srv v).term
  led : ∀ t, s.hist.led t ≠ none → s'.hist.led t ≠ none
  grows : Grows s.hist s'.hist
  acked : ∀ v t k, s.hist.acked v t k → s'.hist.acked v t k
  acked_new : ∀ v t k, s'.hist.acked v t k → s.hist.acked v t k ∨
    ((s.srv v).term = t ∧ (s'.srv v).term = t ∧ k ≤ (s'.hist.leaderLog t).length ∧
      s'.hist.upTo t k <+: (s'.srv v).log)
  acked_down : ∀ v t k k', s'.hist.acked v t k → k' ≤ k → s'.hist.acked v t k'
  candLog : ∀ c t L, s.hist.candLog c t = some L → s'.hist.candLog c t = some L

/-- Every acknowledged position is in the leader's log. -/
def AckedIn (s : State N T E) : Prop :=
  ∀ v t k, s.hist.acked v t k → t ≤ (s.srv v).term ∧ k ≤ (s.hist.leaderLog t).length

namespace Advances

variable {P : Params N T E} {s s' : State N T E} (ha : Advances s s')
include ha

/-- A position never becomes choosable again. -/
lemma choosable {t : T} {k : ℕ} (h : Choosable P s' t k) : Choosable P s t k := by
  refine h.mono fun v _ hv => ?_
  rcases hv with hv | hv
  · rcases ha.acked_new v t k hv with hv | ⟨hv, -⟩
    · exact Or.inl hv
    · exact Or.inr hv.le
  · exact Or.inr ((ha.term_le v).trans hv)

lemma own {t : T} {k : ℕ} (h : Own P s.hist t k) : Own P s'.hist t k := by
  obtain ⟨hpos, hle, ht⟩ := h
  refine ⟨hpos, hle.trans (ha.grows t).length_le, ?_⟩
  rw [termAt_of_isPrefix (ha.grows t) hle]
  exact ht

/-- Below the old length of the leader's log an own position was one before. -/
lemma own_of_le {t : T} {k : ℕ} (h : Own P s'.hist t k) (hk : k ≤ (s.hist.leaderLog t).length) :
    Own P s.hist t k := by
  obtain ⟨hpos, -, ht⟩ := h
  refine ⟨hpos, hk, ?_⟩
  rw [termAt_of_isPrefix (ha.grows t) hk] at ht
  exact ht

lemma upTo_eq {t : T} {k : ℕ} (hk : k ≤ (s.hist.leaderLog t).length) :
    s'.hist.upTo t k = s.hist.upTo t k :=
  take_eq_of_isPrefix (ha.grows t) hk

lemma chosen {t : T} {k : ℕ} (h : Chosen P s.hist t k) : Chosen P s'.hist t k :=
  ⟨ha.own h.1, h.2.mono fun v _ hv => ha.acked v t k hv⟩

lemma committed {t t' : T} {Q : List E} (h : Committed P s.hist t Q) (ht : t ≤ t') :
    Committed P s'.hist t' Q := by
  rcases h with h | ⟨t₀, k, hle, hch, hQ⟩
  · exact Or.inl h
  · right
    refine ⟨t₀, k, hle.trans ht, ha.chosen hch, ?_⟩
    rw [ha.upTo_eq hch.1.2.1]
    exact hQ

/-- What `v` kept up to a term it has reached it keeps. -/
lemma keeps (hin : AckedIn s) {v : N} {t' : T} {L : List E} (ht' : t' ≤ (s.srv v).term)
    (h : Keeps P s v t' L) : Keeps P s' v t' L := by
  intro t ht k hack hown hch
  rcases ha.acked_new v t k hack with hold | ⟨hnew, -⟩
  · have hk := (hin v t k hold).2
    rw [ha.upTo_eq hk]
    exact h t ht k hold (ha.own_of_le hown hk) (ha.choosable hch)
  · exact absurd (ht'.trans hnew.le) (not_le.mpr ht)

lemma voteOk (hin : AckedIn s) {v c : N} {t' : T} (ht' : t' ≤ (s.srv v).term)
    (h : VoteOk P s v t' c) : VoteOk P s' v t' c := by
  obtain ⟨L, hL, hk⟩ := h
  exact ⟨L, ha.candLog c t' L hL, ha.keeps hin ht' hk⟩

lemma msgCommitOk {m : Msg N T E} (h : m.CommitOk P s.hist) : m.CommitOk P s'.hist := by
  cases m with
  | voteReq src dst t li lt =>
      obtain ⟨L, hL, hli, hlt⟩ := h
      exact ⟨L, ha.candLog src t L hL, hli, hlt⟩
  | grant src dst t => trivial
  | append src dst t prev pt es lc =>
      obtain ⟨hled, hlc, hcom⟩ := h
      refine ⟨ha.led t hled, hlc.trans (ha.grows t).length_le, ?_⟩
      rw [ha.upTo_eq hlc]
      exact ha.committed hcom le_rfl
  | ack src dst t k => exact ha.acked src t k h

end Advances

/-! ### The invariant -/

/-- **The commit law of a server.** -/
structure CommitLaw (P : Params N T E) (s : State N T E) (n : N) (x : Server N T E) : Prop where
  own_log : x.role = .leader → ∀ k ≤ x.log.length, s.hist.acked n x.term k
  matched : x.role = .leader → ∀ p, x.matched p = 0 ∨ s.hist.acked p x.term (x.matched p)
  candidate : x.role = .candidate → s.hist.candLog n x.term = some x.log
  vote : ∀ c, x.vote = some c → VoteOk P s n x.term c
  queued : ∀ m ∈ x.outbox, m.CommitOk P s.hist
  ballots : ∀ m ∈ x.outbox, ∀ v t c, m.ballot = some (v, t, c) → VoteOk P s v t c
  commit_le : x.commit ≤ x.log.length
  committed : Committed P s.hist x.term (x.log.take x.commit)

/-- **The commit invariant.** -/
structure CommitInv (P : Params N T E) (s : State N T E) : Prop where
  logs : LogInv P s
  acked_in : AckedIn s
  acked_down : ∀ v t k k', s.hist.acked v t k → k' ≤ k → s.hist.acked v t k'
  /-- A choosable own position that was acknowledged is still in the log. -/
  held : ∀ v t k, s.hist.acked v t k → Own P s.hist t k → Choosable P s t k →
    s.hist.upTo t k <+: (s.srv v).log
  /-- Later leaders have every choosable own position. -/
  complete : ∀ t t' k, t < t' → s.hist.led t' ≠ none → Own P s.hist t k → Choosable P s t k →
    s.hist.upTo t k <+: s.hist.leaderLog t'
  campaigned : ∀ c t L, s.hist.candLog c t = some L → t ≤ (s.srv c).term ∧ Coherent P s.hist L
  recorded : ∀ v t c, s.hist.ballot v t = some c → VoteOk P s v t c
  law : ∀ n, CommitLaw P s n (s.srv n)
  sent : ∀ m ∈ s.sent, m.CommitOk P s.hist
  applied : ∀ n k e, (n, k, e) ∈ s.applied →
    ∃ t j, Chosen P s.hist t j ∧ k < j ∧ (s.hist.leaderLog t)[k]? = some e

/-- The law survives steps that only add to the records, as long as the vote and the queued
ballots are of terms the server had reached before. -/
lemma CommitLaw.mono {P : Params N T E} {s s' : State N T E} {n : N} {x : Server N T E}
    (ha : Advances s s') (hin : AckedIn s) (h : CommitLaw P s n x)
    (hv : x.vote ≠ none → x.term ≤ (s.srv n).term)
    (hq : ∀ m ∈ x.outbox, ∀ v t c, m.ballot = some (v, t, c) → v = n ∧ t ≤ (s.srv n).term) :
    CommitLaw P s' n x where
  own_log := fun hr k hk => ha.acked _ _ _ (h.own_log hr k hk)
  matched := fun hr p => (h.matched hr p).imp_right (ha.acked _ _ _)
  candidate := fun hr => ha.candLog _ _ _ (h.candidate hr)
  vote := fun c hc => ha.voteOk hin (hv (by simp [hc])) (h.vote c hc)
  queued := fun m hm => ha.msgCommitOk (h.queued m hm)
  ballots := fun m hm v t c hbal => by
    obtain ⟨rfl, hle⟩ := hq m hm v t c hbal
    exact ha.voteOk hin hle (h.ballots m hm v t c hbal)
  commit_le := h.commit_le
  committed := ha.committed h.committed le_rfl

/-- A server that keeps what the law reads and queues lawful messages only. -/
lemma CommitLaw.frame {P : Params N T E} {s : State N T E} {n : N} {x x' : Server N T E}
    (h : CommitLaw P s n x) (ht : x'.term = x.term) (hl : x'.log = x.log)
    (hc : x'.commit = x.commit) (hv : x'.vote = x.vote)
    (hr : x'.role = x.role ∨ x'.role = .follower)
    (hm : x'.role = .leader → x'.matched = x.matched)
    (hout : ∀ m ∈ x'.outbox, m ∈ x.outbox ∨ (m.ballot = none ∧ m.CommitOk P s.hist)) :
    CommitLaw P s n x' := by
  have hr' : ∀ r, x'.role = r → r ≠ .follower → x.role = r := by
    intro r hx hne
    rcases hr with hr | hr
    · exact hr ▸ hx
    · exact absurd (hx.symm.trans hr) hne
  refine ⟨fun hx => ?_, fun hx => ?_, fun hx => ?_, ?_, fun m hm' => ?_, fun m hm' v t c hb => ?_,
    ?_, ?_⟩
  · rw [hl, ht]; exact h.own_log (hr' _ hx (by simp))
  · rw [hm hx, ht]; exact h.matched (hr' _ hx (by simp))
  · rw [hl, ht]; exact h.candidate (hr' _ hx (by simp))
  · rw [hv, ht]; exact h.vote
  · exact (hout m hm').elim (h.queued m) And.right
  · rcases hout m hm' with hmem | ⟨hnone, -⟩
    · exact h.ballots m hmem v t c hb
    · rw [hnone] at hb; simp at hb
  · rw [hc, hl]; exact h.commit_le
  · rw [ht, hl, hc]; exact h.committed

namespace CommitInv

variable {P : Params N T E} {s s' : State N T E}

/-- Voters of a later leader have left the term of an earlier one. -/
lemma not_choosable_beyond (h : CommitInv P s) (ha : Advances s s') {t t' : T} {k : ℕ}
    (ht : t < t') (hled : s.hist.led t' ≠ none) (hk : (s.hist.leaderLog t).length < k) :
    ¬ Choosable P s' t k := by
  intro hch
  obtain ⟨c, hc⟩ := Option.ne_none_iff_exists'.mp hled
  obtain ⟨v, -, hv, hb⟩ := hch.inter (h.logs.election.elected t' c hc)
  have hterm : t < (s.srv v).term :=
    lt_of_lt_of_le ht ((h.logs.election.ballots.law v).recorded_le_term hb)
  rcases hv with hv | hv
  · rcases ha.acked_new v t k hv with hold | ⟨hnew, -⟩
    · exact absurd (h.acked_in v t k hold).2 (not_le.mpr hk)
    · exact absurd hnew.le (not_le.mpr hterm)
  · exact absurd ((ha.term_le v).trans hv) (not_le.mpr hterm)

/-- **The step of one server**: everything but what the step itself adds follows from
`Advances`. -/
lemma step_of (h : CommitInv P s) (hlogs : LogInv P s') (ha : Advances s s') {n : N}
    {x : Server N T E} (hself : s'.srv n = x) (hothers : ∀ p, p ≠ n → s'.srv p = s.srv p)
    (hheld : ∀ t k, s.hist.acked n t k → Own P s.hist t k → Choosable P s t k →
      s.hist.upTo t k <+: x.log)
    (hled : ∀ t', s'.hist.led t' ≠ none → s.hist.led t' ≠ none ∨
      ∀ t k, t < t' → Own P s'.hist t k → Choosable P s' t k →
        s'.hist.upTo t k <+: s'.hist.leaderLog t')
    (hcand : ∀ c t L, s'.hist.candLog c t = some L → s.hist.candLog c t = some L ∨
      (t ≤ (s'.srv c).term ∧ Coherent P s'.hist L))
    (hrec : ∀ v t c, s'.hist.ballot v t = some c → s.hist.ballot v t = some c ∨ VoteOk P s' v t c)
    (hlaw : CommitLaw P s' n x)
    (hsent : ∀ m ∈ s'.sent, m ∈ s.sent ∨ m.CommitOk P s'.hist)
    (happ : ∀ p k e, (p, k, e) ∈ s'.applied → (p, k, e) ∈ s.applied ∨
      ∃ t j, Chosen P s'.hist t j ∧ k < j ∧ (s'.hist.leaderLog t)[k]? = some e) :
    CommitInv P s' where
  logs := hlogs
  acked_in := by
    intro v t k hack
    rcases ha.acked_new v t k hack with hold | ⟨-, hnew, hk, -⟩
    · obtain ⟨ht, hk⟩ := h.acked_in v t k hold
      exact ⟨ht.trans (ha.term_le v), hk.trans (ha.grows t).length_le⟩
    · exact ⟨hnew.ge, hk⟩
  acked_down := ha.acked_down
  held := by
    intro v t k hack hown hch
    rcases ha.acked_new v t k hack with hold | ⟨-, -, -, hpre⟩
    · have hk := (h.acked_in v t k hold).2
      have hown' := ha.own_of_le hown hk
      have hch' := ha.choosable hch
      rw [ha.upTo_eq hk]
      by_cases hv : v = n
      · rw [hv] at hold
        rw [hv, hself]
        exact hheld t k hold hown' hch'
      · rw [hothers v hv]
        exact h.held v t k hold hown' hch'
    · exact hpre
  complete := by
    intro t t' k ht hl hown hch
    rcases hled t' hl with hold | hnew
    · rcases Nat.lt_or_ge (s.hist.leaderLog t).length k with hk | hk
      · exact absurd hch (h.not_choosable_beyond ha ht hold hk)
      · rw [ha.upTo_eq hk]
        exact (h.complete t t' k ht hold (ha.own_of_le hown hk) (ha.choosable hch)).trans
          (ha.grows t')
    · exact hnew t k ht hown hch
  campaigned := by
    intro c t L hL
    rcases hcand c t L hL with hold | hnew
    · obtain ⟨ht, hcoh⟩ := h.campaigned c t L hold
      exact ⟨ht.trans (ha.term_le c), hcoh.mono ha.grows⟩
    · exact hnew
  recorded := by
    intro v t c hb
    rcases hrec v t c hb with hold | hnew
    · exact ha.voteOk h.acked_in ((h.logs.election.ballots.law v).recorded_le_term hold)
        (h.recorded v t c hold)
    · exact hnew
  law := by
    intro p
    by_cases hp : p = n
    · rw [hp, hself]; exact hlaw
    · rw [hothers p hp]
      refine CommitLaw.mono ha h.acked_in (h.law p) (fun _ => le_rfl) fun m hm v t c hb => ?_
      obtain ⟨hv, hle, -⟩ := (h.logs.election.ballots.law p).queued m hm v t c hb
      exact ⟨hv, hle⟩
  sent := fun m hm => (hsent m hm).elim (fun hm => ha.msgCommitOk (h.sent m hm)) id
  applied := by
    intro p k e hm
    rcases happ p k e hm with hold | hnew
    · obtain ⟨t, j, hch, hk, he⟩ := h.applied p k e hold
      exact ⟨t, j, ha.chosen hch, hk, getElem?_of_isPrefix (ha.grows t) he⟩
    · exact hnew

/-- Steps that leave the records of logs, candidates and acknowledgements alone. -/
lemma advances (h : CommitInv P s) (ht : ∀ v, (s.srv v).term ≤ (s'.srv v).term)
    (hl : s'.hist.leaderLog = s.hist.leaderLog) (hk : s'.hist.acked = s.hist.acked)
    (hc : s'.hist.candLog = s.hist.candLog) (hd : s'.hist.led = s.hist.led) : Advances s s' where
  term_le := ht
  led := fun t hl => by rw [hd]; exact hl
  grows := fun t => by rw [hl]
  acked := fun v t k hack => by rw [hk]; exact hack
  acked_new := fun v t k hack => Or.inl (by rw [hk] at hack; exact hack)
  acked_down := by rw [hk]; exact h.acked_down
  candLog := fun c t L hL => by rw [hc]; exact hL

/-- Replacing one server by one of no smaller term raises no other term. -/
lemma put_term_le {n : N} {x : Server N T E} (hx : (s.srv n).term ≤ x.term) (v : N) :
    (s.srv v).term ≤ ((s.put n x).srv v).term := by
  by_cases hv : v = n
  · rw [hv, State.put_self]; exact hx
  · rw [State.put_ne s x hv]

/-- **A quiet step**: one server changes, its log and the records stay. -/
lemma put_quiet {n : N} {x : Server N T E} (h : CommitInv P s) (hlogs : LogInv P (s.put n x))
    (hterm : (s.srv n).term ≤ x.term) (hlog : x.log = (s.srv n).log) (hlaw : CommitLaw P s n x)
    (hv : x.vote ≠ none → x.term ≤ (s.srv n).term)
    (hq : ∀ m ∈ x.outbox, ∀ v t c, m.ballot = some (v, t, c) → v = n ∧ t ≤ (s.srv n).term) :
    CommitInv P (s.put n x) := by
  have ha : Advances s (s.put n x) := h.advances (put_term_le hterm) rfl rfl rfl rfl
  refine h.step_of hlogs ha (State.put_self s n x) (fun p hp => State.put_ne s x hp)
    (fun t k hack hown hch => ?_) (fun t hl => Or.inl hl) (fun c t L hL => Or.inl hL)
    (fun v t c hb => Or.inl hb) (hlaw.mono ha h.acked_in hv hq) (fun m hm => Or.inl hm)
    fun p k e hm => Or.inl hm
  rw [hlog]
  exact h.held n t k hack hown hch

/-- Queued ballots are the server's own and of terms it has reached. -/
lemma queued_le (h : CommitInv P s) (n : N) : ∀ m ∈ (s.srv n).outbox, ∀ v t c,
    m.ballot = some (v, t, c) → v = n ∧ t ≤ (s.srv n).term := by
  intro m hm v t c hb
  obtain ⟨hv, hle, -⟩ := (h.logs.election.ballots.law n).queued m hm v t c hb
  exact ⟨hv, hle⟩

/-- A quiet step that keeps term, vote, commit index and role, or gives the role up. -/
lemma put_frame {n : N} {x : Server N T E} (h : CommitInv P s) (hlogs : LogInv P (s.put n x))
    (ht : x.term = (s.srv n).term) (hl : x.log = (s.srv n).log)
    (hc : x.commit = (s.srv n).commit) (hv : x.vote = (s.srv n).vote)
    (hr : x.role = (s.srv n).role ∨ x.role = .follower)
    (hm : x.role = .leader → x.matched = (s.srv n).matched)
    (hout : ∀ m ∈ x.outbox, m ∈ (s.srv n).outbox ∨ (m.ballot = none ∧ m.CommitOk P s.hist)) :
    CommitInv P (s.put n x) := by
  refine h.put_quiet hlogs ht.ge hl ((h.law n).frame ht hl hc hv hr hm hout) (fun _ => ht.le)
    fun m hm' v t c hb => ?_
  rcases hout m hm' with hmem | ⟨hnone, -⟩
  · exact h.queued_le n m hmem v t c hb
  · rw [hnone] at hb; simp at hb

/-! ### The steps that add to the records -/

/-- A candidacy is recorded with the log it is made on. -/
lemma campaign {n : N} {t : T} {reqs : List (Msg N T E)} {x : Server N T E} (h : CommitInv P s)
    (ht : (s.srv n).term < t) (hreqs : ∀ m ∈ reqs, ∃ p, m = .voteReq n p t (s.srv n).log.length
      (lastTerm P.termOf (s.srv n).log))
    (hxt : x.term = t) (hxv : x.vote = some n) (hxr : x.role = .candidate)
    (hxl : x.log = (s.srv n).log) (hxc : x.commit = (s.srv n).commit)
    (hxo : x.outbox = (s.srv n).outbox ++ reqs)
    (hlogs : LogInv P { s.put n x with hist := s.hist.campaign n t (s.srv n).log }) :
    CommitInv P { s.put n x with hist := s.hist.campaign n t (s.srv n).log } := by
  have hfresh : ∀ L, s.hist.candLog n t ≠ some L := fun L hL =>
    absurd (h.campaigned n t L hL).1 (not_le.mpr ht)
  have hcand : (s.hist.campaign n t (s.srv n).log).candLog n t = some (s.srv n).log := by
    simp [History.campaign]
  have ha : Advances s { s.put n x with hist := s.hist.campaign n t (s.srv n).log } :=
    { term_le := put_term_le (hxt ▸ ht.le)
      led := fun t hl => hl
      grows := fun t => List.prefix_rfl
      acked := fun v t k hack => hack
      acked_new := fun v t k hack => Or.inl hack
      acked_down := h.acked_down
      candLog := fun c t' L hL => by
        by_cases hc : c = n ∧ t' = t
        · rw [hc.1, hc.2] at hL
          exact absurd hL (hfresh L)
        · simpa [History.campaign, hc] using hL }
  have hvote : VoteOk P { s.put n x with hist := s.hist.campaign n t (s.srv n).log } n t n :=
    ⟨_, hcand, fun t₀ _ k hack hown hch => h.held n t₀ k hack hown (ha.choosable hch)⟩
  refine h.step_of hlogs ha (State.put_self s n x) (fun p hp => State.put_ne s x hp)
    (fun t₀ k hack hown hch => ?_) (fun t hl => Or.inl hl) (fun c t' L hL => ?_)
    (fun v t c hb => Or.inl hb) ?_ (fun m hm => Or.inl hm) fun p k e hm => Or.inl hm
  · rw [hxl]
    exact h.held n t₀ k hack hown hch
  · by_cases hc : c = n ∧ t' = t
    · right
      obtain ⟨rfl, rfl⟩ := hc
      rw [show ({ s.put c x with hist := s.hist.campaign c t' (s.srv c).log } : State N T E).srv c
        = x from State.put_self s c x, hxt]
      have hL' : (s.hist.campaign c t' (s.srv c).log).candLog c t' = some L := hL
      rw [hcand, Option.some.injEq] at hL'
      rw [← hL']
      exact ⟨le_rfl, (h.logs.law c).log⟩
    · left
      simpa [History.campaign, hc] using hL
  · have hlaw := h.law n
    refine ⟨fun hr => ?_, fun hr => ?_, fun _ => ?_, fun c hc => ?_, fun m hm => ?_,
      fun m hm v t' c hb => ?_, ?_, ?_⟩
    · rw [hxr] at hr; simp at hr
    · rw [hxr] at hr; simp at hr
    · rw [hxt, hxl]; exact hcand
    · rw [hxv, Option.some.injEq] at hc
      rw [hxt, ← hc]
      exact hvote
    · rw [hxo] at hm
      rcases List.mem_append.mp hm with hm | hm
      · exact ha.msgCommitOk (hlaw.queued m hm)
      · obtain ⟨p, rfl⟩ := hreqs m hm
        exact ⟨_, hcand, rfl, rfl⟩
    · rw [hxo] at hm
      rcases List.mem_append.mp hm with hm | hm
      · obtain ⟨rfl, hle⟩ := h.queued_le n m hm v t' c hb
        exact ha.voteOk h.acked_in hle (hlaw.ballots m hm v t' c hb)
      · obtain ⟨p, rfl⟩ := hreqs m hm
        simp only [Msg.ballot, Option.some.injEq, Prod.mk.injEq] at hb
        obtain ⟨rfl, rfl, rfl⟩ := hb
        exact hvote
    · rw [hxc, hxl]; exact hlaw.commit_le
    · rw [hxt, hxl, hxc]; exact ha.committed hlaw.committed ht.le

/-- A voter grants its vote only to candidates that keep what it acknowledged. -/
lemma voteOk_of_upToDate (h : CommitInv P s) {n c : N} {li : ℕ} {lt : T}
    (hreq : Msg.voteReq c n (s.srv n).term li lt ∈ s.sent)
    (hup : UpToDate P.termOf li lt (s.srv n).log) : VoteOk P s n (s.srv n).term c := by
  obtain ⟨L, hL, rfl, rfl⟩ := h.sent _ hreq
  refine ⟨L, hL, fun t _ k hack hown hch => ?_⟩
  exact prefix_of_upToDate h.logs.leaders (h.logs.law n).log (h.campaigned c _ L hL).2 hown
    (h.held n t k hack hown hch) hup fun t' ht' hled => h.complete t t' k ht' hled hown hch

/-- The counted acknowledgements of a leader are acknowledgements. -/
lemma chosen_of_quorum (h : CommitInv P s) {n : N} {k : ℕ} (hr : (s.srv n).role = .leader)
    (hpos : 0 < k) (hk : k ≤ (s.srv n).log.length)
    (ht : termAt P.termOf (s.srv n).log k = (s.srv n).term)
    (hm : Majority P.members {p | p = n ∨ (p ≠ n ∧ k ≤ (s.srv n).matched p)}) :
    Chosen P s.hist (s.srv n).term k := by
  have hlog := (h.logs.law n).leader hr
  refine ⟨⟨hpos, hlog ▸ hk, by rw [← hlog]; exact ht⟩, hm.mono fun p _ hp => ?_⟩
  rcases hp with rfl | ⟨-, hp⟩
  · exact (h.law p).own_log hr k hk
  · rcases (h.law n).matched hr p with h0 | hack
    · omega
    · exact h.acked_down _ _ _ _ hack hp

/-- What the new leader of a term has: everything choosable that its voters acknowledged. -/
lemma complete_of_win (h : CommitInv P s) {n : N} (hr : (s.srv n).role = .candidate)
    (hm : Majority P.members {v | v = n ∨ s.hist.ballot v (s.srv n).term = some n})
    {t : T} {k : ℕ} (ht : t < (s.srv n).term) (hown : Own P s.hist t k)
    (hch : Choosable P s t k) : s.hist.upTo t k <+: (s.srv n).log := by
  obtain ⟨v, -, hv, hb⟩ := hch.inter hm
  have hvote : VoteOk P s v (s.srv n).term n := by
    rcases hb with rfl | hb
    · exact (h.law v).vote v ((h.logs.election.law v).vote_self hr)
    · exact h.recorded v _ n hb
  have hle : (s.srv n).term ≤ (s.srv v).term := by
    rcases hb with rfl | hb
    · exact le_rfl
    · exact (h.logs.election.ballots.law v).recorded_le_term hb
  obtain ⟨L, hL, hkeeps⟩ := hvote
  rw [(h.law n).candidate hr, Option.some.injEq] at hL
  rcases hv with hv | hv
  · rw [hL]
    exact hkeeps t ht k hv hown hch
  · exact absurd (hle.trans hv) (not_le.mpr ht)

/-- The records after `n` became leader or appended, in the shape both steps share. -/
lemma advances_lead (h : CommitInv P s) {n : N} {x : Server N T E} {g : History N T E} {L : List E}
    (hxt : x.term = (s.srv n).term) (hxl : x.log = L)
    (hpre : s.hist.leaderLog (s.srv n).term <+: L)
    (hlog : g.leaderLog = Function.update s.hist.leaderLog (s.srv n).term L)
    (hled : g.led = Function.update s.hist.led (s.srv n).term (some n))
    (hack : ∀ v t k, g.acked v t k ↔
      s.hist.acked v t k ∨ (v = n ∧ t = (s.srv n).term ∧ k ≤ L.length))
    (hcand : g.candLog = s.hist.candLog) : Advances s { s.put n x with hist := g } where
  term_le := put_term_le hxt.ge
  led := fun t hl => by
    change g.led t ≠ none
    rw [hled]
    by_cases heq : t = (s.srv n).term
    · rw [heq, Function.update_self]; simp
    · rw [Function.update_of_ne heq]; exact hl
  grows := fun t => by
    change s.hist.leaderLog t <+: g.leaderLog t
    rw [hlog]
    by_cases heq : t = (s.srv n).term
    · rw [heq, Function.update_self]; exact hpre
    · rw [Function.update_of_ne heq]
  acked := fun v t k hk => (hack v t k).mpr (Or.inl hk)
  acked_new := fun v t k hk => by
    rcases (hack v t k).mp hk with hold | ⟨rfl, rfl, hle⟩
    · exact Or.inl hold
    · right
      have hself : g.leaderLog (s.srv v).term = L := by rw [hlog, Function.update_self]
      have hsrv : (s.put v x).srv v = x := State.put_self s v x
      refine ⟨rfl, ?_, ?_, ?_⟩
      · change ((s.put v x).srv v).term = _
        rw [hsrv, hxt]
      · change k ≤ (g.leaderLog (s.srv v).term).length
        rw [hself]; exact hle
      · change (g.leaderLog (s.srv v).term).take k <+: ((s.put v x).srv v).log
        rw [hself, hsrv, hxl]
        exact List.take_prefix _ _
  acked_down := fun v t k k' hk hle => by
    refine (hack v t k').mpr ?_
    rcases (hack v t k).mp hk with hold | ⟨hv, ht, hkL⟩
    · exact Or.inl (h.acked_down v t k k' hold hle)
    · exact Or.inr ⟨hv, ht, hle.trans hkL⟩
  candLog := fun c t L' hL' => by
    change g.candLog c t = some L'
    rw [hcand]; exact hL'

/-- Entries that are a prefix of committed entries are committed. -/
lemma committed_of_isPrefix {t : T} {Q Q' : List E} (h : Committed P s.hist t Q) (hQ : Q' <+: Q) :
    Committed P s.hist t Q' := by
  rcases h with rfl | ⟨t₀, k, hle, hch, hpre⟩
  · exact Or.inl (List.prefix_nil.mp hQ)
  · exact Or.inr ⟨t₀, k, hle, hch, hQ.trans hpre⟩

/-- The leader of a term has everything committed by then. -/
lemma isPrefix_leaderLog (h : CommitInv P s) {t : T} {Q : List E} (hled : s.hist.led t ≠ none)
    (hQ : Committed P s.hist t Q) : Q <+: s.hist.leaderLog t := by
  rcases hQ with rfl | ⟨t₀, k, hle, hch, hpre⟩
  · exact List.nil_prefix
  · rcases hle.lt_or_eq with hlt | rfl
    · exact hpre.trans (h.complete t₀ t k hlt hled hch.1 hch.choosable)
    · exact hpre.trans (List.take_prefix _ _)

/-- The log a covered follower ends with is a prefix of the leader's. -/
lemma isPrefix_of_covered (h : CommitInv P s) {n src : N} {prev : ℕ} {pt : T} {es L : List E}
    (hb : BatchOk P s.hist (s.srv n).term prev pt es) (hprev : prev ≤ (s.srv n).log.length)
    (hpt : termAt P.termOf (s.srv n).log prev = pt)
    (hmerge : Merge P.termOf (s.srv n).log prev es L) (hcoh : Coherent P s.hist L)
    (hcov : Covered P s src (s.srv n).term (prev + es.length) L) :
    L <+: s.hist.leaderLog (s.srv n).term := by
  rcases hcov with hle | hlast | ⟨hr, ht, hpre⟩
  · exact merge_prefix_of_le (h.logs.law n).log h.logs.leaders hb hprev hpt hmerge hle
  · by_cases hne : L = []
    · rw [hne]; exact List.nil_prefix
    · exact hcoh.prefix_of_lastTerm hne hlast
  · rw [(h.logs.law src).leader hr, ht] at hpre
    exact hpre

/-- Accepting a batch. -/
lemma accept {n src : N} {prev : ℕ} {pt : T} {es L : List E} {lc c : ℕ} {x : Server N T E}
    (h : CommitInv P s) (hmsg : Msg.append src n (s.srv n).term prev pt es lc ∈ s.sent)
    (hprev : prev ≤ (s.srv n).log.length) (hpt : termAt P.termOf (s.srv n).log prev = pt)
    (hmerge : Merge P.termOf (s.srv n).log prev es L) (hcL : c ≤ L.length)
    (hc : c ≤ max (s.srv n).commit lc)
    (hcov : Covered P s src (s.srv n).term (prev + es.length) L)
    (hxt : x.term = (s.srv n).term) (hxl : x.log = L) (hxc : x.commit = c)
    (hxv : x.vote = (s.srv n).vote) (hxr : x.role = .follower)
    (hxo : x.outbox = (s.srv n).outbox ++ [.ack n src (s.srv n).term L.length])
    (hlogs : LogInv P { s.put n x with hist := s.hist.hold n (s.srv n).term L.length }) :
    CommitInv P { s.put n x with hist := s.hist.hold n (s.srv n).term L.length } := by
  have hb : BatchOk P s.hist (s.srv n).term prev pt es := h.logs.sent _ hmsg
  obtain ⟨hled, -, hcom⟩ := h.sent _ hmsg
  have hcases := merge_cases (h.logs.law n).log h.logs.leaders hb hprev hpt hmerge
  have hcoh : Coherent P s.hist L := by
    rcases hcases with rfl | ⟨hpre, -⟩
    · exact (h.logs.law n).log
    · exact (h.logs.leaders.coherent _).of_isPrefix hpre
  have hLpre := h.isPrefix_of_covered hb hprev hpt hmerge hcoh hcov
  -- nothing the follower shares with the leader is lost
  have hkeep : ∀ Q, Q <+: (s.srv n).log → Q <+: s.hist.leaderLog (s.srv n).term → Q <+: L := by
    intro Q hQ hQ'
    rcases hcases with rfl | ⟨-, hk⟩
    · exact hQ
    · exact hk Q hQ hQ'
  have hsrv : (s.put n x).srv n = x := State.put_self s n x
  have ha : Advances s { s.put n x with hist := s.hist.hold n (s.srv n).term L.length } :=
    { term_le := put_term_le hxt.ge
      led := fun t hl => hl
      grows := fun t => List.prefix_rfl
      acked := fun v t k hack => Or.inl hack
      acked_new := fun v t k hack => by
        rcases hack with hold | ⟨rfl, rfl, hk⟩
        · exact Or.inl hold
        · refine Or.inr ⟨rfl, ?_, hk.trans hLpre.length_le, ?_⟩
          · change ((s.put v x).srv v).term = _
            rw [hsrv, hxt]
          · change (s.hist.leaderLog (s.srv v).term).take k <+: ((s.put v x).srv v).log
            rw [hsrv, hxl, take_eq_of_isPrefix hLpre hk]
            exact List.take_prefix _ _
      acked_down := fun v t k k' hack hle => by
        rcases hack with hold | ⟨hv, ht, hk⟩
        · exact Or.inl (h.acked_down v t k k' hold hle)
        · exact Or.inr ⟨hv, ht, hle.trans hk⟩
      candLog := fun c t L hL => hL }
  have hcommit : Committed P s.hist (s.srv n).term (L.take c) := by
    rcases le_max_iff.mp hc with hc | hc
    · have hpre : (s.srv n).log.take c <+: (s.srv n).log.take (s.srv n).commit :=
        List.take_prefix_take_left hc
      have hQ := committed_of_isPrefix (h.law n).committed hpre
      have hQL : (s.srv n).log.take c <+: L :=
        hkeep _ (List.take_prefix _ _) (h.isPrefix_leaderLog hled hQ)
      have hlen : ((s.srv n).log.take c).length = c := by
        rw [List.length_take]
        exact min_eq_left (hc.trans (h.law n).commit_le)
      rw [take_eq_of_isPrefix hQL hlen.ge, List.take_of_length_le hlen.le]
      exact hQ
    · refine committed_of_isPrefix hcom ?_
      rw [← take_eq_of_isPrefix hLpre hcL]
      exact List.take_prefix_take_left hc
  have hlaw := h.law n
  refine h.step_of hlogs ha hsrv (fun p hp => State.put_ne s x hp) (fun t k hack hown hch => ?_)
    (fun t hl => Or.inl hl) (fun c t L hL => Or.inl hL) (fun v t c hb => Or.inl hb)
    ⟨fun hr => ?_, fun hr => ?_, fun hr => ?_, fun c' hc' => ?_, fun m hm => ?_,
      fun m hm v t c' hbal => ?_, by rw [hxc, hxl]; exact hcL, ?_⟩
    (fun m hm => Or.inl hm) fun p k e hm => Or.inl hm
  · rw [hxl]
    refine hkeep _ (h.held n t k hack hown hch) ?_
    rcases (h.acked_in n t k hack).1.lt_or_eq with hlt | rfl
    · exact h.complete t _ k hlt hled hown hch
    · exact List.take_prefix _ _
  · rw [hxr] at hr; simp at hr
  · rw [hxr] at hr; simp at hr
  · rw [hxr] at hr; simp at hr
  · rw [hxv] at hc'
    rw [hxt]
    exact ha.voteOk h.acked_in le_rfl (hlaw.vote c' hc')
  · rw [hxo] at hm
    rcases List.mem_append.mp hm with hm | hm
    · exact ha.msgCommitOk (hlaw.queued m hm)
    · rw [List.mem_singleton.mp hm]
      exact Or.inr ⟨rfl, rfl, le_rfl⟩
  · rw [hxo] at hm
    rcases List.mem_append.mp hm with hm | hm
    · obtain ⟨rfl, hle⟩ := h.queued_le n m hm v t c' hbal
      exact ha.voteOk h.acked_in hle (hlaw.ballots m hm v t c' hbal)
    · rw [List.mem_singleton.mp hm] at hbal
      simp [Msg.ballot] at hbal
  · rw [hxt, hxl, hxc]
    exact ha.committed hcommit le_rfl

/-- The leader's law after a step in which `n` leads with the log `L`. -/
lemma law_lead {n : N} {x : Server N T E} {g : History N T E} {L : List E} (h : CommitInv P s)
    (ha : Advances s { s.put n x with hist := g }) (hxt : x.term = (s.srv n).term)
    (hxl : x.log = L) (hxc : x.commit = (s.srv n).commit) (hxv : x.vote = (s.srv n).vote)
    (hxo : x.outbox = (s.srv n).outbox) (hxr : x.role = .leader)
    (hxm : ∀ p, x.matched p = 0 ∨ s.hist.acked p (s.srv n).term (x.matched p))
    (hpre : (s.srv n).log <+: L) (hack : ∀ k ≤ L.length, g.acked n (s.srv n).term k) :
    CommitLaw P { s.put n x with hist := g } n x := by
  have hlaw := h.law n
  refine ⟨fun _ => ?_, fun _ p => ?_, fun hr => ?_, fun c hc => ?_, fun m hm => ?_,
    fun m hm v t c hb => ?_, ?_, ?_⟩
  · rw [hxt, hxl]; exact hack
  · rw [hxt]; exact (hxm p).imp_right (ha.acked _ _ _)
  · rw [hxr] at hr; simp at hr
  · rw [hxt]; rw [hxv] at hc
    exact ha.voteOk h.acked_in le_rfl (hlaw.vote c hc)
  · rw [hxo] at hm
    exact ha.msgCommitOk (hlaw.queued m hm)
  · rw [hxo] at hm
    obtain ⟨rfl, hle⟩ := h.queued_le n m hm v t c hb
    exact ha.voteOk h.acked_in hle (hlaw.ballots m hm v t c hb)
  · rw [hxc, hxl]; exact hlaw.commit_le.trans hpre.length_le
  · rw [hxt, hxl, hxc, take_eq_of_isPrefix hpre hlaw.commit_le]
    exact ha.committed hlaw.committed le_rfl

/-- A win. -/
lemma win {n : N} {x : Server N T E} {g : History N T E} (h : CommitInv P s)
    (hr : (s.srv n).role = .candidate) (hst : (s.srv n).stableTerm = (s.srv n).term)
    (hsv : (s.srv n).stableVote = some n) (hm : Majority P.members (s.srv n).votes)
    (hx : x = { s.srv n with role := .leader, matched := fun _ => 0 })
    (hg : g = ((s.hist.cast (.grant n n (s.srv n).term)).lead n (s.srv n).term
      (s.srv n).log).hold n (s.srv n).term (s.srv n).log.length)
    (hlogs : LogInv P { s.put n x with hist := g }) :
    CommitInv P { s.put n x with hist := g } := by
  have hnil := h.logs.leaders.unled _ (h.logs.election.led_none_of_win hr hst hsv hm)
  have hlog : g.leaderLog = Function.update s.hist.leaderLog (s.srv n).term (s.srv n).log := by
    simp [hg]
  have hack : ∀ v t k, g.acked v t k ↔
      s.hist.acked v t k ∨ (v = n ∧ t = (s.srv n).term ∧ k ≤ (s.srv n).log.length) := by
    intro v t k
    simp [hg, History.hold, History.lead]
  have ha : Advances s { s.put n x with hist := g } :=
    h.advances_lead (by rw [hx]) (by rw [hx]) (by rw [hnil]; exact List.nil_prefix) hlog
      (by simp [hg]) hack (by simp [hg, History.hold, History.lead])
  have hvotes : Majority P.members {v | v = n ∨ s.hist.ballot v (s.srv n).term = some n} :=
    hm.mono fun v _ hv => (h.logs.election.law n).votes hr v hv
  refine h.step_of hlogs ha (State.put_self s n x) (fun p hp => State.put_ne s x hp)
    (fun t k hk hown hch => by rw [hx]; exact h.held n t k hk hown hch) (fun t' hl => ?_)
    (fun c t L hL => Or.inl ?_) (fun v t c hb => ?_) ?_ (fun m hm => Or.inl hm)
    fun p k e hm => Or.inl hm
  · by_cases heq : t' = (s.srv n).term
    · right
      intro t k ht hown hch
      rw [heq] at ht
      have hne : g.leaderLog t = s.hist.leaderLog t := by
        rw [hlog, Function.update_of_ne ht.ne]
      have hk : k ≤ (s.hist.leaderLog t).length := hne ▸ hown.2.1
      have hpre := h.complete_of_win hr hvotes ht (ha.own_of_le hown hk) (ha.choosable hch)
      have hself : g.leaderLog (s.srv n).term = (s.srv n).log := by
        rw [hlog, Function.update_self]
      rw [ha.upTo_eq hk, heq]
      change s.hist.upTo t k <+: g.leaderLog (s.srv n).term
      rw [hself]
      exact hpre
    · left
      have hl' : g.led t' ≠ none := hl
      rw [hg] at hl'
      simpa [Function.update_of_ne heq] using hl'
  · have hL' : g.candLog c t = some L := hL
    rw [hg] at hL'
    simpa [History.hold, History.lead] using hL'
  · have hb' : g.ballot v t = some c := hb
    rw [hg, History.hold_ballot, History.lead_ballot,
      History.cast_ballot (v := n) (t := (s.srv n).term) (c := n) rfl] at hb'
    split at hb'
    · rename_i heq
      obtain ⟨rfl, rfl⟩ := heq
      rw [Option.some.injEq] at hb'
      rw [← hb']
      exact Or.inr (ha.voteOk h.acked_in le_rfl
        ((h.law v).vote v ((h.logs.election.law v).vote_self hr)))
    · exact Or.inl hb'
  · exact h.law_lead ha (L := (s.srv n).log) (by rw [hx]) (by rw [hx]) (by rw [hx]) (by rw [hx])
      (by rw [hx]) (by rw [hx]) (fun p => Or.inl (by rw [hx])) List.prefix_rfl
      fun k hk => (hack _ _ _).mpr (Or.inr ⟨rfl, rfl, hk⟩)

/-- A leader appends. -/
lemma append {n : N} {e : E} {x : Server N T E} {g : History N T E} (h : CommitInv P s)
    (hr : (s.srv n).role = .leader)
    (hx : x = { s.srv n with log := (s.srv n).log ++ [e], dirty := true })
    (hg : g = (s.hist.lead n (s.srv n).term ((s.srv n).log ++ [e])).hold n
      (s.srv n).term ((s.srv n).log.length + 1))
    (hlogs : LogInv P { s.put n x with hist := g }) :
    CommitInv P { s.put n x with hist := g } := by
  have hlog := (h.logs.law n).leader hr
  have hpre : (s.srv n).log <+: (s.srv n).log ++ [e] := List.prefix_append _ _
  have hack : ∀ v t k, g.acked v t k ↔
      s.hist.acked v t k ∨ (v = n ∧ t = (s.srv n).term ∧ k ≤ ((s.srv n).log ++ [e]).length) := by
    intro v t k
    simp [hg, History.hold, History.lead]
  have ha : Advances s { s.put n x with hist := g } :=
    h.advances_lead (by rw [hx]) (by rw [hx]) (hlog ▸ hpre) (by simp [hg])
      (by simp [hg]) hack (by simp [hg, History.hold, History.lead])
  refine h.step_of hlogs ha (State.put_self s n x) (fun p hp => State.put_ne s x hp)
    (fun t k hk hown hch => by rw [hx]; exact (h.held n t k hk hown hch).trans hpre)
    (fun t' hl => Or.inl ?_) (fun c t L hL => Or.inl ?_) (fun v t c hb => Or.inl ?_) ?_
    (fun m hm => Or.inl hm) fun p k e hm => Or.inl hm
  · have hl' : g.led t' ≠ none := hl
    by_cases heq : t' = (s.srv n).term
    · rw [heq, (h.logs.election.law n).leader hr]
      simp
    · rw [hg] at hl'
      simpa [Function.update_of_ne heq] using hl'
  · have hL' : g.candLog c t = some L := hL
    rw [hg] at hL'
    simpa [History.hold, History.lead] using hL'
  · have hb' : g.ballot v t = some c := hb
    rw [hg] at hb'
    simpa using hb'
  · exact h.law_lead ha (by rw [hx]) (by rw [hx]) (by rw [hx]) (by rw [hx]) (by rw [hx])
      (by rw [hx]; exact hr) (fun p => by rw [hx]; exact (h.law n).matched hr p) hpre
      fun k hk => (hack _ _ _).mpr (Or.inr ⟨rfl, rfl, hk⟩)

/-- A queued message leaves. -/
lemma flush {n : N} {m : Msg N T E} {rest : List (Msg N T E)} {x : Server N T E}
    (h : CommitInv P s) (hout : (s.srv n).outbox = m :: rest)
    (hx : x = { s.srv n with outbox := rest })
    (hlogs : LogInv P
      { s.put n x with sent := insert m s.sent, hist := s.hist.cast m }) :
    CommitInv P { s.put n x with sent := insert m s.sent, hist := s.hist.cast m } := by
  have hmem : m ∈ (s.srv n).outbox := by rw [hout]; exact List.mem_cons_self
  have ha : Advances s { s.put n x with sent := insert m s.sent, hist := s.hist.cast m } :=
    h.advances (put_term_le (by rw [hx])) (by simp) (by simp) (by simp) (by simp)
  have hrest : ∀ m' ∈ x.outbox, m' ∈ (s.srv n).outbox := by
    intro m' hm'
    rw [hx] at hm'
    rw [hout]
    exact List.mem_cons_of_mem _ hm'
  have hlaw : CommitLaw P s n x := by
    refine (h.law n).frame ?_ ?_ ?_ ?_ (Or.inl ?_) (fun _ => ?_) fun m' hm' => Or.inl (hrest m' hm')
    all_goals rw [hx]
  refine h.step_of hlogs ha (State.put_self s n x) (fun p hp => State.put_ne s x hp)
    (fun t k hk hown hch => by rw [hx]; exact h.held n t k hk hown hch)
    (fun t' hl => Or.inl (by simpa using hl)) (fun c t L hL => Or.inl (by simpa using hL))
    (fun v t c hb => ?_)
    (hlaw.mono ha h.acked_in (fun _ => by rw [hx]) fun m' hm' => h.queued_le n m' (hrest m' hm'))
    (fun m' hm' => ?_) fun p k e hm => Or.inl hm
  · have hb' : (s.hist.cast m).ballot v t = some c := hb
    cases hbal : m.ballot with
    | none =>
        rw [History.cast_of_none hbal] at hb'
        exact Or.inl hb'
    | some b =>
        obtain ⟨v', t', c'⟩ := b
        rw [History.cast_ballot hbal] at hb'
        split at hb'
        · rename_i heq
          obtain ⟨rfl, rfl⟩ := heq
          rw [Option.some.injEq] at hb'
          rw [← hb']
          obtain ⟨rfl, hle⟩ := h.queued_le n m hmem _ _ _ hbal
          exact Or.inr (ha.voteOk h.acked_in hle ((h.law _).ballots m hmem _ _ _ hbal))
        · exact Or.inl hb'
  · rcases hm' with rfl | hm'
    · exact Or.inr (ha.msgCommitOk ((h.law n).queued m' hmem))
    · exact Or.inl hm'

/-- Applying a committed entry. -/
lemma apply {n : N} {k : ℕ} {e : E} (h : CommitInv P s) (hk : k < (s.srv n).commit)
    (he : (s.srv n).log[k]? = some e)
    (hlogs : LogInv P { s with applied := insert (n, k, e) s.applied }) :
    CommitInv P { s with applied := insert (n, k, e) s.applied } := by
  have ha : Advances s { s with applied := insert (n, k, e) s.applied } :=
    h.advances (fun _ => le_rfl) rfl rfl rfl rfl
  have hlaw := (h.law n).mono ha h.acked_in (fun _ => le_rfl) (h.queued_le n)
  refine h.step_of hlogs ha rfl (fun p _ => rfl) (h.held n) (fun t hl => Or.inl hl)
    (fun c t L hL => Or.inl hL) (fun v t c hb => Or.inl hb) hlaw (fun m hm => Or.inl hm)
    fun p j e' hm => ?_
  rcases hm with heq | hm
  · right
    simp only [Prod.mk.injEq] at heq
    obtain ⟨-, rfl, rfl⟩ := heq
    have hmem : ((s.srv n).log.take (s.srv n).commit)[j]? = some e' := by
      rw [List.getElem?_take_of_lt hk]
      exact he
    rcases (h.law n).committed with hnil | ⟨t, i, -, hch, hpre⟩
    · rw [hnil] at hmem
      simp at hmem
    · have hget := getElem?_of_isPrefix hpre hmem
      have hlt : j < i := by
        have := (List.getElem?_eq_some_iff.mp hget).1
        rwa [hch.1.length_upTo] at this
      rw [History.upTo, List.getElem?_take_of_lt hlt] at hget
      exact ⟨t, i, hch, hlt, hget⟩
  · exact Or.inl hm

end CommitInv

/-- **Every step keeps the commit invariant in mode `commits`.** -/
theorem commitInv_step {s s' : State N T E} {P : Params N T E} (h : CommitInv P s)
    (hs : Step P .commits s s') : CommitInv P s' := by
  have hlogs := logInv_step Mode.keepsLogs_commits h.logs hs
  have hold : ∀ n, ∀ m ∈ (s.srv n).outbox,
      m ∈ (s.srv n).outbox ∨ (m.ballot = none ∧ m.CommitOk P s.hist) := fun n m hm => Or.inl hm
  cases hs with
  | observe n t ht =>
      have hlaw := h.law n
      refine h.put_quiet hlogs ht.le rfl ⟨by simp, by simp, by simp, by simp, hlaw.queued,
        hlaw.ballots, hlaw.commit_le, ?_⟩ (by simp) (h.queued_le n)
      exact (h.advances (fun _ => le_rfl) rfl rfl rfl rfl).committed hlaw.committed ht.le
  | stepDown n => exact h.put_frame hlogs rfl rfl rfl rfl (Or.inr rfl) (by simp) (hold n)
  | clear n V μ _ hμ => exact h.put_frame hlogs rfl rfl rfl rfl (Or.inl rfl) hμ (hold n)
  | campaign n t reqs ht hreqs =>
      refine h.campaign ht (fun m hm => ?_) rfl rfl rfl rfl rfl rfl hlogs
      obtain ⟨p, li, lt, rfl, hlog⟩ := hreqs m hm
      obtain ⟨rfl, rfl⟩ := hlog Mode.keepsLogs_commits
      exact ⟨p, rfl⟩
  | grant n c li lt hheard hv hup =>
      have hlaw := h.law n
      have hvote := h.voteOk_of_upToDate (hheard Mode.elects_commits) (hup Mode.keepsLogs_commits)
      have hout : ∀ m ∈ (s.srv n).outbox ++ [Msg.grant n c (s.srv n).term],
          m ∈ (s.srv n).outbox ∨ m = .grant n c (s.srv n).term := fun m hm => by simpa using hm
      refine h.put_quiet hlogs le_rfl rfl ⟨hlaw.own_log, hlaw.matched, hlaw.candidate,
        fun c' hc' => ?_, fun m hm => ?_, fun m hm v t c' hb => ?_, hlaw.commit_le,
        hlaw.committed⟩ (fun _ => le_rfl) fun m hm v t c' hb => ?_
      · rw [Option.some.injEq] at hc'
        rw [← hc']
        exact hvote
      · rcases hout m hm with hm | rfl
        · exact hlaw.queued m hm
        · trivial
      · rcases hout m hm with hm | rfl
        · exact hlaw.ballots m hm v t c' hb
        · simp only [Msg.ballot, Option.some.injEq, Prod.mk.injEq] at hb
          obtain ⟨rfl, rfl, rfl⟩ := hb
          exact hvote
      · rcases hout m hm with hm | rfl
        · exact h.queued_le n m hm v t c' hb
        · simp only [Msg.ballot, Option.some.injEq, Prod.mk.injEq] at hb
          obtain ⟨rfl, rfl, rfl⟩ := hb
          exact ⟨rfl, le_rfl⟩
  | win n hr hst hsv hm => exact h.win hr hst hsv hm rfl rfl hlogs
  | append n e hr _ _ => exact h.append hr rfl rfl hlogs
  | send n p prev es c hr _ _ hc =>
      have hlog := (h.logs.law n).leader hr
      refine h.put_frame hlogs rfl rfl rfl rfl (Or.inl rfl) (fun _ => rfl) fun m hm => ?_
      rcases List.mem_append.mp hm with hm | hm
      · exact Or.inl hm
      · right
        rw [List.mem_singleton.mp hm]
        refine ⟨rfl, ?_, ?_, ?_⟩
        · rw [(h.logs.election.law n).leader hr]; simp
        · rw [← hlog]; exact hc.trans (h.law n).commit_le
        · refine CommitInv.committed_of_isPrefix (h.law n).committed ?_
          rw [History.upTo, ← hlog]
          exact List.take_prefix_take_left hc
  | accept n src prev pt es L lc c d hheard hr hprev hpt hmerge hcL hc _ hcov =>
      exact h.accept (hheard Mode.elects_commits) hprev hpt hmerge hcL hc (hcov rfl)
        rfl rfl rfl rfl hr rfl hlogs
  | record n p k hr hheard =>
      have hlaw := h.law n
      have hack : s.hist.acked p (s.srv n).term k := h.sent _ (hheard Mode.elects_commits)
      refine h.put_quiet hlogs le_rfl rfl ⟨hlaw.own_log, fun _ q => ?_, hlaw.candidate, hlaw.vote,
        hlaw.queued, hlaw.ballots, hlaw.commit_le, hlaw.committed⟩ (fun _ => le_rfl)
        (h.queued_le n)
      change Function.update (s.srv n).matched p k q = 0 ∨
        s.hist.acked q (s.srv n).term (Function.update (s.srv n).matched p k q)
      by_cases hq : q = p
      · rw [hq, Function.update_self]; exact Or.inr hack
      · rw [Function.update_of_ne hq]; exact hlaw.matched hr q
  | advance n k hr hpos hk ht hm =>
      have hlaw := h.law n
      have hch := h.chosen_of_quorum hr hpos hk ht hm
      refine h.put_quiet hlogs le_rfl rfl ⟨hlaw.own_log, hlaw.matched, hlaw.candidate, hlaw.vote,
        hlaw.queued, hlaw.ballots, hk, Or.inr ⟨_, k, le_rfl, hch, ?_⟩⟩ (fun _ => le_rfl)
        (h.queued_le n)
      rw [History.upTo, ← (h.logs.law n).leader hr]
  | apply n k e hk he => exact h.apply hk he hlogs
  | flush n m rest hout _ _ => exact h.flush hout rfl hlogs
  | drop n out hsub =>
      exact h.put_frame hlogs rfl rfl rfl rfl (Or.inl rfl) (fun _ => rfl)
        fun m hm => Or.inl (hsub.subset hm)
  | crash n V μ c d u hne => exact absurd rfl hne
  | havocLog n L μ c ms hne _ => exact absurd Mode.keepsLogs_commits hne
  | havocRole n r V u hne => exact absurd Mode.elects_commits hne
  | _ => exact h.put_frame hlogs rfl rfl rfl rfl (Or.inl rfl) (fun _ => rfl) (hold _)

lemma commitInv_steps {s s' : State N T E} {P : Params N T E} (h : CommitInv P s)
    (hs : Steps P .commits s s') : CommitInv P s' := by
  induction hs with
  | refl => exact h
  | tail _ hst ih => exact commitInv_step ih hst

/-! ### Safety -/

/-- **State machine safety.** -/
theorem applied_unique {s : State N T E} {P : Params N T E} (h : CommitInv P s) {a b : N} {k : ℕ}
    {e e' : E} (ha : (a, k, e) ∈ s.applied) (hb : (b, k, e') ∈ s.applied) : e = e' := by
  have key : ∀ t j t' j' e e', t ≤ t' → Chosen P s.hist t j → Chosen P s.hist t' j' → k < j →
      (s.hist.leaderLog t)[k]? = some e → (s.hist.leaderLog t')[k]? = some e' → e = e' := by
    intro t j t' j' e e' hle hch hch' hk he he'
    rcases hle.lt_or_eq with hlt | rfl
    · have hpre := h.complete t t' j hlt (hch'.1.led h.logs.leaders) hch.1 hch.choosable
      have hget : (s.hist.upTo t j)[k]? = some e := by
        rw [History.upTo, List.getElem?_take_of_lt hk]
        exact he
      have := getElem?_of_isPrefix hpre hget
      rw [he'] at this
      exact (Option.some.inj this).symm
    · rw [he] at he'
      exact Option.some.inj he'
  obtain ⟨t, j, hch, hk, he⟩ := h.applied a k e ha
  obtain ⟨t', j', hch', hk', he'⟩ := h.applied b k e' hb
  rcases le_total t t' with hle | hle
  · exact key t j t' j' e e' hle hch hch' hk he he'
  · exact (key t' j' t j e' e hle hch' hch hk' he' he).symm

/-- **Commit quorum**: a majority of the members hold the entry for which a leader has counted a
quorum of acknowledgements. -/
theorem holders_of_quorum {s : State N T E} {P : Params N T E} (h : CommitInv P s) {n : N} {k : ℕ}
    (hr : (s.srv n).role = .leader) (hpos : 0 < k) (hk : k ≤ (s.srv n).log.length)
    (ht : termAt P.termOf (s.srv n).log k = (s.srv n).term)
    (hm : Majority P.members {p | p = n ∨ (p ≠ n ∧ k ≤ (s.srv n).matched p)}) :
    Majority P.members {p | (s.srv n).log.take k <+: (s.srv p).log} := by
  have hch := h.chosen_of_quorum hr hpos hk ht hm
  refine hch.2.mono fun p _ hp => ?_
  have hheld := h.held p _ k hp hch.1 hch.choosable
  rw [History.upTo, ← (h.logs.law n).leader hr] at hheld
  exact hheld

end RaftRx.Protocol
