import RaftRx.Protocol.Local

/-!
Two moments of a run of the protocol.

What is committed at one moment is compared with the logs of a later one.  The records of the
history only grow, so a chosen position stays chosen; from then on every leader of its term or of a
later one has the entries up to it.

* `Recorded`: leader logs and acknowledgements only grow, `recorded_steps`: along every run;
* `leader_append_only`: a leader only adds to its log;
* `Committed.mono`: what is committed stays committed;
* `leader_completeness`: a leader has what was committed on any server in terms up to its own;
* `committed_comparable`: of two committed prefixes one continues the other.
-/

set_option linter.unusedSectionVars false

namespace RaftRx.Protocol

variable {N T E : Type*} [DecidableEq N] [LinearOrder T] [Zero T]
  {P : Params N T E} {mode : Mode} {s s' : State N T E}

/-! ### Growing records -/

/-- Leader logs and acknowledgements only grow. -/
structure Recorded (g g' : History N T E) : Prop where
  grows : Grows g g'
  acked : ∀ v t k, g.acked v t k → g'.acked v t k

lemma Recorded.refl (g : History N T E) : Recorded g g :=
  ⟨fun _ => List.prefix_rfl, fun _ _ _ => id⟩

lemma Recorded.trans {g g' g'' : History N T E} (h : Recorded g g') (h' : Recorded g' g'') :
    Recorded g g'' :=
  ⟨fun t => (h.grows t).trans (h'.grows t), fun v t k hk => h'.acked v t k (h.acked v t k hk)⟩

/-- The log of a leader is continued. -/
lemma recorded_lead {g : History N T E} {n : N} {t : T} {L : List E} (hL : g.leaderLog t <+: L)
    (k : ℕ) : Recorded g ((g.lead n t L).hold n t k) where
  grows := fun t' => by
    change g.leaderLog t' <+: Function.update g.leaderLog t L t'
    by_cases ht : t' = t
    · rw [ht, Function.update_self]
      exact hL
    · rw [Function.update_of_ne ht]
  acked := fun _ _ _ hk => Or.inl hk

lemma recorded_cast (g : History N T E) (m : Msg N T E) : Recorded g (g.cast m) := by
  rw [History.cast]
  split <;> exact ⟨fun _ => List.prefix_rfl, fun _ _ _ => id⟩

/-- **No step takes a record back.** -/
lemma recorded_step (h : LogInv P s) (hs : Step P mode s s') : Recorded s.hist s'.hist := by
  cases hs with
  | win n hr hst hsv hm =>
      have hnil := h.leaders.unled _ (h.election.led_none_of_win hr hst hsv hm)
      refine (recorded_cast s.hist (.grant n n (s.srv n).term)).trans (recorded_lead ?_ _)
      rw [History.cast_leaderLog, hnil]
      exact List.nil_prefix
  | append n e hr _ _ =>
      refine recorded_lead ?_ _
      rw [← (h.law n).leader hr]
      exact List.prefix_append _ _
  | accept n src prev pt es L lc c d => exact ⟨fun _ => List.prefix_rfl, fun _ _ _ => Or.inl⟩
  | flush n m rest _ _ _ => exact recorded_cast s.hist m
  | _ => exact ⟨fun _ => List.prefix_rfl, fun _ _ _ => id⟩

/-- No run takes a record back. -/
lemma recorded_steps (hmode : mode.keepsLogs) (h : LogInv P s) (hs : Steps P mode s s') :
    Recorded s.hist s'.hist := by
  induction hs with
  | refl => exact Recorded.refl _
  | tail hpre hst ih => exact ih.trans (recorded_step (logInv_steps hmode h hpre) hst)

/-- **Leaders append only**: the log of a leader continues what it was at any earlier moment of the
term. -/
theorem leader_append_only (hmode : mode.keepsLogs) (h : LogInv P s) (hs : Steps P mode s s')
    {a b : N} (ha : (s.srv a).role = .leader) (hb : (s'.srv b).role = .leader)
    (ht : (s.srv a).term = (s'.srv b).term) : (s.srv a).log <+: (s'.srv b).log := by
  have h' := logInv_steps hmode h hs
  rw [(h.law a).leader ha, (h'.law b).leader hb, ← ht]
  exact (recorded_steps hmode h hs).grows _

/-! ### What is committed stays committed -/

lemma Chosen.mono {g g' : History N T E} (hr : Recorded g g') {t : T} {k : ℕ}
    (h : Chosen P g t k) : Chosen P g' t k := by
  obtain ⟨⟨hpos, hle, ht⟩, hmaj⟩ := h
  refine ⟨⟨hpos, hle.trans (hr.grows t).length_le, ?_⟩, hmaj.mono fun v _ hv => hr.acked v t k hv⟩
  rw [termAt_of_isPrefix (hr.grows t) hle]
  exact ht

lemma Committed.mono {g g' : History N T E} (hr : Recorded g g') {t t' : T} {Q : List E}
    (h : Committed P g t Q) (ht : t ≤ t') : Committed P g' t' Q := by
  rcases h with h | ⟨t₀, k, hle, hch, hQ⟩
  · exact Or.inl h
  · refine Or.inr ⟨t₀, k, hle.trans ht, hch.mono hr, ?_⟩
    rw [History.upTo, take_eq_of_isPrefix (hr.grows t₀) hch.1.2.1]
    exact hQ

/-- What is committed stays committed along a run. -/
lemma Committed.steps (h : CommitInv P s) (hs : Steps P .commits s s') {t t' : T} {Q : List E}
    (hQ : Committed P s.hist t Q) (ht : t ≤ t') : Committed P s'.hist t' Q :=
  hQ.mono (recorded_steps Mode.keepsLogs_commits h.logs hs) ht

/-! ### The committed part of a log -/

/-- The entries a server knows to be committed. -/
def Server.committed (x : Server N T E) : List E := x.log.take x.commit

/-- **Leader completeness.**  What a server had committed is in the log of every leader of its
term or of a later one, from then on. -/
theorem leader_completeness (h : CommitInv P s) (hs : Steps P .commits s s') {a b : N}
    (hb : (s'.srv b).role = .leader) (ht : (s.srv a).term ≤ (s'.srv b).term) :
    (s.srv a).committed <+: (s'.srv b).log := by
  have h' := commitInv_steps h hs
  have hcom : Committed P s'.hist (s'.srv b).term (s.srv a).committed :=
    Committed.steps h hs (h.law a).committed ht
  have hled : s'.hist.led (s'.srv b).term ≠ none := by
    rw [(h'.logs.election.law b).leader hb]
    simp
  rw [(h'.logs.law b).leader hb]
  exact h'.isPrefix_leaderLog hled hcom

/-- Committed entries of two terms continue each other. -/
lemma CommitInv.comparable (h : CommitInv P s) {t t' : T} {Q Q' : List E}
    (hQ : Committed P s.hist t Q) (hQ' : Committed P s.hist t' Q') : Q <+: Q' ∨ Q' <+: Q := by
  rcases hQ with rfl | ⟨t₀, k, -, hch, hpre⟩
  · exact Or.inl List.nil_prefix
  rcases hQ' with rfl | ⟨t₁, k', -, hch', hpre'⟩
  · exact Or.inr List.nil_prefix
  have hown : Q <+: s.hist.leaderLog t₀ := hpre.trans (List.take_prefix _ _)
  have hown' : Q' <+: s.hist.leaderLog t₁ := hpre'.trans (List.take_prefix _ _)
  -- the leader of the later of the two terms has both
  rcases lt_trichotomy t₀ t₁ with hlt | rfl | hlt
  · have hlater := h.complete t₀ t₁ k hlt (hch'.1.led h.logs.leaders) hch.1 hch.choosable
    exact List.prefix_or_prefix_of_prefix (hpre.trans hlater) hown'
  · exact List.prefix_or_prefix_of_prefix hown hown'
  · have hlater := h.complete t₁ t₀ k' hlt (hch.1.led h.logs.leaders) hch'.1 hch'.choosable
    exact List.prefix_or_prefix_of_prefix hown (hpre'.trans hlater)

/-- **Committed prefixes agree**: of what two servers had committed, at two moments of a run, one
continues the other. -/
theorem committed_comparable (h : CommitInv P s) (hs : Steps P .commits s s') (a b : N) :
    (s.srv a).committed <+: (s'.srv b).committed ∨
      (s'.srv b).committed <+: (s.srv a).committed := by
  have h' := commitInv_steps h hs
  exact h'.comparable (Committed.steps h hs (h.law a).committed le_rfl) (h'.law b).committed

end RaftRx.Protocol
