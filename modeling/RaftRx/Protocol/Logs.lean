import RaftRx.Library.Overlay
import RaftRx.Protocol.Election

/-!
Log matching: a log is, up to each of its entries, the log of the leader of that entry's term.

* `Coherent P g L`: up to each entry, `L` is a prefix of the recorded log of the leader of the
  entry's term; two coherent logs with an entry of one term at one position agree up to it
  (`Coherent.matching`);
* `LeadersOk`: recorded leader logs are coherent, numbered from `1` and bounded by their term;
* `merge_of_overlay`: a batch written over the log is a merge;
* `merge_cases`, `merge_prefix_of_le`: a follower that accepts a batch keeps its log or gets a
  prefix of the leader's log, and loses nothing it shares with the leader;
* `LogInv`, `logInv_step`: the invariant and its preservation in the modes that keep logs,
  crashes included;
* `log_matching`: logs of two servers with an entry of one term at one position are equal up to
  and including it.
-/

set_option linter.unusedSectionVars false

namespace RaftRx.Protocol

variable {N T E : Type*} [DecidableEq N] [LinearOrder T] [Zero T]

/-! ### Coherent logs -/

/-- Up to each of its entries, `L` is a prefix of the leader log of that entry's term. -/
def Coherent (P : Params N T E) (g : History N T E) (L : List E) : Prop :=
  ∀ k e, L[k]? = some e → L.take (k + 1) <+: g.leaderLog (P.termOf e)

/-- Recorded leader logs only grow. -/
def Grows (g g' : History N T E) : Prop := ∀ t, g.leaderLog t <+: g'.leaderLog t

/-- A prefix has the entries of the list it is a prefix of. -/
lemma getElem?_of_isPrefix {α : Type*} {l l' : List α} (h : l <+: l') {k : ℕ} {a : α}
    (hk : l[k]? = some a) : l'[k]? = some a := by
  obtain ⟨r, rfl⟩ := h
  have hlt : k < l.length := (List.getElem?_eq_some_iff.mp hk).1
  rw [List.getElem?_append_left hlt]
  exact hk

/-- Below its length a prefix determines the entries. -/
lemma getElem?_isPrefix {α : Type*} {l l' : List α} (h : l <+: l') {k : ℕ} (hk : k < l.length) :
    l'[k]? = l[k]? := by
  rw [List.getElem?_eq_getElem hk]
  exact getElem?_of_isPrefix h (List.getElem?_eq_getElem hk)

/-- Two prefixes of one list, the first no longer than the second. -/
lemma prefix_of_prefix_le {α : Type*} {l l₁ l₂ : List α} (h₁ : l₁ <+: l) (h₂ : l₂ <+: l)
    (hle : l₁.length ≤ l₂.length) : l₁ <+: l₂ :=
  List.prefix_of_prefix_length_le h₁ h₂ hle

/-- Prefixes of one list of equal length are equal. -/
lemma eq_of_prefix_length {α : Type*} {l l₁ l₂ : List α} (h₁ : l₁ <+: l) (h₂ : l₂ <+: l)
    (hlen : l₁.length = l₂.length) : l₁ = l₂ :=
  (prefix_of_prefix_le h₁ h₂ hlen.le).eq_of_length hlen

/-- A prefix is cut out by its length. -/
lemma take_eq_of_isPrefix {α : Type*} {l l' : List α} (h : l <+: l') {k : ℕ} (hk : k ≤ l.length) :
    l'.take k = l.take k := by
  obtain ⟨r, rfl⟩ := h
  exact List.take_append_of_le_length hk

namespace Coherent

variable {P : Params N T E} {g g' : History N T E} {L L' : List E}

lemma nil : Coherent P g [] := by
  intro k e h
  simp at h

lemma mono (h : Coherent P g L) (hg : Grows g g') : Coherent P g' L :=
  fun k e he => (h k e he).trans (hg _)

lemma of_isPrefix (h : Coherent P g L) (hp : L' <+: L) : Coherent P g L' := by
  intro k e he
  have hlt : k < L'.length := (List.getElem?_eq_some_iff.mp he).1
  rw [← take_eq_of_isPrefix hp (by omega)]
  exact h k e (getElem?_of_isPrefix hp he)

/-- The entry itself is on record in the log of its leader. -/
lemma getElem? (h : Coherent P g L) {k : ℕ} {e : E} (he : L[k]? = some e) :
    (g.leaderLog (P.termOf e))[k]? = some e := by
  refine getElem?_of_isPrefix (h k e he) ?_
  rw [List.getElem?_take_of_lt (by omega)]
  exact he

/-- **Log matching for coherent logs.** -/
theorem matching (h : Coherent P g L) (h' : Coherent P g L') {k : ℕ} {e e' : E}
    (he : L[k]? = some e) (he' : L'[k]? = some e') (ht : P.termOf e = P.termOf e') :
    L.take (k + 1) = L'.take (k + 1) := by
  have h1 := h k e he
  have h2 := h' k e' he'
  rw [← ht] at h2
  have hlt : k < L.length := (List.getElem?_eq_some_iff.mp he).1
  have hlt' : k < L'.length := (List.getElem?_eq_some_iff.mp he').1
  refine eq_of_prefix_length h1 h2 ?_
  rw [List.length_take, List.length_take]
  omega

/-- A log that ends with an entry of term `t` is a prefix of the leader log of `t`. -/
lemma prefix_of_lastTerm (h : Coherent P g L) {t : T} (hne : L ≠ [])
    (ht : lastTerm P.termOf L = t) : L <+: g.leaderLog t := by
  have hlast : L[L.length - 1]? = some (L.getLast hne) := by
    rw [← List.getLast?_eq_getElem?, List.getLast?_eq_some_getLast hne]
  have hlen : 0 < L.length := List.length_pos_iff.mpr hne
  have hpre := h _ _ hlast
  rw [List.take_of_length_le (by omega)] at hpre
  rw [lastTerm, List.getLast?_eq_some_getLast hne] at ht
  simp only [Option.map_some, Option.getD_some] at ht
  rw [← ht]
  exact hpre

end Coherent

/-- What is recorded about leaders: their logs are coherent, numbered and bounded, and a term
without a winner has no log. -/
structure LeadersOk (P : Params N T E) (g : History N T E) : Prop where
  coherent : ∀ t, Coherent P g (g.leaderLog t)
  index : ∀ t (k : ℕ) e, (g.leaderLog t)[k]? = some e → P.indexOf e = (k : ℤ) + 1
  nonneg : ∀ t, ∀ e ∈ g.leaderLog t, 0 ≤ P.termOf e
  bounded : ∀ t, ∀ e ∈ g.leaderLog t, P.termOf e ≤ t
  unled : ∀ t, g.led t = none → g.leaderLog t = []

/-- A batch is a slice of the log of the leader that sent it. -/
def BatchOk (P : Params N T E) (g : History N T E) (t : T) (prev : ℕ) (pt : T)
    (es : List E) : Prop :=
  prev ≤ (g.leaderLog t).length ∧ pt = termAt P.termOf (g.leaderLog t) prev ∧
    es <+: (g.leaderLog t).drop prev

/-- The law of messages about logs. -/
def Msg.LogOk (P : Params N T E) (g : History N T E) : Msg N T E → Prop
  | .append _ _ t prev pt es _ => BatchOk P g t prev pt es
  | _ => True

lemma termAt_of_isPrefix {τ : E → T} {L L' : List E} (h : L <+: L') {i : ℕ} (hi : i ≤ L.length) :
    termAt τ L' i = termAt τ L i := by
  rw [termAt, termAt]
  split
  · rfl
  · rw [getElem?_isPrefix h (by omega)]

lemma BatchOk.mono {P : Params N T E} {g g' : History N T E} {t : T} {prev : ℕ} {pt : T}
    {es : List E} (h : BatchOk P g t prev pt es) (hg : Grows g g') :
    BatchOk P g' t prev pt es := by
  obtain ⟨hle, hpt, hes⟩ := h
  obtain ⟨r, hr⟩ := hg t
  refine ⟨?_, ?_, ?_⟩
  · rw [← hr, List.length_append]; omega
  · rw [hpt, termAt_of_isPrefix (hg t) hle]
  · rw [← hr, List.drop_append_of_le_length hle]
    exact hes.trans (List.prefix_append _ _)

lemma Msg.LogOk.mono {P : Params N T E} {g g' : History N T E} {m : Msg N T E}
    (h : m.LogOk P g) (hg : Grows g g') : m.LogOk P g' := by
  cases m with
  | append src dst t prev pt es lc => exact BatchOk.mono h hg
  | _ => trivial

/-! ### Accepting a batch -/

section Accept

variable {P : Params N T E} {g : History N T E} {L L' es : List E} {t : T} {prev : ℕ} {pt : T}

/-- The batch continues the leader's log after `prev`. -/
lemma BatchOk.take (hb : BatchOk P g t prev pt es) :
    (g.leaderLog t).take (prev + es.length) = (g.leaderLog t).take prev ++ es := by
  obtain ⟨hle, -, r, hr⟩ := hb
  have hdrop : (g.leaderLog t).drop prev = es ++ r := hr.symm
  rw [List.take_add, hdrop, List.take_left']
  rfl

lemma BatchOk.getElem? (hb : BatchOk P g t prev pt es) {k : ℕ} {e : E} (he : es[k]? = some e) :
    (g.leaderLog t)[prev + k]? = some e := by
  rw [← List.getElem?_drop]
  exact getElem?_of_isPrefix hb.2.2 he

/-- The check of the previous entry: the logs agree up to `prev`. -/
lemma take_prev_eq (hL : Coherent P g L) (hok : LeadersOk P g) (hb : BatchOk P g t prev pt es)
    (hprev : prev ≤ L.length) (hpt : termAt P.termOf L prev = pt) :
    L.take prev = (g.leaderLog t).take prev := by
  obtain ⟨hle, hpt', -⟩ := hb
  by_cases h0 : prev = 0
  · rw [h0, List.take_zero, List.take_zero]
  · have h1 : L[prev - 1]? = some (L[prev - 1]) := List.getElem?_eq_getElem (by omega)
    have h2 : (g.leaderLog t)[prev - 1]? = some ((g.leaderLog t)[prev - 1]) :=
      List.getElem?_eq_getElem (by omega)
    rw [hpt', termAt, termAt, if_neg h0, if_neg h0, h1, h2] at hpt
    simp only [Option.map_some, Option.getD_some] at hpt
    have := hL.matching (hok.coherent t) h1 h2 hpt
    rwa [show prev - 1 + 1 = prev from by omega] at this

/-- Agreement of terms below `n` is agreement with the leader's log up to `prev + n`. -/
lemma take_add_eq (hL : Coherent P g L) (hok : LeadersOk P g) (hb : BatchOk P g t prev pt es)
    (hprev : prev ≤ L.length) (hpt : termAt P.termOf L prev = pt) {n : ℕ}
    (hag : AgreeBelow P.termOf L prev es n) (hn : prev + n ≤ L.length) (hn' : n ≤ es.length) :
    L.take (prev + n) = (g.leaderLog t).take (prev + n) := by
  cases n with
  | zero => exact take_prev_eq hL hok hb hprev hpt
  | succ n =>
      have h1 : L[prev + n]? = some (L[prev + n]) := List.getElem?_eq_getElem (by omega)
      have h2 : es[n]? = some (es[n]) := List.getElem?_eq_getElem (by omega)
      have ht := hag n (by omega) _ _ h1 h2
      exact hL.matching (hok.coherent t) h1 (hb.getElem? h2) ht

/-- A log that agrees with the batch and does not reach beyond it is a prefix of the leader's. -/
lemma prefix_of_agree (hL : Coherent P g L) (hok : LeadersOk P g) (hb : BatchOk P g t prev pt es)
    (hprev : prev ≤ L.length) (hpt : termAt P.termOf L prev = pt)
    (hag : AgreeBelow P.termOf L prev es es.length) (hle : L.length ≤ prev + es.length) :
    L <+: g.leaderLog t := by
  have hag' : AgreeBelow P.termOf L prev es (L.length - prev) :=
    fun k hk => hag k (by omega)
  have := take_add_eq hL hok hb hprev hpt hag' (by omega) (by omega)
  rw [List.take_of_length_le (by omega)] at this
  rw [this]
  exact List.take_prefix _ _

/-- Continuing a prefix of the leader's log with the rest of the batch. -/
lemma prefix_append_batch (hb : BatchOk P g t prev pt es) {c j : ℕ} (hc : c ≤ es.length)
    (hp : L.take (prev + c) = (g.leaderLog t).take (prev + c)) :
    L.take (prev + c) ++ (es.drop c).take j <+: g.leaderLog t := by
  have hbase := hb.take
  have hle := hb.1
  have hsplit : (g.leaderLog t).take prev ++ es
      = (g.leaderLog t).take (prev + c) ++ es.drop c := by
    have htake : (g.leaderLog t).take (prev + c) = (g.leaderLog t).take prev ++ es.take c := by
      have h1 : ((g.leaderLog t).take (prev + es.length)).take (prev + c)
          = (g.leaderLog t).take (prev + c) := by
        rw [List.take_take, min_eq_left (by omega)]
      rw [← h1, hbase, List.take_append, List.length_take, min_eq_left hle]
      congr 1
      · exact List.take_of_length_le (by rw [List.length_take]; omega)
      · rw [show prev + c - prev = c from by omega]
    rw [htake, List.append_assoc, List.take_append_drop]
  rw [hp]
  refine List.IsPrefix.trans ?_ (List.take_prefix (prev + es.length) (g.leaderLog t))
  rw [hbase, hsplit]
  exact (List.prefix_append_right_inj _).mpr (List.take_prefix _ _)

/-- An extended log is a prefix of the leader's. -/
lemma prefix_of_extend (hL : Coherent P g L) (hok : LeadersOk P g) (hb : BatchOk P g t prev pt es)
    (hprev : prev ≤ L.length) (hpt : termAt P.termOf L prev = pt)
    (hag : AgreeBelow P.termOf L prev es es.length) (hle : L.length ≤ prev + es.length) (j : ℕ) :
    L ++ (es.drop (L.length - prev)).take j <+: g.leaderLog t := by
  have hpre := prefix_of_agree hL hok hb hprev hpt hag hle
  have hlen : prev + (L.length - prev) = L.length := by omega
  have hp : L.take (prev + (L.length - prev))
      = (g.leaderLog t).take (prev + (L.length - prev)) := by
    rw [hlen, take_eq_of_isPrefix hpre le_rfl]
  have hbatch := prefix_append_batch (j := j) hb (by omega) hp
  rw [hlen, List.take_of_length_le le_rfl] at hbatch
  exact hbatch

/-- A log cut at a conflict and continued with the batch is a prefix of the leader's. -/
lemma prefix_of_replace (hL : Coherent P g L) (hok : LeadersOk P g) (hb : BatchOk P g t prev pt es)
    (hprev : prev ≤ L.length) (hpt : termAt P.termOf L prev = pt) {c : ℕ} {e e' : E}
    (he : L[prev + c]? = some e) (he' : es[c]? = some e')
    (hag : AgreeBelow P.termOf L prev es c) (j : ℕ) :
    L.take (prev + c) ++ (es.drop c).take j <+: g.leaderLog t := by
  have hltL : prev + c < L.length := (List.getElem?_eq_some_iff.mp he).1
  have hltes : c < es.length := (List.getElem?_eq_some_iff.mp he').1
  exact prefix_append_batch hb (by omega)
    (take_add_eq hL hok hb hprev hpt hag (by omega) (by omega))

/-- **A batch written over the log** is a merge, also when the outcome is cut off at a capacity that
the log respects. -/
theorem merge_of_overlay {τ : E → T} {clash : E → E → Bool}
    (hterm : ∀ e e', clash e e' = false → τ e = τ e') (hne : ∀ e e', clash e e' = true → e ≠ e')
    {i cap : ℕ} (hi : i ≤ L.length) (hcap : L.length ≤ cap) :
    Merge τ L i es ((L.take i ++ overlay clash (L.drop i) es).take cap) := by
  cases hfirst : firstClash clash (L.drop i) es with
  | none =>
      have hagree : AgreeBelow τ L i es es.length := by
        intro k _ e e' he he'
        rw [← List.getElem?_drop] at he
        exact hterm e e' (firstClash_eq_none.mp hfirst k e e' he he')
      have hlog : (L.take i ++ overlay clash (L.drop i) es).take cap =
          L ++ (es.drop (L.length - i)).take (cap - L.length) := by
        rw [overlay_of_none hfirst, ← List.append_assoc, List.take_append_drop, List.length_drop,
          List.take_append, List.take_of_length_le hcap]
      rw [hlog]
      cases le_total L.length (i + es.length) with
      | inl hle => exact Merge.extend _ hagree hi hle
      | inr hle =>
          rw [List.drop_eq_nil_of_le (by omega), List.take_nil, List.append_nil]
          exact Merge.keep hagree
  | some k =>
      obtain ⟨⟨e, e', he, he', hc⟩, hbelow⟩ := firstClash_eq_some.mp hfirst
      rw [List.getElem?_drop] at he
      have hlt := (List.getElem?_eq_some_iff.mp he).1
      have hlog : (L.take i ++ overlay clash (L.drop i) es).take cap =
          L.take (i + k) ++ (es.drop k).take (cap - (i + k)) := by
        have hlen : (L.take (i + k)).length = i + k := List.length_take_of_le hlt.le
        rw [overlay_of_some hfirst, ← List.append_assoc, ← List.take_add, List.take_append,
          List.take_of_length_le (by omega), hlen]
      rw [hlog]
      refine Merge.replace k _ e e' he he' (hne e e' hc) fun j hj f f' hf hf' => ?_
      rw [← List.getElem?_drop] at hf
      exact hterm f f' (hbelow j hj f f' hf hf')

/-- **The two outcomes of a merge**: the log is kept, or it becomes a prefix of the leader's log
that still has everything the two logs shared. -/
theorem merge_cases (hL : Coherent P g L) (hok : LeadersOk P g) (hb : BatchOk P g t prev pt es)
    (hprev : prev ≤ L.length) (hpt : termAt P.termOf L prev = pt)
    (hm : Merge P.termOf L prev es L') :
    L' = L ∨ (L' <+: g.leaderLog t ∧ ∀ Q, Q <+: L → Q <+: g.leaderLog t → Q <+: L') := by
  cases hm with
  | keep _ => exact Or.inl rfl
  | extend j hag _ hle =>
      exact Or.inr ⟨prefix_of_extend hL hok hb hprev hpt hag hle j,
        fun Q hQ _ => hQ.trans (List.prefix_append _ _)⟩
  | replace c j e e' he he' hne hag =>
      refine Or.inr ⟨prefix_of_replace hL hok hb hprev hpt he he' hag j, fun Q hQ hQ' => ?_⟩
      -- a common prefix stops before the conflict
      have hlen : Q.length ≤ prev + c := by
        by_contra hgt
        have h1 := getElem?_isPrefix hQ (k := prev + c) (by omega)
        have h2 := getElem?_isPrefix hQ' (k := prev + c) (by omega)
        rw [he] at h1
        rw [hb.getElem? he', ← h1] at h2
        exact hne (Option.some.inj h2).symm
      have hltL : prev + c < L.length := (List.getElem?_eq_some_iff.mp he).1
      have hQt : Q <+: L.take (prev + c) :=
        prefix_of_prefix_le hQ (List.take_prefix _ _) (by rw [List.length_take]; omega)
      exact hQt.trans (List.prefix_append _ _)

/-- A merged log that does not reach beyond the batch is a prefix of the leader's log. -/
lemma merge_prefix_of_le (hL : Coherent P g L) (hok : LeadersOk P g)
    (hb : BatchOk P g t prev pt es) (hprev : prev ≤ L.length) (hpt : termAt P.termOf L prev = pt)
    (hm : Merge P.termOf L prev es L') (hle : L'.length ≤ prev + es.length) :
    L' <+: g.leaderLog t := by
  cases hm with
  | keep hag => exact prefix_of_agree hL hok hb hprev hpt hag hle
  | extend j hag _ hle' => exact prefix_of_extend hL hok hb hprev hpt hag hle' j
  | replace c j e e' he he' hne hag => exact prefix_of_replace hL hok hb hprev hpt he he' hag j

end Accept

/-! ### The invariant -/

/-- **The log law of a server.** -/
structure LogLaw (P : Params N T E) (g : History N T E) (x : Server N T E) : Prop where
  log : Coherent P g x.log
  stableLog : Coherent P g x.stableLog
  log_le : ∀ e ∈ x.log, P.termOf e ≤ x.term
  stable_le : ∀ e ∈ x.stableLog, P.termOf e ≤ x.stableTerm
  leader : x.role = .leader → x.log = g.leaderLog x.term
  queued : ∀ m ∈ x.outbox, m.LogOk P g

namespace LogLaw

variable {P : Params N T E} {g g' : History N T E} {x x' : Server N T E}

/-- The law survives growing leader logs as long as the server's own term has not grown. -/
lemma mono (h : LogLaw P g x) (hg : Grows g g')
    (hown : x.role = .leader → g'.leaderLog x.term = g.leaderLog x.term) : LogLaw P g' x where
  log := h.log.mono hg
  stableLog := h.stableLog.mono hg
  log_le := h.log_le
  stable_le := h.stable_le
  leader := fun hr => (h.leader hr).trans (hown hr).symm
  queued := fun m hm => (h.queued m hm).mono hg

/-- A step that keeps logs and terms and takes no leadership up. -/
lemma frame (h : LogLaw P g x) (hl : x'.log = x.log) (hsl : x'.stableLog = x.stableLog)
    (ht : x'.term = x.term) (hst : x'.stableTerm = x.stableTerm)
    (hr : x'.role = .leader → x.role = .leader)
    (hout : ∀ m ∈ x'.outbox, m ∈ x.outbox ∨ m.LogOk P g) : LogLaw P g x' where
  log := by rw [hl]; exact h.log
  stableLog := by rw [hsl]; exact h.stableLog
  log_le := by rw [hl, ht]; exact h.log_le
  stable_le := by rw [hsl, hst]; exact h.stable_le
  leader := by rw [hl, ht]; exact fun hc => h.leader (hr hc)
  queued := fun m hm => (hout m hm).elim (h.queued m) id

end LogLaw

/-- **The log invariant.** -/
structure LogInv (P : Params N T E) (s : State N T E) : Prop where
  election : ElectionInv P s
  leaders : LeadersOk P s.hist
  law : ∀ n, LogLaw P s.hist (s.srv n)
  sent : ∀ m ∈ s.sent, m.LogOk P s.hist

namespace LogInv

variable {s : State N T E} {P : Params N T E}

/-- A step of one server that records nothing about leaders. -/
lemma put {n : N} {x : Server N T E} {S : Set (Msg N T E)} {g : History N T E} (h : LogInv P s)
    (hinv : ElectionInv P { s.put n x with sent := S, hist := g })
    (hled : g.led = s.hist.led) (hlog : g.leaderLog = s.hist.leaderLog)
    (hx : LogLaw P s.hist x) (hS : ∀ m ∈ S, m ∈ s.sent ∨ m.LogOk P s.hist) :
    LogInv P { s.put n x with sent := S, hist := g } := by
  have hg : Grows s.hist g := fun t => by rw [hlog]
  refine ⟨hinv, ⟨fun t => ?_, ?_, ?_, ?_, ?_⟩, State.forall_put (Q := fun _ => LogLaw P g) ?_ ?_, ?_⟩
  · rw [hlog]; exact (h.leaders.coherent t).mono hg
  · rw [hlog]; exact h.leaders.index
  · rw [hlog]; exact h.leaders.nonneg
  · rw [hlog]; exact h.leaders.bounded
  · rw [hlog, hled]; exact h.leaders.unled
  · exact hx.mono hg fun _ => by rw [hlog]
  · exact fun p _ => (h.law p).mono hg fun _ => by rw [hlog]
  · exact fun m hm => ((hS m hm).elim (h.sent m) id).mono hg

/-- The leader of a term is the only server that leads it. -/
lemma leader_unique (h : LogInv P s) {n p : N} (hn : (s.srv n).role = .leader)
    (hp : (s.srv p).role = .leader) (ht : (s.srv p).term = (s.srv n).term) : p = n := by
  have h1 := (h.election.law n).leader hn
  have h2 := (h.election.law p).leader hp
  rw [ht, h1] at h2
  exact (Option.some.inj h2).symm

/-- A step of a server `n` that extends the recorded log of the term it leads. -/
lemma put_lead {n : N} {x : Server N T E} {g : History N T E} (h : LogInv P s)
    (hinv : ElectionInv P { s.put n x with hist := g }) {t : T} {L : List E}
    (hlog : g.leaderLog = Function.update s.hist.leaderLog t L)
    (hled : ∀ t', t' ≠ t → g.led t' = s.hist.led t') (hledt : g.led t ≠ none)
    (hpre : s.hist.leaderLog t <+: L) (hcoh : Coherent P g L)
    (hidx : ∀ (k : ℕ) e, L[k]? = some e → P.indexOf e = (k : ℤ) + 1) (hnn : ∀ e ∈ L, 0 ≤ P.termOf e)
    (hbd : ∀ e ∈ L, P.termOf e ≤ t) (hx : LogLaw P g x)
    (hothers : ∀ p, p ≠ n → (s.srv p).role = .leader → (s.srv p).term ≠ t) :
    LogInv P { s.put n x with hist := g } := by
  have hg : Grows s.hist g := by
    intro t'
    rw [hlog]
    by_cases heq : t' = t
    · subst heq; rw [Function.update_self]; exact hpre
    · rw [Function.update_of_ne heq]
  have hself : g.leaderLog t = L := by rw [hlog, Function.update_self]
  have hne : ∀ t', t' ≠ t → g.leaderLog t' = s.hist.leaderLog t' :=
    fun t' heq => by rw [hlog, Function.update_of_ne heq]
  refine ⟨hinv, ⟨fun t' => ?_, fun t' => ?_, fun t' => ?_, fun t' => ?_, fun t' ht' => ?_⟩,
    State.forall_put (Q := fun _ => LogLaw P g) hx fun p hp => ?_, fun m hm => (h.sent m hm).mono hg⟩
  · by_cases heq : t' = t
    · rw [heq, hself]; exact hcoh
    · rw [hne t' heq]; exact (h.leaders.coherent t').mono hg
  · by_cases heq : t' = t
    · rw [heq, hself]; exact hidx
    · rw [hne t' heq]; exact h.leaders.index t'
  · by_cases heq : t' = t
    · rw [heq, hself]; exact hnn
    · rw [hne t' heq]; exact h.leaders.nonneg t'
  · by_cases heq : t' = t
    · rw [heq, hself]; exact hbd
    · rw [hne t' heq]; exact h.leaders.bounded t'
  · by_cases heq : t' = t
    · rw [heq] at ht'; exact absurd ht' hledt
    · rw [hne t' heq]
      exact h.leaders.unled t' (hled t' heq ▸ ht')
  · exact (h.law p).mono hg fun hr => hne _ (hothers p hp hr)

/-- Entries of a server's log are numbered by their position. -/
lemma index_log (h : LogInv P s) (n : N) {k : ℕ} {e : E} (he : (s.srv n).log[k]? = some e) :
    P.indexOf e = k + 1 :=
  h.leaders.index _ k e ((h.law n).log.getElem? he)

end LogInv

@[simp] lemma History.campaign_leaderLog (g : History N T E) (n : N) (t : T) (L : List E) :
    (g.campaign n t L).leaderLog = g.leaderLog := rfl

@[simp] lemma History.hold_leaderLog (g : History N T E) (n : N) (t : T) (k : ℕ) :
    (g.hold n t k).leaderLog = g.leaderLog := rfl

@[simp] lemma History.cast_leaderLog (g : History N T E) (m : Msg N T E) :
    (g.cast m).leaderLog = g.leaderLog := by
  unfold History.cast
  split <;> rfl

@[simp] lemma History.lead_leaderLog (g : History N T E) (n : N) (t : T) (L : List E) :
    (g.lead n t L).leaderLog = Function.update g.leaderLog t L := rfl

/-- **Every step keeps the log invariant in the modes that keep logs.** -/
theorem logInv_step {s s' : State N T E} {P : Params N T E} {mode : Mode}
    (hmode : mode.keepsLogs) (h : LogInv P s) (hs : Step P mode s s') : LogInv P s' := by
  have hinv := electionInv_step hmode.elects h.election hs
  have hmem : ∀ m ∈ s.sent, m ∈ s.sent ∨ m.LogOk P s.hist := fun m hm => Or.inl hm
  cases hs with
  | observe n t ht =>
      have hlaw := h.law n
      exact h.put hinv rfl rfl ⟨hlaw.log, hlaw.stableLog, fun e he => (hlaw.log_le e he).trans ht.le,
        hlaw.stable_le, fun hr => absurd hr (by simp), hlaw.queued⟩ hmem
  | campaign n t reqs ht hreqs =>
      have hlaw := h.law n
      refine h.put hinv rfl rfl ⟨hlaw.log, hlaw.stableLog,
        fun e he => (hlaw.log_le e he).trans ht.le, hlaw.stable_le, fun hr => absurd hr (by simp),
        fun m hm => ?_⟩ hmem
      rcases List.mem_append.mp hm with hm | hm
      · exact hlaw.queued m hm
      · obtain ⟨p, li, lt, rfl, -⟩ := hreqs m hm
        trivial
  | save n =>
      have hlaw := h.law n
      exact h.put hinv rfl rfl ⟨hlaw.log, hlaw.stableLog, hlaw.log_le,
        fun e he => (hlaw.stable_le e he).trans (h.election.ballots.law n).stable_le,
        hlaw.leader, hlaw.queued⟩ hmem
  | saveLog n hst =>
      have hlaw := h.law n
      exact h.put hinv rfl rfl ⟨hlaw.log, hlaw.log, hlaw.log_le,
        fun e he => (hlaw.log_le e he).trans hst.ge, hlaw.leader, hlaw.queued⟩ hmem
  | crash n V μ c d u _ =>
      have hlaw := h.law n
      exact h.put hinv rfl rfl ⟨hlaw.stableLog, hlaw.stableLog, hlaw.stable_le, hlaw.stable_le,
        fun hr => absurd hr (by simp), by simp⟩ hmem
  | win n hr hst hsv hm =>
      have hlaw := h.law n
      have hnone := h.election.led_none_of_win hr hst hsv hm
      have hnil := h.leaders.unled _ hnone
      have hgrow : Grows s.hist (((s.hist.cast (.grant n n (s.srv n).term)).lead n (s.srv n).term
          (s.srv n).log).hold n (s.srv n).term (s.srv n).log.length) := by
        intro t
        simp only [History.hold_leaderLog, History.lead_leaderLog, History.cast_leaderLog]
        by_cases heq : t = (s.srv n).term
        · rw [heq, hnil]; exact List.nil_prefix
        · rw [Function.update_of_ne heq]
      refine h.put_lead hinv (t := (s.srv n).term) (L := (s.srv n).log) (by simp)
        (fun t' hne => by simp [Function.update_of_ne hne]) (by simp)
        (by rw [hnil]; exact List.nil_prefix) (hlaw.log.mono hgrow)
        (fun k e he => h.index_log n he) (fun e he => ?_) hlaw.log_le ?_ fun p _ hp heq => ?_
      · obtain ⟨k, hk⟩ := List.getElem?_of_mem he
        exact h.leaders.nonneg _ e (List.mem_of_getElem? (hlaw.log.getElem? hk))
      · exact ⟨hlaw.log.mono hgrow, hlaw.stableLog.mono hgrow, hlaw.log_le, hlaw.stable_le,
          fun _ => by simp, fun m hm => (hlaw.queued m hm).mono hgrow⟩
      · have := (h.election.law p).leader hp
        rw [heq, hnone] at this
        exact absurd this (by simp)
  | append n e hr hte hie =>
      have hlaw := h.law n
      have hlog := hlaw.leader hr
      have hzero : 0 ≤ (s.srv n).term :=
        (h.election.ballots.law n).zero_le.trans (h.election.ballots.law n).stable_le
      have hgrow : Grows s.hist ((s.hist.lead n (s.srv n).term ((s.srv n).log ++ [e])).hold n
          (s.srv n).term ((s.srv n).log.length + 1)) := by
        intro t
        simp only [History.hold_leaderLog, History.lead_leaderLog]
        by_cases heq : t = (s.srv n).term
        · rw [heq, Function.update_self, ← hlog]; exact List.prefix_append _ _
        · rw [Function.update_of_ne heq]
      -- the new entry closes the leader's own log
      have hcoh : Coherent P ((s.hist.lead n (s.srv n).term ((s.srv n).log ++ [e])).hold n
          (s.srv n).term ((s.srv n).log.length + 1)) ((s.srv n).log ++ [e]) := by
        intro k e' he'
        by_cases hk : k < (s.srv n).log.length
        · rw [List.getElem?_append_left hk] at he'
          rw [List.take_append_of_le_length (by omega)]
          exact hlaw.log.mono hgrow k e' he'
        · have hlt := (List.getElem?_eq_some_iff.mp he').1
          rw [List.length_append, List.length_singleton] at hlt
          have hk' : k = (s.srv n).log.length := by omega
          subst hk'
          rw [List.getElem?_concat_length, Option.some.injEq] at he'
          rw [← he', hte, List.take_of_length_le (by simp)]
          simp
      refine h.put_lead hinv (t := (s.srv n).term) (L := (s.srv n).log ++ [e]) (by simp)
        (fun t' hne => by simp [Function.update_of_ne hne]) (by simp)
        (by rw [← hlog]; exact List.prefix_append _ _) hcoh (fun k e' he' => ?_)
        (fun e' he' => ?_) (fun e' he' => ?_) ?_ fun p hp hpl heq => ?_
      · by_cases hk : k < (s.srv n).log.length
        · rw [List.getElem?_append_left hk] at he'
          exact h.index_log n he'
        · have hlt := (List.getElem?_eq_some_iff.mp he').1
          rw [List.length_append, List.length_singleton] at hlt
          have hk' : k = (s.srv n).log.length := by omega
          subst hk'
          rw [List.getElem?_concat_length, Option.some.injEq] at he'
          rw [← he']
          exact hie
      · rcases List.mem_append.mp he' with he' | he'
        · rw [hlog] at he'; exact h.leaders.nonneg _ e' he'
        · rw [List.mem_singleton.mp he', hte]; exact hzero
      · rcases List.mem_append.mp he' with he' | he'
        · exact hlaw.log_le e' he'
        · rw [List.mem_singleton.mp he', hte]
      · refine ⟨hcoh, hlaw.stableLog.mono hgrow, fun e' he' => ?_, hlaw.stable_le, fun _ => by simp,
          fun m hm => (hlaw.queued m hm).mono hgrow⟩
        rcases List.mem_append.mp he' with he' | he'
        · exact hlaw.log_le e' he'
        · rw [List.mem_singleton.mp he', hte]
      · exact hp (h.leader_unique hr hpl heq)
  | send n p prev es c hr hprev hes _ =>
      have hlaw := h.law n
      refine h.put hinv rfl rfl (hlaw.frame rfl rfl rfl rfl id fun m hm => ?_) hmem
      rcases List.mem_append.mp hm with hm | hm
      · exact Or.inl hm
      · right
        rw [List.mem_singleton.mp hm]
        have hlog := hlaw.leader hr
        exact ⟨hlog ▸ hprev, by rw [hlog], hlog ▸ hes⟩
  | accept n src prev pt es L lc c d hheard hr hprev hpt hmerge _ _ _ _ =>
      have hlaw := h.law n
      have hb : BatchOk P s.hist (s.srv n).term prev pt es := h.sent _ (hheard hmode.elects)
      have hcases := merge_cases hlaw.log h.leaders hb hprev hpt hmerge
      have hcoh : Coherent P s.hist L := by
        rcases hcases with rfl | ⟨hpre, -⟩
        · exact hlaw.log
        · exact (h.leaders.coherent _).of_isPrefix hpre
      refine h.put hinv rfl rfl ⟨hcoh, hlaw.stableLog, fun e he => ?_, hlaw.stable_le,
        fun hc => ?_, fun m hm => ?_⟩ hmem
      · rcases hcases with rfl | ⟨hpre, -⟩
        · exact hlaw.log_le e he
        · exact h.leaders.bounded _ e (hpre.subset he)
      · rw [hr] at hc; exact absurd hc (by simp)
      · rcases List.mem_append.mp hm with hm | hm
        · exact hlaw.queued m hm
        · rw [List.mem_singleton.mp hm]; trivial
  | flush n m rest hout _ _ =>
      have hlaw := h.law n
      refine h.put hinv (by simp) (by simp) (hlaw.frame rfl rfl rfl rfl id fun m' hm' => ?_)
        fun m' hm' => ?_
      · left
        rw [hout]
        exact List.mem_cons_of_mem _ hm'
      · rcases hm' with rfl | hm'
        · exact Or.inr (hlaw.queued m' (by rw [hout]; exact List.mem_cons_self))
        · exact Or.inl hm'
  | grant n c li lt _ _ _ =>
      refine h.put hinv rfl rfl ((h.law n).frame rfl rfl rfl rfl id fun m hm => ?_) hmem
      rcases List.mem_append.mp hm with hm | hm
      · exact Or.inl hm
      · rw [List.mem_singleton.mp hm]; exact Or.inr trivial
  | drop n out hsub =>
      exact h.put hinv rfl rfl ((h.law n).frame rfl rfl rfl rfl id
        fun m hm => Or.inl (hsub.subset hm)) hmem
  | stepDown n =>
      exact h.put hinv rfl rfl ((h.law n).frame rfl rfl rfl rfl (by simp)
        fun m hm => Or.inl hm) hmem
  | havocLog n L μ c ms hne _ => exact absurd hmode hne
  | havocRole n r V u hne => exact absurd hmode.elects hne
  | apply n k e _ _ => exact ⟨hinv, h.leaders, h.law, h.sent⟩
  | _ =>
      exact h.put hinv rfl rfl ((h.law _).frame rfl rfl rfl rfl id fun m hm => Or.inl hm) hmem

lemma logInv_steps {s s' : State N T E} {P : Params N T E} {mode : Mode}
    (hmode : mode.keepsLogs) (h : LogInv P s) (hs : Steps P mode s s') : LogInv P s' := by
  induction hs with
  | refl => exact h
  | tail _ hst ih => exact logInv_step hmode ih hst

/-- **Log matching**: two servers with an entry of one term at one position have the same log up
to and including it. -/
theorem log_matching {s : State N T E} {P : Params N T E} (h : LogInv P s) {a b : N} {k : ℕ}
    {e e' : E} (ha : (s.srv a).log[k]? = some e) (hb : (s.srv b).log[k]? = some e')
    (ht : P.termOf e = P.termOf e') :
    (s.srv a).log.take (k + 1) = (s.srv b).log.take (k + 1) :=
  (h.law a).log.matching (h.law b).log ha hb ht

end RaftRx.Protocol
