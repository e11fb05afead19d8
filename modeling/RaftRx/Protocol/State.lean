import RaftRx.Library.Majority
import Mathlib.Logic.Function.Basic
import Mathlib.Logic.Relation
import Mathlib.Order.Defs.LinearOrder

/-!
The abstract protocol: servers that vote, lead and replicate a log over a network that may
lose, repeat, delay and reorder messages.

Identifiers `N`, terms `T` and log entries `E` are arbitrary types; an entry is read through its
term and its index (`Params`).  A state keeps the servers, the set of messages ever sent and
history variables that no server reads: the ballot of every server in every term, the winner of
every term, the log of every leader, the log every candidate campaigned on, and the indices
acknowledged in every term.

* `Msg`, `Server`, `History`, `State`: the data; only messages that carry a promise are kept
  (a refusal promises nothing);
* `Mode`: how much of the discipline is in force.  In `ballots` a server hears anything and its
  role and log are unconstrained; in `election` the roles follow the rules and messages are
  those that were sent; in `logs` the logs follow the rules as well; in `commits` no server
  crashes and an acknowledgement covers what the leader really has (`Covered`);
* `Merge`: what a follower may turn its log into when it accepts a batch;
* `Step`: the transitions, one for each thing a server can do between two observations.
-/

namespace RaftRx.Protocol

variable {N T E : Type*}

/-- The three roles of a server. -/
inductive Role where
  | follower | candidate | leader
  deriving DecidableEq, Repr

/-- The discipline in force, weakest first. -/
inductive Mode where
  | ballots | election | logs | commits
  deriving DecidableEq, Repr

/-- Roles change by the rules and only sent messages are heard. -/
def Mode.elects : Mode → Prop
  | .ballots => False
  | _ => True

/-- Logs change by the rules. -/
def Mode.keepsLogs : Mode → Prop
  | .logs | .commits => True
  | _ => False

lemma Mode.keepsLogs.elects {mode : Mode} (h : mode.keepsLogs) : mode.elects := by
  cases mode <;> simp_all [Mode.keepsLogs, Mode.elects]

lemma Mode.elects_election : Mode.election.elects := trivial

lemma Mode.elects_commits : Mode.commits.elects := trivial

lemma Mode.keepsLogs_commits : Mode.commits.keepsLogs := trivial

/-- The voters, and the term and index an entry carries. -/
structure Params (N T E : Type*) where
  members : List N
  termOf : E → T
  indexOf : E → ℤ

/-- The messages that carry a promise. -/
inductive Msg (N T E : Type*) where
  | voteReq (src dst : N) (term : T) (lastIndex : ℕ) (lastTerm : T)
  | grant (src dst : N) (term : T)
  | append (src dst : N) (term : T) (prev : ℕ) (prevTerm : T) (entries : List E) (commit : ℕ)
  | ack (src dst : N) (term : T) (index : ℕ)

/-- The ballot a message announces: voter, term and candidate.  A vote request announces the
candidate's ballot for itself. -/
def Msg.ballot : Msg N T E → Option (N × T × N)
  | .voteReq src _ t _ _ => some (src, t, src)
  | .grant src dst t => some (src, t, dst)
  | _ => none

/-- A server: its volatile state, what it still has to send, and its stable copies.  `dirty`
says that something may differ from the stable copies; `unsettled` that a candidacy may. -/
structure Server (N T E : Type*) where
  term : T
  vote : Option N
  role : Role
  votes : Set N
  log : List E
  matched : N → ℕ
  commit : ℕ
  outbox : List (Msg N T E)
  dirty : Bool
  unsettled : Bool
  stableTerm : T
  stableVote : Option N
  stableLog : List E

/-- The history variables. -/
structure History (N T E : Type*) where
  ballot : N → T → Option N
  led : T → Option N
  leaderLog : T → List E
  candLog : N → T → Option (List E)
  acked : N → T → ℕ → Prop

/-- A state of the protocol. -/
structure State (N T E : Type*) where
  srv : N → Server N T E
  sent : Set (Msg N T E)
  applied : Set (N × ℕ × E)
  hist : History N T E

section LogReading

variable [Zero T]

/-- The term of the last entry, `0` for the empty log. -/
def lastTerm (τ : E → T) (L : List E) : T := (L.getLast?.map τ).getD 0

/-- The term at a one-based index, `0` at index `0`. -/
def termAt (τ : E → T) (L : List E) (i : ℕ) : T :=
  if i = 0 then 0 else ((L[i - 1]?).map τ).getD 0

/-- The comparison a voter makes: the candidate's last term and index against its own log. -/
def UpToDate [LinearOrder T] (τ : E → T) (lastIndex : ℕ) (candTerm : T) (L : List E) : Prop :=
  lastTerm τ L < candTerm ∨ (candTerm = lastTerm τ L ∧ L.length ≤ lastIndex)

end LogReading

/-- Entries of the log from `prev` on and the batch carry the same terms below position `n`. -/
def AgreeBelow (τ : E → T) (L : List E) (prev : ℕ) (es : List E) (n : ℕ) : Prop :=
  ∀ k < n, ∀ e e', L[prev + k]? = some e → es[k]? = some e' → τ e = τ e'

/-- What a follower may turn its log `L` into when it accepts the batch `es` after `prev`:
keep it, extend it by what is missing, or cut it at the first conflict and continue with the
batch.  Some of the batch may be dropped at the end. -/
inductive Merge (τ : E → T) (L : List E) (prev : ℕ) (es : List E) : List E → Prop where
  | keep : AgreeBelow τ L prev es es.length → Merge τ L prev es L
  | extend (j : ℕ) : AgreeBelow τ L prev es es.length → prev ≤ L.length →
      L.length ≤ prev + es.length →
      Merge τ L prev es (L ++ (es.drop (L.length - prev)).take j)
  | replace (c j : ℕ) (e e' : E) : L[prev + c]? = some e → es[c]? = some e' → e ≠ e' →
      AgreeBelow τ L prev es c →
      Merge τ L prev es (L.take (prev + c) ++ (es.drop c).take j)

/-- Replace one server. -/
def State.put [DecidableEq N] (s : State N T E) (n : N) (x : Server N T E) : State N T E :=
  { s with srv := Function.update s.srv n x }

/-- A message a server may react to. -/
def Heard (mode : Mode) (s : State N T E) (m : Msg N T E) : Prop :=
  mode.elects → m ∈ s.sent

section Steps

variable [DecidableEq N] [LinearOrder T] [Zero T]

/-- The log `L` a follower acknowledges as a whole is covered by the batch, ends with an entry of
the leader's own term, or is a prefix of the log of the leader that sent the batch. -/
def Covered (P : Params N T E) (s : State N T E) (src : N) (t : T) (reach : ℕ)
    (L : List E) : Prop :=
  L.length ≤ reach ∨ lastTerm P.termOf L = t ∨
    ((s.srv src).role = .leader ∧ (s.srv src).term = t ∧ L <+: (s.srv src).log)

/-- Record the ballot a message announces. -/
def History.cast (g : History N T E) (m : Msg N T E) : History N T E :=
  match m.ballot with
  | none => g
  | some (v, t, c) =>
      { g with ballot := fun v' t' => if v' = v ∧ t' = t then some c else g.ballot v' t' }

/-- Record that `n` campaigns in term `t` on the log `L`. -/
def History.campaign (g : History N T E) (n : N) (t : T) (L : List E) : History N T E :=
  { g with candLog := fun n' t' => if n' = n ∧ t' = t then some L else g.candLog n' t' }

/-- Record that `n` holds the first `k` entries of the leader's log of term `t`. -/
def History.hold (g : History N T E) (n : N) (t : T) (k : ℕ) : History N T E :=
  { g with acked := fun n' t' k' => g.acked n' t' k' ∨ (n' = n ∧ t' = t ∧ k' ≤ k) }

/-- Record the log of the leader of term `t`. -/
def History.lead (g : History N T E) (n : N) (t : T) (L : List E) : History N T E :=
  { g with
    led := Function.update g.led t (some n)
    leaderLog := Function.update g.leaderLog t L }

/-- The transitions of the protocol. -/
inductive Step (P : Params N T E) (mode : Mode) : State N T E → State N T E → Prop where
  /-- A higher term is seen: the vote is forgotten and the role given up. -/
  | observe {s} (n : N) (t : T) : (s.srv n).term < t →
      Step P mode s (s.put n
        { s.srv n with term := t, vote := none, role := .follower, dirty := true })
  | stepDown {s} (n : N) : Step P mode s (s.put n { s.srv n with role := .follower })
  /-- Votes matter to a candidate only and match indices to a leader only. -/
  | clear {s} (n : N) (V : Set N) (μ : N → ℕ) :
      ((s.srv n).role = .candidate → V = (s.srv n).votes) →
      ((s.srv n).role = .leader → μ = (s.srv n).matched) →
      Step P mode s (s.put n { s.srv n with votes := V, matched := μ })
  | campaign {s} (n : N) (t : T) (reqs : List (Msg N T E)) : (s.srv n).term < t →
      (∀ m ∈ reqs, ∃ p li lt, m = .voteReq n p t li lt ∧
        (mode.keepsLogs → li = (s.srv n).log.length ∧ lt = lastTerm P.termOf (s.srv n).log)) →
      Step P mode s
        { s.put n
            { s.srv n with
              term := t, vote := some n, role := .candidate, votes := {n}
              dirty := true, unsettled := true, outbox := (s.srv n).outbox ++ reqs } with
          hist := s.hist.campaign n t (s.srv n).log }
  | grant {s} (n c : N) (li : ℕ) (lt : T) :
      Heard mode s (.voteReq c n (s.srv n).term li lt) →
      ((s.srv n).vote = none ∨ (s.srv n).vote = some c) →
      (mode.keepsLogs → UpToDate P.termOf li lt (s.srv n).log) →
      Step P mode s (s.put n
        { s.srv n with
          vote := some c, dirty := true
          outbox := (s.srv n).outbox ++ [.grant n c (s.srv n).term] })
  | collect {s} (n v : N) : (s.srv n).role = .candidate →
      Heard mode s (.grant v n (s.srv n).term) →
      Step P mode s (s.put n { s.srv n with votes := insert v (s.srv n).votes })
  /-- A candidate whose own vote is stable has the votes of a majority. -/
  | win {s} (n : N) : (s.srv n).role = .candidate → (s.srv n).stableTerm = (s.srv n).term →
      (s.srv n).stableVote = some n → Majority P.members (s.srv n).votes →
      Step P mode s
        { s.put n { s.srv n with role := .leader, matched := fun _ => 0 } with
          hist := ((s.hist.cast (.grant n n (s.srv n).term)).lead n (s.srv n).term
            (s.srv n).log).hold n (s.srv n).term (s.srv n).log.length }
  | append {s} (n : N) (e : E) : (s.srv n).role = .leader → P.termOf e = (s.srv n).term →
      P.indexOf e = (s.srv n).log.length + 1 →
      Step P mode s
        { s.put n { s.srv n with log := (s.srv n).log ++ [e], dirty := true } with
          hist := (s.hist.lead n (s.srv n).term ((s.srv n).log ++ [e])).hold n
            (s.srv n).term ((s.srv n).log.length + 1) }
  /-- A leader sends a slice of its log. -/
  | send {s} (n p : N) (prev : ℕ) (es : List E) (c : ℕ) : (s.srv n).role = .leader →
      prev ≤ (s.srv n).log.length → es <+: (s.srv n).log.drop prev → c ≤ (s.srv n).commit →
      Step P mode s (s.put n
        { s.srv n with
          outbox := (s.srv n).outbox ++
            [.append n p (s.srv n).term prev (termAt P.termOf (s.srv n).log prev) es c] })
  /-- A follower accepts a batch and acknowledges its whole log. -/
  | accept {s} (n src : N) (prev : ℕ) (pt : T) (es L : List E) (lc c : ℕ) (d : Bool) :
      Heard mode s (.append src n (s.srv n).term prev pt es lc) →
      (s.srv n).role = .follower → prev ≤ (s.srv n).log.length →
      termAt P.termOf (s.srv n).log prev = pt → Merge P.termOf (s.srv n).log prev es L →
      c ≤ L.length → c ≤ max (s.srv n).commit lc → ((s.srv n).dirty = true → d = true) →
      (mode = .commits → Covered P s src (s.srv n).term (prev + es.length) L) →
      Step P mode s
        { s.put n
            { s.srv n with
              log := L, commit := c, dirty := d
              outbox := (s.srv n).outbox ++ [.ack n src (s.srv n).term L.length] } with
          hist := s.hist.hold n (s.srv n).term L.length }
  | record {s} (n p : N) (k : ℕ) : (s.srv n).role = .leader →
      Heard mode s (.ack p n (s.srv n).term k) →
      Step P mode s (s.put n
        { s.srv n with matched := Function.update (s.srv n).matched p k })
  | advance {s} (n : N) (k : ℕ) : (s.srv n).role = .leader → 0 < k → k ≤ (s.srv n).log.length →
      termAt P.termOf (s.srv n).log k = (s.srv n).term →
      Majority P.members {p | p = n ∨ (p ≠ n ∧ k ≤ (s.srv n).matched p)} →
      Step P mode s (s.put n { s.srv n with commit := k, dirty := true })
  | apply {s} (n : N) (k : ℕ) (e : E) : k < (s.srv n).commit → (s.srv n).log[k]? = some e →
      Step P mode s { s with applied := insert (n, k, e) s.applied }
  | touch {s} (n : N) : Step P mode s (s.put n { s.srv n with dirty := true })
  | unsettle {s} (n : N) : Step P mode s (s.put n { s.srv n with unsettled := true })
  /-- Term and vote become stable. -/
  | save {s} (n : N) : Step P mode s (s.put n
      { s.srv n with
        stableTerm := (s.srv n).term, stableVote := (s.srv n).vote, dirty := false })
  | saveLog {s} (n : N) : (s.srv n).stableTerm = (s.srv n).term →
      Step P mode s (s.put n { s.srv n with stableLog := (s.srv n).log })
  | settle {s} (n : N) : (s.srv n).stableTerm = (s.srv n).term →
      (s.srv n).stableVote = (s.srv n).vote →
      Step P mode s (s.put n { s.srv n with unsettled := false })
  /-- A queued message leaves; term and vote must be stable by then. -/
  | flush {s} (n : N) (m : Msg N T E) (rest : List (Msg N T E)) :
      (s.srv n).outbox = m :: rest → (s.srv n).stableTerm = (s.srv n).term →
      (s.srv n).stableVote = (s.srv n).vote →
      Step P mode s
        { s.put n { s.srv n with outbox := rest } with
          sent := insert m s.sent
          hist := s.hist.cast m }
  | drop {s} (n : N) (out : List (Msg N T E)) : out.Sublist (s.srv n).outbox →
      Step P mode s (s.put n { s.srv n with outbox := out })
  /-- Volatile state is lost and read back from the stable copies. -/
  | crash {s} (n : N) (V : Set N) (μ : N → ℕ) (c : ℕ) (d u : Bool) : mode ≠ .commits →
      Step P mode s (s.put n
        { s.srv n with
          term := (s.srv n).stableTerm, vote := (s.srv n).stableVote, role := .follower
          votes := V, log := (s.srv n).stableLog, matched := μ, commit := c
          outbox := [], dirty := d, unsettled := u })
  /-- Without the discipline of `logs`, logs are arbitrary and so are the messages about them. -/
  | havocLog {s} (n : N) (L : List E) (μ : N → ℕ) (c : ℕ) (ms : List (Msg N T E)) :
      ¬ mode.keepsLogs → (∀ m ∈ ms, m.ballot = none) →
      Step P mode s (s.put n
        { s.srv n with
          log := L, matched := μ, commit := c, outbox := (s.srv n).outbox ++ ms })
  /-- Without the discipline of `election`, roles are arbitrary. -/
  | havocRole {s} (n : N) (r : Role) (V : Set N) (u : Bool) : ¬ mode.elects →
      Step P mode s (s.put n { s.srv n with role := r, votes := V, unsettled := u })

/-- A finite sequence of steps. -/
def Steps (P : Params N T E) (mode : Mode) : State N T E → State N T E → Prop :=
  Relation.ReflTransGen (Step P mode)

end Steps

end RaftRx.Protocol
