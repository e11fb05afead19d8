import RaftRx.Python.Safety

/-!
The quorum behind the commit index of a Python leader.

* `Node.advanceCalls`: the nodes on which `_advance_commit_index` is called while a tick latches its
  inputs;
* `CommitsHeld`: when a call moves the commit index, a majority of the members hold the entry;
* `commitsHeld_of_covered`: so it is in runs whose accepted batches are covered;
* `commit_without_quorum`: a leader counts the stale entry of a follower for its own.
-/

namespace RaftRx.Python

open Protocol

variable {σ ν : Type} {E : Str → Env σ ν} {members : List Str}

/-! ### Calls of `_advance_commit_index` -/

namespace Node

/-- The node on which a message makes `_advance_commit_index` run, if it does. -/
def answerCall (x : Node σ ν) (m : Message) : Option (Node σ ν) :=
  let y := x.handleTermUpdate m
  if m.kind = .appendEntriesResponse ∧ y.role = .leader ∧ m.term = y.currentTerm ∧
      m.success = true then
    some (y.recordMatch m)
  else none

/-- The calls while messages are latched. -/
def messageCalls (x : Node σ ν) (messages : List Message) : List (Node σ ν) :=
  roundsOf latchMessage (fun y m => (y.answerCall m).toList) x messages

/-- The calls while client commands are latched. -/
def commandCalls (x : Node σ ν) (commands : List Command) : List (Node σ ν) :=
  roundsOf appendClientCommand (fun y command => [y.appendEntry command]) x commands

/-- The calls in `_latch_inputs`. -/
def advanceCalls (x : Node σ ν) (messages : List Message) (commands : List Command) :
    List (Node σ ν) :=
  if x.running then
    x.messageCalls messages ++
      match messages.foldlM latchMessage x with
      | none => []
      | some y => if y.role = .leader then y.commandCalls commands else []
  else []

end Node

variable {x y z z' : Node σ ν} {m : Message} {H : Message → Prop} {F : Disk ν} {D : Env σ ν}
  {C : List LogEntry → Message → Prop}

/-- What a message does after the call is the call. -/
lemma latchMessage_of_answerCall (h : x.answerCall m = some z) :
    x.latchMessage m = z.advanceCommitIndex := by
  rw [Node.answerCall, Option.ite_none_right_eq_some, Option.some.injEq] at h
  obtain ⟨⟨hkind, hrole, hterm, hsuccess⟩, rfl⟩ := h
  rw [Node.latchMessage, hkind]
  show (x.handleTermUpdate m).takeAnswer m = _
  rw [Node.takeAnswer, if_neg (by simp [hrole, hterm]), if_pos hsuccess]

/-- A message without a call leaves the commit index as it is. -/
lemma commitIndex_latchMessage (hcall : x.answerCall m = none) (h : x.latchMessage m = some y) :
    y.commitIndex = x.commitIndex := by
  have hupdate : (x.handleTermUpdate m).commitIndex = x.commitIndex := by
    rw [Node.handleTermUpdate]
    split <;> rfl
  rw [Node.latchMessage] at h
  cases hkind : m.kind with
  | appendEntriesResponse =>
      rw [hkind] at h
      change (x.handleTermUpdate m).takeAnswer m = some y at h
      rw [Node.takeAnswer] at h
      split at h
      · rw [Option.some.injEq] at h
        rw [← h, hupdate]
      · rename_i hcond
        simp only [not_or, not_not] at hcond
        split at h
        · rename_i hsuccess
          rw [Node.answerCall, if_pos ⟨hkind, hcond.1, hcond.2, hsuccess⟩] at hcall
          exact absurd hcall (by simp)
        · obtain ⟨w, hw, h⟩ := Option.bind_eq_some_iff.mp h
          obtain ⟨next, -, rfl⟩ := Option.map_eq_some_iff.mp hw
          obtain ⟨m', -, rfl⟩ := sendAppendEntries_cases h
          exact hupdate
  | appendEntries | requestVote | requestVoteResponse | clientCommand =>
      rw [hkind, Option.some.injEq] at h
      rw [← h]

/-- A call on a message is made by a leader. -/
lemma turns_answerCall (hrun : x.running = true) (hm : H m) (h : x.answerCall m = some z) :
    Turns D F H C x z ∧ z.role = .leader := by
  rw [Node.answerCall, Option.ite_none_right_eq_some, Option.some.injEq] at h
  obtain ⟨⟨hkind, hrole, hterm, hsuccess⟩, rfl⟩ := h
  have hrecord : Turn D F H C (x.handleTermUpdate m) ((x.handleTermUpdate m).recordMatch m) :=
    Turn.record m ((running_handleTermUpdate x m).trans hrun) hm hkind hrole hterm hsuccess
  exact ⟨(turns_handleTermUpdate x m).trans hrecord.turns, hrole⟩

lemma turns_messageCalls {ms : List Message} (hrun : x.running = true) (hms : ∀ m ∈ ms, H m)
    (hz : z ∈ x.messageCalls ms) : Turns D F H C x z ∧ z.role = .leader := by
  refine forall_roundsOf (I := fun y => Turns D F H C x y ∧ y.running = true)
    (Q := fun w => Turns D F H C x w ∧ w.role = .leader) ?_ ?_ ⟨Turns.refl x, hrun⟩ z hz
  · rintro m hm y y' ⟨hturns, hrun⟩ hy'
    obtain ⟨hturns', hrun'⟩ := turns_latchMessage (E := D) (F := F) (C := C) hrun (hms m hm) hy'
    exact ⟨hturns.trans hturns', hrun'⟩
  · rintro m hm y ⟨hturns, hrun⟩ w hw
    obtain ⟨hturns', hrole⟩ := turns_answerCall hrun (hms m hm) (Option.mem_toList.mp hw)
    exact ⟨hturns.trans hturns', hrole⟩

lemma turns_commandCalls {cs : List Command} (hrun : x.running = true) (hrole : x.role = .leader)
    (hz : z ∈ x.commandCalls cs) : Turns D F H C x z ∧ z.role = .leader := by
  refine forall_roundsOf
    (I := fun y => Turns D F H C x y ∧ y.role = .leader ∧ y.running = true)
    (Q := fun w => Turns D F H C x w ∧ w.role = .leader) ?_ ?_ ⟨Turns.refl x, hrole, hrun⟩ z hz
  · rintro command - y y' ⟨hturns, hr, hrun⟩ hy'
    obtain ⟨hturns', hr', hrun'⟩ :=
      turns_appendClientCommand (E := D) (F := F) (H := H) (C := C) hrun hr hy'
    exact ⟨hturns.trans hturns', hr', hrun'⟩
  · rintro command - y ⟨hturns, hr, hrun⟩ w hw
    rw [List.mem_singleton.mp hw]
    exact ⟨hturns.trans (Turn.append command hrun hr).turns, hr⟩

/-- **A call of a latch** is made by a leader that is a few turns away. -/
lemma turns_advanceCalls {ms : List Message} {cs : List Command} (hms : ∀ m ∈ ms, H m)
    (hz : z ∈ x.advanceCalls ms cs) :
    x.running = true ∧ Turns D F H C x z ∧ z.role = .leader := by
  rw [Node.advanceCalls] at hz
  split at hz
  · rename_i hrun
    refine ⟨hrun, ?_⟩
    cases List.mem_append.mp hz with
    | inl hz => exact turns_messageCalls hrun hms hz
    | inr hz =>
        cases hy : ms.foldlM Node.latchMessage x with
        | none =>
            rw [hy] at hz
            exact absurd hz List.not_mem_nil
        | some y =>
            rw [hy] at hz
            dsimp only at hz
            split at hz
            · rename_i hrole
              obtain ⟨hturns, hrun'⟩ := turns_latchMessages (E := D) (F := F) (C := C) hrun hms hy
              obtain ⟨hturns', hrole'⟩ := turns_commandCalls hrun' hrole hz
              exact ⟨hturns.trans hturns', hrole'⟩
            · exact absurd hz List.not_mem_nil
  · exact absurd hz List.not_mem_nil

/-! ### Commits -/

/-- The log holds an entry with the index, the term and the command of `e`. -/
def Holds (e : LogEntry) (L : List LogEntry) : Prop :=
  ∃ e' ∈ L, e'.index = e.index ∧ e'.term = e.term ∧ e'.command = e.command

instance (e : LogEntry) (L : List LogEntry) : Decidable (Holds e L) :=
  inferInstanceAs (Decidable (∃ e' ∈ L, _))

/-- The log of `p` while host `n` is at the node `z`. -/
def Cluster.logAt (c : Cluster σ ν) (n : Str) (z : Node σ ν) (p : Str) : List LogEntry :=
  if p = n then z.log else (c.hosts p).node.log

/-- **Commits are held by a majority**, in every state of a run from `c₀`: when
`_advance_commit_index` moves the commit index of `n`, the log of `n` has an entry there and a
majority of the members, `n` among them, hold it. -/
def CommitsHeld (members : List Str) (E : Str → Env σ ν)
    (P : Cluster σ ν → ClusterAct σ → Prop) (c₀ : Cluster σ ν) : Prop :=
  ∀ c : Cluster σ ν, Run (Cluster.exec E) P c₀ c →
    ∀ (n : Str) (clockMs : ℤ) (ms : List Message) (cs : List Command),
      c.Deliverable ⟨n, .latch clockMs ms cs⟩ → (c.hosts n).phase = .idle →
      ∀ z ∈ Node.advanceCalls { (c.hosts n).node with clockMs := clockMs } ms cs,
      ∀ z' : Node σ ν, z.advanceCommitIndex = some z' → z'.commitIndex ≠ z.commitIndex →
        n ∈ members ∧ (∃ e ∈ z.log, e.index = z'.commitIndex) ∧
          ∀ e ∈ z.log, e.index = z'.commitIndex → Majority members {p | Holds e (c.logAt n z p)}

/-- **Commit quorum soundness** of every run whose accepted batches are covered. -/
theorem commitsHeld_of_covered (E : Str → Env σ ν) {config : Str → NodeConfig}
    (hboot : ∀ n, Bootstrapped members n (config n)) (user : Str → σ) (clockMs : ℤ) :
    CommitsHeld members E (fun c act => NoMembershipChange E c act ∧ NoCompaction c act ∧
      NoRestart act ∧ NextAppendCovered c act) (Cluster.boot E config user clockMs) := by
  intro c hrun n clockMs' ms cs hdeliver hphase z hz z' hadv hmoved
  have hk : Mode.commits.keepsLogs := trivial
  obtain ⟨a₀, hat₀⟩ := clusterAt_boot E .commits hboot user clockMs
  obtain ⟨a, -, hat⟩ := clusterAt_run hk.elects hat₀
    (hrun.mono fun _ _ h => ⟨h.1, fun _ => h.2.1, fun _ => h.2.2.1, fun _ => h.2.2.2⟩)
  have hears : ∀ m ∈ ms, Hears .commits a.sent n m := fun m hm =>
    hat.hears (hdeliver m hm).1 (hdeliver m hm).2
  -- the call is made by a server of the protocol that local moves of `n` lead to
  obtain ⟨hrunning, hturns, hrole⟩ := turns_advanceCalls (D := E n) (F := (c.hosts n).disk)
    (C := BatchCovered members .commits n a) hears hz
  obtain ⟨a', hlocal, hatz⟩ := reach_turns (((hat.hosts n).running hrunning).clock clockMs')
    hturns fun _ _ => id
  rcases advanceCommitIndex_cases hadv with rfl | ⟨i, hlt, -, hterm, hcom, rfl⟩
  · exact absurd rfl hmoved
  obtain ⟨hpos, hle, htermAt, hmaj⟩ := hatz.counted hk hlt hterm hcom
  have hsrv : a'.srv n = z.view (c.hosts n).disk.stored (c.hosts n).unsettled := hatz.srv
  have hinv : CommitInv (params members) a' := hatz.inv
  have hheld := holders_of_quorum hinv (n := n) (k := i.toNat) (by rw [hsrv]; exact hrole) hpos
    (by rw [hsrv]; exact hle) (by rw [hsrv]; exact htermAt) (by rw [hsrv]; exact hmaj)
  rw [hsrv] at hheld
  have hnum : ∀ (j : ℕ) (e : LogEntry), z.log[j]? = some e → e.index = (j : ℤ) + 1 := by
    intro j e he
    refine (hinv.logs).index_log n ?_
    rw [hsrv]
    exact he
  refine ⟨hatz.ok.member (by rw [hrole]; simp), ?_, fun e he hindex => ?_⟩
  · have hlt' : i.toNat - 1 < z.log.length := by omega
    have := hnum _ _ (List.getElem?_eq_getElem hlt')
    exact ⟨z.log[i.toNat - 1], List.getElem_mem hlt', by simp only; omega⟩
  · obtain ⟨j, hj⟩ := List.mem_iff_getElem?.mp he
    have hji : j < i.toNat := by
      have := hnum j e hj
      simp only at hindex
      omega
    -- who has the entries up to the commit index has `e`
    refine hheld.mono fun p _ hp => ?_
    have hlog : c.logAt n z p = (a'.srv p).log := by
      rw [Cluster.logAt]
      split
      · rename_i heq
        rw [heq, hsrv]
        rfl
      · rename_i hne
        rw [hlocal.others p hne, (hat.hosts p).log hk]
    have htake : (z.log.take i.toNat)[j]? = some e := by
      rw [List.getElem?_take_of_lt hji]
      exact hj
    have hmem : e ∈ (a'.srv p).log := hp.subset (List.mem_of_getElem? htake)
    show Holds e (c.logAt n z p)
    rw [hlog]
    exact ⟨e, hmem, rfl, rfl, rfl⟩

/-! ### A stale entry -/

/-- `n1` is elected in term 1 with the vote of `n2` and takes a command. -/
def loneCommand : List (ClusterAct Unit) :=
  tick n1 1 [] [] ++ tick n2 0 [voteRequest n1 n2 1 0 0] [] ++ tick n1 1 [voteGrant n2 n1 1] [] ++
    tick n1 1 [] [] ++ tick n1 1 [] [putCommand "x"]

/-- The command reaches `n2`. -/
def sharedCommand : List (ClusterAct Unit) :=
  loneCommand ++ tick n2 0 [batch n1 n2 1 0 0 [] [⟨1, 1, putCommand "x", n1⟩] 0] []

/-- The command reaches nobody, `n3` is elected in term 2 by `n2`, and `n1` answers its heartbeat
with the index of the lone command. -/
def staleEntry : List (ClusterAct Unit) :=
  loneCommand ++ tick n3 1 [] [] ++ tick n3 2 [] [] ++ tick n3 3 [] [] ++
    tick n2 0 [voteRequest n3 n2 2 0 0] [] ++ tick n3 3 [voteGrant n2 n3 2] [] ++ tick n3 3 [] [] ++
    tick n1 1 [batch n3 n1 2 0 0 [] [] 0] []

/-- A commit that a majority holds: `n1` counts the answer of `n2`. -/
theorem commitsHeld_three : ∃ (c : Cluster Unit Unit) (z z' : Node Unit Unit),
    Run (Cluster.exec fun _ => quiet)
      (fun c act => NoMembershipChange (fun _ => quiet) c act ∧ NoCompaction c act ∧
        NoRestart act ∧ NextAppendCovered c act) threeNodes c ∧
    z ∈ Node.advanceCalls { (c.hosts n1).node with clockMs := 1 } [appendAnswer n2 n1 1 true 1] [] ∧
    z.advanceCommitIndex = some z' ∧ z'.commitIndex ≠ z.commitIndex ∧
    ∀ e ∈ z.log, e.index = z'.commitIndex →
      Majority [n1, n2, n3] {p | Holds e (c.logAt n1 z p)} := by
  have hexec : (execAll (Cluster.exec fun _ => quiet)
      (fun c act => decide (NoMembershipChange (fun _ => quiet) c act ∧ NoCompaction c act ∧
        NoRestart act ∧ NextAppendCovered c act)) threeNodes sharedCommand).any (fun c =>
        decide (c.Deliverable ⟨n1, .latch 1 [appendAnswer n2 n1 1 true 1] []⟩) &&
          decide ((c.hosts n1).phase = .idle) &&
          (Node.advanceCalls { (c.hosts n1).node with clockMs := 1 }
            [appendAnswer n2 n1 1 true 1] []).any fun z =>
              z.advanceCommitIndex.any fun z' => decide (z'.commitIndex ≠ z.commitIndex)) =
        true := by
    decide +kernel
  obtain ⟨c, hrun, hc⟩ := Run.exists_of_execAll hexec
  simp only [Bool.and_eq_true, List.any_eq_true, Option.any_eq_true, decide_eq_true_eq] at hc
  obtain ⟨⟨hdeliver, hphase⟩, z, hz, z', hadv, hmoved⟩ := hc
  have hrun' := hrun.mono (fun _ _ => of_decide_eq_true)
  exact ⟨c, z, z', hrun', hz, hadv, hmoved,
    (commitsHeld_of_covered (fun _ => quiet) bootstrapped_three (fun _ => ()) 0 c hrun' n1 1 _ _
      hdeliver hphase z hz z' hadv hmoved).2.2⟩

/-- One node of three is no majority. -/
lemma not_majority_three {S : Set Str} (h1 : n1 ∉ S) (h2 : n2 ∉ S) :
    ¬ Majority [n1, n2, n3] S := by
  classical
  have hcount : List.countP (fun p => decide (p ∈ S)) [n3] ≤ 1 := List.countP_le_length
  rw [Majority, List.countP_cons_of_neg (by simpa using h1),
    List.countP_cons_of_neg (by simpa using h2), not_lt]
  calc 2 * List.countP (fun p => decide (p ∈ S)) [n3] ≤ 2 * 1 := Nat.mul_le_mul_left 2 hcount
    _ ≤ [n1, n2, n3].length := by decide

/-- **A commit without a quorum**: `n3` counts the entry of term 1 that `n1` has at index 1 for its
own entry of term 2. -/
theorem commit_without_quorum : ¬ CommitsHeld [n1, n2, n3] (fun _ => quiet)
    (fun c act => NoMembershipChange (fun _ => quiet) c act ∧ NoCompaction c act ∧ NoRestart act)
    threeNodes := by
  intro hheld
  have hexec : (execAll (Cluster.exec fun _ => quiet)
      (fun c act => decide (NoMembershipChange (fun _ => quiet) c act ∧ NoCompaction c act ∧
        NoRestart act)) threeNodes staleEntry).any (fun c =>
        decide (c.Deliverable
          ⟨n3, .latch 3 [appendAnswer n1 n3 2 true 1] [putCommand "y"]⟩) &&
          decide ((c.hosts n3).phase = .idle) &&
          (Node.advanceCalls { (c.hosts n3).node with clockMs := 3 }
            [appendAnswer n1 n3 2 true 1] [putCommand "y"]).any fun z =>
              z.advanceCommitIndex.any fun z' => decide (z'.commitIndex ≠ z.commitIndex) &&
                z.log.any fun e => decide (e.index = z'.commitIndex) &&
                  decide (¬ Holds e (c.logAt n3 z n1)) && decide (¬ Holds e (c.logAt n3 z n2))) =
        true := by
    decide +kernel
  obtain ⟨c, hrun, hc⟩ := Run.exists_of_execAll hexec
  simp only [Bool.and_eq_true, List.any_eq_true, Option.any_eq_true, decide_eq_true_eq] at hc
  obtain ⟨⟨hdeliver, hphase⟩, z, hz, z', hadv, hmoved, e, he, ⟨hindex, hn1⟩, hn2⟩ := hc
  have hmaj := (hheld c (hrun.mono fun _ _ => of_decide_eq_true) n3 3 _ _ hdeliver hphase z hz z'
    hadv hmoved).2.2 e he hindex
  exact not_majority_three hn1 hn2 hmaj

end RaftRx.Python
