import RaftRx.Python.Compaction

/-!
Exceptions out of the dump of a Python node.

`_dump_outputs` has no handler: an exception of an entry leaves the loop with the node as the
statements before it left it.  Here the functions of the loop are programs that keep their state
when they raise, statement by statement.

* `PyError`, `Raising`: exceptions, and programs on a node that may raise one;
* `Raising.applyCommittedCommand`, `Raising.applyLoop`, `Raising.dumpOutputs`: the functions;
* `run_applyCommittedCommand`, `run_applyLoop`, `run_dumpOutputs`: without an exception they do what
  the functions of the other modules do;
* `failed_apply`: what an exception leaves.
-/

namespace RaftRx.Python

variable {σ ν : Type}

/-! ### Programs that raise -/

/-- An exception: one of the node's own, with its text, or one that a callee raised. -/
inductive PyError where
  | valueError (text : String)
  /-- `int()` -/
  | literal
  /-- `json.loads`, or the loop over what it returned -/
  | json
  /-- a list index out of range -/
  | index
  /-- `apply` of the application -/
  | application
  deriving DecidableEq, Repr

/-- A program on a node. -/
abbrev Raising (σ ν : Type) := EStateM PyError (Node σ ν)

namespace Raising

/-- What a callee returns, unless it raises. -/
def orRaise {α : Type} (e : PyError) : Option α → Raising σ ν α
  | some a => pure a
  | none => throw e

/-- `_decode_members` -/
def decodeMembers (E : Env σ ν) : Option Str → Raising σ ν (Option (List Str))
  | none => pure none
  | some encoded => do
      let raw ← orRaise .json (E.loads encoded)
      return some (ClusterConfiguration.normalizeMembers raw)

/-- `_apply_enter_joint` -/
def applyEnterJoint (E : Env σ ν) (command : Command) : Raising σ ν Unit := do
  match ← decodeMembers E command.value with
  | none => throw (.valueError "cluster.enter_joint requires a target member set")
  | some target =>
    let x ← get
    if x.lastApplied ≤ x.configState.index then return
    modify fun x =>
      { x with configState := .joint x.configState.oldMembers target x.lastApplied }
    modify fun x => { x with requestedMembershipChange := some target }
    modify fun x => { x with requestedMembershipChangePending := true }
    modify fun x => { x with pendingConfigurationMembers := some target }
    modify fun x => { x with jointConfigIndex := x.lastApplied }
    modify Node.refreshMembershipState
    modify fun x => { x with membershipState := .joint }
    modify fun x => { x with persistDirty := true }

/-- `_apply_leave_joint` -/
def applyLeaveJoint (E : Env σ ν) (command : Command) : Raising σ ν Unit := do
  match ← decodeMembers E command.value with
  | none => throw (.valueError "cluster.leave_joint requires a target member set")
  | some target =>
    let x ← get
    if x.lastApplied ≤ x.configState.index then return
    let wasMember := x.isVotingMember
    modify fun x => { x with configState := .stable target x.lastApplied }
    modify fun x => { x with requestedMembershipChange := none }
    modify fun x => { x with requestedMembershipChangePending := false }
    modify fun x => { x with pendingConfigurationMembers := none }
    modify fun x => { x with finalConfigIndex := x.lastApplied }
    modify Node.refreshMembershipState
    modify fun x => { x with membershipState := .stable }
    modify fun x => { x with persistDirty := true }
    let x ← get
    if wasMember && !x.isVotingMember then modify Node.stop

/-- The application applies a command.  Where it raises, it may have changed its state: `spoil`
is what it leaves. -/
def applyUser (E : Env σ ν) (spoil : σ → Command → σ) (command : Command) : Raising σ ν Unit := do
  let x ← get
  match E.apply x.user command with
  | some user => modify fun x => { x with user := user }
  | none =>
    modify fun x => { x with user := spoil x.user command }
    throw .application

/-- `_apply_committed_command` -/
def applyCommittedCommand (E : Env σ ν) (spoil : σ → Command → σ) (command : Command) :
    Raising σ ν Unit :=
  if command.op = "cluster.set_maxlog".toList then do
    match command.value with
    | none => throw (.valueError "cluster.set_maxlog requires value")
    | some value =>
      let threshold ← orRaise .literal (E.int value)
      modify fun x => { x with compactionThreshold := threshold }
      modify fun x => { x with persistDirty := true }
  else if command.op = "cluster.enter_joint".toList then applyEnterJoint E command
  else if command.op = "cluster.leave_joint".toList then applyLeaveJoint E command
  else applyUser E spoil command

/-- One round of the apply loop. -/
def applyNext (E : Env σ ν) (spoil : σ → Command → σ) : Raising σ ν Unit := do
  modify fun x => { x with lastApplied := x.lastApplied + 1 }
  let x ← get
  let entry ← orRaise .index (x.entryAtIndex x.lastApplied)
  applyCommittedCommand E spoil entry.command

/-- The loop `while self.last_applied < self.commit_index`, for that many rounds. -/
def applyLoop (E : Env σ ν) (spoil : σ → Command → σ) : ℕ → Raising σ ν Unit
  | 0 => pure ()
  | k + 1 => do
      let x ← get
      if x.lastApplied < x.commitIndex then
        applyNext E spoil
        applyLoop E spoil k

/-- `_dump_outputs`; its files and messages are those of `Node.dumpOutputs`. -/
def dumpOutputs (E : Env σ ν) (spoil : σ → Command → σ) : Raising σ ν Unit := do
  let x ← get
  if x.running then
    modify Node.saved
    applyLoop E spoil x.rounds
    modify fun x => { x with outbox := [] }

end Raising

/-! ### What an entry does -/

/-- A program does what a function says: it returns with the node of the function, or it raises and
leaves the node as it was, up to the state of the application. -/
def Does (m : Raising σ ν Unit) (x : Node σ ν) (after : Option (Node σ ν)) : Prop :=
  (∃ y, after = some y ∧ m.run x = .ok () y) ∨
    (after = none ∧ ∃ e user, m.run x = .error e { x with user := user })

section Entries

variable {E : Env σ ν} {spoil : σ → Command → σ} {x y z : Node σ ν} {command : Command}
  {e : PyError}

/-- The program returns exactly where the function has a value. -/
lemma Does.ok_iff {m : Raising σ ν Unit} {after : Option (Node σ ν)} (h : Does m x after) :
    m.run x = .ok () y ↔ after = some y := by
  cases h with
  | inl h =>
      obtain ⟨z, hafter, hrun⟩ := h
      rw [hafter, hrun]
      constructor
      · rintro ⟨⟩
        rfl
      · rintro ⟨⟩
        rfl
  | inr h =>
      obtain ⟨hafter, e, user, hrun⟩ := h
      rw [hafter, hrun]
      exact iff_of_false (by simp) (by simp)

/-- Where it raises, only the application may have changed. -/
lemma Does.error {m : Raising σ ν Unit} {after : Option (Node σ ν)} (h : Does m x after)
    (hrun : m.run x = .error e y) : ∃ user, y = { x with user := user } := by
  cases h with
  | inl h =>
      obtain ⟨z, -, hok⟩ := h
      rw [hok] at hrun
      exact absurd hrun (by simp)
  | inr h =>
      obtain ⟨-, e', user, herror⟩ := h
      rw [herror] at hrun
      obtain ⟨-, rfl⟩ := EStateM.Result.error.inj hrun
      exact ⟨user, rfl⟩

@[simp] lemma run_orRaise_some {α : Type} (e : PyError) (a : α) (x : Node σ ν) :
    (Raising.orRaise e (some a)).run x = .ok a x := rfl

@[simp] lemma run_orRaise_none {α : Type} (e : PyError) (x : Node σ ν) :
    (Raising.orRaise e (none : Option α)).run x = .error e x := rfl

/-- **`_apply_enter_joint` raises before it changes anything.** -/
lemma run_applyEnterJoint (E : Env σ ν) (x : Node σ ν) (command : Command) :
    Does (Raising.applyEnterJoint E command) x (x.applyEnterJoint E command) := by
  rw [Raising.applyEnterJoint, Node.applyEnterJoint]
  cases command.value with
  | none => exact Or.inr ⟨rfl, _, x.user, rfl⟩
  | some encoded =>
      cases hraw : E.loads encoded with
      | none =>
          refine Or.inr ⟨?_, .json, x.user, ?_⟩
          · simp [Node.decodeMembers, hraw]
          · simp [Raising.decodeMembers, hraw]
      | some raw =>
          simp only [Node.decodeMembers, hraw, Option.bind_eq_bind, Option.map_some,
            Option.bind_some]
          by_cases hold : x.lastApplied ≤ x.configState.index
          · rw [if_pos hold]
            refine Or.inl ⟨_, rfl, ?_⟩
            simp [Raising.decodeMembers, hraw, hold]
          · rw [if_neg hold]
            refine Or.inl ⟨_, rfl, ?_⟩
            simp [Raising.decodeMembers, hraw, hold]

/-- **`_apply_leave_joint` raises before it changes anything.** -/
lemma run_applyLeaveJoint (E : Env σ ν) (x : Node σ ν) (command : Command) :
    Does (Raising.applyLeaveJoint E command) x (x.applyLeaveJoint E command) := by
  rw [Raising.applyLeaveJoint, Node.applyLeaveJoint]
  cases command.value with
  | none => exact Or.inr ⟨rfl, _, x.user, rfl⟩
  | some encoded =>
      cases hraw : E.loads encoded with
      | none =>
          refine Or.inr ⟨?_, .json, x.user, ?_⟩
          · simp [Node.decodeMembers, hraw]
          · simp [Raising.decodeMembers, hraw]
      | some raw =>
          simp only [Node.decodeMembers, hraw, Option.bind_eq_bind, Option.map_some,
            Option.bind_some]
          by_cases hold : x.lastApplied ≤ x.configState.index
          · rw [if_pos hold]
            refine Or.inl ⟨_, rfl, ?_⟩
            simp [Raising.decodeMembers, hraw, hold]
          · rw [if_neg hold]
            refine Or.inl ⟨_, rfl, ?_⟩
            simp only [Raising.decodeMembers, EStateM.run_bind, hraw, run_orRaise_some,
              EStateM.run_pure, EStateM.run_get, hold, if_false, EStateM.run_modify]
            split <;> rfl

/-- The application may raise after it changed its state. -/
lemma run_applyUser (E : Env σ ν) (spoil : σ → Command → σ) (x : Node σ ν) (command : Command) :
    Does (Raising.applyUser E spoil command) x
      ((E.apply x.user command).map fun user => { x with user := user }) := by
  rw [Raising.applyUser]
  cases happ : E.apply x.user command with
  | none => exact Or.inr ⟨rfl, .application, spoil x.user command, by simp [happ]⟩
  | some user => exact Or.inl ⟨_, rfl, by simp [happ]⟩

/-- **`_apply_committed_command`** -/
lemma run_applyCommittedCommand (E : Env σ ν) (spoil : σ → Command → σ) (x : Node σ ν)
    (command : Command) :
    Does (Raising.applyCommittedCommand E spoil command) x (x.applyCommittedCommand E command) := by
  rw [Raising.applyCommittedCommand, Node.applyCommittedCommand]
  split
  · cases command.value with
    | none => exact Or.inr ⟨rfl, _, x.user, rfl⟩
    | some value =>
        cases hvalue : E.int value with
        | none =>
            refine Or.inr ⟨?_, .literal, x.user, ?_⟩
            · simp [hvalue]
            · simp [hvalue]
        | some threshold =>
            simp only [Option.bind_eq_bind, Option.bind_some, hvalue]
            refine Or.inl ⟨_, rfl, ?_⟩
            simp
  · split
    · exact run_applyEnterJoint E x command
    · split
      · exact run_applyLeaveJoint E x command
      · exact run_applyUser E spoil x command

/-- **A round that returns** applied the next entry. -/
lemma applyNext_ok_iff : (Raising.applyNext E spoil).run x = .ok () y ↔
    ∃ entry, Node.entryAtIndex { x with lastApplied := x.lastApplied + 1 } (x.lastApplied + 1)
        = some entry ∧
      Node.applyCommittedCommand E { x with lastApplied := x.lastApplied + 1 } entry.command
        = some y := by
  rw [Raising.applyNext]
  simp only [EStateM.run_bind, EStateM.run_modify, EStateM.run_get]
  cases hentry : Node.entryAtIndex { x with lastApplied := x.lastApplied + 1 }
      (x.lastApplied + 1) with
  | none => simp
  | some entry =>
      simp only [run_orRaise_some, Option.some.injEq, exists_eq_left']
      exact (run_applyCommittedCommand E spoil _ _).ok_iff

/-- **A round that raises** leaves `last_applied` at the entry, and everything else but the
application as it was. -/
lemma applyNext_error (h : (Raising.applyNext E spoil).run x = .error e y) :
    ∃ user, y = { x with lastApplied := x.lastApplied + 1, user := user } := by
  rw [Raising.applyNext] at h
  cases hentry : Node.entryAtIndex { x with lastApplied := x.lastApplied + 1 }
      (x.lastApplied + 1) with
  | none =>
      simp only [EStateM.run_bind, EStateM.run_modify, EStateM.run_get, hentry,
        run_orRaise_none] at h
      obtain ⟨-, rfl⟩ := EStateM.Result.error.inj h
      exact ⟨x.user, rfl⟩
  | some entry =>
      simp only [EStateM.run_bind, EStateM.run_modify, EStateM.run_get, hentry,
        run_orRaise_some] at h
      exact (run_applyCommittedCommand E spoil _ _).error h

end Entries

/-! ### The loop -/

section Loop

variable {E : Env σ ν} {spoil : σ → Command → σ} {x y z : Node σ ν} {e : PyError}

lemma run_applyLoop_succ (k : ℕ) (x : Node σ ν) : (Raising.applyLoop E spoil (k + 1)).run x =
    if x.lastApplied < x.commitIndex then
      (Raising.applyNext E spoil >>= fun _ => Raising.applyLoop E spoil k).run x
    else .ok () x := by
  rw [Raising.applyLoop]
  simp only [EStateM.run_bind, EStateM.run_get]
  split <;> rfl

/-- A round that returns went on by one entry. -/
lemma lastApplied_applyNext (h : (Raising.applyNext E spoil).run x = .ok () y) :
    y.lastApplied = x.lastApplied + 1 := by
  obtain ⟨entry, -, hcommand⟩ := applyNext_ok_iff.mp h
  exact (applyCommittedCommand_cases hcommand).2.2

/-- **Without an exception** the loop is the one of `Node.applyAll`. -/
lemma run_applyLoop (k : ℕ) : ∀ {x : Node σ ν},
    (Raising.applyLoop E spoil k).run x = .ok () y ↔ (Node.applyAll E k x).2 = some y := by
  induction k with
  | zero =>
      intro x
      rw [Raising.applyLoop, Node.applyAll, EStateM.run_pure, EStateM.Result.ok.injEq,
        Option.some.injEq, eq_self_iff_true, true_and]
  | succ k ih =>
      intro x
      rw [run_applyLoop_succ, Node.applyAll]
      split
      · rw [EStateM.run_bind]
        cases hnext : (Raising.applyNext E spoil).run x with
        | ok u x' =>
            obtain ⟨entry, hentry, hcommand⟩ := applyNext_ok_iff.mp hnext
            simp only [hentry, hcommand]
            exact ih
        | error e x' =>
            refine iff_of_false (by simp) fun h => ?_
            dsimp only at h
            split at h
            · exact absurd h (by simp)
            · rename_i entry hentry
              split at h
              · exact absurd h (by simp)
              · rename_i x'' hcommand
                rw [applyNext_ok_iff.mpr ⟨entry, hentry, hcommand⟩] at hnext
                exact absurd hnext (by simp)
      · rw [EStateM.Result.ok.injEq, Option.some.injEq, eq_self_iff_true, true_and]

/-- **Where the loop raises**: the rounds before it returned, and the next one raised. -/
lemma applyLoop_error (n : ℕ) : ∀ {x : Node σ ν}, (Raising.applyLoop E spoil n).run x = .error e y →
    ∃ k z, (Raising.applyLoop E spoil k).run x = .ok () z ∧ z.lastApplied = x.lastApplied + k ∧
      z.lastApplied < z.commitIndex ∧ (Raising.applyNext E spoil).run z = .error e y := by
  induction n with
  | zero =>
      intro x h
      exact absurd h (by simp [Raising.applyLoop])
  | succ n ih =>
      intro x h
      rw [run_applyLoop_succ] at h
      split at h
      · rename_i hlt
        rw [EStateM.run_bind] at h
        cases hnext : (Raising.applyNext E spoil).run x with
        | error e' y' =>
            rw [hnext] at h
            refine ⟨0, x, rfl, by simp, hlt, ?_⟩
            rw [hnext]
            exact h
        | ok u x' =>
            rw [hnext] at h
            obtain ⟨k, z, hk, hlast, hz, hraise⟩ := ih h
            refine ⟨k + 1, z, ?_, ?_, hz, hraise⟩
            · rw [run_applyLoop_succ, if_pos hlt, EStateM.run_bind, hnext]
              exact hk
            · rw [hlast, lastApplied_applyNext hnext]
              push_cast
              ring
      · exact absurd h (by simp)

/-- Every lookup of the loop is behind `last_applied`. -/
lemma applyAll_after (k : ℕ) : ∀ {x : Node σ ν}, ∀ l ∈ (Node.applyAll E k x).1,
    x.lastApplied < l.1 := by
  induction k with
  | zero =>
      intro x l hl
      exact absurd hl List.not_mem_nil
  | succ k ih =>
      intro x l hl
      have hfirst : x.lastApplied < x.lastApplied + 1 := lt_add_one _
      rw [Node.applyAll] at hl
      split at hl
      · dsimp only at hl
        split at hl
        · rw [List.mem_singleton.mp hl]
          exact hfirst
        · split at hl
          · rw [List.mem_singleton.mp hl]
            exact hfirst
          · rename_i x' hcommand
            cases List.mem_cons.mp hl with
            | inl hl =>
                rw [hl]
                exact hfirst
            | inr hl =>
                have hlast : x'.lastApplied = x.lastApplied + 1 :=
                  (applyCommittedCommand_cases hcommand).2.2
                have hnext := ih l hl
                omega
      · exact absurd hl List.not_mem_nil

end Loop

/-! ### The dump -/

section Dump

variable {E : Env σ ν} {spoil : σ → Command → σ} {x y : Node σ ν} {e : PyError}

lemma run_dumpOutputs_running (h : x.running = true) : (Raising.dumpOutputs E spoil).run x =
    (Raising.applyLoop E spoil x.rounds >>= fun _ =>
      modify fun x => { x with outbox := [] }).run x.saved := by
  rw [Raising.dumpOutputs]
  simp only [EStateM.run_bind, EStateM.run_get, h, if_true, EStateM.run_modify]

lemma run_dumpOutputs_stopped (h : x.running = false) :
    (Raising.dumpOutputs E spoil).run x = .ok () x := by
  rw [Raising.dumpOutputs]
  simp only [EStateM.run_bind, EStateM.run_get, h]
  rfl

/-- **Without an exception** the dump is `Node.dumpOutputs`. -/
theorem run_dumpOutputs : (Raising.dumpOutputs E spoil).run x = .ok () y ↔
    (x.dumpOutputs E).node = some y := by
  cases hrunning : x.running with
  | false =>
      rw [run_dumpOutputs_stopped hrunning, dumpOutputs_stopped hrunning, EStateM.Result.ok.injEq,
        Option.some.injEq, eq_self_iff_true, true_and]
  | true =>
      rw [run_dumpOutputs_running hrunning, dumpOutputs_running hrunning, EStateM.run_bind]
      cases hloop : (Raising.applyLoop E spoil x.rounds).run x.saved with
      | ok u z =>
          rw [(run_applyLoop _).mp hloop]
          simp
      | error e z =>
          refine iff_of_false (by simp) fun h => ?_
          obtain ⟨z', hz', -⟩ := Option.map_eq_some_iff.mp h
          rw [(run_applyLoop _).mpr hz'] at hloop
          exact absurd hloop (by simp)

/-- **A dump that raises** does so in a round of its apply loop. -/
lemma dumpOutputs_error (h : (Raising.dumpOutputs E spoil).run x = .error e y) :
    ∃ k z, (Raising.applyLoop E spoil k).run x.saved = .ok () z ∧
      z.lastApplied = x.lastApplied + k ∧ z.lastApplied < z.commitIndex ∧
      (Raising.applyNext E spoil).run z = .error e y := by
  cases hrunning : x.running with
  | false =>
      rw [run_dumpOutputs_stopped hrunning] at h
      exact absurd h (by simp)
  | true =>
      rw [run_dumpOutputs_running hrunning, EStateM.run_bind] at h
      cases hloop : (Raising.applyLoop E spoil x.rounds).run x.saved with
      | ok u z =>
          rw [hloop] at h
          exact absurd h (by simp)
      | error e' y' =>
          rw [hloop] at h
          obtain ⟨rfl, rfl⟩ := EStateM.Result.error.inj h
          exact applyLoop_error _ hloop

end Dump

/-! ### The result -/

/-- Whether a program raises. -/
def raises (m : Raising σ ν Unit) (x : Node σ ν) : Bool :=
  match m.run x with
  | .ok _ _ => false
  | .error _ _ => true

lemma exists_error_of_raises {m : Raising σ ν Unit} {x : Node σ ν} (h : raises m x = true) :
    ∃ e y, m.run x = .error e y := by
  rw [raises] at h
  split at h
  · exact absurd h (by simp)
  · rename_i e y hrun
    exact ⟨e, y, hrun⟩

/-- `n1`, alone, is elected and takes a threshold that is no number. -/
def badThreshold : List (HostAct Unit) :=
  hostTick 5 [] [] ++ hostTick 5 [] [] ++
    [.latch 5 [] [{ op := "cluster.set_maxlog".toList, key := [], value := some "many".toList }],
      .transition 5]

/-- The dump of that tick raises. -/
lemma exists_failed_apply : ∃ h e y, Run (Host.next quiet) (fun _ _ => True)
    (Host.boot quiet (impatient [n1] n1) () 0) h ∧
    (Raising.dumpOutputs quiet fun u _ => u).run h.node = .error e y := by
  have hexec : (execAll (Host.next quiet) (fun _ _ => true)
      (Host.boot quiet (impatient [n1] n1) () 0) badThreshold).any (fun h =>
        raises (Raising.dumpOutputs quiet fun u _ => u) h.node) = true := by
    decide +kernel
  obtain ⟨h, hrun, hraises⟩ := Run.exists_of_execAll hexec
  obtain ⟨e, y, hy⟩ := exists_error_of_raises hraises
  exact ⟨h, e, y, hrun.mono (fun _ _ _ => trivial), hy⟩

/-- **An exception out of `_dump_outputs`** leaves `last_applied` at the entry that raised and the
configuration, the threshold and the outbox as they were before that entry; the next dump goes on
behind the entry. -/
theorem failed_apply (E : Env σ ν) (spoil : σ → Command → σ) {x y : Node σ ν} {e : PyError}
    (h : (Raising.dumpOutputs E spoil).run x = .error e y) :
    ∃ k z, (Raising.applyLoop E spoil k).run x.saved = .ok () z ∧
      z.lastApplied = x.lastApplied + k ∧ z.lastApplied < z.commitIndex ∧
      (Raising.applyNext E spoil).run z = .error e y ∧
      y.lastApplied = z.lastApplied + 1 ∧ y.configState = z.configState ∧
      y.compactionThreshold = z.compactionThreshold ∧ y.outbox = z.outbox ∧
      ∀ l ∈ (y.dumpOutputs E).applied, y.lastApplied < l.1 := by
  obtain ⟨k, z, hk, hlast, hlt, hraise⟩ := dumpOutputs_error h
  obtain ⟨user, hy⟩ := applyNext_error hraise
  refine ⟨k, z, hk, hlast, hlt, hraise, ?_, ?_, ?_, ?_, ?_⟩
  · rw [hy]
  · rw [hy]
  · rw [hy]
  · rw [hy]
  · intro l hl
    cases hrunning : y.running with
    | false =>
        rw [dumpOutputs_stopped hrunning] at hl
        exact absurd hl List.not_mem_nil
    | true =>
        rw [dumpOutputs_running hrunning] at hl
        have hsaved : y.saved.lastApplied = y.lastApplied := rfl
        rw [← hsaved]
        exact applyAll_after y.rounds l hl

/-- The threshold that is no number counts as applied. -/
theorem failed_apply_threshold : ∃ (h : Host Unit Unit) (e : PyError) (y z : Node Unit Unit),
    Run (Host.next quiet) (fun _ _ => True) (Host.boot quiet (impatient [n1] n1) () 0) h ∧
    (Raising.dumpOutputs quiet fun u _ => u).run h.node = .error e y ∧
    (Raising.applyNext quiet fun u _ => u).run z = .error e y ∧
    y.lastApplied = z.lastApplied + 1 := by
  obtain ⟨h, e, y, hrun, hraise⟩ := exists_failed_apply
  obtain ⟨k, z, -, -, -, hnext, hlast, -⟩ := failed_apply quiet (fun u _ => u) hraise
  exact ⟨h, e, y, z, hrun, hraise, hnext, hlast⟩

/-- **Not atomic**: an entry that raised in a run of a single node is counted as applied. -/
theorem failed_apply_counts : ¬ ∀ (h : Host Unit Unit) (k : ℕ) (e : PyError) (y z : Node Unit Unit),
    Run (Host.next quiet) (fun _ _ => True) (Host.boot quiet (impatient [n1] n1) () 0) h →
    (Raising.dumpOutputs quiet fun u _ => u).run h.node = .error e y →
    (Raising.applyLoop quiet (fun u _ => u) k).run h.node.saved = .ok () z →
    (Raising.applyNext quiet fun u _ => u).run z = .error e y →
    y.lastApplied = z.lastApplied ∧ y.configState = z.configState ∧
      y.compactionThreshold = z.compactionThreshold ∧ y.outbox = z.outbox := by
  intro hatomic
  obtain ⟨h, e, y, hrun, hraise⟩ := exists_failed_apply
  obtain ⟨k, z, hk, -, -, hnext⟩ := dumpOutputs_error hraise
  obtain ⟨user, hy⟩ := applyNext_error hnext
  have hlast := (hatomic h k e y z hrun hraise hk hnext).1
  rw [hy] at hlast
  exact absurd hlast (lt_add_one _).ne'

end RaftRx.Python
