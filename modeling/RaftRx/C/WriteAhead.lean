import RaftRx.C.Durable
import RaftRx.C.ElectionSafety

/-!
Write-ahead discipline of a single C node: what a message that leaves the node relies on is on
disk.

A node driven by any messages, commands, clocks, membership requests, stops and starts is
compared with its files.  `persist_dirty` is the hinge: whoever touches term, vote, log or snapshot
sets it, and the files are written before the first message is sent.

* `Agrees`: the files hold term, vote, snapshot and the stamps of the log;
* `Host.Logged`: a node that is not dirty agrees with its files;
* `logged_exec`: every act keeps it so;
* `files_agree_at_send`: the files agree with the node whenever it sends a message.
-/

namespace RaftRx.C

open Protocol (Role)
open Text

variable {σ : Type*} {A : Application σ} {x y : Node σ} {H : Message → Prop}
  {C : Command → Prop} {m : Message} {disk : Disk}

/-! ### Agreement -/

/-- The files hold what a message relies on. -/
structure Agrees (disk : Disk) (x : Node σ) : Prop where
  term : (readMeta disk.metaText).currentTerm = x.currentTerm
  vote : (readMeta disk.metaText).votedFor = x.votedFor
  snapIndex : (readMeta disk.metaText).snapshotLastIncludedIndex = x.snapshotLastIncludedIndex
  snapTerm : (readMeta disk.metaText).snapshotLastIncludedTerm = x.snapshotLastIncludedTerm
  log : (readLog (readMeta disk.metaText).snapshotLastIncludedIndex disk.logText).map
    LogEntry.stamp = x.log.map LogEntry.stamp

/-- Two nodes with the same term, vote, snapshot and log. -/
structure SameStored (x y : Node σ) : Prop where
  term : y.currentTerm = x.currentTerm
  vote : y.votedFor = x.votedFor
  snapIndex : y.snapshotLastIncludedIndex = x.snapshotLastIncludedIndex
  snapTerm : y.snapshotLastIncludedTerm = x.snapshotLastIncludedTerm
  log : y.log = x.log

lemma SameStored.trans {z : Node σ} (h : SameStored x y) (h' : SameStored y z) :
    SameStored x z where
  term := h'.term.trans h.term
  vote := h'.vote.trans h.vote
  snapIndex := h'.snapIndex.trans h.snapIndex
  snapTerm := h'.snapTerm.trans h.snapTerm
  log := h'.log.trans h.log

lemma Agrees.same (h : Agrees disk x) (hs : SameStored x y) : Agrees disk y where
  term := h.term.trans hs.term.symm
  vote := h.vote.trans hs.vote.symm
  snapIndex := h.snapIndex.trans hs.snapIndex.symm
  snapTerm := h.snapTerm.trans hs.snapTerm.symm
  log := by rw [h.log, hs.log]

/-- A change either leaves the stored fields alone or leaves the node dirty. -/
structure Marked (x y : Node σ) : Prop where
  same : y.persistDirty = false → SameStored x y
  dirty : x.persistDirty = true → y.persistDirty = true

lemma Marked.refl (x : Node σ) : Marked x x := ⟨fun _ => ⟨rfl, rfl, rfl, rfl, rfl⟩, id⟩

lemma Marked.trans {z : Node σ} (h : Marked x y) (h' : Marked y z) : Marked x z := by
  refine ⟨fun hz => ?_, fun hx => h'.dirty (h.dirty hx)⟩
  have hy : y.persistDirty = false := by
    cases hd : y.persistDirty with
    | false => rfl
    | true => exact absurd (h'.dirty hd) (by simp [hz])
  exact (h.same hy).trans (h'.same hz)

/-- What a clean node agrees with, a marked change keeps. -/
lemma Marked.agrees (h : Marked x y) (hx : x.persistDirty = false → Agrees disk x)
    (hy : y.persistDirty = false) : Agrees disk y := by
  have hxd : x.persistDirty = false := by
    cases hd : x.persistDirty with
    | false => rfl
    | true => exact absurd (h.dirty hd) (by simp [hy])
  exact (hx hxd).same (h.same hy)

lemma marked_turn (h : Turn H C x y) : Marked x y := by
  cases h with
  | raise | campaign | vote | commit | append => exact ⟨by simp, fun _ => rfl⟩
  | tune | role | lead | queue | clear | report | backOff =>
      exact ⟨fun _ => ⟨rfl, rfl, rfl, rfl, rfl⟩, id⟩

lemma marked_turns (h : Turns H C x y) : Marked x y :=
  h.invariant (I := Marked x) (fun _ _ hx h => hx.trans (marked_turn h)) (Marked.refl x)

lemma marked_transition (x : Node σ) : Marked x (x.transition A) := by
  rcases transition_turns (C := fun _ => False) (A := A) x with h | ⟨m, rest, hacc, hrest, htrans⟩
  · exact marked_turns h
  · obtain ⟨t, v, l, e, d₀, d, z, -, hz, -, heq, hd, hsame⟩ :=
      transition_accept (C := fun _ => False) hacc hrest htrans
    rw [heq]
    refine (marked_turns hz).trans (Marked.trans ?_ (marked_turns (H := fun _ => False)
      (C := fun _ => False) (turns_queueMessage rfl fun _ => rfl)))
    refine ⟨fun hclean => ?_, hd⟩
    rcases hsame with hsame | hsame
    · exact absurd hclean (by simp [hsame])
    · exact ⟨rfl, rfl, rfl, rfl, hsame.1⟩

lemma marked_commitAndApply (x : Node σ) : Marked x (x.commitAndApply A).1 := by
  rw [commitAndApply_eq]
  have hadv : Marked x x.advanced := by
    rcases advanced_cases x with h | ⟨k, -, -, h⟩
    · rw [h]
      exact Marked.refl x
    · rw [h]
      exact ⟨by simp, fun _ => rfl⟩
  obtain ⟨happ, -⟩ := applying_applyCommitted (A := A) x.advanced.toApplyCount x.advanced
  exact hadv.trans ⟨fun _ => ⟨happ.term, happ.vote, happ.snapIndex, happ.snapTerm, happ.log⟩,
    (calm_applyCommitted _ x.advanced).dirty⟩

lemma marked_maybeDriveMembership (x : Node σ) : Marked x x.maybeDriveMembership := by
  have hcase := maybeDriveMembership_cases x
  generalize x.maybeDriveMembership = y at hcase ⊢
  cases hcase with
  | enter | leave => exact ⟨by simp, fun _ => rfl⟩
  | none | fullEnter | joint | fullLeave | stable =>
      exact ⟨fun _ => ⟨rfl, rfl, rfl, rfl, rfl⟩, id⟩

lemma marked_maybeCompact (x : Node σ) : Marked x (x.maybeCompact A).1 := by
  rcases maybeCompact_cases (A := A) x with heq | ⟨data, -, -, -, -, heq⟩
  · rw [heq]
    exact Marked.refl x
  · rw [heq]
    exact ⟨by simp, fun _ => rfl⟩

/-- **The end of a tick** marks what it changes. -/
lemma marked_dumped (x : Node σ) : Marked x (x.dumped A) :=
  ((marked_commitAndApply x).trans (marked_maybeDriveMembership _)).trans (marked_maybeCompact _)

/-! ### Votes -/

/-- Whatever a file holds, the vote read from it is missing or well formed. -/
lemma idOk_readVote {old : CString} (hold : old = [] ∨ IdOk old) (text : List Char) :
    readVote old text = [] ∨ IdOk (readVote old text) := by
  rw [readVote]
  split
  · exact Or.inl rfl
  · rename_i hdash
    cases hw : scanWord (maxId - 1) text with
    | none => exact hold
    | some w =>
        rw [hw] at hdash
        obtain ⟨hmem, hlen⟩ := mem_of_scanWord hw
        have hne : w ≠ [] := by
          rintro rfl
          rw [scanWord] at hw
          split at hw
          · simp at hw
          · rename_i hnil
            exact hnil (Option.some.inj hw)
        exact Or.inr ⟨hne, hlen, fun c hc => (hmem c hc).2, hdash⟩

lemma vote_readMetaLine {mf : MetaFile} (h : mf.votedFor = [] ∨ IdOk mf.votedFor)
    (line : List Char) :
    (readMetaLine mf line).votedFor = [] ∨ IdOk (readMetaLine mf line).votedFor := by
  have hcases : (readMetaLine mf line).votedFor = mf.votedFor ∨
      ∃ v, (readMetaLine mf line).votedFor = readVote mf.votedFor v := by
    rw [readMetaLine]
    repeat' split
    all_goals first | exact Or.inl rfl | exact Or.inr ⟨_, rfl⟩
  rcases hcases with heq | ⟨v, heq⟩
  · rw [heq]
    exact h
  · rw [heq]
    exact idOk_readVote h v

lemma vote_readMeta (file : Option (List Char)) :
    (readMeta file).votedFor = [] ∨ IdOk (readMeta file).votedFor := by
  have hfold : ∀ (ls : List (List Char)) (mf : MetaFile), mf.votedFor = [] ∨ IdOk mf.votedFor →
      (ls.foldl readMetaLine mf).votedFor = [] ∨ IdOk (ls.foldl readMetaLine mf).votedFor := by
    intro ls
    induction ls with
    | nil => exact fun mf h => h
    | cons l ls ih => exact fun mf h => ih _ (vote_readMetaLine h l)
  exact hfold _ _ (Or.inl rfl)

/-- The vote of a node and the ids it may come from are well formed. -/
structure VoteOk (x : Node σ) : Prop where
  vote : x.votedFor = [] ∨ IdOk x.votedFor
  nodeId : IdOk x.config.nodeId
  sources : ∀ m, x.Waiting m → IdOk m.source

lemma VoteOk.frame (h : VoteOk x) (hv : y.votedFor = x.votedFor)
    (hn : y.config.nodeId = x.config.nodeId) (hw : ∀ m, y.Waiting m → x.Waiting m) : VoteOk y :=
  ⟨hv ▸ h.vote, hn ▸ h.nodeId, fun m hm => h.sources m (hw m hm)⟩

lemma VoteOk.turn (hx : VoteOk x) (hH : ∀ m, H m → IdOk m.source) (h : Turn H C x y) :
    VoteOk y := by
  have hsources := waiting_turns h.turns hH hx.sources
  cases h with
  | raise => exact ⟨Or.inl rfl, hx.nodeId, hsources⟩
  | campaign =>
      refine ⟨Or.inr ?_, hx.nodeId, hsources⟩
      change IdOk (strncpy maxId x.config.nodeId)
      rw [strncpy_self hx.nodeId.length_lt]
      exact hx.nodeId
  | vote m hm =>
      refine ⟨Or.inr ?_, hx.nodeId, hsources⟩
      change IdOk (strncpy maxId m.source)
      rw [strncpy_self (hH m hm).length_lt]
      exact hH m hm
  | tune | role | lead | queue | clear | report | backOff | commit | append =>
      exact ⟨hx.vote, hx.nodeId, hsources⟩

lemma VoteOk.turns (hx : VoteOk x) (hH : ∀ m, H m → IdOk m.source) (h : Turns H C x y) :
    VoteOk y :=
  h.invariant (fun _ _ hx h => hx.turn hH h) hx

lemma VoteOk.transition (hx : VoteOk x) : VoteOk (x.transition A) := by
  rcases transition_turns (C := fun _ => False) (A := A) x with h | ⟨m, rest, hacc, hrest, htrans⟩
  · exact hx.turns hx.sources h
  · obtain ⟨t, v, l, e, d₀, d, z, -, hz, -, heq, -⟩ :=
      transition_accept (C := fun _ => False) hacc hrest htrans
    have hzv : VoteOk z := hx.turns (fun _ h => h.elim) hz
    have hav : VoteOk { z.absorbed A m with persistDirty := d } := hzv.frame rfl rfl fun _ => id
    rw [heq]
    exact hav.turns (H := fun _ => False) (C := fun _ => False) (fun _ h => h.elim)
      (turns_queueMessage rfl fun _ => rfl)

lemma VoteOk.dumped (hx : VoteOk x) : VoteOk (x.dumped A) := by
  have hadv := still_advanced x
  have hcalm := calm_applyCommitted (A := A) x.advanced.toApplyCount x.advanced
  have hstill := (still_maybeDriveMembership (x.commitAndApply A).1).trans
    (still_maybeCompact (A := A) _)
  refine hx.frame ?_ ?_ (waiting_dumped x)
  · exact hstill.vote.trans (hcalm.vote.trans hadv.vote)
  · rw [Node.dumped, hstill.config]
    exact hcalm.nodeId.trans (by rw [hadv.config])

/-! ### Files -/

/-- **What was just saved agrees with the node.** -/
lemma agrees_save {bad : List Char} (hbad : Separators bad) (hx : x.Sound bad) (hv : VoteOk x)
    (hfit : x.Fits) (file : Option SnapshotFile) :
    Agrees { metaText := some (writeMeta x), logText := some (writeLog x), snapshot := file } x := by
  obtain ⟨h1, h2, -, -, h3, h4, -⟩ := numbers_readMeta hfit (hx.spelled.linesOk hbad.newline hfit)
  refine ⟨h1, h2.trans (readVote_line hv.vote), h3, h4, ?_⟩
  change (readLog (readMeta (some (writeMeta x))).snapshotLastIncludedIndex
    (some (writeLog x))).map LogEntry.stamp = _
  rw [h3]
  refine stamps_readLog hfit.2.2.2.2.2.2.2.2
    (fun e he => (hx.spelled.log e he).stampOk hbad.newline) hx.full fun e he => ?_
  obtain ⟨k, hk⟩ := List.getElem?_of_mem he
  have := hx.numbered k e hk
  change x.snapshotLastIncludedIndex < e.index
  push_cast at this
  omega

/-- What a load makes of files that agree with a node. -/
lemma Agrees.load (h : Agrees disk x) (y : Node σ) :
    (y.load A disk).currentTerm = x.currentTerm ∧ (y.load A disk).votedFor = x.votedFor ∧
      (y.load A disk).snapshotLastIncludedIndex = x.snapshotLastIncludedIndex ∧
      (y.load A disk).snapshotLastIncludedTerm = x.snapshotLastIncludedTerm ∧
      (y.load A disk).log.map LogEntry.stamp = x.log.map LogEntry.stamp := by
  obtain ⟨u, heq⟩ := load_record (A := A) y disk
  rw [heq]
  exact ⟨h.term, h.vote, h.snapIndex, h.snapTerm, h.log⟩

/-- The fields a started node reads from its files. -/
lemma start_fields (x : Node σ) (disk : Disk) : Agrees disk (x.start A disk) ∧
    (x.start A disk).votedFor = (readMeta disk.metaText).votedFor ∧
    (x.start A disk).config.nodeId = x.config.nodeId ∧
    (∀ m, (x.start A disk).Waiting m → x.Waiting m) := by
  have hload : Agrees disk (x.load A disk) ∧
      (x.load A disk).votedFor = (readMeta disk.metaText).votedFor ∧
      (x.load A disk).config.nodeId = x.config.nodeId ∧
      (∀ m, (x.load A disk).Waiting m → x.Waiting m) := by
    obtain ⟨u, heq⟩ := load_record (A := A) x disk
    rw [heq]
    exact ⟨⟨rfl, rfl, rfl, rfl, rfl⟩, rfl, rfl, fun _ => id⟩
  rw [Node.start]
  generalize x.load A disk = z at hload ⊢
  obtain ⟨h1, h2, h3, h4⟩ := hload
  dsimp only
  split
  · exact ⟨h1.same ⟨rfl, rfl, rfl, rfl, rfl⟩, h2, h3, h4⟩
  · exact ⟨h1.same ⟨rfl, rfl, rfl, rfl, rfl⟩, h2, h3, h4⟩

/-! ### Runs -/

/-- A well-formed id without the field separator. -/
structure PlainId (id : CString) : Prop extends IdOk id where
  noBar : '|' ∉ id

/-- The texts of a command stay on one line. -/
structure OneLine (c : Command) : Prop where
  op : '\n' ∉ c.op
  key : '\n' ∉ c.key
  value : '\n' ∉ c.value

/-- What the environment may do to the node: it speaks in plain ids and commands without
newlines. -/
def LoggedAct : HostAct σ → Prop
  | .latch _ _ messages commands =>
      (∀ m ∈ messages, PlainId m.source ∧
        ∀ e ∈ m.entries, (e.leaderId = [] ∨ PlainId e.leaderId) ∧ OneLine e.command) ∧
      ∀ c ∈ commands, OneLine c
  | .request members => ∀ id ∈ members, PlainId id
  | .transition _ | .dump | .stop | .start _ => True
  | _ => False

/-- A node whose ids are plain. -/
structure PlainConfig (config : NodeConfig) : Prop where
  nodeId : PlainId config.nodeId
  initial : ∀ id ∈ config.initialMembers, PlainId id
  peers : ∀ id ∈ config.peers, PlainId id

lemma PlainId.free {id : CString} (h : PlainId id) : Free separators id := by
  intro c hc hsep
  simp only [separators, List.mem_cons, List.not_mem_nil, or_false] at hsep
  rcases hsep with rfl | rfl
  · exact not_mem_of_isSpace h.no_space hc
  · exact h.noBar hc

lemma separators_newline : Separators ['\n'] := ⟨by simp, by simp [separators]⟩

lemma separators_self : Separators separators := ⟨by simp [separators], fun _ => id⟩

lemma free_newline {s : CString} (h : '\n' ∉ s) : Free ['\n'] s := by
  intro c hc hb
  rw [List.mem_singleton.mp hb] at hc
  exact h hc

lemma OneLine.free {c : Command} (h : OneLine c) : CommandFree ['\n'] c :=
  ⟨free_newline h.op, free_newline h.key, free_newline h.value⟩

lemma LoggedAct.spelled {a : HostAct σ} (h : LoggedAct a) : a.Spelled ['\n'] := by
  cases a with
  | latch clock slots ms cs =>
      refine ⟨fun m hm => ?_, fun c hc => (h.2 c hc).free⟩
      obtain ⟨hsource, hentries⟩ := h.1 m hm
      refine ⟨hsource.free.of_separators separators_newline, fun e he => ?_⟩
      obtain ⟨hleader, hcmd⟩ := hentries e he
      refine ⟨?_, hcmd.free⟩
      rcases hleader with hl | hl
      · rw [hl]
        exact free_nil _
      · exact hl.free
  | request members => exact fun id hid => (h id hid).free.of_separators separators_newline
  | transition | dump | stop | start | resetForJoin | crash | crashInDump | crashInReset => trivial

lemma LoggedAct.crashOk {a : HostAct σ} (h : LoggedAct a) (host : Host σ) : CrashOk A host a := by
  cases a with
  | crash | crashInDump | crashInReset => exact h.elim
  | latch | request | transition | dump | stop | start | resetForJoin => trivial

/-- A host whose node agrees with its files unless it is marked. -/
structure Host.Logged (h : Host σ) : Prop where
  sound : h.Sound ['\n']
  vote : VoteOk h.node
  clean : h.node.persistDirty = false → Agrees h.disk h.node

lemma logged_boot {config : NodeConfig} (hc : PlainConfig config) (user : σ) (clock : ℤ) :
    (Host.boot A config user clock).Logged := by
  have hspelled : config.Spelled ['\n'] :=
    ⟨hc.nodeId.free, fun id hid => (hc.initial id hid).free.of_separators separators_newline,
      fun id hid => (hc.peers id hid).free.of_separators separators_newline⟩
  obtain ⟨u, c, s, d, e₁, e₂, heq, -⟩ := init_empty (A := A) config user clock
  have hnode : (Host.boot A config user clock).node = Node.init A config Disk.empty user clock := rfl
  refine ⟨sound_boot separators_newline hspelled user clock, ?_, fun _ => ?_⟩
  · rw [hnode, heq]
    refine ⟨Or.inl rfl, hc.nodeId.toIdOk, ?_⟩
    rintro m (hm | hm)
    · exact absurd hm List.not_mem_nil
    · exact absurd hm List.not_mem_nil
  · rw [hnode, heq]
    exact ⟨rfl, rfl, rfl, rfl, rfl⟩

/-- **Every act keeps a node that is not dirty in agreement with its files.** -/
lemma logged_exec {h h' : Host σ} {a : HostAct σ} {e : Effect} (hh : h.Logged) (ha : LoggedAct a)
    (he : h.exec A a = some (h', e)) : h'.Logged := by
  refine ⟨sound_exec separators_newline hh.sound ha.spelled (ha.crashOk h) he, ?_, ?_⟩
  all_goals obtain ⟨hcase, hfit⟩ := exec_cases he
  · cases hcase with
    | latch clock slots ms cs _ =>
        exact hh.vote.turns (fun m hm => (ha.1 m hm).1.toIdOk)
          (turns_latchInputs (H := (· ∈ ms)) (C := (· ∈ cs)) (fun _ => id) (fun _ => id) clock slots)
    | transition clock _ =>
        have hclock : VoteOk { h.node with clockMs := clock } := hh.vote.frame rfl rfl fun _ => id
        exact hclock.transition
    | dumpStopped _ _ => exact hh.vote.frame rfl rfl fun _ => id
    | dump _ _ => exact (hh.vote.dumped (A := A)).frame rfl rfl fun _ => id
    | stop _ =>
        refine hh.vote.frame rfl rfl ?_
        rintro m (hm | hm)
        · exact absurd hm List.not_mem_nil
        · exact absurd hm List.not_mem_nil
    | start clock _ =>
        obtain ⟨-, hv, hn, hw⟩ := start_fields (A := A) { h.node with clockMs := clock } h.disk
        refine ⟨?_, ?_, fun m hm => hh.vote.sources m (hw m hm)⟩
        · rw [hv]
          exact vote_readMeta _
        · rw [hn]
          exact hh.vote.nodeId
    | request members _ =>
        change VoteOk (h.node.requestMembershipChange members).1
        rw [Node.requestMembershipChange]
        split
        · exact hh.vote
        · dsimp only
          split
          · exact hh.vote.frame rfl rfl fun _ => id
          · exact hh.vote.frame rfl rfl fun _ => id
    | resetForJoin | crash | crashInDump | crashInReset => exact ha.elim
  · cases hcase with
    | latch clock slots ms cs _ =>
        exact (marked_turns (turns_latchInputs (H := (· ∈ ms)) (C := (· ∈ cs)) (fun _ => id)
          (fun _ => id) clock slots)).agrees hh.clean
    | transition clock _ =>
        have hclock : Marked h.node { h.node with clockMs := clock } :=
          ⟨fun _ => ⟨rfl, rfl, rfl, rfl, rfl⟩, id⟩
        exact (hclock.trans (marked_transition _)).agrees hh.clean
    | dumpStopped _ _ =>
        intro hclean
        exact (hh.clean hclean).same ⟨rfl, rfl, rfl, rfl, rfl⟩
    | dump _ hrun =>
        intro _
        have hsound := hh.sound.node.dumped (A := A) separators_newline
        have hvote := hh.vote.dumped (A := A)
        have hsame : SameStored (h.node.dumped A)
            { h.node.dumped A with persistDirty := false, outbox := [] } :=
          ⟨rfl, rfl, rfl, rfl, rfl⟩
        refine Agrees.same ?_ hsame
        change Agrees (h.disk.writeAll (h.node.dumpOutputs A).writes) _
        rw [dumpOutputs_eq hrun]
        rcases writeAll_all h.disk _ (h.node.dumped A) (dirty_of_compacts h.node) with
          ⟨hclean, -, heq⟩ | ⟨-, heq⟩
        · dsimp only
          rw [heq]
          exact (marked_dumped h.node).agrees hh.clean hclean
        · dsimp only
          rw [heq]
          exact agrees_save separators_newline hsound hvote hfit _
    | stop _ =>
        intro hclean
        exact (hh.clean hclean).same ⟨rfl, rfl, rfl, rfl, rfl⟩
    | start clock _ => exact fun _ => (start_fields _ _).1
    | request members _ =>
        change (h.node.requestMembershipChange members).1.persistDirty = false →
          Agrees h.disk (h.node.requestMembershipChange members).1
        rw [Node.requestMembershipChange]
        split
        · exact hh.clean
        · dsimp only
          split
          · exact fun hclean => (hh.clean hclean).same ⟨rfl, rfl, rfl, rfl, rfl⟩
          · exact fun hclean => (hh.clean hclean).same ⟨rfl, rfl, rfl, rfl, rfl⟩
    | resetForJoin | crash | crashInDump | crashInReset => exact ha.elim

lemma logged_run {config : NodeConfig} (hc : PlainConfig config) {user : σ} {clock : ℤ}
    {h : Host σ} (hrun : Run (Host.step A) (fun _ a => LoggedAct a)
      (Host.boot A config user clock) h) : h.Logged :=
  hrun.invariant (fun _ _ _ hh ha hs => by
    obtain ⟨e, he⟩ := exec_of_step hs
    exact logged_exec hh ha he) (logged_boot hc user clock)

/-- **Write-ahead discipline.**  Whenever the end of a tick hands a message to the transport, its
files have been replaced already, and a load from them would give the term, the vote, the snapshot
index and term and the index, term and leader of every entry that the node has in memory. -/
theorem files_agree_at_send (A : Application σ) {config : NodeConfig} (hc : PlainConfig config)
    (user : σ) (clock : ℤ) {h h' : Host σ} {e : Effect}
    (hrun : Run (Host.step A) (fun _ a => LoggedAct a) (Host.boot A config user clock) h)
    (hdump : h.exec A .dump = some (h', e)) :
    ∀ m ∈ e.sends, ∀ y : Node σ,
      (y.load A h'.disk).currentTerm = h'.node.currentTerm ∧
      (y.load A h'.disk).votedFor = h'.node.votedFor ∧
      (y.load A h'.disk).snapshotLastIncludedIndex = h'.node.snapshotLastIncludedIndex ∧
      (y.load A h'.disk).snapshotLastIncludedTerm = h'.node.snapshotLastIncludedTerm ∧
      (y.load A h'.disk).log.map LogEntry.stamp = h'.node.log.map LogEntry.stamp := by
  intro m hm y
  have hlogged : h'.Logged := logged_exec (a := .dump) (logged_run hc hrun) trivial hdump
  have hclean : h'.node.persistDirty = false := by
    obtain ⟨hcase, -⟩ := exec_cases hdump
    cases hcase with
    | dumpStopped _ _ => exact absurd hm List.not_mem_nil
    | dump _ _ => rfl
  exact (hlogged.clean hclean).load y

/-- The first two phases of a tick. -/
def openTick (clock : ℤ) (ms : List Message) (cs : List Command) : List (HostAct σ) :=
  [.latch clock (fun _ => ⟨0, 0, [], ⟨[], [], []⟩⟩) ms cs, .transition clock]

lemma plainId_n1 : PlainId n1 := ⟨⟨by decide, by decide, by decide, by decide⟩, by decide⟩

lemma plainConfig_three : PlainConfig (threeConfig n1) := by
  refine ⟨plainId_n1, fun id hid => ⟨idOk_three id hid, ?_⟩, by simp [threeConfig]⟩
  simp only [threeConfig, List.mem_cons, List.not_mem_nil, or_false] at hid
  rcases hid with rfl | rfl | rfl
  all_goals decide

/-- A node that campaigns: two vote requests leave, and the files hold its term and vote. -/
theorem files_agree_at_send_campaign : ∃ (h h' : Host Unit) (e : Effect),
    Run (Host.step silent) (fun _ a => LoggedAct a) (Host.boot silent (threeConfig n1) () 0) h ∧
    h.exec silent .dump = some (h', e) ∧ e.sends.length = 2 ∧ h'.node.currentTerm = 1 ∧
    ∀ m ∈ e.sends, ∀ y : Node Unit,
      (y.load silent h'.disk).currentTerm = h'.node.currentTerm ∧
      (y.load silent h'.disk).votedFor = h'.node.votedFor ∧
      (y.load silent h'.disk).snapshotLastIncludedIndex = h'.node.snapshotLastIncludedIndex ∧
      (y.load silent h'.disk).snapshotLastIncludedTerm = h'.node.snapshotLastIncludedTerm ∧
      (y.load silent h'.disk).log.map LogEntry.stamp = h'.node.log.map LogEntry.stamp := by
  have hexec : (execAll (Host.step silent) (fun _ _ => true)
      (Host.boot silent (threeConfig n1) () 0) (openTick 1 [] [])).any
      (fun h => (h.exec silent .dump).any
        fun r => r.2.sends.length == 2 && decide (r.1.node.currentTerm = 1)) = true := by
    decide +kernel
  have hacts : ∀ a ∈ (openTick 1 [] [] : List (HostAct Unit)), LoggedAct a := by
    intro a ha
    simp only [openTick, List.mem_cons, List.not_mem_nil, or_false] at ha
    rcases ha with rfl | rfl
    · exact ⟨by simp, by simp⟩
    · trivial
  obtain ⟨h, hrun, hq⟩ := Run.exists_of_forall hacts hexec
  rw [Option.any_eq_true] at hq
  obtain ⟨⟨h', e⟩, hdump, hr⟩ := hq
  rw [Bool.and_eq_true, beq_iff_eq, decide_eq_true_eq] at hr
  exact ⟨h, h', e, hrun, hdump, hr.1, hr.2,
    files_agree_at_send silent plainConfig_three () 0 hrun hdump⟩

end RaftRx.C
