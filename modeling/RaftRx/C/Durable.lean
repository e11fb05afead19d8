import Mathlib.Data.List.TakeWhile
import RaftRx.C.Spelling

/-!
Nodes whose files and memory belong together.

* `Node.Sound`: the texts are free of separators, the log is numbered from the snapshot on and
  commit index and applied index lie in order;
* `Disk.entries`, `readLog_eq`: the entries `log.txt` holds, and those a load keeps;
* `Disk.Sound`: what a load reads is sound;
* `Host.Sound`, `HostAct.Spelled`, `CrashOk`: a host whose node and files are sound, the acts it is
  given, and the one crash that breaks it;
* `sound_exec`: every other act keeps it sound.
-/

namespace RaftRx.C

open Protocol (Role)
open Text

variable {σ : Type*} {A : Application σ} {bad : List Char} {x y : Node σ}
  {H : Message → Prop} {C : Command → Prop} {m : Message} {disk : Disk}

/-! ### Nodes -/

/-- Texts, log and indices of a node are in order. -/
structure Node.Sound (bad : List Char) (x : Node σ) : Prop where
  spelled : x.Spelled bad
  inside : x.Inside
  numbered : x.Contiguous
  full : x.log.length ≤ maxLog

/-- Log and indices of a node depend on a few of its fields. -/
lemma Node.Sound.frame (h : x.Sound bad) (hs : y.Spelled bad) (hl : y.log = x.log)
    (hi : y.snapshotLastIncludedIndex = x.snapshotLastIncludedIndex)
    (hc : y.commitIndex = x.commitIndex) (ha : y.lastApplied = x.lastApplied) : y.Sound bad := by
  obtain ⟨-, ⟨h1, h2, h3⟩, h4, h5⟩ := h
  refine ⟨hs, ⟨?_, ?_, ?_⟩, ?_, ?_⟩
  · rw [hi]
    exact h1
  · rw [hi, ha]
    exact h2
  · rw [Node.lastLogIndex, hi, hl, hc]
    exact h3
  · rw [Node.Contiguous, hi, hl]
    exact h4
  · rw [hl]
    exact h5

lemma Node.Inside.turn (hx : x.Inside) (h : Turn H C x y) : y.Inside := by
  obtain ⟨hs, ha, hc⟩ := hx
  cases h with
  | commit k _ hle => exact ⟨hs, ha, hle⟩
  | append c _ _ =>
      refine ⟨hs, ha, ?_⟩
      simp only [Node.lastLogIndex, List.length_append] at hc ⊢
      push_cast
      omega
  | tune | role | lead | raise | campaign | vote | queue | clear | report | backOff =>
      exact ⟨hs, ha, hc⟩

/-- An entry at the end of the log keeps it numbered. -/
lemma Node.Contiguous.append_end {e : LogEntry} (hx : x.Contiguous)
    (he : e.index = x.lastLogIndex + 1) :
    Numbered x.snapshotLastIncludedIndex 0 (x.log ++ [e]) :=
  Numbered.append_end hx he

lemma Node.Sound.turn (hbad : Separators bad) (hx : x.Sound bad)
    (hH : ∀ m, H m → MessageFree bad m) (hC : ∀ c, C c → CommandFree bad c) (h : Turn H C x y) :
    y.Sound bad := by
  refine ⟨hx.spelled.turn hbad hH hC h, hx.inside.turn h, ?_, ?_⟩
  · have hn := hx.numbered
    cases h with
    | append c _ _ => exact hn.append_end rfl
    | tune | role | lead | raise | campaign | vote | queue | clear | report | backOff | commit =>
        exact hn
  · have hf := hx.full
    cases h with
    | append c _ hroom =>
        rw [List.length_append, List.length_singleton]
        omega
    | tune | role | lead | raise | campaign | vote | queue | clear | report | backOff | commit =>
        exact hf

lemma Node.Sound.turns (hbad : Separators bad) (hx : x.Sound bad)
    (hH : ∀ m, H m → MessageFree bad m) (hC : ∀ c, C c → CommandFree bad c) (h : Turns H C x y) :
    y.Sound bad :=
  h.invariant (fun _ _ hx h => hx.turn hbad hH hC h) hx

lemma settledCommit_le_last (x : Node σ) (m : Message) (b : Bool) :
    settledCommit x m b ≤ x.lastLogIndex := by
  rw [settledCommit]
  split
  · exact min_le_right _ _
  · split
    · exact min_le_right _ _
    · split
      · exact le_rfl
      · omega

lemma Node.Sound.absorbed (hx : x.Sound bad) (hm : MessageFree bad m) (d : Bool) :
    Node.Sound bad { x.absorbed A m with persistDirty := d } := by
  refine ⟨hx.spelled.absorbed hm d, ⟨hx.inside.snap_nonneg, ?_, ?_⟩, merged_contiguous hx.numbered m,
    mergeEntries_full m.entries (x, false) hx.full⟩
  · change x.snapshotLastIncludedIndex ≤
      if (x.merged m).2 then x.snapshotLastIncludedIndex else x.lastApplied
    split
    · exact le_rfl
    · exact hx.inside.applied
  · exact settledCommit_le_last { x with log := (x.merged m).1 } m _

lemma Node.Sound.transition (hbad : Separators bad) (hx : x.Sound bad) :
    (x.transition A).Sound bad := by
  have hwait : ∀ m, x.Waiting m → MessageFree bad m := by
    rintro m (hm | hm)
    · exact hx.spelled.appends m hm
    · exact hx.spelled.requests m hm
  rcases transition_turns (C := fun _ => False) (A := A) x with h | ⟨m, rest, hacc, hrest, htrans⟩
  · exact hx.turns hbad hwait (fun _ h => h.elim) h
  · obtain ⟨t, v, l, e, d₀, d, z, -, hz, -, heq, -⟩ :=
      transition_accept (C := fun _ => False) hacc hrest htrans
    have hzs : z.Sound bad := hx.turns hbad (fun _ h => h.elim) (fun _ h => h.elim) hz
    have hm : MessageFree bad m := hx.spelled.appends m (mem_of_eq_cons hrest).1
    rw [heq]
    exact (hzs.absorbed hm d).turns (H := fun _ => False) (C := fun _ => False) hbad
      (fun _ h => h.elim) (fun _ h => h.elim) (turns_queueMessage rfl fun _ => rfl)

/-! ### The end of a tick -/

lemma foldl_min_le (l : List ℤ) : ∀ a : ℤ, l.foldl min a ≤ a := by
  induction l with
  | nil => exact fun a => le_rfl
  | cons b l ih => exact fun a => (ih (min a b)).trans (min_le_left a b)

/-- The compactible index is not beyond the applied one. -/
lemma compactibleIndex_le (x : Node σ) : x.compactibleIndex ≤ x.lastApplied := by
  rw [Node.compactibleIndex]
  split
  · exact le_rfl
  · exact foldl_min_le _ _

lemma Numbered.drop {s : ℤ} {es : List LogEntry} (h : Numbered s 0 es) (k : ℕ) :
    Numbered (s + k) 0 (es.drop k) := by
  intro j e he
  rw [List.getElem?_drop] at he
  have := h (k + j) e he
  push_cast at this ⊢
  omega

lemma Node.Sound.commitAndApply (hx : x.Sound bad) : (x.commitAndApply A).1.Sound bad := by
  have hadv : x.advanced.Contiguous ∧ x.advanced.log.length ≤ maxLog := by
    rcases advanced_cases x with h | ⟨k, -, -, h⟩
    all_goals
      rw [h]
      exact ⟨hx.numbered, hx.full⟩
  refine ⟨hx.spelled.commitAndApply hx.inside, ?_, ?_, ?_⟩
  all_goals
    rw [commitAndApply_eq]
    obtain ⟨happ, hla⟩ := applying_applyCommitted (A := A) x.advanced.toApplyCount x.advanced
  · exact hx.inside.advanced.applying happ (by omega)
  · rw [Node.Contiguous, happ.log, happ.snapIndex]
    exact hadv.1
  · rw [happ.log]
    exact hadv.2

lemma Node.Sound.maybeDriveMembership (hbad : Separators bad) (hx : x.Sound bad) :
    x.maybeDriveMembership.Sound bad := by
  have hlast : ∀ e : LogEntry, x.commitIndex ≤
      x.snapshotLastIncludedIndex + ((x.log ++ [e]).length : ℤ) := by
    intro e
    have := hx.inside.commit
    simp only [Node.lastLogIndex, List.length_append] at this ⊢
    push_cast
    omega
  refine ⟨hx.spelled.maybeDriveMembership hbad, ?_, ?_, ?_⟩
  all_goals
    have hcase := maybeDriveMembership_cases x
    generalize x.maybeDriveMembership = y at hcase ⊢
  · cases hcase with
    | none | fullEnter | joint | fullLeave | stable =>
        exact ⟨hx.inside.snap_nonneg, hx.inside.applied, hx.inside.commit⟩
    | enter => exact ⟨hx.inside.snap_nonneg, hx.inside.applied, hlast _⟩
    | leave => exact ⟨hx.inside.snap_nonneg, hx.inside.applied, hlast _⟩
  · cases hcase with
    | none | fullEnter | joint | fullLeave | stable => exact hx.numbered
    | enter => exact hx.numbered.append_end rfl
    | leave => exact hx.numbered.append_end rfl
  · cases hcase with
    | none | fullEnter | joint | fullLeave | stable => exact hx.full
    | enter _ _ _ _ _ _ hroom =>
        rw [List.length_append, List.length_singleton]
        omega
    | leave _ _ _ _ _ _ hroom =>
        rw [List.length_append, List.length_singleton]
        omega

lemma Node.Sound.maybeCompact (hx : x.Sound bad) : (x.maybeCompact A).1.Sound bad := by
  refine ⟨hx.spelled.maybeCompact, ?_, ?_, ?_⟩
  all_goals
    rcases maybeCompact_cases (A := A) x with heq | ⟨data, -, hlo, hhi, -, heq⟩
  all_goals rw [heq]
  · exact hx.inside
  · have hla := compactibleIndex_le x
    have hc := hx.inside.commit
    have hs := hx.inside.snap_nonneg
    refine ⟨by dsimp only; omega, hla, ?_⟩
    simp only [Node.lastLogIndex, List.length_drop] at hc hhi ⊢
    omega
  · exact hx.numbered
  · have h := Numbered.drop hx.numbered
      (x.compactibleIndex - x.snapshotLastIncludedIndex).toNat
    rw [show x.snapshotLastIncludedIndex +
      ((x.compactibleIndex - x.snapshotLastIncludedIndex).toNat : ℤ) = x.compactibleIndex by
        omega] at h
    exact h
  · exact hx.full
  · have := hx.full
    rw [List.length_drop]
    omega

/-- **The end of a tick** keeps a node sound. -/
lemma Node.Sound.dumped (hbad : Separators bad) (hx : x.Sound bad) : (x.dumped A).Sound bad :=
  (hx.commitAndApply.maybeDriveMembership hbad).maybeCompact

/-! ### Files -/

/-- The entries `log.txt` holds. -/
def Disk.entries (disk : Disk) : List LogEntry := (fileLines disk.logText).filterMap parseEntry

/-- The loop over `log.txt`, as long as there is room. -/
lemma foldl_readLogLine_filter (s : ℤ) (ls : List (List Char)) : ∀ log : List LogEntry,
    log.length + (ls.filterMap parseEntry).length ≤ maxLog →
    ls.foldl (readLogLine s) log =
      log ++ (ls.filterMap parseEntry).filter fun e => decide (s < e.index) := by
  induction ls with
  | nil => simp
  | cons l ls ih =>
      intro log hlen
      rw [List.foldl_cons]
      cases hp : parseEntry l with
      | none =>
          rw [List.filterMap_cons_none hp] at hlen ⊢
          have hline : readLogLine s log l = log := by
            rw [readLogLine, hp]
            split <;> rfl
          rw [hline, ih log hlen]
      | some e =>
          rw [List.filterMap_cons_some hp] at hlen ⊢
          rw [List.length_cons] at hlen
          have hroom : log.length < maxLog := by omega
          by_cases hs : s < e.index
          · have hline : readLogLine s log l = log ++ [e] := by
              rw [readLogLine, if_pos hroom, hp]
              exact if_neg (not_le.mpr hs)
            rw [hline, ih _ (by rw [List.length_append, List.length_singleton]; omega),
              List.filter_cons_of_pos (by simpa using hs)]
            simp
          · have hline : readLogLine s log l = log := by
              rw [readLogLine, if_pos hroom, hp]
              exact if_pos (not_lt.mp hs)
            rw [hline, ih log (by omega), List.filter_cons_of_neg (by simpa using hs)]

/-- **A load keeps the entries beyond the snapshot.** -/
lemma readLog_eq {d : Disk} (h : d.entries.length ≤ maxLog) (s : ℤ) :
    readLog s d.logText = d.entries.filter fun e => decide (s < e.index) := by
  rw [readLog, foldl_readLogLine_filter s _ [] (by rw [List.length_nil, zero_add]; exact h)]
  rfl

/-- Of numbered entries those beyond an index are a final piece. -/
lemma Numbered.filter {b s : ℤ} {es : List LogEntry} (h : Numbered b 0 es) (hbs : b ≤ s) :
    es.filter (fun e => decide (s < e.index)) = es.drop (s - b).toNat := by
  rw [← List.take_append_drop (s - b).toNat es, List.filter_append,
    List.take_append_drop]
  have hlow : (es.take (s - b).toNat).filter (fun e => decide (s < e.index)) = [] := by
    rw [List.filter_eq_nil_iff]
    intro e he
    obtain ⟨j, hj⟩ := List.getElem?_of_mem he
    rw [List.getElem?_take] at hj
    split at hj
    · have := h j e hj
      simp only [decide_eq_true_eq]
      push_cast at this
      omega
    · simp at hj
  have hhigh : (es.drop (s - b).toNat).filter (fun e => decide (s < e.index)) =
      es.drop (s - b).toNat := by
    rw [List.filter_eq_self]
    intro e he
    obtain ⟨j, hj⟩ := List.getElem?_of_mem he
    rw [List.getElem?_drop] at hj
    have := h _ e hj
    simp only [decide_eq_true_eq]
    push_cast at this
    omega
  rw [hlow, hhigh, List.nil_append]

/-- What is stored about the snapshot is in `snapshot.bin`, if there is a snapshot. -/
def SnapMatches (index term : ℤ) (file : Option SnapshotFile) : Prop :=
  index = 0 ∨ ∃ f, file = some f ∧ f.index = index ∧ f.term = term

/-- What a load reads is sound. -/
structure Disk.Sound (bad : List Char) (disk : Disk) : Prop where
  vote : Free bad (readMeta disk.metaText).votedFor
  old : Roster bad (readMeta disk.metaText).configState.oldMembers
  new : Roster bad (readMeta disk.metaText).configState.newMembers
  snap_nonneg : 0 ≤ (readMeta disk.metaText).snapshotLastIncludedIndex
  entries : ∀ e ∈ disk.entries, EntryFree bad e
  full : disk.entries.length ≤ maxLog
  snapshot : SnapMatches (readMeta disk.metaText).snapshotLastIncludedIndex
    (readMeta disk.metaText).snapshotLastIncludedTerm disk.snapshot

/-- The log a load reads is numbered from the snapshot on. -/
def Disk.Based (disk : Disk) (s : ℤ) : Prop := ∃ b ≤ s, Numbered b 0 disk.entries

lemma Disk.Based.mono {s s' : ℤ} (h : disk.Based s) (hs : s ≤ s') : disk.Based s' := by
  obtain ⟨b, hb, hn⟩ := h
  exact ⟨b, hb.trans hs, hn⟩

lemma soundDisk_empty (bad : List Char) : Disk.empty.Sound bad where
  vote := free_nil bad
  old := roster_nil bad
  new := roster_nil bad
  snap_nonneg := le_rfl
  entries := by simp [Disk.entries, Disk.empty, fileLines]
  full := by simp [Disk.entries, Disk.empty, fileLines]
  snapshot := Or.inl rfl

/-- A loaded node in one record, with the applied state. -/
lemma load_record (y : Node σ) (disk : Disk) : ∃ user : σ, y.load A disk =
    { y with
      currentTerm := (readMeta disk.metaText).currentTerm
      votedFor := (readMeta disk.metaText).votedFor
      log := readLog (readMeta disk.metaText).snapshotLastIncludedIndex disk.logText
      snapshotLastIncludedIndex := (readMeta disk.metaText).snapshotLastIncludedIndex
      snapshotLastIncludedTerm := (readMeta disk.metaText).snapshotLastIncludedTerm
      commitIndex := min (readMeta disk.metaText).commitIndex
        ((readMeta disk.metaText).snapshotLastIncludedIndex +
          (readLog (readMeta disk.metaText).snapshotLastIncludedIndex disk.logText).length)
      snapshotBuf := (matchingSnapshot (readMeta disk.metaText) disk.snapshot).getD []
      compactionThreshold := (readMeta disk.metaText).compactionThreshold
      configState := (readMeta disk.metaText).configState
      user := user
      lastApplied := if (matchingSnapshot (readMeta disk.metaText) disk.snapshot).isSome then
        (readMeta disk.metaText).snapshotLastIncludedIndex else 0 } := by
  rw [Node.load]
  dsimp only
  split
  · rename_i data hsome
    rw [hsome]
    exact ⟨_, rfl⟩
  · rename_i hnone
    rw [hnone]
    exact ⟨_, rfl⟩

lemma matchingSnapshot_isSome {mf : MetaFile} {file : Option SnapshotFile}
    (h : SnapMatches mf.snapshotLastIncludedIndex mf.snapshotLastIncludedTerm file)
    (hs : mf.snapshotLastIncludedIndex ≠ 0) : (matchingSnapshot mf file).isSome = true := by
  rcases h with h | ⟨f, rfl, hi, ht⟩
  · exact absurd h hs
  · rw [matchingSnapshot]
    simp [hi, ht]

/-- **A load gives a sound node.** -/
lemma sound_load (hdisk : disk.Sound bad)
    (hbase : disk.Based (readMeta disk.metaText).snapshotLastIncludedIndex)
    (hconf : y.config.Spelled bad) (hreq : ∀ id ∈ y.requestedMembership, Free bad id)
    (happ : ∀ m ∈ y.pendingAppendEntries, MessageFree bad m)
    (hrv : ∀ m ∈ y.pendingVoteRequests, MessageFree bad m) : (y.load A disk).Sound bad := by
  obtain ⟨user, heq⟩ := load_record (A := A) y disk
  rw [heq]
  have hlog := readLog_eq hdisk.full (readMeta disk.metaText).snapshotLastIncludedIndex
  refine ⟨⟨hconf, hdisk.vote, hdisk.old, hdisk.new, hreq, ?_, happ, hrv⟩,
    ⟨hdisk.snap_nonneg, ?_, min_le_right _ _⟩, ?_, ?_⟩
  · intro e he
    rw [show (_ : List LogEntry) = disk.entries.filter _ from hlog] at he
    exact hdisk.entries e (List.mem_filter.mp he).1
  · dsimp only
    split
    · exact le_rfl
    · rename_i hnone
      by_contra hlt
      exact hnone (matchingSnapshot_isSome hdisk.snapshot (by omega))
  · obtain ⟨b, hb, hn⟩ := hbase
    have hdrop := hn.drop ((readMeta disk.metaText).snapshotLastIncludedIndex - b).toNat
    rw [← hn.filter hb, ← hlog, show b +
      (((readMeta disk.metaText).snapshotLastIncludedIndex - b).toNat : ℤ) =
        (readMeta disk.metaText).snapshotLastIncludedIndex by omega] at hdrop
    exact hdrop
  · dsimp only
    rw [hlog]
    exact (List.length_filter_le _ _).trans hdisk.full

/-! ### Saving -/

lemma mem_of_scanWord {n : ℕ} {s w : List Char} (h : scanWord n s = some w) :
    (∀ c ∈ w, c ∈ s ∧ isSpace c = false) ∧ w.length ≤ n := by
  have hw : w = ((s.dropWhile isSpace).takeWhile fun c => !isSpace c).take n := by
    rw [scanWord] at h
    split at h
    · simp at h
    · exact (Option.some.inj h).symm
  subst hw
  refine ⟨fun c hc => ?_, List.length_take_le _ _⟩
  have hc' := List.mem_of_mem_take hc
  have hall := List.all_eq_true.mp
    (List.all_takeWhile (p := fun c => !isSpace c) (l := s.dropWhile isSpace)) c hc'
  exact ⟨List.dropWhile_subset _ (List.takeWhile_subset _ hc'), by simpa using hall⟩

/-- The ids read so far are free. -/
structure MetaFree (bad : List Char) (mf : MetaFile) : Prop where
  vote : Free bad mf.votedFor
  oldLength : mf.oldSlots.length = maxNodes
  old : ∀ id ∈ mf.oldSlots, id.length < maxId ∧ Free bad id
  newLength : mf.newSlots.length = maxNodes
  new : ∀ id ∈ mf.newSlots, id.length < maxId ∧ Free bad id

/-- A line all whose forbidden characters are white space. -/
def SpacedLine (bad : List Char) (line : List Char) : Prop :=
  ∀ c ∈ line, c ∈ bad → isSpace c = true

lemma SpacedLine.word {n : ℕ} {line w : List Char} (h : SpacedLine bad line)
    (hw : scanWord n line = some w) : Free bad w := by
  intro c hc hb
  obtain ⟨hmem, hspace⟩ := (mem_of_scanWord hw).1 c hc
  rw [h c hmem hb] at hspace
  exact Bool.noConfusion hspace

lemma SpacedLine.readVote {line old : List Char} (h : SpacedLine bad line) (hold : Free bad old) :
    Free bad (readVote old line) := by
  have hget : Free bad ((scanWord (maxId - 1) line).getD old) := by
    cases hw : scanWord (maxId - 1) line with
    | none => exact hold
    | some w => exact h.word hw
  rw [C.readVote]
  split
  · exact free_nil bad
  · exact hget

lemma SpacedLine.readMember {line : List Char} {n : ℕ} {slots : List CString}
    (h : SpacedLine bad line) (hlen : slots.length = maxNodes)
    (hs : ∀ id ∈ slots, id.length < maxId ∧ Free bad id) :
    (readMember n slots line).length = maxNodes ∧
      ∀ id ∈ readMember n slots line, id.length < maxId ∧ Free bad id := by
  rw [C.readMember]
  split
  · split
    · rename_i w hw
      refine ⟨by rw [List.length_set]; exact hlen, fun id hid => ?_⟩
      rcases List.mem_or_eq_of_mem_set hid with hid | rfl
      · exact hs id hid
      · have hle := (mem_of_scanWord hw).2
        have hid : maxId = 16 := rfl
        exact ⟨by omega, h.word hw⟩
    · exact ⟨hlen, hs⟩
  · exact ⟨hlen, hs⟩

lemma SpacedLine.afterKey {key : String} {line v : List Char} (h : SpacedLine bad line)
    (hv : afterKey key line = some v) : SpacedLine bad v := by
  rw [C.afterKey] at hv
  split at hv
  · rw [← Option.some.inj hv]
    exact fun c hc => h c (List.mem_of_mem_drop hc)
  · simp at hv

lemma MetaFree.readMetaLine {mf : MetaFile} {line : List Char} (hm : MetaFree bad mf)
    (h : SpacedLine bad line) : MetaFree bad (readMetaLine mf line) := by
  obtain ⟨hvote, hol, ho, hnl, hn⟩ := hm
  rw [C.readMetaLine]
  split
  · exact ⟨hvote, hol, ho, hnl, hn⟩
  · split
    · exact ⟨(h.afterKey ‹_›).readVote hvote, hol, ho, hnl, hn⟩
    · split
      · exact ⟨hvote, hol, ho, hnl, hn⟩
      · split
        · exact ⟨hvote, hol, ho, hnl, hn⟩
        · split
          · exact ⟨hvote, hol, ho, hnl, hn⟩
          · split
            · exact ⟨hvote, hol, ho, hnl, hn⟩
            · split
              · exact ⟨hvote, hol, ho, hnl, hn⟩
              · split
                · exact ⟨hvote, hol, ho, hnl, hn⟩
                · split
                  · obtain ⟨h1, h2⟩ := (h.afterKey ‹_›).readMember (n := mf.oldCount) hol ho
                    exact ⟨hvote, h1, h2, hnl, hn⟩
                  · split
                    · exact ⟨hvote, hol, ho, hnl, hn⟩
                    · split
                      · obtain ⟨h1, h2⟩ :=
                          (h.afterKey ‹_›).readMember (n := mf.newCount) hnl hn
                        exact ⟨hvote, hol, ho, h1, h2⟩
                      · exact ⟨hvote, hol, ho, hnl, hn⟩

lemma metaFree_foldl (ls : List (List Char)) : ∀ mf : MetaFile, MetaFree bad mf →
    (∀ l ∈ ls, SpacedLine bad l) → MetaFree bad (ls.foldl readMetaLine mf) := by
  induction ls with
  | nil => exact fun mf h _ => h
  | cons l ls ih =>
      intro mf h hls
      exact ih _ (h.readMetaLine (hls l List.mem_cons_self))
        fun l' hl' => hls l' (List.mem_cons_of_mem _ hl')

lemma metaFree_default (bad : List Char) : MetaFree bad {} := by
  have hslots : ∀ id ∈ List.replicate maxNodes ([] : CString), id.length < maxId ∧ Free bad id := by
    intro id hid
    rw [List.eq_of_mem_replicate hid]
    exact ⟨by decide, free_nil bad⟩
  exact ⟨free_nil bad, rfl, hslots, rfl, hslots⟩

lemma spacedLine_metaLine (hbad : Separators bad) {key : String} {value : List Char}
    (hkey : Free separators key.toList) (hv : Free bad value) :
    SpacedLine bad (metaLine key value) := by
  intro c hc hb
  rw [metaLine, List.mem_append, List.mem_append] at hc
  rcases hc with (hc | hc) | hc
  · exact absurd hb (hkey.of_separators hbad c hc)
  · exact absurd hb (hv c hc)
  · rw [List.mem_singleton.mp hc]
    decide

lemma free_decimal (hbad : Separators bad) (z : ℤ) : Free bad (decimal z) := by
  refine Free.of_separators ?_ hbad
  intro c hc hsep
  simp only [separators, List.mem_cons, List.not_mem_nil, or_false] at hsep
  rcases hsep with rfl | rfl
  · exact not_mem_decimal (by decide) (by decide) hc
  · exact not_mem_decimal (by decide) (by decide) hc

/-- **The ids of a saved `meta.txt`** are free. -/
lemma metaFree_writeMeta (hbad : Separators bad) (hx : x.Spelled bad) (hfit : x.Fits) :
    MetaFree bad (readMeta (some (writeMeta x))) := by
  rw [readMeta, lines_writeMeta hfit (hx.linesOk hbad.newline hfit)]
  refine metaFree_foldl _ _ (metaFree_default bad) fun l hl => ?_
  have hdec : ∀ (key : String) (z : ℤ), Free separators key.toList →
      SpacedLine bad (metaLine key (decimal z)) := fun key z hkey =>
    spacedLine_metaLine hbad hkey (free_decimal hbad z)
  have hvote : Free bad (if x.votedFor = [] then ['-'] else x.votedFor) := by
    split
    · exact Free.of_separators (free_of_all (by decide)) hbad
    · exact hx.vote
  simp only [List.mem_append, List.mem_cons, List.mem_map, List.not_mem_nil, or_false] at hl
  rcases hl with h | ⟨id, hid, rfl⟩ | rfl | ⟨id, hid, rfl⟩
  · rcases h with rfl | rfl | rfl | rfl | rfl | rfl | rfl | rfl
    · exact hdec _ _ (free_of_all (by decide))
    · exact spacedLine_metaLine hbad (free_of_all (by decide)) hvote
    all_goals exact hdec _ _ (free_of_all (by decide))
  · exact spacedLine_metaLine hbad (free_of_all (by decide)) (hx.old.free id hid)
  · exact hdec _ _ (free_of_all (by decide))
  · exact spacedLine_metaLine hbad (free_of_all (by decide)) (hx.new.free id hid)

lemma MetaFree.roster {mf : MetaFile} (h : MetaFree bad mf) :
    Roster bad mf.configState.oldMembers ∧ Roster bad mf.configState.newMembers := by
  have hr : ∀ (slots : List CString) (n : ℕ), slots.length = maxNodes →
      (∀ id ∈ slots, id.length < maxId ∧ Free bad id) → Roster bad (slots.take n) := by
    intro slots n hlen hs
    refine ⟨?_, fun id hid => (hs id (List.mem_of_mem_take hid)).1,
      fun id hid => (hs id (List.mem_of_mem_take hid)).2⟩
    rw [List.length_take]
    omega
  exact ⟨hr _ _ h.oldLength h.old, hr _ _ h.newLength h.new⟩

/-- The fields of a line are made of the characters before its newline. -/
lemma mem_of_splitFields (n : ℕ) : ∀ {t : List Char} {fs : List (List Char)}, '\n' ∉ t →
    splitFields '|' n (t ++ ['\n']) = some fs → ∀ f ∈ fs, ∀ c ∈ f, c ∈ t := by
  induction n with
  | zero =>
      intro t fs _ h
      simp [splitFields] at h
  | succ n ih =>
      intro t fs hnl h f hf c hc
      cases n with
      | zero =>
          rw [splitFields_last hnl] at h
          rw [← Option.some.inj h, List.mem_singleton] at hf
          rwa [hf] at hc
      | succ n =>
          by_cases hp : '|' ∈ t
          · obtain ⟨u, v, hu, rfl⟩ : ∃ u v, '|' ∉ u ∧ t = u ++ '|' :: v := by
              obtain ⟨u, v, heq, hu⟩ := List.eq_append_cons_of_mem hp
              exact ⟨u, v, hu, heq⟩
            rw [List.append_assoc, List.cons_append, splitFields_cons hu,
              Option.map_eq_some_iff] at h
            obtain ⟨fs', hfs', rfl⟩ := h
            rcases List.mem_cons.mp hf with rfl | hf
            · exact List.mem_append_left _ hc
            · have hv : '\n' ∉ v := fun hmem => hnl (by simp [hmem])
              have := ih hv hfs' f hf c hc
              simp [this]
          · have hdrop : (t ++ ['\n']).dropWhile (· ≠ '|') = [] := by
              rw [List.dropWhile_eq_nil_iff]
              intro c hc
              simp only [decide_eq_true_eq]
              rintro rfl
              rcases List.mem_append.mp hc with hc | hc
              · exact hp hc
              · simp at hc
            rw [splitFields, hdrop] at h
            simp at h

/-- **An entry is read back from its line**, its command at least without newlines. -/
lemma parseEntry_free (hbad : Separators bad) {e : LogEntry} (hfit : e.Fits)
    (h : EntryFree bad e) : ∃ e', parseEntry (logLine e) = some e' ∧ e'.stamp = e.stamp ∧
      EntryFree bad e' ∧ ('|' ∈ bad → e' = e) := by
  by_cases hp : '|' ∈ bad
  · exact ⟨e, parseEntry_logLine hfit (h.lineOk hbad.newline hp).fieldsOk, rfl, h, fun _ => rfl⟩
  · -- only the newline is forbidden, and the line holds none before its end
    have hnew : ∀ c ∈ bad, c = '\n' := by
      intro c hc
      have := hbad.subset c hc
      simp only [separators, List.mem_cons, List.not_mem_nil, or_false] at this
      rcases this with rfl | rfl
      · rfl
      · exact absurd hc hp
    obtain ⟨hshort, -⟩ := entryText_short hfit (h.stampOk hbad.newline)
    obtain ⟨fs, hfs, hlen⟩ := splitFields_of_count '|' 5 (logLine e) (by
      simp only [logLine, List.count_append, List.count_cons_self]
      omega)
    obtain ⟨e', he', hstamp⟩ := parseEntry_stamp hfit (h.stampOk hbad.newline)
    refine ⟨e', he', hstamp, ?_, fun hp' => absurd hp' hp⟩
    have hfree : ∀ f ∈ fs, Free bad f := by
      intro f hf c hc hb
      rw [logLine_eq] at hfs
      rw [hnew c hb] at hc
      exact hshort (mem_of_splitFields 6 hshort hfs f hf _ hc)
    have hleader : e'.leaderId = e.leaderId := congrArg (fun s => s.2.2) hstamp
    obtain ⟨i, t, l, o, k, v, rfl⟩ : ∃ i t l o k v, fs = [i, t, l, o, k, v] := by
      obtain _ | ⟨i, _ | ⟨t, _ | ⟨l, _ | ⟨o, _ | ⟨k, _ | ⟨v, _ | ⟨w, fs⟩⟩⟩⟩⟩⟩⟩ := fs
      case cons.cons.cons.cons.cons.cons.nil => exact ⟨i, t, l, o, k, v, rfl⟩
      all_goals simp at hlen
    rw [parseEntry, hfs] at he'
    simp only [Option.some.injEq] at he'
    refine ⟨by rw [hleader]; exact h.leader, ?_⟩
    rw [← he']
    exact ⟨(hfree o (by simp)).strncpy _, (hfree k (by simp)).strncpy _,
      (hfree v (by simp)).strncpy _⟩

/-- The lines of a saved `log.txt` hold an entry each. -/
lemma entries_writeLog {d : Disk} (hbad : Separators bad) (hfit : x.Fits)
    (hfree : ∀ e ∈ x.log, EntryFree bad e) (h : d.logText = some (writeLog x)) :
    d.entries.map LogEntry.stamp = x.log.map LogEntry.stamp ∧
      (∀ e ∈ d.entries, EntryFree bad e) ∧ ('|' ∈ bad → d.entries = x.log) := by
  have hfit' : ∀ e ∈ x.log, e.Fits := hfit.2.2.2.2.2.2.2.2
  have hall : ∀ es : List LogEntry, (∀ e ∈ es, e ∈ x.log) →
      ((es.map logLine).filterMap parseEntry).map LogEntry.stamp = es.map LogEntry.stamp ∧
      (∀ e ∈ (es.map logLine).filterMap parseEntry, EntryFree bad e) ∧
      ('|' ∈ bad → (es.map logLine).filterMap parseEntry = es) := by
    intro es
    induction es with
    | nil => simp
    | cons e es ih =>
        intro hes
        have he := hes e List.mem_cons_self
        obtain ⟨e', hp, hstamp, hfr, hsame⟩ := parseEntry_free hbad (hfit' e he) (hfree e he)
        obtain ⟨h1, h2, h3⟩ := ih fun e he => hes e (List.mem_cons_of_mem _ he)
        rw [List.map_cons, List.filterMap_cons_some hp]
        refine ⟨by rw [List.map_cons, List.map_cons, h1, hstamp], ?_, ?_⟩
        · intro a ha
          rcases List.mem_cons.mp ha with rfl | ha
          · exact hfr
          · exact h2 a ha
        · intro hb
          rw [h3 hb, hsame hb]
  rw [Disk.entries, h, fileLines_writeLog hfit' fun e he => (hfree e he).stampOk hbad.newline]
  exact hall x.log fun _ => id

lemma Numbered.of_stamps {s : ℤ} {es es' : List LogEntry} (h : Numbered s 0 es)
    (hst : es'.map LogEntry.stamp = es.map LogEntry.stamp) : Numbered s 0 es' := by
  intro k e he
  have hk : (es.map LogEntry.stamp)[k]? = some e.stamp := by
    rw [← hst, List.getElem?_map, he]
    rfl
  rw [List.getElem?_map, Option.map_eq_some_iff] at hk
  obtain ⟨e₀, he₀, hstamp⟩ := hk
  rw [← show e₀.index = e.index from congrArg Prod.fst hstamp]
  exact h k e₀ he₀

/-! ### Hosts -/

/-- Node, files and configuration of a host are sound and belong together. -/
structure Host.Sound (bad : List Char) (h : Host σ) : Prop where
  config : h.config.Spelled bad
  node : h.node.Sound bad
  disk : h.disk.Sound bad
  storedBase : h.disk.Based (readMeta h.disk.metaText).snapshotLastIncludedIndex
  nodeBase : h.disk.Based h.node.snapshotLastIncludedIndex
  snapshot : SnapMatches h.node.snapshotLastIncludedIndex h.node.snapshotLastIncludedTerm
    h.disk.snapshot

/-- The texts an act brings are free. -/
def HostAct.Spelled (bad : List Char) : HostAct σ → Prop
  | .latch _ _ messages commands =>
      (∀ m ∈ messages, MessageFree bad m) ∧ ∀ c ∈ commands, CommandFree bad c
  | .request members => ∀ id ∈ members, Free bad id
  | _ => True

/-- A crash is harmless unless it leaves a new `snapshot.bin` beside a `meta.txt` that names an
older one, or the `meta.txt` of a reset beside the `log.txt` of a node that had compacted.  A
learner forgets its files when it is initialised again. -/
def CrashOk (A : Application σ) (h : Host σ) : HostAct σ → Prop
  | .crash _ _ => h.config.learner = false
  | .crashInDump writes _ _ _ => h.config.learner = false ∧
      (writes = 1 → (∃ f, Write.snapshot f ∈ (h.node.dumpOutputs A).writes) →
        (readMeta h.disk.metaText).snapshotLastIncludedIndex = 0)
  | .crashInReset writes _ _ => h.config.learner = false ∧
      (writes = 1 → (readMeta h.disk.metaText).snapshotLastIncludedIndex = 0)
  | _ => True

lemma turns_snap (h : Turns H C x y) :
    y.snapshotLastIncludedIndex = x.snapshotLastIncludedIndex ∧
      y.snapshotLastIncludedTerm = x.snapshotLastIncludedTerm ∧ y.snapshotBuf = x.snapshotBuf := by
  refine h.invariant (I := fun z => z.snapshotLastIncludedIndex = x.snapshotLastIncludedIndex ∧
    z.snapshotLastIncludedTerm = x.snapshotLastIncludedTerm ∧ z.snapshotBuf = x.snapshotBuf)
    (fun z z' hz hstep => ?_) ⟨rfl, rfl, rfl⟩
  cases hstep <;> exact hz

lemma transition_snap (x : Node σ) :
    (x.transition A).snapshotLastIncludedIndex = x.snapshotLastIncludedIndex ∧
      (x.transition A).snapshotLastIncludedTerm = x.snapshotLastIncludedTerm ∧
      (x.transition A).snapshotBuf = x.snapshotBuf := by
  rcases transition_turns (C := fun _ => False) (A := A) x with h | ⟨m, rest, hacc, hrest, htrans⟩
  · exact turns_snap h
  · obtain ⟨t, v, l, e, d₀, d, z, -, hz, -, heq, -⟩ :=
      transition_accept (C := fun _ => False) hacc hrest htrans
    rw [heq]
    obtain ⟨h1, h2, h3⟩ := turns_snap (H := fun _ => False) (C := fun _ => False)
      (turns_queueMessage (x := { z.absorbed A m with persistDirty := d })
        (m := Node.appendResponse { z.absorbed A m with persistDirty := d } m true) rfl
        fun _ => rfl)
    obtain ⟨g1, g2, g3⟩ := turns_snap hz
    exact ⟨h1.trans g1, h2.trans g2, h3.trans g3⟩

/-- What the end of a tick does to the snapshot. -/
lemma dumped_snap (x : Node σ) :
    (((x.commitAndApply A).1.maybeDriveMembership).maybeCompact A).2 = none ∧
        (x.dumped A).snapshotLastIncludedIndex = x.snapshotLastIncludedIndex ∧
        (x.dumped A).snapshotLastIncludedTerm = x.snapshotLastIncludedTerm ∨
      ∃ f, (((x.commitAndApply A).1.maybeDriveMembership).maybeCompact A).2 = some f ∧
        (x.dumped A).persistDirty = true ∧
        f.index = (x.dumped A).snapshotLastIncludedIndex ∧
        f.term = (x.dumped A).snapshotLastIncludedTerm ∧
        x.snapshotLastIncludedIndex < (x.dumped A).snapshotLastIncludedIndex := by
  have hsnap : ((x.commitAndApply A).1.maybeDriveMembership).snapshotLastIncludedIndex =
      x.snapshotLastIncludedIndex ∧
      ((x.commitAndApply A).1.maybeDriveMembership).snapshotLastIncludedTerm =
      x.snapshotLastIncludedTerm := by
    obtain ⟨happ, -⟩ := applying_applyCommitted (A := A) x.advanced.toApplyCount x.advanced
    have hadv : x.advanced.snapshotLastIncludedIndex = x.snapshotLastIncludedIndex ∧
        x.advanced.snapshotLastIncludedTerm = x.snapshotLastIncludedTerm := by
      rcases advanced_cases x with h | ⟨k, -, -, h⟩
      all_goals
        rw [h]
        exact ⟨rfl, rfl⟩
    have hdrive : ∀ z : Node σ, z.maybeDriveMembership.snapshotLastIncludedIndex =
        z.snapshotLastIncludedIndex ∧ z.maybeDriveMembership.snapshotLastIncludedTerm =
        z.snapshotLastIncludedTerm := by
      intro z
      have hcase := maybeDriveMembership_cases z
      generalize z.maybeDriveMembership = z' at hcase ⊢
      cases hcase <;> exact ⟨rfl, rfl⟩
    rw [commitAndApply_eq]
    exact ⟨(hdrive _).1.trans (happ.snapIndex.trans hadv.1),
      (hdrive _).2.trans (happ.snapTerm.trans hadv.2)⟩
  rw [Node.dumped]
  generalize (x.commitAndApply A).1.maybeDriveMembership = z at hsnap ⊢
  rcases maybeCompact_cases (A := A) z with heq | ⟨data, -, hlo, -, -, heq⟩
  · rw [heq]
    exact Or.inl ⟨rfl, hsnap⟩
  · rw [heq]
    refine Or.inr ⟨_, rfl, rfl, rfl, rfl, ?_⟩
    rw [← hsnap.1]
    exact hlo

/-- The files after some of the replacements of a tick. -/
lemma writeAll_cases (disk : Disk) (file : Option SnapshotFile) (y : Node σ) (k : ℕ)
    (hdirty : file.isSome = true → y.persistDirty = true) :
    disk.writeAll (((file.map Write.snapshot).toList ++ y.maybeSave).take k) = disk ∨
    (∃ f, file = some f ∧ k = 1 ∧
      disk.writeAll (((file.map Write.snapshot).toList ++ y.maybeSave).take k) =
        { disk with snapshot := some f }) ∨
    (y.persistDirty = true ∧
      disk.writeAll (((file.map Write.snapshot).toList ++ y.maybeSave).take k) =
        { disk with metaText := some (writeMeta y), snapshot := file.or disk.snapshot }) ∨
    (y.persistDirty = true ∧
      disk.writeAll (((file.map Write.snapshot).toList ++ y.maybeSave).take k) =
        { metaText := some (writeMeta y), logText := some (writeLog y)
          snapshot := file.or disk.snapshot }) := by
  rw [Node.maybeSave]
  cases hd : y.persistDirty with
  | false =>
      cases file with
      | none => exact Or.inl (by simp [Disk.writeAll])
      | some f =>
          rw [hd] at hdirty
          exact absurd (hdirty rfl) (by simp)
  | true =>
      rw [if_pos rfl]
      cases file with
      | none =>
          obtain _ | _ | k := k
          · exact Or.inl rfl
          · exact Or.inr (Or.inr (Or.inl ⟨rfl, rfl⟩))
          · exact Or.inr (Or.inr (Or.inr ⟨rfl, by simp [save, Disk.writeAll, Disk.write]⟩))
      | some f =>
          obtain _ | _ | _ | k := k
          · exact Or.inl rfl
          · exact Or.inr (Or.inl ⟨f, rfl, rfl, rfl⟩)
          · exact Or.inr (Or.inr (Or.inl ⟨rfl, rfl⟩))
          · exact Or.inr (Or.inr (Or.inr ⟨rfl, by simp [save, Disk.writeAll, Disk.write]⟩))

/-- The files after a whole tick. -/
lemma writeAll_all (disk : Disk) (file : Option SnapshotFile) (y : Node σ)
    (hdirty : file.isSome = true → y.persistDirty = true) :
    (y.persistDirty = false ∧ file = none ∧
      disk.writeAll ((file.map Write.snapshot).toList ++ y.maybeSave) = disk) ∨
    (y.persistDirty = true ∧ disk.writeAll ((file.map Write.snapshot).toList ++ y.maybeSave) =
        { metaText := some (writeMeta y), logText := some (writeLog y)
          snapshot := file.or disk.snapshot }) := by
  rw [Node.maybeSave]
  cases hd : y.persistDirty with
  | false =>
      cases file with
      | none => exact Or.inl ⟨rfl, rfl, by simp [Disk.writeAll]⟩
      | some f =>
          rw [hd] at hdirty
          exact absurd (hdirty rfl) (by simp)
  | true =>
      rw [if_pos rfl]
      cases file <;> exact Or.inr ⟨rfl, rfl⟩

/-- The files after some of the replacements of a reset. -/
lemma resetWrites_cases (disk : Disk) (x : Node σ) (k : ℕ) :
    disk.writeAll (x.resetForJoin.2.take k) = disk ∨
    (k = 1 ∧ disk.writeAll (x.resetForJoin.2.take k) =
      { disk with metaText := some (writeMeta x.resetForJoin.1) }) ∨
    disk.writeAll (x.resetForJoin.2.take k) =
      { metaText := some (writeMeta x.resetForJoin.1), logText := some (writeLog x.resetForJoin.1)
        snapshot := disk.snapshot } := by
  have hwrites : x.resetForJoin.2 =
      [.metaText (writeMeta x.resetForJoin.1), .logText (writeLog x.resetForJoin.1)] := rfl
  rw [hwrites]
  obtain _ | _ | k := k
  · exact Or.inl rfl
  · exact Or.inr (Or.inl ⟨rfl, rfl⟩)
  · exact Or.inr (Or.inr (by simp [Disk.writeAll, Disk.write]))

/-- The snapshot fields of a saved `meta.txt`. -/
lemma snap_writeMeta (hbad : Separators bad) (hx : x.Spelled bad) (hfit : x.Fits) :
    (readMeta (some (writeMeta x))).snapshotLastIncludedIndex = x.snapshotLastIncludedIndex ∧
      (readMeta (some (writeMeta x))).snapshotLastIncludedTerm = x.snapshotLastIncludedTerm := by
  obtain ⟨-, -, -, -, h1, h2, -⟩ := numbers_readMeta hfit (hx.linesOk hbad.newline hfit)
  exact ⟨h1, h2⟩

/-- A new `meta.txt` beside a sound `log.txt`. -/
lemma Disk.Sound.saveMeta (hbad : Separators bad) (hdisk : disk.Sound bad) (hx : x.Sound bad)
    (hfit : x.Fits) {file : Option SnapshotFile}
    (hfile : SnapMatches x.snapshotLastIncludedIndex x.snapshotLastIncludedTerm file) :
    Disk.Sound bad { disk with metaText := some (writeMeta x), snapshot := file } := by
  have hmeta := metaFree_writeMeta hbad hx.spelled hfit
  obtain ⟨hi, ht⟩ := snap_writeMeta hbad hx.spelled hfit
  refine ⟨hmeta.vote, hmeta.roster.1, hmeta.roster.2, ?_, hdisk.entries, hdisk.full, ?_⟩
  · rw [hi]
    exact hx.inside.snap_nonneg
  · rw [hi, ht]
    exact hfile

/-- Both files of a sound node. -/
lemma soundDisk_save (hbad : Separators bad) (hx : x.Sound bad) (hfit : x.Fits)
    {file : Option SnapshotFile}
    (hfile : SnapMatches x.snapshotLastIncludedIndex x.snapshotLastIncludedTerm file) :
    Disk.Sound bad
      { metaText := some (writeMeta x), logText := some (writeLog x), snapshot := file } ∧
    Disk.Based { metaText := some (writeMeta x), logText := some (writeLog x), snapshot := file }
      x.snapshotLastIncludedIndex := by
  have hmeta := metaFree_writeMeta hbad hx.spelled hfit
  obtain ⟨hi, ht⟩ := snap_writeMeta hbad hx.spelled hfit
  obtain ⟨hstamps, hfree, -⟩ := entries_writeLog (d :=
    { metaText := some (writeMeta x), logText := some (writeLog x), snapshot := file }) hbad hfit
    hx.spelled.log rfl
  refine ⟨⟨hmeta.vote, hmeta.roster.1, hmeta.roster.2, ?_, hfree, ?_, ?_⟩,
    _, le_rfl, Numbered.of_stamps hx.numbered hstamps⟩
  · rw [hi]
    exact hx.inside.snap_nonneg
  · have hlen := congrArg List.length hstamps
    rw [List.length_map, List.length_map] at hlen
    rw [hlen]
    exact hx.full
  · rw [hi, ht]
    exact hfile

/-- The snapshot a tick leaves belongs to the node. -/
lemma snapMatches_dumped {file : Option SnapshotFile}
    (h : SnapMatches x.snapshotLastIncludedIndex x.snapshotLastIncludedTerm file) :
    SnapMatches (x.dumped A).snapshotLastIncludedIndex (x.dumped A).snapshotLastIncludedTerm
      ((((x.commitAndApply A).1.maybeDriveMembership).maybeCompact A).2.or file) := by
  rcases dumped_snap (A := A) x with ⟨hnone, hi, ht⟩ | ⟨f, hsome, -, hi, ht, -⟩
  · rw [hnone, hi, ht]
    exact h
  · rw [hsome]
    exact Or.inr ⟨f, rfl, hi, ht⟩

lemma snap_le_dumped (x : Node σ) :
    x.snapshotLastIncludedIndex ≤ (x.dumped A).snapshotLastIncludedIndex := by
  rcases dumped_snap (A := A) x with ⟨-, hi, -⟩ | ⟨f, -, -, -, -, hlt⟩
  · exact hi.ge
  · exact hlt.le

lemma dirty_of_compacts (x : Node σ) :
    (((x.commitAndApply A).1.maybeDriveMembership).maybeCompact A).2.isSome = true →
      (x.dumped A).persistDirty = true := by
  intro h
  rcases dumped_snap (A := A) x with ⟨hnone, -, -⟩ | ⟨f, -, hd, -⟩
  · rw [hnone] at h
    simp at h
  · exact hd

lemma roster_fallbackConfig (hbad : Separators bad) (h : y.config.Spelled bad) :
    Roster bad y.fallbackConfig.oldMembers ∧ Roster bad y.fallbackConfig.newMembers := by
  rw [Node.fallbackConfig]
  split
  · exact ⟨roster_normalizeMembers h.initial, roster_nil bad⟩
  · refine ⟨roster_normalizeMembers fun id hid => ?_, roster_nil bad⟩
    obtain ⟨id', hid', rfl⟩ := List.mem_map.mp hid
    rcases List.mem_cons.mp (List.mem_of_mem_take hid') with rfl | hid'
    · exact (h.nodeId.of_separators hbad).strncpy _
    · exact (h.peers id' hid').strncpy _

lemma Node.Sound.startConfig (hbad : Separators bad) (h : y.Sound bad) :
    Node.Sound bad { y with configState := y.startConfig } := by
  rw [Node.startConfig]
  split
  · obtain ⟨ho, hn⟩ := roster_fallbackConfig hbad h.spelled.config
    exact h.frame ⟨h.spelled.config, h.spelled.vote, ho, hn, h.spelled.requested, h.spelled.log,
      h.spelled.appends, h.spelled.requests⟩ rfl rfl rfl rfl
  · exact h

lemma Node.Sound.refreshPeers (h : y.Sound bad) : y.refreshPeers.Sound bad :=
  h.frame (spelled_refreshPeers h.spelled) rfl rfl rfl rfl

/-- **An initialised node** is sound, and its snapshot is the stored one. -/
lemma sound_init {config : NodeConfig} (hbad : Separators bad) (hl : config.learner = false)
    (hconf : config.Spelled bad) (hdisk : disk.Sound bad)
    (hbase : disk.Based (readMeta disk.metaText).snapshotLastIncludedIndex) (user : σ) (clock : ℤ) :
    (Node.init A config disk user clock).Sound bad ∧
      (Node.init A config disk user clock).snapshotLastIncludedIndex =
        (readMeta disk.metaText).snapshotLastIncludedIndex ∧
      (Node.init A config disk user clock).snapshotLastIncludedTerm =
        (readMeta disk.metaText).snapshotLastIncludedTerm := by
  have hload : ((Node.zero config user clock).load A disk).Sound bad :=
    sound_load hdisk hbase hconf (by simp [Node.zero]) (by simp [Node.zero]) (by simp [Node.zero])
  have hloaded : (Node.loaded A config disk user clock).Sound bad := by
    rw [Node.loaded]
    split
    · exact hload.frame (hload.spelled.frame rfl rfl rfl rfl rfl rfl rfl) rfl rfl rfl rfl
    · exact hload
  obtain ⟨s, d, e, heq⟩ := init_eq (A := A) hl disk user clock
  obtain ⟨u, la, buf, c, t, hl2⟩ := loaded_eq (A := A) config disk user clock
  have hstart := (hloaded.startConfig hbad)
  have hs : Node.Sound bad { Node.loaded A config disk user clock with
      configState := (Node.loaded A config disk user clock).startConfig, membershipState := s } :=
    hstart.frame (hstart.spelled.frame rfl rfl rfl rfl rfl rfl rfl) rfl rfl rfl rfl
  have href := hs.refreshPeers
  rw [heq]
  refine ⟨href.frame (href.spelled.frame rfl rfl rfl rfl rfl rfl rfl) rfl rfl rfl rfl, ?_, ?_⟩
  · change (Node.loaded A config disk user clock).snapshotLastIncludedIndex = _
    rw [hl2]
  · change (Node.loaded A config disk user clock).snapshotLastIncludedTerm = _
    rw [hl2]

/-- A node that is started again. -/
lemma sound_start (hbad : Separators bad) (hx : x.Sound bad) (hdisk : disk.Sound bad)
    (hbase : disk.Based (readMeta disk.metaText).snapshotLastIncludedIndex) :
    (x.start A disk).Sound bad ∧ (x.start A disk).snapshotLastIncludedIndex =
        (readMeta disk.metaText).snapshotLastIncludedIndex ∧
      (x.start A disk).snapshotLastIncludedTerm =
        (readMeta disk.metaText).snapshotLastIncludedTerm := by
  have hload : (x.load A disk).Sound bad :=
    sound_load hdisk hbase hx.spelled.config hx.spelled.requested hx.spelled.appends
      hx.spelled.requests
  obtain ⟨user, hl⟩ := load_record (A := A) x disk
  have hsnap : (x.load A disk).snapshotLastIncludedIndex =
      (readMeta disk.metaText).snapshotLastIncludedIndex ∧
      (x.load A disk).snapshotLastIncludedTerm =
      (readMeta disk.metaText).snapshotLastIncludedTerm := by
    rw [hl]
    exact ⟨rfl, rfl⟩
  have hconf := hload.startConfig hbad
  rw [Node.start]
  generalize x.load A disk = z at hload hsnap hconf ⊢
  rw [Node.startConfig] at hconf
  dsimp only
  split
  · rename_i hneeds
    rw [if_pos hneeds] at hconf
    have href := hconf.refreshPeers
    exact ⟨href.frame (href.spelled.frame rfl rfl rfl rfl rfl rfl rfl) rfl rfl rfl rfl, hsnap⟩
  · exact ⟨hload.frame (hload.spelled.frame rfl rfl rfl rfl rfl rfl rfl) rfl rfl rfl rfl, hsnap⟩

/-- The files some replacements of a tick leave, when the snapshot stays usable. -/
lemma Host.Sound.writes {h : Host σ} (hbad : Separators bad) (hh : h.Sound bad)
    (hrun : h.node.running = true) (hfit : (h.node.dumped A).Fits) (k : ℕ)
    (hk : k = 1 → (∃ f, Write.snapshot f ∈ (h.node.dumpOutputs A).writes) →
      (readMeta h.disk.metaText).snapshotLastIncludedIndex = 0) :
    (h.disk.writeAll ((h.node.dumpOutputs A).writes.take k)).Sound bad ∧
      (h.disk.writeAll ((h.node.dumpOutputs A).writes.take k)).Based
        (readMeta (h.disk.writeAll ((h.node.dumpOutputs A).writes.take k)).metaText
          ).snapshotLastIncludedIndex := by
  have hdump : (h.node.dumped A).Sound bad := hh.node.dumped hbad
  have hsnap := snapMatches_dumped (A := A) hh.snapshot
  have hle := snap_le_dumped (A := A) h.node
  have hdirty := dirty_of_compacts (A := A) h.node
  rw [dumpOutputs_eq hrun] at hk ⊢
  dsimp only at hk ⊢
  generalize (((h.node.commitAndApply A).1.maybeDriveMembership).maybeCompact A).2 = file
    at hsnap hdirty hk ⊢
  obtain ⟨hi, -⟩ := snap_writeMeta hbad hdump.spelled hfit
  rcases writeAll_cases h.disk file (h.node.dumped A) k hdirty with
    heq | ⟨f, rfl, rfl, heq⟩ | ⟨-, heq⟩ | ⟨-, heq⟩
  all_goals rw [heq]
  · exact ⟨hh.disk, hh.storedBase⟩
  · -- a snapshot that no meta.txt names yet
    have h0 := hk rfl ⟨f, by simp⟩
    refine ⟨⟨hh.disk.vote, hh.disk.old, hh.disk.new, hh.disk.snap_nonneg, hh.disk.entries,
      hh.disk.full, Or.inl h0⟩, hh.storedBase⟩
  · refine ⟨hh.disk.saveMeta hbad hdump hfit hsnap, ?_⟩
    change h.disk.Based (readMeta (some (writeMeta (h.node.dumped A)))).snapshotLastIncludedIndex
    rw [hi]
    exact hh.nodeBase.mono hle
  · obtain ⟨hs, hb⟩ := soundDisk_save hbad hdump hfit hsnap
    refine ⟨hs, ?_⟩
    change Disk.Based _ (readMeta (some (writeMeta (h.node.dumped A)))).snapshotLastIncludedIndex
    rw [hi]
    exact hb

/-- The files a crash inside the end of a tick leaves. -/
lemma Host.Sound.crashedDisk {h : Host σ} (hbad : Separators bad) (hh : h.Sound bad)
    (hfit : (h.node.dumpOutputs A).node.Fits) (k : ℕ)
    (hk : k = 1 → (∃ f, Write.snapshot f ∈ (h.node.dumpOutputs A).writes) →
      (readMeta h.disk.metaText).snapshotLastIncludedIndex = 0) :
    (h.disk.writeAll ((h.node.dumpOutputs A).writes.take k)).Sound bad ∧
      (h.disk.writeAll ((h.node.dumpOutputs A).writes.take k)).Based
        (readMeta (h.disk.writeAll ((h.node.dumpOutputs A).writes.take k)).metaText
          ).snapshotLastIncludedIndex := by
  cases hrun : h.node.running with
  | false =>
      have hw : (h.node.dumpOutputs A).writes = [] := by rw [dumpOutputs_stopped hrun]
      rw [hw, List.take_nil]
      exact ⟨hh.disk, hh.storedBase⟩
  | true =>
      refine hh.writes hbad hrun ?_ k hk
      rw [dumpOutputs_eq hrun] at hfit
      exact hfit

lemma Host.Sound.dump {h : Host σ} (hbad : Separators bad) (hh : h.Sound bad)
    (hrun : h.node.running = true) (hfit : (h.node.dumped A).Fits) (p : Phase) :
    Host.Sound bad
      { h with
        node := { h.node.dumped A with persistDirty := false, outbox := [] }
        disk := h.disk.writeAll (h.node.dumpOutputs A).writes, phase := p } := by
  have hdump : (h.node.dumped A).Sound bad := hh.node.dumped hbad
  have hnode : Node.Sound bad { h.node.dumped A with persistDirty := false, outbox := [] } :=
    hdump.frame (hdump.spelled.frame rfl rfl rfl rfl rfl rfl rfl) rfl rfl rfl rfl
  have hsnap := snapMatches_dumped (A := A) hh.snapshot
  have hle := snap_le_dumped (A := A) h.node
  have hdirty := dirty_of_compacts (A := A) h.node
  rw [dumpOutputs_eq hrun]
  dsimp only
  generalize (((h.node.commitAndApply A).1.maybeDriveMembership).maybeCompact A).2 = file
    at hsnap hdirty ⊢
  rcases writeAll_all h.disk file (h.node.dumped A) hdirty with ⟨-, hnone, heq⟩ | ⟨-, heq⟩
  · rw [heq]
    rw [hnone] at hsnap
    exact ⟨hh.config, hnode, hh.disk, hh.storedBase, hh.nodeBase.mono hle, hsnap⟩
  · obtain ⟨hi, -⟩ := snap_writeMeta hbad hdump.spelled hfit
    obtain ⟨hs, hb⟩ := soundDisk_save hbad hdump hfit hsnap
    rw [heq]
    refine ⟨hh.config, hnode, hs, ?_, hb, hsnap⟩
    change Disk.Based _ (readMeta (some (writeMeta (h.node.dumped A)))).snapshotLastIncludedIndex
    rw [hi]
    exact hb

/-- A node that is reset. -/
lemma Node.Sound.resetForJoin (hx : x.Sound bad) : x.resetForJoin.1.Sound bad := by
  have hforget : Node.Sound bad
      { x.forget with
        leaderId := [], votesReceived := [], pendingAppendEntries := [], pendingVoteRequests := []
        pendingVotes := [], outbox := [], config := { x.config with learner := true }
        membershipState := .stable } := by
    refine ⟨⟨⟨hx.spelled.config.nodeId, hx.spelled.config.initial, hx.spelled.config.peers⟩,
      free_nil bad, roster_nil bad, roster_nil bad, hx.spelled.requested, by simp [Node.forget],
      by simp, by simp⟩, ⟨le_rfl, le_rfl, le_rfl⟩, ?_, by simp [Node.forget]⟩
    intro k e he
    simp [Node.forget] at he
  have href := hforget.refreshPeers
  exact href.frame (href.spelled.frame rfl rfl rfl rfl rfl rfl rfl) rfl rfl rfl rfl

lemma Node.Sound.clocked (hx : x.Sound bad) (clock : ℤ) (user : σ) :
    Node.Sound bad { x with clockMs := clock, user := user } :=
  hx.frame (hx.spelled.frame rfl rfl rfl rfl rfl rfl rfl) rfl rfl rfl rfl

lemma Host.Sound.resetForJoin {h : Host σ} (hbad : Separators bad) (hh : h.Sound bad) (clock : ℤ)
    (user : σ)
    (hfit : (Node.resetForJoin { h.node with clockMs := clock, user := user }).1.Fits) :
    Host.Sound bad
      { h with
        node := (Node.resetForJoin { h.node with clockMs := clock, user := user }).1
        disk := h.disk.writeAll
          (Node.resetForJoin { h.node with clockMs := clock, user := user }).2 } := by
  have hnode := (hh.node.clocked clock user).resetForJoin
  have hzero : SnapMatches
      (Node.resetForJoin { h.node with clockMs := clock, user := user }).1.snapshotLastIncludedIndex
      (Node.resetForJoin { h.node with clockMs := clock, user := user }).1.snapshotLastIncludedTerm
      h.disk.snapshot := Or.inl rfl
  obtain ⟨hi, -⟩ := snap_writeMeta hbad hnode.spelled hfit
  obtain ⟨hs, hb⟩ := soundDisk_save hbad hnode hfit hzero
  refine ⟨hh.config, hnode, hs, ?_, hb, hzero⟩
  change Disk.Based _ (readMeta (some (writeMeta (Node.resetForJoin
    { h.node with clockMs := clock, user := user }).1))).snapshotLastIncludedIndex
  rw [hi]
  exact hb

/-- The files a crash inside `raft_node_reset_for_join` leaves: beside the new `meta.txt` the old
`log.txt` must begin with the first entry. -/
lemma Host.Sound.resetDisk {h : Host σ} (hbad : Separators bad) (hh : h.Sound bad)
    (hfit : h.node.resetForJoin.1.Fits) (k : ℕ)
    (hk : k = 1 → (readMeta h.disk.metaText).snapshotLastIncludedIndex = 0) :
    (h.disk.writeAll (h.node.resetForJoin.2.take k)).Sound bad ∧
      (h.disk.writeAll (h.node.resetForJoin.2.take k)).Based
        (readMeta (h.disk.writeAll (h.node.resetForJoin.2.take k)).metaText
          ).snapshotLastIncludedIndex := by
  have hnode := hh.node.resetForJoin
  have hzero : SnapMatches h.node.resetForJoin.1.snapshotLastIncludedIndex
      h.node.resetForJoin.1.snapshotLastIncludedTerm h.disk.snapshot := Or.inl rfl
  obtain ⟨hi, -⟩ := snap_writeMeta hbad hnode.spelled hfit
  rcases resetWrites_cases h.disk h.node k with heq | ⟨h1, heq⟩ | heq
  all_goals rw [heq]
  · exact ⟨hh.disk, hh.storedBase⟩
  · refine ⟨hh.disk.saveMeta hbad hnode hfit hzero, ?_⟩
    change h.disk.Based
      (readMeta (some (writeMeta h.node.resetForJoin.1))).snapshotLastIncludedIndex
    rw [hi]
    have hbase := hh.storedBase
    rw [hk h1] at hbase
    exact hbase
  · obtain ⟨hs, hb⟩ := soundDisk_save hbad hnode hfit hzero
    refine ⟨hs, ?_⟩
    change Disk.Based _
      (readMeta (some (writeMeta h.node.resetForJoin.1))).snapshotLastIncludedIndex
    rw [hi]
    exact hb

/-- A host right after its process was started again. -/
lemma Host.Sound.restart {h : Host σ} (hbad : Separators bad) (hconf : h.config.Spelled bad)
    (hl : h.config.learner = false) (hdisk : disk.Sound bad)
    (hbase : disk.Based (readMeta disk.metaText).snapshotLastIncludedIndex) (user : σ) (clock : ℤ)
    (p : Phase) :
    Host.Sound bad
      { h with node := Node.init A h.config disk user clock, disk := disk, phase := p } := by
  obtain ⟨hn, hi, ht⟩ := sound_init (A := A) hbad hl hconf hdisk hbase user clock
  refine ⟨hconf, hn, hdisk, hbase, ?_, ?_⟩
  · change disk.Based (Node.init A h.config disk user clock).snapshotLastIncludedIndex
    rw [hi]
    exact hbase
  · change SnapMatches (Node.init A h.config disk user clock).snapshotLastIncludedIndex
      (Node.init A h.config disk user clock).snapshotLastIncludedTerm disk.snapshot
    rw [hi, ht]
    exact hdisk.snapshot

/-- A change of the node that leaves the snapshot alone. -/
lemma Host.Sound.node' {h : Host σ} (hh : h.Sound bad) (hy : y.Sound bad)
    (hi : y.snapshotLastIncludedIndex = h.node.snapshotLastIncludedIndex)
    (ht : y.snapshotLastIncludedTerm = h.node.snapshotLastIncludedTerm) (p : Phase) :
    Host.Sound bad { h with node := y, phase := p } := by
  refine ⟨hh.config, hy, hh.disk, hh.storedBase, ?_, ?_⟩
  · change h.disk.Based y.snapshotLastIncludedIndex
    rw [hi]
    exact hh.nodeBase
  · change SnapMatches y.snapshotLastIncludedIndex y.snapshotLastIncludedTerm h.disk.snapshot
    rw [hi, ht]
    exact hh.snapshot

/-- **Every act that is given free texts keeps a host sound**, the one crash apart. -/
theorem sound_exec {h h' : Host σ} {a : HostAct σ} {e : Effect} (hbad : Separators bad)
    (hh : h.Sound bad) (hs : a.Spelled bad) (hc : CrashOk A h a)
    (he : h.exec A a = some (h', e)) : h'.Sound bad := by
  obtain ⟨hcase, hfit⟩ := exec_cases he
  cases hcase with
  | latch clock slots ms cs _ =>
      have hturns := turns_latchInputs (x := h.node) (H := (· ∈ ms)) (C := (· ∈ cs))
        (fun _ => id) (fun _ => id) clock slots
      obtain ⟨hi, ht, -⟩ := turns_snap hturns
      exact hh.node' (hh.node.turns hbad hs.1 hs.2 hturns) hi ht _
  | transition clock _ =>
      have hclock : Node.Sound bad { h.node with clockMs := clock } :=
        hh.node.frame (hh.node.spelled.frame rfl rfl rfl rfl rfl rfl rfl) rfl rfl rfl rfl
      obtain ⟨hi, ht, -⟩ := transition_snap (A := A) { h.node with clockMs := clock }
      exact hh.node' (hclock.transition hbad) hi ht _
  | dumpStopped _ _ =>
      have hnode : Node.Sound bad { h.node with outbox := [] } :=
        hh.node.frame (hh.node.spelled.frame rfl rfl rfl rfl rfl rfl rfl) rfl rfl rfl rfl
      exact hh.node' hnode rfl rfl _
  | dump _ hrun => exact hh.dump hbad hrun hfit _
  | stop _ =>
      have hsp := hh.node.spelled
      have hstop : h.node.stop.Spelled bad :=
        ⟨hsp.config, hsp.vote, hsp.old, hsp.new, hsp.requested, hsp.log, by simp [Node.stop],
          by simp [Node.stop]⟩
      exact hh.node' (hh.node.frame hstop rfl rfl rfl rfl) rfl rfl _
  | start clock _ =>
      have hclock : Node.Sound bad { h.node with clockMs := clock } :=
        hh.node.frame (hh.node.spelled.frame rfl rfl rfl rfl rfl rfl rfl) rfl rfl rfl rfl
      obtain ⟨hn, hi, ht⟩ := sound_start (A := A) hbad hclock hh.disk hh.storedBase
      refine ⟨hh.config, hn, hh.disk, hh.storedBase, ?_, ?_⟩
      · change h.disk.Based (Node.start A _ h.disk).snapshotLastIncludedIndex
        rw [hi]
        exact hh.storedBase
      · change SnapMatches (Node.start A _ h.disk).snapshotLastIncludedIndex
          (Node.start A _ h.disk).snapshotLastIncludedTerm h.disk.snapshot
        rw [hi, ht]
        exact hh.disk.snapshot
  | request members _ =>
      have hreq : ∀ id ∈ normalizeMembers members maxNodes, Free bad id :=
        (roster_normalizeMembers hs).free
      have hsp := hh.node.spelled
      refine hh.node' (y := (h.node.requestMembershipChange members).1) ?_ ?_ ?_ _
      all_goals
        rw [Node.requestMembershipChange]
        split
      · exact hh.node
      · dsimp only
        split
        all_goals exact hh.node.frame ⟨hsp.config, hsp.vote, hsp.old, hsp.new, hreq, hsp.log,
          hsp.appends, hsp.requests⟩ rfl rfl rfl rfl
      · rfl
      · dsimp only
        split <;> rfl
      · rfl
      · dsimp only
        split <;> rfl
  | resetForJoin clock user _ => exact hh.resetForJoin hbad clock user hfit
  | crash user clock =>
      exact Host.Sound.restart hbad hh.config hc hh.disk hh.storedBase user clock _
  | crashInDump k j user clock _ hfits =>
      obtain ⟨hd, hb⟩ := hh.crashedDisk hbad hfits k hc.2
      exact Host.Sound.restart hbad hh.config hc.1 hd hb user clock _
  | crashInReset k user clock _ hfits =>
      obtain ⟨hd, hb⟩ := hh.resetDisk hbad hfits k hc.2
      exact Host.Sound.restart hbad hh.config hc.1 hd hb user clock _

/-! ### The first start -/

/-- The end of `raft_node_init`. -/
def Node.ready (config : NodeConfig) (clock : ℤ) (n : Node σ) : Node σ :=
  let node := { n with membershipState := if n.configState.isJoint then .joint else .stable }
  let node := node.refreshPeers
  { node with
    electionDeadlineMs := clock + node.nextElectionTimeout +
      (if 0 < node.currentTerm then 2 * config.electionTimeoutMs else 0)
    heartbeatDeadlineMs := clock + config.heartbeatIntervalMs }

/-- The node `raft_node_init` chooses the configuration for. -/
def Node.fresh (A : Application σ) (config : NodeConfig) (disk : Disk) (user : σ) (clock : ℤ) :
    Node σ :=
  if config.learner then
    { (Node.loaded A config disk user clock).forget with persistDirty := true }
  else Node.loaded A config disk user clock

lemma init_ready (config : NodeConfig) (disk : Disk) (user : σ) (clock : ℤ) :
    Node.init A config disk user clock = Node.ready config clock
      { Node.fresh A config disk user clock with
        configState := (Node.fresh A config disk user clock).startConfig } := by
  rw [← fallback_eq]
  rfl

/-- A node that is initialised on an empty data directory, in one record. -/
lemma init_empty (config : NodeConfig) (user : σ) (clock : ℤ) :
    ∃ (u : σ) (c : ClusterConfiguration) (s : MembershipState) (d : Bool) (e₁ e₂ : ℤ),
      Node.init A config Disk.empty user clock =
        { Node.refreshPeers
            { Node.zero config u clock with
              configState := c, membershipState := s, persistDirty := d } with
          electionDeadlineMs := e₁, heartbeatDeadlineMs := e₂ } ∧
      c = (if config.learner then ⟨[], [], 0⟩ else (Node.zero config u clock).fallbackConfig) := by
  obtain ⟨u, hloaded⟩ := loaded_empty (A := A) config user clock
  have hfresh : Node.fresh A config Disk.empty user clock =
      { Node.zero config u clock with persistDirty := config.learner } := by
    rw [Node.fresh, hloaded]
    cases config.learner <;> rfl
  have hstart : Node.startConfig { Node.zero config u clock with persistDirty := config.learner } =
      (if config.learner then ⟨[], [], 0⟩ else (Node.zero config u clock).fallbackConfig) := by
    rw [Node.startConfig, Node.needsFallback]
    change (if (true && !config.learner && true) = true then _ else _) = _
    cases config.learner <;> rfl
  rw [init_ready, hfresh, hstart]
  exact ⟨u, _, _, _, _, _, rfl, rfl⟩

/-- **A host that starts on an empty data directory** is sound. -/
lemma sound_boot {config : NodeConfig} (hbad : Separators bad) (hconf : config.Spelled bad)
    (user : σ) (clock : ℤ) : (Host.boot A config user clock).Sound bad := by
  obtain ⟨u, c, s, d, e₁, e₂, heq, hc⟩ := init_empty (A := A) config user clock
  have hroster : Roster bad c.oldMembers ∧ Roster bad c.newMembers := by
    rw [hc]
    split
    · exact ⟨roster_nil bad, roster_nil bad⟩
    · exact roster_fallbackConfig hbad hconf
  have hzero : Node.Sound bad { Node.zero config u clock with
      configState := c, membershipState := s, persistDirty := d } := by
    refine ⟨⟨hconf, free_nil bad, hroster.1, hroster.2, by simp [Node.zero], by simp [Node.zero],
      by simp [Node.zero], by simp [Node.zero]⟩, ⟨le_rfl, le_rfl, le_rfl⟩, ?_, by simp [Node.zero]⟩
    intro k e he
    simp [Node.zero] at he
  have href := hzero.refreshPeers
  have hnode : (Node.init A config Disk.empty user clock).Sound bad := by
    rw [heq]
    exact href.frame (href.spelled.frame rfl rfl rfl rfl rfl rfl rfl) rfl rfl rfl rfl
  have hsnap : (Node.init A config Disk.empty user clock).snapshotLastIncludedIndex = 0 := by
    rw [heq]
    rfl
  have hbase : Disk.empty.Based 0 :=
    ⟨0, le_rfl, fun k e he => by simp [Disk.entries, Disk.empty, fileLines] at he⟩
  refine ⟨hconf, hnode, soundDisk_empty bad, hbase, ?_, Or.inl hsnap⟩
  change Disk.empty.Based (Node.init A config Disk.empty user clock).snapshotLastIncludedIndex
  rw [hsnap]
  exact hbase

end RaftRx.C
