import RaftRx.C.WriteAhead

/-!
Member lists on their way through the log.

A membership change travels as a text: `encode_member_list` writes the requested members into the
value of an entry and `decode_member_list` reads them where the entry is applied.

* `gathered`: the first occurrences of the members, as many as fit;
* `MemberId`: an id that stays in one piece;
* `encodeMemberList_eq`, `decode_encode`: what is written, and what is read back;
* `BufferSizes`, `decode_entry_encode`: the way through an entry, for every size of the buffers;
* `normalize_decode_encode`: a configuration made from the text is the one that was asked for.
-/

namespace RaftRx.C

/-! ### First occurrences -/

/-- The loop shared by `normalize_members` and `decode_member_list`. -/
def gathered (members : List CString) : List CString :=
  members.foldl (fun out m =>
    if out.length < maxNodes ∧ m ≠ [] ∧ m ∉ out then out ++ [strncpy maxId m] else out) []

lemma normalizeMembers_eq (members : List CString) : normalizeMembers members maxNodes =
    ((gathered members).foldl (fun rev m => sinkMember m rev) []).reverse := rfl

lemma perm_gathered (members : List CString) :
    (normalizeMembers members maxNodes).Perm (gathered members) :=
  normalizeMembers_perm members maxNodes

/-- The id is neither empty nor too long for its buffer. -/
def ShortId (id : CString) : Prop := id ≠ [] ∧ id.length < maxId

/-- Ids that fit are gathered as they are. -/
lemma foldl_gather (ms : List CString) : ∀ out : List CString, (∀ id ∈ ms, ShortId id) →
    out.Nodup → (ms.foldl (fun out m =>
      if out.length < maxNodes ∧ m ≠ [] ∧ m ∉ out then out ++ [strncpy maxId m] else out)
        out).Nodup ∧
      ((out ++ ms).Nodup → (out ++ ms).length ≤ maxNodes → ms.foldl (fun out m =>
        if out.length < maxNodes ∧ m ≠ [] ∧ m ∉ out then out ++ [strncpy maxId m] else out) out =
        out ++ ms) := by
  induction ms with
  | nil => exact fun out _ hout => ⟨hout, fun _ _ => (List.append_nil out).symm⟩
  | cons m ms ih =>
      intro out hms hout
      obtain ⟨hne, hlen⟩ := hms m List.mem_cons_self
      have hrest : ∀ id ∈ ms, ShortId id := fun id hid => hms id (List.mem_cons_of_mem _ hid)
      rw [List.foldl_cons]
      by_cases hm : out.length < maxNodes ∧ m ≠ [] ∧ m ∉ out
      · rw [if_pos hm, strncpy_self hlen]
        have hnd : (out ++ [m]).Nodup := List.nodup_append.mpr
          ⟨hout, List.nodup_singleton m, fun a ha b hb hab => hm.2.2
            (by rw [← List.mem_singleton.mp hb, ← hab]; exact ha)⟩
        obtain ⟨h1, h2⟩ := ih (out ++ [m]) hrest hnd
        refine ⟨h1, fun hall hfit => ?_⟩
        rw [h2 (by simpa using hall) (by simpa using hfit)]
        simp
      · rw [if_neg hm]
        obtain ⟨h1, -⟩ := ih out hrest hout
        refine ⟨h1, fun hall hfit => absurd ⟨?_, hne, ?_⟩ hm⟩
        · rw [List.length_append, List.length_cons] at hfit
          omega
        · intro hmem
          exact (List.nodup_append.mp hall).2.2 m hmem m List.mem_cons_self rfl

lemma nodup_gathered {ms : List CString} (h : ∀ id ∈ ms, ShortId id) : (gathered ms).Nodup :=
  (foldl_gather ms [] h List.nodup_nil).1

lemma gathered_of_nodup {ms : List CString} (h : ∀ id ∈ ms, ShortId id) (hnd : ms.Nodup)
    (hlen : ms.length ≤ maxNodes) : gathered ms = ms :=
  (foldl_gather ms [] h List.nodup_nil).2 hnd hlen

lemma length_gathered (ms : List CString) : (gathered ms).length ≤ maxNodes := by
  rw [← (perm_gathered ms).length_eq]
  exact length_normalizeMembers ms maxNodes

lemma mem_gathered {ms : List CString} (h : ∀ id ∈ ms, ShortId id) {id : CString}
    (hid : id ∈ gathered ms) : id ∈ ms := by
  rcases mem_foldl_guarded ms hid with hid | ⟨m, hm, rfl, -⟩
  · exact absurd hid List.not_mem_nil
  · rw [strncpy_self (h m hm).2]
    exact hm

/-- Gathering twice is gathering once. -/
lemma gathered_gathered {ms : List CString} (h : ∀ id ∈ ms, ShortId id) :
    gathered (gathered ms) = gathered ms :=
  gathered_of_nodup (fun id hid => h id (mem_gathered h hid)) (nodup_gathered h)
    (length_gathered ms)

lemma normalizeMembers_gathered {ms : List CString} (h : ∀ id ∈ ms, ShortId id) :
    normalizeMembers (gathered ms) maxNodes = normalizeMembers ms maxNodes := by
  rw [normalizeMembers_eq, normalizeMembers_eq, gathered_gathered h]

lemma gathered_ne_nil {ms : List CString} (h : ∀ id ∈ ms, ShortId id) (hne : ms ≠ []) :
    gathered ms ≠ [] := by
  cases ms with
  | nil => exact absurd rfl hne
  | cons m ms =>
      obtain ⟨hm, -⟩ := h m List.mem_cons_self
      have hgrow : ∀ (l out : List CString), out ≠ [] → l.foldl (fun out m =>
          if out.length < maxNodes ∧ m ≠ [] ∧ m ∉ out then out ++ [strncpy maxId m] else out)
          out ≠ [] := by
        intro l
        induction l with
        | nil => exact fun out hout => hout
        | cons a l ih =>
            intro out hout
            rw [List.foldl_cons]
            refine ih _ ?_
            split
            · simp
            · exact hout
      rw [gathered, List.foldl_cons, if_pos ⟨by decide, hm, List.not_mem_nil⟩]
      exact hgrow ms _ (by simp)

/-! ### The text -/

/-- An id that stays in one piece in `meta.txt`, in `log.txt` and in a member list. -/
structure MemberId (id : CString) : Prop extends PlainId id where
  noComma : ',' ∉ id

lemma MemberId.short {id : CString} (h : MemberId id) : ShortId id :=
  ⟨h.ne_nil, h.length_lt⟩

/-- A comma and an id take up no more than the buffer of the id. -/
lemma length_flatMap_comma {size : ℕ} (ms : List CString) (h : ∀ id ∈ ms, id.length < size) :
    (ms.flatMap (',' :: ·)).length ≤ ms.length * size := by
  induction ms with
  | nil => simp
  | cons m ms ih =>
      have hm : m.length < size := h m List.mem_cons_self
      have hms := ih fun id hid => h id (List.mem_cons_of_mem _ hid)
      rw [List.flatMap_cons, List.length_append, List.length_cons, List.length_cons, Nat.add_mul]
      omega

/-- The loop of `encode_member_list` when everything fits. -/
lemma encodeMembers_eq {outSize : ℕ} (ms : List CString) : ∀ out : CString,
    out.length + (ms.flatMap (',' :: ·)).length < outSize →
    encodeMembers outSize out [','] ms = out ++ ms.flatMap (',' :: ·) := by
  induction ms with
  | nil => exact fun out _ => (List.append_nil out).symm
  | cons m ms ih =>
      intro out hout
      rw [List.flatMap_cons, List.length_append, List.length_cons] at hout
      rw [encodeMembers, if_pos (by rw [List.length_append, List.length_singleton]; omega), ih _ (by
        rw [List.length_append, List.length_append, List.length_singleton]
        omega)]
      simp

lemma intercalate_cons (m : CString) (ms : List CString) :
    [','].intercalate (m :: ms) = m ++ ms.flatMap (',' :: ·) := by
  induction ms generalizing m with
  | nil => simp [List.intercalate]
  | cons a ms ih =>
      have hstep : [','].intercalate (m :: a :: ms) = m ++ (',' :: [','].intercalate (a :: ms)) := by
        simp [List.intercalate, List.intersperse]
      rw [hstep, ih a]
      simp

/-- What is written when the ids of the whole list fit, each with a byte to spare. -/
lemma encodeMemberList_of_fits {nodes size outSize : ℕ} (hsize : nodes * size ≤ outSize)
    {ms : List CString} (h : ∀ id ∈ ms, id.length < size) (hlen : ms.length ≤ nodes) :
    encodeMemberList ms outSize = [','].intercalate ms ∧
      (encodeMemberList ms outSize).length ≤ outSize - 1 := by
  cases ms with
  | nil => exact ⟨rfl, Nat.zero_le _⟩
  | cons m ms =>
      have hm : m.length < size := h m List.mem_cons_self
      have hms := length_flatMap_comma ms fun id hid => h id (List.mem_cons_of_mem _ hid)
      have htotal : m.length + (ms.flatMap (',' :: ·)).length < outSize :=
        calc m.length + (ms.flatMap (',' :: ·)).length
            < size + ms.length * size := by omega
          _ = (m :: ms).length * size := by rw [List.length_cons]; ring
          _ ≤ nodes * size := Nat.mul_le_mul_right size hlen
          _ ≤ outSize := hsize
      have heq : encodeMemberList (m :: ms) outSize = m ++ ms.flatMap (',' :: ·) := by
        rw [encodeMemberList, encodeMembers, List.nil_append, List.nil_append,
          if_pos (by rw [List.length_nil]; omega)]
        exact encodeMembers_eq ms m htotal
      refine ⟨heq.trans (intercalate_cons m ms).symm, ?_⟩
      rw [heq, List.length_append]
      omega

/-- **What is written**: the members with commas between them. -/
lemma encodeMemberList_eq {ms : List CString} (h : ∀ id ∈ ms, id.length < maxId)
    (hlen : ms.length ≤ maxNodes) :
    encodeMemberList ms maxValue = [','].intercalate ms ∧
      (encodeMemberList ms maxValue).length < maxValue := by
  have hsize : maxNodes * maxId ≤ maxValue := by decide
  obtain ⟨heq, hle⟩ := encodeMemberList_of_fits hsize h hlen
  exact ⟨heq, Nat.lt_of_le_pred (by decide) hle⟩

/-- The tokens of members with commas between them. -/
lemma tokens_intercalate {ms : List CString} (h : ∀ id ∈ ms, id ≠ [] ∧ ',' ∉ id) :
    tokens ([','].intercalate ms) = ms := by
  cases ms with
  | nil => rfl
  | cons m ms =>
      rw [tokens, List.splitOn_intercalate ',' (fun id hid => (h id hid).2) (by simp),
        List.filter_eq_self]
      intro id hid
      simpa using (h id hid).1

/-- The loop of `decode_member_list` over whole ids. -/
lemma foldl_decode (ms : List CString) : ∀ out : List CString, (∀ id ∈ ms, id ≠ []) →
    ms.foldl (fun out token =>
      if out.length < maxNodes ∧ token ∉ out then out ++ [strncpy maxId token] else out) out =
    ms.foldl (fun out m =>
      if out.length < maxNodes ∧ m ≠ [] ∧ m ∉ out then out ++ [strncpy maxId m] else out) out := by
  induction ms with
  | nil => exact fun _ _ => rfl
  | cons m ms ih =>
      intro out hms
      have hm : m ≠ [] := hms m List.mem_cons_self
      rw [List.foldl_cons, List.foldl_cons, ih _ fun id hid => hms id (List.mem_cons_of_mem _ hid)]
      simp [hm]

/-- **What is read back**: the members, each once. -/
theorem decode_encode {ms : List CString} (h : ∀ id ∈ ms, MemberId id)
    (hlen : ms.length ≤ maxNodes) :
    decodeMemberList (encodeMemberList ms maxValue) maxNodes = gathered ms := by
  obtain ⟨heq, hfit⟩ := encodeMemberList_eq (fun id hid => (h id hid).short.2) hlen
  have hne : ∀ id ∈ ms, id ≠ [] := fun id hid => (h id hid).ne_nil
  have htokens : tokens (strncpy maxValue (encodeMemberList ms maxValue)) = ms := by
    rw [strncpy_of_fits hfit, heq]
    exact tokens_intercalate fun id hid => ⟨hne id hid, (h id hid).noComma⟩
  rw [decodeMemberList, htokens, foldl_decode ms [] hne]
  rfl

/-- **A configuration made from the text** is the one that was asked for. -/
theorem normalize_decode_encode {ms : List CString} (h : ∀ id ∈ ms, MemberId id)
    (hlen : ms.length ≤ maxNodes) :
    normalizeMembers (decodeMemberList (encodeMemberList ms maxValue) maxNodes) maxNodes =
      normalizeMembers ms maxNodes := by
  rw [decode_encode h hlen, normalizeMembers_gathered fun id hid => (h id hid).short]

/-- The pieces of a text do not hold what it was split at. -/
lemma not_mem_of_mem_splitOn {a : Char} (s : List Char) : ∀ {t : List Char}, t ∈ s.splitOn a →
    a ∉ t := by
  induction s with
  | nil =>
      intro t ht
      rw [List.splitOn_nil, List.mem_singleton] at ht
      rw [ht]
      exact List.not_mem_nil
  | cons b s ih =>
      intro t ht
      rw [List.splitOn_cons_eq_if_modifyHead] at ht
      split at ht
      · rcases List.mem_cons.mp ht with rfl | ht
        · exact List.not_mem_nil
        · exact ih ht
      · rename_i hb
        cases hs : s.splitOn a with
        | nil => exact absurd hs (List.splitOn_ne_nil a s)
        | cons u us =>
            rw [hs, List.modifyHead_cons] at ht
            rcases List.mem_cons.mp ht with rfl | ht
            · rw [List.mem_cons, not_or]
              exact ⟨fun hab => hb (by simp [hab]), ih (by rw [hs]; exact List.mem_cons_self)⟩
            · exact ih (by rw [hs]; exact List.mem_cons_of_mem _ ht)

/-- Whatever the text, the members read from it are nonempty, short and without commas. -/
lemma mem_decodeMemberList {value id : CString} (h : id ∈ decodeMemberList value maxNodes) :
    id ≠ [] ∧ id.length < maxId ∧ ',' ∉ id := by
  rcases mem_foldl_guarded _ h with h | ⟨t, ht, rfl, -⟩
  · exact absurd h List.not_mem_nil
  · obtain ⟨hsplit, hne⟩ := List.mem_filter.mp ht
    rw [decide_eq_true_eq] at hne
    refine ⟨?_, length_strncpy_lt t, fun hc => ?_⟩
    · rw [strncpy, Ne, List.take_eq_nil_iff]
      exact not_or.mpr ⟨by decide, hne⟩
    · exact not_mem_of_mem_splitOn _ hsplit (List.mem_of_mem_take hc)

lemma length_decodeMemberList (value : CString) :
    (decodeMemberList value maxNodes).length ≤ maxNodes :=
  length_foldl_guarded (fun _ _ h => h.1) _ (Nat.zero_le _)

/-! ### Other buffer sizes -/

/-- The sizes a build fixes: `RAFT_MAX_NODES`, `RAFT_MAX_ID` and `RAFT_MAX_VALUE`. -/
structure BufferSizes where
  nodes : ℕ
  id : ℕ
  value : ℕ
  deriving DecidableEq, Repr

namespace BufferSizes

/-- The sizes of `raft.h`. -/
def standard : BufferSizes := ⟨maxNodes, maxId, maxValue⟩

/-- `decode_member_list`, with the sizes of a build. -/
def decodeMemberList (sizes : BufferSizes) (value : CString) (capacity : ℕ) : List CString :=
  (tokens (strncpy sizes.value value)).foldl
    (fun out token =>
      if out.length < capacity ∧ token ∉ out then out ++ [strncpy sizes.id token] else out) []

/-- The entry `node_append_internal_command` writes, with the sizes of a build. -/
def internalEntry (sizes : BufferSizes) (node : Node σ) (op key value : CString) : LogEntry :=
  { index := node.lastLogIndex + 1
    term := node.currentTerm
    leaderId := strncpy sizes.id node.config.nodeId
    command :=
      { op := strncpy maxOp op, key := strncpy maxKey key, value := strncpy sizes.value value } }

lemma decodeMemberList_standard (value : CString) (capacity : ℕ) :
    standard.decodeMemberList value capacity = RaftRx.C.decodeMemberList value capacity := rfl

lemma internalEntry_standard (node : Node σ) (op key value : CString) :
    standard.internalEntry node op key value = node.internalEntry op key value := rfl

/-- The lists a build promises to carry: distinct, nonempty ids without commas, as many as there
are places and each with a byte to spare. -/
structure Admits (sizes : BufferSizes) (ids : List CString) : Prop where
  nodup : ids.Nodup
  length_le : ids.length ≤ sizes.nodes
  ne_nil : ∀ id ∈ ids, id ≠ []
  noComma : ∀ id ∈ ids, ',' ∉ id
  length_lt : ∀ id ∈ ids, id.length < sizes.id

end BufferSizes

lemma strncpy_of_le {size : ℕ} {t : CString} (h : t.length ≤ size - 1) : strncpy size t = t :=
  List.take_of_length_le h

/-- Distinct ids that fit are all collected, in their order. -/
lemma foldl_collect {nodes size : ℕ} (ms : List CString) : ∀ out : List CString,
    (∀ id ∈ ms, id.length < size) → (out ++ ms).Nodup → (out ++ ms).length ≤ nodes →
    ms.foldl (fun out token =>
      if out.length < nodes ∧ token ∉ out then out ++ [strncpy size token] else out) out =
      out ++ ms := by
  induction ms with
  | nil => exact fun out _ _ _ => (List.append_nil out).symm
  | cons m ms ih =>
      intro out hms hnodup hlen
      have hm : m.length < size := hms m List.mem_cons_self
      have hroom : out.length < nodes := by
        rw [List.length_append, List.length_cons] at hlen
        omega
      have hnew : m ∉ out := fun hmem =>
        (List.nodup_append.mp hnodup).2.2 m hmem m List.mem_cons_self rfl
      rw [List.foldl_cons, if_pos ⟨hroom, hnew⟩, strncpy_of_le (by omega),
        ih (out ++ [m]) (fun id hid => hms id (List.mem_cons_of_mem _ hid)) (by simpa using hnodup)
          (by simpa using hlen), List.append_assoc, List.singleton_append]

/-- **From the encoder through an entry to the decoder**, in a build whose value buffer holds the
longest list. -/
lemma BufferSizes.Admits.decode {sizes : BufferSizes} {ids : List CString} (h : sizes.Admits ids)
    (hsize : sizes.nodes * sizes.id ≤ sizes.value) (node : Node σ) (op key : CString) :
    sizes.decodeMemberList
      (sizes.internalEntry node op key (encodeMemberList ids sizes.value)).command.value
        sizes.nodes = ids := by
  obtain ⟨heq, hle⟩ := encodeMemberList_of_fits hsize h.length_lt h.length_le
  have hvalue : (sizes.internalEntry node op key (encodeMemberList ids sizes.value)).command.value =
      [','].intercalate ids := by
    rw [← heq]
    exact strncpy_of_le hle
  have hcut : strncpy sizes.value ([','].intercalate ids) = [','].intercalate ids := by
    rw [← heq]
    exact strncpy_of_le hle
  rw [hvalue, BufferSizes.decodeMemberList, hcut,
    tokens_intercalate fun id hid => ⟨h.ne_nil id hid, h.noComma id hid⟩]
  exact foldl_collect ids [] h.length_lt h.nodup h.length_le

/-- A leader with room appends the entry. -/
lemma log_appendInternalCommand {node : Node σ} (hlead : node.isLeader = true)
    (hroom : node.log.length < maxLog) (op key value : CString) :
    (node.appendInternalCommand op key value).1.log =
      node.log ++ [node.internalEntry op key value] := by
  obtain ⟨ms, heq, -⟩ := broadcastAppendEntries_eq
    { node with log := node.log ++ [node.internalEntry op key value], persistDirty := true }
  rw [Node.appendInternalCommand, if_neg (by simp [hlead, hroom])]
  dsimp only
  rw [heq]

/-- **A member list comes back** from the entry it was written into, with its order and its length:
in every build with `RAFT_MAX_NODES * RAFT_MAX_ID ≤ RAFT_MAX_VALUE`, and in the standard one from
the entry that `node_append_internal_command` puts at the end of the log. -/
theorem decode_entry_encode {sizes : BufferSizes} {ids : List CString} (h : sizes.Admits ids)
    (hsize : sizes.nodes * sizes.id ≤ sizes.value) (node : Node σ) (op key : CString) :
    sizes.decodeMemberList
      (sizes.internalEntry node op key (encodeMemberList ids sizes.value)).command.value
        sizes.nodes = ids ∧
    (sizes = BufferSizes.standard → node.isLeader = true → node.log.length < maxLog →
      ∃ entry, (node.appendInternalCommand op key (encodeMemberList ids maxValue)).1.log =
          node.log ++ [entry] ∧
        decodeMemberList entry.command.value maxNodes = ids) := by
  refine ⟨h.decode hsize node op key, ?_⟩
  rintro rfl hlead hroom
  exact ⟨node.internalEntry op key (encodeMemberList ids maxValue),
    log_appendInternalCommand hlead hroom op key _, h.decode hsize node op key⟩

/-- Eight ids of fifteen characters fill the buffer. -/
def longIds : List CString := "abcdefgh".toList.map fun c => List.replicate 15 c

lemma admits_longIds : BufferSizes.standard.Admits longIds :=
  { nodup := by decide
    length_le := by decide
    ne_nil := by decide
    noComma := by decide
    length_lt := by decide }

/-- The longest list, through the entry of a node that has just started. -/
theorem decode_entry_encode_long :
    decodeMemberList
      ((Node.zero ⟨['a'], [], [], false, 1, 1⟩ () 0).internalEntry opEnterJoint "members".toList
        (encodeMemberList longIds maxValue)).command.value maxNodes = longIds ∧
      (encodeMemberList longIds maxValue).length = 127 :=
  ⟨(decode_entry_encode admits_longIds (by decide) (Node.zero ⟨['a'], [], [], false, 1, 1⟩ () 0)
    opEnterJoint "members".toList).1, by decide⟩

end RaftRx.C
