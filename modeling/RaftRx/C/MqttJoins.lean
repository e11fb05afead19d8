import RaftRx.C.Node
import RaftRx.Library.Buffers

/-!
Join announcements over MQTT (`raft_mqtt_transport.c`, `raft_mqtt_join.c`).

`mqtt_recv` copies the payload of a frame of the join topic into the next slot of a queue and
`raft_mqtt_transport_recv_joins` reads the slots as strings.  The slots are reused, and the zero is
always written at the last byte of a slot.

* `MqttTransport` and its functions, with the frames of the HAL as a list;
* `JoinCall`, `JoinLedger`: a run of calls, with the payloads that were queued and the ids returned;
* `endsInSlot_copied`: whether a payload ends in its slot, by the payloads copied there before it;
* `recvLoop_joins`: the frames `mqtt_recv` collects as announcements;
* `JoinLedger.Inv`: the ids and the slots are what was read back from the writes;
* `joins_returned_iff`: exactly the runs whose payloads end in their slots return them.
-/

namespace RaftRx.C

open Buffers (stored overwrite)

/-! ### The transport -/

/-- A frame of the HAL: its topic and the bytes of its payload. -/
structure MqttFrame where
  topic : CString
  payload : List Char
  deriving DecidableEq, Repr

/-- `raft_mqtt_transport_t`, as far as joining goes. -/
structure MqttTransport where
  clusterId : CString
  inboxTopic : CString
  joinTopic : CString
  joinQueue : ℕ → List Char
  joinCount : ℕ
  enabled : Bool

/-- `sizeof(raft_message_t)` where an `int` has four bytes and a `size_t` eight. -/
def messageSize : ℕ :=
  10 * 4 + 3 * maxId + maxBatch * (2 * 4 + maxId + (maxOp + maxKey + maxValue)) + 8

/-- The size of the topic buffers. -/
def topicSize : ℕ := 128

namespace MqttTransport

/-- `raft_mqtt_transport_init` -/
def init (clusterId nodeId : CString) : MqttTransport :=
  { clusterId := clusterId
    inboxTopic := strncpy topicSize ("raft/".toList ++ clusterId ++ "/".toList ++ nodeId)
    joinTopic := []
    joinQueue := fun _ => List.replicate maxId '\x00'
    joinCount := 0
    enabled := true }

/-- The slot after `memcpy` of the payload and with a zero at its end. -/
def writeSlot (slot payload : List Char) : List Char :=
  (overwrite slot payload).set (maxId - 1) '\x00'

/-- The test of `mqtt_recv` for a join announcement. -/
def routesJoin (mqtt : MqttTransport) (frame : MqttFrame) : Bool :=
  decide (mqtt.joinTopic ≠ []) && decide (frame.topic = mqtt.joinTopic) &&
    decide (0 < frame.payload.length) && decide (frame.payload.length < maxId) &&
    decide (mqtt.joinCount < maxNodes)

/-- A join announcement is queued. -/
def queueJoin (mqtt : MqttTransport) (payload : List Char) : MqttTransport :=
  { mqtt with
    joinQueue := Function.update mqtt.joinQueue mqtt.joinCount
      (writeSlot (mqtt.joinQueue mqtt.joinCount) payload)
    joinCount := mqtt.joinCount + 1 }

/-- What `mqtt_recv` leaves: the transport, the messages it returns, the frames it has not taken,
and the payloads it queued as announcements, each with the slot it was copied into. -/
structure Received where
  mqtt : MqttTransport
  messages : List (List Char)
  frames : List MqttFrame
  joins : List (List Char × List Char)

/-- The loop of `mqtt_recv`, with the room that is left in its output. -/
def recvLoop (mqtt : MqttTransport) : ℕ → List MqttFrame → Received
  | _, [] => { mqtt := mqtt, messages := [], frames := [], joins := [] }
  | 0, frame :: frames =>
      { mqtt := mqtt, messages := [], frames := frame :: frames, joins := [] }
  | room + 1, frame :: frames =>
      if frame.payload.length = messageSize ∧ frame.topic = mqtt.inboxTopic then
        if mqtt.enabled then
          let received := recvLoop mqtt room frames
          { received with messages := frame.payload :: received.messages }
        else recvLoop mqtt (room + 1) frames
      else if mqtt.routesJoin frame then
        let slot := mqtt.joinQueue mqtt.joinCount
        let received := recvLoop (mqtt.queueJoin frame.payload) (room + 1) frames
        { received with joins := (frame.payload, slot) :: received.joins }
      else recvLoop mqtt (room + 1) frames

/-- `mqtt_recv` -/
def recv (mqtt : MqttTransport) (capacity : ℕ) (frames : List MqttFrame) : Received :=
  mqtt.recvLoop capacity frames

/-- The beginning of `raft_mqtt_transport_recv_joins`: the first call makes the join topic
active. -/
def activated (mqtt : MqttTransport) : MqttTransport :=
  if mqtt.joinTopic = [] then
    { mqtt with
      joinTopic := strncpy topicSize ("raft/".toList ++ mqtt.clusterId ++ "/join".toList) }
  else mqtt

/-- `raft_mqtt_transport_recv_joins` into zeroed records. -/
def recvJoins (mqtt : MqttTransport) (capacity : ℕ) : MqttTransport × List CString :=
  let mqtt := mqtt.activated
  let out := (List.range (min mqtt.joinCount capacity)).map fun i =>
    strncpy maxId (stored (mqtt.joinQueue i))
  ({ mqtt with joinCount := 0 }, out)

end MqttTransport

/-! ### Runs of calls -/

/-- A frame arrives at the HAL, or one of the two functions is called. -/
inductive JoinCall where
  | deliver (frame : MqttFrame)
  | recv (capacity : ℕ)
  | recvJoins

/-- The transport and the frames at the HAL, with the announcements that were queued so far, each
with the slot it was copied into, and the ids that were returned. -/
structure JoinLedger where
  mqtt : MqttTransport
  frames : List MqttFrame
  joins : List (List Char × List Char)
  returned : List CString

namespace JoinLedger

/-- The first call of `raft_mqtt_transport_recv_joins` was made. -/
def start (clusterId nodeId : CString) : JoinLedger :=
  { mqtt := ((MqttTransport.init clusterId nodeId).recvJoins maxNodes).1, frames := []
    joins := [], returned := [] }

/-- One call; the output of `raft_mqtt_transport_recv_joins` has room for `RAFT_MAX_NODES` ids. -/
def exec (l : JoinLedger) : JoinCall → JoinLedger
  | .deliver frame => { l with frames := l.frames ++ [frame] }
  | .recv capacity =>
      let received := l.mqtt.recv capacity l.frames
      { l with
        mqtt := received.mqtt, frames := received.frames, joins := l.joins ++ received.joins }
  | .recvJoins =>
      let (mqtt, ids) := l.mqtt.recvJoins maxNodes
      { l with mqtt := mqtt, returned := l.returned ++ ids }

/-- A run of calls. -/
def run (l : JoinLedger) (calls : List JoinCall) : JoinLedger := calls.foldl exec l

/-- **The law of joining**: the ids returned are, in order, the payloads of the announcements that
were queued, up to those that still are. -/
def Returns (l : JoinLedger) : Prop :=
  l.returned.length + l.mqtt.joinCount = l.joins.length ∧
    l.returned = (l.joins.take l.returned.length).map fun join => stored join.1

end JoinLedger

/-- The payload ends in its slot: it holds a zero, it takes up all but the last byte, or the byte
behind it is zero. -/
def EndsInSlot (join : List Char × List Char) : Prop :=
  '\x00' ∈ join.1 ∨ join.1.length = maxId - 1 ∨ join.2[join.1.length]? = some '\x00'

/-! ### Slots -/

/-- A slot has its size, and its last byte is zero. -/
structure Terminated (slot : List Char) : Prop where
  length : slot.length = maxId
  last : slot[maxId - 1]? = some '\x00'

lemma terminated_zero : Terminated (List.replicate maxId '\x00') := ⟨by decide, by decide⟩

lemma Terminated.writeSlot {slot payload : List Char} (h : Terminated slot)
    (hlen : payload.length < maxId) : Terminated (MqttTransport.writeSlot slot payload) := by
  have hover : (overwrite slot payload).length = maxId := by
    rw [Buffers.length_overwrite (by rw [h.length]; exact hlen.le), h.length]
  constructor
  · rw [MqttTransport.writeSlot, List.length_set, hover]
  · rw [MqttTransport.writeSlot, List.getElem?_set_self (by rw [hover]; decide)]

/-- Writing the zero changes nothing: the slot had it. -/
lemma Terminated.writeSlot_eq {slot payload : List Char} (h : Terminated slot)
    (hlen : payload.length < maxId) :
    MqttTransport.writeSlot slot payload = overwrite slot payload := by
  have hlast : (overwrite slot payload)[maxId - 1]? = some '\x00' := by
    rw [Buffers.getElem?_overwrite (Nat.le_sub_one_of_lt hlen), h.last]
  have hlt : maxId - 1 < (overwrite slot payload).length := by
    rw [Buffers.length_overwrite (by rw [h.length]; exact hlen.le), h.length]
    decide
  rw [List.getElem?_eq_getElem hlt, Option.some.injEq] at hlast
  rw [MqttTransport.writeSlot, ← hlast, List.set_getElem_self]

/-- The string of a slot fits the output. -/
lemma Terminated.strncpy_stored {slot : List Char} (h : Terminated slot) :
    strncpy maxId (stored slot) = stored slot := by
  refine List.take_of_length_le ?_
  have hsplit : slot = slot.take (maxId - 1) ++ ['\x00'] := by
    have hlt : maxId - 1 < slot.length := by
      rw [h.length]
      decide
    have hget := h.last
    rw [List.getElem?_eq_getElem hlt, Option.some.injEq] at hget
    calc slot = slot.take (maxId - 1) ++ slot.drop (maxId - 1) := (List.take_append_drop _ _).symm
      _ = slot.take (maxId - 1) ++ ['\x00'] := by
        rw [List.drop_eq_getElem_cons hlt, hget, List.drop_of_length_le (by rw [h.length]; decide)]
  rw [hsplit, stored, List.takeWhile_append]
  split
  · rw [List.length_append, List.length_take]
    simp
  · exact (List.takeWhile_prefix _).length_le.trans (by rw [List.length_take]; omega)

/-- **What is read back from a slot** is the payload exactly when it ends in the slot. -/
lemma stored_writeSlot_iff {payload slot : List Char} (h : Terminated slot)
    (hlen : payload.length < maxId) :
    stored (MqttTransport.writeSlot slot payload) = stored payload ↔
      EndsInSlot (payload, slot) := by
  rw [h.writeSlot_eq hlen, Buffers.stored_overwrite_eq_iff (by rw [h.length]; exact hlen),
    EndsInSlot]
  constructor
  · rintro (hmem | hnext)
    · exact Or.inl hmem
    · exact Or.inr (Or.inr hnext)
  · rintro (hmem | hfull | hnext)
    · exact Or.inl hmem
    · right
      rw [hfull]
      exact h.last
    · exact Or.inr hnext

/-! ### Slots that are used again -/

/-- A slot after payloads were copied into it, the newest one first. -/
def copied : List (List Char) → List Char
  | [] => List.replicate maxId '\x00'
  | payload :: payloads => MqttTransport.writeSlot (copied payloads) payload

lemma terminated_copied {payloads : List (List Char)} (h : ∀ p ∈ payloads, p.length < maxId) :
    Terminated (copied payloads) := by
  induction payloads with
  | nil => exact terminated_zero
  | cons p payloads ih =>
      exact (ih fun q hq => h q (List.mem_cons_of_mem _ hq)).writeSlot (h p List.mem_cons_self)

/-- A byte of a slot is that of the last payload that reached it. -/
lemma getElem?_copied {payloads : List (List Char)} (h : ∀ p ∈ payloads, p.length < maxId) {n : ℕ}
    (hn : n < maxId - 1) : (copied payloads)[n]? = some '\x00' ↔
      ∀ q ∈ payloads.find? (fun q => decide (n < q.length)), q[n]? = some '\x00' := by
  induction payloads with
  | nil =>
      rw [copied, List.getElem?_replicate, if_pos (by omega)]
      simp
  | cons p payloads ih =>
      have hrest : ∀ q ∈ payloads, q.length < maxId := fun q hq => h q (List.mem_cons_of_mem _ hq)
      rw [copied, (terminated_copied hrest).writeSlot_eq (h p List.mem_cons_self)]
      by_cases hlt : n < p.length
      · rw [List.find?_cons, decide_eq_true hlt, Buffers.overwrite,
          List.getElem?_append_left hlt]
        simp
      · rw [List.find?_cons, decide_eq_false hlt, ← ih hrest,
          Buffers.getElem?_overwrite (not_lt.mp hlt)]

/-- **A payload ends in a slot that was used before** if the last longer payload there has its own
zero at that place, or there was none. -/
lemma endsInSlot_copied {payloads : List (List Char)} (h : ∀ p ∈ payloads, p.length < maxId)
    {payload : List Char} (hlen : payload.length < maxId) :
    EndsInSlot (payload, copied payloads) ↔ '\x00' ∈ payload ∨ payload.length = maxId - 1 ∨
      ∀ q ∈ payloads.find? (fun q => decide (payload.length < q.length)),
        q[payload.length]? = some '\x00' := by
  rw [EndsInSlot]
  refine or_congr_right ?_
  by_cases hfull : payload.length = maxId - 1
  · exact iff_of_true (Or.inl hfull) (Or.inl hfull)
  · have hle : payload.length ≤ maxId - 1 := Nat.le_sub_one_of_lt hlen
    exact or_congr_right (getElem?_copied h (lt_of_le_of_ne hle hfull))

/-! ### The frames that are collected -/

/-- A frame of the join topic whose payload fits in a slot. -/
def MqttTransport.announces (mqtt : MqttTransport) (frame : MqttFrame) : Bool :=
  decide (mqtt.joinTopic ≠ []) && decide (frame.topic = mqtt.joinTopic) &&
    decide (0 < frame.payload.length) && decide (frame.payload.length < maxId)

/-- **What `mqtt_recv` collects** of the frames it takes: the payloads of the announcements, up to a
full queue. -/
lemma recvLoop_joins (frames : List MqttFrame) : ∀ (room : ℕ) (mqtt : MqttTransport),
    ∃ taken, frames = taken ++ (mqtt.recvLoop room frames).frames ∧
      (mqtt.recvLoop room frames).joins.map Prod.fst =
        ((taken.filter mqtt.announces).map MqttFrame.payload).take (maxNodes - mqtt.joinCount) := by
  induction frames with
  | nil =>
      intro room mqtt
      rw [MqttTransport.recvLoop]
      exact ⟨[], rfl, List.take_nil.symm⟩
  | cons frame frames ih =>
      intro room mqtt
      cases room with
      | zero =>
          rw [MqttTransport.recvLoop]
          exact ⟨[], rfl, List.take_nil.symm⟩
      | succ room =>
          -- a frame that is none, or comes when the queue is full
          have hpass : ∀ r : MqttTransport.Received, mqtt.announces frame = false →
              (∃ taken, frames = taken ++ r.frames ∧ r.joins.map Prod.fst =
                ((taken.filter mqtt.announces).map MqttFrame.payload).take
                  (maxNodes - mqtt.joinCount)) →
              ∃ taken, frame :: frames = taken ++ r.frames ∧ r.joins.map Prod.fst =
                ((taken.filter mqtt.announces).map MqttFrame.payload).take
                  (maxNodes - mqtt.joinCount) := by
            rintro r hnone ⟨taken, hframes, hjoins⟩
            refine ⟨frame :: taken, by rw [List.cons_append, ← hframes], ?_⟩
            rw [List.filter_cons_of_neg (by rw [hnone]; exact Bool.false_ne_true)]
            exact hjoins
          rw [MqttTransport.recvLoop]
          split
          · rename_i hmessage
            have hnone : mqtt.announces frame = false := by
              rw [MqttTransport.announces, hmessage.1, Bool.and_eq_false_iff]
              exact Or.inr (by decide)
            split
            · exact hpass _ hnone (ih room mqtt)
            · exact hpass _ hnone (ih (room + 1) mqtt)
          · have hroutes : mqtt.routesJoin frame =
                (mqtt.announces frame && decide (mqtt.joinCount < maxNodes)) := rfl
            cases hann : mqtt.announces frame with
            | false =>
                rw [hroutes, hann, Bool.false_and, if_neg Bool.false_ne_true]
                exact hpass _ hann (ih (room + 1) mqtt)
            | true =>
                rw [hroutes, hann, Bool.true_and]
                split
                · rename_i hroom
                  rw [decide_eq_true_eq] at hroom
                  obtain ⟨taken, hframes, hjoins⟩ :=
                    ih (room + 1) (mqtt.queueJoin frame.payload)
                  refine ⟨frame :: taken, by rw [List.cons_append, ← hframes], ?_⟩
                  have hleft : maxNodes - mqtt.joinCount = maxNodes - (mqtt.joinCount + 1) + 1 := by
                    omega
                  rw [List.filter_cons_of_pos hann, List.map_cons, List.map_cons, hleft,
                    List.take_succ_cons, hjoins]
                  rfl
                · rename_i hfull
                  rw [decide_eq_true_eq] at hfull
                  have hleft : maxNodes - mqtt.joinCount = 0 := by omega
                  obtain ⟨taken, hframes, hjoins⟩ := ih (room + 1) mqtt
                  refine ⟨frame :: taken, by rw [List.cons_append, ← hframes], ?_⟩
                  rw [hjoins, hleft, List.take_zero, List.take_zero]

/-! ### The invariant -/

/-- What is read back from the slot a payload was copied into. -/
def readBack (join : List Char × List Char) : CString :=
  stored (MqttTransport.writeSlot join.2 join.1)

/-- **The invariant**: the returned ids, and after them the strings of the slots in use, are what is
read back from the writes. -/
structure JoinsInv (mqtt : MqttTransport) (joins : List (List Char × List Char))
    (returned : List CString) : Prop where
  count : returned.length + mqtt.joinCount = joins.length
  room : mqtt.joinCount ≤ maxNodes
  slots : ∀ i, Terminated (mqtt.joinQueue i)
  fits : ∀ join ∈ joins, Terminated join.2 ∧ join.1.length < maxId
  queued : (List.range mqtt.joinCount).map (fun i => stored (mqtt.joinQueue i)) =
    (joins.drop returned.length).map readBack
  returned : returned = (joins.take returned.length).map readBack

variable {mqtt : MqttTransport} {joins : List (List Char × List Char)} {returned : List CString}

lemma routesJoin_iff {frame : MqttFrame} (h : mqtt.routesJoin frame = true) :
    frame.payload.length < maxId ∧ mqtt.joinCount < maxNodes := by
  rw [MqttTransport.routesJoin, Bool.and_eq_true, Bool.and_eq_true, decide_eq_true_eq,
    decide_eq_true_eq] at h
  exact ⟨h.1.2, h.2⟩

/-- One announcement is queued. -/
lemma JoinsInv.queueJoin (h : JoinsInv mqtt joins returned) {frame : MqttFrame}
    (hroutes : mqtt.routesJoin frame = true) :
    JoinsInv (mqtt.queueJoin frame.payload)
      (joins ++ [(frame.payload, mqtt.joinQueue mqtt.joinCount)]) returned := by
  obtain ⟨hlen, hroom⟩ := routesJoin_iff hroutes
  have hle : returned.length ≤ joins.length := by
    have := h.count
    omega
  constructor
  · rw [List.length_append, List.length_singleton, ← h.count]
    exact (Nat.add_assoc _ _ _).symm
  · exact hroom
  · intro i
    change Terminated (Function.update mqtt.joinQueue mqtt.joinCount _ i)
    by_cases hi : i = mqtt.joinCount
    · rw [hi, Function.update_self]
      exact (h.slots _).writeSlot hlen
    · rw [Function.update_of_ne hi]
      exact h.slots i
  · intro join hjoin
    cases List.mem_append.mp hjoin with
    | inl hjoin => exact h.fits join hjoin
    | inr hjoin =>
        rw [List.mem_singleton.mp hjoin]
        exact ⟨h.slots _, hlen⟩
  · have hbefore : (List.range mqtt.joinCount).map (fun i =>
        stored ((mqtt.queueJoin frame.payload).joinQueue i)) =
          (List.range mqtt.joinCount).map fun i => stored (mqtt.joinQueue i) := by
      refine List.map_congr_left fun i hi => ?_
      have hne : i ≠ mqtt.joinCount := (List.mem_range.mp hi).ne
      exact congrArg stored (Function.update_of_ne hne _ _)
    have hlast : (mqtt.queueJoin frame.payload).joinQueue mqtt.joinCount =
        MqttTransport.writeSlot (mqtt.joinQueue mqtt.joinCount) frame.payload :=
      Function.update_self _ _ _
    change (List.range (mqtt.joinCount + 1)).map _ = _
    rw [List.range_succ, List.map_append, hbefore, h.queued, List.drop_append_of_le_length hle,
      List.map_append, List.map_singleton, List.map_singleton, hlast, readBack]
  · rw [List.take_append_of_le_length hle]
    exact h.returned

/-- **The loop of `mqtt_recv`** keeps the invariant. -/
lemma JoinsInv.recvLoop (frames : List MqttFrame) : ∀ (room : ℕ) {mqtt : MqttTransport}
    {joins : List (List Char × List Char)}, JoinsInv mqtt joins returned →
    JoinsInv (mqtt.recvLoop room frames).mqtt (joins ++ (mqtt.recvLoop room frames).joins)
      returned := by
  induction frames with
  | nil =>
      intro room mqtt joins h
      rw [MqttTransport.recvLoop, List.append_nil]
      exact h
  | cons frame frames ih =>
      intro room mqtt joins h
      cases room with
      | zero =>
          rw [MqttTransport.recvLoop, List.append_nil]
          exact h
      | succ room =>
          rw [MqttTransport.recvLoop]
          split
          · split
            · exact ih room h
            · exact ih (room + 1) h
          · split
            · rename_i hroutes
              have hnext := ih (room + 1) (h.queueJoin hroutes)
              rw [List.append_assoc, List.singleton_append] at hnext
              exact hnext
            · exact ih (room + 1) h

lemma joinQueue_activated (mqtt : MqttTransport) : mqtt.activated.joinQueue = mqtt.joinQueue := by
  rw [MqttTransport.activated]
  split <;> rfl

lemma joinCount_activated (mqtt : MqttTransport) : mqtt.activated.joinCount = mqtt.joinCount := by
  rw [MqttTransport.activated]
  split <;> rfl

/-- **`raft_mqtt_transport_recv_joins`** returns what is read back. -/
lemma JoinsInv.recvJoins (h : JoinsInv mqtt joins returned) :
    JoinsInv (mqtt.recvJoins maxNodes).1 joins (returned ++ (mqtt.recvJoins maxNodes).2) := by
  have hout : (mqtt.recvJoins maxNodes).2 = (joins.drop returned.length).map readBack := by
    rw [← h.queued, MqttTransport.recvJoins]
    dsimp only
    rw [joinCount_activated, joinQueue_activated, min_eq_left h.room]
    exact List.map_congr_left fun i _ => (h.slots i).strncpy_stored
  have hall : returned ++ (mqtt.recvJoins maxNodes).2 = joins.map readBack :=
    calc returned ++ (mqtt.recvJoins maxNodes).2
        = (joins.take returned.length).map readBack ++
            (joins.drop returned.length).map readBack := by rw [hout, ← h.returned]
      _ = joins.map readBack := by rw [← List.map_append, List.take_append_drop]
  rw [hall]
  refine ⟨?_, Nat.zero_le _, ?_, h.fits, ?_, ?_⟩
  · rw [List.length_map]
    exact Nat.add_zero _
  · intro i
    change Terminated (mqtt.activated.joinQueue i)
    rw [joinQueue_activated]
    exact h.slots i
  · rw [List.length_map, List.drop_length]
    rfl
  · rw [List.length_map, List.take_length]

namespace JoinLedger

/-- The invariant of a run. -/
def Inv (l : JoinLedger) : Prop := JoinsInv l.mqtt l.joins l.returned

lemma Inv.exec {l : JoinLedger} (h : l.Inv) (call : JoinCall) : (l.exec call).Inv := by
  cases call with
  | deliver frame => exact h
  | recv capacity => exact JoinsInv.recvLoop l.frames capacity h
  | recvJoins => exact JoinsInv.recvJoins h

lemma Inv.run (calls : List JoinCall) : ∀ {l : JoinLedger}, l.Inv → (l.run calls).Inv := by
  induction calls with
  | nil => exact fun h => h
  | cons call calls ih => exact fun h => ih (h.exec call)

lemma inv_start (clusterId nodeId : CString) : (start clusterId nodeId).Inv where
  count := rfl
  room := Nat.zero_le _
  slots := fun i => by
    change Terminated ((MqttTransport.init clusterId nodeId).activated.joinQueue i)
    rw [joinQueue_activated]
    exact terminated_zero
  fits := fun join hjoin => absurd hjoin List.not_mem_nil
  queued := rfl
  returned := rfl

/-- The law holds where what is read back is what was announced. -/
lemma Inv.returns_iff {l : JoinLedger} (h : l.Inv) :
    l.Returns ↔ ∀ join ∈ l.joins.take l.returned.length, EndsInSlot join := by
  rw [Returns, and_iff_right h.count]
  have hback := h.returned
  constructor
  · intro hlaw join hjoin
    obtain ⟨hslot, hlen⟩ := h.fits join (List.mem_of_mem_take hjoin)
    exact (stored_writeSlot_iff hslot hlen).mp
      (List.map_inj_left.mp (hback.symm.trans hlaw) join hjoin)
  · intro hends
    refine hback.trans (List.map_congr_left fun join hjoin => ?_)
    obtain ⟨hslot, hlen⟩ := h.fits join (List.mem_of_mem_take hjoin)
    exact (stored_writeSlot_iff hslot hlen).mpr (hends join hjoin)

/-- Slots hold what earlier announcements left in them. -/
structure Reuses (mqtt : MqttTransport) (joins : List (List Char × List Char)) : Prop where
  slots : ∀ i, ∃ payloads, payloads.reverse.Sublist (joins.map Prod.fst) ∧
    mqtt.joinQueue i = copied payloads
  joined : ∀ k join, joins[k]? = some join → ∃ payloads,
    payloads.reverse.Sublist ((joins.take k).map Prod.fst) ∧ join.2 = copied payloads

lemma Reuses.queueJoin (h : Reuses mqtt joins) (payload : List Char) :
    Reuses (mqtt.queueJoin payload)
      (joins ++ [(payload, mqtt.joinQueue mqtt.joinCount)]) := by
  constructor
  · intro i
    rw [List.map_append]
    by_cases hi : i = mqtt.joinCount
    · obtain ⟨payloads, hsub, hslot⟩ := h.slots mqtt.joinCount
      refine ⟨payload :: payloads, ?_, ?_⟩
      · rw [List.reverse_cons]
        exact hsub.append (List.Sublist.refl _)
      · rw [hi, copied, ← hslot]
        exact Function.update_self _ _ _
    · obtain ⟨payloads, hsub, hslot⟩ := h.slots i
      refine ⟨payloads, hsub.trans (List.sublist_append_left _ _), ?_⟩
      rw [← hslot]
      exact Function.update_of_ne hi _ _
  · intro k join hk
    rcases lt_or_ge k joins.length with hlt | hge
    · rw [List.getElem?_append_left hlt] at hk
      rw [List.take_append_of_le_length hlt.le]
      exact h.joined k join hk
    · rw [List.getElem?_append_right hge, List.getElem?_singleton] at hk
      split at hk
      · obtain rfl := Option.some.inj hk
        obtain ⟨payloads, hsub, hslot⟩ := h.slots mqtt.joinCount
        refine ⟨payloads, ?_, hslot⟩
        rw [List.take_append_of_le_length (by omega), List.take_of_length_le hge]
        exact hsub
      · exact absurd hk (by simp)

lemma Reuses.recvLoop (frames : List MqttFrame) : ∀ (room : ℕ) {mqtt : MqttTransport}
    {joins : List (List Char × List Char)}, Reuses mqtt joins →
    Reuses (mqtt.recvLoop room frames).mqtt (joins ++ (mqtt.recvLoop room frames).joins) := by
  induction frames with
  | nil =>
      intro room mqtt joins h
      rw [MqttTransport.recvLoop, List.append_nil]
      exact h
  | cons frame frames ih =>
      intro room mqtt joins h
      cases room with
      | zero =>
          rw [MqttTransport.recvLoop, List.append_nil]
          exact h
      | succ room =>
          rw [MqttTransport.recvLoop]
          split
          · split
            · exact ih room h
            · exact ih (room + 1) h
          · split
            · have hnext := ih (room + 1) (h.queueJoin frame.payload)
              rw [List.append_assoc, List.singleton_append] at hnext
              exact hnext
            · exact ih (room + 1) h

lemma Reuses.run (calls : List JoinCall) : ∀ {l : JoinLedger}, Reuses l.mqtt l.joins →
    Reuses (l.run calls).mqtt (l.run calls).joins := by
  induction calls with
  | nil => exact fun h => h
  | cons call calls ih =>
      intro l h
      refine ih ?_
      cases call with
      | deliver frame => exact h
      | recv capacity => exact Reuses.recvLoop l.frames capacity h
      | recvJoins =>
          refine ⟨fun i => ?_, h.joined⟩
          change ∃ payloads, _ ∧ l.mqtt.activated.joinQueue i = copied payloads
          rw [joinQueue_activated]
          exact h.slots i

/-- **Whether an announcement ends in its slot** is decided by the last longer payload among some of
the earlier announcements, those that were copied into that slot. -/
lemma endsInSlot_run (clusterId nodeId : CString) (calls : List JoinCall) {k : ℕ}
    {join : List Char × List Char}
    (hk : ((start clusterId nodeId).run calls).joins[k]? = some join) :
    ∃ payloads : List (List Char),
      payloads.reverse.Sublist ((((start clusterId nodeId).run calls).joins.take k).map Prod.fst) ∧
      (EndsInSlot join ↔ '\x00' ∈ join.1 ∨ join.1.length = maxId - 1 ∨
        ∀ q ∈ payloads.find? (fun q => decide (join.1.length < q.length)),
          q[join.1.length]? = some '\x00') := by
  have hstart : Reuses (start clusterId nodeId).mqtt (start clusterId nodeId).joins := by
    refine ⟨fun i => ⟨[], List.nil_sublist _, ?_⟩, fun k join h => absurd h (by simp [start])⟩
    change (MqttTransport.init clusterId nodeId).activated.joinQueue i = _
    rw [joinQueue_activated]
    rfl
  have hfits := ((inv_start clusterId nodeId).run calls).fits
  obtain ⟨payloads, hsub, hslot⟩ := (Reuses.run calls hstart).joined k join hk
  refine ⟨payloads, hsub, ?_⟩
  have hshort : ∀ p ∈ payloads, p.length < maxId := by
    intro p hp
    obtain ⟨j, hj, rfl⟩ := List.mem_map.mp (hsub.subset (List.mem_reverse.mpr hp))
    exact (hfits j (List.mem_of_mem_take hj)).2
  have hjoin : join = (join.1, copied payloads) := Prod.ext rfl hslot
  have hlen := (hfits join (List.mem_of_getElem? hk)).2
  have hends := endsInSlot_copied hshort hlen
  rw [← hjoin] at hends
  exact hends

end JoinLedger

/-- **Join discovery returns the announced ids** in the runs whose payloads, as far as they were
returned, ended in the slots they were copied into, and in no others: whatever frames are delivered
and however the calls are interleaved. -/
theorem joins_returned_iff (clusterId nodeId : CString) (calls : List JoinCall) :
    ((JoinLedger.start clusterId nodeId).run calls).Returns ↔
      ∀ join ∈ ((JoinLedger.start clusterId nodeId).run calls).joins.take
        ((JoinLedger.start clusterId nodeId).run calls).returned.length, EndsInSlot join :=
  ((JoinLedger.inv_start clusterId nodeId).run calls).returns_iff

/-- A frame of the join topic of a cluster. -/
def joinFrame (id : String) : MqttFrame := ⟨"raft/c/join".toList, id.toList⟩

/-- Two nodes that join one after the other. -/
def twoJoins : JoinLedger :=
  (JoinLedger.start ['c'] ['n', '1']).run
    [.deliver (joinFrame "node10"), .recv 4, .recvJoins, .deliver (joinFrame "n3"), .recv 4,
      .recvJoins]

/-- The second id is returned with the end of the first. -/
theorem joins_mixed : twoJoins.returned = ["node10".toList, "n3de10".toList] ∧
    twoJoins.joins.map (fun join => stored join.1) = ["node10".toList, "n3".toList] ∧
      ¬twoJoins.Returns := by
  have hreturned : twoJoins.returned = ["node10".toList, "n3de10".toList] := by decide
  have hjoins : twoJoins.joins.map (fun join => stored join.1) =
      ["node10".toList, "n3".toList] := by decide
  refine ⟨hreturned, hjoins, fun h => ?_⟩
  have hlaw := h.2
  rw [List.map_take, hreturned, hjoins] at hlaw
  exact absurd hlaw (by decide)

end RaftRx.C
