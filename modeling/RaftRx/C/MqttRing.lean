import RaftRx.C.MqttJoins
import RaftRx.Library.Mailbox
import RaftRx.Library.Ring

/-!
The frame queue of the POSIX HAL (`raft_mqtt_hal_posix.c`) under `mqtt_recv`.

A background thread puts frames into a ring whose counters are of type `size_t`; `mqtt_recv` takes
them out one by one.  Both hold the lock for one frame only, so that frames also arrive between two
rounds of the loops of `mqtt_recv` and `mqtt_set_enabled`.

* `posixEventCb`, `posixRecvRaw`: the two ends of the ring;
* `MqttPeer`, `MqttAct`: a transport whose calls take a round at a time;
* `rounds_recv`: a call that is not interrupted is the one over a list of frames;
* `mqtt_delivers_iff`: over a run, the inbox hands out what arrived for it exactly if nothing is
  turned away or thrown away.
-/

namespace RaftRx.C

open Mailbox (Outcome Passes Drops outcome_of_eq)

/-! ### The ring -/

/-- `RAFT_MQTT_POSIX_QUEUE_SIZE` slots, and counters of type `size_t`. -/
def posixDims : Dims :=
  { size := maxQueue, range := 2 ^ 64, size_pos := by decide, size_lt := by decide
    size_dvd := by decide }

/-- `ring`, `r_head`, `r_tail` -/
abbrev PosixRing := Ring MqttFrame posixDims

/-- The ring after `memset`. -/
def posixRing : PosixRing :=
  { slots := fun _ => { topic := [], payload := [] }
    head := 0
    tail := 0
    head_lt := by decide
    tail_lt := by decide
    span_le := by decide }

/-- `posix_mqtt_event_cb`: the topic and the payload are cut to the size of a slot. -/
def posixEventCb (ring : PosixRing) (frame : MqttFrame) : PosixRing :=
  ring.push
    { topic := frame.topic.take (topicSize - 1), payload := frame.payload.take (messageSize + 4) }

/-- `posix_hal_recv_raw` -/
def posixRecvRaw (ring : PosixRing) (topicMax payloadMax : ℕ) : Option MqttFrame × PosixRing :=
  let r := ring.pop
  (r.1.map fun frame =>
    { topic := strncpy topicMax frame.topic, payload := frame.payload.take payloadMax }, r.2)

/-! ### A transport and its calls -/

/-- A call with a loop over the frames: `mqtt_recv` with the room left in its output, or
`mqtt_set_enabled` throwing the frames away. -/
inductive MqttCall where
  | recv (room : ℕ)
  | discard
  deriving DecidableEq, Repr

/-- The transport, its ring, and the call that is in its loop. -/
structure MqttPeer where
  mqtt : MqttTransport
  ring : PosixRing
  call : Option MqttCall

/-- A frame arrives, or the program calls a function; `round` is a round of the loop of the running
call. -/
inductive MqttAct where
  | arrive (frame : MqttFrame)
  | recv (capacity : ℕ)
  | round
  | recvJoins (capacity : ℕ)
  | setEnabled (enabled : Bool)

namespace MqttPeer

/-- `raft_mqtt_transport_init` -/
def init (clusterId nodeId : CString) : MqttPeer :=
  { mqtt := MqttTransport.init clusterId nodeId, ring := posixRing, call := none }

/-- A frame in the loop of `mqtt_recv`, with the message it puts into the output. -/
def route (x : MqttPeer) (room : ℕ) (frame : MqttFrame) : MqttPeer × List (List Char) :=
  if frame.payload.length = messageSize ∧ frame.topic = x.mqtt.inboxTopic then
    if x.mqtt.enabled then ({ x with call := some (.recv room) }, [frame.payload])
    else ({ x with call := some (.recv (room + 1)) }, [])
  else if x.mqtt.routesJoin frame then
    ({ x with mqtt := x.mqtt.queueJoin frame.payload, call := some (.recv (room + 1)) }, [])
  else ({ x with call := some (.recv (room + 1)) }, [])

/-- A round of the loop of the call, with the message it puts into the output. -/
def round (x : MqttPeer) : MqttPeer × List (List Char) :=
  match x.call with
  | none => (x, [])
  | some (.recv 0) => ({ x with call := none }, [])
  | some (.recv (room + 1)) =>
      match posixRecvRaw x.ring topicSize messageSize with
      | (none, ring) => ({ x with ring := ring, call := none }, [])
      | (some frame, ring) => { x with ring := ring }.route room frame
  | some .discard =>
      match posixRecvRaw x.ring topicSize messageSize with
      | (none, ring) => ({ x with ring := ring, call := none }, [])
      | (some _, ring) => ({ x with ring := ring }, [])

/-- `mqtt_set_enabled`, up to its loop. -/
def setEnabled (x : MqttPeer) (enabled : Bool) : MqttPeer :=
  { x with
    mqtt := { x.mqtt with enabled := enabled }
    call := if enabled then none else some .discard }

/-- One act, with the messages it puts into the output.  The program makes one call at a time. -/
def exec (x : MqttPeer) : MqttAct → MqttPeer × List (List Char)
  | .arrive frame => ({ x with ring := posixEventCb x.ring frame }, [])
  | .recv capacity => (if x.call = none then { x with call := some (.recv capacity) } else x, [])
  | .round => x.round
  | .recvJoins capacity =>
      (if x.call = none then { x with mqtt := (x.mqtt.recvJoins capacity).1 } else x, [])
  | .setEnabled enabled => (if x.call = none then x.setEnabled enabled else x, [])

end MqttPeer

/-! ### Frames of the inbox -/

/-- A frame as `mqtt_recv` gets it. -/
def cutFrame (frame : MqttFrame) : MqttFrame :=
  { topic := strncpy topicSize frame.topic, payload := frame.payload.take messageSize }

/-- The message in a frame of the inbox.  A payload that is longer than a message is cut to one. -/
def inboxMessage (inboxTopic : CString) (frame : MqttFrame) : Option (List Char) :=
  if (cutFrame frame).payload.length = messageSize ∧ (cutFrame frame).topic = inboxTopic then
    some (cutFrame frame).payload
  else none

/-- The messages in the ring. -/
def MqttPeer.held (x : MqttPeer) : List (List Char) :=
  x.ring.contents.filterMap (inboxMessage x.mqtt.inboxTopic)

lemma contents_posixRing : posixRing.contents = [] := by
  rw [← List.length_eq_zero_iff, Ring.length_contents]
  exact (Dims.span_eq_zero posixRing.head_lt posixRing.tail_lt).mpr rfl

lemma posixRecvRaw_nil {ring : PosixRing} (h : ring.contents = []) :
    ∃ ring', posixRecvRaw ring topicSize messageSize = (none, ring') ∧ ring'.contents = [] := by
  obtain ⟨hhead, htail⟩ := ring.pop_eq
  refine ⟨ring.pop.2, ?_, by rw [htail, h, List.tail_nil]⟩
  rw [posixRecvRaw, hhead, h]
  rfl

/-- The oldest frame is taken out. -/
lemma posixRecvRaw_cons {ring : PosixRing} {frame : MqttFrame} {frames : List MqttFrame}
    (h : ring.contents = frame :: frames) :
    ∃ ring', posixRecvRaw ring topicSize messageSize = (some (cutFrame frame), ring') ∧
      ring'.contents = frames := by
  obtain ⟨hhead, htail⟩ := ring.pop_eq
  refine ⟨ring.pop.2, ?_, by rw [htail, h, List.tail_cons]⟩
  rw [posixRecvRaw, hhead, h]
  rfl

/-- What the slot cuts off would be cut off anyway. -/
lemma contents_eventCb (ring : PosixRing) (frame : MqttFrame) :
    ∃ slot, cutFrame slot = cutFrame frame ∧ (posixEventCb ring frame).contents =
      if ring.contents.length < maxQueue then ring.contents ++ [slot] else ring.contents := by
  refine ⟨_, ?_, ring.contents_push _⟩
  rw [cutFrame, cutFrame, strncpy, strncpy, List.take_take, List.take_take, min_self,
    min_eq_left (by omega)]

lemma inboxMessage_congr {inboxTopic : CString} {frame slot : MqttFrame}
    (h : cutFrame slot = cutFrame frame) :
    inboxMessage inboxTopic slot = inboxMessage inboxTopic frame := by
  rw [inboxMessage, inboxMessage, h]

/-! ### Rounds -/

/-- With an empty ring a call ends. -/
lemma round_nil {x : MqttPeer} {call : MqttCall} (hcall : x.call = some call)
    (hc : x.ring.contents = []) :
    ∃ ring' : PosixRing, ring'.contents = [] ∧
      x.round = ({ x with ring := ring', call := none }, []) := by
  obtain ⟨ring', hr, hnil⟩ := posixRecvRaw_nil hc
  cases call with
  | recv room =>
      cases room with
      | zero => exact ⟨x.ring, hc, by rw [MqttPeer.round, hcall]⟩
      | succ room =>
          refine ⟨ring', hnil, ?_⟩
          rw [MqttPeer.round, hcall]
          dsimp only
          rw [hr]
  | discard =>
      refine ⟨ring', hnil, ?_⟩
      rw [MqttPeer.round, hcall]
      dsimp only
      rw [hr]

/-- `mqtt_recv` takes the oldest frame out. -/
lemma round_recv {x : MqttPeer} {room : ℕ} {frame : MqttFrame} {frames : List MqttFrame}
    (hcall : x.call = some (.recv (room + 1))) (hc : x.ring.contents = frame :: frames) :
    ∃ ring' : PosixRing, ring'.contents = frames ∧
      x.round = { x with ring := ring' }.route room (cutFrame frame) := by
  obtain ⟨ring', hr, hrest⟩ := posixRecvRaw_cons hc
  refine ⟨ring', hrest, ?_⟩
  rw [MqttPeer.round, hcall]
  dsimp only
  rw [hr]

/-- `mqtt_set_enabled` takes the oldest frame out. -/
lemma round_discard {x : MqttPeer} {frame : MqttFrame} {frames : List MqttFrame}
    (hcall : x.call = some .discard) (hc : x.ring.contents = frame :: frames) :
    ∃ ring' : PosixRing, ring'.contents = frames ∧ x.round = ({ x with ring := ring' }, []) := by
  obtain ⟨ring', hr, hrest⟩ := posixRecvRaw_cons hc
  refine ⟨ring', hrest, ?_⟩
  rw [MqttPeer.round, hcall]
  dsimp only
  rw [hr]

/-! ### A call without interruption -/

/-- Some rounds in a row, with the messages they put into the output. -/
def MqttPeer.rounds : ℕ → MqttPeer → MqttPeer × List (List Char)
  | 0, x => (x, [])
  | k + 1, x =>
      let r := x.round
      let r' := rounds k r.1
      (r'.1, r.2 ++ r'.2)

/-- Rounds outside a call do nothing. -/
lemma rounds_idle {x : MqttPeer} (h : x.call = none) (k : ℕ) : x.rounds k = (x, []) := by
  induction k with
  | zero => rfl
  | succ k ih =>
      have hround : x.round = (x, []) := by rw [MqttPeer.round, h]
      rw [MqttPeer.rounds, hround, ih]
      rfl

/-- A call has ended with what `mqtt_recv` over a list of frames leaves. -/
structure Finished (r : MqttPeer × List (List Char)) (received : MqttTransport.Received) :
    Prop where
  call : r.1.call = none
  mqtt : r.1.mqtt = received.mqtt
  messages : r.2 = received.messages
  frames : r.1.ring.contents.map cutFrame = received.frames

/-- **A call that is not interrupted** is `mqtt_recv` over the list of the frames in the ring. -/
theorem rounds_recv {k : ℕ} : ∀ {x : MqttPeer} {room : ℕ}, x.call = some (.recv room) →
    x.ring.contents.length < k →
    Finished (x.rounds k) (x.mqtt.recv room (x.ring.contents.map cutFrame)) := by
  induction k with
  | zero => exact fun _ hk => absurd hk (Nat.not_lt_zero _)
  | succ k ih =>
      intro x room hcall hk
      cases room with
      | zero =>
          have hround : x.round = ({ x with call := none }, []) := by rw [MqttPeer.round, hcall]
          have hstay : x.mqtt.recv 0 (x.ring.contents.map cutFrame) =
              { mqtt := x.mqtt, messages := [], frames := x.ring.contents.map cutFrame
                joins := [] } := by
            rw [MqttTransport.recv]
            cases x.ring.contents.map cutFrame <;> rfl
          rw [MqttPeer.rounds, hround, hstay]
          dsimp only
          rw [rounds_idle rfl]
          exact ⟨rfl, rfl, rfl, rfl⟩
      | succ room =>
          cases hc : x.ring.contents with
          | nil =>
              obtain ⟨ring', hnil, hround⟩ := round_nil hcall hc
              rw [MqttPeer.rounds, hround]
              dsimp only
              rw [rounds_idle rfl]
              refine ⟨rfl, rfl, rfl, ?_⟩
              rw [List.append_nil, hnil]
              rfl
          | cons frame frames =>
              obtain ⟨ring', hrest, hround⟩ := round_recv hcall hc
              have hlen : ring'.contents.length < k := by
                rw [hrest]
                rw [hc, List.length_cons] at hk
                omega
              have hnext : ∀ (y : MqttPeer) (room : ℕ), y.ring = ring' →
                  y.call = some (.recv room) →
                  Finished (y.rounds k) (y.mqtt.recv room (frames.map cutFrame)) := by
                intro y room hring hy
                have hfin := ih hy (by rw [hring]; exact hlen)
                rwa [hring, hrest] at hfin
              rw [MqttPeer.rounds, hround, List.map_cons, MqttTransport.recv,
                MqttTransport.recvLoop, MqttPeer.route]
              dsimp only
              split_ifs with hinbox henabled hjoin
              · obtain ⟨h1, h2, h3, h4⟩ :=
                  hnext { x with ring := ring', call := some (.recv room) } room rfl rfl
                exact ⟨h1, h2, congrArg (List.cons _) h3, h4⟩
              · exact hnext { x with ring := ring', call := some (.recv (room + 1)) } (room + 1)
                  rfl rfl
              · obtain ⟨h1, h2, h3, h4⟩ := hnext { x with
                  ring := ring', mqtt := x.mqtt.queueJoin (cutFrame frame).payload
                  call := some (.recv (room + 1)) } (room + 1) rfl rfl
                exact ⟨h1, h2, h3, h4⟩
              · exact hnext { x with ring := ring', call := some (.recv (room + 1)) } (room + 1)
                  rfl rfl

/-- A peer in the middle of a call, with a frame for another node and a message in its ring. -/
def busyPeer : MqttPeer :=
  let x := MqttPeer.init "c".toList "n1".toList
  let ring := posixEventCb x.ring { topic := "raft/c/n2".toList, payload := ['a'] }
  { x with
    ring := posixEventCb ring
      { topic := "raft/c/n1".toList, payload := List.replicate messageSize 'm' }
    call := some (.recv 4) }

theorem rounds_recv_two :
    (busyPeer.call = some (.recv 4) ∧ busyPeer.ring.contents.length < 3) ∧
      Finished (busyPeer.rounds 3)
        (busyPeer.mqtt.recv 4 (busyPeer.ring.contents.map cutFrame)) := by
  have hlen : busyPeer.ring.contents.length < 3 := by
    rw [Ring.length_contents]
    decide +kernel
  exact ⟨⟨rfl, hlen⟩, rounds_recv rfl hlen⟩

/-! ### Runs -/

/-- A transport, with the messages that arrived for its inbox and those that were handed out. -/
structure MqttLedger where
  peer : MqttPeer
  arrived : List (List Char)
  handed : List (List Char)

namespace MqttLedger

/-- Nothing has arrived yet. -/
def start (clusterId nodeId : CString) : MqttLedger :=
  { peer := MqttPeer.init clusterId nodeId, arrived := [], handed := [] }

/-- The message an act brings for the inbox. -/
def brought (x : MqttPeer) : MqttAct → List (List Char)
  | .arrive frame => (inboxMessage x.mqtt.inboxTopic frame).toList
  | _ => []

/-- One act. -/
def exec (l : MqttLedger) (act : MqttAct) : MqttLedger :=
  let r := l.peer.exec act
  { peer := r.1, arrived := l.arrived ++ brought l.peer act, handed := l.handed ++ r.2 }

/-- A run of acts. -/
def run (l : MqttLedger) (acts : List MqttAct) : MqttLedger := acts.foldl exec l

/-- The account of the inbox. -/
def account (l : MqttLedger) : Mailbox (List Char) :=
  { accepted := l.arrived, handed := l.handed, held := l.peer.held }

end MqttLedger

/-- The message in the oldest frame, if it is one for the inbox. -/
def MqttPeer.first (x : MqttPeer) : Option (List Char) :=
  x.ring.contents.head?.bind (inboxMessage x.mqtt.inboxTopic)

/-- Nothing is lost for the inbox: a message that arrives finds room in the ring, and a message that
is taken out is taken out by `mqtt_recv` of an enabled transport. -/
def MqttAct.Keeps (x : MqttPeer) : MqttAct → Prop
  | .arrive frame => inboxMessage x.mqtt.inboxTopic frame ≠ none →
      x.ring.contents.length < maxQueue
  | .round => x.first ≠ none → x.call ≠ some .discard ∧
      ∀ room, x.call = some (.recv (room + 1)) → x.mqtt.enabled = true
  | _ => True

namespace MqttLedger

variable {l : MqttLedger}

/-! ### One act -/

/-- **A frame** that arrives. -/
lemma outcome_arrive (l : MqttLedger) (frame : MqttFrame) :
    Outcome (MqttAct.Keeps l.peer (.arrive frame)) l.account (l.exec (.arrive frame)).account := by
  obtain ⟨slot, hslot, hcontents⟩ := contents_eventCb l.peer.ring frame
  have hmsg : inboxMessage l.peer.mqtt.inboxTopic slot =
      inboxMessage l.peer.mqtt.inboxTopic frame := inboxMessage_congr hslot
  have hheld : (l.exec (.arrive frame)).account.held =
      (if l.peer.ring.contents.length < maxQueue then l.peer.ring.contents ++ [slot]
        else l.peer.ring.contents).filterMap (inboxMessage l.peer.mqtt.inboxTopic) :=
    congrArg (List.filterMap _) hcontents
  have hacc : (l.exec (.arrive frame)).account =
      { accepted := l.arrived ++ (inboxMessage l.peer.mqtt.inboxTopic frame).toList
        handed := l.handed ++ [], held := (l.exec (.arrive frame)).account.held } := rfl
  rw [hacc, hheld, List.append_nil]
  cases hin : inboxMessage l.peer.mqtt.inboxTopic frame with
  | none =>
      refine outcome_of_eq (fun h => absurd hin h) ?_
      rw [Option.toList_none, List.append_nil]
      split_ifs with hroom
      · rw [List.filterMap_append, List.filterMap_cons, hmsg, hin, List.filterMap_nil,
          List.append_nil]
        rfl
      · rfl
  | some msg =>
      rw [Option.toList_some]
      split_ifs with hroom
      · refine Or.inl ⟨fun _ => hroom, ?_⟩
        rw [List.filterMap_append, List.filterMap_cons, hmsg, hin]
        exact Passes.post msg
      · refine Or.inr ⟨fun h => hroom (h (by rw [hin]; exact Option.some_ne_none msg)), ?_⟩
        exact Drops.turnAway msg

lemma first_cons {x : MqttPeer} {frame : MqttFrame} {frames : List MqttFrame}
    (h : x.ring.contents = frame :: frames) :
    x.first = inboxMessage x.mqtt.inboxTopic frame := by
  rw [MqttPeer.first, h]
  rfl

/-- What is left of the messages in the ring when the oldest frame was taken out. -/
lemma held_tail (x : MqttPeer) {ring : PosixRing} {frame : MqttFrame} {frames : List MqttFrame}
    (h : x.ring.contents = frame :: frames) (hring : ring.contents = frames) :
    x.held = x.first.toList ++ ring.contents.filterMap (inboxMessage x.mqtt.inboxTopic) := by
  rw [MqttPeer.held, MqttPeer.first, h, hring, List.filterMap_cons]
  show _ = (inboxMessage x.mqtt.inboxTopic frame).toList ++ _
  cases inboxMessage x.mqtt.inboxTopic frame with
  | none => rfl
  | some msg => rfl

/-- A frame of the inbox in the loop of `mqtt_recv`. -/
lemma route_inbox {x : MqttPeer} {room : ℕ} {frame : MqttFrame} {msg : List Char}
    (h : inboxMessage x.mqtt.inboxTopic frame = some msg) :
    x.route room (cutFrame frame) =
      if x.mqtt.enabled then ({ x with call := some (.recv room) }, [msg])
      else ({ x with call := some (.recv (room + 1)) }, []) := by
  rw [inboxMessage] at h
  split_ifs at h with hinbox
  rw [MqttPeer.route, if_pos hinbox, Option.some.inj h]

/-- Any other frame puts nothing into the output. -/
lemma route_other {x : MqttPeer} {room : ℕ} {frame : MqttFrame}
    (h : inboxMessage x.mqtt.inboxTopic frame = none) :
    ((x.route room (cutFrame frame)).1.ring = x.ring ∧
      (x.route room (cutFrame frame)).1.mqtt.inboxTopic = x.mqtt.inboxTopic) ∧
      (x.route room (cutFrame frame)).2 = [] := by
  rw [inboxMessage] at h
  split_ifs at h with hinbox
  rw [MqttPeer.route, if_neg hinbox]
  split_ifs
  · exact ⟨⟨rfl, rfl⟩, rfl⟩
  · exact ⟨⟨rfl, rfl⟩, rfl⟩

lemma account_round {y : MqttPeer} {out : List (List Char)} (h : l.peer.round = (y, out)) :
    (l.exec .round).account =
      { accepted := l.arrived, handed := l.handed ++ out, held := y.held } := by
  have hexec : (l.exec .round).account =
      { accepted := l.arrived ++ [], handed := l.handed ++ l.peer.round.2
        held := l.peer.round.1.held } := rfl
  rw [hexec, h, List.append_nil]

/-- A round without output that leaves the messages in the ring as they are. -/
lemma outcome_still {keeps : Prop} {y : MqttPeer} (hkeeps : keeps) (h : l.peer.round = (y, []))
    (hheld : y.held = l.peer.held) : Outcome keeps l.account (l.exec .round).account := by
  refine outcome_of_eq hkeeps ?_
  rw [account_round h, hheld, List.append_nil]
  rfl

/-- A round that throws the oldest message away. -/
lemma outcome_lost {keeps : Prop} {y : MqttPeer} {msg : List Char} {msgs : List (List Char)}
    (hkeeps : ¬keeps) (h : l.peer.round = (y, [])) (hheld : l.peer.held = msg :: msgs)
    (hy : y.held = msgs) : Outcome keeps l.account (l.exec .round).account := by
  refine Or.inr ⟨hkeeps, ?_⟩
  have hlose : (l.exec .round).account = l.account.lose 1 := by
    rw [account_round h, Mailbox.lose, show l.account.held = msg :: msgs from hheld, hy,
      List.append_nil]
    rfl
  rw [hlose]
  exact Drops.lose 1 Nat.one_pos (by
    rw [show l.account.held = msg :: msgs from hheld]
    exact List.cons_ne_nil msg msgs)

/-- A round that hands the oldest message out. -/
lemma outcome_handed {keeps : Prop} {y : MqttPeer} {msg : List Char} {msgs : List (List Char)}
    (hkeeps : keeps) (h : l.peer.round = (y, [msg])) (hheld : l.peer.held = msg :: msgs)
    (hy : y.held = msgs) : Outcome keeps l.account (l.exec .round).account := by
  refine Or.inl ⟨hkeeps, ?_⟩
  have hover : (l.exec .round).account = l.account.handOver 1 := by
    rw [account_round h, Mailbox.handOver, show l.account.held = msg :: msgs from hheld, hy]
    rfl
  rw [hover]
  exact Passes.handOver 1

/-- A round of `mqtt_recv` that takes a frame out. -/
lemma outcome_recv {room : ℕ} {frame : MqttFrame} {frames : List MqttFrame}
    (hcall : l.peer.call = some (.recv (room + 1)))
    (hc : l.peer.ring.contents = frame :: frames) :
    Outcome (MqttAct.Keeps l.peer .round) l.account (l.exec .round).account := by
  obtain ⟨ring', hrest, hround⟩ := round_recv hcall hc
  have hheld := held_tail l.peer hc hrest
  have hfirst := first_cons hc
  cases hin : inboxMessage l.peer.mqtt.inboxTopic frame with
  | none =>
      obtain ⟨⟨hring, htopic⟩, hout⟩ :=
        @route_other { l.peer with ring := ring' } room _ hin
      rw [hin] at hfirst
      refine outcome_still (fun h => absurd hfirst h)
        (hround.trans (Prod.ext rfl hout)) ?_
      rw [hheld, hfirst, MqttPeer.held, hring, htopic]
      rfl
  | some msg =>
      have hroute := @route_inbox { l.peer with ring := ring' } room _ _ hin
      rw [hfirst, hin] at hheld
      by_cases henabled : l.peer.mqtt.enabled = true
      · refine outcome_handed (fun _ => ⟨?_, fun _ _ => henabled⟩)
          ((hround.trans hroute).trans (if_pos henabled)) hheld rfl
        rw [hcall]
        exact fun h => by injection h with h; injection h
      · refine outcome_lost (fun h => henabled ((h ?_).2 room hcall))
          ((hround.trans hroute).trans (if_neg henabled)) hheld rfl
        rw [hfirst, hin]
        exact Option.some_ne_none msg

/-- A round of `mqtt_set_enabled` that takes a frame out. -/
lemma outcome_discard {frame : MqttFrame} {frames : List MqttFrame}
    (hcall : l.peer.call = some .discard) (hc : l.peer.ring.contents = frame :: frames) :
    Outcome (MqttAct.Keeps l.peer .round) l.account (l.exec .round).account := by
  obtain ⟨ring', hrest, hround⟩ := round_discard hcall hc
  have hheld := held_tail l.peer hc hrest
  have hfirst := first_cons hc
  cases hin : inboxMessage l.peer.mqtt.inboxTopic frame with
  | none =>
      rw [hin] at hfirst
      refine outcome_still (fun h => absurd hfirst h) hround ?_
      rw [hheld, hfirst]
      rfl
  | some msg =>
      rw [hfirst, hin] at hheld
      refine outcome_lost (fun h => (h ?_).1 hcall) hround hheld rfl
      rw [hfirst, hin]
      exact Option.some_ne_none msg

/-- **A round** of a call. -/
lemma outcome_round (l : MqttLedger) :
    Outcome (MqttAct.Keeps l.peer .round) l.account (l.exec .round).account := by
  have hidle : ∀ y, l.peer.round = (y, []) → y.held = l.peer.held →
      (∀ call, l.peer.call = some call → call = .recv 0) →
      Outcome (MqttAct.Keeps l.peer .round) l.account (l.exec .round).account := by
    intro y hround hheld hcall
    refine outcome_still (fun _ => ⟨fun h => ?_, fun room h => ?_⟩) hround hheld
    · exact absurd (hcall _ h) (by simp)
    · exact absurd (hcall _ h) (by simp)
  cases hcall : l.peer.call with
  | none =>
      refine hidle l.peer (by rw [MqttPeer.round, hcall]) rfl ?_
      rw [hcall]
      exact fun call h => absurd h (by simp)
  | some call =>
      cases hc : l.peer.ring.contents with
      | nil =>
          obtain ⟨ring', hnil, hround⟩ := round_nil hcall hc
          have hfirst : l.peer.first = none := by rw [MqttPeer.first, hc]; rfl
          refine outcome_still (fun h => absurd hfirst h) hround ?_
          rw [MqttPeer.held, MqttPeer.held, hnil, hc]
      | cons frame frames =>
          cases call with
          | recv room =>
              cases room with
              | zero =>
                  refine hidle { l.peer with call := none } (by rw [MqttPeer.round, hcall]) rfl ?_
                  rw [hcall]
                  exact fun call h => (Option.some.inj h).symm
              | succ room => exact outcome_recv hcall hc
          | discard => exact outcome_discard hcall hc

/-- The ring and the topic of the inbox stay as they are. -/
lemma account_eq {y : MqttPeer} (hring : y.ring = l.peer.ring)
    (htopic : y.mqtt.inboxTopic = l.peer.mqtt.inboxTopic) :
    MqttLedger.account { peer := y, arrived := l.arrived ++ [], handed := l.handed ++ [] } =
      l.account := by
  simp only [account, MqttPeer.held, hring, htopic, List.append_nil]

/-- **One act** passes or drops, according to whether it keeps the messages for the inbox. -/
lemma outcome_exec (l : MqttLedger) (act : MqttAct) :
    Outcome (act.Keeps l.peer) l.account (l.exec act).account := by
  cases act with
  | arrive frame => exact outcome_arrive l frame
  | recv capacity =>
      refine outcome_of_eq trivial (account_eq ?_ ?_) <;>
        rw [MqttPeer.exec] <;> split_ifs <;> rfl
  | round => exact outcome_round l
  | recvJoins capacity =>
      refine outcome_of_eq trivial (account_eq ?_ ?_)
      · rw [MqttPeer.exec]
        split_ifs <;> rfl
      · rw [MqttPeer.exec]
        split_ifs
        · rw [MqttTransport.recvJoins, MqttTransport.activated]
          split_ifs <;> rfl
        · rfl
  | setEnabled enabled =>
      refine outcome_of_eq trivial (account_eq ?_ ?_) <;>
        rw [MqttPeer.exec] <;> split_ifs <;> rfl

end MqttLedger

/-! ### Whole runs -/

/-- **The inbox of the MQTT transport**: in every run of frames that arrive and of calls of the
program, the messages that `mqtt_recv` handed out, followed by those in the ring, are messages that
arrived for the inbox, in the order in which they arrived and none of them twice; nothing is missing
exactly if no act turned one away or threw one away. -/
theorem mqtt_delivers_iff (clusterId nodeId : CString) (acts : List MqttAct) :
    ((((MqttLedger.start clusterId nodeId).run acts).handed ++
        ((MqttLedger.start clusterId nodeId).run acts).peer.held).Sublist
      ((MqttLedger.start clusterId nodeId).run acts).arrived) ∧
    (((MqttLedger.start clusterId nodeId).run acts).handed ++
        ((MqttLedger.start clusterId nodeId).run acts).peer.held =
      ((MqttLedger.start clusterId nodeId).run acts).arrived ↔
      Mailbox.AllKeep MqttLedger.exec (fun l act => act.Keeps l.peer)
        (MqttLedger.start clusterId nodeId) acts) := by
  have hempty : (MqttLedger.start clusterId nodeId).account =
      { accepted := [], handed := [], held := [] } := by
    rw [MqttLedger.account, MqttPeer.held]
    show Mailbox.mk [] [] (posixRing.contents.filterMap _) = _
    rw [contents_posixRing, List.filterMap_nil]
  have hfaithful : (MqttLedger.start clusterId nodeId).account.Faithful := by
    rw [hempty]
    exact List.Sublist.refl []
  have hbalanced : (MqttLedger.start clusterId nodeId).account.Balanced := by
    rw [hempty]
    rfl
  exact ⟨Mailbox.faithful_run MqttLedger.outcome_exec acts hfaithful,
    Mailbox.balanced_run_iff MqttLedger.outcome_exec acts hbalanced⟩

end RaftRx.C
