import RaftRx.C.PeerTable
import RaftRx.Library.Mailbox
import RaftRx.Library.Streams
import RaftRx.Library.Words

/-!
Frames and queues of the TCP transport (`raft_tcp_transport.c`).

Every message, join request and forwarded command travels on a connection of its own: a header of
three numbers and then the bytes of the struct.  The listener reads both, in whatever pieces they
arrive, and puts the struct into the queue of its type.

* `TcpFrame`, `sendFrame`, `tcpSend`: the sender;
* `serveClient`: what the listener does with a connection;
* `frameIn`, `frameIn_eq_some_iff`: the frame some bytes begin with, and what it looks like;
* `serveClient_eq`: the listener takes the frame of the bytes, however they are cut;
* `frames_delivered`: what is sent completely arrives, what is cut off is ignored;
* `tcp_delivers_iff`: over a run, a queue hands out what arrived for it exactly if nothing is turned
  away or dropped.
-/

namespace RaftRx.C

open Mailbox (Outcome Passes Drops outcome_of_eq outcome_empty)
open Streams (Pieces writeFull)
open Words (encode decode)

/-! ### Frames -/

/-- A struct as it lies in memory. -/
abbrev Bytes := List UInt8

/-- `TCP_MAGIC` -/
def tcpMagic : ℕ := 0x52414654

/-- `TCP_TYPE_RAFT`, `TCP_TYPE_JOIN`, `TCP_TYPE_CMD` -/
inductive TcpType where
  | raft | join | cmd
  deriving DecidableEq, Repr

/-- The number of a type. -/
def TcpType.code : TcpType → ℕ
  | .raft => 0
  | .join => 1
  | .cmd => 3

/-- `raft_tcp_frame_t` -/
structure TcpFrame where
  magic : ℕ
  type : ℕ
  size : ℕ
  deriving DecidableEq, Repr

/-- `sizeof(raft_tcp_frame_t)` -/
def frameSize : ℕ := 12

/-- A header in memory. -/
def TcpFrame.bytes (frame : TcpFrame) : Bytes :=
  encode 4 frame.magic ++ (encode 4 frame.type ++ encode 4 frame.size)

/-- The header some bytes stand for. -/
def TcpFrame.ofBytes (bytes : Bytes) : TcpFrame :=
  { magic := decode (bytes.take 4), type := decode ((bytes.drop 4).take 4)
    size := decode (bytes.drop 8) }

/-- The sizes of the structs, all below `2 ^ 32`. -/
structure StructSizes where
  message : ℕ
  joinReq : ℕ
  command : ℕ
  small : message < 256 ^ 4 ∧ joinReq < 256 ^ 4 ∧ command < 256 ^ 4

/-- The size of the struct of a type. -/
def StructSizes.of (sizes : StructSizes) : TcpType → ℕ
  | .raft => sizes.message
  | .join => sizes.joinReq
  | .cmd => sizes.command

/-- The header in front of a struct. -/
def headerOf (type : TcpType) (payload : Bytes) : TcpFrame :=
  { magic := tcpMagic, type := type.code, size := payload.length }

/-- A struct with its header. -/
def wire (type : TcpType) (payload : Bytes) : Bytes := (headerOf type payload).bytes ++ payload

/-! ### The sender -/

/-- The two calls of `send_full`: what was written to the connection, and whether both succeeded.
The lists are what the calls of `send` take. -/
def sendFrame (headerSends payloadSends : List ℕ) (type : TcpType) (payload : Bytes) :
    Bytes × Bool :=
  let header := writeFull headerSends (headerOf type payload).bytes
  if header.2 then
    let rest := writeFull payloadSends payload
    (header.1 ++ rest.1, rest.2)
  else header

/-- `tcp_send`: whether it returned `0`, and the address it wrote to with what it wrote.  `connects`
says whether a connection to an address is made. -/
def tcpSend (enabled : Bool) (peers : List TcpPeer) (connects : CString → ℤ → Bool)
    (headerSends payloadSends : List ℕ) (target : CString) (msg : Bytes) :
    Bool × Option (CString × ℤ × Bytes) :=
  if enabled then
    match peers.find? fun p => decide (p.id = target) with
    | none => (false, none)
    | some p =>
        if connects p.host p.port then
          let sent := sendFrame headerSends payloadSends .raft msg
          (sent.2, some (p.host, p.port, sent.1))
        else (false, none)
  else (true, none)

/-! ### The queues -/

/-- `in_queue`, `join_queue`, `cmd_queue`, `fwd_cmd_queue` -/
inductive TcpQueue where
  | inQueue | joinQueue | cmdQueue | fwdCmdQueue
  deriving DecidableEq, Repr

/-- How much a queue holds. -/
def TcpQueue.size : TcpQueue → ℕ
  | .joinQueue => maxNodes
  | _ => maxQueue

/-- The queue of a type. -/
def TcpType.queue : TcpType → TcpQueue
  | .raft => .inQueue
  | .join => .joinQueue
  | .cmd => .fwdCmdQueue

/-- The part of `raft_tcp_transport_t` that frames and calls change: of each queue what its count
says is in use. -/
structure TcpState where
  queues : TcpQueue → List Bytes
  enabled : Bool

namespace TcpState

/-- `raft_tcp_transport_init` -/
def init : TcpState := { queues := fun _ => [], enabled := true }

/-- An item for a queue, if it has room. -/
def push (tcp : TcpState) (queue : TcpQueue) (item : Bytes) : TcpState :=
  if (tcp.queues queue).length < queue.size then
    { tcp with queues := Function.update tcp.queues queue (tcp.queues queue ++ [item]) }
  else tcp

/-- `recv_full` into a struct: its bytes, if they all arrive. -/
def recvStruct (client : Pieces UInt8) (size : ℕ) : Option Bytes :=
  (client.readFull size).map Prod.fst

/-- The connection of one client in `tcp_listener_thread`. -/
def serveClient (sizes : StructSizes) (tcp : TcpState) (client : Pieces UInt8) : TcpState :=
  match client.readFull frameSize with
  | none => tcp
  | some (bytes, client) =>
      let header := TcpFrame.ofBytes bytes
      if header.magic ≠ tcpMagic then tcp
      else if header.type = TcpType.join.code then
        if header.size ≠ sizes.joinReq then tcp
        else
          match recvStruct client sizes.joinReq with
          | none => tcp
          | some jr => tcp.push .joinQueue jr
      else if header.type = TcpType.cmd.code then
        if header.size ≠ sizes.command then tcp
        else
          match recvStruct client sizes.command with
          | none => tcp
          | some cmd => tcp.push .fwdCmdQueue cmd
      else if header.type ≠ TcpType.raft.code ∨ header.size ≠ sizes.message then tcp
      else
        match recvStruct client sizes.message with
        | none => tcp
        | some msg => if tcp.enabled then tcp.push .inQueue msg else tcp

/-- A drain that leaves the queue alone when it copies nothing. -/
def drain (tcp : TcpState) (queue : TcpQueue) (capacity : ℕ) : TcpState × List Bytes :=
  let out := (tcp.queues queue).take capacity
  if out = [] then (tcp, [])
  else ({ tcp with queues := Function.update tcp.queues queue [] }, out)

/-- `tcp_recv` -/
def recv (tcp : TcpState) (capacity : ℕ) : TcpState × List Bytes := tcp.drain .inQueue capacity

/-- `raft_tcp_transport_recv_joins` -/
def recvJoins (tcp : TcpState) (capacity : ℕ) : TcpState × List Bytes :=
  tcp.drain .joinQueue capacity

/-- `raft_tcp_transport_recv_fwd_cmds` -/
def recvFwdCmds (tcp : TcpState) (capacity : ℕ) : TcpState × List Bytes :=
  tcp.drain .fwdCmdQueue capacity

/-- `tcp_submit_command`, and whether it returned `0`. -/
def submitCommand (tcp : TcpState) (cmd : Bytes) : TcpState × Bool :=
  (tcp.push .cmdQueue cmd, decide ((tcp.queues .cmdQueue).length < maxQueue))

/-- `tcp_recv_commands`: the count is set to zero whatever is copied. -/
def recvCommands (tcp : TcpState) (capacity : ℕ) : TcpState × List Bytes :=
  ({ tcp with queues := Function.update tcp.queues .cmdQueue [] },
    (tcp.queues .cmdQueue).take capacity)

/-- `tcp_set_enabled` -/
def setEnabled (tcp : TcpState) (enabled : Bool) : TcpState :=
  if enabled then { tcp with enabled := true }
  else
    { queues := Function.update (Function.update tcp.queues .inQueue []) .cmdQueue []
      enabled := false }

/-- A frame that was read completely. -/
def accept (tcp : TcpState) (type : TcpType) (payload : Bytes) : TcpState :=
  if type = .raft ∧ tcp.enabled = false then tcp else tcp.push type.queue payload

end TcpState

/-! ### What some bytes begin with -/

/-- The type of a number. -/
def TcpType.ofCode (code : ℕ) : Option TcpType :=
  [TcpType.raft, TcpType.join, TcpType.cmd].find? fun type => decide (type.code = code)

/-- The complete frame some bytes begin with. -/
def frameIn (sizes : StructSizes) (bytes : Bytes) : Option (TcpType × Bytes) :=
  let header := TcpFrame.ofBytes (bytes.take frameSize)
  if frameSize ≤ bytes.length ∧ header.magic = tcpMagic then
    (TcpType.ofCode header.type).bind fun type =>
      if header.size = sizes.of type ∧ sizes.of type ≤ (bytes.drop frameSize).length then
        some (type, (bytes.drop frameSize).take (sizes.of type))
      else none
  else none

lemma TcpFrame.length_bytes (frame : TcpFrame) : frame.bytes.length = frameSize := by
  simp only [TcpFrame.bytes, List.length_append, Words.length_encode, frameSize]

/-- A header whose numbers fit is read back. -/
lemma TcpFrame.ofBytes_bytes {frame : TcpFrame} (hm : frame.magic < 256 ^ 4)
    (ht : frame.type < 256 ^ 4) (hs : frame.size < 256 ^ 4) :
    TcpFrame.ofBytes frame.bytes = frame := by
  rw [TcpFrame.ofBytes, TcpFrame.bytes, List.take_left' (Words.length_encode 4 _),
    List.drop_left' (Words.length_encode 4 _), List.take_left' (Words.length_encode 4 _),
    ← List.append_assoc, List.drop_left' (by simp), Words.decode_encode 4 _ hm,
    Words.decode_encode 4 _ ht, Words.decode_encode 4 _ hs]

/-- A header that was read has the bytes it was read from. -/
lemma TcpFrame.bytes_ofBytes {bytes : Bytes} (h : bytes.length = frameSize) :
    (TcpFrame.ofBytes bytes).bytes = bytes := by
  have hword : ∀ {bs : Bytes}, bs.length = 4 → encode 4 (decode bs) = bs := by
    intro bs hbs
    conv_rhs => rw [← Words.encode_decode bs, hbs]
  rw [frameSize] at h
  have h1 : (bytes.take 4).length = 4 := by rw [List.length_take, h]; rfl
  have h2 : ((bytes.drop 4).take 4).length = 4 := by
    rw [List.length_take, List.length_drop, h]
    rfl
  have h3 : (bytes.drop 8).length = 4 := by rw [List.length_drop, h]
  calc (TcpFrame.ofBytes bytes).bytes
      = bytes.take 4 ++ ((bytes.drop 4).take 4 ++ bytes.drop 8) := by
        rw [TcpFrame.bytes, TcpFrame.ofBytes, hword h1, hword h2, hword h3]
    _ = bytes.take 4 ++ bytes.drop 4 := by
        rw [show bytes.drop 8 = (bytes.drop 4).drop 4 by rw [List.drop_drop],
          List.take_append_drop]
    _ = bytes := List.take_append_drop 4 bytes

lemma TcpType.code_lt (type : TcpType) : type.code < 256 ^ 4 := by
  cases type <;> simp [TcpType.code]

@[simp] lemma TcpType.ofCode_code (type : TcpType) : TcpType.ofCode type.code = some type := by
  cases type <;> rfl

lemma TcpType.code_of_ofCode {code : ℕ} {type : TcpType} (h : TcpType.ofCode code = some type) :
    type.code = code := by
  have hp := List.find?_some h
  exact of_decide_eq_true hp

lemma StructSizes.of_lt (sizes : StructSizes) (type : TcpType) : sizes.of type < 256 ^ 4 := by
  obtain ⟨hm, hj, hc⟩ := sizes.small
  cases type with
  | raft => exact hm
  | join => exact hj
  | cmd => exact hc

variable {sizes : StructSizes} {bytes payload : Bytes} {type : TcpType}

lemma ofBytes_headerOf (h : payload.length = sizes.of type) :
    TcpFrame.ofBytes (headerOf type payload).bytes = headerOf type payload :=
  TcpFrame.ofBytes_bytes (by simp [headerOf, tcpMagic]) type.code_lt
    (h.trans_lt (sizes.of_lt type))

/-- **The format of a frame**: bytes begin with the complete frame of a struct if and only if they
begin with its header and its bytes. -/
theorem frameIn_eq_some_iff : frameIn sizes bytes = some (type, payload) ↔
    payload.length = sizes.of type ∧ wire type payload <+: bytes := by
  constructor
  · intro h
    rw [frameIn] at h
    split at h
    · rename_i hhead
      obtain ⟨hlen, hmagic⟩ := hhead
      obtain ⟨type', hcode, h⟩ := Option.bind_eq_some_iff.mp h
      split at h
      · rename_i hsize
        obtain ⟨hsize, hrest⟩ := hsize
        simp only [Option.some.injEq, Prod.mk.injEq] at h
        obtain ⟨rfl, rfl⟩ := h
        have hpay : ((bytes.drop frameSize).take (sizes.of type')).length = sizes.of type' := by
          rw [List.length_take]
          omega
        have hheader : headerOf type' ((bytes.drop frameSize).take (sizes.of type')) =
            TcpFrame.ofBytes (bytes.take frameSize) := by
          rw [headerOf, hpay, ← hmagic, ← hsize, TcpType.code_of_ofCode hcode]
        refine ⟨hpay, (bytes.drop frameSize).drop (sizes.of type'), ?_⟩
        calc wire type' ((bytes.drop frameSize).take (sizes.of type')) ++
              (bytes.drop frameSize).drop (sizes.of type')
            = bytes.take frameSize ++ bytes.drop frameSize := by
              rw [wire, hheader, TcpFrame.bytes_ofBytes (by rw [List.length_take]; omega),
                List.append_assoc, List.take_append_drop]
          _ = bytes := List.take_append_drop frameSize bytes
      · exact absurd h (by simp)
    · exact absurd h (by simp)
  · rintro ⟨hpay, rest, rfl⟩
    have hhead := (headerOf type payload).length_bytes
    have htake : (wire type payload ++ rest).take frameSize = (headerOf type payload).bytes := by
      rw [wire, List.append_assoc, List.take_left' hhead]
    have hdrop : (wire type payload ++ rest).drop frameSize = payload ++ rest := by
      rw [wire, List.append_assoc, List.drop_left' hhead]
    have hlen : frameSize ≤ (wire type payload ++ rest).length := by
      rw [wire, List.length_append, List.length_append, hhead]
      omega
    rw [frameIn, htake, hdrop, ofBytes_headerOf hpay, if_pos ⟨hlen, rfl⟩]
    show (TcpType.ofCode type.code).bind _ = _
    rw [TcpType.ofCode_code, Option.bind_some, if_pos ⟨hpay, by rw [List.length_append]; omega⟩,
      List.take_left' hpay]

/-! ### The listener -/

lemma TcpState.recvStruct_eq (client : Pieces UInt8) (size : ℕ) :
    TcpState.recvStruct client size =
      if size ≤ client.content.length then some (client.content.take size) else none := by
  rw [TcpState.recvStruct]
  rcases client.readFull_cases size with ⟨hnone, hlt⟩ | ⟨rest, hsome, -, hle⟩
  · rw [hnone, if_neg (not_le.mpr hlt)]
    rfl
  · rw [hsome, if_pos hle]
    rfl

/-- The rest of a connection behind a header of a type: the struct is taken if the size is right and
all of it arrives. -/
lemma serve_struct {tcp : TcpState} {rest : Pieces UInt8} (size : ℕ) (type : TcpType)
    {take : Bytes → TcpState} (htake : ∀ payload, take payload = tcp.accept type payload) :
    (if size ≠ sizes.of type then tcp
      else
        match TcpState.recvStruct rest (sizes.of type) with
        | none => tcp
        | some payload => take payload) =
      match (if size = sizes.of type ∧ sizes.of type ≤ rest.content.length then
          some (type, rest.content.take (sizes.of type)) else none) with
      | none => tcp
      | some (type, payload) => tcp.accept type payload := by
  rw [TcpState.recvStruct_eq]
  by_cases hsize : size = sizes.of type
  · rw [if_neg (not_not.mpr hsize)]
    by_cases hle : sizes.of type ≤ rest.content.length
    · rw [if_pos hle, if_pos ⟨hsize, hle⟩]
      exact htake _
    · rw [if_neg hle, if_neg (fun h => hle h.2)]
  · rw [if_pos hsize, if_neg (fun h => hsize h.1)]

/-- **The listener takes the frame a connection begins with**, in whatever pieces it arrives, and
nothing else. -/
theorem serveClient_eq (sizes : StructSizes) (tcp : TcpState) (client : Pieces UInt8) :
    tcp.serveClient sizes client =
      match frameIn sizes client.content with
      | none => tcp
      | some (type, payload) => tcp.accept type payload := by
  rw [TcpState.serveClient]
  rcases client.readFull_cases frameSize with ⟨hnone, hlt⟩ | ⟨rest, hsome, hrest, hle⟩
  · have hno : frameIn sizes client.content = none := by
      rw [frameIn, if_neg (fun h => absurd h.1 (not_le.mpr hlt))]
    rw [hnone, hno]
  · rw [hsome, frameIn, ← hrest]
    dsimp only
    generalize TcpFrame.ofBytes (client.content.take frameSize) = header
    by_cases hmagic : header.magic = tcpMagic
    · have hhead : frameSize ≤ client.content.length ∧ header.magic = tcpMagic := ⟨hle, hmagic⟩
      rw [if_neg (not_not.mpr hmagic), if_pos hhead]
      cases hcode : TcpType.ofCode header.type with
      | none =>
          have hne : ∀ type, header.type ≠ TcpType.code type := by
            intro type heq
            rw [heq, TcpType.ofCode_code] at hcode
            exact absurd hcode (by simp)
          rw [if_neg (hne .join), if_neg (hne .cmd), if_pos (Or.inl (hne .raft))]
          rfl
      | some type =>
          rw [← TcpType.code_of_ofCode hcode, Option.bind_some]
          cases type with
          | join =>
              rw [if_pos rfl]
              refine serve_struct header.size .join fun payload => ?_
              rw [TcpState.accept, if_neg (by simp)]
              rfl
          | cmd =>
              rw [if_neg (by decide), if_pos rfl]
              refine serve_struct header.size .cmd fun payload => ?_
              rw [TcpState.accept, if_neg (by simp)]
              rfl
          | raft =>
              have hor : TcpType.raft.code ≠ TcpType.raft.code ∨ header.size ≠ sizes.message ↔
                  header.size ≠ sizes.message := by simp
              rw [if_neg (by decide), if_neg (by decide), if_congr hor rfl rfl]
              refine serve_struct header.size .raft fun payload => ?_
              cases henabled : tcp.enabled with
              | true =>
                  rw [TcpState.accept, henabled, if_pos rfl, if_neg (by simp)]
                  rfl
              | false => rw [TcpState.accept, henabled, if_neg (by simp), if_pos ⟨rfl, rfl⟩]
    · rw [if_pos hmagic, if_neg (fun h => hmagic h.2)]

/-! ### Sender and listener -/

/-- What was written is a beginning of the frame, and all of it exactly if both calls succeeded. -/
lemma sendFrame_spec (headerSends payloadSends : List ℕ) (type : TcpType) (payload : Bytes) :
    (sendFrame headerSends payloadSends type payload).1 <+: wire type payload ∧
      ((sendFrame headerSends payloadSends type payload).2 = true ↔
        (sendFrame headerSends payloadSends type payload).1 = wire type payload) := by
  have hheader := Streams.writeFull_isPrefix headerSends (headerOf type payload).bytes
  have hhok := Streams.writeFull_ok headerSends (headerOf type payload).bytes
  have hrest := Streams.writeFull_isPrefix payloadSends payload
  have hrok := Streams.writeFull_ok payloadSends payload
  rw [sendFrame]
  dsimp only
  split
  · rename_i hok
    rw [hhok.mp hok, wire]
    exact ⟨List.prefix_append_right_inj _ |>.mpr hrest, hrok.trans (List.append_right_inj _).symm⟩
  · rename_i hok
    refine ⟨hheader.trans (List.prefix_append _ _), fun h => absurd h hok, fun h => ?_⟩
    rw [h, wire] at hheader
    have hlen := hheader.length_le
    rw [List.length_append] at hlen
    obtain rfl : payload = [] := List.length_eq_zero_iff.mp (by omega)
    rw [wire, List.append_nil] at h
    exact hhok.mpr h

/-- A frame that begins another is that frame. -/
lemma wire_injective {type' : TcpType} {payload' : Bytes} (hp : payload.length = sizes.of type)
    (hp' : payload'.length = sizes.of type') (h : wire type' payload' <+: wire type payload) :
    type' = type ∧ payload' = payload := by
  have hself : frameIn sizes (wire type payload) = some (type, payload) :=
    frameIn_eq_some_iff.mpr ⟨hp, List.prefix_refl _⟩
  have hother : frameIn sizes (wire type payload) = some (type', payload') :=
    frameIn_eq_some_iff.mpr ⟨hp', h⟩
  rw [hself, Option.some.injEq, Prod.mk.injEq] at hother
  exact ⟨hother.1.symm, hother.2.symm⟩

/-- **A connection delivers its struct or nothing**: whatever the calls of `send` take, wherever the
connection breaks off and in whatever pieces the rest arrives, the listener takes the struct if the
sender reported success and all of it arrives, and otherwise ignores the connection. -/
theorem frames_delivered (sizes : StructSizes) (tcp : TcpState) (type : TcpType) (payload : Bytes)
    (hp : payload.length = sizes.of type) (headerSends payloadSends : List ℕ) (cut : ℕ)
    (client : Pieces UInt8)
    (hclient : client.content = (sendFrame headerSends payloadSends type payload).1.take cut) :
    tcp.serveClient sizes client =
      if (sendFrame headerSends payloadSends type payload).2 = true ∧
          (wire type payload).length ≤ cut then
        tcp.accept type payload
      else tcp := by
  obtain ⟨hpre, hok⟩ := sendFrame_spec headerSends payloadSends type payload
  rw [serveClient_eq]
  split_ifs with hall
  · have hwire : client.content = wire type payload := by
      rw [hclient, hok.mp hall.1, List.take_of_length_le hall.2]
    rw [hwire, frameIn_eq_some_iff.mpr ⟨hp, List.prefix_refl _⟩]
  · have hnone : frameIn sizes client.content = none := by
      rw [Option.eq_none_iff_forall_ne_some]
      rintro ⟨type', payload'⟩ hsome
      obtain ⟨hp', hcontent⟩ := frameIn_eq_some_iff.mp hsome
      have hin : client.content <+: wire type payload :=
        hclient ▸ (List.take_prefix _ _).trans hpre
      obtain ⟨rfl, rfl⟩ := wire_injective hp hp' (hcontent.trans hin)
      have heq : client.content = wire type' payload' :=
        hin.eq_of_length_le hcontent.length_le
      have hle : (wire type' payload').length ≤ cut := by
        rw [← heq, hclient]
        exact List.length_take_le _ _
      refine hall ⟨hok.mpr (hpre.eq_of_length_le ?_), hle⟩
      rw [← heq, hclient]
      exact List.length_take_le' _ _
    rw [hnone]

/-- Structs of one and two bytes. -/
def smallStructs : StructSizes := { message := 2, joinReq := 1, command := 1, small := by decide }

/-- A message of two bytes that arrives in three pieces. -/
def inThreePieces : Pieces UInt8 :=
  { parts := [(wire .raft [7, 8]).take 5, ((wire .raft [7, 8]).drop 5).take 8,
      (wire .raft [7, 8]).drop 13]
    nonempty := by decide }

/-- The message is in the queue once all of it has arrived. -/
theorem frames_delivered_three :
    (TcpState.init.serveClient smallStructs inThreePieces).queues .inQueue = [[7, 8]] := by
  have h := frames_delivered smallStructs TcpState.init .raft [7, 8] rfl [5, 7] [1, 1] 14
    inThreePieces (by decide)
  rw [h, if_pos (by decide)]
  rfl

/-- What `tcp_send` writes goes to the address the table has for the target. -/
lemma tcpSend_written {enabled ok : Bool} {peers : List TcpPeer} {connects : CString → ℤ → Bool}
    {headerSends payloadSends : List ℕ} {target host : CString} {port : ℤ} {msg written : Bytes}
    (h : tcpSend enabled peers connects headerSends payloadSends target msg =
      (ok, some (host, port, written))) :
    (∃ p ∈ peers, p.id = target ∧ p.host = host ∧ p.port = port) ∧
      (written, ok) = sendFrame headerSends payloadSends .raft msg := by
  rw [tcpSend] at h
  split at h
  · split at h
    · exact absurd h (by simp)
    · rename_i p hfind
      split at h
      · simp only [Prod.mk.injEq, Option.some.injEq] at h
        obtain ⟨rfl, rfl, rfl, rfl⟩ := h
        have hid := List.find?_some hfind
        exact ⟨⟨p, List.mem_of_find?_eq_some hfind, of_decide_eq_true hid, rfl, rfl⟩, rfl⟩
      · exact absurd h (by simp)
  · exact absurd h (by simp)

/-! ### Runs -/

/-- A connection of any client, or a call of the program. -/
inductive TcpAct where
  | connection (client : Pieces UInt8)
  | recv (capacity : ℕ)
  | recvJoins (capacity : ℕ)
  | recvFwdCmds (capacity : ℕ)
  | submit (cmd : Bytes)
  | recvCommands (capacity : ℕ)
  | setEnabled (enabled : Bool)

/-- The transport, with what arrived for each queue and what was handed out of it. -/
structure TcpLedger where
  tcp : TcpState
  arrived : TcpQueue → List Bytes
  handed : TcpQueue → List Bytes

namespace TcpLedger

/-- Nothing has arrived yet. -/
def start : TcpLedger := { tcp := TcpState.init, arrived := fun _ => [], handed := fun _ => [] }

/-- Items added for one queue. -/
def enter (book : TcpQueue → List Bytes) (queue : TcpQueue) (items : List Bytes) :
    TcpQueue → List Bytes :=
  Function.update book queue (book queue ++ items)

/-- A drain whose output is handed out. -/
def drained (l : TcpLedger) (queue : TcpQueue) (r : TcpState × List Bytes) : TcpLedger :=
  { l with tcp := r.1, handed := enter l.handed queue r.2 }

/-- One act. -/
def exec (sizes : StructSizes) (l : TcpLedger) : TcpAct → TcpLedger
  | .connection client =>
      { l with
        tcp := l.tcp.serveClient sizes client
        arrived := match frameIn sizes client.content with
          | none => l.arrived
          | some (type, payload) => enter l.arrived type.queue [payload] }
  | .recv capacity => l.drained .inQueue (l.tcp.recv capacity)
  | .recvJoins capacity => l.drained .joinQueue (l.tcp.recvJoins capacity)
  | .recvFwdCmds capacity => l.drained .fwdCmdQueue (l.tcp.recvFwdCmds capacity)
  | .submit cmd =>
      let r := l.tcp.submitCommand cmd
      { l with tcp := r.1, arrived := enter l.arrived .cmdQueue (if r.2 then [cmd] else []) }
  | .recvCommands capacity => l.drained .cmdQueue (l.tcp.recvCommands capacity)
  | .setEnabled enabled => { l with tcp := l.tcp.setEnabled enabled }

/-- The account of a queue. -/
def account (l : TcpLedger) (queue : TcpQueue) : Mailbox Bytes :=
  { accepted := l.arrived queue, handed := l.handed queue, held := l.tcp.queues queue }

end TcpLedger

/-- A drain of a queue copies everything that is in it, or nothing at all and leaves it there. -/
def DrainFits (held : List Bytes) (capacity : ℕ) : Prop := capacity = 0 ∨ held.length ≤ capacity

/-- Nothing is lost for the queue: a frame that arrives for it finds a transport that takes it and
has room, a drain is large enough, and switching the transport off finds the queue empty. -/
def TcpAct.Keeps (sizes : StructSizes) (tcp : TcpState) (queue : TcpQueue) : TcpAct → Prop
  | .connection client => ∀ type payload, frameIn sizes client.content = some (type, payload) →
      type.queue = queue →
      (type = .raft → tcp.enabled = true) ∧ (tcp.queues queue).length < queue.size
  | .recv capacity => queue = .inQueue → DrainFits (tcp.queues queue) capacity
  | .recvJoins capacity => queue = .joinQueue → DrainFits (tcp.queues queue) capacity
  | .recvFwdCmds capacity => queue = .fwdCmdQueue → DrainFits (tcp.queues queue) capacity
  | .submit _ => True
  | .recvCommands capacity => queue = .cmdQueue → (tcp.queues queue).length ≤ capacity
  | .setEnabled enabled => enabled = false → queue = .inQueue ∨ queue = .cmdQueue →
      tcp.queues queue = []

namespace TcpLedger

variable {l : TcpLedger} {queue : TcpQueue}

/-! ### One act -/

@[simp] lemma enter_self (book : TcpQueue → List Bytes) (queue : TcpQueue) (items : List Bytes) :
    enter book queue items queue = book queue ++ items := Function.update_self _ _ _

lemma enter_of_ne {book : TcpQueue → List Bytes} {queue queue' : TcpQueue} (h : queue ≠ queue')
    (items : List Bytes) : enter book queue' items queue = book queue :=
  Function.update_of_ne h _ _

/-- A queue is not touched by what is done to another one. -/
lemma queues_push_of_ne {tcp : TcpState} {queue' : TcpQueue} (h : queue ≠ queue') (item : Bytes) :
    (tcp.push queue' item).queues queue = tcp.queues queue := by
  rw [TcpState.push]
  split
  · exact Function.update_of_ne h _ _
  · rfl

/-- **A drain** into a buffer. -/
lemma outcome_drain (l : TcpLedger) (queue queue' : TcpQueue) (capacity : ℕ) :
    Outcome (queue = queue' → DrainFits (l.tcp.queues queue) capacity) (l.account queue)
      ((l.drained queue' (l.tcp.drain queue' capacity)).account queue) := by
  by_cases hq : queue = queue'
  · subst hq
    by_cases hout : (l.tcp.queues queue).take capacity = []
    · refine outcome_of_eq (fun _ => ?_) ?_
      · rcases List.take_eq_nil_iff.mp hout with hzero | hnil
        · exact Or.inl hzero
        · exact Or.inr (by rw [hnil]; exact Nat.zero_le _)
      · simp only [drained, TcpState.drain, if_pos hout, account, enter_self, List.append_nil]
    · refine outcome_empty capacity ?_ ?_
      · have hpos : capacity ≠ 0 := fun hzero => hout (by rw [hzero, List.take_zero])
        exact ⟨fun h => (h rfl).resolve_left hpos, fun h _ => Or.inr h⟩
      · simp only [drained, TcpState.drain, if_neg hout, account, enter_self, Mailbox.empty,
          Function.update_self]
  · refine outcome_of_eq (fun h => absurd h hq) ?_
    have hqueue : ((l.tcp.drain queue' capacity).1).queues queue = l.tcp.queues queue := by
      rw [TcpState.drain]
      split
      · rfl
      · exact Function.update_of_ne hq _ _
    simp only [drained, account, enter_of_ne hq, hqueue]

/-- **A frame** that was read, or not. -/
lemma outcome_connection (sizes : StructSizes) (l : TcpLedger) (queue : TcpQueue)
    (client : Pieces UInt8) :
    Outcome (TcpAct.Keeps sizes l.tcp queue (.connection client)) (l.account queue)
      ((l.exec sizes (.connection client)).account queue) := by
  rw [exec, serveClient_eq]
  cases hframe : frameIn sizes client.content with
  | none =>
      refine outcome_of_eq (fun type payload h => ?_) rfl
      rw [hframe] at h
      exact absurd h (by simp)
  | some r =>
      obtain ⟨type, payload⟩ := r
      have hkeeps : TcpAct.Keeps sizes l.tcp queue (.connection client) ↔
          (type.queue = queue →
            (type = .raft → l.tcp.enabled = true) ∧ (l.tcp.queues queue).length < queue.size) := by
        refine ⟨fun h => h type payload hframe, fun h type' payload' hframe' => ?_⟩
        rw [hframe, Option.some.injEq, Prod.mk.injEq] at hframe'
        obtain ⟨rfl, rfl⟩ := hframe'
        exact h
      rw [hkeeps]
      by_cases hq : queue = type.queue
      · subst hq
        by_cases hopen : (type = .raft → l.tcp.enabled = true) ∧
            (l.tcp.queues type.queue).length < type.queue.size
        · refine Or.inl ⟨fun _ => hopen, ?_⟩
          have hacc : l.tcp.accept type payload =
              { l.tcp with
                queues := Function.update l.tcp.queues type.queue
                  (l.tcp.queues type.queue ++ [payload]) } := by
            rw [TcpState.accept, if_neg (fun h => by simp [hopen.1 h.1] at h), TcpState.push,
              if_pos hopen.2]
          have hpost := Passes.post (m := l.account type.queue) payload
          simpa only [account, hacc, enter_self, Function.update_self, Mailbox.post] using hpost
        · refine Or.inr ⟨fun h => hopen (h rfl), ?_⟩
          have hacc : l.tcp.accept type payload = l.tcp := by
            rw [TcpState.accept]
            split
            · rfl
            · rename_i henabled
              rw [TcpState.push, if_neg fun hroom => hopen ⟨fun h => ?_, hroom⟩]
              simpa [h] using henabled
          have hdrop := Drops.turnAway (m := l.account type.queue) payload
          simpa only [account, hacc, enter_self, Mailbox.turnAway] using hdrop
      · refine outcome_of_eq (fun h => absurd h.symm hq) ?_
        have hqueue : (l.tcp.accept type payload).queues queue = l.tcp.queues queue := by
          rw [TcpState.accept]
          split
          · rfl
          · exact queues_push_of_ne hq payload
        simp only [account, enter_of_ne hq, hqueue]

/-- **A command of the program** is put into its queue or refused. -/
lemma outcome_submit (sizes : StructSizes) (l : TcpLedger) (queue : TcpQueue) (cmd : Bytes) :
    Outcome (TcpAct.Keeps sizes l.tcp queue (.submit cmd)) (l.account queue)
      ((l.exec sizes (.submit cmd)).account queue) := by
  refine Or.inl ⟨trivial, ?_⟩
  rw [exec, TcpState.submitCommand]
  by_cases hq : queue = .cmdQueue
  · subst hq
    by_cases hroom : (l.tcp.queues .cmdQueue).length < maxQueue
    · have hpost := Passes.post (m := l.account .cmdQueue) cmd
      have hpush : (l.tcp.push .cmdQueue cmd).queues .cmdQueue =
          l.tcp.queues .cmdQueue ++ [cmd] := by
        rw [TcpState.push, if_pos (show _ < TcpQueue.size .cmdQueue from hroom)]
        exact Function.update_self TcpQueue.cmdQueue _ l.tcp.queues
      simpa only [account, hpush, hroom, decide_true, if_true, enter_self, Mailbox.post] using hpost
    · have hsame := Passes.same (m := l.account .cmdQueue)
      have hpush : l.tcp.push .cmdQueue cmd = l.tcp := by
        rw [TcpState.push, if_neg (show ¬_ < TcpQueue.size .cmdQueue from hroom)]
      simpa only [account, hpush, hroom, decide_false, Bool.false_eq_true, if_false, enter_self,
        List.append_nil] using hsame
  · have hsame := Passes.same (m := l.account queue)
    simpa only [account, queues_push_of_ne hq, enter_of_ne hq] using hsame

/-- **The program's own commands** are handed out, and the queue is emptied in any case. -/
lemma outcome_recvCommands (sizes : StructSizes) (l : TcpLedger) (queue : TcpQueue)
    (capacity : ℕ) :
    Outcome (TcpAct.Keeps sizes l.tcp queue (.recvCommands capacity)) (l.account queue)
      ((l.exec sizes (.recvCommands capacity)).account queue) := by
  by_cases hq : queue = .cmdQueue
  · subst hq
    refine outcome_empty capacity ⟨fun h => h rfl, fun h _ => h⟩ ?_
    simp only [exec, drained, TcpState.recvCommands, account, enter_self, Mailbox.empty,
      Function.update_self]
  · refine outcome_of_eq (fun h => absurd h hq) ?_
    simp only [exec, drained, TcpState.recvCommands, account, enter_of_ne hq,
      Function.update_of_ne hq]

/-- **Switching off** empties two of the queues. -/
lemma outcome_setEnabled (sizes : StructSizes) (l : TcpLedger) (queue : TcpQueue)
    (enabled : Bool) :
    Outcome (TcpAct.Keeps sizes l.tcp queue (.setEnabled enabled)) (l.account queue)
      ((l.exec sizes (.setEnabled enabled)).account queue) := by
  cases enabled with
  | true => exact outcome_of_eq (fun h => absurd h (by simp)) rfl
  | false =>
      by_cases hq : queue = .inQueue ∨ queue = .cmdQueue
      · refine outcome_empty 0 ?_ ?_
        · rw [Nat.le_zero, List.length_eq_zero_iff]
          exact ⟨fun h => h rfl hq, fun h _ _ => h⟩
        · have hqueue : ((l.tcp.setEnabled false).queues) queue = [] := by
            show Function.update (Function.update l.tcp.queues .inQueue []) .cmdQueue [] queue = []
            rcases hq with rfl | rfl
            · rw [Function.update_of_ne (by decide), Function.update_self]
            · rw [Function.update_self]
          simp only [exec, account, hqueue, Mailbox.empty, List.take_zero, List.append_nil]
      · rw [not_or] at hq
        refine outcome_of_eq (fun _ h => absurd h (not_or.mpr hq)) ?_
        have hqueue : (l.tcp.setEnabled false).queues queue = l.tcp.queues queue := by
          show Function.update (Function.update l.tcp.queues .inQueue []) .cmdQueue [] queue = _
          rw [Function.update_of_ne hq.2, Function.update_of_ne hq.1]
        simp only [exec, account, hqueue]

/-- **One act** passes or drops, according to whether it keeps what the queue has. -/
lemma outcome_exec (sizes : StructSizes) (l : TcpLedger) (queue : TcpQueue) (act : TcpAct) :
    Outcome (act.Keeps sizes l.tcp queue) (l.account queue) ((l.exec sizes act).account queue) := by
  cases act with
  | connection client => exact outcome_connection sizes l queue client
  | recv capacity => exact outcome_drain l queue .inQueue capacity
  | recvJoins capacity => exact outcome_drain l queue .joinQueue capacity
  | recvFwdCmds capacity => exact outcome_drain l queue .fwdCmdQueue capacity
  | submit cmd => exact outcome_submit sizes l queue cmd
  | recvCommands capacity => exact outcome_recvCommands sizes l queue capacity
  | setEnabled enabled => exact outcome_setEnabled sizes l queue enabled

end TcpLedger

/-! ### Whole runs -/

/-- A run of acts. -/
def TcpLedger.run (sizes : StructSizes) (l : TcpLedger) (acts : List TcpAct) : TcpLedger :=
  acts.foldl (TcpLedger.exec sizes) l

/-- Every act of a run keeps what the queue has. -/
def AllKeep (sizes : StructSizes) (queue : TcpQueue) : TcpLedger → List TcpAct → Prop :=
  Mailbox.AllKeep (TcpLedger.exec sizes) fun l act => act.Keeps sizes l.tcp queue

/-- **The queues of the TCP transport**: in every run of connections of any clients and of calls of
the program, what was handed out of a queue and what is still in it are structs that arrived for it,
in the order in which they arrived and none of them twice; nothing is missing exactly if no act
turned one away, dropped one or cut a drain short. -/
theorem tcp_delivers_iff (sizes : StructSizes) (queue : TcpQueue) (acts : List TcpAct) :
    (((TcpLedger.start.run sizes acts).handed queue ++
        (TcpLedger.start.run sizes acts).tcp.queues queue).Sublist
      ((TcpLedger.start.run sizes acts).arrived queue)) ∧
    ((TcpLedger.start.run sizes acts).handed queue ++
        (TcpLedger.start.run sizes acts).tcp.queues queue =
      (TcpLedger.start.run sizes acts).arrived queue ↔
      AllKeep sizes queue TcpLedger.start acts) := by
  have hstep : ∀ (l : TcpLedger) (act : TcpAct), Mailbox.Outcome (act.Keeps sizes l.tcp queue)
      (l.account queue) ((l.exec sizes act).account queue) :=
    fun l act => TcpLedger.outcome_exec sizes l queue act
  have hfaithful : (TcpLedger.start.account queue).Faithful := List.Sublist.refl []
  have hbalanced : (TcpLedger.start.account queue).Balanced := rfl
  exact ⟨Mailbox.faithful_run hstep acts hfaithful,
    Mailbox.balanced_run_iff hstep acts hbalanced⟩

end RaftRx.C
