import RaftRx.C.Node
import RaftRx.Library.InPlace
import RaftRx.Library.Runs
import RaftRx.Library.Text

/-!
The peer table of the TCP transport and its file (`raft_tcp_transport.c`).

`raft_tcp_transport_add_peer` registers a peer and `tcp_save_peers` rewrites `peers.txt` in place.
`raft_tcp_transport_set_data_dir` registers the peers of the file one by one, so that loading
rewrites the file it reads once for each of them.

* `TcpPeer`, `savePeers`, `addPeer`, `loadPeers`: the functions, with the texts the file goes through;
* `PeerProcess`, `PeerCall`: a process, its crashes and its restarts;
* `scanPeers_savePeers`: a saved table is read back;
* `peers_survive`: a table survives the crashes that stop no write;
* `truncated_forgets`: a crash behind the truncation forgets every peer.
-/

namespace RaftRx.C

open InPlace (writes fileAfter fileAt AtAnEnd)
open Text (isSpace decimal scanString scanInt)

/-! ### The transport -/

/-- `raft_tcp_peer_t` -/
structure TcpPeer where
  id : CString
  host : CString
  port : ℤ
  deriving DecidableEq, Repr

/-- The size of `raft_tcp_peer_t.host`. -/
def hostSize : ℕ := 256

namespace TcpTransport

/-- One line of `peers.txt`: the output of `"%s %s %d\n"`. -/
def line (p : TcpPeer) : CString := p.id ++ ' ' :: (p.host ++ ' ' :: (decimal p.port ++ ['\n']))

/-- The text `tcp_save_peers` writes. -/
def savePeers (peers : List TcpPeer) : CString := peers.flatMap line

/-- The loop of `raft_tcp_transport_add_peer`: the first peer of that id gets the new address. -/
def updatePeer (p : TcpPeer) : List TcpPeer → Option (List TcpPeer)
  | [] => none
  | q :: peers =>
      if q.id = p.id then
        some ({ q with host := strncpy hostSize p.host, port := p.port } :: peers)
      else (updatePeer p peers).map (q :: ·)

/-- The table `raft_tcp_transport_add_peer` saves, `none` if it returns without saving. -/
def addPeer (peers : List TcpPeer) (p : TcpPeer) : Option (List TcpPeer) :=
  match updatePeer p peers with
  | some peers => some peers
  | none =>
      if maxPeers ≤ peers.length then none
      else some (peers ++
        [{ id := strncpy maxId p.id, host := strncpy hostSize p.host, port := p.port }])

/-- The table after `raft_tcp_transport_add_peer`. -/
def peersAfter (peers : List TcpPeer) (p : TcpPeer) : List TcpPeer := (addPeer peers p).getD peers

/-- The texts `peers.txt` goes through in `raft_tcp_transport_add_peer`. -/
def addTexts (peers : List TcpPeer) (p : TcpPeer) : List CString :=
  match addPeer peers p with
  | none => []
  | some peers => writes (savePeers peers)

/-- `fscanf(f, "%15s %255s %d", id, host, &port)` -/
def scanPeer (text : CString) : Option (TcpPeer × CString) :=
  (scanString (maxId - 1) text).bind fun (id, text) =>
    (scanString (hostSize - 1) text).bind fun (host, text) =>
      (scanInt text).map fun (port, text) => (⟨id, host, port⟩, text)

/-- The peers the loop of `tcp_load_peers` reads. -/
def scanPeers : ℕ → CString → List TcpPeer
  | 0, _ => []
  | fuel + 1, text =>
      match scanPeer text with
      | none => []
      | some (p, text) => p :: scanPeers fuel text

-- The loop has the whole file in the buffer of its stream before it registers the first peer
-- (`length_savePeers_le`), so what its own calls write to the file is not read.
/-- The peers `tcp_load_peers` reads from the file, if there is one. -/
def entries : Option CString → List TcpPeer
  | none => []
  | some text => scanPeers text.length text

/-- The table after `tcp_load_peers` registered some peers. -/
def loadPeers (peers : List TcpPeer) (ps : List TcpPeer) : List TcpPeer := ps.foldl peersAfter peers

/-- The texts the file goes through while `tcp_load_peers` registers some peers. -/
def loadTexts (peers : List TcpPeer) : List TcpPeer → List CString
  | [] => []
  | p :: ps => addTexts peers p ++ loadTexts (peersAfter peers p) ps

end TcpTransport

/-! ### Processes that crash and restart -/

open TcpTransport

/-- A process that called `raft_tcp_transport_set_data_dir`, with its table and the file; or a
crashed one, with the file it left and the tables the next restart may load. -/
inductive PeerProcess where
  | up (peers : List TcpPeer) (file : Option CString)
  | down (file : Option CString) (admissible : List (List TcpPeer))
  deriving DecidableEq, Repr

/-- A completed call, a crash between two calls, or a crash inside a call, when the file has gone
through `k` texts of it. -/
inductive PeerCall where
  | addPeer (p : TcpPeer)
  | setDataDir
  | crash
  | crashInAddPeer (p : TcpPeer) (k : ℕ)
  | crashInSetDataDir (k : ℕ)
  deriving DecidableEq, Repr

namespace PeerProcess

/-- Before the first process there is no file and no peer. -/
def start : PeerProcess := .down none [[]]

/-- A crash inside a call admits the table before and the table after it.  Before a restart that is
interrupted there was no table, so only what it would have loaded is admitted. -/
def exec : PeerProcess → PeerCall → Option PeerProcess
  | .up peers file, .addPeer p => some (.up (peersAfter peers p) (fileAfter file (addTexts peers p)))
  | .up peers file, .setDataDir =>
      some (.up (loadPeers peers (entries file)) (fileAfter file (loadTexts peers (entries file))))
  | .up peers file, .crash => some (.down file [peers])
  | .up peers file, .crashInAddPeer p k =>
      (fileAt file (addTexts peers p) k).map (.down · [peers, peersAfter peers p])
  | .up peers file, .crashInSetDataDir k =>
      (fileAt file (loadTexts peers (entries file)) k).map
        (.down · [peers, loadPeers peers (entries file)])
  | .down file _, .setDataDir =>
      some (.up (loadPeers [] (entries file)) (fileAfter file (loadTexts [] (entries file))))
  | .down file _, .crashInSetDataDir k =>
      (fileAt file (loadTexts [] (entries file)) k).map (.down · [loadPeers [] (entries file)])
  | .down _ _, _ => none

/-- The table the next restart loads is an admissible one. -/
def Survives : PeerProcess → Prop
  | .up _ _ => True
  | .down file admissible => loadPeers [] (entries file) ∈ admissible

instance : DecidablePred Survives
  | .up _ _ => isTrue trivial
  | .down file admissible =>
      inferInstanceAs (Decidable (loadPeers [] (entries file) ∈ admissible))

end PeerProcess

/-- An id and a host that are not empty, have no white space and fit in their buffers. -/
structure TcpPeer.Valid (p : TcpPeer) : Prop where
  id_ne : p.id ≠ []
  id_word : ∀ c ∈ p.id, isSpace c = false
  id_fits : p.id.length < maxId
  host_ne : p.host ≠ []
  host_word : ∀ c ∈ p.host, isSpace c = false
  host_fits : p.host.length < hostSize

instance (p : TcpPeer) : Decidable p.Valid :=
  decidable_of_iff (p.id ≠ [] ∧ (∀ c ∈ p.id, isSpace c = false) ∧ p.id.length < maxId ∧
      p.host ≠ [] ∧ (∀ c ∈ p.host, isSpace c = false) ∧ p.host.length < hostSize)
    ⟨fun ⟨h1, h2, h3, h4, h5, h6⟩ => ⟨h1, h2, h3, h4, h5, h6⟩,
      fun ⟨h1, h2, h3, h4, h5, h6⟩ => ⟨h1, h2, h3, h4, h5, h6⟩⟩

/-- The peers of a call are valid. -/
def PeerCall.Valid : PeerCall → Prop
  | .addPeer p => p.Valid
  | .crashInAddPeer p _ => p.Valid
  | _ => True

instance : DecidablePred PeerCall.Valid
  | .addPeer p => inferInstanceAs (Decidable p.Valid)
  | .crashInAddPeer p _ => inferInstanceAs (Decidable p.Valid)
  | .setDataDir => isTrue trivial
  | .crash => isTrue trivial
  | .crashInSetDataDir _ => isTrue trivial

/-- A crash does not stop the call between its first truncation of the file and the end of its last
write. -/
def StopsNoWrite : PeerProcess → PeerCall → Prop
  | .up peers _, .crashInAddPeer p k => AtAnEnd (addTexts peers p) k
  | .up peers file, .crashInSetDataDir k => AtAnEnd (loadTexts peers (entries file)) k
  | .down file _, .crashInSetDataDir k => AtAnEnd (loadTexts [] (entries file)) k
  | _, _ => True

instance : ∀ s call, Decidable (StopsNoWrite s call)
  | .up peers _, .crashInAddPeer p k => inferInstanceAs (Decidable (AtAnEnd (addTexts peers p) k))
  | .up peers file, .crashInSetDataDir k =>
      inferInstanceAs (Decidable (AtAnEnd (loadTexts peers (entries file)) k))
  | .down file _, .crashInSetDataDir k =>
      inferInstanceAs (Decidable (AtAnEnd (loadTexts [] (entries file)) k))
  | .up _ _, .addPeer _ => isTrue trivial
  | .up _ _, .setDataDir => isTrue trivial
  | .up _ _, .crash => isTrue trivial
  | .down _ _, .addPeer _ => isTrue trivial
  | .down _ _, .setDataDir => isTrue trivial
  | .down _ _, .crash => isTrue trivial
  | .down _ _, .crashInAddPeer _ _ => isTrue trivial

/-! ### Registering -/

section Registering

variable {p q : TcpPeer} {peers peers' : List TcpPeer}

lemma strncpy_of_lt {size : ℕ} {s : CString} (h : s.length < size) : strncpy size s = s := by
  rw [strncpy, List.take_of_length_le]
  omega

/-- There is nothing to update exactly if the id is new. -/
lemma updatePeer_eq_none_iff : updatePeer p peers = none ↔ p.id ∉ peers.map (·.id) := by
  induction peers with
  | nil => exact iff_of_true rfl List.not_mem_nil
  | cons q peers ih =>
      rw [updatePeer, List.map_cons, List.mem_cons, not_or]
      split
      · rename_i heq
        exact iff_of_false (by simp) fun h => h.1 heq.symm
      · rename_i hne
        rw [Option.map_eq_none_iff, ih]
        exact (and_iff_right fun heq => hne heq.symm).symm

/-- An update keeps the ids and their order. -/
lemma ids_updatePeer (h : updatePeer p peers = some peers') :
    peers'.map (·.id) = peers.map (·.id) := by
  induction peers generalizing peers' with
  | nil => exact absurd h (by simp [updatePeer])
  | cons q peers ih =>
      rw [updatePeer] at h
      split at h
      · rw [← Option.some.inj h]
        rfl
      · obtain ⟨rest, hrest, rfl⟩ := Option.map_eq_some_iff.mp h
        rw [List.map_cons, List.map_cons, ih hrest]

/-- A peer of the updated table was there before, perhaps at another address. -/
lemma mem_updatePeer (h : updatePeer p peers = some peers') (hq : q ∈ peers') :
    q ∈ peers ∨ ∃ r ∈ peers, q = { r with host := strncpy hostSize p.host, port := p.port } := by
  induction peers generalizing peers' with
  | nil => exact absurd h (by simp [updatePeer])
  | cons r peers ih =>
      rw [updatePeer] at h
      split at h
      · rw [← Option.some.inj h] at hq
        cases List.mem_cons.mp hq with
        | inl hq => exact Or.inr ⟨r, List.mem_cons_self, hq⟩
        | inr hq => exact Or.inl (List.mem_cons_of_mem _ hq)
      · obtain ⟨rest, hrest, rfl⟩ := Option.map_eq_some_iff.mp h
        cases List.mem_cons.mp hq with
        | inl hq => exact Or.inl (hq ▸ List.mem_cons_self)
        | inr hq =>
            cases ih hrest hq with
            | inl hq => exact Or.inl (List.mem_cons_of_mem _ hq)
            | inr hq =>
                obtain ⟨s, hs, heq⟩ := hq
                exact Or.inr ⟨s, List.mem_cons_of_mem _ hs, heq⟩

/-- Registering a peer again at its own address changes nothing. -/
lemma updatePeer_self (hids : (peers.map (·.id)).Nodup) (hp : p ∈ peers)
    (hfits : p.host.length < hostSize) : updatePeer p peers = some peers := by
  induction peers with
  | nil => exact absurd hp List.not_mem_nil
  | cons q peers ih =>
      rw [List.map_cons, List.nodup_cons] at hids
      rw [updatePeer]
      cases List.mem_cons.mp hp with
      | inl heq => rw [if_pos (congrArg _ heq.symm), ← heq, strncpy_of_lt hfits]
      | inr hp =>
          have hne : q.id ≠ p.id := fun heq =>
            hids.1 (heq ▸ List.mem_map_of_mem hp)
          rw [if_neg hne, ih hids.2 hp, Option.map_some]

/-- What `raft_tcp_transport_add_peer` can do: update a peer, return from a full table, or
append. -/
lemma addPeer_cases (peers : List TcpPeer) (p : TcpPeer) :
    (∃ peers', updatePeer p peers = some peers' ∧ addPeer peers p = some peers') ∨
    (maxPeers ≤ peers.length ∧ addPeer peers p = none) ∨
    (p.id ∉ peers.map (·.id) ∧ peers.length < maxPeers ∧ addPeer peers p = some (peers ++
      [{ id := strncpy maxId p.id, host := strncpy hostSize p.host, port := p.port }])) := by
  cases hu : updatePeer p peers with
  | some peers' => exact Or.inl ⟨peers', rfl, by rw [addPeer, hu]⟩
  | none =>
      rw [addPeer, hu]
      by_cases hfull : maxPeers ≤ peers.length
      · exact Or.inr (Or.inl ⟨hfull, if_pos hfull⟩)
      · exact Or.inr (Or.inr ⟨updatePeer_eq_none_iff.mp hu, by omega, if_neg hfull⟩)

/-- A table as `raft_tcp_transport_add_peer` builds it. -/
structure PeersOk (peers : List TcpPeer) : Prop where
  valid : ∀ p ∈ peers, p.Valid
  ids : (peers.map (·.id)).Nodup
  room : peers.length ≤ maxPeers

lemma peersOk_nil : PeersOk [] where
  valid := fun _ hp => absurd hp List.not_mem_nil
  ids := List.nodup_nil
  room := Nat.zero_le _

lemma TcpPeer.Valid.strncpy_eq (h : p.Valid) :
    ({ id := strncpy maxId p.id, host := strncpy hostSize p.host, port := p.port } : TcpPeer)
      = p := by
  rw [strncpy_of_lt h.id_fits, strncpy_of_lt h.host_fits]

/-- A new peer with room for it is appended. -/
lemma addPeer_new (hp : p.Valid) (hnew : p.id ∉ peers.map (·.id))
    (hroom : peers.length < maxPeers) : addPeer peers p = some (peers ++ [p]) := by
  rw [addPeer, updatePeer_eq_none_iff.mpr hnew]
  dsimp only
  rw [if_neg (by omega), hp.strncpy_eq]

/-- **Registering a valid peer keeps the table well formed.** -/
lemma PeersOk.peersAfter (h : PeersOk peers) (hp : p.Valid) : PeersOk (peersAfter peers p) := by
  obtain ⟨peers', hu, ha⟩ | ⟨-, ha⟩ | ⟨hnew, hroom, ha⟩ := addPeer_cases peers p
  · rw [TcpTransport.peersAfter, ha, Option.getD_some]
    constructor
    · intro q hq
      cases mem_updatePeer hu hq with
      | inl hq => exact h.valid q hq
      | inr hq =>
          obtain ⟨r, hr, heq⟩ := hq
          have hvalid := h.valid r hr
          rw [heq, strncpy_of_lt hp.host_fits]
          exact ⟨hvalid.id_ne, hvalid.id_word, hvalid.id_fits, hp.host_ne, hp.host_word,
            hp.host_fits⟩
    · rw [ids_updatePeer hu]
      exact h.ids
    · have hlen := congrArg List.length (ids_updatePeer hu)
      rw [List.length_map, List.length_map] at hlen
      rw [hlen]
      exact h.room
  · rw [TcpTransport.peersAfter, ha, Option.getD_none]
    exact h
  · rw [TcpTransport.peersAfter, ha, Option.getD_some, hp.strncpy_eq]
    constructor
    · intro q hq
      cases List.mem_append.mp hq with
      | inl hq => exact h.valid q hq
      | inr hq => exact List.mem_singleton.mp hq ▸ hp
    · rw [List.map_append, List.map_singleton, List.nodup_append_comm, List.singleton_append,
        List.nodup_cons]
      exact ⟨hnew, h.ids⟩
    · rw [List.length_append, List.length_singleton]
      omega

end Registering

/-! ### The file -/

/-- The file has the text of the table; without peers there may be none. -/
def Holds (file : Option CString) (peers : List TcpPeer) : Prop := file.getD [] = savePeers peers

lemma holds_of_addPeer {file : Option CString} {peers peers' : List TcpPeer} {p : TcpPeer}
    (h : addPeer peers p = some peers') : Holds (fileAfter file (addTexts peers p)) peers' := by
  rw [addTexts, h, Holds, InPlace.fileAfter_writes, Option.getD_some]

/-- **A completed registration** leaves the file with the new table. -/
lemma Holds.addPeer {file : Option CString} {peers : List TcpPeer} (h : Holds file peers)
    (p : TcpPeer) : Holds (fileAfter file (addTexts peers p)) (peersAfter peers p) := by
  cases ha : TcpTransport.addPeer peers p with
  | none =>
      rw [addTexts, peersAfter, ha, InPlace.fileAfter_nil]
      exact h
  | some peers' =>
      rw [peersAfter, ha]
      exact holds_of_addPeer ha

lemma Holds.loadPeers (ps : List TcpPeer) : ∀ {file : Option CString} {peers : List TcpPeer},
    Holds file peers →
      Holds (fileAfter file (loadTexts peers ps)) (TcpTransport.loadPeers peers ps) := by
  induction ps with
  | nil =>
      intro file peers h
      exact h
  | cons p ps ih =>
      intro file peers h
      rw [loadTexts, InPlace.fileAfter_append]
      exact ih (h.addPeer p)

/-! ### Reading a saved table -/

section Reading

variable {p : TcpPeer} {peers : List TcpPeer}

/-- A line is read up to its newline. -/
lemma scanPeer_line (h : p.Valid) (rest : CString) :
    scanPeer (line p ++ rest) = some (p, '\n' :: rest) := by
  have hid : scanString (maxId - 1) (line p ++ rest)
      = some (p.id, ' ' :: (p.host ++ ' ' :: (decimal p.port ++ '\n' :: rest))) := by
    have hassoc : line p ++ rest
        = p.id ++ ' ' :: (p.host ++ ' ' :: (decimal p.port ++ '\n' :: rest)) := by
      simp [line]
    rw [hassoc]
    refine Text.scanString_word h.id_ne (Nat.le_sub_one_of_lt h.id_fits) h.id_word ?_
    rintro c ⟨⟩
    decide
  have hhost : scanString (hostSize - 1) (' ' :: (p.host ++ ' ' :: (decimal p.port ++ '\n' :: rest)))
      = some (p.host, ' ' :: (decimal p.port ++ '\n' :: rest)) := by
    rw [Text.scanString_skip (by decide)]
    refine Text.scanString_word h.host_ne (Nat.le_sub_one_of_lt h.host_fits) h.host_word ?_
    rintro c ⟨⟩
    decide
  have hport : scanInt (' ' :: (decimal p.port ++ '\n' :: rest))
      = some (p.port, '\n' :: rest) := by
    rw [Text.scanInt_skip (by decide)]
    refine Text.scanInt_decimal _ ?_
    rintro c ⟨⟩
    decide
  calc scanPeer (line p ++ rest)
      = (scanString (hostSize - 1)
          (' ' :: (p.host ++ ' ' :: (decimal p.port ++ '\n' :: rest)))).bind fun (host, text) =>
            (scanInt text).map fun (port, text) => (⟨p.id, host, port⟩, text) := by
        rw [scanPeer, hid, Option.bind_some]
    _ = (scanInt (' ' :: (decimal p.port ++ '\n' :: rest))).map fun (port, text) =>
          (⟨p.id, p.host, port⟩, text) := by rw [hhost, Option.bind_some]
    _ = some (p, '\n' :: rest) := by rw [hport, Option.map_some]

lemma scanPeers_newline (n : ℕ) (text : CString) :
    scanPeers n ('\n' :: text) = scanPeers n text := by
  cases n with
  | zero => rfl
  | succ n => rw [scanPeers, scanPeers, scanPeer, scanPeer, Text.scanString_skip (by decide)]

/-- **A saved table is read back.** -/
theorem scanPeers_savePeers (h : ∀ p ∈ peers, p.Valid) {n : ℕ} (hn : peers.length ≤ n) :
    scanPeers n (savePeers peers) = peers := by
  induction peers generalizing n with
  | nil =>
      cases n with
      | zero => rfl
      | succ n => rfl
  | cons p peers ih =>
      cases n with
      | zero => exact absurd hn (Nat.not_succ_le_zero _)
      | succ n =>
          have hp := h p List.mem_cons_self
          have hrest := ih (fun q hq => h q (List.mem_cons_of_mem _ hq)) (Nat.le_of_succ_le_succ hn)
          have hsave : savePeers (p :: peers) = line p ++ savePeers peers := List.flatMap_cons
          rw [hsave, scanPeers, scanPeer_line hp]
          dsimp only
          rw [scanPeers_newline, hrest]

/-- Reading a peer uses up characters. -/
lemma length_scanPeer {text rest : CString} (h : scanPeer text = some (p, rest)) :
    rest.length < text.length := by
  obtain ⟨⟨id, text1⟩, h1, h⟩ := Option.bind_eq_some_iff.mp h
  obtain ⟨⟨host, text2⟩, h2, h⟩ := Option.bind_eq_some_iff.mp h
  obtain ⟨⟨port, text3⟩, h3, heq⟩ := Option.map_eq_some_iff.mp h
  have hlast : text3 = rest := (Prod.mk.inj heq).2
  have hid := Text.length_scanString h1
  have hhost := Text.length_scanString h2
  have hport := Text.length_scanInt h3
  rw [← hlast]
  omega

/-- As many rounds as there are characters are enough. -/
lemma scanPeers_congr (n : ℕ) : ∀ {m : ℕ} {text : CString}, text.length ≤ n → text.length ≤ m →
    scanPeers n text = scanPeers m text := by
  induction n with
  | zero =>
      intro m text hn _
      rw [List.length_eq_zero_iff.mp (Nat.le_zero.mp hn)]
      cases m with
      | zero => rfl
      | succ m => rfl
  | succ n ih =>
      intro m text hn hm
      cases m with
      | zero =>
          rw [List.length_eq_zero_iff.mp (Nat.le_zero.mp hm)]
          rfl
      | succ m =>
          rw [scanPeers, scanPeers]
          cases hp : scanPeer text with
          | none => rfl
          | some pr =>
              obtain ⟨q, rest⟩ := pr
              have hlen := length_scanPeer hp
              have hrest : scanPeers n rest = scanPeers m rest := ih (by omega) (by omega)
              dsimp only
              rw [hrest]

/-- The file fits in the buffer of a stream. -/
lemma length_savePeers_le (h : ∀ p ∈ peers, p.Valid) (hport : ∀ p ∈ peers, p.port.natAbs < 10 ^ 10)
    (hroom : peers.length ≤ maxPeers) : (savePeers peers).length ≤ 4096 := by
  have hline : ∀ p ∈ peers, (line p).length ≤ 284 := by
    intro p hp
    have hid : p.id.length < 16 := (h p hp).id_fits
    have hhost : p.host.length < 256 := (h p hp).host_fits
    have hdec := Text.length_decimal_le (hport p hp)
    simp only [line, List.length_append, List.length_cons, List.length_nil]
    omega
  have hsum : (savePeers peers).length ≤ peers.length * 284 := by
    rw [savePeers, List.length_flatMap]
    have hmax : ∀ n ∈ peers.map (fun p => (line p).length), n ≤ 284 := by
      intro n hn
      obtain ⟨p, hp, rfl⟩ := List.mem_map.mp hn
      exact hline p hp
    have hsum := List.sum_le_card_nsmul _ 284 hmax
    rw [List.length_map, smul_eq_mul] at hsum
    exact hsum
  have h7 : maxPeers = 7 := rfl
  omega

end Reading

/-! ### Loading -/

section Loading

variable {file : Option CString} {peers : List TcpPeer}

lemma entries_of_holds (h : Holds file peers) (hok : PeersOk peers) : entries file = peers := by
  have hlen : peers.length ≤ (savePeers peers).length := by
    rw [savePeers, List.length_flatMap]
    have hpos : ∀ n ∈ peers.map (fun p => (line p).length), 1 ≤ n := by
      intro n hn
      obtain ⟨p, -, rfl⟩ := List.mem_map.mp hn
      simp only [line, List.length_append, List.length_cons]
      omega
    have hsum := List.card_nsmul_le_sum _ 1 hpos
    rw [List.length_map, smul_eq_mul, Nat.mul_one] at hsum
    exact hsum
  cases file with
  | none =>
      have hnil : savePeers peers = [] := h.symm
      rw [hnil, List.length_nil] at hlen
      rw [List.length_eq_zero_iff.mp (Nat.le_zero.mp hlen)]
      rfl
  | some text =>
      have htext : text = savePeers peers := h
      rw [htext, entries, scanPeers_savePeers hok.valid hlen]

/-- Loading the peers of a table one by one builds the table. -/
lemma loadPeers_append (rest : List TcpPeer) : ∀ {done : List TcpPeer}, PeersOk (done ++ rest) →
    loadPeers done rest = done ++ rest := by
  induction rest with
  | nil =>
      intro done _
      exact (List.append_nil done).symm
  | cons p rest ih =>
      intro done hok
      have hp : p.Valid := hok.valid p (by simp)
      have hnew : p.id ∉ done.map (·.id) := by
        have hids := hok.ids
        rw [List.map_append, List.nodup_append] at hids
        intro hmem
        exact hids.2.2 _ hmem p.id (by simp) rfl
      have hroom : done.length < maxPeers := by
        have hlen := hok.room
        rw [List.length_append, List.length_cons] at hlen
        omega
      have hstep : peersAfter done p = done ++ [p] := by
        rw [peersAfter, addPeer_new hp hnew hroom, Option.getD_some]
      have hassoc : done ++ p :: rest = (done ++ [p]) ++ rest := by simp
      rw [hassoc] at hok ⊢
      rw [loadPeers, List.foldl_cons, hstep]
      exact ih hok

/-- Loading peers that are registered already changes nothing. -/
lemma loadPeers_subset (hok : PeersOk peers) (ps : List TcpPeer) (hps : ∀ p ∈ ps, p ∈ peers) :
    loadPeers peers ps = peers := by
  induction ps with
  | nil => rfl
  | cons p ps ih =>
      have hp := hps p List.mem_cons_self
      have hself := updatePeer_self hok.ids hp (hok.valid p hp).host_fits
      have hstep : peersAfter peers p = peers := by
        rw [peersAfter, addPeer, hself, Option.getD_some]
      rw [loadPeers, List.foldl_cons, hstep]
      exact ih fun q hq => hps q (List.mem_cons_of_mem _ hq)

/-- **A restart loads the table that the file holds.** -/
theorem restart_loads (hok : PeersOk peers) (h : Holds file peers) :
    loadPeers [] (entries file) = peers := by
  rw [entries_of_holds h hok]
  exact loadPeers_append peers hok

/-- **Loading leaves the file with the table**, though it rewrote it for each of its peers. -/
lemma Holds.restart (h : Holds file peers) (hok : PeersOk peers) :
    Holds (fileAfter file (loadTexts [] (entries file))) peers := by
  rw [entries_of_holds h hok]
  cases peers with
  | nil => exact h
  | cons p ps =>
      have hadd : TcpTransport.addPeer [] p = some [p] :=
        addPeer_new (hok.valid p List.mem_cons_self) List.not_mem_nil (Nat.zero_lt_succ _)
      have hstep : peersAfter [] p = [p] := by
        rw [peersAfter, hadd, Option.getD_some]
      rw [loadTexts, InPlace.fileAfter_append, hstep]
      have hfirst : Holds (fileAfter file (addTexts [] p)) [p] := holds_of_addPeer hadd
      have hload : TcpTransport.loadPeers [p] ps = p :: ps :=
        loadPeers_append ps hok
      have hall := hfirst.loadPeers ps
      rw [hload] at hall
      exact hall

end Loading

/-! ### Runs -/

namespace PeerProcess

/-- The file holds the table of the process, or one of those the next restart may load. -/
def Inv : PeerProcess → Prop
  | .up peers file => PeersOk peers ∧ Holds file peers
  | .down file admissible => ∃ peers ∈ admissible, PeersOk peers ∧ Holds file peers

lemma inv_start : start.Inv := ⟨[], List.mem_singleton_self _, peersOk_nil, rfl⟩

lemma Inv.survives {s : PeerProcess} (h : s.Inv) : s.Survives := by
  cases s with
  | up peers file => exact trivial
  | down file admissible =>
      obtain ⟨peers, hmem, hok, hfile⟩ := h
      change loadPeers [] (entries file) ∈ admissible
      rw [restart_loads hok hfile]
      exact hmem

/-- A call of a running process that is stopped at one of its ends. -/
lemma inv_crash {file file' : Option CString} {texts : List CString} {peers peers' : List TcpPeer}
    {k : ℕ} (hk : AtAnEnd texts k) (hfile' : fileAt file texts k = some file')
    (hbefore : PeersOk peers ∧ Holds file peers)
    (hafter : PeersOk peers' ∧ Holds (fileAfter file texts) peers') :
    (PeerProcess.down file' [peers, peers']).Inv := by
  cases InPlace.fileAt_cases hk hfile' with
  | inl heq => exact ⟨peers, List.mem_cons_self, hbefore.1, heq ▸ hbefore.2⟩
  | inr heq =>
      exact ⟨peers', List.mem_cons_of_mem _ List.mem_cons_self, hafter.1, heq ▸ hafter.2⟩

/-- **One call** keeps the invariant. -/
lemma Inv.exec {s s' : PeerProcess} {call : PeerCall} (h : s.Inv) (hvalid : call.Valid)
    (hstops : StopsNoWrite s call) (hs : s.exec call = some s') : s'.Inv := by
  cases s with
  | up peers file =>
      obtain ⟨hok, hfile⟩ := h
      have hload : loadPeers peers (entries file) = peers := by
        rw [entries_of_holds hfile hok]
        exact loadPeers_subset hok peers fun p hp => hp
      have hloaded : Holds (fileAfter file (loadTexts peers (entries file))) peers := by
        have := hfile.loadPeers (entries file)
        rw [hload] at this
        exact this
      cases call with
      | addPeer p =>
          rw [← Option.some.inj hs]
          exact ⟨hok.peersAfter hvalid, hfile.addPeer p⟩
      | setDataDir =>
          rw [← Option.some.inj hs]
          exact ⟨hload.symm ▸ hok, hload.symm ▸ hloaded⟩
      | crash =>
          rw [← Option.some.inj hs]
          exact ⟨peers, List.mem_singleton_self _, hok, hfile⟩
      | crashInAddPeer p k =>
          obtain ⟨file', hfile', rfl⟩ := Option.map_eq_some_iff.mp hs
          exact inv_crash hstops hfile' ⟨hok, hfile⟩ ⟨hok.peersAfter hvalid, hfile.addPeer p⟩
      | crashInSetDataDir k =>
          obtain ⟨file', hfile', rfl⟩ := Option.map_eq_some_iff.mp hs
          exact inv_crash hstops hfile' ⟨hok, hfile⟩ ⟨hload.symm ▸ hok, hload.symm ▸ hloaded⟩
  | down file admissible =>
      obtain ⟨peers, -, hok, hfile⟩ := h
      have hload := restart_loads hok hfile
      have hloaded := hfile.restart hok
      cases call with
      | setDataDir =>
          rw [← Option.some.inj hs]
          exact ⟨hload.symm ▸ hok, hload.symm ▸ hloaded⟩
      | crashInSetDataDir k =>
          obtain ⟨file', hfile', rfl⟩ := Option.map_eq_some_iff.mp hs
          refine ⟨peers, hload ▸ List.mem_singleton_self _, hok, ?_⟩
          cases InPlace.fileAt_cases hstops hfile' with
          | inl heq => exact heq ▸ hfile
          | inr heq => exact heq ▸ hloaded
      | addPeer p => exact absurd hs (by simp [PeerProcess.exec])
      | crash => exact absurd hs (by simp [PeerProcess.exec])
      | crashInAddPeer p k => exact absurd hs (by simp [PeerProcess.exec])

end PeerProcess

/-- **The peer table survives crashes** in every run of registrations and restarts in which no crash
stops a call between its first truncation of the file and the end of its last write. -/
theorem peers_survive {s : PeerProcess}
    (h : Run PeerProcess.exec (fun s call => call.Valid ∧ StopsNoWrite s call)
      PeerProcess.start s) : s.Survives := by
  refine PeerProcess.Inv.survives (Run.invariant ?_ h PeerProcess.inv_start)
  intro s call s' hs hcall hexec
  exact hs.exec hcall.1 hcall.2 hexec

/-- A peer on this host. -/
def localPeer (id : String) (port : ℤ) : TcpPeer := ⟨id.toList, "127.0.0.1".toList, port⟩

/-- The second of two registrations is stopped when its write is complete, and so is the restart
behind it. -/
theorem peers_survive_two : ∃ s, Run PeerProcess.exec
    (fun s call => call.Valid ∧ StopsNoWrite s call) PeerProcess.start s ∧ s.Survives ∧
      ∃ file, s = .down file [[localPeer "n2" 5002, localPeer "n3" 5003]] := by
  have hrun : (execAll PeerProcess.exec
      (fun s call => decide (call.Valid ∧ StopsNoWrite s call)) PeerProcess.start
      [.setDataDir, .addPeer (localPeer "n2" 5002), .crashInAddPeer (localPeer "n3" 5003) 37,
        .crashInSetDataDir 0]).any (fun s => decide (s = .down
          (some (savePeers [localPeer "n2" 5002, localPeer "n3" 5003]))
          [[localPeer "n2" 5002, localPeer "n3" 5003]])) = true := by
    decide
  obtain ⟨s, hs, heq⟩ := Run.exists_of_execAll hrun
  have hrun' := Run.mono (fun s call h => of_decide_eq_true h) hs
  exact ⟨s, hrun', peers_survive hrun', _, of_decide_eq_true heq⟩

/-- A table with a peer is never emptied. -/
lemma peersAfter_ne_nil {peers : List TcpPeer} (hne : peers ≠ []) (p : TcpPeer) :
    peersAfter peers p ≠ [] := by
  obtain ⟨peers', hu, ha⟩ | ⟨-, ha⟩ | ⟨-, -, ha⟩ := addPeer_cases peers p
  · rw [peersAfter, ha, Option.getD_some]
    rintro rfl
    exact hne (List.map_eq_nil_iff.mp (ids_updatePeer hu).symm)
  · rw [peersAfter, ha]
    exact hne
  · rw [peersAfter, ha, Option.getD_some]
    exact List.append_ne_nil_of_right_ne_nil _ (List.cons_ne_nil _ _)

/-- **A crash behind the truncation** of `tcp_save_peers` forgets every peer, whatever was
registered before. -/
theorem truncated_forgets {peers peers' : List TcpPeer} {p : TcpPeer} (file : Option CString)
    (hne : peers ≠ []) (ha : addPeer peers p = some peers') :
    ∃ s, (PeerProcess.up peers file).exec (.crashInAddPeer p 1) = some s ∧ ¬ s.Survives := by
  refine ⟨.down (some []) [peers, peersAfter peers p], ?_, ?_⟩
  · rw [PeerProcess.exec, addTexts, ha]
    dsimp only
    rw [InPlace.fileAt_writes_one, Option.map_some]
  · intro hmem
    cases List.mem_cons.mp hmem with
    | inl heq => exact hne heq.symm
    | inr heq => exact peersAfter_ne_nil hne p (List.mem_singleton.mp heq).symm

/-- The second of two registrations is stopped behind the truncation: the restart has no peer. -/
theorem truncated_file : ¬ ∀ s, Run PeerProcess.exec (fun _ call => call.Valid) PeerProcess.start s →
    s.Survives := by
  have hcalls : ∀ call ∈ [PeerCall.setDataDir, .addPeer (localPeer "n2" 5002),
      .crashInAddPeer (localPeer "n3" 5003) 1], call.Valid := by
    decide
  have hrun : (execAll PeerProcess.exec (fun _ _ => true) PeerProcess.start
      [PeerCall.setDataDir, .addPeer (localPeer "n2" 5002),
        .crashInAddPeer (localPeer "n3" 5003) 1]).any (fun s => decide (¬ s.Survives)) = true := by
    decide
  obtain ⟨s, hs, hlost⟩ := Run.exists_of_forall hcalls hrun
  exact fun h => of_decide_eq_true hlost (h s hs)

end RaftRx.C
