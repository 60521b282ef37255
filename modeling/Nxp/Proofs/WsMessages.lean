import Nxp.Lib.Framing
import Nxp.Proofs.WsFrames
import Nxp.Transport.WebSocket

/-! Which frames get through a byte stream that is cut anywhere, and which pings are answered. -/

namespace Nxp

open Framing

/-- An unfragmented frame of data, or one that asks for an answer or is one, of a size that it may
have. -/
structure WsSendable (f : WsFrame) : Prop where
  whole : f.fin = true
  present : 0 < f.payloadLen → f.payload.isSome = true
  sizes : f.opcode = wsOpBinary ∧ 1 ≤ f.payloadLen.toNat ∧ f.payloadLen.toNat ≤ 65000 ∨
    (f.opcode = wsOpPing ∨ f.opcode = wsOpPong) ∧ f.payloadLen.toNat ≤ 125

/-- Octets of a frame on the stream. -/
def wsWire (f : WsFrame) : Bytes := (wsFrameEncode f (UInt64.ofNat wsBufSize)).written

/-- The answer to a frame, with the same payload. -/
def wsPong (f : WsFrame) : WsFrame := { f with opcode := wsOpPong, fin := true, mask := none }

/-- Payload that a frame brings the application. -/
def wsMessage (f : WsFrame) : Option Bytes :=
  if f.opcode = wsOpBinary then some (f.payload.getD []) else none

/-- Octets that a frame is answered with. -/
def wsReply (f : WsFrame) : Option Bytes :=
  if f.opcode = wsOpPing then some (wsFrameEncode (wsPong f) 128).written else none

/-- Little enough comes behind a ping to leave its payload alone when it is moved. -/
def WsTolerated (f : WsFrame) (left : Nat) : Prop :=
  f.opcode = wsOpPing → 0 < f.payloadLen → left ≤ (wsHeader f).length

variable {ws : WsTransport} {cap calls : Nat} {f : WsFrame} {held chunk left : Bytes}

namespace WsSendable

theorem opcode (fine : WsSendable f) : f.opcode.toNat < 16 := by
  rcases fine.sizes with ⟨code, -⟩ | ⟨code | code, -⟩ <;> rw [code] <;> decide

theorem short (fine : WsSendable f) : f.payloadLen.toNat ≤ 65000 := by
  rcases fine.sizes with ⟨-, -, short⟩ | ⟨-, short⟩ <;> omega

/-- On the stream stand the header and the masked payload. -/
theorem wire (fine : WsSendable f) :
    wsWire f = wsHeader f ++ applyMask f.mask (f.payload.getD []) ∧
      (f.payload.getD []).length = f.payloadLen.toNat := by
  have header := wsHeader_length f
  have short := fine.short
  obtain ⟨encoded, sized⟩ := @wsFrameEncode_room f (UInt64.ofNat wsBufSize) fine.present (by
    simp only [wsBufSize, UInt64.toNat_ofNat']
    omega)
  exact ⟨by rw [wsWire, encoded], sized⟩

theorem wire_length (fine : WsSendable f) :
    (wsWire f).length = (wsHeader f).length + f.payloadLen.toNat := by
  rw [fine.wire.1, List.length_append, applyMask_length, fine.wire.2]

end WsSendable

/-- What has begun and is not complete fits in the buffer. -/
theorem begun_short (begun : Begun wsWire WsSendable held) : held.length ≤ 65014 := by
  rcases begun with rfl | ⟨f, tail, fine, more, whole⟩
  · exact Nat.zero_le _
  · have size := congrArg List.length whole
    have header := wsHeader_length f
    have short := fine.short
    rw [fine.wire_length, List.length_append] at size
    omega

/-- The beginning of a frame is kept until the rest comes. -/
theorem wsDrain_waits (connected : ws.connected = true)
    (begun : Begun wsWire WsSendable (ws.recvBuf ++ ws.socket)) :
    ∃ next, wsDrain cap (calls + 1) ws = some ([], next) ∧ next.connected = true ∧
      next.recvBuf = ws.recvBuf ++ ws.socket ∧ next.socket = [] ∧ next.replies = ws.replies := by
  by_cases empty : ws.socket = []
  · have none : ws.socket.take (wsBufSize - ws.recvBuf.length) = [] := by
      rw [empty, List.take_nil]
    refine ⟨ws, ?_, connected, by rw [empty, List.append_nil], empty, rfl⟩
    simp only [wsDrain, wsRecv, connected, none, Bool.not_true, Bool.false_eq_true, if_false, if_true,
      Option.bind_eq_bind, Option.bind_some]
    rw [if_pos]
    split <;> decide
  · have short := begun_short begun
    have room : ws.socket.length ≤ wsBufSize - ws.recvBuf.length := by
      rw [List.length_append] at short
      unfold wsBufSize
      omega
    have incomplete : wsFrameDecode (ws.recvBuf ++ ws.socket) = .incomplete := by
      rcases begun with none | ⟨f, tail, fine, more, whole⟩
      · exact absurd (List.append_eq_nil_iff.mp none).2 empty
      · obtain ⟨wire, sized⟩ := fine.wire
        have header := wsHeader_length f
        have few := fine.short
        have part : ws.recvBuf ++ ws.socket =
            (wsHeader f ++ applyMask f.mask (f.payload.getD [])).take
              (ws.recvBuf ++ ws.socket).length := by
          rw [← wire, ← whole, List.take_left]
        rw [part]
        refine wsFrameDecode_prefix fine.opcode sized (by omega) ?_
        have size := congrArg List.length whole
        have := List.length_pos_iff.mpr more
        rw [wire, List.length_append] at size
        omega
    have all := List.take_of_length_le room
    refine ⟨{ ws with
      recvBuf := ws.recvBuf ++ ws.socket, bounded := by unfold wsBufSize; omega, socket := [] },
      ?_, connected, rfl, rfl, rfl⟩
    unfold wsDrain wsRecv
    simp only [connected, all, if_neg empty, incomplete, List.drop_eq_nil_of_le room, Bool.not_true,
      Bool.false_eq_true, if_false, Option.bind_eq_bind, Option.bind_some]
    exact if_pos (Int.le_refl 0)

/-- Where the payload of a complete frame points to once what is behind the frame was moved: as many
octets, and the same as long as no more was moved than the header has. -/
theorem movedPayload_eq {header data rest : Bytes} {head : WsHead} {total : UInt64}
    (starts : head.pos = header.length) (sized : data.length = head.payloadLen.toNat) :
    let view := WsDecoded.movedPayload ⟨head, total, header ++ data ++ rest⟩ rest.length
    view.length = head.payloadLen.toNat ∧
      (rest.length ≤ header.length ∨ data = [] → view = data) := by
  have tail : (header ++ data ++ rest).drop ((header ++ data ++ rest).length - rest.length) = rest := by
    rw [List.length_append, Nat.add_sub_cancel, List.drop_left]
  have view : WsDecoded.movedPayload ⟨head, total, header ++ data ++ rest⟩ rest.length =
      ((rest ++ (header ++ data ++ rest).drop rest.length).take
        (header.length + data.length)).drop header.length := by
    rw [WsDecoded.movedPayload]
    simp only [tail, starts, sized]
  have length : (WsDecoded.movedPayload ⟨head, total, header ++ data ++ rest⟩ rest.length).length =
      data.length := by
    rw [view]
    simp only [List.length_drop, List.length_take, List.length_append]
    omega
  refine ⟨length.trans sized, ?_⟩
  rintro (few | none)
  · -- What is moved ends before the payload.
    have front : (rest ++ header.drop rest.length).length = header.length := by
      rw [List.length_append, List.length_drop]
      omega
    have upTo : (rest ++ header.drop rest.length ++ data).length = header.length + data.length := by
      rw [List.length_append, front]
    rw [view, List.append_assoc, List.drop_append_of_le_length few, ← List.append_assoc,
      ← List.append_assoc, List.take_left' upTo, List.drop_left' front]
  · subst none
    exact List.eq_nil_of_length_eq_zero length

/-- What is decoded from a frame on the stream, and where its payload is before and after what is
behind the frame was moved. -/
theorem wsFrameDecode_wire (fine : WsSendable f) {rest : Bytes}
    (bounded : (wsWire f ++ rest).length < 2 ^ 64) :
    ∃ d, wsFrameDecode (wsWire f ++ rest) = .decoded d ∧ d.frameTotal.toNat = (wsWire f).length ∧
      d.head.opcode = f.opcode ∧ d.head.payloadLen = f.payloadLen ∧ d.payload = f.payload.getD [] ∧
      (d.movedPayload rest.length).length = d.head.payloadLen.toNat ∧
      (rest.length ≤ (wsHeader f).length ∨ f.payload.getD [] = [] →
        d.movedPayload rest.length = f.payload.getD []) := by
  obtain ⟨wire, sized⟩ := fine.wire
  rw [wire] at bounded ⊢
  have header := wsHeader_length f
  have small := fine.short
  have upTo : (wsHeader f ++ f.payload.getD []).length =
      (wsHeader f).length + f.payloadLen.toNat := by rw [List.length_append, sized]
  refine ⟨_, wsFrameDecode_whole fine.opcode sized rest bounded, ?_, rfl, rfl, ?_,
    movedPayload_eq rfl sized⟩
  · simp only [UInt64.toNat_add, UInt64.toNat_ofNat', List.length_append, applyMask_length, sized]
    omega
  · rw [WsDecoded.payload, List.take_left' upTo, List.drop_left]

/-- The answer with the payload that was asked with. -/
theorem wsPong_encode (fine : WsSendable f) (ping : f.opcode = wsOpPing) {view : Bytes}
    (sized : ∀ data ∈ some view, data.length = f.payloadLen.toNat)
    (same : view = f.payload.getD []) :
    wsFrameEncode ⟨wsOpPong, true, none, f.payloadLen, some view, sized⟩ 128 =
      wsFrameEncode (wsPong f) 128 ∧ 0 < (wsFrameEncode (wsPong f) 128).result := by
  have few : f.payloadLen.toNat ≤ 125 := by
    rcases fine.sizes with ⟨data, -⟩ | ⟨-, few⟩
    · rw [ping] at data
      exact absurd data (by decide)
    · exact few
  have header : (wsHeader (wsPong f)).length = 2 := by
    have small : f.payloadLen ≤ 125 := by simpa [UInt64.le_iff_toNat_le] using few
    simp [wsHeader, wsPong, wsLength, small, maskOctets]
  have room : (wsHeader (wsPong f)).length + (wsPong f).payloadLen.toNat ≤ (128 : UInt64).toNat := by
    rw [header]
    show 2 + f.payloadLen.toNat ≤ 128
    omega
  obtain ⟨asked, -⟩ := @wsFrameEncode_room (wsPong f) 128 fine.present room
  obtain ⟨answered, -⟩ := @wsFrameEncode_room ⟨wsOpPong, true, none, f.payloadLen, some view, sized⟩
    128 (fun _ => rfl) room
  refine ⟨?_, ?_⟩
  · rw [asked, answered]
    subst same
    rfl
  · rw [asked, header]
    show 0 < 2 + f.payloadLen
    rw [UInt64.lt_iff_toNat_lt, UInt64.toNat_add]
    simp only [UInt64.reduceToNat]
    omega

/-- One call reads a frame and what of the rest finds room behind it, and takes the frame. -/
theorem wsRecv_takes (large : 65000 ≤ cap) (fine : WsSendable f) (connected : ws.connected = true)
    (short : ws.recvBuf.length < (wsWire f).length)
    (whole : ws.recvBuf ++ ws.socket = wsWire f ++ left) (tolerated : WsTolerated f left.length) :
    let room := wsBufSize - (wsWire f).length
    let n : Int := if f.opcode = wsOpBinary then (f.payload.getD []).length else 0
    ∃ bounded, wsRecv ws cap = some (n, f.payload.getD [],
      ⟨true, left.take room, bounded, left.drop room, ws.replies ++ (wsReply f).toList⟩) := by
  intro room n
  have small := fine.short
  have header := wsHeader_length f
  have frame : (wsWire f).length ≤ wsBufSize := by
    rw [fine.wire_length, wsBufSize]
    omega
  have fresh := reads_fresh frame short whole
  obtain ⟨buf, rest⟩ := reads_word ws.bounded frame whole
  rw [show wsBufSize - (wsWire f).length = room from rfl] at buf rest
  have inside : (left.take room).length ≤ wsBufSize := by
    rw [List.length_take]
    omega
  have moved : (wsWire f ++ left.take room).length - (wsWire f).length = (left.take room).length := by
    rw [List.length_append, Nat.add_sub_cancel_left]
  obtain ⟨d, decoded, total, opcode, len, payload, long, same⟩ :=
    @wsFrameDecode_wire f fine (left.take room) (by
      rw [List.length_append]
      unfold wsBufSize at *
      omega)
  have nonempty : d.frameTotal ≠ 0 := by
    rw [ne_eq, ← UInt64.toNat_inj, total, fine.wire_length, UInt64.toNat_zero]
    omega
  have capped : (f.payload.getD []).take cap = f.payload.getD [] :=
    List.take_of_length_le (by rw [fine.wire.2]; omega)
  refine ⟨inside, ?_⟩
  unfold wsRecv
  simp only [connected, buf, if_neg fresh, decoded, if_neg nonempty, total, moved, dif_pos long,
    payload, capped, rest, List.drop_left, Bool.not_true, Bool.false_eq_true, if_false, opcode]
  rcases fine.sizes with ⟨binary, -⟩ | ⟨ping | pong, few⟩
  · simp [n, binary, wsReply, wsOpBinary, wsOpPing, wsOpClose, wsOpPong]
  · -- The payload still stands where it is looked for, or there is none.
    have kept : d.movedPayload (left.take room).length = f.payload.getD [] := by
      refine same ?_
      by_cases filled : 0 < f.payloadLen
      · have := tolerated ping filled
        rw [List.length_take]
        exact .inl (by omega)
      · have none : f.payloadLen = 0 := by simpa using filled
        refine .inr (List.eq_nil_of_length_eq_zero ?_)
        rw [fine.wire.2, none]
        rfl
    obtain ⟨answered, sent⟩ := wsPong_encode fine ping (by rintro _ ⟨⟩; rw [long, len]) kept
    simp only [len, answered, gt_iff_lt, sent, if_true, if_pos ping]
    simp [n, ping, wsReply, wsOpBinary, wsOpPing]
  · simp [n, pong, wsReply, wsOpBinary, wsOpPing, wsOpClose, wsOpPong]

/-- The messages of these frames were reported and their pings answered, and all else that arrived
is in the buffer. -/
private structure WsHolds (past : List WsFrame) (held : Bytes) (s : WsTransport × List Bytes) :
    Prop where
  connected : s.1.connected = true
  recvBuf : s.1.recvBuf = held
  socket : s.1.socket = []
  replies : s.1.replies = past.filterMap wsReply
  messages : s.2 = past.filterMap wsMessage

variable {s : WsTransport × List Bytes} {past : List WsFrame}

/-- A chunk that completes no frame is held. -/
theorem wsDeliver_waits (cap : Nat) (holds : WsHolds past held s)
    (begun : Begun wsWire WsSendable (held ++ chunk)) :
    ∃ next, wsDeliver cap s chunk = some next ∧ WsHolds past (held ++ chunk) next := by
  obtain ⟨⟨connected, buf, bounded, socket, replies⟩, received⟩ := s
  obtain ⟨rfl, rfl, rfl, rfl, rfl⟩ := holds
  obtain ⟨next, drained, online, kept, empty, silent⟩ :=
    @wsDrain_waits ⟨true, buf, bounded, [] ++ chunk, _⟩ cap ([] ++ chunk).length rfl begun
  refine ⟨(next, _), ?_, online, kept, empty, silent, rfl⟩
  rw [wsDeliver]
  simp only [drained, Option.map_some, List.append_nil]

/-- The chunk that completes a frame delivers it. -/
theorem wsDeliver_takes (large : 65000 ≤ cap) (holds : WsHolds past held s) (fine : WsSendable f)
    (short : held.length < (wsWire f).length) (whole : held ++ chunk = wsWire f ++ left)
    (begun : Begun wsWire WsSendable left) (tolerated : WsTolerated f left.length) :
    ∃ next, wsDeliver cap s chunk = some next ∧ WsHolds (past ++ [f]) left next := by
  obtain ⟨⟨connected, buf, bounded, socket, replies⟩, received⟩ := s
  obtain ⟨rfl, rfl, rfl, rfl, rfl⟩ := holds
  have fresh := fresh_of_completes short whole
  obtain ⟨calls, many⟩ := Nat.exists_eq_add_of_le (List.length_pos_iff.mpr fresh)
  have turns : ([] ++ chunk).length + 1 = calls + 1 + 1 := by
    rw [List.nil_append]
    omega
  have behind := begun_short begun
  obtain ⟨inside, called⟩ :=
    @wsRecv_takes ⟨true, buf, bounded, [] ++ chunk, past.filterMap wsReply⟩ cap f left large fine
      rfl short whole tolerated
  have answered : past.filterMap wsReply ++ (wsReply f).toList =
      (past ++ [f]).filterMap wsReply := by
    rw [List.filterMap_append]
    cases reply : wsReply f <;> simp [reply]
  simp only [answered] at called
  rw [wsDeliver]
  simp only
  rw [turns, wsDrain, called]
  simp only [Option.bind_eq_bind, Option.bind_some]
  by_cases binary : f.opcode = wsOpBinary
  · -- A second call reads what found no room before.
    obtain ⟨next, drained, online, kept, empty, silent⟩ := @wsDrain_waits
      ⟨true, left.take _, inside, left.drop _, (past ++ [f]).filterMap wsReply⟩ cap calls rfl
      (by rw [List.take_append_drop]; exact begun)
    have long : ¬ ((f.payload.getD []).length : Int) ≤ 0 := by
      rw [fine.wire.2]
      rcases fine.sizes with ⟨-, long, -⟩ | ⟨control, -⟩
      · omega
      · rw [binary] at control
        exact absurd control (by decide)
    refine ⟨(next, past.filterMap wsMessage ++ [f.payload.getD []]), ?_, online, ?_, empty, silent,
      ?_⟩
    · simp only [binary, if_true, long, if_false, drained, Option.map_some]
    · rw [kept, List.take_append_drop]
    · simp [List.filterMap_append, wsMessage, binary]
  · -- Nothing more is read, and nothing waits.
    have few : f.payloadLen.toNat ≤ 125 := by
      rcases fine.sizes with ⟨data, -⟩ | ⟨-, few⟩
      · exact absurd data binary
      · exact few
    have header := wsHeader_length f
    have fits : left.length ≤ wsBufSize - (wsWire f).length := by
      rw [fine.wire_length, wsBufSize]
      omega
    refine ⟨_, by simp only [binary, if_false, Int.le_refl, if_true, Option.map_some]; rfl, rfl,
      List.take_of_length_le fits, List.drop_eq_nil_of_le fits, rfl, ?_⟩
    simp [List.filterMap_append, wsMessage, binary]

/-- When no chunk of a stream of frames completes two, and no more comes behind a ping with a
payload than its header has octets, the payloads of all frames of data are reported and every ping
is answered with its payload. -/
theorem ws_messages_kept (cap : Nat) (large : 65000 ≤ cap) (frames : List WsFrame)
    (chunks : List Bytes) (fine : ∀ f ∈ frames, WsSendable f)
    (stream : chunks.flatten = (frames.map wsWire).flatten)
    (spaced : Spaced wsWire WsTolerated 0 frames chunks) :
    ∃ ws, chunks.foldlM (wsDeliver cap) (wsStart, []) = some (ws, frames.filterMap wsMessage) ∧
      ws.replies = frames.filterMap wsReply := by
  have nonempty : ∀ f ∈ frames.head?, ([] : Bytes).length < (wsWire f).length := by
    intro f first
    have := wsHeader_length f
    rw [(fine f (List.mem_of_mem_head? first)).wire_length, List.length_nil]
    omega
  have start : WsHolds [] [] (wsStart, []) := ⟨rfl, rfl, rfl, rfl, rfl⟩
  obtain ⟨⟨ws, received⟩, reached, final⟩ := receives_spaced (wsDeliver_waits cap)
    (fun holds fine short whole begun => wsDeliver_takes large holds fine short whole begun) fine
    nonempty start stream spaced
  refine ⟨ws, ?_, final.replies⟩
  rw [reached]
  exact congrArg (fun messages => some (ws, messages)) final.messages

/-- A ping and a frame of data that arrive one after the other are answered and reported. -/
theorem ws_messages_two :
    let ping : WsFrame := ⟨9, true, none, 1, some [5], by decide⟩
    let data : WsFrame := ⟨2, true, none, 1, some [7], by decide⟩
    ∃ ws, [[0x89, 1, 5], [0x82, 1, 7]].foldlM (wsDeliver 65000) (wsStart, []) = some (ws, [[7]]) ∧
      ws.replies = [[0x8A, 1, 5]] ∧ ws.replies = [ping, data].filterMap wsReply := by
  have sendable : ∀ f ∈ [(⟨9, true, none, 1, some [5], by decide⟩ : WsFrame),
      ⟨2, true, none, 1, some [7], by decide⟩], WsSendable f := by
    intro f member
    rcases List.mem_pair.mp member with rfl | rfl
    · exact ⟨rfl, fun _ => rfl, .inr ⟨.inl rfl, by decide⟩⟩
    · exact ⟨rfl, fun _ => rfl, .inl ⟨rfl, by decide, by decide⟩⟩
  obtain ⟨ws, reached, replies⟩ := ws_messages_kept 65000 (by decide) _ [[0x89, 1, 5], [0x82, 1, 7]]
    sendable (by decide) (by
      have first : (wsWire ⟨9, true, none, 1, some [5], by decide⟩).length = 3 := by decide
      have second : (wsWire ⟨2, true, none, 1, some [7], by decide⟩).length = 3 := by decide
      simp [Spaced, first, second, WsTolerated])
  exact ⟨ws, reached, replies.trans (by decide), replies⟩

/-- A ping with two octets and a frame of data in one chunk: the answer carries octets of the data
instead, and the data is not reported. -/
theorem ws_messages_mixed :
    ∃ ws, [[0x89, 2, 5, 6, 0x82, 2, 7, 8]].foldlM (wsDeliver 65000) (wsStart, []) = some (ws, []) ∧
      ws.replies = [[0x8A, 2, 7, 8]] :=
  ⟨_, rfl, by decide⟩

end Nxp
