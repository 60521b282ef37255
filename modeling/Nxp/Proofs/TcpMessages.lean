import Nxp.Core.PacketLaws
import Nxp.Lib.Framing
import Nxp.Transport.Tcp

/-! Which messages get through a byte stream that is cut anywhere. -/

namespace Nxp

open Framing

variable {tc : TcpTransport} {cap calls : Nat} {data held chunk left : Bytes}

/-- A message that the code can frame and that fits in the receive buffer with its length. -/
def TcpFits (data : Bytes) : Prop := 0 < data.length ∧ data.length ≤ 65534

@[simp] theorem tcpFrame_length (data : Bytes) :
    (tcpFrame data).length = data.length + 2 := by
  simp [tcpFrame]

/-- The length of a message is read from its first two octets. -/
theorem tcpFrame_read (fits : TcpFits data) {buf rest : Bytes}
    (begins : buf <+: tcpFrame data ++ rest) (two : 2 ≤ buf.length) :
    (readBigEndian (buf.take 2)).toNat = data.length := by
  obtain ⟨tail, whole⟩ := begins
  have head : buf.take 2 = [((UInt64.ofNat data.length) >>> 8).toUInt8,
      (UInt64.ofNat data.length).toUInt8] := by
    have same := congrArg (List.take 2) whole
    rw [List.take_append_of_le_length two] at same
    rw [same]
    rfl
  have short : UInt64.ofNat data.length ≤ 65535 := by
    rw [UInt64.le_iff_toNat_le, UInt64.toNat_ofNat']
    have := fits.2
    simp only [UInt64.reduceToNat]
    omega
  have small := fits.2
  rw [head, readBigEndian_pair short, UInt64.toNat_ofNat']
  omega

/-- Nothing happens to a transport whose socket is empty. -/
theorem tcpDrain_idle (empty : tc.socket = []) :
    tcpDrain cap (calls + 1) tc = some ([], tc) := by
  have none : tc.socket.take (tcpRecvBufSize - tc.recvBuf.length) = [] := by rw [empty, List.take_nil]
  simp only [tcpDrain, tcpRecv, none, if_true]
  rw [if_pos]
  split <;> decide

/-- The beginning of a message is kept until the rest comes. -/
theorem tcpDrain_waits (begun : Begun tcpFrame TcpFits (tc.recvBuf ++ tc.socket)) :
    ∃ next, tcpDrain cap (calls + 1) tc = some ([], next) ∧
      next.recvBuf = tc.recvBuf ++ tc.socket ∧ next.socket = [] := by
  by_cases empty : tc.socket = []
  · exact ⟨tc, tcpDrain_idle empty, by rw [empty, List.append_nil], empty⟩
  · obtain ⟨data, tail, fits, more, whole⟩ : ∃ data tail, TcpFits data ∧ tail ≠ [] ∧
        tc.recvBuf ++ tc.socket ++ tail = tcpFrame data := by
      rcases begun with none | some
      · exact absurd (List.append_eq_nil_iff.mp none).2 empty
      · exact some
    have short : (tc.recvBuf ++ tc.socket).length < data.length + 2 := by
      have size := congrArg List.length whole
      have := List.length_pos_iff.mpr more
      rw [tcpFrame_length, List.length_append] at size
      omega
    have room : tc.socket.length ≤ tcpRecvBufSize - tc.recvBuf.length := by
      have := fits.2
      rw [List.length_append] at short
      unfold tcpRecvBufSize
      omega
    have all := List.take_of_length_le room
    have rest := List.drop_eq_nil_of_le room
    unfold tcpDrain tcpRecv
    simp only [all, if_neg empty, rest]
    refine ⟨⟨tc.recvBuf ++ tc.socket, ?_, []⟩, ?_, rfl, rfl⟩
    · have := fits.2
      unfold tcpRecvBufSize
      omega
    · by_cases two : (tc.recvBuf ++ tc.socket).length < 2
      · simp only [if_pos two]
        rfl
      · have read := @tcpFrame_read data fits _ [] ⟨tail, by rw [whole, List.append_nil]⟩
          (Nat.le_of_not_lt two)
        have some := fits.1
        simp only [if_neg two, read, if_neg (Nat.ne_of_gt some), if_pos short]
        rfl

/-- A message is taken off the buffer by the first call, and what is behind it waits. -/
theorem tcpDrain_takes (large : 65535 ≤ cap) (fits : TcpFits data)
    (short : tc.recvBuf.length < (tcpFrame data).length)
    (whole : tc.recvBuf ++ tc.socket = tcpFrame data ++ left) (begun : Begun tcpFrame TcpFits left) :
    ∃ next, tcpDrain cap (calls + 2) tc = some ([data], next) ∧ next.recvBuf = left ∧
      next.socket = [] := by
  have small := fits.2
  have frame : (tcpFrame data).length ≤ tcpRecvBufSize := by
    rw [tcpFrame_length, tcpRecvBufSize]
    omega
  have fresh := reads_fresh frame short whole
  -- One call reads the message and what of the rest finds room behind it.
  obtain ⟨buf, rest⟩ := reads_word tc.bounded frame whole
  generalize tcpRecvBufSize - (tcpFrame data).length = room at buf rest
  have two : ¬ (tcpFrame data ++ left.take room).length < 2 := by
    rw [List.length_append, tcpFrame_length]
    omega
  have enough : ¬ (tcpFrame data ++ left.take room).length < data.length + 2 := by
    rw [List.length_append, tcpFrame_length]
    omega
  have read := tcpFrame_read fits (List.prefix_rfl) (Nat.le_of_not_lt two)
  have payload : ((tcpFrame data ++ left.take room).drop 2).take (min data.length cap) = data := by
    rw [Nat.min_eq_left (by omega)]
    exact List.take_left
  have behind : (tcpFrame data ++ left.take room).drop (data.length + 2) = left.take room := by
    rw [← tcpFrame_length, List.drop_left]
  have inside : (left.take room).length ≤ tcpRecvBufSize := by
    have room := congrArg List.length buf
    have := tc.bounded
    rw [List.length_append, List.length_append, List.length_take] at room
    omega
  obtain ⟨next, drained, kept, none⟩ :=
    @tcpDrain_waits ⟨left.take room, inside, left.drop room⟩ cap calls
      (by rw [List.take_append_drop]; exact begun)
  refine ⟨next, ?_, by rw [kept, List.take_append_drop], none⟩
  rw [tcpDrain, tcpRecv]
  simp only [if_neg fresh, buf, rest, if_neg two, read, if_neg (Nat.ne_of_gt fits.1), if_neg enough,
    payload, behind]
  rw [if_neg (by have := fits.1; omega), drained]
  rfl

/-- These messages were reported, and all else that arrived is in the buffer. -/
private def TcpHolds (past : List Bytes) (held : Bytes) (s : TcpTransport × List Bytes) : Prop :=
  s.1.recvBuf = held ∧ s.1.socket = [] ∧ s.2 = past

variable {s : TcpTransport × List Bytes} {past : List Bytes}

/-- A chunk that completes no message is held. -/
theorem tcpDeliver_waits (cap : Nat) (holds : TcpHolds past held s)
    (begun : Begun tcpFrame TcpFits (held ++ chunk)) :
    ∃ next, tcpDeliver cap s chunk = some next ∧ TcpHolds past (held ++ chunk) next := by
  obtain ⟨⟨buf, bounded, socket⟩, received⟩ := s
  obtain ⟨rfl, rfl, rfl⟩ := holds
  obtain ⟨next, drained, kept, none⟩ :=
    @tcpDrain_waits ⟨buf, bounded, [] ++ chunk⟩ cap ([] ++ chunk).length begun
  refine ⟨(next, received), ?_, kept, none, rfl⟩
  rw [tcpDeliver]
  simp only [drained, Option.map_some, List.append_nil]

/-- The chunk that completes a message delivers it. -/
theorem tcpDeliver_takes (large : 65535 ≤ cap) (holds : TcpHolds past held s)
    (fits : TcpFits data) (short : held.length < (tcpFrame data).length)
    (whole : held ++ chunk = tcpFrame data ++ left) (begun : Begun tcpFrame TcpFits left) :
    ∃ next, tcpDeliver cap s chunk = some next ∧ TcpHolds (past ++ [data]) left next := by
  obtain ⟨⟨buf, bounded, socket⟩, received⟩ := s
  obtain ⟨rfl, rfl, rfl⟩ := holds
  have fresh := fresh_of_completes short whole
  obtain ⟨calls, many⟩ := Nat.exists_eq_add_of_le (List.length_pos_iff.mpr fresh)
  obtain ⟨next, drained, kept, none⟩ :=
    @tcpDrain_takes ⟨buf, bounded, [] ++ chunk⟩ cap calls data left large fits short whole begun
  refine ⟨(next, received ++ [data]), ?_, kept, none, rfl⟩
  have turns : ([] ++ chunk).length + 1 = calls + 2 := by
    rw [List.nil_append]
    omega
  rw [tcpDeliver]
  simp only [turns, drained, Option.map_some]

/-- When every call of the sender puts a whole message of at most 65534 octets on the stream, and no
chunk of it completes two, the receiver reports exactly the messages. -/
theorem tcp_messages_kept (cap : Nat) (large : 65535 ≤ cap) (sends : List (Bytes × Nat))
    (chunks : List Bytes) (sizes : ∀ s ∈ sends, 0 < s.1.length ∧ s.1.length ≤ 65535 ∧ 0 < s.2)
    (stream : chunks.flatten = (sends.map fun s => (tcpSend s.1 s.2).2).flatten)
    (whole : ∀ s ∈ sends, s.1.length ≤ 65534 ∧ s.1.length + 2 ≤ s.2)
    (spaced : Spaced tcpFrame (fun _ _ => True) 0 (sends.map Prod.fst) chunks) :
    ∃ tc, chunks.foldlM (tcpDeliver cap) (tcpStart, []) = some (tc, sends.map Prod.fst) := by
  have sent (s : Bytes × Nat) (member : s ∈ sends) : (tcpSend s.1 s.2).2 = tcpFrame s.1 := by
    obtain ⟨short, all⟩ := whole s member
    rw [tcpSend, if_neg (by omega)]
    simp only
    rw [tcpFrame_length, Nat.min_eq_right all, ← tcpFrame_length, List.take_length]
  rw [List.map_congr_left sent] at stream
  have fits : ∀ data ∈ sends.map Prod.fst, TcpFits data := by
    intro data member
    obtain ⟨s, inside, rfl⟩ := List.mem_map.mp member
    exact ⟨(sizes s inside).1, (whole s inside).1⟩
  have nonempty : ∀ data ∈ (sends.map Prod.fst).head?,
      ([] : Bytes).length < (tcpFrame data).length := fun data _ => by simp
  have begins : [] ++ chunks.flatten = ((sends.map Prod.fst).map tcpFrame).flatten := by
    rw [List.nil_append, stream, List.map_map]
    rfl
  obtain ⟨⟨tc, received⟩, reached, -, -, rfl⟩ := receives_spaced (tcpDeliver_waits cap)
    (fun holds fits short whole begun _ => tcpDeliver_takes large holds fits short whole begun)
    fits nonempty (⟨rfl, rfl, rfl⟩ : TcpHolds [] [] (tcpStart, [])) begins spaced
  exact ⟨tc, reached⟩

/-- Two messages that arrive in three chunks are reported one after the other. -/
theorem tcp_messages_two : ∃ tc,
    [[0, 1, 7, 0], [2, 8], [9]].foldlM (tcpDeliver 65535) (tcpStart, []) =
      some (tc, [[7], [8, 9]]) :=
  tcp_messages_kept 65535 (by decide) [([7], 3), ([8, 9], 4)] [[0, 1, 7, 0], [2, 8], [9]]
    (by decide) (by decide) (by decide) (by simp [Spaced, tcpFrame])

/-- Two messages in one chunk: the second is not reported. A socket that accepts three of four
octets: the message is never reported. -/
theorem tcp_messages_lost :
    (∃ tc, [[0, 1, 7, 0, 1, 8]].foldlM (tcpDeliver 65535) (tcpStart, []) = some (tc, [[7]])) ∧
    tcpSend [8, 9] 3 = (1, [0, 2, 8]) ∧
    ∃ tc, [[0, 2, 8]].foldlM (tcpDeliver 65535) (tcpStart, []) = some (tc, []) :=
  ⟨⟨_, rfl⟩, by decide, ⟨_, rfl⟩⟩

end Nxp
