import Nxp.Core.SendLaws
import Nxp.Crypto.SealLaws

/-! That a packet sealed by one side is opened by the other, from the header to the frames. -/

namespace Nxp

variable {maxLen : Nat} {env : Env} {nowUs : UInt64}

/-- The simple primitives open what they sealed. -/
theorem plainEvp_inverts : plainEvp.Inverts where
  opens sealed := by
    cases sealed
    rfl
  length sealed := by
    cases sealed
    rfl
  masks _ _ _ _ := rfl

theorem maskFirst_form (mask : Vector UInt8 5) (first : UInt8) :
    maskFirst mask first &&& 0x80 = first &&& 0x80 := by
  unfold maskFirst
  split
  · exact Word.and_xor_masked (by decide) first mask[0]
  · exact Word.and_xor_masked (by decide) first mask[0]

theorem hpProtect_form (evp : Evp) (algo : AeadAlgo) (hpKey : Key) (packet : Bytes)
    {pnOffset : Nat} (behind : 0 < pnOffset) (pnLen : Nat) :
    (hpProtect evp algo hpKey packet pnOffset pnLen).2.head?.map pktIsLongHeader =
      packet.head?.map pktIsLongHeader := by
  unfold hpProtect
  split
  · rfl
  · split
    · rfl
    · rename_i mask _
      -- The number stands behind the first octet, which keeps its topmost bit.
      simp only [List.head?_eq_getElem?]
      rw [maskPktNum_getElem?, if_neg (by omega), List.getElem?_modify]
      cases packet[0]? <;> simp [pktIsLongHeader, maskFirst_form]

/-- Packet number a datagram carries in its short header, as far as the header can be read. -/
def headerPktNum (evp : Evp) (conn : Conn) (data : Bytes) : Option UInt64 := do
  let pkt ← unprotectShort evp conn data
  let hdr ← pktDecodeShortHeader pkt conn.scid.len conn.scid_len_le
  some (pktDecodePktNum conn.ack.largestRecvPn hdr.pktNum hdr.pktNumLen)

/-- A connection that can read what is sealed under some keys and sent to some identifier. -/
structure Conn.Reads (receiver : Conn) (keys : CryptoState) (dcid : ConnId) : Prop where
  available : receiver.crypto.available = true
  mirrored : receiver.crypto.recv = keys.send
  algo : receiver.crypto.algo = keys.algo
  named : receiver.scid.len = dcid.len

/-- Whether a connection can read something is decided on its keys and identifier. -/
instance (receiver : Conn) (keys : CryptoState) (dcid : ConnId) :
    Decidable (receiver.Reads keys dcid) :=
  decidable_of_iff (receiver.crypto.available = true ∧ receiver.crypto.recv = keys.send ∧
      receiver.crypto.algo = keys.algo ∧ receiver.scid.len = dcid.len)
    ⟨fun ⟨available, mirrored, algo, named⟩ => ⟨available, mirrored, algo, named⟩,
      fun ⟨available, mirrored, algo, named⟩ => ⟨available, mirrored, algo, named⟩⟩

theorem Conn.Reads.parses {receiver : Conn} {keys : CryptoState} {dcid : ConnId}
    (reads : receiver.Reads keys dcid) {pnLen : Nat} (positive : 1 ≤ pnLen) (short : pnLen ≤ 4)
    (pktNum : UInt64) (rest : Bytes) :
    ∃ hdr, pktDecodeShortHeader (shortHeader dcid pnLen pktNum ++ rest) receiver.scid.len
        receiver.scid.bounded = some hdr ∧
      hdr.pktNum = readBigEndian (pktNumBytes pnLen pktNum) ∧ hdr.pktNumLen = pnLen ∧
      hdr.headerLen = 1 + dcid.len + pnLen :=
  pktDecodeShortHeader_shortHeader positive short rest receiver.scid.bounded reads.named

section Sealed

variable {evp : Evp} (inverts : evp.Inverts) {keys : CryptoState} {dcid : ConnId} {pnLen : Nat}
  {pktNum : UInt64} {frames bytes : Bytes} {receiver : Conn}
  (closed : sealPacket evp keys (shortHeader dcid pnLen pktNum) pnLen pktNum frames = some bytes)
include inverts closed

theorem sealPacket_parts :
    ∃ out, out.length = frames.length + aeadTagLen ∧ getCipher keys.algo = true ∧
      aeadDecrypt evp keys.algo keys.send.key (cryptoMakeNonce keys.send.iv pktNum)
        (shortHeader dcid pnLen pktNum) out = some frames ∧
      bytes = (hpProtect evp keys.algo keys.send.hpKey (shortHeader dcid pnLen pktNum ++ out)
        (1 + dcid.len) pnLen).2 := by
  unfold sealPacket at closed
  rw [Option.map_eq_some_iff] at closed
  obtain ⟨out, encrypted, rfl⟩ := closed
  obtain ⟨opens, length, cipher⟩ := aeadDecrypt_aeadEncrypt inverts encrypted
  refine ⟨out, length, cipher, opens, ?_⟩
  rw [shortHeader_length, Nat.add_sub_cancel]

/-- A sealed packet is longer than its frames by header and tag. -/
theorem sealPacket_length :
    bytes.length = 1 + dcid.len + pnLen + frames.length + aeadTagLen := by
  obtain ⟨out, length, -, -, rfl⟩ := sealPacket_parts inverts closed
  rw [hpProtect_length, List.length_append, shortHeader_length, length]
  omega

/-- A sealed application packet is not taken for a handshake packet. -/
theorem sealPacket_short (positive : 1 ≤ pnLen) (short : pnLen ≤ 4) :
    ∃ first rest, bytes = first :: rest ∧ pktIsLongHeader first = false := by
  obtain ⟨out, -, -, -, rfl⟩ := sealPacket_parts inverts closed
  have form := hpProtect_form evp keys.algo keys.send.hpKey
    (shortHeader dcid pnLen pktNum ++ out) (show 0 < 1 + dcid.len by omega) pnLen
  have clear : pktIsLongHeader (shortFirstByte false false pnLen) = false := by
    simp [pktIsLongHeader, (shortFirstByte_fields false false positive short).1]
  cases packet : (hpProtect evp keys.algo keys.send.hpKey (shortHeader dcid pnLen pktNum ++ out)
      (1 + dcid.len) pnLen).2 with
  | nil =>
    rw [packet] at form
    cases form
  | cons first rest =>
    rw [packet] at form
    refine ⟨first, rest, rfl, ?_⟩
    exact (Option.some.inj form).trans clear

theorem unprotectShort_sealed (reads : receiver.Reads keys dcid) (positive : 1 ≤ pnLen)
    (short : pnLen ≤ 4) (long : 4 ≤ pnLen + frames.length) :
    ∃ out, unprotectShort evp receiver bytes = some (shortHeader dcid pnLen pktNum ++ out) ∧
      aeadDecrypt evp keys.algo keys.send.key (cryptoMakeNonce keys.send.iv pktNum)
        (shortHeader dcid pnLen pktNum) out = some frames := by
  obtain ⟨out, length, cipher, opens, rfl⟩ := sealPacket_parts inverts closed
  refine ⟨out, ?_, opens⟩
  have size : 1 + dcid.len + 4 + hpSampleLen ≤ (shortHeader dcid pnLen pktNum ++ out).length := by
    rw [List.length_append, shortHeader_length, length]
    unfold hpSampleLen aeadTagLen
    omega
  have number : ((shortHeader dcid pnLen pktNum ++ out).headD 0 &&& 0x03).toNat + 1 = pnLen :=
    (shortFirstByte_fields false false positive short).2.2.1
  have clear := (hpUnprotect_hpProtect keys.send.hpKey (generateHpMask_total _ inverts cipher)
    (show 0 < 1 + dcid.len by omega) number size).2
  unfold unprotectShort
  rw [if_pos reads.available, reads.mirrored, reads.algo, reads.named, clear]
  rfl

/-- A packet too short to be sampled cannot be read back. -/
theorem unprotectShort_unsampled (reads : receiver.Reads keys dcid)
    (tiny : pnLen + frames.length < 4) : unprotectShort evp receiver bytes = none := by
  obtain ⟨out, length, -, -, rfl⟩ := sealPacket_parts inverts closed
  have size : ¬ 1 + dcid.len + 4 + hpSampleLen ≤
      (shortHeader dcid pnLen pktNum ++ out).length := by
    rw [List.length_append, shortHeader_length, length]
    unfold hpSampleLen aeadTagLen
    omega
  unfold unprotectShort
  rw [if_pos reads.available, reads.mirrored, reads.algo, reads.named,
    hpUnprotect_short keys.send.hpKey size]
  rfl

/-- The number a receiver makes of a sealed packet, as the low octets of it stand in the header. -/
theorem headerPktNum_sealed (reads : receiver.Reads keys dcid) (positive : 1 ≤ pnLen)
    (short : pnLen ≤ 4) (long : 4 ≤ pnLen + frames.length) :
    headerPktNum evp receiver bytes = some (pktDecodePktNum receiver.ack.largestRecvPn
      (readBigEndian (pktNumBytes pnLen pktNum)) pnLen) := by
  obtain ⟨out, clear, -⟩ := unprotectShort_sealed inverts closed reads positive short long
  obtain ⟨hdr, parsed, number, length, -⟩ := reads.parses positive short pktNum out
  unfold headerPktNum
  simp only [clear, parsed, number, length, Option.bind_eq_bind, Option.bind_some]

/-- A sealed packet whose number the receiver reconstructs has its frames processed. -/
theorem recvShortPacket_sealed (reads : receiver.Reads keys dcid) (positive : 1 ≤ pnLen)
    (short : pnLen ≤ 4) (long : 4 ≤ pnLen + frames.length) (fits : bytes.length ≤ packetBufSize)
    (found : headerPktNum evp receiver bytes = some pktNum) (env : Env) (nowUs : UInt64) :
    ∃ call, call.run evp = some frames ∧
      recvShortPacket evp env receiver bytes nowUs =
        processFrames env
          (Conn.observe { receiver with ack := ackOnPktRecv receiver.ack pktNum nowUs true }
            (.processed frames (some call))) frames nowUs := by
  obtain ⟨out, clear, opens⟩ := unprotectShort_sealed inverts closed reads positive short long
  obtain ⟨hdr, parsed, number, length, size⟩ := reads.parses positive short pktNum out
  rw [headerPktNum_sealed inverts closed reads positive short long, Option.some.injEq] at found
  have split : (shortHeader dcid pnLen pktNum ++ out).take hdr.headerLen =
        shortHeader dcid pnLen pktNum ∧
      (shortHeader dcid pnLen pktNum ++ out).drop hdr.headerLen = out := by
    rw [size, ← shortHeader_length]
    exact ⟨List.take_left, List.drop_left⟩
  let call := openCall { receiver with ack := ackOnPktRecv receiver.ack pktNum nowUs true }
    (shortHeader dcid pnLen pktNum ++ out) hdr.headerLen pktNum
  have ran : call.run evp = some frames := by
    simp only [call, OpenCall.run, openCall, reads.algo, reads.mirrored, split.1, split.2, opens]
  refine ⟨call, ran, ?_⟩
  unfold recvShortPacket openShort
  rw [if_neg (by omega)]
  simp only [clear, parsed, number, length, found, reads.available, if_true]
  simp only [call] at ran
  rw [ran]
  rfl

end Sealed

/-- What is sealed behind a long header begins as that header does. -/
theorem sealPacket_long {evp : Evp} {keys : CryptoState} {type : PacketType} {version : UInt32}
    {dcid scid : ConnId} {length pktNum : UInt64} {token hdr frames bytes : Bytes}
    (headed : pktEncodeLongHeader type version dcid scid token length pktNum 1 maxLen = some hdr)
    (closed : sealPacket evp keys hdr 1 pktNum frames = some bytes) :
    ∃ first rest, bytes = first :: rest ∧ pktIsLongHeader first = true := by
  obtain ⟨typeBits, rest, rfl, behind⟩ := pktEncodeLongHeader_head headed
  unfold sealPacket at closed
  rw [Option.map_eq_some_iff] at closed
  obtain ⟨payload, -, rfl⟩ := closed
  -- Header protection leaves the kind of the header as it was encoded.
  have form := hpProtect_form evp keys.algo keys.send.hpKey (longFirstByte typeBits 1 :: rest ++ payload)
    (show 0 < (longFirstByte typeBits 1 :: rest).length - 1 by omega) 1
  rw [List.cons_append, List.head?_cons, Option.map_some, longFirstByte_long] at form
  obtain ⟨first, found, long⟩ := Option.map_eq_some_iff.mp form
  obtain ⟨tail, shape⟩ := List.head?_eq_some_iff.mp found
  exact ⟨first, tail, shape, long⟩

/-- What a datagram that was sent is: the notice of the end of the handshake, handshake bytes, or an
application packet. -/
theorem connSend_datagram {evp : Evp} {conn next : Conn}
    {bytes : Bytes} (sent : connSend evp env conn maxLen nowUs = some (.datagram bytes, next)) :
    (∃ hs, conn.handshake.filter handshakeHasData = some hs ∧ hs.OnlyNotice ∧
        hs.appKeys.available = true ∧
        sealPacket evp hs.appKeys (shortHeader conn.dcid 1 conn.nextPktNum) 1 conn.nextPktNum
          (handshakeDoneFrames 1) = some bytes) ∨
      (∃ hs, conn.handshake.filter handshakeHasData = some hs ∧ ¬ hs.OnlyNotice ∧
        ∃ first rest, bytes = first :: rest ∧ pktIsLongHeader first = true) ∨
      (conn.handshake.filter handshakeHasData = none ∧
        ∃ b closed, buildFrames env.turns (conn.paced nowUs) (frameSpace (conn.paced nowUs) maxLen)
            nowUs = some b ∧
          shortOverhead conn < maxLen ∧ b.frames ≠ [] ∧
          closePacket evp b.conn (shortHeader conn.dcid (nextPnLen conn) conn.nextPktNum)
            (nextPnLen conn) b.frames = some (bytes, closed)) := by
  cases connSend_sent sent with
  | handshake waiting packet =>
    cases packet with
    | still quiet => exact absurd rfl (quiet bytes)
    | taken quiet => exact absurd rfl (quiet bytes)
    | done last available _ closed => exact .inl ⟨_, waiting, last, available, closed⟩
    | crypto early _ _ _ _ headed closed =>
      exact .inr (.inl ⟨_, waiting, early, sealPacket_long headed closed⟩)
  | short quiet busy free packet =>
    cases packet with
    | sent built roomy filled closed =>
      exact .inr (.inr ⟨quiet, _, _, built, roomy, filled, closed⟩)

/-- Level, length of the packet number and frames of the datagram a connection sends next. -/
inductive Delivers (env : Env) (sender : Conn) (maxLen : Nat) (nowUs : UInt64) :
    CryptoLevel → Nat → Bytes → Prop
  | notice {hs : Handshake} (waiting : sender.handshake.filter handshakeHasData = some hs)
    (last : hs.OnlyNotice) : Delivers env sender maxLen nowUs .application 1 (handshakeDoneFrames 1)
  | crypto {hs : Handshake} {frames : Bytes}
    (waiting : sender.handshake.filter handshakeHasData = some hs) (more : ¬ hs.OnlyNotice)
    (encoded : frameEncodeCrypto (UInt64.ofNat (handshakeFillCrypto hs 512).1)
      (handshakeFillCrypto hs 512).2.1 1024 = some frames) :
    Delivers env sender maxLen nowUs (longSpace hs (handshakeSendLevel hs)).1 1 frames
  | packet {b : SendBuild} (done : sender.handshake.filter handshakeHasData = none)
    (built : buildFrames env.turns (sender.paced nowUs) (frameSpace (sender.paced nowUs) maxLen)
      nowUs = some b) :
    Delivers env sender maxLen nowUs .application (nextPnLen sender) b.frames

/-- A connection without anything of the handshake to send delivers the frames it builds. -/
theorem Delivers.of_frames {sender : Conn} {pnLen : Nat} {frames : Bytes}
    (done : sender.handshake.filter handshakeHasData = none) (length : nextPnLen sender = pnLen)
    (built : (buildFrames env.turns (sender.paced nowUs) (frameSpace (sender.paced nowUs) maxLen)
      nowUs).map (·.frames) = some frames) :
    Delivers env sender maxLen nowUs .application pnLen frames := by
  obtain ⟨b, made, rfl⟩ := Option.map_eq_some_iff.mp built
  rw [← length]
  exact .packet done made

end Nxp
