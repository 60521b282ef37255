import Nxp.Core.Exchange
import Nxp.Core.OpenLaws
import Nxp.Core.RecvLaws

/-! Which datagrams the peer can open, and that it finds the frames in them that were encoded. -/

namespace Nxp

/-- Two established connections, the one opening what the other seals and sends to it. -/
structure Paired (sender receiver : Conn) : Prop where
  sending : sender.state = .established
  taking : receiver.state = .established
  keyed : sender.crypto.available = true
  reads : receiver.Reads sender.crypto sender.dcid
  installed : ∀ hs, sender.handshake = some hs → hs.appKeys = sender.crypto

/-- Whether two connections are paired is decided on their states and keys. -/
instance (sender receiver : Conn) : Decidable (Paired sender receiver) :=
  decidable_of_iff (sender.state = .established ∧ receiver.state = .established ∧
      sender.crypto.available = true ∧ receiver.Reads sender.crypto sender.dcid ∧
      ∀ hs ∈ sender.handshake, hs.appKeys = sender.crypto)
    ⟨fun ⟨sending, taking, keyed, reads, installed⟩ => ⟨sending, taking, keyed, reads, installed⟩,
      fun ⟨sending, taking, keyed, reads, installed⟩ => ⟨sending, taking, keyed, reads, installed⟩⟩

/-- A datagram is opened and exactly the given frames are handed on for processing. -/
def Opens (evp : Evp) (env : Env) (receiver : Conn) (bytes : Bytes) (nowUs : UInt64)
    (frames : Bytes) : Prop :=
  ∃ call events, call.run evp = some frames ∧
    (connRecv evp env receiver bytes nowUs).2.trace =
      receiver.trace ++ .processed frames (some call) :: events

theorem longSpace_level (hs : Handshake) (level : CryptoLevel) :
    (longSpace hs level).1 ≠ .application := by
  cases level <;> simp [longSpace]

section Datagram

variable {evp : Evp} {env : Env} {sender receiver next : Conn} {maxLen pnLen : Nat}
  {nowUs : UInt64} {bytes frames : Bytes} {level : CryptoLevel}
  (sent : connSend evp env sender maxLen nowUs = some (.datagram bytes, next))
  (carried : Delivers env sender maxLen nowUs level pnLen frames)
include sent carried

/-- A datagram of the application level is its frames, sealed under the connection's keys. -/
theorem Delivers.sealed (paired : Paired sender receiver) (application : level = .application) :
    sealPacket evp sender.crypto (shortHeader sender.dcid pnLen sender.nextPktNum) pnLen
        sender.nextPktNum frames = some bytes ∧ 1 ≤ pnLen ∧ pnLen ≤ 4 := by
  -- What was sent and what is said to be carried are matched case by case.
  rcases connSend_datagram sent with
    ⟨hs, waiting, last, -, closed⟩ | ⟨hs, waiting, more, -⟩ | ⟨done, b, after, built, -, -, closed⟩
  · have installed := paired.installed hs (Option.filter_eq_some_iff.mp waiting).1
    cases carried with
    | notice waiting' last' =>
      rw [installed] at closed
      exact ⟨closed, by decide, by decide⟩
    | crypto waiting' more' =>
      cases waiting.symm.trans waiting'
      exact absurd last more'
    | packet done => cases waiting.symm.trans done
  · cases carried with
    | notice waiting' last' =>
      cases waiting.symm.trans waiting'
      exact absurd last' more
    | crypto => exact absurd application (longSpace_level _ _)
    | packet done => cases waiting.symm.trans done
  · cases carried with
    | notice waiting => cases done.symm.trans waiting
    | crypto => exact absurd application (longSpace_level _ _)
    | packet _ built' =>
      cases built.symm.trans built'
      have kept := buildFrames_assembles built
      have crypto : b.conn.crypto = sender.crypto := kept.crypto
      have number : b.conn.nextPktNum = sender.nextPktNum := kept.number
      unfold closePacket at closed
      rw [crypto, number, if_pos paired.keyed, Option.map_eq_some_iff] at closed
      obtain ⟨packet, closed, same⟩ := closed
      cases same
      exact ⟨closed, pktNumLen_bounds sender.nextPktNum sender.ack.largestRecvPn⟩

theorem Delivers.long (handshake : level ≠ .application) :
    ∃ first rest, bytes = first :: rest ∧ pktIsLongHeader first = true := by
  rcases connSend_datagram sent with
    ⟨hs, waiting, last, -, -⟩ | ⟨hs, waiting, -, long⟩ | ⟨done, -⟩
  · cases carried with
    | notice => exact absurd rfl handshake
    | crypto waiting' more' =>
      cases waiting.symm.trans waiting'
      exact absurd last more'
    | packet => exact absurd rfl handshake
  · exact long
  · cases carried with
    | notice => exact absurd rfl handshake
    | crypto waiting => cases done.symm.trans waiting
    | packet => exact absurd rfl handshake

end Datagram

theorem not_opens_of_silent {evp : Evp} {env : Env} {receiver : Conn} {bytes frames : Bytes}
    {nowUs : UInt64} (silent : (connRecv evp env receiver bytes nowUs).2.trace = receiver.trace) :
    ¬ Opens evp env receiver bytes nowUs frames := by
  rintro ⟨call, events, -, trace⟩
  rw [silent] at trace
  -- The trace would be longer than itself.
  have longer := congrArg List.length trace
  rw [List.length_append, List.length_cons] at longer
  omega

/-- A datagram is opened, up to the frames that were encoded, exactly when it is an application
packet long enough for the sample of header protection and no longer than the receiving buffer. -/
theorem sealed_opened_iff {evp : Evp} (inverts : evp.Inverts) {sender receiver next : Conn}
    (paired : Paired sender receiver) {sending taking : Env} {maxLen : Nat} {sentUs takenUs : UInt64}
    {bytes : Bytes}
    (sent : connSend evp sending sender maxLen sentUs = some (.datagram bytes, next))
    {level : CryptoLevel} {pnLen : Nat} {frames : Bytes}
    (carried : Delivers sending sender maxLen sentUs level pnLen frames)
    (numbered : level = .application → pktDecodePktNum receiver.ack.largestRecvPn
      (readBigEndian (pktNumBytes pnLen sender.nextPktNum)) pnLen = sender.nextPktNum) :
    Opens evp taking receiver bytes takenUs frames ↔
      level = .application ∧ 4 ≤ pnLen + frames.length ∧
        1 + sender.dcid.len + pnLen + frames.length + aeadTagLen ≤ packetBufSize := by
  have live : ¬ (receiver.state = .closed ∨ receiver.state = .draining) := by
    simp [paired.taking]
  by_cases application : level = .application
  · obtain ⟨closed, positive, short⟩ := carried.sealed sent paired application
    have length := sealPacket_length inverts closed
    obtain ⟨first, rest, shape, form⟩ := sealPacket_short inverts closed positive short
    -- The datagram reaches the path of short headers on a receiver that has only noted it.
    have taken : connRecv evp taking receiver bytes takenUs =
        recvShortPacket evp taking (noteRecv receiver bytes.length takenUs) bytes takenUs := by
      subst shape
      simp only [connRecv, if_neg live, form, Bool.false_eq_true, if_false]
    have reads : (noteRecv receiver bytes.length takenUs).Reads sender.crypto sender.dcid :=
      ⟨paired.reads.available, paired.reads.mirrored, paired.reads.algo, paired.reads.named⟩
    constructor
    · intro opens
      refine ⟨application, ?_, ?_⟩
      · -- Without a sample there is nothing to take the protection off with.
        by_contra tiny
        apply not_opens_of_silent _ opens
        rw [taken]
        unfold recvShortPacket
        rw [unprotectShort_unsampled inverts closed reads (by omega)]
        split <;> rfl
      · by_contra large
        apply not_opens_of_silent _ opens
        rw [taken]
        unfold recvShortPacket
        rw [if_pos (by omega)]
        rfl
    · rintro ⟨-, long, fits⟩
      have found : headerPktNum evp (noteRecv receiver bytes.length takenUs) bytes =
          some sender.nextPktNum := by
        rw [headerPktNum_sealed inverts closed reads positive short long]
        exact congrArg some (numbered application)
      obtain ⟨call, ran, processed⟩ := recvShortPacket_sealed inverts closed reads positive short
        long (by omega) found taking takenUs
      obtain ⟨events, trace, -⟩ := (processLoop_emits taking takenUs frames.length
        (Conn.observe { noteRecv receiver bytes.length takenUs with
          ack := ackOnPktRecv (noteRecv receiver bytes.length takenUs).ack sender.nextPktNum
            takenUs true } (.processed frames (some call))) frames).events
      refine ⟨call, events, ran, ?_⟩
      rw [taken, processed]
      show (processLoop _ _ _ _ _).2.trace = _
      rw [trace]
      simp only [Conn.observe, List.append_assoc, List.singleton_append]
      rfl
  · obtain ⟨first, rest, shape, form⟩ := carried.long sent application
    constructor
    · intro opens
      -- A long header leads into the handshake, whose packets are never handed on.
      apply (not_opens_of_silent _ opens).elim
      subst shape
      simp only [connRecv, if_neg live, form, if_true]
      exact (HandshakeOnly.recvHandshakePacket evp _ _).trace
    · rintro ⟨here, -⟩
      exact absurd here application

/-- What the client sends after the handshake, having the notice of the server to acknowledge. -/
def acknowledging : SendResult × Conn :=
  (connSend plainEvp plainEnv ((plainLink greeting).conn .a) 1200 1).getD
    (.nothing, (plainLink greeting).conn .a)

/-- The acknowledgement of the client is opened by the server. -/
theorem sealed_opened_ack :
    Opens plainEvp plainEnv ((plainLink greeting).conn .b) acknowledging.1.bytes 1
      [0x02, 0x00, 0x01, 0x00, 0x00] := by
  have all : Paired ((plainLink greeting).conn .a) ((plainLink greeting).conn .b) ∧
      acknowledging.1 = .datagram acknowledging.1.bytes ∧
      ((plainLink greeting).conn .a).handshake.filter handshakeHasData = none ∧
      nextPnLen ((plainLink greeting).conn .a) = 1 ∧
      (buildFrames plainEnv.turns (((plainLink greeting).conn .a).paced 1)
        (frameSpace (((plainLink greeting).conn .a).paced 1) 1200) 1).map (·.frames) =
          some [0x02, 0x00, 0x01, 0x00, 0x00] ∧
      pktDecodePktNum ((plainLink greeting).conn .b).ack.largestRecvPn
        (readBigEndian (pktNumBytes 1 ((plainLink greeting).conn .a).nextPktNum)) 1 =
          ((plainLink greeting).conn .a).nextPktNum ∧
      1 + ((plainLink greeting).conn .a).dcid.len + 1 + 5 + aeadTagLen ≤ packetBufSize := by
    decide +kernel
  obtain ⟨paired, filled, done, length, built, numbered, fits⟩ := all
  exact (sealed_opened_iff plainEvp_inverts paired (connSend_getD rfl filled)
    (Delivers.of_frames done length built) (fun _ => numbered)).mpr ⟨rfl, by decide, fits⟩

/-- The server sends an octet that gets lost, and its timer fires. -/
def probing : List LinkOp :=
  [.operate .b plainEnv (.openStream .reliable false),
    .operate .b plainEnv (.streamSend 1 [7] false), .operate .b plainEnv (.send 1200 1),
    .operate .b plainEnv (.onTimeout 10000000)]

/-- Two ends, the server being about to probe the client. -/
def probedLink : Link := plainLink (greeting ++ probing)

/-- What the server then sends. -/
def probe : SendResult × Conn :=
  (connSend plainEvp plainEnv (probedLink.conn .b) 1200 10000000).getD
    (.nothing, probedLink.conn .b)

/-- A lone PING is too short for the sample of header protection, and the client refuses it. -/
theorem lonePing_refused :
    Machine.attempt (linkStep plainEvp) (newLink plainConfig plainConfig false)
      (greeting ++ probing) = some probedLink ∧
    Paired (probedLink.conn .b) (probedLink.conn .a) ∧
    connSend plainEvp plainEnv (probedLink.conn .b) 1200 10000000 =
      some (.datagram probe.1.bytes, probe.2) ∧
    Delivers plainEnv (probedLink.conn .b) 1200 10000000 .application 1 [0x01] ∧
    pktDecodePktNum (probedLink.conn .a).ack.largestRecvPn
      (readBigEndian (pktNumBytes 1 (probedLink.conn .b).nextPktNum)) 1 =
        (probedLink.conn .b).nextPktNum ∧
    (connRecv plainEvp plainEnv (probedLink.conn .a) probe.1.bytes 10000000).1 = .cryptoFail ∧
    ∀ frames, ¬ Opens plainEvp plainEnv (probedLink.conn .a) probe.1.bytes 10000000 frames := by
  have all : (Machine.attempt (linkStep plainEvp) (newLink plainConfig plainConfig false)
        (greeting ++ probing)).isSome = true ∧
      Paired (probedLink.conn .b) (probedLink.conn .a) ∧
      probe.1 = .datagram probe.1.bytes ∧
      (probedLink.conn .b).handshake.filter handshakeHasData = none ∧
      nextPnLen (probedLink.conn .b) = 1 ∧
      (buildFrames plainEnv.turns ((probedLink.conn .b).paced 10000000)
        (frameSpace ((probedLink.conn .b).paced 10000000) 1200) 10000000).map (·.frames) =
          some [0x01] ∧
      pktDecodePktNum (probedLink.conn .a).ack.largestRecvPn
        (readBigEndian (pktNumBytes 1 (probedLink.conn .b).nextPktNum)) 1 =
          (probedLink.conn .b).nextPktNum ∧
      (connRecv plainEvp plainEnv (probedLink.conn .a) probe.1.bytes 10000000).1 = .cryptoFail ∧
      (connRecv plainEvp plainEnv (probedLink.conn .a) probe.1.bytes 10000000).2.trace =
        (probedLink.conn .a).trace := by
    decide +kernel
  obtain ⟨returns, paired, filled, done, length, built, numbered, refused, silent⟩ := all
  exact ⟨plainLink_reached returns, paired, connSend_getD rfl filled,
    Delivers.of_frames done length built, numbered, refused, fun _ => not_opens_of_silent silent⟩

theorem hpMasked_elsewhere (mask : Vector UInt8 5) (packet : Bytes) {pnOffset pnLen i : Nat}
    (behind : i ≠ 0) (outside : ¬ (pnOffset ≤ i ∧ i < pnOffset + pnLen)) :
    (hpMasked mask packet pnOffset pnLen)[i]? = packet[i]? := by
  unfold hpMasked
  rw [maskPktNum_getElem?, if_neg outside, List.getElem?_modify]
  simp [Ne.symm behind]

/-- Whatever the mask, a protected packet is given back octet by octet with the length of its
number, and both ways only the first octet and those of the number change. -/
theorem hpProtect_involution {evp : Evp} {algo : AeadAlgo} (hpKey : Key)
    (mask : Vector UInt8 16 → Vector UInt8 5)
    (masks : ∀ sample, generateHpMask evp algo hpKey sample = some (mask sample)) {packet : Bytes}
    {pnOffset pnLen : Nat} (behind : 1 ≤ pnOffset) (long : pnOffset + 20 ≤ packet.length)
    (number : (packet.headD 0 &&& 0x03).toNat = pnLen - 1) (positive : 1 ≤ pnLen) :
    (hpProtect evp algo hpKey packet pnOffset pnLen).1 = true ∧
    hpUnprotect evp algo hpKey (hpProtect evp algo hpKey packet pnOffset pnLen).2 pnOffset =
      some (pnLen, packet) ∧
    (∀ i ≠ 0, ¬ (pnOffset ≤ i ∧ i < pnOffset + pnLen) →
      (hpProtect evp algo hpKey packet pnOffset pnLen).2[i]? = packet[i]?) ∧
    ∀ received count clear, hpUnprotect evp algo hpKey received pnOffset = some (count, clear) →
      ∀ i ≠ 0, ¬ (pnOffset ≤ i ∧ i < pnOffset + count) → clear[i]? = received[i]? := by
  obtain ⟨done, back⟩ := hpUnprotect_hpProtect hpKey (fun sample => ⟨_, masks sample⟩) behind
    (show _ = pnLen by omega) long
  refine ⟨done, back, ?_, ?_⟩
  · intro i other outside
    unfold hpProtect
    split
    · rfl
    · split
      · rfl
      · exact hpMasked_elsewhere _ packet other outside
  · intro received count clear opened i other outside
    simp only [hpUnprotect, Option.bind_eq_bind, Option.bind_eq_some_iff, Option.some.injEq,
      Prod.mk.injEq] at opened
    obtain ⟨sample, -, made, -, rfl, rfl⟩ := opened
    exact hpMasked_elsewhere made received other outside

/-- Primitives that mask with the front of the sample. -/
def samplingEvp : Evp :=
  { plainEvp with hpMask := fun _ _ sample => some (toArray 5 sample.toList) }

/-- A short packet with a number of two octets is masked, and given back. -/
theorem hpProtect_involution_sampled :
    let packet : Bytes := 0x41 :: (List.range 24).map UInt8.ofNat
    let masked := (hpProtect samplingEvp .aes256Gcm (Vector.replicate 32 0) packet 1 2).2
    masked.take 4 = [0x45, 0x05, 0x07, 0x02] ∧
      hpUnprotect samplingEvp .aes256Gcm (Vector.replicate 32 0) masked 1 = some (2, packet) :=
  ⟨by decide, (hpProtect_involution (Vector.replicate 32 0) (fun sample => toArray 5 sample.toList)
    (fun _ => rfl) (by decide) (by decide) (by decide) (by decide)).2.1⟩

end Nxp
