import Nxp.Core.BuildLaws
import Nxp.Core.OpenLaws

/-! How far into the caller's buffer a call to send writes. -/

namespace Nxp

/-- How far a header and the frames sealed behind it reach; an unknown cipher writes nothing. -/
def sealExtent (algo : AeadAlgo) (hdr frames : Bytes) : Nat :=
  hdr.length + if getCipher algo then frames.length + aeadTagLen else 0

/-- How far the notice that the handshake is done reaches. -/
def sendHandshakeDoneExtent (conn : Conn) (hs : Handshake) (maxLen : Nat) : Nat :=
  if !hs.appKeys.available then 0
  else
    let pnLen := 1
    if maxLen < 1 + conn.dcid.len + pnLen + 4 + aeadTagLen then 0
    else
      match pktEncodeShortHeader conn.dcid false false conn.nextPktNum pnLen maxLen with
      | none => 0
      | some hdr => sealExtent hs.appKeys.algo hdr (handshakeDoneFrames pnLen)

/-- The frame with the handshake bytes that are sent next. -/
def cryptoFrames (hs : Handshake) : Option Bytes :=
  let (offset, data, _) := handshakeFillCrypto hs 512
  if data.isEmpty then none else frameEncodeCrypto (UInt64.ofNat offset) data 1024

/-- The header that goes before that frame. -/
def cryptoHeader (conn : Conn) (type : PacketType) (pktNum : UInt64) (frames : Bytes)
    (maxLen : Nat) : Option Bytes :=
  pktEncodeLongHeader type versionCurrent conn.dcid conn.scid []
    (UInt64.ofNat (frames.length + aeadTagLen + 1)) pktNum 1 maxLen

/-- How far handshake bytes under a long header reach. -/
def sendCryptoExtent (conn : Conn) (hs : Handshake) (level : CryptoLevel) (maxLen : Nat) : Nat :=
  let (_, keys, type, pktNum) := longSpace hs level
  if !keys.available then 0
  else
    match cryptoFrames hs with
    | none => 0
    | some frames =>
      match cryptoHeader conn type pktNum frames maxLen with
      | none => 0
      | some hdr => sealExtent keys.algo hdr frames

/-- How far what the handshake has to send reaches. -/
def sendHandshakeExtent (conn : Conn) (hs : Handshake) (maxLen : Nat) : Nat :=
  let level := handshakeSendLevel hs
  if hs.sendHandshakeDone ∧ level = .application then sendHandshakeDoneExtent conn hs maxLen
  else sendCryptoExtent conn hs level maxLen

/-- How far an application packet reaches. -/
def sendShortExtent (env : Env) (conn : Conn) (maxLen : Nat) (nowUs : UInt64) : Option Nat :=
  let pnLen := pktNumLen conn.nextPktNum conn.ack.largestRecvPn
  if maxLen < shortOverhead conn + 1 then some 0
  else do
    let b ← buildFrames env.turns conn (frameSpace conn maxLen) nowUs
    if b.frames.isEmpty then some 0
    else
      match pktEncodeShortHeader b.conn.dcid false false b.conn.nextPktNum pnLen maxLen with
      | none => some 0
      | some hdr =>
        if b.conn.crypto.available then some (sealExtent b.conn.crypto.algo hdr b.frames)
        else some (hdr.length + b.frames.length)

/-- How far a call to send writes. -/
def connSendExtent (env : Env) (conn : Conn) (maxLen : Nat) (nowUs : UInt64) : Option Nat :=
  match conn.handshake.filter handshakeHasData with
  | some hs => some (sendHandshakeExtent { conn with lastActivityUs := nowUs } hs maxLen)
  | none =>
    if conn.state ≠ .established ∧ conn.state ≠ .closing then some 0
    else if heldBack (conn.paced nowUs) then some 0
    else sendShortExtent env (conn.paced nowUs) maxLen nowUs

/-- Handshake bytes whose header fits are due only where the whole packet does. -/
def HelloFits (conn : Conn) (maxLen : Nat) : Prop :=
  ∀ hs, conn.handshake = some hs → handshakeHasData hs = true →
    ¬ (hs.sendHandshakeDone = true ∧ handshakeSendLevel hs = .application) →
    let (_, keys, type, pktNum) := longSpace hs (handshakeSendLevel hs)
    keys.available = true → getCipher keys.algo = true →
      ∀ frames hdr, cryptoFrames hs = some frames →
        cryptoHeader conn type pktNum frames maxLen = some hdr →
          hdr.length + frames.length + aeadTagLen ≤ maxLen

section Extent

variable {evp : Evp} {env : Env} {conn next : Conn} {hs : Handshake} {maxLen : Nat} {nowUs : UInt64}

/-- A sealed packet is as long as its header, frames and tag. -/
theorem sealPacket_extent (inverts : evp.Inverts) {keys : CryptoState} {hdr frames bytes : Bytes}
    {pnLen : Nat} {pktNum : UInt64}
    (closed : sealPacket evp keys hdr pnLen pktNum frames = some bytes) :
    bytes.length = sealExtent keys.algo hdr frames := by
  unfold sealPacket aeadEncrypt at closed
  unfold sealExtent
  split at closed
  · rename_i known
    obtain ⟨keyed, encrypted, rfl⟩ := Option.map_eq_some_iff.mp closed
    obtain ⟨⟨ciphertext, tag⟩, cipher, rfl⟩ := Option.map_eq_some_iff.mp encrypted
    rw [hpProtect_length, if_pos known, List.length_append, List.length_append,
      inverts.length cipher, Vector.length_toList]
    rfl
  · cases closed

theorem sendHandshakeDoneExtent_le (conn : Conn) (hs : Handshake) (maxLen : Nat) :
    sendHandshakeDoneExtent conn hs maxLen ≤ maxLen := by
  unfold sendHandshakeDoneExtent
  simp only
  split
  · exact Nat.zero_le _
  · split
    · exact Nat.zero_le _
    · rename_i room
      split
      · exact Nat.zero_le _
      · rename_i hdr headed
        have size := pktEncodeShortHeader_length headed
        have padded : (handshakeDoneFrames 1).length = 4 := by decide
        unfold sealExtent
        split <;> omega

/-- An application packet stays in the buffer. -/
theorem sendShortExtent_le {extent : Nat}
    (reached : sendShortExtent env conn maxLen nowUs = some extent) : extent ≤ maxLen := by
  unfold sendShortExtent at reached
  simp only at reached
  split at reached
  · cases reached
    exact Nat.zero_le _
  · rename_i room
    obtain ⟨b, built, reached⟩ := Option.bind_eq_some_iff.mp reached
    obtain ⟨control, streams, laid⟩ := buildFrames_laid built
    have assembles := buildFrames_assembles built
    have frames := laid.room
    split at reached
    · cases reached
      exact Nat.zero_le _
    · split at reached
      · cases reached
        exact Nat.zero_le _
      · rename_i hdr headed
        have size := pktEncodeShortHeader_length headed
        rw [assembles.dcid] at size
        -- The room for frames is what the header and the tag leave.
        have space : frameSpace conn maxLen + shortOverhead conn ≤ maxLen := by
          have least : frameSpace conn maxLen ≤ maxLen - shortOverhead conn := Nat.min_le_left _ _
          omega
        unfold shortOverhead at space
        rw [assembles.crypto] at reached
        split at reached
        · rename_i keyed
          rw [if_pos keyed] at space
          cases reached
          unfold sealExtent
          split <;> omega
        · cases reached
          omega

/-- Handshake bytes stay in the buffer exactly if the whole packet fits once its header does. -/
theorem sendCryptoExtent_le_iff (conn : Conn) (hs : Handshake) (level : CryptoLevel)
    (maxLen : Nat) :
    sendCryptoExtent conn hs level maxLen ≤ maxLen ↔
      let (_, keys, type, pktNum) := longSpace hs level
      keys.available = true → getCipher keys.algo = true →
        ∀ frames hdr, cryptoFrames hs = some frames →
          cryptoHeader conn type pktNum frames maxLen = some hdr →
            hdr.length + frames.length + aeadTagLen ≤ maxLen := by
  unfold sendCryptoExtent
  generalize longSpace hs level = found
  obtain ⟨_, keys, type, pktNum⟩ := found
  simp only
  constructor
  · intro reached available known frames hdr filled headed
    simp only [available, filled, headed, sealExtent, known] at reached
    simpa [Nat.add_assoc] using reached
  · intro fits
    split
    · exact Nat.zero_le _
    · rename_i available
      split
      · exact Nat.zero_le _
      · rename_i frames filled
        split
        · exact Nat.zero_le _
        · rename_i hdr headed
          have room : hdr.length ≤ maxLen := pktEncodeLongHeader_room headed
          unfold sealExtent
          split
          · rename_i known
            have whole := fits (by simpa using available) known frames hdr filled headed
            omega
          · omega

theorem sendHandshakeExtent_le_iff (present : conn.handshake = some hs)
    (waiting : handshakeHasData hs = true) (maxLen : Nat) :
    sendHandshakeExtent conn hs maxLen ≤ maxLen ↔ HelloFits conn maxLen := by
  have only : HelloFits conn maxLen ↔
      (¬ (hs.sendHandshakeDone = true ∧ handshakeSendLevel hs = .application) →
        sendCryptoExtent conn hs (handshakeSendLevel hs) maxLen ≤ maxLen) := by
    rw [sendCryptoExtent_le_iff]
    constructor
    · exact fun fits => fits hs present waiting
    · intro fits other found _
      cases present.symm.trans found
      exact fits
  rw [only]
  unfold sendHandshakeExtent
  simp only
  split
  · rename_i done
    have within := sendHandshakeDoneExtent_le conn hs maxLen
    simp [done, within]
  · rename_i crypto
    simp [crypto]

theorem connSendExtent_le_iff {extent : Nat}
    (reached : connSendExtent env conn maxLen nowUs = some extent) :
    extent ≤ maxLen ↔ HelloFits conn maxLen := by
  unfold connSendExtent at reached
  split at reached
  · rename_i hs found
    rw [Option.filter_eq_some_iff] at found
    cases reached
    exact @sendHandshakeExtent_le_iff { conn with lastActivityUs := nowUs } hs found.1 found.2 maxLen
  · rename_i quiet
    have fits : HelloFits conn maxLen := by
      intro hs present waiting
      rw [present, Option.filter_some, if_pos waiting] at quiet
      cases quiet
    simp only [fits, iff_true]
    split at reached
    · cases reached
      exact Nat.zero_le _
    · split at reached
      · cases reached
        exact Nat.zero_le _
      · exact sendShortExtent_le reached

/-- What the handshake sends is as long as its extent. -/
theorem HandshakeSent.extent (inverts : evp.Inverts) {bytes : Bytes}
    (sent : HandshakeSent evp conn hs maxLen (.datagram bytes) next) :
    bytes.length = sendHandshakeExtent conn hs maxLen := by
  unfold sendHandshakeExtent
  cases sent with
  | still quiet => exact absurd rfl (quiet bytes)
  | taken quiet => exact absurd rfl (quiet bytes)
  | done last available room closed =>
    have headed := pktEncodeShortHeader_fits conn.dcid conn.nextPktNum (Nat.le_refl 1) (by decide)
      (show 1 + conn.dcid.len + 1 ≤ maxLen by omega)
    simp only
    rw [if_pos ⟨last.1, last.2⟩, sendHandshakeDoneExtent, if_neg (by simp [available])]
    simp only
    rw [if_neg (by omega), headed]
    exact sealPacket_extent inverts closed
  | @crypto _ _ _ _ frames _ _ early space available waiting encoded headed closed =>
    have filled : cryptoFrames hs = some frames := by
      unfold cryptoFrames
      simp only
      rw [if_neg (by simp [handshakeFillCrypto, waiting]), encoded]
    simp only
    rw [if_neg (show ¬ (_ ∧ _) from early), sendCryptoExtent, space]
    simp only
    rw [if_neg (by simp [available]), filled]
    simp only
    rw [cryptoHeader, headed]
    exact sealPacket_extent inverts closed

/-- An application packet is as long as its extent. -/
theorem ShortSent.extent (inverts : evp.Inverts) {result : SendResult}
    (sent : ShortSent evp env conn maxLen nowUs result next) :
    ∃ extent, sendShortExtent env conn maxLen nowUs = some extent ∧
      ∀ bytes, result = .datagram bytes → bytes.length = extent := by
  unfold sendShortExtent
  simp only
  cases sent with
  | cramped short =>
    rw [if_pos (by omega)]
    exact ⟨0, rfl, fun _ same => by cases same⟩
  | empty built roomy void =>
    rw [if_neg (by omega), built, Option.bind_eq_bind, Option.bind_some, if_pos (by simp [void])]
    exact ⟨0, rfl, fun _ same => by cases same⟩
  | refused built roomy filled closed =>
    rw [if_neg (by omega), built, Option.bind_eq_bind, Option.bind_some, if_neg (by simp [filled])]
    split
    · exact ⟨0, rfl, fun _ same => by cases same⟩
    · split <;> exact ⟨_, rfl, fun _ same => by cases same⟩
  | sent built roomy filled closed =>
    have assembles := buildFrames_assembles built
    have headed := nextShortHeader_fits roomy
    unfold nextPnLen at headed
    rw [if_neg (by omega), built, Option.bind_eq_bind, Option.bind_some, if_neg (by simp [filled]),
      assembles.dcid, assembles.number, headed]
    simp only
    unfold closePacket at closed
    split at closed
    · rename_i available
      rw [if_pos available]
      obtain ⟨packet, clear, same⟩ := Option.map_eq_some_iff.mp closed
      cases same
      refine ⟨_, rfl, fun other same => ?_⟩
      cases same
      exact sealPacket_extent inverts clear
    · rename_i plain
      rw [if_neg plain]
      cases closed
      refine ⟨_, rfl, fun other same => ?_⟩
      cases same
      exact List.length_append

/-- Every call to send has an extent, which is the length of the datagram it hands back if it hands
back one. -/
theorem connSend_extent (inverts : evp.Inverts) {result : SendResult}
    (called : connSend evp env conn maxLen nowUs = some (result, next)) :
    ∃ extent, connSendExtent env conn maxLen nowUs = some extent ∧
      ∀ bytes, result = .datagram bytes → bytes.length = extent := by
  unfold connSendExtent
  cases connSend_sent called with
  | handshake waiting sent =>
    rw [waiting]
    refine ⟨_, rfl, fun bytes same => ?_⟩
    subst same
    exact sent.extent inverts
  | closed quiet idle =>
    rw [quiet, if_pos idle]
    exact ⟨0, rfl, fun _ same => by cases same⟩
  | held quiet busy paced =>
    rw [quiet, if_neg fun idle => busy.elim idle.1 idle.2, if_pos paced]
    exact ⟨0, rfl, fun _ same => by cases same⟩
  | short quiet busy free sent =>
    rw [quiet, if_neg fun idle => busy.elim idle.1 idle.2, if_neg (by simp [free])]
    exact sent.extent inverts

end Extent

/-- A call to send stays in the caller's buffer exactly if handshake bytes fit once their header
does, and hands back what it wrote. -/
theorem output_within_iff {evp : Evp} (inverts : evp.Inverts) {env : Env} {conn next : Conn}
    {maxLen : Nat} {nowUs : UInt64} {result : SendResult}
    (called : connSend evp env conn maxLen nowUs = some (result, next)) :
    ∃ extent, connSendExtent env conn maxLen nowUs = some extent ∧
      (∀ bytes, result = .datagram bytes → bytes.length = extent) ∧
      (extent ≤ maxLen ↔ HelloFits conn maxLen) := by
  obtain ⟨extent, reached, length⟩ := connSend_extent inverts called
  exact ⟨extent, reached, length, connSendExtent_le_iff reached⟩

/-- A client that has started its handshake sends its hello into a buffer of this size. -/
def helloInto (maxLen : Nat) : SendResult × Conn :=
  (connSend plainEvp plainEnv startedClient maxLen 0).getD (.nothing, startedClient)

/-- A hello stays in a buffer of common size. -/
theorem output_within_iff_hello :
    connSend plainEvp plainEnv startedClient 1200 0 =
        some (.datagram (helloInto 1200).1.bytes, (helloInto 1200).2) ∧
      ∃ extent, connSendExtent plainEnv startedClient 1200 0 = some extent ∧
        (∀ bytes, SendResult.datagram (helloInto 1200).1.bytes = .datagram bytes →
          bytes.length = extent) ∧
        (extent ≤ 1200 ↔ HelloFits startedClient 1200) := by
  have called : connSend plainEvp plainEnv startedClient 1200 0 =
      some (.datagram (helloInto 1200).1.bytes, (helloInto 1200).2) :=
    connSend_getD rfl (by decide +kernel)
  exact ⟨called, output_within_iff plainEvp_inverts called⟩

/-- A hello of ninety octets is written into a buffer of fifty. -/
theorem hello_overruns :
    connStartHandshake plainEvp plainEnv (connCreate plainConfig false true) ConnId.empty =
      (.ok, startedClient) ∧
    (helloInto 50).1.bytes.length = 90 ∧ connSendExtent plainEnv startedClient 50 0 = some 90 :=
  ⟨startedClient_started, by decide +kernel⟩

end Nxp
