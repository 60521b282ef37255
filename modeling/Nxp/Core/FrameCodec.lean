import Nxp.Core.Frame
import Nxp.Core.Packet
import Nxp.Util.VarintLaws

/-! The octets of every frame, and that its decoder takes them back. -/

namespace Nxp

variable {value : UInt64} {bufLen limit count : Nat} {data bytes : Bytes} {type : UInt8}
  {f : FrameStream} {vals : List UInt64} {next : UInt64 × Bytes → Option α}

/-- The octets of values one after another. -/
def varintsOctets (vals : List UInt64) : Bytes := vals.flatMap varintOctets

/-- What is written only where it fits. -/
theorem guarded_iff {octets : Bytes} :
    (if bufLen < octets.length then none else some octets) = some bytes ↔
      bytes = octets ∧ bytes.length ≤ bufLen := by
  split
  · refine iff_of_false nofun fun ⟨same, fits⟩ => ?_
    rw [same] at fits
    omega
  · rw [Option.some.injEq, eq_comm]
    refine (and_iff_left_of_imp fun same => ?_).symm
    rw [same]
    omega

/-- A value in range is written wherever its one, two, four or eight octets fit. -/
theorem varintEncode_sized (within : value ≤ varintMax) :
    ∃ octets : Bytes, octets.length ≤ 8 ∧
      ∀ room, varintEncode value room = if room < octets.length then none else some octets := by
  by_cases one : value ≤ 63
  · exact ⟨[value.toUInt8], by simp, fun room => by simp [varintEncode, one]⟩
  by_cases two : value ≤ 16383
  · exact ⟨[0x40 ||| octetAt value 8, octetAt value 0], by simp,
      fun room => by simp [varintEncode, one, two]⟩
  by_cases four : value ≤ 1073741823
  · exact ⟨[0x80 ||| octetAt value 24, octetAt value 16, octetAt value 8, octetAt value 0], by simp,
      fun room => by simp [varintEncode, one, two, four]⟩
  · exact ⟨[0xC0 ||| octetAt value 56, octetAt value 48, octetAt value 40, octetAt value 32,
      octetAt value 24, octetAt value 16, octetAt value 8, octetAt value 0], by simp,
      fun room => by simp [varintEncode, one, two, four, within]⟩

/-- A value is written exactly if it is in range and its octets fit. -/
theorem varintEncode_iff : varintEncode value bufLen = some bytes ↔
    bytes = varintOctets value ∧ bytes.length ≤ bufLen ∧ value ≤ varintMax := by
  by_cases within : value ≤ varintMax
  · obtain ⟨octets, short, written⟩ := varintEncode_sized within
    rw [varintOctets, written, written, if_neg (Nat.not_lt.mpr short), Option.getD_some, guarded_iff,
      and_iff_left within]
  · refine iff_of_false ?_ fun written => within written.2.2
    have beyond {limit : UInt64} (low : limit ≤ varintMax) : ¬ value ≤ limit :=
      fun below => within (UInt64.le_trans below low)
    rw [varintEncode, if_neg (beyond (by decide)), if_neg (beyond (by decide)),
      if_neg (beyond (by decide)), if_neg within]
    nofun

/-- A value within range is taken back from its octets. -/
theorem varintDecode_octets (bounded : value ≤ varintMax) (rest : Bytes) :
    varintDecode (varintOctets value ++ rest) = some (value, rest) :=
  varintDecode_encode (varintEncode_iff.mpr ⟨rfl, Nat.le_refl _, bounded⟩) rest

/-- The values of an acknowledgement after its type. -/
def FrameAck.fields (f : FrameAck) : List UInt64 :=
  [f.largestAcked, f.ackDelay, UInt64.ofNat f.ranges.length, f.firstAckRange] ++
    f.ranges.flatMap (fun range => [range.gap, range.ackRange]) ++
    if f.hasEcn then [f.ect0Count, f.ect1Count, f.ecnCeCount] else []

/-- The octets of a frame on the wire. -/
def Frame.octets : Frame → Bytes
  | .padding count => List.replicate count 0
  | .ping => [0x01]
  | .ack f => (if f.hasEcn then 0x03 else 0x02) :: varintsOctets f.fields
  | .resetStream streamId errorCode finalSize =>
    0x04 :: varintsOctets [streamId, errorCode, finalSize]
  | .stopSending streamId errorCode => 0x05 :: varintsOctets [streamId, errorCode]
  | .crypto offset data => 0x06 :: varintsOctets [offset, UInt64.ofNat data.length] ++ data
  | .newToken token => 0x07 :: varintsOctets [UInt64.ofNat token.length] ++ token
  | .stream f =>
    streamTypeByte f :: varintsOctets ([f.streamId] ++ (if f.hasOffset then [f.offset] else []) ++
      (if f.hasLength then [f.length] else [])) ++ f.writtenData
  | .maxData limit => 0x10 :: varintsOctets [limit]
  | .maxStreamData streamId limit => 0x11 :: varintsOctets [streamId, limit]
  | .maxStreams limit isBidi => (if isBidi then 0x12 else 0x13) :: varintsOctets [limit]
  | .dataBlocked limit => 0x14 :: varintsOctets [limit]
  | .streamDataBlocked streamId limit => 0x15 :: varintsOctets [streamId, limit]
  | .streamsBlocked limit isBidi => (if isBidi then 0x16 else 0x17) :: varintsOctets [limit]
  | .newConnectionId f =>
    0x18 :: varintsOctets [f.seqNum, f.retirePriorTo] ++
      UInt8.ofNat f.cid.len :: f.cid.data ++ f.statelessResetToken.toList
  | .retireConnectionId seqNum => 0x19 :: varintsOctets [seqNum]
  | .pathChallenge data => 0x1A :: data.toList
  | .pathResponse data => 0x1B :: data.toList
  | .connectionClose f =>
    (if f.isApp then 0x1D else 0x1C) :: varintsOctets ([f.errorCode] ++
      (if f.isApp then [] else [f.frameType]) ++ [UInt64.ofNat f.reason.length]) ++ f.reason
  | .handshakeDone => [0x1E]
  | .heartbeat timestampUs => 0x20 :: varintsOctets [timestampUs]
  | .streamPriority streamId priority => 0x21 :: varintsOctets [streamId] ++ [priority]
  | .datagram data => 0x22 :: varintsOctets [UInt64.ofNat data.length] ++ data

/-- Encode a frame by the encoder of its type. -/
def frameEncode (frame : Frame) (bufLen : Nat) : Option Bytes :=
  match frame with
  | .padding count => frameEncodePadding count bufLen
  | .ping => frameEncodePing bufLen
  | .ack f => frameEncodeAck f bufLen
  | .resetStream streamId errorCode finalSize =>
    frameEncodeResetStream streamId errorCode finalSize bufLen
  | .stopSending streamId errorCode => frameEncodeStopSending streamId errorCode bufLen
  | .crypto offset data => frameEncodeCrypto offset data bufLen
  | .newToken token => frameEncodeNewToken token bufLen
  | .stream f => frameEncodeStream f bufLen
  | .maxData maxData => frameEncodeMaxData maxData bufLen
  | .maxStreamData streamId maxStreamData => frameEncodeMaxStreamData streamId maxStreamData bufLen
  | .maxStreams maxStreams isBidi => frameEncodeMaxStreams maxStreams isBidi bufLen
  | .dataBlocked maxData => frameEncodeDataBlocked maxData bufLen
  | .streamDataBlocked streamId maxStreamData =>
    frameEncodeStreamDataBlocked streamId maxStreamData bufLen
  | .streamsBlocked maxStreams isBidi => frameEncodeStreamsBlocked maxStreams isBidi bufLen
  | .newConnectionId f => frameEncodeNewConnectionId f bufLen
  | .retireConnectionId seqNum => frameEncodeRetireConnectionId seqNum bufLen
  | .pathChallenge data => frameEncodePathChallenge data bufLen
  | .pathResponse data => frameEncodePathResponse data bufLen
  | .connectionClose f => frameEncodeConnectionClose f bufLen
  | .handshakeDone => frameEncodeHandshakeDone bufLen
  | .heartbeat timestampUs => frameEncodeHeartbeat timestampUs bufLen
  | .streamPriority streamId priority => frameEncodeStreamPriority streamId priority bufLen
  | .datagram data => frameEncodeDatagram data bufLen

/-- A frame whose values can be encoded and whose data the decoder accepts. -/
def Frame.Encodable : Frame → Prop
  | .padding count => 0 < count
  | .ping | .handshakeDone | .pathChallenge _ | .pathResponse _ => True
  | .ack f => ∀ val ∈ f.fields, val ≤ varintMax
  | .resetStream streamId errorCode finalSize =>
    streamId ≤ varintMax ∧ errorCode ≤ varintMax ∧ finalSize ≤ varintMax
  | .stopSending streamId errorCode => streamId ≤ varintMax ∧ errorCode ≤ varintMax
  | .crypto offset data => offset ≤ varintMax ∧ data.length ≤ maxCryptoFrameData
  | .newToken token => token.length ≤ maxTokenLen
  | .stream f =>
    f.hasLength = true ∧ f.streamId ≤ maxStreamId ∧ f.offset ≤ maxStreamOffset ∧
      (f.hasOffset = false → f.offset = 0) ∧ f.length.toNat ≤ maxStreamFrameData
  | .maxData val | .dataBlocked val | .retireConnectionId val | .heartbeat val => val ≤ varintMax
  | .maxStreamData streamId val | .streamDataBlocked streamId val =>
    streamId ≤ varintMax ∧ val ≤ varintMax
  | .maxStreams val _ | .streamsBlocked val _ => val ≤ varintMax
  | .newConnectionId f => f.seqNum ≤ varintMax ∧ f.retirePriorTo ≤ varintMax
  | .connectionClose f =>
    f.errorCode ≤ varintMax ∧ f.frameType ≤ varintMax ∧ f.reason.length ≤ maxCloseReasonLen
  | .streamPriority streamId _ => streamId ≤ varintMax
  | .datagram data => data.length ≤ maxDatagramLen

/-- A frame without what its layout has no room for: counters outside an ECN acknowledgement, the
frame type of an application's close, the pointer to no data. -/
def Frame.carried : Frame → Frame
  | .ack f => .ack (if f.hasEcn then f else { f with ect0Count := 0, ect1Count := 0, ecnCeCount := 0 })
  | .stream f =>
    .stream { f with
      data := if f.length > 0 then f.data else none
      covered := by
        by_cases positive : f.length > 0
        · rw [if_pos positive]
          exact f.covered
        · have zero : f.length = 0 := by grind
          rw [if_neg positive, zero]
          rfl }
  | .connectionClose f => .connectionClose (if f.isApp then { f with frameType := 0 } else f)
  | frame => frame

/-- The length of data within a limit can be written. -/
theorem length_le_varintMax (short : data.length ≤ limit) (small : limit ≤ 1048576) :
    UInt64.ofNat data.length ≤ varintMax ∧ (UInt64.ofNat data.length).toNat = data.length := by
  have same : (UInt64.ofNat data.length).toNat = data.length := by
    rw [UInt64.toNat_ofNat']
    omega
  refine ⟨?_, same⟩
  rw [UInt64.le_iff_toNat_le, same]
  show data.length ≤ 4611686018427387903
  omega

/-- A type that is neither padding nor a stream's chooses the decoder of a frame. -/
theorem frameDecode_typed
    (kind : type < 64 ∧ type ≠ 0 ∧ frameIsStream type = false) (rest : Bytes) :
    frameDecode (type :: rest) = decodeBody type.toUInt64 rest := by
  unfold frameDecode
  simp only
  rw [if_neg kind.2.1, kind.2.2, if_neg Bool.false_ne_true, varintDecode_one kind.1,
    Option.bind_eq_bind, Option.bind_some]

section Readers

variable {α : Type} {rest : Bytes}

/-- What goes on with a result is given the one that was read. -/
theorem bind_read {β : Type} {found : Option β} {read : β} {next : β → Option α}
    (same : found = some read) : found.bind next = next read := by
  rw [same, Option.bind_some]

/-- What goes on with a value is given the one at the front. -/
theorem bind_value (bounded : value ≤ varintMax) :
    (varintDecode (varintsOctets (value :: vals) ++ rest)).bind next =
      next (value, varintsOctets vals ++ rest) := by
  simp only [varintsOctets, List.flatMap_cons, List.append_assoc, varintDecode_octets bounded,
    Option.bind_some]

/-- A value that may be left out is taken back, or read as zero. -/
theorem bind_when {present : Bool} (bounded : present = true → value ≤ varintMax) :
    (decodeWhen present varintDecode
        (varintsOctets (if present then value :: vals else []) ++ rest)).bind next =
      next (if present then value else 0, varintsOctets (if present then vals else []) ++ rest) := by
  cases present with
  | false => rfl
  | true => exact bind_value (bounded rfl)

/-- Data behind its length is taken back. -/
theorem bind_sized {next : Bytes × Bytes → Option α} (short : data.length ≤ limit)
    (small : limit ≤ 1048576) :
    (decodeSized limit (varintsOctets [UInt64.ofNat data.length] ++ (data ++ rest))).bind next =
      next (data, rest) := by
  obtain ⟨bounded, same⟩ := length_le_varintMax short small
  have read : decodeBytes data.length (data ++ rest) = some (data, rest) := by
    unfold decodeBytes
    rw [if_neg (by simp), List.take_left, List.drop_left]
  unfold decodeSized
  rw [Option.bind_eq_bind, bind_value bounded]
  simp only [same, if_neg (Nat.not_lt.mpr short)]
  exact bind_read read

end Readers

theorem decodeArray_octets (data : Vector UInt8 count) (rest : Bytes) :
    decodeArray count (data.toList ++ rest) = some (data, rest) := by
  have size : data.toList.length = count := Vector.length_toList
  unfold decodeArray
  rw [dif_pos (by rw [List.length_append, size]; omega)]
  have front : (data.toList ++ rest).take count = data.toList := List.take_left' size
  have back : (data.toList ++ rest).drop count = rest := List.drop_left' size
  simp only [front, back, Option.some.injEq, Prod.mk.injEq, and_true]
  apply Vector.toArray_inj.mp
  simp [Vector.toList]

/-- The further ranges of an acknowledgement are taken back. -/
theorem decodeAckRanges_octets (ranges : List AckRange) (counted : ranges.length = count)
    (more : List UInt64)
    (bounded : ∀ val ∈ ranges.flatMap (fun range => [range.gap, range.ackRange]), val ≤ varintMax)
    (rest : Bytes) :
    decodeAckRanges count (varintsOctets (ranges.flatMap (fun range => [range.gap, range.ackRange]) ++
        more) ++ rest) = some (⟨ranges, counted⟩, varintsOctets more ++ rest) := by
  -- The induction is on the ranges, two values being taken for each.
  induction ranges generalizing count with
  | nil =>
    subst counted
    rfl
  | cons range others ih =>
    subst counted
    have tail := ih rfl fun val member => bounded val (by
      rw [List.flatMap_cons]
      exact List.mem_append_right _ member)
    exact (bind_value (bounded _ (by simp))).trans
      ((bind_value (bounded _ (by simp))).trans (bind_read tail))

/-- An acknowledgement is taken back, with no counters where it has none. -/
theorem decodeAck_octets (f : FrameAck) (bounded : ∀ val ∈ f.fields, val ≤ varintMax)
    (rest : Bytes) :
    decodeAck f.hasEcn (varintsOctets f.fields ++ rest) =
      some (if f.hasEcn then f else { f with ect0Count := 0, ect1Count := 0, ecnCeCount := 0 },
        rest) := by
  have count : (UInt64.ofNat f.ranges.length).toNat = f.ranges.length := by
    have few := f.bounded
    unfold ackMaxRanges at few
    rw [UInt64.toNat_ofNat']
    omega
  have ranges := decodeAckRanges_octets f.ranges count.symm
    (if f.hasEcn then [f.ect0Count, f.ect1Count, f.ecnCeCount] else []) (fun val member =>
      bounded val (by simp only [FrameAck.fields, List.mem_append]; exact .inl (.inr member))) rest
  have counters : f.hasEcn = true → f.ect0Count ≤ varintMax ∧ f.ect1Count ≤ varintMax ∧
      f.ecnCeCount ≤ varintMax := fun ecn =>
    ⟨bounded _ (by simp [FrameAck.fields, ecn]), bounded _ (by simp [FrameAck.fields, ecn]),
      bounded _ (by simp [FrameAck.fields, ecn])⟩
  have small : (UInt64.ofNat f.ranges.length).toNat ≤ ackMaxRanges := by
    rw [count]
    exact f.bounded
  refine (bind_value (bounded _ (by simp [FrameAck.fields]))).trans
    ((bind_value (bounded _ (by simp [FrameAck.fields]))).trans
      ((bind_value (bounded _ (by simp [FrameAck.fields]))).trans ((dif_pos small).trans
        ((bind_value (bounded _ (by simp [FrameAck.fields]))).trans ((bind_read ranges).trans
          ((bind_when fun ecn => (counters ecn).1).trans ((bind_when fun ecn =>
            (counters ecn).2.1).trans ((bind_when fun ecn => (counters ecn).2.2).trans ?_))))))))
  obtain ⟨_, _, _, _, _, hasEcn, _, _, _⟩ := f
  cases hasEcn <;> rfl

theorem streamTypeByte_fields (f : FrameStream) :
    frameIsStream (streamTypeByte f) = true ∧ streamTypeByte f ≠ 0 ∧
      (streamTypeByte f &&& 0x04 != 0) = f.hasOffset ∧
      (streamTypeByte f &&& 0x02 != 0) = f.hasLength ∧ (streamTypeByte f &&& 0x01 != 0) = f.fin := by
  unfold streamTypeByte
  cases f.hasOffset <;> cases f.hasLength <;> cases f.fin <;> decide

theorem decodeAtMost_octets {limit : UInt64} (bounded : value ≤ varintMax) (rest : Bytes) :
    decodeAtMost limit (varintOctets value ++ rest) =
      if value ≤ limit then some (value, rest) else none := by
  unfold decodeAtMost
  simp only [varintDecode_octets bounded, Option.bind_eq_bind, Option.bind_some, gt_iff_lt,
    ← UInt64.not_le, ite_not]

/-- What a decoder finds in the octets of a stretch: fields that are left out are zero, and there is
data only behind a length. -/
def FrameStream.received (f : FrameStream) : FrameStream where
  streamId := f.streamId
  offset := if f.hasOffset then f.offset else 0
  length := if f.hasLength then f.length else 0
  hasOffset := f.hasOffset
  hasLength := f.hasLength
  fin := f.fin
  data := if (if f.hasLength then f.length else 0) > 0 then some f.writtenData else none
  covered := by
    have covered := f.covered
    unfold FrameStream.writtenData
    cases f.hasLength with
    | false => rfl
    | true =>
      simp only [if_true]
      split
      · exact covered
      · have zero : f.length = 0 := by grind
        rw [zero]
        rfl

/-- The octets of a stretch are read back as far as they carry it, unless its name or its place is
beyond what the decoder accepts; without a length nothing may follow. -/
theorem frameDecode_stream_octets (f : FrameStream) (named : f.streamId ≤ varintMax)
    (placed : f.hasOffset = true → f.offset ≤ varintMax)
    (short : f.length.toNat ≤ maxStreamFrameData) (rest : Bytes)
    (last : f.hasLength = false → rest = []) :
    frameDecode ((Frame.stream f).octets ++ rest) =
      if f.streamId ≤ maxStreamId ∧ (f.hasOffset = true → f.offset ≤ maxStreamOffset) then
        some (.stream f.received, rest)
      else none := by
  obtain ⟨isStream, nonzero, offsetBit, lengthBit, finBit⟩ := streamTypeByte_fields f
  have placeRead (tail : Bytes) : decodeWhen f.hasOffset (decodeAtMost maxStreamOffset)
      (varintsOctets (if f.hasOffset then [f.offset] else []) ++ tail) =
        if f.hasOffset = true → f.offset ≤ maxStreamOffset then
          some (if f.hasOffset then f.offset else 0, tail) else none := by
    unfold decodeWhen varintsOctets
    cases present : f.hasOffset with
    | false => simp
    | true => simpa using decodeAtMost_octets (placed present) tail
  have lengthRead : decodeStreamLength f.hasLength
      (varintsOctets (if f.hasLength then [f.length] else []) ++ (f.writtenData ++ rest)) =
        some (if f.hasLength then f.length else 0, f.writtenData ++ rest) := by
    unfold decodeStreamLength varintsOctets FrameStream.writtenData
    cases sized : f.hasLength with
    | false => simp [last sized]
    | true =>
      have bounded : f.length ≤ varintMax := by
        rw [UInt64.le_iff_toNat_le]
        exact Nat.le_trans short (by decide)
      simp only [if_true, List.flatMap_cons, List.flatMap_nil, List.append_nil,
        varintDecode_octets bounded, Option.bind_eq_bind, Option.bind_some]
      rw [if_neg (by omega)]
  have size : (if f.hasLength then f.length else 0).toNat = f.writtenData.length := by
    unfold FrameStream.writtenData
    cases f.hasLength with
    | false => rfl
    | true => exact f.covered.symm
  have shape : (Frame.stream f).octets ++ rest = streamTypeByte f :: (varintOctets f.streamId ++
      (varintsOctets (if f.hasOffset then [f.offset] else []) ++
        (varintsOctets (if f.hasLength then [f.length] else []) ++ (f.writtenData ++ rest)))) := by
    simp [Frame.octets, varintsOctets]
  rw [shape]
  unfold frameDecode
  simp only
  rw [if_neg nonzero, isStream, if_pos rfl]
  unfold decodeStream
  simp only [offsetBit, lengthBit, finBit, decodeAtMost_octets named, Option.bind_eq_bind]
  by_cases near : f.streamId ≤ maxStreamId
  · rw [if_pos near, Option.bind_some, placeRead]
    by_cases within : f.hasOffset = true → f.offset ≤ maxStreamOffset
    · have both := And.intro near within
      rw [if_pos within, if_pos both, Option.bind_some, lengthRead, Option.bind_some,
        dif_pos (by rw [size, List.length_append]; omega)]
      simp only [Option.bind_some, size, List.take_left, List.drop_left, FrameStream.received]
    · rw [if_neg within]
      simp [near, within]
  · rw [if_neg near]
    simp [near]

/-- A stretch of a stream is taken back, without a pointer where it is empty. -/
theorem frameDecode_stream (encodable : (Frame.stream f).Encodable) (rest : Bytes) :
    frameDecode ((Frame.stream f).octets ++ rest) = some ((Frame.stream f).carried, rest) := by
  obtain ⟨sized, named, placed, unplaced, short⟩ := encodable
  rw [frameDecode_stream_octets f (UInt64.le_trans named (by decide))
    (fun _ => UInt64.le_trans placed (by decide)) short rest (by simp [sized]),
    if_pos ⟨named, fun _ => placed⟩]
  have place : (if f.hasOffset then f.offset else 0) = f.offset := by
    split
    · rfl
    · rename_i absent
      exact (unplaced (Bool.eq_false_iff.mpr absent)).symm
  have pointed : (if f.length > 0 then some f.writtenData else none) =
      if f.length > 0 then f.data else none := by
    split
    · rename_i positive
      have covered := f.covered
      unfold FrameStream.writtenData
      rw [sized, if_pos rfl]
      cases data : f.data with
      | none =>
        rw [data] at covered
        have zero : f.length.toNat = 0 := covered.symm
        rw [gt_iff_lt, UInt64.lt_iff_toNat_lt, zero] at positive
        exact absurd positive (by decide)
      | some bytes => rfl
    · rfl
  simp only [Frame.carried, FrameStream.received, place, sized, if_true, pointed]

/-- A run of zero bytes is read as one PADDING frame. -/
theorem frameDecode_padding (positive : 0 < count) {rest : Bytes} (ends : rest.head? ≠ some 0) :
    frameDecode (List.replicate count 0 ++ rest) = some (.padding count, rest) := by
  have zeros : ∀ octet ∈ List.replicate count (0 : UInt8), decide (octet = 0) = true := by
    intro octet member
    rw [List.eq_of_mem_replicate member]
    rfl
  have stops : rest.takeWhile (fun octet => decide (octet = 0)) = [] ∧
      rest.dropWhile (fun octet => decide (octet = 0)) = rest := by
    cases rest with
    | nil => exact ⟨rfl, rfl⟩
    | cons octet tail =>
      have other : octet ≠ 0 := fun zero => ends (by rw [zero]; rfl)
      simp [other]
  obtain ⟨more, rfl⟩ : ∃ more, count = more + 1 := ⟨count - 1, by omega⟩
  have shape : List.replicate (more + 1) (0 : UInt8) ++ rest =
      0 :: (List.replicate more 0 ++ rest) := rfl
  rw [shape]
  unfold frameDecode
  simp only [if_true]
  rw [← shape, List.takeWhile_append_of_pos zeros, List.dropWhile_append_of_pos zeros, stops.1,
    stops.2, List.append_nil, List.length_replicate]

/-- The offer of an identifier is taken back. -/
theorem decodeNewConnectionId_octets {f : FrameNewConnectionId}
    (encodable : (Frame.newConnectionId f).Encodable) (rest : Bytes) :
    decodeNewConnectionId (varintsOctets [f.seqNum, f.retirePriorTo] ++
      (UInt8.ofNat f.cid.len :: (f.cid.data ++ (f.statelessResetToken.toList ++ rest)))) =
        some (f, rest) := by
  have bounded := f.cid.bounded
  have size : (UInt8.ofNat f.cid.len).toNat = f.cid.data.length := by
    rw [UInt8.toNat_ofNat']
    unfold ConnId.len maxCidLen at *
    omega
  have within : (UInt8.ofNat f.cid.len).toNat ≤ maxCidLen := by
    rw [size]
    exact bounded
  have long : ¬ (UInt8.ofNat f.cid.len).toNat + 16 >
      (f.cid.data ++ (f.statelessResetToken.toList ++ rest)).length := by
    rw [size, List.length_append, List.length_append, Vector.length_toList]
    omega
  have front (tail : Bytes) :
      (f.cid.data ++ tail).take (UInt8.ofNat f.cid.len).toNat = f.cid.data := List.take_left' size.symm
  have back (tail : Bytes) : (f.cid.data ++ tail).drop (UInt8.ofNat f.cid.len).toNat = tail :=
    List.drop_left' size.symm
  refine (bind_value encodable.1).trans ((bind_value encodable.2).trans
    ((dif_pos within).trans ((if_neg long).trans ?_)))
  simp only [front, back, Option.bind_eq_bind, decodeArray_octets, Option.bind_some]

/-- A close notice is taken back, without the frame type where an application gave it. -/
theorem decodeConnectionClose_octets {f : FrameConnectionClose}
    (encodable : (Frame.connectionClose f).Encodable) (rest : Bytes) :
    decodeConnectionClose f.isApp (varintsOctets ([f.errorCode] ++
        (if f.isApp then [] else [f.frameType]) ++ [UInt64.ofNat f.reason.length]) ++
          (f.reason ++ rest)) =
      some (if f.isApp then { f with frameType := 0 } else f, rest) := by
  obtain ⟨code, type, short⟩ := encodable
  obtain ⟨errorCode, frameType, reason, isApp⟩ := f
  cases isApp with
  | false =>
    exact (bind_value code).trans ((bind_value type).trans (bind_sized short (by decide)))
  | true => exact (bind_value code).trans (bind_sized short (by decide))

/-- Every frame is taken back as far as its layout carries it, padding where something else follows.
-/
theorem frameDecode_octets {frame : Frame} (encodable : frame.Encodable) {rest : Bytes}
    (ends : (∃ count, frame = .padding count) → rest.head? ≠ some 0) :
    frameDecode (frame.octets ++ rest) = some (frame.carried, rest) := by
  -- The type octet chooses a decoder, which takes the fields one after another.
  have typed {type : UInt8} {front : Bytes} {result : Frame}
      (kind : type < 64 ∧ type ≠ 0 ∧ frameIsStream type = false)
      (body : decodeBody type.toUInt64 (front ++ rest) = some (result, rest)) :
      frameDecode (type :: front ++ rest) = some (result, rest) :=
    (frameDecode_typed kind _).trans body
  have followed {type : UInt8} {front data : Bytes} {result : Frame}
      (kind : type < 64 ∧ type ≠ 0 ∧ frameIsStream type = false)
      (body : decodeBody type.toUInt64 (front ++ (data ++ rest)) = some (result, rest)) :
      frameDecode (type :: front ++ data ++ rest) = some (result, rest) :=
    typed kind ((congrArg (decodeBody _) (List.append_assoc ..)).trans body)
  cases frame with
  | padding count => exact frameDecode_padding encodable (ends ⟨count, rfl⟩)
  | stream f => exact frameDecode_stream encodable rest
  | ping => rfl
  | handshakeDone => rfl
  | ack f =>
    have read := decodeAck_octets f encodable rest
    obtain ⟨_, _, _, _, _, hasEcn, _, _, _⟩ := f
    cases hasEcn with
    | false => exact @typed 0x02 _ _ (by decide) (bind_read read)
    | true => exact @typed 0x03 _ _ (by decide) (bind_read read)
  | resetStream streamId errorCode finalSize =>
    exact typed (by decide) ((bind_value encodable.1).trans
      ((bind_value encodable.2.1).trans (bind_value encodable.2.2)))
  | stopSending streamId errorCode =>
    exact typed (by decide) ((bind_value encodable.1).trans (bind_value encodable.2))
  | crypto offset data =>
    exact followed (by decide) ((bind_value encodable.1).trans (bind_sized encodable.2 (by decide)))
  | newToken token => exact followed (by decide) (bind_sized encodable (by decide))
  | maxData limit => exact typed (by decide) (bind_value encodable)
  | maxStreamData streamId limit =>
    exact typed (by decide) ((bind_value encodable.1).trans (bind_value encodable.2))
  | maxStreams limit isBidi => cases isBidi <;> exact typed (by decide) (bind_value encodable)
  | dataBlocked limit => exact typed (by decide) (bind_value encodable)
  | streamDataBlocked streamId limit =>
    exact typed (by decide) ((bind_value encodable.1).trans (bind_value encodable.2))
  | streamsBlocked limit isBidi => cases isBidi <;> exact typed (by decide) (bind_value encodable)
  | newConnectionId f =>
    have read := decodeNewConnectionId_octets encodable rest
    rw [← List.append_assoc f.cid.data, ← List.cons_append, ← List.cons_append] at read
    rw [Frame.octets, List.append_assoc (0x18 :: _)]
    exact followed (by decide) (bind_read read)
  | retireConnectionId seqNum => exact typed (by decide) (bind_value encodable)
  | pathChallenge data => exact typed (by decide) (bind_read (decodeArray_octets data rest))
  | pathResponse data => exact typed (by decide) (bind_read (decodeArray_octets data rest))
  | connectionClose f =>
    have read := decodeConnectionClose_octets encodable rest
    obtain ⟨_, _, _, isApp⟩ := f
    cases isApp with
    | false => exact @followed 0x1C _ _ _ (by decide) (bind_read read)
    | true => exact @followed 0x1D _ _ _ (by decide) (bind_read read)
  | heartbeat timestampUs => exact typed (by decide) (bind_value encodable)
  | streamPriority streamId priority => exact followed (by decide) (bind_value encodable)
  | datagram data => exact followed (by decide) (bind_sized encodable (by decide))

end Nxp
