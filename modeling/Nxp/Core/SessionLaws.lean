import Nxp.Core.ConnLaws
import Nxp.Core.SessionExport
import Nxp.Lib.Codec

/-! The octets an export is made of, and which octets each of its fields is read from. -/

namespace Nxp

variable (conn : Conn) {buf : Bytes}

theorem getBytes_eq_some {len : Nat} {octets rest : Bytes} :
    getBytes len buf = some (octets, rest) ↔ octets.length = len ∧ buf = octets ++ rest := by
  unfold getBytes
  constructor
  · intro read
    split at read
    · cases read
    · cases read
      exact ⟨List.length_take_of_le (by omega), (List.take_append_drop len buf).symm⟩
  · rintro ⟨rfl, rfl⟩
    rw [if_neg (by simp), List.take_left, List.drop_left]

theorem getU8_exact : Codec.Exact getU8 putU8 := by
  intro buf v rest
  cases buf with
  | nil => simp [getU8, putU8]
  | cons octet tail => simp [getU8, putU8]

/-- A word of four octets is read from what writes it. -/
theorem getU32_exact : Codec.Exact getU32 putU32 := by
  intro buf v rest
  unfold getU32 putU32
  rw [Option.map_eq_some_iff]
  constructor
  · rintro ⟨⟨octets, left⟩, read, ⟨⟩⟩
    obtain ⟨sized, rfl⟩ := getBytes_eq_some.mp read
    have bounded := LittleEndian.value_lt octets
    rw [sized] at bounded
    rw [UInt32.toNat_ofNat_of_lt' bounded, ← sized, LittleEndian.octets_value]
  · rintro rfl
    refine ⟨_, getBytes_eq_some.mpr ⟨LittleEndian.length_octets 4 _, rfl⟩, ?_⟩
    dsimp only
    rw [LittleEndian.value_octets v.toNat_lt, UInt32.ofNat_toNat]

theorem getU64_exact : Codec.Exact getU64 putU64 := by
  intro buf v rest
  unfold getU64 putU64
  rw [Option.map_eq_some_iff]
  constructor
  · rintro ⟨⟨octets, left⟩, read, ⟨⟩⟩
    obtain ⟨sized, rfl⟩ := getBytes_eq_some.mp read
    have bounded := LittleEndian.value_lt octets
    rw [sized] at bounded
    rw [UInt64.toNat_ofNat_of_lt' bounded, ← sized, LittleEndian.octets_value]
  · rintro rfl
    refine ⟨_, getBytes_eq_some.mpr ⟨LittleEndian.length_octets 8 _, rfl⟩, ?_⟩
    dsimp only
    rw [LittleEndian.value_octets v.toNat_lt, UInt64.ofNat_toNat]

theorem getArray_exact (size : Nat) : Codec.Exact (getArray size) Vector.toList := by
  intro buf v rest
  unfold getArray
  constructor
  · intro read
    split at read
    · cases read
      exact (List.take_append_drop size buf).symm
    · cases read
  · rintro rfl
    have front : (v.toList ++ rest).take size = v.toList := List.take_left' (by simp)
    have back : (v.toList ++ rest).drop size = rest := List.drop_left' (by simp)
    rw [dif_pos (by simp)]
    simp only [front, back, Option.some.injEq, Prod.mk.injEq, and_true]
    apply Vector.toArray_inj.mp
    show v.toArray.toList.toArray = v.toArray
    rfl

/-- A connection identifier behind its length. -/
def putConnId (cid : ConnId) : Bytes := putU8 (UInt8.ofNat cid.len) ++ cid.data

/-- A connection identifier is read from what writes it. -/
theorem getConnId_exact : Codec.Exact getConnId putConnId := by
  intro buf cid rest
  unfold getConnId putConnId
  rw [getU8_exact.bind_iff]
  constructor
  · rintro ⟨len, tail, rfl, read⟩
    dsimp only at read
    split at read
    · split at read
      · cases read
      · cases read
        rename_i bounded room
        have sized : (tail.take len.toNat).length = len.toNat :=
          List.length_take_of_le (Nat.le_of_not_lt room)
        show putU8 len ++ tail = putU8 (UInt8.ofNat (tail.take len.toNat).length) ++ _ ++ _
        rw [sized, UInt8.ofNat_toNat, List.append_assoc, List.take_append_drop]
    · cases read
  · rintro rfl
    have bounded : cid.len ≤ 20 := cid.bounded
    have len : (UInt8.ofNat cid.len).toNat = cid.len := by
      rw [UInt8.toNat_ofNat']
      omega
    refine ⟨_, _, List.append_assoc _ _ _, ?_⟩
    simp only [len, cid.len_le, dite_true]
    rw [if_neg (by rw [List.length_append]; exact Nat.not_lt.mpr (Nat.le_add_right _ _))]
    have front : (cid.data ++ rest).take cid.len = cid.data := List.take_left
    have back : (cid.data ++ rest).drop cid.len = rest := List.drop_left
    simp only [front, back]

theorem getKeys_exact : Codec.Exact getKeys putKeys := by
  intro buf keys rest
  unfold getKeys putKeys
  simp only [getU8_exact.bind_iff, (getArray_exact _).bind_iff]
  constructor
  · rintro ⟨keyLen, _, rfl, key, _, rfl, iv, _, rfl, hpKey, _, rfl, ⟨⟩⟩
    simp only [List.append_assoc]
  · rintro rfl
    exact ⟨keys.keyLen, _, by simp only [List.append_assoc], keys.key, _, rfl, keys.iv, _, rfl,
      keys.hpKey, _, rfl, rfl⟩

/-- Every state has its own number. -/
theorem ConnState.ofByte_toByte (state : ConnState) : ConnState.ofByte state.toByte = state := by
  cases state with
  | unknown number other => exact dif_pos other
  | _ => rfl

/-- What is exported of a connection. -/
def Conn.sessionFields (conn : Conn) : SessionFields where
  scid := conn.scid
  dcid := conn.dcid
  state := conn.state.toByte
  isServer := if conn.isServer then 1 else 0
  nextPktNum := conn.nextPktNum
  peerAddr := conn.peerAddr
  algo := conn.crypto.algo.toByte
  available := if conn.crypto.available then 1 else 0
  send := conn.crypto.send
  recv := conn.crypto.recv
  peerMaxData := conn.connFlow.peerMaxData
  dataSent := conn.connFlow.dataSent
  localMaxData := conn.connFlow.localMaxData
  dataRecv := conn.connFlow.dataRecv
  smoothedRtt := conn.ack.smoothedRtt
  rttVar := conn.ack.rttVar
  minRtt := conn.ack.minRtt
  idleTimeoutUs := conn.idleTimeoutUs

/-- The octets of what an export says. -/
def SessionFields.octets (fields : SessionFields) : Bytes :=
  putConnId fields.scid ++ putConnId fields.dcid ++
  putU8 fields.state ++ putU8 fields.isServer ++ putU64 fields.nextPktNum ++
  fields.peerAddr.raw.toList ++
  putU8 fields.algo ++ putU8 fields.available ++
  putKeys fields.send ++ putKeys fields.recv ++
  putU64 fields.peerMaxData ++ putU64 fields.dataSent ++
  putU64 fields.localMaxData ++ putU64 fields.dataRecv ++
  putU64 fields.smoothedRtt ++ putU64 fields.rttVar ++ putU64 fields.minRtt ++
  putU64 fields.idleTimeoutUs

/-- The body of an export is made of what it says. -/
theorem sessionBody_eq : sessionBody conn = conn.sessionFields.octets := rfl

/-- Fields are read exactly from the octets that say them, whatever stands behind. -/
theorem getSession_iff {fields : SessionFields} :
    getSession buf = some fields ↔ ∃ trailing, buf = fields.octets ++ trailing := by
  -- The fields are taken one behind the other.
  have layout (trailing : Bytes) : fields.octets ++ trailing =
      putConnId fields.scid ++ (putConnId fields.dcid ++ (putU8 fields.state ++
      (putU8 fields.isServer ++ (putU64 fields.nextPktNum ++ (fields.peerAddr.raw.toList ++
      (putU8 fields.algo ++ (putU8 fields.available ++ (putKeys fields.send ++
      (putKeys fields.recv ++ (putU64 fields.peerMaxData ++ (putU64 fields.dataSent ++
      (putU64 fields.localMaxData ++ (putU64 fields.dataRecv ++ (putU64 fields.smoothedRtt ++
      (putU64 fields.rttVar ++ (putU64 fields.minRtt ++
      (putU64 fields.idleTimeoutUs ++ trailing))))))))))))))))) := by
    unfold SessionFields.octets
    simp only [List.append_assoc]
  constructor
  · intro read
    unfold getSession at read
    obtain ⟨scid, _, scidFront, read⟩ := getConnId_exact.bind_iff.mp read
    obtain ⟨dcid, _, dcidFront, read⟩ := getConnId_exact.bind_iff.mp read
    obtain ⟨state, _, stateFront, read⟩ := getU8_exact.bind_iff.mp read
    obtain ⟨isServer, _, isServerFront, read⟩ := getU8_exact.bind_iff.mp read
    obtain ⟨nextPktNum, _, nextPktNumFront, read⟩ := getU64_exact.bind_iff.mp read
    obtain ⟨raw, _, rawFront, read⟩ := (getArray_exact 28).bind_iff.mp read
    obtain ⟨algo, _, algoFront, read⟩ := getU8_exact.bind_iff.mp read
    obtain ⟨available, _, availableFront, read⟩ := getU8_exact.bind_iff.mp read
    obtain ⟨send, _, sendFront, read⟩ := getKeys_exact.bind_iff.mp read
    obtain ⟨recv, _, recvFront, read⟩ := getKeys_exact.bind_iff.mp read
    obtain ⟨peerMaxData, _, peerMaxDataFront, read⟩ := getU64_exact.bind_iff.mp read
    obtain ⟨dataSent, _, dataSentFront, read⟩ := getU64_exact.bind_iff.mp read
    obtain ⟨localMaxData, _, localMaxDataFront, read⟩ := getU64_exact.bind_iff.mp read
    obtain ⟨dataRecv, _, dataRecvFront, read⟩ := getU64_exact.bind_iff.mp read
    obtain ⟨smoothedRtt, _, smoothedRttFront, read⟩ := getU64_exact.bind_iff.mp read
    obtain ⟨rttVar, _, rttVarFront, read⟩ := getU64_exact.bind_iff.mp read
    obtain ⟨minRtt, _, minRttFront, read⟩ := getU64_exact.bind_iff.mp read
    obtain ⟨idleTimeoutUs, trailing, idleTimeoutUsFront, read⟩ := getU64_exact.bind_iff.mp read
    obtain rfl := Option.some.inj read
    refine ⟨trailing, ?_⟩
    rw [layout, scidFront, dcidFront, stateFront, isServerFront, nextPktNumFront,
      rawFront, algoFront, availableFront, sendFront, recvFront,
      peerMaxDataFront, dataSentFront, localMaxDataFront, dataRecvFront,
      smoothedRttFront, rttVarFront, minRttFront, idleTimeoutUsFront]
  · rintro ⟨trailing, front⟩
    rw [front, layout]
    unfold getSession
    refine getConnId_exact.bind_iff.mpr ⟨_, _, rfl, getConnId_exact.bind_iff.mpr ⟨_, _, rfl, ?_⟩⟩
    refine getU8_exact.bind_iff.mpr ⟨_, _, rfl, getU8_exact.bind_iff.mpr ⟨_, _, rfl, ?_⟩⟩
    refine getU64_exact.bind_iff.mpr ⟨_, _, rfl, (getArray_exact 28).bind_iff.mpr ⟨_, _, rfl, ?_⟩⟩
    refine getU8_exact.bind_iff.mpr ⟨_, _, rfl, getU8_exact.bind_iff.mpr ⟨_, _, rfl, ?_⟩⟩
    refine getKeys_exact.bind_iff.mpr ⟨_, _, rfl, getKeys_exact.bind_iff.mpr ⟨_, _, rfl, ?_⟩⟩
    refine getU64_exact.bind_iff.mpr ⟨_, _, rfl, getU64_exact.bind_iff.mpr ⟨_, _, rfl, ?_⟩⟩
    refine getU64_exact.bind_iff.mpr ⟨_, _, rfl, getU64_exact.bind_iff.mpr ⟨_, _, rfl, ?_⟩⟩
    refine getU64_exact.bind_iff.mpr ⟨_, _, rfl, getU64_exact.bind_iff.mpr ⟨_, _, rfl, ?_⟩⟩
    refine getU64_exact.bind_iff.mpr ⟨_, _, rfl, getU64_exact.bind_iff.mpr ⟨_, _, rfl, ?_⟩⟩
    rfl

/-- The head of an export. -/
def sessionHead (conn : Conn) : Bytes :=
  putU32 sessionMagic ++ putU32 sessionVersion ++ putU32 (UInt32.ofNat (sessionExportSize conn))

/-- The head of an export has three words. -/
theorem sessionHead_length : (sessionHead conn).length = 12 := by
  simp only [sessionHead, putU32, List.length_append, LittleEndian.length_octets]

/-- The body of an export takes the rest of its size. -/
theorem sessionBody_length :
    12 + (sessionBody conn).length = sessionExportSize conn := by
  unfold sessionBody sessionExportSize
  simp only [putU8, putBool, putU64, putKeys, ConnId.len,
    List.length_append, List.length_singleton, Vector.length_toList, LittleEndian.length_octets]
  omega

theorem sessionExportSize_toNat :
    (UInt32.ofNat (sessionExportSize conn)).toNat = sessionExportSize conn := by
  have scid : conn.scid.len ≤ 20 := conn.scid.bounded
  have dcid : conn.dcid.len ≤ 20 := conn.dcid.bounded
  rw [UInt32.toNat_ofNat']
  apply Nat.mod_eq_of_lt
  unfold sessionExportSize
  omega

theorem getHeadWord_iff {v : UInt32} {rest : Bytes} :
    getHeadWord buf = .ok (v, rest) ↔ buf = putU32 v ++ rest := by
  rw [← getU32_exact]
  unfold getHeadWord
  split
  · rename_i failed
    simp [failed]
  · rename_i read found
    simp [found]

theorem getHeadWord_bind_iff {α : Type} {next : UInt32 × Bytes → Except ErrorCode α}
    {result : α} : (getHeadWord buf >>= next) = .ok result ↔
      ∃ v rest, buf = putU32 v ++ rest ∧ next (v, rest) = .ok result := by
  constructor
  · intro goesOn
    cases found : getHeadWord buf with
    | error code =>
      rw [found] at goesOn
      cases goesOn
    | ok read =>
      rw [found] at goesOn
      exact ⟨read.1, read.2, getHeadWord_iff.mp found, goesOn⟩
  · rintro ⟨v, rest, front, goesOn⟩
    rw [getHeadWord_iff.mpr front]
    exact goesOn

/-- What follows the head of an export is read exactly when nothing is missing. -/
theorem sessionImport_head (alloc allocCc : Bool) (rest : Bytes) :
    sessionImport alloc allocCc (sessionHead conn ++ rest) =
      if sessionExportSize conn > 12 + rest.length then .error .bufferTooSmall
      else sessionRestore alloc allocCc (getSession rest) := by
  have size : (sessionHead conn ++ rest).length = 12 + rest.length := by
    rw [List.length_append, sessionHead_length]
  unfold sessionImport
  rw [size]
  simp only [sessionHead, List.append_assoc, getHeadWord_iff.mpr rfl, sessionExportSize_toNat,
    bind, Except.bind, ne_eq, not_true_eq_false, if_false]

/-- A connection is made exactly of octets that begin like an export, announce no more than there
is and have all its fields. -/
theorem sessionImport_iff {alloc allocCc : Bool} {conn : Conn} :
    sessionImport alloc allocCc buf = .ok conn ↔
      ∃ totalLen rest fields,
        buf = putU32 sessionMagic ++ (putU32 sessionVersion ++ (putU32 totalLen ++ rest)) ∧
        totalLen.toNat ≤ buf.length ∧ getSession rest = some fields ∧ alloc = true ∧
        conn = fields.restore allocCc := by
  constructor
  · intro accepted
    unfold sessionImport at accepted
    obtain ⟨magic, _, magicFront, accepted⟩ := getHeadWord_bind_iff.mp accepted
    dsimp only at accepted
    split at accepted
    · cases accepted
    rename_i ours
    obtain ⟨version, _, versionFront, accepted⟩ := getHeadWord_bind_iff.mp accepted
    dsimp only at accepted
    split at accepted
    · cases accepted
    rename_i known
    obtain ⟨totalLen, rest, lengthFront, accepted⟩ := getHeadWord_bind_iff.mp accepted
    dsimp only at accepted
    split at accepted
    · cases accepted
    rename_i within
    cases read : getSession rest with
    | none =>
      rw [read] at accepted
      cases accepted
    | some fields =>
      rw [read, sessionRestore] at accepted
      split at accepted
      · cases accepted
      · rename_i granted
        refine ⟨totalLen, rest, fields, ?_, Nat.le_of_not_lt within, read, by simpa using granted,
          (Except.ok.inj accepted).symm⟩
        rw [magicFront, versionFront, lengthFront, not_ne_iff.mp ours, not_ne_iff.mp known]
  · rintro ⟨totalLen, rest, fields, front, within, read, rfl, rfl⟩
    unfold sessionImport
    refine getHeadWord_bind_iff.mpr ⟨_, _, front, ?_⟩
    dsimp only
    rw [if_neg (not_not.mpr rfl)]
    refine getHeadWord_bind_iff.mpr ⟨_, _, rfl, ?_⟩
    dsimp only
    rw [if_neg (not_not.mpr rfl)]
    refine getHeadWord_bind_iff.mpr ⟨_, _, rfl, ?_⟩
    dsimp only
    rw [if_neg (Nat.not_lt.mpr within), read]
    rfl

/-- An export for which there is room is its head and its body. -/
theorem sessionExport_ok {bufCap : Nat} (room : sessionExportSize conn ≤ bufCap) :
    sessionExport conn bufCap = .ok (sessionHead conn ++ sessionBody conn) := by
  unfold sessionExport
  simp only
  rw [if_neg (by omega)]
  rfl

/-- An export makes a connection of what it says, whatever follows it. -/
theorem sessionImport_ok (allocCc : Bool) (trailing : Bytes) :
    sessionImport true allocCc (sessionHead conn ++ sessionBody conn ++ trailing) =
      .ok (conn.sessionFields.restore allocCc) := by
  have size := sessionBody_length conn
  rw [List.append_assoc, sessionImport_head, if_neg (by rw [List.length_append]; omega),
    sessionBody_eq, getSession_iff.mpr ⟨trailing, rfl⟩]
  rfl

end Nxp
