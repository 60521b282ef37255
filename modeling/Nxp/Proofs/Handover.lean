import Nxp.Core.Exchange
import Nxp.Core.SessionLaws

/-! What a connection keeps when it is handed over to another server. -/

namespace Nxp

/-- A connection that has what is exported of another. -/
structure SameSession (conn taken : Conn) : Prop where
  scid : taken.scid = conn.scid
  dcid : taken.dcid = conn.dcid
  state : taken.state = conn.state
  isServer : taken.isServer = conn.isServer
  nextPktNum : taken.nextPktNum = conn.nextPktNum
  peerAddr : taken.peerAddr = conn.peerAddr
  crypto : taken.crypto = conn.crypto
  peerMaxData : taken.connFlow.peerMaxData = conn.connFlow.peerMaxData
  dataSent : taken.connFlow.dataSent = conn.connFlow.dataSent
  localMaxData : taken.connFlow.localMaxData = conn.connFlow.localMaxData
  dataRecv : taken.connFlow.dataRecv = conn.connFlow.dataRecv
  smoothedRtt : taken.ack.smoothedRtt = conn.ack.smoothedRtt
  rttVar : taken.ack.rttVar = conn.ack.rttVar
  minRtt : taken.ack.minRtt = conn.ack.minRtt
  idleTimeoutUs : taken.idleTimeoutUs = conn.idleTimeoutUs

/-- A restored connection has the keys of the original. -/
theorem restore_crypto (conn : Conn) (allocCc : Bool) :
    (conn.sessionFields.restore allocCc).crypto = conn.crypto := by
  have available : decide ((if conn.crypto.available then (1 : UInt8) else 0) ≠ 0) =
      conn.crypto.available := by
    cases conn.crypto.available <;> rfl
  show CryptoState.mk conn.crypto.send conn.crypto.recv
    (AeadAlgo.ofByte conn.crypto.algo.toByte) _ = conn.crypto
  rw [AeadAlgo.ofByte_toByte]
  exact congrArg (CryptoState.mk conn.crypto.send conn.crypto.recv conn.crypto.algo) available

/-- Restoring the exported fields gives the same session. -/
theorem restore_same (conn : Conn) (idles : conn.idleTimeoutUs ≠ 0) (allocCc : Bool) :
    SameSession conn (conn.sessionFields.restore allocCc) where
  scid := rfl
  dcid := rfl
  state := ConnState.ofByte_toByte conn.state
  isServer := by
    show decide ((if conn.isServer then (1 : UInt8) else 0) ≠ 0) = conn.isServer
    cases conn.isServer <;> rfl
  nextPktNum := rfl
  peerAddr := rfl
  crypto := restore_crypto conn allocCc
  peerMaxData := rfl
  dataSent := rfl
  localMaxData := rfl
  dataRecv := rfl
  smoothedRtt := rfl
  rttVar := rfl
  minRtt := rfl
  idleTimeoutUs := if_neg idles

theorem sessionImport_short {buf : Bytes} (short : buf.length < 12) (alloc allocCc : Bool) :
    ∃ code, sessionImport alloc allocCc buf = .error code := by
  cases result : sessionImport alloc allocCc buf with
  | error code => exact ⟨code, rfl⟩
  | ok conn =>
    -- The three words of the head alone are twelve octets.
    obtain ⟨totalLen, rest, fields, front, -⟩ := sessionImport_iff.mp result
    have size := congrArg List.length front
    simp only [putU32, List.length_append, LittleEndian.length_octets] at size
    omega

/-- Every connection is exported in exactly the size announced, the export gives back what it says
whatever follows it, and no shorter piece of it gives a connection. -/
theorem session_handed_over (conn : Conn) (idles : conn.idleTimeoutUs ≠ 0) {bufCap : Nat}
    (room : sessionExportSize conn ≤ bufCap) (allocCc : Bool) :
    ∃ bytes, sessionExport conn bufCap = .ok bytes ∧ bytes.length = sessionExportSize conn ∧
      (∀ trailing, ∃ taken, sessionImport true allocCc (bytes ++ trailing) = .ok taken ∧
        SameSession conn taken) ∧
      ∀ piece alloc, piece <+: bytes → piece ≠ bytes →
        ∃ code, sessionImport alloc allocCc piece = .error code := by
  have size := sessionBody_length conn
  refine ⟨sessionHead conn ++ sessionBody conn, sessionExport_ok conn room, ?_, ?_, ?_⟩
  · rw [List.length_append, sessionHead_length]
    exact size
  · intro trailing
    exact ⟨_, sessionImport_ok conn allocCc trailing, restore_same conn idles allocCc⟩
  · rintro piece alloc ⟨missing, parted⟩ differs
    have fewer : piece.length < sessionExportSize conn := by
      have total := congrArg List.length parted
      rw [List.length_append, List.length_append, sessionHead_length, size] at total
      have lacking : missing.length ≠ 0 := by
        intro whole
        rw [List.length_eq_zero_iff.mp whole, List.append_nil] at parted
        exact differs parted
      omega
    by_cases short : piece.length < 12
    · exact sessionImport_short short alloc allocCc
    · -- The whole head is there, and it announces more than there is.
      have headed : piece = sessionHead conn ++ piece.drop 12 := by
        have front : piece.take 12 = sessionHead conn := by
          have same := congrArg (List.take 12) parted
          rw [List.take_append_of_le_length (by omega),
            List.take_left' (sessionHead_length conn)] at same
          exact same
        rw [← front, List.take_append_drop]
      rw [headed, sessionImport_head, if_pos (by rw [List.length_drop]; omega)]
      exact ⟨_, rfl⟩

/-- A server that finished its handshake is exported into a kilobyte. -/
theorem session_handed_over_greeted :
    (plainLink greeting).b.state = .established ∧ (plainLink greeting).b.crypto.available = true ∧
    ∃ bytes, sessionExport (plainLink greeting).b 1024 = .ok bytes ∧
      bytes.length = sessionExportSize (plainLink greeting).b ∧
      (∀ trailing, ∃ taken, sessionImport true true (bytes ++ trailing) = .ok taken ∧
        SameSession (plainLink greeting).b taken) ∧
      ∀ piece alloc, piece <+: bytes → piece ≠ bytes →
        ∃ code, sessionImport alloc true piece = .error code := by
  have facts : (plainLink greeting).b.state = .established ∧
      (plainLink greeting).b.crypto.available = true ∧
      (plainLink greeting).b.idleTimeoutUs ≠ 0 ∧ sessionExportSize (plainLink greeting).b ≤ 1024 := by
    decide +kernel
  exact ⟨facts.1, facts.2.1, session_handed_over _ facts.2.2.1 facts.2.2.2 true⟩

end Nxp
