import Nxp.Core.SessionLaws

/-! Which of the octets that make a connection are an export of it. -/

namespace Nxp

theorem ConnState.toByte_ofByte (v : UInt8) : (ConnState.ofByte v).toByte = v := by
  unfold ConnState.ofByte
  split
  · rfl
  · rename_i small
    have bound : v.toNat < 7 := Nat.not_le.mp fun large => small (UInt8.le_iff_toNat_le.mpr large)
    have known : v.toNat = 0 ∨ v.toNat = 1 ∨ v.toNat = 2 ∨ v.toNat = 3 ∨ v.toNat = 4 ∨ v.toNat = 5 ∨
        v.toNat = 6 := by omega
    apply UInt8.toNat_inj.mp
    rcases known with number | number | number | number | number | number | number <;>
      simp only [number] <;> rfl

theorem AeadAlgo.toByte_ofByte (v : UInt8) : (AeadAlgo.ofByte v).toByte = v := by
  unfold AeadAlgo.ofByte
  split
  · rename_i zero
    exact zero.symm
  · split
    · rename_i one
      exact one.symm
    · rfl

theorem truth_octet (v : UInt8) :
    (if decide (v ≠ 0) then (1 : UInt8) else 0) = v ↔ v ≤ 1 := by
  rw [UInt8.le_iff_toNat_le]
  by_cases zero : v = 0
  · subst zero
    decide
  · simp only [ne_eq, zero, not_false_eq_true, decide_true, if_true]
    have positive : v.toNat ≠ 0 := fun none => zero (UInt8.toNat_inj.mp none)
    rw [← UInt8.toNat_inj]
    show 1 = v.toNat ↔ v.toNat ≤ 1
    omega

/-- A restored connection says what it was restored from exactly if the octets of its truth values
are ones that are written and its idle timeout is not replaced. -/
theorem restore_sessionFields_iff {fields : SessionFields} {allocCc : Bool} :
    (fields.restore allocCc).sessionFields = fields ↔
      fields.isServer ≤ 1 ∧ fields.available ≤ 1 ∧ fields.idleTimeoutUs ≠ 0 := by
  have idle : (fields.restore allocCc).idleTimeoutUs = fields.idleTimeoutUs ↔
      fields.idleTimeoutUs ≠ 0 := by
    show orDefault fields.idleTimeoutUs defaultIdleTimeout = _ ↔ _
    unfold orDefault
    split
    · rename_i zero
      simp [zero, defaultIdleTimeout]
    · simpa
  rw [← truth_octet fields.isServer, ← truth_octet fields.available, ← idle]
  constructor
  · intro same
    exact ⟨congrArg SessionFields.isServer same, congrArg SessionFields.available same,
      congrArg SessionFields.idleTimeoutUs same⟩
  · rintro ⟨isServer, available, idles⟩
    have said : (fields.restore allocCc).sessionFields =
        { fields with
          state := (ConnState.ofByte fields.state).toByte
          isServer := if decide (fields.isServer ≠ 0) then 1 else 0
          algo := (AeadAlgo.ofByte fields.algo).toByte
          available := if decide (fields.available ≠ 0) then 1 else 0
          idleTimeoutUs := (fields.restore allocCc).idleTimeoutUs } := rfl
    rw [said, ConnState.toByte_ofByte, isServer, AeadAlgo.toByte_ofByte, available, idles]

theorem SessionFields.octets_length (fields : SessionFields) :
    fields.octets.length = fields.scid.len + fields.dcid.len + 260 := by
  unfold octets
  simp only [putConnId, putU8, putU64, putKeys, ConnId.len, List.length_append,
    List.length_singleton, Vector.length_toList, LittleEndian.length_octets]
  omega

/-- No two sessions are written alike. -/
theorem SessionFields.octets_inj {one other : SessionFields} (same : one.octets = other.octets) :
    one = other := by
  have read : getSession one.octets = some one := getSession_iff.mpr ⟨[], (List.append_nil _).symm⟩
  have again : getSession one.octets = some other :=
    getSession_iff.mpr ⟨[], by rw [same, List.append_nil]⟩
  exact Option.some.inj (read.symm.trans again)

/-- A connection exports the octets it was made of, as far as they announce, exactly if they
announce all that was read and it says what was read. -/
theorem sessionExport_restored_iff {buf rest : Bytes} {totalLen : UInt32} {fields : SessionFields}
    {allocCc : Bool}
    (front : buf = putU32 sessionMagic ++ (putU32 sessionVersion ++ (putU32 totalLen ++ rest)))
    (within : totalLen.toNat ≤ buf.length) (read : getSession rest = some fields) :
    let conn := fields.restore allocCc
    sessionExport conn (sessionExportSize conn) = .ok (buf.take totalLen.toNat) ↔
      totalLen.toNat = 12 + fields.octets.length ∧ conn.sessionFields = fields := by
  intro conn
  obtain ⟨trailing, behind⟩ := getSession_iff.mp read
  have parts : buf = (putU32 sessionMagic ++ putU32 sessionVersion ++ putU32 totalLen) ++
      fields.octets ++ trailing := by
    rw [front, behind]
    simp only [List.append_assoc]
  have heads : (putU32 sessionMagic ++ putU32 sessionVersion ++ putU32 totalLen).length = 12 := by
    simp only [putU32, List.length_append, LittleEndian.length_octets]
  have size : sessionExportSize conn = 12 + fields.octets.length := by
    rw [← sessionBody_length, sessionBody_eq, SessionFields.octets_length,
      SessionFields.octets_length]
    rfl
  rw [sessionExport_ok conn (Nat.le_refl _), Except.ok.injEq]
  constructor
  · intro exported
    have length : totalLen.toNat = 12 + fields.octets.length := by
      have lengths := congrArg List.length exported
      rw [List.length_append, sessionHead_length, sessionBody_length, size, List.length_take,
        Nat.min_eq_left within] at lengths
      exact lengths.symm
    refine ⟨length, SessionFields.octets_inj ?_⟩
    rw [parts, List.take_left' (by rw [List.length_append, heads, length])] at exported
    exact (List.append_inj exported (by rw [heads, sessionHead_length])).2
  · rintro ⟨length, told⟩
    rw [parts, List.take_left' (by rw [List.length_append, heads, length]), sessionBody_eq, told,
      sessionHead, size, ← length, UInt32.ofNat_toNat]

/-- What is asked of a connection made of octets: a state in the range of the states, a known
cipher, keys no longer than a key, and the same octets when it is exported. -/
structure Reproduces (buf : Bytes) (totalLen : UInt32) (conn : Conn) : Prop where
  state : conn.state.toByte ≤ ConnState.closed.toByte
  algo : conn.crypto.algo = .aes256Gcm ∨ conn.crypto.algo = .chacha20Poly1305
  sendKeyLen : conn.crypto.send.keyLen ≤ 32
  recvKeyLen : conn.crypto.recv.keyLen ≤ 32
  exported : sessionExport conn (sessionExportSize conn) = .ok (buf.take totalLen.toNat)

/-- Fields and a length that an export may announce. -/
structure Exportable (totalLen : UInt32) (fields : SessionFields) : Prop where
  state : fields.state ≤ 6
  algo : fields.algo ≤ 1
  sendKeyLen : fields.send.keyLen ≤ 32
  recvKeyLen : fields.recv.keyLen ≤ 32
  isServer : fields.isServer ≤ 1
  available : fields.available ≤ 1
  idles : fields.idleTimeoutUs ≠ 0
  length : totalLen.toNat = 12 + fields.octets.length

theorem AeadAlgo.ofByte_known {v : UInt8} :
    AeadAlgo.ofByte v = .aes256Gcm ∨ AeadAlgo.ofByte v = .chacha20Poly1305 ↔ v ≤ 1 := by
  constructor
  · intro known
    rw [← AeadAlgo.toByte_ofByte v]
    rcases known with known | known <;> rw [known] <;> decide
  · intro bounded
    have bit : v.toNat = 0 ∨ v.toNat = 1 := by
      have := UInt8.le_iff_toNat_le.mp bounded
      have one : UInt8.toNat 1 = 1 := rfl
      omega
    rcases bit with number | number
    · rw [show v = 0 from UInt8.toNat_inj.mp number]
      exact .inl rfl
    · rw [show v = 1 from UInt8.toNat_inj.mp number]
      exact .inr rfl

/-- Octets that make a connection are what it exports, with all that is asked of it, exactly if
their state, cipher, key lengths and truth values are in range, an idle timeout is given and the
length they announce is that of the fields. -/
theorem session_import_exact_iff {alloc allocCc : Bool} {buf : Bytes} {conn : Conn}
    (accepted : sessionImport alloc allocCc buf = .ok conn) :
    ∃ totalLen rest fields,
      buf = putU32 sessionMagic ++ (putU32 sessionVersion ++ (putU32 totalLen ++ rest)) ∧
      getSession rest = some fields ∧
      (Reproduces buf totalLen conn ↔ Exportable totalLen fields) := by
  obtain ⟨totalLen, rest, fields, front, within, read, -, rfl⟩ := sessionImport_iff.mp accepted
  refine ⟨totalLen, rest, fields, front, read, ?_⟩
  have same := @sessionExport_restored_iff buf rest totalLen fields allocCc front within read
  have kept : (fields.restore allocCc).state.toByte = fields.state :=
    ConnState.toByte_ofByte fields.state
  constructor
  · rintro ⟨state, algo, sendKeyLen, recvKeyLen, exported⟩
    obtain ⟨length, told⟩ := same.mp exported
    obtain ⟨isServer, available, idles⟩ := restore_sessionFields_iff.mp told
    rw [kept] at state
    exact ⟨state, AeadAlgo.ofByte_known.mp algo, sendKeyLen, recvKeyLen, isServer, available, idles,
      length⟩
  · rintro ⟨state, algo, sendKeyLen, recvKeyLen, isServer, available, idles, length⟩
    exact ⟨kept ▸ state, AeadAlgo.ofByte_known.mpr algo, sendKeyLen, recvKeyLen,
      same.mpr ⟨length, restore_sessionFields_iff.mpr ⟨isServer, available, idles⟩⟩⟩

theorem sessionHead_inj {totalLen other : UInt32} {rest behind : Bytes}
    (same : putU32 sessionMagic ++ (putU32 sessionVersion ++ (putU32 totalLen ++ rest)) =
      putU32 sessionMagic ++ (putU32 sessionVersion ++ (putU32 other ++ behind))) :
    totalLen = other ∧ rest = behind := by
  have tails := List.append_cancel_left (List.append_cancel_left same)
  have read := (getU32_exact _ _ _).mpr tails
  rw [getU32_exact.reads] at read
  cases read
  exact ⟨rfl, rfl⟩

/-- Octets that say some fields, behind the head of an export. -/
def sessionBytes (totalLen : UInt32) (fields : SessionFields) : Bytes :=
  putU32 sessionMagic ++ (putU32 sessionVersion ++ (putU32 totalLen ++ fields.octets))

theorem sessionImport_sessionBytes {totalLen : UInt32} {fields : SessionFields}
    (within : totalLen.toNat ≤ (sessionBytes totalLen fields).length) :
    sessionImport true true (sessionBytes totalLen fields) = .ok (fields.restore true) :=
  sessionImport_iff.mpr ⟨totalLen, fields.octets, fields, rfl, within,
    getSession_iff.mpr ⟨[], (List.append_nil _).symm⟩, rfl, rfl⟩

/-- What a new client says. -/
def newClientFields : SessionFields := (connCreate plainConfig false true).sessionFields

/-- The export of a new client makes a connection that exports the same. -/
theorem session_import_new :
    ∃ totalLen rest fields,
      sessionBytes 272 newClientFields =
        putU32 sessionMagic ++ (putU32 sessionVersion ++ (putU32 totalLen ++ rest)) ∧
      getSession rest = some fields ∧
      Reproduces (sessionBytes 272 newClientFields) totalLen (newClientFields.restore true) := by
  obtain ⟨totalLen, rest, fields, front, read, settled⟩ :=
    session_import_exact_iff (@sessionImport_sessionBytes 272 newClientFields (by decide +kernel))
  refine ⟨totalLen, rest, fields, front, read, settled.mpr ?_⟩
  obtain ⟨rfl, rfl⟩ := sessionHead_inj front
  rw [getSession_iff.mpr ⟨[], (List.append_nil _).symm⟩] at read
  cases read
  constructor <;> decide +kernel

/-- A connection is made of octets that give it a state there is not, which it keeps, and of octets
that announce nothing, which it does not export. -/
theorem session_import_inexact :
    (∃ fields conn, sessionImport true true (sessionBytes 272 fields) = .ok conn ∧
      conn.state.toByte = 9 ∧ ¬ Reproduces (sessionBytes 272 fields) 272 conn) ∧
    ∃ conn, sessionImport true true (sessionBytes 0 newClientFields) = .ok conn ∧
      ¬ Reproduces (sessionBytes 0 newClientFields) 0 conn := by
  refine ⟨⟨{ newClientFields with state := 9 }, _,
    sessionImport_sessionBytes (by decide +kernel), rfl, ?_⟩,
    ⟨_, sessionImport_sessionBytes (by decide +kernel), ?_⟩⟩
  · intro reproduced
    exact absurd reproduced.state (by decide)
  · intro reproduced
    have exported := reproduced.exported
    rw [sessionExport_ok _ (Nat.le_refl _), Except.ok.injEq] at exported
    have length := congrArg List.length exported
    rw [List.length_append, sessionHead_length] at length
    change 12 + _ = 0 at length
    omega

end Nxp
