import Nxp.Core.CreditLaws
import Nxp.Core.StreamIds
import Mathlib.Algebra.BigOperators.Group.Finset.Piecewise
import Mathlib.Algebra.Order.BigOperators.Group.Finset

/-! The data received over all streams stays within the connection's limit exactly as long as the
peer keeps to it. -/

namespace Nxp

variable {conn : Conn} {s : Stream} {id : UInt64} {env : Env} {f : FrameStream}

/-- How far a stream was received, nothing if there is none. -/
def Conn.recvOffset (conn : Conn) (id : UInt64) : Nat :=
  ((conn.stream id).map fun s => s.recv.recvOffset.toNat).getD 0

/-- How far all streams together were received. -/
def Conn.recvTotal (conn : Conn) : Nat := ∑ id ∈ conn.ids, conn.recvOffset id

/-- What was received over all streams is within the connection's limit. -/
def WithinCredit (conn : Conn) : Prop := conn.recvTotal ≤ conn.connFlow.localMaxData.toNat

/-- How far the data of a frame reaches. -/
def FrameStream.reach (f : FrameStream) : Nat := if f.length > 0 then f.endOffset.toNat else 0

/-- How much further a stream is received with a frame. -/
def Conn.growth (conn : Conn) (f : FrameStream) : Nat := f.reach - conn.recvOffset f.streamId

/-- Every frame stays within what the connection's limit leaves. -/
def creditTerms : Terms where
  taken _ conn f := conn.recvTotal + conn.growth f ≤ conn.connFlow.localMaxData.toNat
  written _ _ _ _ := True

/-- Nothing is read before it is received. -/
def Stream.Unread (_ : UInt64) (s : Stream) : Prop :=
  s.recv.readOffset.toNat ≤ s.recv.recvOffset.toNat

/-- A frame moves what was received up to where its data reaches, if it is accepted. -/
theorem streamOnRecv_recvOffset (unread : s.Unread id) (f : FrameStream) :
    (streamOnRecv s f).2.recv.readOffset = s.recv.readOffset ∧
      (streamOnRecv s f).2.recv.recvOffset.toNat =
        if (streamOnRecv s f).1 = .ok then max s.recv.recvOffset.toNat f.reach
        else s.recv.recvOffset.toNat := by
  split
  · rename_i accepted
    rw [(streamOnRecv_accepted accepted).2]
    obtain ⟨-, read, reached⟩ := recvFin_recv (recvData s f) f
    rw [read, reached]
    unfold FrameStream.reach
    by_cases positive : f.length > 0
    · rw [if_pos positive]
      obtain ⟨bytes, found⟩ := f.data_of_positive positive
      rw [recvData_stored found positive]
      unfold recvStore
      split
      · exact ⟨rfl, Word.toNat_max_guarded _ _⟩
      · -- The frame ends where everything was read already.
        rename_i below
        rw [gt_iff_lt, UInt64.lt_iff_toNat_lt] at below
        unfold Stream.Unread at unread
        exact ⟨rfl, by omega⟩
    · have idle : (recvData s f).recv = s.recv := recvData_kept fun more => positive more.1
      rw [idle, if_neg positive]
      exact ⟨rfl, by omega⟩
  · rename_i refused
    rw [streamOnRecv_refused refused]
    exact ⟨rfl, rfl⟩

theorem Move.recv_cases {act : Act} {s' : Stream} (move : Move id s act s') :
    s'.recv = s.recv ∨
      (∃ env f, act = .taken env f ∧ f.streamId = id ∧ s' = (streamOnRecv s f).2) ∨
      ∃ bufLen, s' = (streamRead s bufLen).2.2 := by
  cases move with
  | retimed only => exact .inl (congrArg Stream.recv only :)
  | received env named => exact .inr (.inl ⟨env, _, rfl, named, rfl⟩)
  | raised maxData => exact .inl rfl
  | acked named blocked => exact .inl (congrArg Stream.recv (streamOnAck_only s _ _ _) :)
  | lost named => exact .inl (congrArg Stream.recv (streamOnLoss_send s _ _ _) :)
  | sent only filled =>
    left
    unfold chargeStream
    rw [streamFillFrame_only filled, only]
  | written data fin =>
    left
    rcases streamWrite_cases s data fin with refused | accepted
    · rw [refused]
    · rw [accepted]
  | read bufLen => exact .inr (.inr ⟨bufLen, rfl⟩)

theorem streamRead_unread (unread : s.Unread id) (bufLen : UInt64) :
    (streamRead s bufLen).2.2.Unread id ∧
      (streamRead s bufLen).2.2.recv.recvOffset = s.recv.recvOffset := by
  have ordered : s.recv.readOffset ≤ s.recv.recvOffset := UInt64.le_iff_toNat_le.mpr unread
  obtain ⟨-, -, advanced, -, same, -⟩ := streamRead_spec s bufLen ordered
  unfold Stream.Unread at unread ⊢
  rw [same, advanced]
  exact ⟨by omega, rfl⟩

theorem Stream.Unread.moved {id : UInt64} {act : Act} {s s' : Stream} (move : Move id s act s')
    (unread : s.Unread id) : s'.Unread id := by
  rcases move.recv_cases with same | ⟨env, f, -, -, rfl⟩ | ⟨bufLen, rfl⟩
  · unfold Stream.Unread
    rw [same]
    exact unread
  · obtain ⟨read, reached⟩ := streamOnRecv_recvOffset unread f
    unfold Stream.Unread at unread ⊢
    rw [read, reached]
    split <;> omega
  · exact (streamRead_unread unread bufLen).1

theorem unread_act {act : Act} {before after : Conn} (done : act.does before after)
    (unread : before.Each Stream.Unread) : after.Each Stream.Unread := by
  refine Conn.Each.act ?_ ?_ Stream.Unread.moved done unread
  · intro id s t same old
    have recv : t.recv = s.recv := (congrArg Stream.recv same :)
    unfold Stream.Unread
    rw [recv]
    exact old
  · exact fun _ _ _ => Nat.le_refl _

/-- How much further an act moves what was received of a stream, at most. -/
def Act.gain (conn : Conn) : Act → UInt64 → Nat
  | .taken _ f, id => if id = f.streamId then conn.growth f else 0
  | _, _ => 0

section Acts

variable {act : Act} {before after : Conn}

/-- No act moves a stream further than by what it gains. -/
theorem Act.recvOffset_le (done : act.does before after) (unread : before.Each Stream.Unread)
    (id : UInt64) : after.recvOffset id ≤ before.recvOffset id + act.gain before id := by
  have step := Act.streams done id
  unfold Conn.recvOffset
  generalize was : before.stream id = old at step
  generalize after.stream id = new at step
  cases step with
  | absent => exact Nat.zero_le _
  | @moved s linked moved s' first move last =>
    have start : linked.recv = s.recv := (congrArg Stream.recv first :)
    have final : s'.recv = moved.recv := (congrArg Stream.recv last :)
    have ready : linked.Unread id := by
      unfold Stream.Unread
      rw [start]
      exact unread id s was
    rw [Option.map_some, Option.map_some, Option.getD_some, Option.getD_some, final, ← start]
    rcases move.recv_cases with same | ⟨env, f, rfl, rfl, rfl⟩ | ⟨bufLen, rfl⟩
    · rw [same]
      exact Nat.le_add_right _ _
    · rw [(streamOnRecv_recvOffset ready f).2]
      have known : before.recvOffset f.streamId = linked.recv.recvOffset.toNat := by
        unfold Conn.recvOffset
        rw [was, start]
        rfl
      unfold Act.gain Conn.growth
      simp only [if_true, known]
      split <;> omega
    · rw [(streamRead_unread ready bufLen).2]
      exact Nat.le_add_right _ _
  | @created _ s made =>
    cases act with
    | taken env f =>
      obtain ⟨rfl, absent, -, -, -, rfl⟩ := made
      rw [absent] at was
      subst was
      have none : before.recvOffset f.streamId = 0 := by
        unfold Conn.recvOffset
        rw [absent]
        rfl
      have fresh : (streamCreate f.streamId .reliable before.initialMaxStreamData
          before.initialMaxStreamData).Unread f.streamId := Nat.le_refl _
      rw [Option.map_some, Option.getD_some, (streamOnRecv_recvOffset fresh f).2]
      unfold Act.gain Conn.growth
      simp only [if_true, none]
      have zero : (streamCreate f.streamId .reliable before.initialMaxStreamData
          before.initialMaxStreamData).recv.recvOffset.toNat = 0 := rfl
      split <;> omega
    | opened env type unidirectional =>
      obtain ⟨-, -, -, -, rfl⟩ := made
      exact Nat.zero_le _
    | _ => exact made.elim

theorem Conn.recvOffset_absent (absent : id ∉ conn.ids) :
    conn.recvOffset id = 0 := by
  unfold Conn.recvOffset
  rw [Conn.not_mem_ids.mp absent]
  rfl

theorem Act.recvTotal_before (done : act.does before after) :
    ∑ id ∈ after.ids, before.recvOffset id = before.recvTotal :=
  (Finset.sum_subset (Act.ids_subset done) fun _ _ absent => Conn.recvOffset_absent absent).symm

/-- An act adds its own gain to the total at most. -/
theorem Act.recvTotal_le (done : act.does before after) (unread : before.Each Stream.Unread) :
    after.recvTotal ≤ before.recvTotal + ∑ id ∈ after.ids, act.gain before id := by
  rw [← Act.recvTotal_before done, ← Finset.sum_add_distrib]
  exact Finset.sum_le_sum fun id _ => Act.recvOffset_le done unread id

theorem Act.gain_sum (conn : Conn) (env : Env) (f : FrameStream) (ids : Finset UInt64) :
    ∑ id ∈ ids, (Act.taken env f).gain conn id =
      if f.streamId ∈ ids then conn.growth f else 0 := Finset.sum_ite_eq' ids f.streamId _

end Acts

/-- A connection whose data is within its credit, with what that rests on. -/
structure Credited (conn : Conn) : Prop where
  sound : conn.Sound
  unread : conn.Each Stream.Unread
  within : WithinCredit conn

/-- An act within the terms keeps the credit sound. -/
theorem Credited.kept {act : Act} {before after : Conn} (permitted : creditTerms.permit before act)
    (done : act.does before after) (credited : Credited before) : Credited after := by
  refine ⟨credited.sound.act done, unread_act done credited.unread, ?_⟩
  have total := Act.recvTotal_le done credited.unread
  have old := credited.within
  unfold WithinCredit at old ⊢
  rw [Act.localMaxData done credited.sound]
  cases act with
  | taken env f =>
    rw [Act.gain_sum] at total
    have room : before.recvTotal + before.growth f ≤ before.connFlow.localMaxData.toNat := permitted
    split at total <;> omega
  | _ =>
    have none : ∑ id ∈ after.ids, 0 = 0 := Finset.sum_const_zero
    change after.recvTotal ≤ before.recvTotal + ∑ id ∈ after.ids, 0 at total
    omega

/-- A frame that is accepted and whose stream is there moves that stream by what it adds. -/
theorem recvStreamFrame_reaches
    (unread : conn.Each Stream.Unread) (accepted : (recvStreamFrame env conn f).1 = .ok)
    (stored : f.streamId ∈ (recvStreamFrame env conn f).2.ids) :
    (recvStreamFrame env conn f).2.recvOffset f.streamId =
      conn.recvOffset f.streamId + conn.growth f := by
  unfold Conn.growth
  cases found : conn.stream f.streamId with
  | some s =>
    rw [recvStreamFrame_known found] at accepted ⊢
    have reached := (streamOnRecv_recvOffset (unread _ s found) f).2
    rw [if_pos accepted] at reached
    unfold Conn.recvOffset
    rw [Conn.stream_setStream, if_pos rfl, found]
    show (streamOnRecv s f).2.recv.recvOffset.toNat = s.recv.recvOffset.toNat + _
    rw [reached]
    show _ = _ + (f.reach - s.recv.recvOffset.toNat)
    omega
  | none =>
    -- The stream was opened by the frame.
    have done : (Act.taken env f).does conn (recvStreamFrame env conn f).2 := rfl
    obtain ⟨-, -, -, remote, memory, room, -⟩ :=
      Act.created done stored (Conn.not_mem_ids.mpr found)
    obtain ⟨code, opened⟩ := recvStreamFrame_created found remote memory room
    rw [code] at accepted
    have fresh : (streamCreate f.streamId .reliable conn.initialMaxStreamData
        conn.initialMaxStreamData).Unread f.streamId := Nat.le_refl _
    have reached := (streamOnRecv_recvOffset fresh f).2
    rw [if_pos accepted] at reached
    unfold Conn.recvOffset
    rw [opened, found, Option.map_some, Option.getD_some, reached]
    show max 0 f.reach = 0 + (f.reach - 0)
    omega

theorem recvStreamFrame_total
    (unread : conn.Each Stream.Unread) (accepted : (recvStreamFrame env conn f).1 = .ok)
    (stored : f.streamId ∈ (recvStreamFrame env conn f).2.ids) :
    (recvStreamFrame env conn f).2.recvTotal = conn.recvTotal + conn.growth f := by
  have done : (Act.taken env f).does conn (recvStreamFrame env conn f).2 := rfl
  -- Every stream is received as far as it was, and the frame's stream by its gain further.
  have same (id : UInt64) : (recvStreamFrame env conn f).2.recvOffset id =
      conn.recvOffset id + (Act.taken env f).gain conn id := by
    unfold Act.gain
    by_cases mine : id = f.streamId
    · simp only [if_pos mine]
      rw [mine]
      exact recvStreamFrame_reaches unread accepted stored
    · simp only [if_neg mine]
      unfold Conn.recvOffset
      rw [recvStreamFrame_other env conn mine]
      rfl
  have counted := Act.gain_sum conn env f (recvStreamFrame env conn f).2.ids
  rw [if_pos stored] at counted
  rw [← Act.recvTotal_before done, ← counted, ← Finset.sum_add_distrib]
  exact Finset.sum_congr rfl fun id _ => same id

theorem connCreate_credited (config : ConnConfig) (isServer allocCc : Bool) :
    Credited (connCreate config isServer allocCc) where
  sound := connCreate_sound config isServer allocCc
  unread _ _ found := by cases found
  within := Nat.zero_le _

/-- In every run in which no frame reaches beyond what the connection's limit leaves, the data
received over all streams is within that limit; and in every state such a run reaches, a frame that
is accepted and stored keeps it there exactly if it does not reach beyond. -/
theorem received_within_credit {evp : Evp} {config : ConnConfig} {isServer allocCc : Bool}
    {inputs : List (Env × ConnOp)} {final : Conn}
    (kept : Machine.Throughout (connStep evp) (creditTerms.met evp)
      (connCreate config isServer allocCc) inputs)
    (reached : Machine.attempt (connStep evp) (connCreate config isServer allocCc) inputs =
      some final) :
    WithinCredit final ∧
      ∀ env f, (recvStreamFrame env final f).1 = .ok →
        f.streamId ∈ (recvStreamFrame env final f).2.ids →
        (WithinCredit (recvStreamFrame env final f).2 ↔
          final.recvTotal + final.growth f ≤ final.connFlow.localMaxData.toNat) := by
  have credited : Credited final :=
    Machine.attempt_invariant (creditTerms.met evp) Credited
      (fun _ _ _ credited met stepped =>
        (connStep_acts met stepped).preserve
          (fun _ _ _ permitted done credited => credited.kept permitted done) credited)
      (connCreate_credited config isServer allocCc) kept reached
  refine ⟨credited.within, fun env f accepted stored => ?_⟩
  have done : (Act.taken env f).does final (recvStreamFrame env final f).2 := rfl
  unfold WithinCredit
  rw [recvStreamFrame_total credited.unread accepted stored, Act.localMaxData done credited.sound]

/-- A packet with the first octet of each of the client's first two streams. -/
def twoOctetsPacket : Bytes := firstOctetPacket ++ [0x0A, 0x10, 0x01, 0x07]

theorem firstOctet_met :
    creditTerms.met plainEvp oneOctetServer (plainEnv, .recv firstOctetPacket 0) := by
  intro pktNum payload event opens _
  have opened : openDatagram plainEvp oneOctetServer firstOctetPacket =
      some (some 0, [0x0A, 0x00, 0x01, 0x07]) := by decide +kernel
  cases opened.symm.trans opens
  have frames : leadingFrames [0x0A, 0x00, 0x01, 0x07] =
      [.stream ⟨0, 0, 1, false, true, false, some [7], by decide⟩] := by decide
  rw [frames]
  refine ⟨fun f same => ?_, fun _ => trivial⟩
  cases same
  -- Nothing was received yet, and one octet is granted.
  have room : oneOctetServer.recvTotal +
      oneOctetServer.growth ⟨0, 0, 1, false, true, false, some [7], by decide⟩ ≤
      oneOctetServer.connFlow.localMaxData.toNat := by decide +kernel
  exact room

/-- One octet is within a limit of one. -/
theorem received_within_credit_octet :
    ∃ final, Machine.attempt (connStep plainEvp) (connCreate oneOctetConfig true true)
        [(plainEnv, .setEstablished ConnId.empty), (plainEnv, .recv firstOctetPacket 0)] =
        some final ∧ final.recvTotal = 1 ∧ WithinCredit final := by
  have kept : Machine.Throughout (connStep plainEvp) (creditTerms.met plainEvp)
      (connCreate oneOctetConfig true true)
      [(plainEnv, .setEstablished ConnId.empty), (plainEnv, .recv firstOctetPacket 0)] := by
    refine ⟨trivial, fun next stepped => ?_⟩
    cases stepped
    exact ⟨firstOctet_met, fun _ _ => trivial⟩
  exact ⟨(connRecv plainEvp plainEnv oneOctetServer firstOctetPacket 0).2, rfl,
    by decide +kernel, (received_within_credit kept rfl).1⟩

/-- Two octets on two streams are accepted where one octet is granted for all streams. -/
theorem two_octets_accepted :
    ∃ final, Machine.attempt (connStep plainEvp) (connCreate oneOctetConfig true true)
        [(plainEnv, .setEstablished ConnId.empty), (plainEnv, .recv twoOctetsPacket 0)] =
        some final ∧
      (connRecv plainEvp plainEnv oneOctetServer twoOctetsPacket 0).1 = .ok ∧
      final.connFlow.localMaxData = 1 ∧ final.recvTotal = 2 ∧ ¬ WithinCredit final := by
  have run : (connRecv plainEvp plainEnv oneOctetServer twoOctetsPacket 0).1 = .ok ∧
      (connRecv plainEvp plainEnv oneOctetServer twoOctetsPacket 0).2.connFlow.localMaxData = 1 ∧
      (connRecv plainEvp plainEnv oneOctetServer twoOctetsPacket 0).2.recvTotal = 2 := by
    decide +kernel
  obtain ⟨accepted, limit, total⟩ := run
  refine ⟨(connRecv plainEvp plainEnv oneOctetServer twoOctetsPacket 0).2, rfl, accepted, limit,
    total, fun within => ?_⟩
  unfold WithinCredit at within
  rw [total, limit] at within
  exact absurd within (by decide)

end Nxp
