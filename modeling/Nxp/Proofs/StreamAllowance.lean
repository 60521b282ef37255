import Mathlib.Data.Finset.Lattice.Fold
import Mathlib.Order.Lattice.Nat
import Nxp.Core.Exchange

/-! How many streams a connection may open after the peer has announced limits in any order. -/

namespace Nxp

variable (env : Env) (first : Nat) (conn : Conn)

/-- How many streams of a direction may be open before opening another one is refused. -/
def Conn.permittedStreams (conn : Conn) (unidirectional : Bool) : Nat :=
  (if unidirectional then conn.peerMaxStreamsUni else conn.peerMaxStreamsBidi).toNat

/-- Opening another stream is refused for its number exactly when that many are open. -/
theorem connOpenStream_refused_iff (type : StreamType) (unidirectional : Bool) :
    (connOpenStream env conn type unidirectional).1 = .error .streamLimit ↔
      conn.permittedStreams unidirectional ≤
        (if unidirectional then conn.openUniCount else conn.openBidiCount).toNat := by
  have full : streamsLeft conn unidirectional = false ↔ conn.permittedStreams unidirectional ≤
      (if unidirectional then conn.openUniCount else conn.openBidiCount).toNat := by
    cases unidirectional <;>
      simp [streamsLeft, Conn.permittedStreams, UInt32.le_iff_toNat_le]
  rw [← full]
  unfold connOpenStream
  cases streamsLeft conn unidirectional with
  | false => simp
  | true =>
    simp only [Bool.not_true, Bool.false_eq_true, if_false]
    split <;> simp

/-- What happens to the limits: one is announced, or a stream is opened under them. -/
inductive LimitOp where
  | maxStreams (env : Env) (value : UInt64) (bidi : Bool) (nowUs : UInt64)
  | openStream (env : Env) (type : StreamType) (unidirectional : Bool)

/-- What each of these does to the connection. -/
def limitStep (conn : Conn) : LimitOp → Conn
  | .maxStreams env value bidi nowUs =>
    (processFrame env conn (.maxStreams value bidi) nowUs).2
  | .openStream env type unidirectional => (connOpenStream env conn type unidirectional).2

/-- The value announced for a direction, if one is. -/
def LimitOp.announced (unidirectional : Bool) : LimitOp → Option Nat
  | .maxStreams _ value bidi _ => if bidi = !unidirectional then some value.toNat else none
  | .openStream .. => none

/-- All values announced for a direction. -/
def announcedLimits (ops : List LimitOp) (unidirectional : Bool) : List Nat :=
  ops.filterMap (LimitOp.announced unidirectional)

/-- The largest of a first limit and those announced, as far as 32 bits can hold it. -/
def largestLimit (first : Nat) (values : List Nat) : Nat :=
  min (max first (values.toFinset.sup id)) (2 ^ 32 - 1)

/-- A limit is at least the one in force and fits into 32 bits, or its low 32 bits are all set. -/
def LimitOp.Raises (conn : Conn) : LimitOp → Prop
  | .maxStreams _ value bidi _ =>
    if value.toNat < 2 ^ 32 then conn.permittedStreams (!bidi) ≤ value.toNat
    else value.toNat % 2 ^ 32 = 2 ^ 32 - 1
  | .openStream .. => True

theorem largestLimit_append (past later : List Nat) :
    largestLimit first (past ++ later) = largestLimit (largestLimit first past) later := by
  -- What exceeds 32 bits can be cut off before the comparison as well as after it.
  unfold largestLimit
  rw [List.toFinset_append, Finset.sup_union]
  change min (max first (max _ _)) _ = _
  omega

theorem largestLimit_mono (past later : List Nat) :
    largestLimit first past ≤ largestLimit first (past ++ later) := by
  rw [largestLimit_append]
  unfold largestLimit
  omega

theorem largestLimit_nil {first : Nat} (fits : first ≤ 2 ^ 32 - 1) : largestLimit first
    [] = first := by
  simp only [largestLimit, List.toFinset_nil, Finset.sup_empty]
  change min (max first 0) _ = first
  omega

theorem largestLimit_singleton (value : Nat) :
    largestLimit first [value] = min (max first value) (2 ^ 32 - 1) := by
  simp [largestLimit]

theorem Conn.permittedStreams_le (unidirectional : Bool) :
    conn.permittedStreams unidirectional ≤ 2 ^ 32 - 1 := by
  have := (if unidirectional then conn.peerMaxStreamsUni else conn.peerMaxStreamsBidi).toNat_lt
  unfold Conn.permittedStreams
  omega

theorem countOpened_permitted (direction unidirectional : Bool) :
    (countOpened conn direction).permittedStreams unidirectional =
      conn.permittedStreams unidirectional := by
  cases direction <;> rfl

theorem storeStream_permitted (id : UInt64) (s : Stream) (unidirectional : Bool) :
    (storeStream env conn id s).permittedStreams unidirectional =
      conn.permittedStreams unidirectional := by
  unfold storeStream
  split <;> rfl

theorem connOpenStream_permitted (type : StreamType) (direction unidirectional : Bool) :
    (connOpenStream env conn type direction).2.permittedStreams unidirectional =
      conn.permittedStreams unidirectional := by
  unfold connOpenStream
  split
  · rfl
  · dsimp only
    split
    · rfl
    · exact (countOpened_permitted ..).trans (storeStream_permitted ..)

theorem maxStreams_permitted (value : UInt64) (bidi unidirectional : Bool) (nowUs : UInt64) :
    (processFrame env conn (.maxStreams value bidi) nowUs).2.permittedStreams unidirectional =
      if bidi = !unidirectional then value.toNat % 2 ^ 32
      else conn.permittedStreams unidirectional := by
  unfold Conn.permittedStreams
  cases bidi <;> cases unidirectional <;> rfl

/-- One step leaves the largest limit in both directions exactly when it raises the limit. -/
theorem limitStep_largest_iff (op : LimitOp) :
    (∀ unidirectional, (limitStep conn op).permittedStreams unidirectional =
      largestLimit (conn.permittedStreams unidirectional)
        (announcedLimits [op] unidirectional)) ↔ op.Raises conn := by
  have fits := conn.permittedStreams_le
  cases op with
  | openStream env type direction =>
    refine ⟨fun _ => trivial, fun _ unidirectional => ?_⟩
    exact (connOpenStream_permitted ..).trans (largestLimit_nil (fits unidirectional)).symm
  | maxStreams env value bidi nowUs =>
    -- Only the direction of the frame is at stake.
    have mine := fits (!bidi)
    constructor
    · intro all
      have here := all (!bidi)
      simp only [limitStep, maxStreams_permitted, announcedLimits, LimitOp.announced, Bool.not_not,
        if_true, List.filterMap_cons, List.filterMap_nil, largestLimit_singleton] at here
      simp only [LimitOp.Raises]
      split <;> omega
    · intro raises unidirectional
      simp only [limitStep, maxStreams_permitted, announcedLimits, LimitOp.announced,
        List.filterMap_cons, List.filterMap_nil]
      by_cases direction : bidi = !unidirectional
      · rw [if_pos direction, if_pos direction]
        simp only [LimitOp.Raises, direction, Bool.not_not] at raises mine
        simp only [largestLimit_singleton]
        split at raises <;> omega
      · rw [if_neg direction, if_neg direction]
        exact (largestLimit_nil (fits unidirectional)).symm

/-- After every part of a run the limits are the largest ones exactly when every limit that is
announced raises the one in force. -/
theorem limits_largest_iff (ops : List LimitOp) :
    (∀ past rest, ops = past ++ rest → ∀ unidirectional,
      (Machine.run limitStep conn past).permittedStreams unidirectional =
        largestLimit (conn.permittedStreams unidirectional) (announcedLimits past unidirectional)) ↔
    Machine.Along limitStep (fun conn op => op.Raises conn) conn ops := by
  -- The run is taken apart from the front, the first step becoming the new start.
  induction ops generalizing conn with
  | nil =>
    refine ⟨fun _ => trivial, ?_⟩
    intro _ past rest parts unidirectional
    obtain ⟨rfl, rfl⟩ := List.append_eq_nil_iff.mp parts.symm
    exact (largestLimit_nil (conn.permittedStreams_le unidirectional)).symm
  | cons op later ih =>
    -- Once the first step is right, the largest limit can be counted from behind it.
    have onward (right : op.Raises conn) (past : List LimitOp) (unidirectional : Bool) :
        largestLimit ((limitStep conn op).permittedStreams unidirectional)
            (announcedLimits past unidirectional) =
          largestLimit (conn.permittedStreams unidirectional)
            (announcedLimits (op :: past) unidirectional) := by
      rw [(limitStep_largest_iff conn op).mpr right unidirectional, ← largestLimit_append]
      unfold announcedLimits
      rw [← List.filterMap_append, List.singleton_append]
    constructor
    · intro all
      have right : op.Raises conn :=
        (limitStep_largest_iff conn op).mp fun unidirectional => all [op] later rfl unidirectional
      refine ⟨right, (ih (limitStep conn op)).mp ?_⟩
      intro past rest parts unidirectional
      rw [onward right]
      exact all (op :: past) rest (by rw [parts, List.cons_append]) unidirectional
    · rintro ⟨right, along⟩ past rest parts unidirectional
      cases past with
      | nil =>
        exact (largestLimit_nil (conn.permittedStreams_le unidirectional)).symm
      | cons first past =>
        rw [List.cons_append] at parts
        obtain ⟨rfl, rfl⟩ := List.cons.inj parts
        rw [Machine.run_cons, ← onward right]
        exact (ih (limitStep conn op)).mpr along past rest rfl unidirectional

/-- From every connection and through any announcements of the peer, the number of streams that may
be opened never goes down and is the largest limit so far exactly when no announced limit is below
the one in force or exceeds 32 bits, except with all of the lower 32 set. -/
theorem limits_grow_iff (ops : List LimitOp) :
    (∀ past later rest, ops = past ++ later ++ rest → ∀ unidirectional,
      (Machine.run limitStep conn past).permittedStreams unidirectional ≤
          (Machine.run limitStep conn (past ++ later)).permittedStreams unidirectional ∧
        (Machine.run limitStep conn (past ++ later)).permittedStreams unidirectional =
          largestLimit (conn.permittedStreams unidirectional)
            (announcedLimits (past ++ later) unidirectional)) ↔
    Machine.Along limitStep (fun conn op => op.Raises conn) conn ops := by
  rw [← limits_largest_iff]
  constructor
  · intro all past rest parts unidirectional
    have here := (all [] past rest (by rw [List.nil_append, parts]) unidirectional).2
    rwa [List.nil_append] at here
  · intro all past later rest parts unidirectional
    have after := all (past ++ later) rest parts unidirectional
    have before := all past (later ++ rest) (by rw [parts, List.append_assoc]) unidirectional
    refine ⟨?_, after⟩
    rw [before, after]
    unfold announcedLimits
    rw [List.filterMap_append]
    exact largestLimit_mono ..

/-- A late limit of 10 takes the place of 1000, and a limit of 2 ^ 32 leaves no stream at all. -/
theorem limits_shrink :
    let conn := connCreate plainConfig false true
    (Machine.run limitStep conn [.maxStreams plainEnv 1000 true 0]).permittedStreams false = 1000 ∧
    (Machine.run limitStep conn [.maxStreams plainEnv 1000 true 0,
      .maxStreams plainEnv 10 true 0]).permittedStreams false = 10 ∧
    (Machine.run limitStep conn [.maxStreams plainEnv 0x100000000 true 0]).permittedStreams false =
      0 := by
  decide +kernel

end Nxp
