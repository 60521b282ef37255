import Nxp.Lib.SlotTable
import Nxp.Types

/-! The register of ticket nonces already used, one hashed slot for each class of them. -/

namespace Nxp

/-- How many slots a register has. -/
def strikeRegisterSize : Nat := 1024

/-- How long a ticket is accepted, in microseconds. -/
def ticketMaxAgeUs : Nat := 3600 * 1000000

/-- One slot of a register. -/
structure StrikeEntry where
  ticketHash : UInt64
  timestamp : UInt64
  occupied : Bool

/-- A register of nonces, with how many were put into it up to its size. -/
structure StrikeRegister where
  entries : Fin strikeRegisterSize → StrikeEntry
  count : UInt32

/-- A new register is all zero. -/
def strikeRegisterCreate : StrikeRegister where
  entries := fun _ => { ticketHash := 0, timestamp := 0, occupied := false }
  count := 0

/-- Hash of a nonce, octet by octet. -/
def hashTicket (nonce : Bytes) : UInt64 :=
  nonce.foldl (fun h octet => (h ^^^ octet.toUInt64) * 0x00000100000001B3) 0x517cc1b727220a95

/-- Slot of a hash. -/
def strikeIndex (h : UInt64) : Fin strikeRegisterSize :=
  ⟨h.toNat % strikeRegisterSize, Nat.mod_lt _ (by decide)⟩

/-- Refuse a nonce whose hash stands in its slot, and put any other there. -/
def strikeRegisterCheckAndAdd (reg : StrikeRegister) (ticketNonce : Bytes) (nowUs : UInt64) :
    Bool × StrikeRegister :=
  let h := hashTicket ticketNonce
  let idx := strikeIndex h
  if (reg.entries idx).occupied ∧ (reg.entries idx).ticketHash = h then (false, reg)
  else
    -- Whatever stood in the slot is replaced, expired or not.
    (true,
      { entries := Function.update reg.entries idx
          { ticketHash := h, timestamp := nowUs, occupied := true }
        count := if reg.count < UInt32.ofNat strikeRegisterSize then reg.count + 1 else reg.count })

/-- One use of a ticket: its nonce and when it is presented. -/
structure StrikeCall where
  ticketNonce : Bytes
  nowUs : UInt64

/-- Whether a register accepts a use. -/
def StrikeRegister.accepts (reg : StrikeRegister) (call : StrikeCall) : Bool :=
  (strikeRegisterCheckAndAdd reg call.ticketNonce call.nowUs).1

/-- A register after a use. -/
def StrikeRegister.after (reg : StrikeRegister) (call : StrikeCall) : StrikeRegister :=
  (strikeRegisterCheckAndAdd reg call.ticketNonce call.nowUs).2

/-- A new register after a sequence of uses. -/
def strikeRegisterAfter (calls : List StrikeCall) : StrikeRegister :=
  Machine.run StrikeRegister.after strikeRegisterCreate calls

/-- Slot of a nonce. -/
def strikeSlot (nonce : Bytes) : Fin strikeRegisterSize := strikeIndex (hashTicket nonce)

/-- The hashes a register holds, slot by slot. -/
def StrikeRegister.table (reg : StrikeRegister) (idx : Fin strikeRegisterSize) : Option UInt64 :=
  if (reg.entries idx).occupied then some (reg.entries idx).ticketHash else none

theorem StrikeRegister.table_eq_some {reg : StrikeRegister} {idx : Fin strikeRegisterSize}
    {h : UInt64} :
    reg.table idx = some h ↔ (reg.entries idx).occupied ∧ (reg.entries idx).ticketHash = h := by
  unfold StrikeRegister.table
  split
  · rename_i occupied
    simp [occupied]
  · rename_i free
    simp [free]

/-- A use is accepted exactly when the table of hashes admits its nonce. -/
theorem StrikeRegister.accepts_table (reg : StrikeRegister) (call : StrikeCall) :
    reg.accepts call = SlotTable.admits hashTicket strikeIndex reg.table call.ticketNonce := by
  unfold StrikeRegister.accepts strikeRegisterCheckAndAdd SlotTable.admits
  simp only [ne_eq, StrikeRegister.table_eq_some]
  split
  · rename_i struck
    simp [struck]
  · rename_i new
    simp [new]

/-- A use leaves the table of hashes with that of its nonce in its slot. -/
theorem StrikeRegister.table_after (reg : StrikeRegister) (call : StrikeCall) :
    (reg.after call).table =
      SlotTable.record hashTicket strikeIndex reg.table call.ticketNonce := by
  unfold StrikeRegister.after strikeRegisterCheckAndAdd
  dsimp only
  split
  · -- A refused nonce finds its hash in place.
    rename_i struck
    refine (SlotTable.record_of_refused ?_).symm
    have found := StrikeRegister.table_eq_some.mpr struck
    unfold SlotTable.admits
    rw [found]
    simp
  · funext idx
    unfold StrikeRegister.table SlotTable.record
    by_cases here : idx = strikeIndex (hashTicket call.ticketNonce)
    · simp [here]
    · simp [here]

/-- A sequence of uses leaves the table of hashes that its nonces leave. -/
theorem strikeRegisterAfter_table (calls : List StrikeCall) :
    (strikeRegisterAfter calls).table =
      Machine.run (SlotTable.record hashTicket strikeIndex) (fun _ => none)
        (calls.map StrikeCall.ticketNonce) := by
  -- The run of the register and that of the table take the uses one by one together.
  have together (reg : StrikeRegister) : (Machine.run StrikeRegister.after reg calls).table =
      Machine.run (SlotTable.record hashTicket strikeIndex) reg.table
        (calls.map StrikeCall.ticketNonce) := by
    induction calls generalizing reg with
    | nil => rfl
    | cons call rest ih =>
      rw [Machine.run_cons, ih, List.map_cons, Machine.run_cons, StrikeRegister.table_after]
  exact together strikeRegisterCreate

end Nxp
