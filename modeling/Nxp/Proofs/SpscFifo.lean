import Nxp.Lib.Machine
import Nxp.Lib.Word
import Nxp.Util.RingBuffer

/-! Under any interleaving of one producer and one consumer the ring buffer is first in, first out.
-/

namespace Nxp

variable (data : Bytes) {block : Bytes} {w pos : UInt64} {count : Nat}

open Ring

/-- The octets of a call to write that is under way and will accept them. -/
def WriteCall.pending : WriteCall → Bytes
  | .idle | .loaded _ _ => []
  | .copying block _ | .wrapping block _ | .storing block _ => block

/-- The octets a call to read has copied so far. -/
def ReadCall.copied : ReadCall → Bytes
  | .wrapping _ _ buf | .storing _ _ buf => buf
  | _ => []

/-- What was read comes in the order it was written in, nothing unread is overwritten, and the
positions are as far apart as there are unread octets. -/
structure Spsc.Fifo (s : Spsc) : Prop where
  ordered : s.received ++ s.consumer.copied <+: s.accepted ++ s.producer.pending
  unread : ∀ i, s.received.length ≤ i → ∀ octet, s.accepted[i]? = some octet →
    s.rb.data (i % s.rb.capacity.toNat) = octet
  distance : (s.rb.writePos - s.rb.readPos).toNat + s.received.length = s.accepted.length
  bounded : s.rb.writePos - s.rb.readPos ≤ s.rb.capacity

/-- How many octets of its block the producer has copied. -/
private def WriteCall.placed (cap start : Nat) : WriteCall → Nat
  | .wrapping _ _ => cap - start % cap
  | .storing block _ => block.length
  | _ => 0

/-- What the producer knows: its own position, and room for its block. -/
private def Spsc.Produces (s : Spsc) : WriteCall → Prop
  | .idle => True
  | .loaded _ w => w = s.rb.writePos
  | .copying block w | .storing block w =>
    w = s.rb.writePos ∧
      s.accepted.length + block.length ≤ s.received.length + s.rb.capacity.toNat
  | .wrapping block w =>
    w = s.rb.writePos ∧
      s.accepted.length + block.length ≤ s.received.length + s.rb.capacity.toNat ∧
      s.rb.capacity.toNat - s.accepted.length % s.rb.capacity.toNat ≤ block.length

/-- What the consumer knows: its own position, and that what it reads was written. -/
private def Spsc.Consumes (s : Spsc) : ReadCall → Prop
  | .idle => True
  | .loaded _ w => ∃ seen, w.toNat = seen % 2 ^ 64 ∧ s.received.length ≤ seen ∧
      seen ≤ s.accepted.length
  | .copying len r => r = s.rb.readPos ∧ s.received.length + len.toNat ≤ s.accepted.length
  | .wrapping len r buf => r = s.rb.readPos ∧
      s.received.length + len.toNat ≤ s.accepted.length ∧ s.received ++ buf <+: s.accepted ∧
      buf.length = s.rb.capacity.toNat - s.received.length % s.rb.capacity.toNat ∧
      buf.length < len.toNat
  | .storing len r buf => r = s.rb.readPos ∧ s.received ++ buf <+: s.accepted ∧
      buf.length = len.toNat

/-- What every step of either side keeps. -/
private structure Spsc.Kept (s : Spsc) : Prop where
  power : ∃ bits ≤ 62, s.rb.capacity.toNat = 2 ^ bits
  mask : s.rb.mask.toNat = s.rb.capacity.toNat - 1
  write : s.rb.writePos.toNat = s.accepted.length % 2 ^ 64
  read : s.rb.readPos.toNat = s.received.length % 2 ^ 64
  order : s.received <+: s.accepted
  room : s.accepted.length ≤ s.received.length + s.rb.capacity.toNat
  held : Holds s.rb.capacity.toNat s.rb.data
    (fun o => (s.accepted ++ s.producer.pending).getD o 0)
    (Set.Ico s.received.length
      (s.accepted.length + s.producer.placed s.rb.capacity.toNat s.accepted.length))
  producing : s.Produces s.producer
  consuming : s.Consumes s.consumer

/-- Rounding up a size within the bound gives a power of two within the bound. -/
theorem sizeNextPowerOf2_power {v : UInt64} (positive : 0 < v.toNat)
    (bounded : v.toNat ≤ 2 ^ 62) : ∃ bits ≤ 62, (sizeNextPowerOf2 v).toNat = 2 ^ bits := by
  have before : (v - 1).toNat = v.toNat - 1 := by
    rw [UInt64.toNat_sub_of_le _ _ (UInt64.le_iff_toNat_le.mpr (by simp; omega))]
    rfl
  rcases Nat.eq_or_lt_of_le positive with one | large
  · have : v = 1 := UInt64.toNat_inj.mp one.symm
    exact ⟨0, by decide, by rw [this]; decide⟩
  · have high : (v.toNat - 1).log2 < 62 := (Nat.log2_lt (by omega)).mpr (by omega)
    have ones := (Word.topped_log2
      (show v.toNat - 1 ≠ 0 by omega)).smear.smear.smear.smear.smear.smear.full (by omega)
    have fits : 2 ^ ((v.toNat - 1).log2 + 1) ≤ 2 ^ 62 := Nat.pow_le_pow_right Nat.two_pos high
    have least := Nat.two_pow_pos ((v.toNat - 1).log2 + 1)
    refine ⟨(v.toNat - 1).log2 + 1, high, ?_⟩
    unfold sizeNextPowerOf2
    simp only [UInt64.toNat_add, UInt64.toNat_or, UInt64.toNat_shiftRight, before,
      UInt64.reduceToNat, Nat.reduceMod]
    rw [ones, Nat.sub_add_cancel least]
    exact Nat.mod_eq_of_lt (by omega)

theorem spscStart_kept (memory : Nat → UInt8) {capacity : UInt64}
    (bounded : capacity.toNat ≤ 2 ^ 62) : (spscStart memory capacity).Kept := by
  obtain ⟨bits, small, power⟩ : ∃ bits ≤ 62,
      (ringBufferCreate memory capacity).capacity.toNat = 2 ^ bits := by
    simp only [ringBufferCreate]
    split
    · exact sizeNextPowerOf2_power (by decide) (by decide)
    · rename_i given
      have := mt UInt64.toNat_inj.mp given
      simp at this
      exact sizeNextPowerOf2_power (by omega) bounded
  have positive := Nat.two_pow_pos bits
  refine ⟨⟨bits, small, power⟩, ?_, rfl, rfl, List.prefix_rfl, Nat.zero_le _, ?_, trivial, trivial⟩
  · show ((ringBufferCreate memory capacity).capacity - 1).toNat = _
    rw [UInt64.toNat_sub_of_le _ _ (UInt64.le_iff_toNat_le.mpr (by rw [power]; exact positive))]
    rfl
  · intro o member
    obtain ⟨low, high⟩ := member
    simp [spscStart, WriteCall.placed] at high

/-- What is asked for is cut to what there is. -/
theorem clipped_le (asked most : UInt64) :
    (if asked > most then most else asked).toNat ≤ most.toNat := by
  split
  · exact Nat.le_refl _
  · rename_i fits
    exact UInt64.le_iff_toNat_le.mp (UInt64.not_lt.mp fits)

namespace Spsc.Kept

variable {s : Spsc} (kept : s.Kept)

include kept

theorem sizes : 0 < s.rb.capacity.toNat ∧ s.rb.capacity.toNat ≤ 2 ^ 62 ∧
    s.received.length ≤ s.accepted.length := by
  obtain ⟨bits, small, power⟩ := kept.power
  rw [power]
  exact ⟨Nat.two_pow_pos bits, Nat.pow_le_pow_right Nat.two_pos small, kept.order.length_le⟩

/-- Masking a position that counts modulo the word size gives the cell of its offset. -/
theorem masked (counts : pos.toNat = count % 2 ^ 64) :
    (pos &&& s.rb.mask).toNat = count % s.rb.capacity.toNat ∧
      (s.rb.capacity - (pos &&& s.rb.mask)).toNat =
        s.rb.capacity.toNat - count % s.rb.capacity.toNat := by
  obtain ⟨bits, small, power⟩ := kept.power
  have divides : 2 ^ bits ∣ 2 ^ 64 := Nat.pow_dvd_pow 2 (by omega)
  have cell : (pos &&& s.rb.mask).toNat = count % s.rb.capacity.toNat := by
    rw [UInt64.toNat_and, kept.mask, power, Nat.and_two_pow_sub_one_eq_mod, counts,
      Nat.mod_mod_of_dvd _ divides]
  have inside := Nat.mod_lt count kept.sizes.1
  refine ⟨cell, ?_⟩
  rw [UInt64.toNat_sub_of_le _ _ (UInt64.le_iff_toNat_le.mpr (by omega)), cell]

/-- Two positions less than a lap apart differ by what lies between them. -/
theorem apart (counts : pos.toNat = count % 2 ^ 64)
    (after : s.received.length ≤ count) (near : count ≤ s.accepted.length) :
    (pos - s.rb.readPos).toNat = count - s.received.length := by
  have := kept.sizes
  have := kept.room
  have := kept.read
  rw [UInt64.toNat_sub]
  omega

/-- What was received is a first part of what was accepted. -/
theorem fifo : s.Fifo := by
  have sizes := kept.sizes
  have apart := kept.apart kept.write sizes.2.2 (Nat.le_refl _)
  refine ⟨?_, ?_, by omega, ?_⟩
  · have copied : s.received ++ s.consumer.copied <+: s.accepted := by
      have consuming := kept.consuming
      cases step : s.consumer with
      | wrapping len r buf =>
        rw [step] at consuming
        exact consuming.2.2.1
      | storing len r buf =>
        rw [step] at consuming
        exact consuming.2.1
      | _ => simpa [ReadCall.copied] using kept.order
    exact copied.trans (List.prefix_append _ _)
  · intro i past octet there
    have inside := (List.getElem?_eq_some_iff.mp there).1
    rw [kept.held i ⟨past, by omega⟩]
    simp [List.getElem?_append_left inside, there]
  · rw [UInt64.le_iff_toNat_le, apart]
    have := kept.room
    omega

/-- What is unread is there whatever the producer is about to write. -/
theorem unread (block : Bytes) :
    Holds s.rb.capacity.toNat s.rb.data (fun o => (s.accepted ++ block).getD o 0)
      (Set.Ico s.received.length s.accepted.length) := by
  intro o member
  obtain ⟨low, high⟩ := member
  rw [kept.fifo.unread o low _ (List.getElem?_eq_getElem high)]
  simp [List.getElem?_append_left high, List.getElem?_eq_getElem high]

/-- Reading on within the lap extends what was read by what was written next. -/
theorem reads {front : Bytes} (written : front <+: s.accepted)
    (past : s.received.length ≤ front.length) {len : Nat}
    (available : front.length + len ≤ s.accepted.length)
    (straight : len ≤ s.rb.capacity.toNat - front.length % s.rb.capacity.toNat) :
    front ++ readAt s.rb.data (front.length % s.rb.capacity.toNat) len <+: s.accepted := by
  have within : Set.Ico front.length (front.length + len) ⊆
      Set.Ico s.received.length s.accepted.length := fun o member => by
    obtain ⟨low, high⟩ := member
    exact ⟨by omega, by omega⟩
  have read := (kept.unread []).readAt within straight
  simp only [List.append_nil] at read
  rw [read, ← take_drop_eq_map s.accepted 0 available]
  nth_rewrite 1 [List.prefix_iff_eq_take.mp written]
  rw [← List.take_add]
  exact List.take_prefix _ _

/-- A store of the producer leaves the consumer what it knows. -/
theorem consumes_accepted (block : Bytes) (writePos : UInt64) :
    Spsc.Consumes
      { s with
        rb := { s.rb with writePos := writePos }
        producer := .idle
        accepted := s.accepted ++ block } s.consumer := by
  have consuming := kept.consuming
  have longer : s.accepted <+: s.accepted ++ block := List.prefix_append _ _
  have length := longer.length_le
  cases step : s.consumer with
  | idle => trivial
  | loaded len w =>
    rw [step] at consuming
    obtain ⟨seen, counts, after, before⟩ := consuming
    exact ⟨seen, counts, after, before.trans length⟩
  | copying len r =>
    rw [step] at consuming
    exact ⟨consuming.1, consuming.2.trans length⟩
  | wrapping len r buf =>
    rw [step] at consuming
    obtain ⟨own, available, written, rest⟩ := consuming
    exact ⟨own, available.trans length, written.trans longer, rest⟩
  | storing len r buf =>
    rw [step] at consuming
    exact ⟨consuming.1, consuming.2.1.trans longer, consuming.2.2⟩

/-- A store of the consumer leaves the producer what it knows. -/
theorem produces_received (buf : Bytes) (readPos : UInt64) :
    Spsc.Produces
      { s with
        rb := { s.rb with readPos := readPos }
        consumer := .idle
        received := s.received ++ buf } s.producer := by
  have producing := kept.producing
  have length : (s.received ++ buf).length = s.received.length + buf.length := List.length_append
  cases step : s.producer with
  | idle => trivial
  | loaded data w =>
    rw [step] at producing
    exact producing
  | copying block w =>
    rw [step] at producing
    exact ⟨producing.1, by have := producing.2; simp only [length]; omega⟩
  | storing block w =>
    rw [step] at producing
    exact ⟨producing.1, by have := producing.2; simp only [length]; omega⟩
  | wrapping block w =>
    rw [step] at producing
    obtain ⟨own, room, first⟩ := producing
    exact ⟨own, by simp only [length]; omega, first⟩

/-- Every step of the consumer keeps the invariant. -/
theorem consume (len : UInt64) : (ringBufferRead s len).Kept := by
  have consuming := kept.consuming
  have sizes := kept.sizes
  unfold ringBufferRead
  cases step : s.consumer with
  | idle => exact { kept with consuming := ⟨_, kept.write, sizes.2.2, Nat.le_refl _⟩ }
  | loaded len w =>
    rw [step] at consuming
    obtain ⟨seen, counts, after, before⟩ := consuming
    have available := kept.apart counts after before
    have most := clipped_le len (w - s.rb.readPos)
    simp only
    generalize (if len > w - s.rb.readPos then w - s.rb.readPos else len) = part at most ⊢
    split
    · exact { kept with consuming := trivial }
    · have reached : s.received.length + part.toNat ≤ s.accepted.length := by omega
      exact { kept with consuming := ⟨rfl, reached⟩ }
  | copying len r =>
    rw [step] at consuming
    obtain ⟨rfl, available⟩ := consuming
    obtain ⟨cell, first⟩ := kept.masked kept.read
    simp only [cell, first]
    split
    · rename_i straight
      have straight := UInt64.le_iff_toNat_le.mp straight
      refine { kept with consuming := ⟨rfl, ?_, by simp⟩ }
      exact kept.reads kept.order (Nat.le_refl _) available (by omega)
    · rename_i crosses
      have crosses := UInt64.lt_iff_toNat_lt.mp (UInt64.not_le.mp crosses)
      refine { kept with consuming := ⟨rfl, available, ?_, by simp, by simp; omega⟩ }
      exact kept.reads kept.order (Nat.le_refl _) (by omega) (Nat.le_refl _)
  | wrapping len r buf =>
    rw [step] at consuming
    obtain ⟨rfl, available, written, upto, more⟩ := consuming
    obtain ⟨-, first⟩ := kept.masked kept.read
    have rest : (len - (s.rb.capacity - (s.rb.readPos &&& s.rb.mask))).toNat =
        len.toNat - buf.length := by
      rw [UInt64.toNat_sub_of_le _ _ (UInt64.le_iff_toNat_le.mpr (by omega)), first, upto]
    -- The rest starts a new lap, at cell zero.
    have lap : (s.received ++ buf).length % s.rb.capacity.toNat = 0 := by
      rw [List.length_append, upto]
      exact cell_next_lap sizes.1
    have enough : (s.received ++ buf).length + (len.toNat - buf.length) ≤ s.accepted.length := by
      rw [List.length_append]
      omega
    have read := kept.reads written (by simp) enough (by have := kept.room; rw [lap]; omega)
    rw [lap, List.append_assoc] at read
    simp only [rest]
    exact { kept with consuming := ⟨rfl, read, by simp; omega⟩ }
  | storing len r buf =>
    rw [step] at consuming
    obtain ⟨rfl, written, whole⟩ := consuming
    have length : (s.received ++ buf).length = s.received.length + buf.length := List.length_append
    have room := kept.room
    exact { kept with
      read := by
        have read := kept.read
        show (s.rb.readPos + len).toNat = _
        rw [UInt64.toNat_add, length]
        omega
      order := written
      room := by simp only [length]; omega
      held := kept.held.mono fun o member => ⟨by have := member.1; simp only [length] at this; omega,
        member.2⟩
      producing := kept.produces_received buf _
      consuming := trivial }

/-- A call to write takes no more octets than there is room for. -/
theorem produce_loaded (step : s.producer = .loaded block w) : (ringBufferWrite s data).Kept := by
  have producing := kept.producing
  have held := kept.held
  rw [step] at held producing
  obtain rfl : w = s.rb.writePos := producing
  have room := kept.room
  have taken := kept.apart kept.write kept.sizes.2.2 (Nat.le_refl _)
  have available : (s.rb.capacity - (s.rb.writePos - s.rb.readPos)).toNat =
      s.rb.capacity.toNat - (s.accepted.length - s.received.length) := by
    rw [UInt64.toNat_sub_of_le _ _ (UInt64.le_iff_toNat_le.mpr (by omega)), taken]
  unfold ringBufferWrite
  simp only [step]
  generalize s.rb.capacity - (s.rb.writePos - s.rb.readPos) = free at available ⊢
  have most := clipped_le (UInt64.ofNat block.length) free
  generalize (if UInt64.ofNat block.length > free then free else UInt64.ofNat block.length) = len
    at most ⊢
  split
  · exact { kept with held := held, producing := trivial }
  · have fits : s.accepted.length + (block.take len.toNat).length ≤
        s.received.length + s.rb.capacity.toNat := by
      rw [List.length_take]
      omega
    exact { kept with held := kept.unread _, producing := ⟨rfl, fits⟩ }

/-- The next stretch of a block goes behind what was copied of it, within the lap. -/
theorem lays {block : Bytes} {done len : Nat}
    (held : Holds s.rb.capacity.toNat s.rb.data (fun o => (s.accepted ++ block).getD o 0)
      (Set.Ico s.received.length (s.accepted.length + done)))
    (fits : s.accepted.length + block.length ≤ s.received.length + s.rb.capacity.toNat)
    (within : done + len ≤ block.length)
    (straight : len ≤ s.rb.capacity.toNat - (s.accepted.length + done) % s.rb.capacity.toNat) :
    Holds s.rb.capacity.toNat
      (copyAt s.rb.data ((s.accepted.length + done) % s.rb.capacity.toNat)
        ((block.drop done).take len)) (fun o => (s.accepted ++ block).getD o 0)
      (Set.Ico s.received.length (s.accepted.length + (done + len))) := by
  have length : ((block.drop done).take len).length = len := by
    rw [List.length_take, List.length_drop]
    omega
  have sizes := kept.sizes
  have written := held.copyAt (by omega) (by rw [length]; omega) (by rw [length]; exact straight)
    fun i inside => by
      rw [length] at inside
      rw [List.getElem_take, List.getElem_drop, List.getD_eq_getElem?_getD,
        List.getElem?_append_right (by omega), Nat.add_assoc, Nat.add_sub_cancel_left,
        List.getElem?_eq_getElem (by omega), Option.getD_some]
  rwa [length, Nat.add_assoc] at written

/-- A block is copied at once, or as far as the lap goes. -/
theorem produce_copying (step : s.producer = .copying block w) : (ringBufferWrite s data).Kept := by
  have producing := kept.producing
  have sizes := kept.sizes
  rw [step] at producing
  obtain ⟨rfl, fits⟩ := producing
  obtain ⟨cell, first⟩ := kept.masked kept.write
  have length : (UInt64.ofNat block.length).toNat = block.length := by
    rw [UInt64.toNat_ofNat']
    exact Nat.mod_eq_of_lt (by omega)
  have lays (len : Nat) := @lays s kept block 0 len (kept.unread block) fits
  simp only [Nat.add_zero, Nat.zero_add, List.drop_zero] at lays
  unfold ringBufferWrite
  simp only [step, cell, first, UInt64.le_iff_toNat_le, length]
  split
  · rename_i straight
    have written := lays block.length (Nat.le_refl _) straight
    rw [List.take_length] at written
    exact { kept with held := written, producing := ⟨rfl, fits⟩ }
  · rename_i crosses
    have upto := Nat.le_of_not_le crosses
    exact { kept with held := lays _ upto (Nat.le_refl _), producing := ⟨rfl, fits, upto⟩ }

/-- The rest of a block goes to the start of a new lap. -/
theorem produce_wrapping
    (step : s.producer = .wrapping block w) : (ringBufferWrite s data).Kept := by
  have producing := kept.producing
  have held := kept.held
  have sizes := kept.sizes
  rw [step] at held producing
  obtain ⟨rfl, fits, crosses⟩ := producing
  obtain ⟨-, first⟩ := kept.masked kept.write
  have lap : (s.accepted.length + (s.rb.capacity.toNat -
      s.accepted.length % s.rb.capacity.toNat)) % s.rb.capacity.toNat = 0 := cell_next_lap sizes.1
  simp only [WriteCall.placed, WriteCall.pending] at held
  have written := kept.lays held fits (Nat.le_of_eq (Nat.add_sub_of_le crosses))
    (by have := kept.room; rw [lap]; omega)
  rw [lap, Nat.add_sub_of_le crosses, List.take_of_length_le (by rw [List.length_drop])] at written
  unfold ringBufferWrite
  simp only [step, first]
  exact { kept with held := written, producing := ⟨rfl, fits⟩ }

/-- Every step of the producer keeps the invariant. -/
theorem produce : (ringBufferWrite s data).Kept := by
  have producing := kept.producing
  have held := kept.held
  cases step : s.producer with
  | idle =>
    rw [step] at held
    unfold ringBufferWrite
    simp only [step]
    exact { kept with held := held, producing := rfl }
  | loaded block w => exact kept.produce_loaded data step
  | copying block w => exact kept.produce_copying data step
  | wrapping block w => exact kept.produce_wrapping data step
  | storing block w =>
    rw [step] at held producing
    obtain ⟨rfl, fits⟩ := producing
    have length : (s.accepted ++ block).length = s.accepted.length + block.length :=
      List.length_append
    unfold ringBufferWrite
    simp only [step]
    exact { kept with
      write := by
        have write := kept.write
        show (s.rb.writePos + UInt64.ofNat block.length).toNat = _
        rw [UInt64.toNat_add, UInt64.toNat_ofNat', length]
        omega
      order := kept.order.trans (List.prefix_append _ _)
      room := by simp only [length]; exact fits
      held := by
        simp only [WriteCall.pending, WriteCall.placed, List.append_nil, length] at held ⊢
        exact held
      producing := trivial
      consuming := kept.consumes_accepted block _ }

end Spsc.Kept

/-- Whatever the steps of one producer and one consumer, the buffer is first in, first out. -/
theorem ring_buffer_fifo (memory : Nat → UInt8) (capacity : UInt64)
    (bounded : capacity.toNat ≤ 2 ^ 62) (ops : List SpscOp) :
    (Machine.run spscStep (spscStart memory capacity) ops).Fifo := by
  suffices (Machine.run spscStep (spscStart memory capacity) ops).Kept from this.fifo
  apply Machine.run_preserves Spsc.Kept
  · intro s op kept
    cases op with
    | produce data => exact kept.produce data
    | consume len => exact kept.consume len
  · exact spscStart_kept memory bounded

/-- Three octets and two more go through four cells, the last ones around the end. -/
def aroundTheEnd : List SpscOp :=
  List.replicate 4 (.produce [1, 2, 3]) ++ List.replicate 4 (.consume 2) ++
    List.replicate 5 (.produce [4, 5]) ++ List.replicate 5 (.consume 4)

/-- All five octets are received, in their order. -/
theorem ring_buffer_fifo_around :
    (Machine.run spscStep (spscStart (fun _ => 0) 3) aroundTheEnd).received = [1, 2, 3, 4, 5] ∧
      (Machine.run spscStep (spscStart (fun _ => 0) 3) aroundTheEnd).Fifo :=
  ⟨by decide +kernel, ring_buffer_fifo _ 3 (by decide) _⟩

end Nxp
