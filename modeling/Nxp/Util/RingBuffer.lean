import Nxp.Lib.Ring
import Nxp.Types

/-! The ring buffer between one producer and one consumer, a load, a copy or a store at a time. -/

namespace Nxp

open Ring

/-- A buffer whose positions count all octets ever written and read. -/
structure RingBuffer where
  data : Nat → UInt8
  capacity : UInt64
  mask : UInt64
  writePos : UInt64
  readPos : UInt64

/-- Round a size up to a power of two. -/
def sizeNextPowerOf2 (v : UInt64) : UInt64 :=
  let v := v - 1
  let v := v ||| v >>> 1
  let v := v ||| v >>> 2
  let v := v ||| v >>> 4
  let v := v ||| v >>> 8
  let v := v ||| v >>> 16
  let v := v ||| v >>> 32
  v + 1

/-- An empty buffer over memory with any contents. -/
def ringBufferCreate (memory : Nat → UInt8) (capacity : UInt64) : RingBuffer :=
  let capacity := sizeNextPowerOf2 (if capacity = 0 then 4096 else capacity)
  ⟨memory, capacity, capacity - 1, 0, 0⟩

/-- How far a call to write has come, with its local variables. -/
inductive WriteCall where
  | idle
  /-- The write position is loaded. -/
  | loaded (data : Bytes) (w : UInt64)
  /-- The read position is loaded as well, and what fits is to be copied. -/
  | copying (block : Bytes) (w : UInt64)
  /-- The part up to the end of the buffer is copied. -/
  | wrapping (block : Bytes) (w : UInt64)
  /-- Everything is copied. -/
  | storing (block : Bytes) (w : UInt64)

/-- How far a call to read has come. -/
inductive ReadCall where
  | idle
  | loaded (len w : UInt64)
  | copying (len r : UInt64)
  | wrapping (len r : UInt64) (buf : Bytes)
  | storing (len r : UInt64) (buf : Bytes)

/-- Producer and consumer at work on a buffer, with what they have been told was written and read.
-/
structure Spsc where
  rb : RingBuffer
  producer : WriteCall
  consumer : ReadCall
  accepted : Bytes
  received : Bytes

/-- The next step of the producer, which starts a call with these octets when it is in none. -/
def ringBufferWrite (s : Spsc) (data : Bytes) : Spsc :=
  match s.producer with
  | .idle => { s with producer := .loaded data s.rb.writePos }
  | .loaded data w =>
    let available := s.rb.capacity - (w - s.rb.readPos)
    let len := UInt64.ofNat data.length
    let len := if len > available then available else len
    { s with producer := if len = 0 then .idle else .copying (data.take len.toNat) w }
  | .copying block w =>
    let wIdx := w &&& s.rb.mask
    let first := s.rb.capacity - wIdx
    if first ≥ UInt64.ofNat block.length then
      { s with
        rb := { s.rb with data := copyAt s.rb.data wIdx.toNat block }
        producer := .storing block w }
    else
      { s with
        rb := { s.rb with data := copyAt s.rb.data wIdx.toNat (block.take first.toNat) }
        producer := .wrapping block w }
  | .wrapping block w =>
    let first := s.rb.capacity - (w &&& s.rb.mask)
    { s with
      rb := { s.rb with data := copyAt s.rb.data 0 (block.drop first.toNat) }
      producer := .storing block w }
  | .storing block w =>
    { s with
      rb := { s.rb with writePos := w + UInt64.ofNat block.length }
      producer := .idle
      accepted := s.accepted ++ block }

/-- The next step of the consumer, which starts a call for so many octets when it is in none. -/
def ringBufferRead (s : Spsc) (len : UInt64) : Spsc :=
  match s.consumer with
  | .idle => { s with consumer := .loaded len s.rb.writePos }
  | .loaded len w =>
    let available := w - s.rb.readPos
    let len := if len > available then available else len
    { s with consumer := if len = 0 then .idle else .copying len s.rb.readPos }
  | .copying len r =>
    let rIdx := r &&& s.rb.mask
    let first := s.rb.capacity - rIdx
    if first ≥ len then
      { s with consumer := .storing len r (readAt s.rb.data rIdx.toNat len.toNat) }
    else { s with consumer := .wrapping len r (readAt s.rb.data rIdx.toNat first.toNat) }
  | .wrapping len r buf =>
    let first := s.rb.capacity - (r &&& s.rb.mask)
    { s with consumer := .storing len r (buf ++ readAt s.rb.data 0 (len - first).toNat) }
  | .storing len r buf =>
    { s with
      rb := { s.rb with readPos := r + len }
      consumer := .idle
      received := s.received ++ buf }

/-- Whose turn it is, and what it starts if it is in no call. -/
inductive SpscOp where
  | produce (data : Bytes)
  | consume (len : UInt64)

/-- One step of one of the two. -/
def spscStep (s : Spsc) : SpscOp → Spsc
  | .produce data => ringBufferWrite s data
  | .consume len => ringBufferRead s len

/-- A new buffer with nobody at work on it. -/
def spscStart (memory : Nat → UInt8) (capacity : UInt64) : Spsc :=
  ⟨ringBufferCreate memory capacity, .idle, .idle, [], []⟩

end Nxp
