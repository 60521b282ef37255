import Mathlib.Data.List.AList
import Nxp.Types

/-! How many datagrams of one address are let through in a second. -/

namespace Nxp

/-- Length of a window in microseconds. -/
def rateLimitWindowUs : UInt64 := 1000000

/-- Datagrams let through in one window. -/
def rateLimitMaxPps : UInt32 := 100

/-- Hash of octets, taken in one after the other. -/
def fnvHash (octets : Bytes) : UInt64 :=
  octets.foldl (fun h octet => (h ^^^ octet.toUInt64) * 1099511628211) 14695981039346656037

/-- What came from one address in its current window. -/
structure RateBucket where
  count : UInt32
  windowStart : UInt64
  deriving DecidableEq, Repr

/-- Buckets by the hash of an address. -/
structure RateLimiter where
  ipBuckets : AList fun _ : UInt64 => RateBucket

/-- A limiter that has seen nothing. -/
def rateLimiterCreate : RateLimiter := ⟨∅⟩

/-- Hash of an address, its port and its family included. -/
def addrHash (addr : Addr) : UInt64 := fnvHash addr.raw.toList

/-- Count a datagram unless the bucket is full. -/
def RateBucket.take (bucket : RateBucket) : Bool × RateBucket :=
  if bucket.count ≥ rateLimitMaxPps then (false, bucket)
  else (true, { bucket with count := bucket.count + 1 })

/-- Put a bucket in its place. -/
def RateLimiter.store (rl : RateLimiter) (addr : Addr) (bucket : RateBucket) : RateLimiter :=
  ⟨rl.ipBuckets.insert (addrHash addr) bucket⟩

/-- Let a datagram through unless its address has used up the window. -/
def rateLimiterCheck (allocBucket allocMap : Bool) (rl : RateLimiter) (addr : Addr)
    (nowUs : UInt64) : Bool × RateLimiter :=
  match rl.ipBuckets.lookup (addrHash addr) with
  | some bucket =>
    let bucket :=
      if nowUs - bucket.windowStart ≥ rateLimitWindowUs then ⟨0, nowUs⟩ else bucket
    (bucket.take.1, rl.store addr bucket.take.2)
  | none =>
    if !allocBucket then (true, rl)
    else
      -- A new bucket the map has no room for is counted in and then forgotten.
      let bucket : RateBucket := ⟨0, nowUs⟩
      (bucket.take.1, if allocMap then rl.store addr bucket.take.2 else rl)

/-- Every address is let through again at some time. -/
theorem rateLimiterCheck_recovers (allocBucket allocMap : Bool) (rl : RateLimiter) (addr : Addr) :
    ∃ nowUs, (rateLimiterCheck allocBucket allocMap rl addr nowUs).1 = true := by
  -- A window after the start of the current one, the bucket is emptied.
  cases found : rl.ipBuckets.lookup (addrHash addr) with
  | some bucket =>
    refine ⟨bucket.windowStart + rateLimitWindowUs, ?_⟩
    have elapsed : bucket.windowStart + rateLimitWindowUs - bucket.windowStart =
        rateLimitWindowUs := by
      rw [UInt64.add_comm, UInt64.add_sub_cancel]
    simp only [rateLimiterCheck, found, elapsed, ge_iff_le, UInt64.le_refl, if_true]
    rfl
  | none =>
    refine ⟨0, ?_⟩
    simp only [rateLimiterCheck, found]
    cases allocBucket <;> rfl

end Nxp
