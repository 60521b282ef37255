import Nxp.Core.RateLimit
import Nxp.Lib.FixedWindow
import Nxp.Lib.Machine

/-! How many datagrams of one IP address pass the rate limiter in a second. -/

namespace Nxp

variable {rl : RateLimiter} {addr : Addr} {gate : Turnstile} {datagram : Addr × UInt64}

/-- The family of an address and the octets of the IP address it has there, without the port. -/
def Addr.ip (addr : Addr) : UInt8 × Bytes :=
  let octets := addr.raw.toList.drop 4
  (addr.raw[0], if addr.raw[0] = 2 then octets.take 4 else octets.take 16)

/-- A limiter with the datagrams it has let through. -/
structure Turnstile where
  limiter : RateLimiter
  passed : List (Addr × UInt64)

/-- A limiter that has let nothing through. -/
def Turnstile.fresh : Turnstile := ⟨rateLimiterCreate, []⟩

/-- Check one datagram, with memory for its bucket. -/
def Turnstile.check (gate : Turnstile) (datagram : Addr × UInt64) : Turnstile :=
  let (through, limiter) := rateLimiterCheck true true gate.limiter datagram.1 datagram.2
  ⟨limiter, if through then gate.passed ++ [datagram] else gate.passed⟩

/-- How many datagrams of an IP address were let through in the second that begins at a time. -/
def Turnstile.inSecond (gate : Turnstile) (ip : UInt8 × Bytes) (onset : Nat) : Nat :=
  gate.passed.countP fun datagram =>
    datagram.1.ip = ip ∧ onset ≤ datagram.2.toNat ∧ datagram.2.toNat ≤ onset + 1000000

/-- A window that a datagram finds over has been over for a second. -/
def Turnstile.Late (gate : Turnstile) (datagram : Addr × UInt64) : Prop :=
  ∀ bucket ∈ gate.limiter.ipBuckets.lookup (addrHash datagram.1),
    rateLimitWindowUs ≤ datagram.2 - bucket.windowStart →
      2 * rateLimitWindowUs ≤ datagram.2 - bucket.windowStart

instance (gate : Turnstile) (datagram : Addr × UInt64) : Decidable (gate.Late datagram) :=
  inferInstanceAs (Decidable (∀ bucket ∈ gate.limiter.ipBuckets.lookup (addrHash datagram.1), _))

/-- The window a bucket counts in. -/
def RateBucket.window (bucket : RateBucket) : FixedWindow.Window :=
  ⟨bucket.count.toNat, bucket.windowStart.toNat⟩

/-- The window of a key, if it has a bucket. -/
def RateLimiter.window (rl : RateLimiter) (key : UInt64) : Option FixedWindow.Window :=
  (rl.ipBuckets.lookup key).map RateBucket.window

/-- When the datagrams of a key were let through. -/
def Turnstile.times (gate : Turnstile) (key : UInt64) : List Nat :=
  (gate.passed.filter fun datagram => addrHash datagram.1 = key).map fun datagram =>
    datagram.2.toNat

theorem RateBucket.take_window (bucket : RateBucket) :
    (bucket.take.1, bucket.take.2.window) =
      if 100 ≤ bucket.window.count then (false, bucket.window)
      else (true, { bucket.window with count := bucket.window.count + 1 }) := by
  have full : bucket.count ≥ rateLimitMaxPps ↔ 100 ≤ bucket.count.toNat := UInt32.le_iff_toNat_le
  unfold take
  by_cases refused : bucket.count ≥ rateLimitMaxPps
  · simp [refused, full.mp refused, RateBucket.window]
  · have room : ¬ 100 ≤ bucket.count.toNat := fun past => refused (full.mpr past)
    have counted : (bucket.count + 1).toNat = bucket.count.toNat + 1 := by
      rw [UInt32.toNat_add]
      exact Nat.mod_eq_of_lt (by simp; omega)
    simp [refused, room, RateBucket.window, counted]

/-- The limiter hits the window of a datagram's key and leaves every other one alone. -/
theorem rateLimiterCheck_hit {nowUs : UInt64}
    (later : ∀ bucket ∈ rl.ipBuckets.lookup (addrHash addr), bucket.windowStart ≤ nowUs) :
    let checked := rateLimiterCheck true true rl addr nowUs
    let hit := FixedWindow.hit 100 1000000 (rl.window (addrHash addr)) nowUs.toNat
    checked.1 = hit.1 ∧ checked.2.window (addrHash addr) = some hit.2 ∧
      ∀ key, key ≠ addrHash addr → checked.2.window key = rl.window key := by
  -- Both find the bucket, or make one, renew it when its window is over, and then take.
  have stores : ∀ bucket : RateBucket, (rl.store addr bucket).window (addrHash addr) =
      some bucket.window := fun bucket => by
    simp [RateLimiter.store, RateLimiter.window]
  have others : ∀ bucket : RateBucket, ∀ key, key ≠ addrHash addr →
      (rl.store addr bucket).window key = rl.window key := fun bucket key other => by
    simp [RateLimiter.store, RateLimiter.window, AList.lookup_insert_ne other]
  have takes : ∀ bucket : RateBucket,
      bucket.window = FixedWindow.renew 1000000 (rl.window (addrHash addr)) nowUs.toNat →
      (bucket.take.1, bucket.take.2.window) =
        FixedWindow.hit 100 1000000 (rl.window (addrHash addr)) nowUs.toNat := by
    intro bucket renewed
    rw [bucket.take_window, renewed]
    rfl
  cases found : rl.ipBuckets.lookup (addrHash addr) with
  | none =>
    have hits := takes ⟨0, nowUs⟩ (by simp [RateLimiter.window, found, FixedWindow.renew,
      RateBucket.window])
    simp only [rateLimiterCheck, found, Bool.not_true, Bool.false_eq_true, if_false, if_true]
    exact ⟨congrArg Prod.fst hits, (stores _).trans (congrArg some (congrArg Prod.snd hits)),
      others _⟩
  | some bucket =>
    have past : nowUs - bucket.windowStart ≥ rateLimitWindowUs ↔
        1000000 ≤ nowUs.toNat - bucket.window.start := by
      rw [ge_iff_le, UInt64.le_iff_toNat_le, UInt64.toNat_sub_of_le _ _ (later bucket found)]
      rfl
    have hits := takes
      (if nowUs - bucket.windowStart ≥ rateLimitWindowUs then ⟨0, nowUs⟩ else bucket) (by
        rw [apply_ite RateBucket.window]
        simp only [past, RateLimiter.window, found, FixedWindow.renew, Option.map_some]
        rfl)
    simp only [rateLimiterCheck, found]
    exact ⟨congrArg Prod.fst hits, (stores _).trans (congrArg some (congrArg Prod.snd hits)),
      others _⟩

/-- Every key's window is kept, and began when some datagram came that has passed before. -/
structure Turnstile.Kept (past : List (Addr × UInt64)) (gate : Turnstile) : Prop where
  windows : ∀ key, FixedWindow.Kept 100 1000000 (gate.limiter.window key) (gate.times key)
  begun : ∀ key, ∀ bucket ∈ gate.limiter.ipBuckets.lookup key, ∃ datagram ∈ past,
    bucket.windowStart = datagram.2
  passed : ∀ datagram ∈ gate.passed, datagram ∈ past

theorem Turnstile.Kept.fresh : Turnstile.fresh.Kept [] :=
  ⟨fun _ => FixedWindow.Kept.none, fun _ _ absent => (by cases absent), nofun⟩

theorem Turnstile.times_check (gate : Turnstile) (datagram : Addr × UInt64) (key : UInt64) :
    (gate.check datagram).times key =
      if (rateLimiterCheck true true gate.limiter datagram.1 datagram.2).1 ∧
        addrHash datagram.1 = key
      then gate.times key ++ [datagram.2.toNat] else gate.times key := by
  unfold times check
  by_cases through : (rateLimiterCheck true true gate.limiter datagram.1 datagram.2).1 = true
  · by_cases own : addrHash datagram.1 = key <;> simp [through, own]
  · simp [through]

/-- The window of a bucket that a check leaves began then or is one that was there. -/
theorem rateLimiterCheck_begun {nowUs key : UInt64} {bucket : RateBucket}
    (found : bucket ∈ (rateLimiterCheck true true rl addr nowUs).2.ipBuckets.lookup key) :
    bucket.windowStart = nowUs ∨
      ∃ before ∈ rl.ipBuckets.lookup key, bucket.windowStart = before.windowStart := by
  have taken : ∀ bucket : RateBucket, bucket.take.2.windowStart = bucket.windowStart := by
    intro bucket
    unfold RateBucket.take
    split <;> rfl
  have stored : ∀ put : RateBucket, bucket ∈ (rl.store addr put).ipBuckets.lookup key →
      bucket = put ∧ key = addrHash addr ∨ bucket ∈ rl.ipBuckets.lookup key := by
    intro put inside
    by_cases own : key = addrHash addr
    · subst own
      rw [RateLimiter.store, AList.lookup_insert] at inside
      exact .inl ⟨(Option.some.inj inside).symm, rfl⟩
    · rw [RateLimiter.store, AList.lookup_insert_ne own] at inside
      exact .inr inside
  cases known : rl.ipBuckets.lookup (addrHash addr) with
  | none =>
    simp only [rateLimiterCheck, known, Bool.not_true, Bool.false_eq_true, if_false, if_true]
      at found
    rcases stored _ found with ⟨rfl, -⟩ | before
    · exact .inl (taken _)
    · exact .inr ⟨bucket, before, rfl⟩
  | some old =>
    simp only [rateLimiterCheck, known] at found
    rcases stored _ found with ⟨rfl, rfl⟩ | before
    · rw [taken]
      split
      · exact .inl rfl
      · exact .inr ⟨old, known, rfl⟩
    · exact .inr ⟨bucket, before, rfl⟩

theorem Turnstile.Late.renews (late : gate.Late datagram)
    (order : ∀ bucket ∈ gate.limiter.ipBuckets.lookup (addrHash datagram.1),
      bucket.windowStart ≤ datagram.2) :
    FixedWindow.RenewsLate 1000000 (gate.limiter.window (addrHash datagram.1))
      datagram.2.toNat := by
  intro old there past
  obtain ⟨bucket, found, rfl⟩ := Option.map_eq_some_iff.mp there
  have elapsed := UInt64.toNat_sub_of_le _ _ (order bucket found)
  have twice := late bucket found (UInt64.le_iff_toNat_le.mpr (by rw [elapsed]; exact past))
  rw [UInt64.le_iff_toNat_le, elapsed] at twice
  exact twice

/-- A check that comes late enough keeps every window. -/
theorem Turnstile.Kept.check {past : List (Addr × UInt64)} (kept : gate.Kept past)
    (later : ∀ earlier ∈ past, earlier.2 ≤ datagram.2) (late : gate.Late datagram) :
    (gate.check datagram).Kept (past ++ [datagram]) := by
  have order : ∀ bucket ∈ gate.limiter.ipBuckets.lookup (addrHash datagram.1),
      bucket.windowStart ≤ datagram.2 := by
    intro bucket found
    obtain ⟨earlier, came, start⟩ := kept.begun _ bucket found
    exact start ▸ later earlier came
  refine ⟨fun key => ?_, fun key bucket found => ?_, fun other passed => ?_⟩
  · obtain ⟨through, own, others⟩ := rateLimiterCheck_hit order
    rw [gate.times_check]
    by_cases same : key = addrHash datagram.1
    · subst same
      have started : ∀ old ∈ gate.limiter.window (addrHash datagram.1),
          old.start ≤ datagram.2.toNat := by
        intro old there
        obtain ⟨bucket, found, rfl⟩ := Option.map_eq_some_iff.mp there
        exact UInt64.le_iff_toNat_le.mp (order bucket found)
      have hits := (kept.windows (addrHash datagram.1)).hit started (late.renews order)
        (by decide)
      rw [← own, ← through] at hits
      simp only [and_true]
      exact hits
    · rw [if_neg fun both => same both.2.symm]
      exact (others key same).symm ▸ kept.windows key
  · rcases rateLimiterCheck_begun found with new | ⟨before, there, start⟩
    · exact ⟨datagram, by simp, new⟩
    · obtain ⟨earlier, came, began⟩ := kept.begun key before there
      exact ⟨earlier, by simp [came], start.trans began⟩
  · unfold Turnstile.check at passed
    dsimp only at passed
    split at passed
    · rcases List.mem_append.mp passed with before | new
      · exact List.mem_append_left _ (kept.passed other before)
      · exact List.mem_append_right _ new
    · exact List.mem_append_left _ (kept.passed other passed)

/-- Late renewals keep the gate's account over every run. -/
theorem Turnstile.kept_run {datagrams : List (Addr × UInt64)}
    (forward : (datagrams.map Prod.snd).Pairwise (· ≤ ·))
    (late : Machine.Along Turnstile.check Turnstile.Late Turnstile.fresh datagrams) :
    (Machine.run Turnstile.check Turnstile.fresh datagrams).Kept datagrams := by
  -- The last datagram comes no earlier than any before it.
  induction datagrams using List.reverseRecOn with
  | nil => exact Turnstile.Kept.fresh
  | append_singleton past datagram ih =>
    rw [List.map_append, List.pairwise_append] at forward
    obtain ⟨before, last, -⟩ := Machine.along_append.mp late
    rw [Machine.run_append]
    refine (ih forward.1 before).check (fun earlier came => ?_) last
    exact forward.2.2 _ (List.mem_map_of_mem came) _ (List.mem_singleton.mpr rfl)

/-- When all datagrams of an IP address share a bucket, and no window is begun less than two seconds
after the one before it, at most a hundred of the address pass in any second. -/
theorem rate_limit_per_second {datagrams : List (Addr × UInt64)}
    (forward : (datagrams.map Prod.snd).Pairwise (· ≤ ·))
    (together : ∀ one ∈ datagrams, ∀ other ∈ datagrams, one.1.ip = other.1.ip →
      addrHash one.1 = addrHash other.1)
    (late : Machine.Along Turnstile.check Turnstile.Late Turnstile.fresh datagrams)
    (ip : UInt8 × Bytes) (onset : Nat) :
    (Machine.run Turnstile.check Turnstile.fresh datagrams).inSecond ip onset ≤ 100 := by
  have kept := Turnstile.kept_run forward late
  generalize Machine.run Turnstile.check Turnstile.fresh datagrams = gate at kept
  by_cases seen : ∃ datagram ∈ gate.passed, datagram.1.ip = ip
  · obtain ⟨first, passed, rfl⟩ := seen
    -- Whatever the address has let through is counted for the key of any one of its datagrams.
    refine Nat.le_trans ?_ ((kept.windows (addrHash first.1)).bounded onset)
    unfold Turnstile.inSecond FixedWindow.within Turnstile.times
    rw [List.countP_map, List.countP_filter]
    refine List.countP_mono_left fun datagram member inside => ?_
    obtain ⟨same, inside⟩ := of_decide_eq_true inside
    have key := together datagram (kept.passed _ member) first (kept.passed _ passed) same
    simpa [key] using inside
  · have none : gate.inSecond ip onset = 0 := List.countP_eq_zero.mpr fun datagram member inside =>
      seen ⟨datagram, member, (of_decide_eq_true inside).1⟩
    omega

/-- An address of a port on 10.0.0.1. -/
def clientAddr (port : UInt8) : Addr :=
  ⟨((((Vector.replicate 28 0).set 0 2).set 3 port).set 4 10).set 7 1⟩

/-- Of a hundred and one datagrams of one port the last is held up, until two seconds later. -/
theorem rate_limit_one_port :
    let datagrams := List.replicate 101 (clientAddr 1, 0) ++ [(clientAddr 1, 2000000)]
    let gate := Machine.run Turnstile.check Turnstile.fresh datagrams
    gate.passed.length = 101 ∧ ∀ ip onset, gate.inSecond ip onset ≤ 100 := by
  refine ⟨by decide +kernel, rate_limit_per_second ?_ ?_ ?_⟩
  · decide +kernel
  · intro one came other came' _
    have port : ∀ datagram ∈ List.replicate 101 (clientAddr 1, (0 : UInt64)) ++
        [(clientAddr 1, 2000000)], datagram.1 = clientAddr 1 := by
      intro datagram member
      simp only [List.mem_append, List.mem_replicate, List.mem_singleton] at member
      rcases member with ⟨-, rfl⟩ | rfl <;> rfl
    rw [port one came, port other came']
  · decide +kernel

/-- A second port brings a hundred and first datagram through at once, and a window that begins
right after the last one brings another hundred through within a microsecond. -/
theorem rate_limit_exceeded :
    let ports := List.replicate 100 (clientAddr 1, 0) ++ [(clientAddr 2, 0)]
    let windows := (clientAddr 1, 0) :: List.replicate 99 (clientAddr 1, 999999) ++
      List.replicate 100 (clientAddr 1, 1000000)
    ((ports.map Prod.snd).Pairwise (· ≤ ·) ∧ (windows.map Prod.snd).Pairwise (· ≤ ·)) ∧
      (clientAddr 1).ip = (clientAddr 2).ip ∧
      (Machine.run Turnstile.check Turnstile.fresh ports).inSecond (clientAddr 1).ip 0 = 101 ∧
      (Machine.run Turnstile.check Turnstile.fresh windows).inSecond (clientAddr 1).ip 999999 =
        199 := by
  refine ⟨⟨?_, ?_⟩, ?_, ?_, ?_⟩ <;> decide +kernel

end Nxp
