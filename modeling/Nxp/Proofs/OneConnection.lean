import Nxp.Core.ListenerLaws

/-! A client's first datagram, delivered again, makes another connection unless it happens to be
routed to the first one. -/

namespace Nxp

variable {evp : Evp} {env : ListenerEnv} {ls made : Listener} {data : Bytes} {nowUs : UInt64}
  {hdr : PktLongHeader} {fromAddr : Addr}

/-- Deliver a datagram once more, at some time. -/
def redeliver (evp : Evp) (data : Bytes) (fromAddr : Addr) (ls : Listener)
    (again : ListenerEnv × UInt64) : Listener :=
  (listenerRecv evp again.1 ls data fromAddr again.2).2

/-- The rate limiter lets a datagram through. -/
def BelowRate (fromAddr : Addr) (ls : Listener) (again : ListenerEnv × UInt64) : Prop :=
  (listenerCheckRate again.1 ls fromAddr again.2).1 = true

/-- Connections, how many were accepted and which the application was told of stay the same. -/
structure NoFurther (made later : Listener) : Prop where
  count : later.conns.length = made.conns.length
  totalAccepted : later.totalAccepted = made.totalAccepted
  announced : later.announced = made.announced

/-- What a client that was accepted went through. -/
structure AcceptedFrom (evp : Evp) (env : ListenerEnv) (ls : Listener) (hdr : PktLongHeader)
    (fromAddr : Addr) (made : Listener) : Prop where
  allocConn : env.allocConn = true
  room : ls.conns.length < ls.config.maxConnections.toNat
  started : (connStartHandshake evp (env.conn ls.nextHandle)
    (acceptConn env ls.config hdr fromAddr) hdr.dcid).1 = .ok
  config : made.config = ls.config
  connMap : made.connMap = if env.allocMap then
      ls.connMap.insert (cidHash (listenerGenerateCid ls.config env.random)) ls.nextHandle
    else ls.connMap
  count : made.conns.length = ls.conns.length + 1

theorem listenerAccept_ok
    (accepted : listenerAccept evp env ls hdr data fromAddr nowUs = (.ok, made)) :
    AcceptedFrom evp env ls hdr fromAddr made := by
  have accepting := listenerAccept_accepting evp env ls hdr data fromAddr nowUs
  rw [accepted] at accepting
  cases accepting with
  | unadded bad => exact absurd rfl bad
  | withdrawn connCap bad => exact absurd rfl bad
  | begun connCap told granted below start =>
    have length (conn after : Conn) :
        (Registry.modify (ls.conns ++ [(ls.nextHandle, conn)]) ls.nextHandle fun _ => after).length =
          ls.conns.length + 1 := (List.length_map _).trans (List.length_append ..)
    refine ⟨granted, below, by rw [start], ?_, ?_, ?_⟩
    · cases told <;> rfl
    · cases told <;> rfl
    · cases told <;> exact length (acceptConn env ls.config hdr fromAddr) _

/-- With memory and room a connection is made. -/
theorem listenerAccept_succeeds (data : Bytes) (nowUs : UInt64) (allocConn : env.allocConn = true)
    (array : env.allocArray = true) (room : ls.conns.length < ls.config.maxConnections.toNat)
    (started : (connStartHandshake evp (env.conn ls.nextHandle)
      (acceptConn env ls.config hdr fromAddr) hdr.dcid).1 = .ok) :
    (listenerAccept evp env ls hdr data fromAddr nowUs).1 = .ok := by
  have accepting := listenerAccept_accepting evp env ls hdr data fromAddr nowUs
  generalize listenerAccept evp env ls hdr data fromAddr nowUs = result at accepting
  cases accepting with
  | unmade denied => simp [allocConn] at denied
  | unadded bad why => rcases why with full | denied <;> simp_all [Nat.not_le.mpr room]
  | withdrawn connCap bad below start =>
    rw [start] at started
    exact absurd started bad
  | begun => rfl

theorem listenerPresented_eq_some :
    listenerPresented env ls data fromAddr nowUs = some hdr ↔
      (listenerCheckRate env ls fromAddr nowUs).1 = true ∧ pktDecodeLongHeader data = some hdr ∧
        listenerFindConn ls hdr.dcid = none ∧ hdr.type = .initial ∧
        hdr.version = versionCurrent := by
  unfold listenerPresented
  split
  · rename_i allowed
    rw [Option.filter_eq_some_iff]
    simp [allowed]
  · rename_i refused
    simp [refused]

/-- A full listener accepts nobody. -/
theorem listenerAccept_full (evp : Evp) (env : ListenerEnv) (hdr : PktLongHeader) (data : Bytes)
    (fromAddr : Addr) (nowUs : UInt64) (full : ls.config.maxConnections.toNat ≤ ls.conns.length) :
    let next := (listenerAccept evp env ls hdr data fromAddr nowUs).2
    next.config = ls.config ∧ next.connMap = ls.connMap ∧ NoFurther ls next := by
  have accepting := listenerAccept_accepting evp env ls hdr data fromAddr nowUs
  generalize listenerAccept evp env ls hdr data fromAddr nowUs = result at accepting
  -- Attempts are seen and counted, but the application is told nothing.
  cases accepting with
  | unmade =>
    exact ⟨rfl, rfl, rfl, rfl, by simp [Listener.announced, countRejected, Listener.observe]⟩
  | unadded =>
    exact ⟨rfl, rfl, rfl, rfl,
      by simp [Listener.announced, countRejected, Listener.asked, Listener.issue, Listener.observe]⟩
  | withdrawn connCap bad below => exact absurd full (Nat.not_le.mpr below)
  | begun connCap told made below => exact absurd full (Nat.not_le.mpr below)

/-- Nothing further comes of a datagram that does not ask for a connection, or asks a full
listener. -/
theorem redeliver_noFurther {again : ListenerEnv × UInt64}
    (settled : (∀ hdr, pktDecodeLongHeader data = some hdr →
        (made.connMap.lookup (cidHash hdr.dcid)).isSome = true) ∨
      made.config.maxConnections.toNat ≤ made.conns.length)
    (before : ls.config = made.config ∧ ls.connMap = made.connMap ∧ NoFurther made ls) :
    let next := redeliver evp data fromAddr ls again
    next.config = made.config ∧ next.connMap = made.connMap ∧ NoFurther made next := by
  obtain ⟨env, nowUs⟩ := again
  obtain ⟨config, connMap, same⟩ := before
  unfold redeliver
  cases presented : listenerPresented env ls data fromAddr nowUs with
  | none =>
    have unmoved := listenerRecv_unmoved evp presented
    refine ⟨unmoved.config.trans config, unmoved.connMap.trans connMap,
      unmoved.count.trans same.count, unmoved.totalAccepted.trans same.totalAccepted, ?_⟩
    rw [← same.announced]
    exact congrArg (List.filterMap _) unmoved.trace
  | some hdr =>
    obtain ⟨-, decoded, unknown, -, -⟩ := listenerPresented_eq_some.mp presented
    rcases settled with routed | full
    · -- What is routed to a connection does not ask for one.
      have found := routed hdr decoded
      rw [← connMap, show ls.connMap.lookup (cidHash hdr.dcid) = none from unknown] at found
      cases found
    · have only := listenerCheckRate_only env ls fromAddr nowUs
      simp only [listenerRecv_presented evp presented]
      generalize (listenerCheckRate env ls fromAddr nowUs).2 = limited at only
      have room : limited.config.maxConnections.toNat ≤ limited.conns.length := by
        rw [(congrArg Listener.config only :), (congrArg Listener.conns only :), config, same.count]
        exact full
      have kept : limited.config = made.config ∧ limited.connMap = made.connMap ∧
          NoFurther made limited := by
        rw [only]
        refine ⟨config, connMap, same.count, same.totalAccepted, ?_⟩
        exact same.announced
      split
      · exact ⟨kept.1, kept.2.1, kept.2.2.count, kept.2.2.totalAccepted, kept.2.2.announced⟩
      · obtain ⟨sameConfig, sameMap, further⟩ :=
          listenerAccept_full evp env hdr data fromAddr nowUs room
        exact ⟨sameConfig.trans kept.1, sameMap.trans kept.2.1,
          further.count.trans kept.2.2.count,
          further.totalAccepted.trans kept.2.2.totalAccepted,
          further.announced.trans kept.2.2.announced⟩

theorem listenerRecv_ok (presented : listenerPresented env ls data fromAddr nowUs = some hdr)
    (accepted : listenerRecv evp env ls data fromAddr nowUs = (.ok, made)) :
    ¬ (ls.config.requireRetry ∧ hdr.token.length = 0) ∧
      AcceptedFrom evp env ls hdr fromAddr made := by
  have only := listenerCheckRate_only env ls fromAddr nowUs
  simp only [listenerRecv_presented evp presented] at accepted
  generalize (listenerCheckRate env ls fromAddr nowUs).2 = limited at only accepted
  split at accepted
  · cases accepted
  · rename_i allowed
    refine ⟨allowed, ?_⟩
    rw [only] at accepted
    obtain ⟨allocConn, room, started, config, connMap, count⟩ := listenerAccept_ok accepted
    exact ⟨allocConn, room, started, config, connMap, count⟩

/-- At some later time every address passes the rate check. -/
theorem listenerCheckRate_recovers (env : ListenerEnv) (ls : Listener) (fromAddr : Addr) :
    ∃ nowUs, (listenerCheckRate env ls fromAddr nowUs).1 = true := by
  unfold listenerCheckRate
  split
  · exact ⟨0, rfl⟩
  · exact rateLimiterCheck_recovers _ _ _ _

/-- Another connection is made for a datagram that asks for one while there is room, by a system
that grants what it granted before. -/
theorem redeliver_further (presented : listenerPresented env ls data fromAddr nowUs = some hdr)
    (accepted : listenerRecv evp env ls data fromAddr nowUs = (.ok, made))
    (unknown : listenerFindConn made hdr.dcid = none)
    (room : made.conns.length < made.config.maxConnections.toNat) :
    ∃ again, BelowRate fromAddr made again ∧
      (redeliver evp data fromAddr made again).conns.length = made.conns.length + 1 := by
  obtain ⟨token, first⟩ := listenerRecv_ok presented accepted
  obtain ⟨-, decoded, -, type, version⟩ := listenerPresented_eq_some.mp presented
  -- The new connection is given what the first one was given.
  let grants : ListenerEnv :=
    { env with conn := fun _ => env.conn ls.nextHandle, allocArray := true }
  obtain ⟨later, allowed⟩ := listenerCheckRate_recovers grants made fromAddr
  refine ⟨(grants, later), allowed, ?_⟩
  have asks : listenerPresented grants made data fromAddr later = some hdr :=
    listenerPresented_eq_some.mpr ⟨allowed, decoded, unknown, type, version⟩
  have only := listenerCheckRate_only grants made fromAddr later
  unfold redeliver
  simp only [listenerRecv_presented evp asks, first.config, if_neg token]
  generalize (listenerCheckRate grants made fromAddr later).2 = limited at only
  have config : limited.config = ls.config := (congrArg Listener.config only :).trans first.config
  have conns : limited.conns = made.conns := (congrArg Listener.conns only :)
  have space : limited.conns.length < limited.config.maxConnections.toNat := by
    rw [conns, config, ← first.config]
    exact room
  have starts : (connStartHandshake evp (grants.conn limited.nextHandle)
      (acceptConn grants limited.config hdr fromAddr) hdr.dcid).1 = .ok := by
    rw [config]
    exact first.started
  have memory : grants.allocConn = true := first.allocConn
  have succeeds := listenerAccept_succeeds data later memory rfl space starts
  have second := listenerAccept_ok (Prod.ext succeeds rfl)
  rw [second.count, conns]

/-- Delivering a client's first datagram again makes no further connection exactly if the client's
identifier has the hash of the one drawn for it, and the map took it, or the listener is full. -/
theorem one_connection {evp : Evp} {env : ListenerEnv} {ls made : Listener}
    {hdr : PktLongHeader} {data : Bytes} {fromAddr : Addr} {nowUs : UInt64}
    (presented : listenerPresented env ls data fromAddr nowUs = some hdr)
    (accepted : listenerRecv evp env ls data fromAddr nowUs = (.ok, made)) :
    (∀ repeats, Machine.Along (redeliver evp data fromAddr) (BelowRate fromAddr) made repeats →
      NoFurther made (Machine.run (redeliver evp data fromAddr) made repeats)) ↔
    (env.allocMap = true ∧
      cidHash hdr.dcid = cidHash (listenerGenerateCid ls.config env.random)) ∨
    ls.config.maxConnections.toNat ≤ ls.conns.length + 1 := by
  obtain ⟨-, first⟩ := listenerRecv_ok presented accepted
  obtain ⟨-, decoded, unknown, -, -⟩ := listenerPresented_eq_some.mp presented
  constructor
  · intro never
    by_contra other
    rw [not_or, not_le] at other
    obtain ⟨apart, room⟩ := other
    -- The client's identifier leads nowhere, as it did before.
    have astray : listenerFindConn made hdr.dcid = none := by
      unfold listenerFindConn at unknown ⊢
      rw [first.connMap]
      split
      · rename_i granted
        rw [AList.lookup_insert_ne fun same => apart ⟨granted, same⟩]
        exact unknown
      · exact unknown
    have space : made.conns.length < made.config.maxConnections.toNat := by
      rw [first.count, first.config]
      exact room
    obtain ⟨again, below, further⟩ := redeliver_further presented accepted astray space
    have same := (never [again] ⟨below, trivial⟩).count
    rw [Machine.run_cons, Machine.run_nil, further] at same
    omega
  · intro settled repeats _
    have settled : (∀ other, pktDecodeLongHeader data = some other →
          (made.connMap.lookup (cidHash other.dcid)).isSome = true) ∨
        made.config.maxConnections.toNat ≤ made.conns.length := by
      rcases settled with ⟨granted, hashed⟩ | full
      · left
        intro other same
        rw [decoded] at same
        cases same
        rw [first.connMap, granted, if_pos rfl, hashed, AList.lookup_insert]
        rfl
      · right
        rw [first.config, first.count]
        exact full
    exact (Machine.run_preserves
      (fun later => later.config = made.config ∧ later.connMap = made.connMap ∧
        NoFurther made later)
      (fun _ _ before => redeliver_noFurther settled before) repeats
      ⟨rfl, rfl, rfl, rfl, rfl⟩).2.2

/-- A listener for a single connection. -/
def singleConfig : ListenerConfig := { plainListenerConfig with maxConnections := 1 }

/-- A listener for one connection makes no second one, whatever is delivered again. -/
theorem one_connection_full :
    let made := (listenerRecv plainEvp (plainListenerEnv (Vector.replicate 8 0))
      (listenerCreate singleConfig true) firstInitial Addr.zero 1).2
    made.conns.length = 1 ∧
      ∀ repeats, Machine.Along (redeliver plainEvp firstInitial Addr.zero) (BelowRate Addr.zero) made
        repeats → NoFurther made (Machine.run (redeliver plainEvp firstInitial Addr.zero) made
          repeats) := by
  have asks : (listenerPresented (plainListenerEnv (Vector.replicate 8 0))
      (listenerCreate singleConfig true) firstInitial Addr.zero 1).isSome = true := by
    decide +kernel
  obtain ⟨hdr, presented⟩ := Option.isSome_iff_exists.mp asks
  refine ⟨by decide +kernel, ?_⟩
  exact (one_connection presented (Prod.ext (by decide +kernel) rfl)).mpr (.inr (by decide +kernel))

/-- A client's first datagram makes a second connection when it comes a second time. -/
theorem second_connection_made :
    let made := (listenerRecv plainEvp (plainListenerEnv (Vector.replicate 8 0))
      (listenerCreate plainListenerConfig true) firstInitial Addr.zero 1).2
    let again := (plainListenerEnv (Vector.replicate 8 1), 2)
    let later := redeliver plainEvp firstInitial Addr.zero made again
    made.conns.length = 1 ∧ made.totalAccepted = 1 ∧ made.announced = [0] ∧
      BelowRate Addr.zero made again ∧
      later.conns.length = 2 ∧ later.totalAccepted = 2 ∧ later.announced = [0, 1] := by
  unfold BelowRate
  decide +kernel

end Nxp
