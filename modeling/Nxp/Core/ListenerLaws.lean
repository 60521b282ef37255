import Nxp.Core.Listener
import Nxp.Core.SecureLaws

/-! Every way a datagram can change which connections a listener has and how it finds them. -/

namespace Nxp

/-- How a listener finds its connections. -/
structure Routes where
  connMap : AList fun _ : UInt64 => Nat
  conns : List (Nat × Conn)
  nextHandle : Nat

/-- How this listener finds its connections. -/
def Listener.routes (ls : Listener) : Routes := ⟨ls.connMap, ls.conns, ls.nextHandle⟩

namespace Routes

/-- Add a connection under a new handle, the map taking it or not. -/
def file (routes : Routes) (granted : Bool) (conn : Conn) : Routes where
  connMap :=
    if granted then routes.connMap.insert (cidHash conn.scid) routes.nextHandle
    else routes.connMap
  conns := routes.conns ++ [(routes.nextHandle, conn)]
  nextHandle := routes.nextHandle + 1

/-- Put a connection in the place of the one a handle names. -/
def update (routes : Routes) (handle : Nat) (conn : Conn) : Routes :=
  { routes with conns := Registry.modify routes.conns handle fun _ => conn }

/-- Remove a connection, and whatever the map has under the hash of its identifier. -/
def remove (routes : Routes) (handle : Nat) (conn : Conn) : Routes :=
  { routes with
    connMap := routes.connMap.erase (cidHash conn.scid)
    conns := Registry.remove routes.conns handle }

/-- The connections after one was replaced. -/
theorem mem_update {routes : Routes} {handle other : Nat} {after now : Conn} :
    (other, now) ∈ (routes.update handle after).conns ↔
      ∃ old, (other, old) ∈ routes.conns ∧ now = if other = handle then after else old :=
  @Registry.mem_modify _ _ _ routes.conns handle other (fun _ => after) now

/-- The connections after one was added. -/
theorem mem_file {routes : Routes} {granted : Bool} {other : Nat} {conn now : Conn} :
    (other, now) ∈ (routes.file granted conn).conns ↔
      (other, now) ∈ routes.conns ∨ other = routes.nextHandle ∧ now = conn := by
  unfold file
  rw [List.mem_append, List.mem_singleton, Prod.mk.injEq]

/-- The connections after one was removed. -/
theorem mem_remove {routes : Routes} (distinct : Registry.Distinct routes.conns)
    {handle other : Nat} {after now : Conn} :
    (other, now) ∈ (routes.remove handle after).conns ↔
      (other, now) ∈ routes.conns ∧ other ≠ handle :=
  Registry.mem_remove distinct

end Routes

/-- Asking the rate limiter changes nothing but the limiter. -/
theorem listenerCheckRate_only (env : ListenerEnv) (ls : Listener) (fromAddr : Addr)
    (nowUs : UInt64) :
    (listenerCheckRate env ls fromAddr nowUs).2 =
      { ls with rateLimiter := (listenerCheckRate env ls fromAddr nowUs).2.rateLimiter } := by
  unfold listenerCheckRate
  split <;> rfl

/-- How adding a connection can end. -/
inductive Added (env : ListenerEnv) (ls : Listener) (handle : Nat) (conn : Conn) :
    ErrorCode × Listener → Prop
  | full (limit : ls.config.maxConnections.toNat ≤ ls.conns.length) :
      Added env ls handle conn (.streamLimit, ls)
  | cramped (below : ls.conns.length < ls.config.maxConnections.toNat)
      (outgrown : ls.connCap.toNat ≤ ls.conns.length) (denied : env.allocArray = false) :
      Added env ls handle conn (.outOfMemory, ls)
  | added (below : ls.conns.length < ls.config.maxConnections.toNat) (connCap : UInt32) :
      Added env ls handle conn (.ok, { ls with
        connCap := connCap
        connMap :=
          if env.allocMap then ls.connMap.insert (cidHash conn.scid) handle else ls.connMap
        conns := ls.conns ++ [(handle, conn)] })

/-- Adding a connection ends in one of these ways. -/
theorem listenerAddConn_added (env : ListenerEnv) (ls : Listener) (handle : Nat) (conn : Conn) :
    Added env ls handle conn (listenerAddConn env ls handle conn) := by
  unfold listenerAddConn
  split
  · rename_i limit
    exact .full limit
  · rename_i below
    have below : ls.conns.length < ls.config.maxConnections.toNat := by omega
    simp only
    split
    · rename_i short
      exact .cramped below short.1 (by simpa using short.2)
    · exact .added below _

/-- Every way a datagram can change the routes. -/
inductive Received (env : ListenerEnv) (ls next : Listener) : Prop
  | kept {nextHandle : Nat} (issued : ls.nextHandle ≤ nextHandle)
      (routes : next.routes = { ls.routes with nextHandle := nextHandle })
  | forwarded {handle : Nat} {conn after : Conn} (live : ls.conn handle = some conn)
      (scid : after.scid = conn.scid) (routes : next.routes = ls.routes.update handle after)
  | withdrawn {conn after : Conn} (drawn : conn.scid = listenerGenerateCid ls.config env.random)
      (scid : after.scid = conn.scid)
      (routes : next.routes = (ls.routes.file env.allocMap conn).remove ls.nextHandle after)
  | accepted {conn after : Conn} (drawn : conn.scid = listenerGenerateCid ls.config env.random)
      (scid : after.scid = conn.scid)
      (routes : next.routes = (ls.routes.file env.allocMap conn).update ls.nextHandle after)

/-- The header of a datagram that asks for a connection: an initial one of the current version, let
through by the rate limiter, under an identifier nothing is found for. -/
def listenerPresented (env : ListenerEnv) (ls : Listener) (data : Bytes) (fromAddr : Addr)
    (nowUs : UInt64) : Option PktLongHeader :=
  if (listenerCheckRate env ls fromAddr nowUs).1 then
    (pktDecodeLongHeader data).filter fun hdr =>
      listenerFindConn ls hdr.dcid = none ∧ hdr.type = .initial ∧ hdr.version = versionCurrent
  else none

/-- No connection comes or goes, and nothing is seen. -/
structure Unmoved (ls next : Listener) : Prop where
  config : next.config = ls.config
  connMap : next.connMap = ls.connMap
  count : next.conns.length = ls.conns.length
  totalAccepted : next.totalAccepted = ls.totalAccepted
  trace : next.trace = ls.trace

theorem pktDecodeLongHeader_long {first : UInt8} {rest : Bytes} {hdr : PktLongHeader}
    (decoded : pktDecodeLongHeader (first :: rest) = some hdr) : pktIsLongHeader first = true := by
  unfold pktDecodeLongHeader at decoded
  simp only at decoded
  split at decoded
  · cases decoded
  · rename_i fine
    simp only [not_or] at fine
    simpa [pktIsLongHeader] using fine.2.1

/-- A datagram that asks for a connection is refused for want of a token or accepted. -/
theorem listenerRecv_presented {env : ListenerEnv} {ls : Listener} {data : Bytes}
    {fromAddr : Addr} {nowUs : UInt64} {hdr : PktLongHeader} (evp : Evp)
    (presented : listenerPresented env ls data fromAddr nowUs = some hdr) :
    listenerRecv evp env ls data fromAddr nowUs =
      let limited := (listenerCheckRate env ls fromAddr nowUs).2
      if ls.config.requireRetry ∧ hdr.token.length = 0 then
        (.tokenInvalid, { limited with totalRetried := limited.totalRetried + 1 })
      else listenerAccept evp env limited hdr data fromAddr nowUs := by
  unfold listenerPresented at presented
  split at presented
  · rename_i allowed
    obtain ⟨decoded, eligible⟩ := Option.filter_eq_some_iff.mp presented
    simp only [decide_eq_true_eq] at eligible
    obtain ⟨unknown, type, version⟩ := eligible
    cases data with
    | nil => cases decoded
    | cons first rest =>
      have only := listenerCheckRate_only env ls fromAddr nowUs
      unfold listenerRecv
      cases asked : listenerCheckRate env ls fromAddr nowUs with
      | mk verdict limited =>
        rw [asked] at allowed only
        replace only : limited = { ls with rateLimiter := limited.rateLimiter } := only
        cases allowed
        -- The limiter is the only thing that may have changed so far.
        have lookup : listenerFindConn limited hdr.dcid = none := by
          rw [only]
          exact unknown
        have config : limited.config = ls.config := by rw [only]
        simp only [listenerRecvLong, pktDecodeLongHeader_long decoded, decoded, lookup, type, version,
          config, ne_eq, not_true_eq_false, if_true, if_false]
  · cases presented

/-- What becomes of a listener whose datagram does not ask for a connection. -/
inductive Passed (ls : Listener) : Listener → Prop
  | dropped (rateLimiter : Option RateLimiter) (totalRejected : UInt64) :
      Passed ls { ls with rateLimiter := rateLimiter, totalRejected := totalRejected }
  | forwarded {handle : Nat} {conn after : Conn} (rateLimiter : Option RateLimiter)
      (live : ls.conn handle = some conn) (scid : after.scid = conn.scid) :
      Passed ls (Listener.setConn { ls with rateLimiter := rateLimiter } handle after)

section Datagrams

variable {env : ListenerEnv} {ls : Listener} {data : Bytes} {fromAddr : Addr} {nowUs : UInt64}

theorem listenerForward_passed (evp : Evp) (env : ListenerEnv) (ls : Listener)
    (rateLimiter : Option RateLimiter) (handle : Nat) (data : Bytes) (nowUs : UInt64) :
    Passed ls (listenerForward evp env { ls with rateLimiter := rateLimiter } handle data
      nowUs).2 := by
  unfold listenerForward
  split
  · exact .dropped rateLimiter ls.totalRejected
  · rename_i conn live
    exact .forwarded rateLimiter live (connRecv_scid evp (env.conn handle) conn data nowUs)

/-- A datagram that does not ask for a connection is forwarded or dropped. -/
theorem listenerRecv_passed (evp : Evp)
    (absent : listenerPresented env ls data fromAddr nowUs = none) :
    Passed ls (listenerRecv evp env ls data fromAddr nowUs).2 := by
  have still (rateLimiter : Option RateLimiter) :
      Passed ls { ls with rateLimiter := rateLimiter } := .dropped rateLimiter ls.totalRejected
  cases data with
  | nil => exact still ls.rateLimiter
  | cons first rest =>
    have only := listenerCheckRate_only env ls fromAddr nowUs
    unfold listenerPresented at absent
    unfold listenerRecv
    cases asked : listenerCheckRate env ls fromAddr nowUs with
    | mk verdict limited =>
      rw [asked] at absent only
      replace only : limited = { ls with rateLimiter := limited.rateLimiter } := only
      rw [only]
      cases verdict with
      | false => exact .dropped _ _
      | true =>
        simp only
        split
        · unfold listenerRecvLong
          cases decoded : pktDecodeLongHeader (first :: rest) with
          | none => exact still _
          | some hdr =>
            simp only
            split
            · exact listenerForward_passed evp env ls _ _ _ nowUs
            · -- Nothing is found, so the type or the version must be another.
              rename_i unknown
              have unknown : listenerFindConn ls hdr.dcid = none := unknown
              simp only [decoded, Option.filter_some, unknown, true_and, if_true] at absent
              split
              · exact still _
              · rename_i type
                split
                · exact still _
                · rename_i version
                  simp only [ne_eq, not_not] at type version
                  simp [type, version] at absent
        · unfold listenerRecvShort
          split
          · exact still _
          · split
            · exact still _
            · exact listenerForward_passed evp env ls _ _ _ nowUs

/-- A datagram that does not ask for a connection moves nothing. -/
theorem listenerRecv_unmoved (evp : Evp)
    (absent : listenerPresented env ls data fromAddr nowUs = none) :
    Unmoved ls (listenerRecv evp env ls data fromAddr nowUs).2 := by
  have passed := listenerRecv_passed evp absent
  generalize (listenerRecv evp env ls data fromAddr nowUs).2 = next at passed
  cases passed with
  | dropped => exact ⟨rfl, rfl, rfl, rfl, rfl⟩
  | forwarded => exact ⟨rfl, rfl, List.length_map _, rfl, rfl⟩

end Datagrams

/-- A listener that was asked for a connection and has made one. -/
def Listener.asked (ls : Listener) (token : Bytes) (fromAddr : Addr) (nowUs : UInt64) : Listener :=
  (ls.observe (.accepting token fromAddr nowUs)).issue token fromAddr nowUs

/-- A listener with one connection more. -/
def Listener.joined (ls : Listener) (granted : Bool) (connCap : UInt32) (handle : Nat)
    (conn : Conn) : Listener :=
  { ls with
    connCap := connCap
    connMap := if granted then ls.connMap.insert (cidHash conn.scid) handle else ls.connMap
    conns := ls.conns ++ [(handle, conn)]
    totalAccepted := ls.totalAccepted + 1 }

/-- How making a connection for a client can end. -/
inductive Accepting (evp : Evp) (env : ListenerEnv) (ls : Listener) (hdr : PktLongHeader)
    (fromAddr : Addr) (nowUs : UInt64) : ErrorCode × Listener → Prop
  | unmade (denied : env.allocConn = false) :
      Accepting evp env ls hdr fromAddr nowUs
        (.outOfMemory, countRejected (ls.observe (.accepting hdr.token fromAddr nowUs)))
  | unadded {code : ErrorCode} (bad : code ≠ .ok)
      (why : ls.config.maxConnections.toNat ≤ ls.conns.length ∨ env.allocArray = false) :
      Accepting evp env ls hdr fromAddr nowUs
        (code, countRejected (ls.asked hdr.token fromAddr nowUs))
  | withdrawn {code : ErrorCode} {after : Conn} (connCap : UInt32) (bad : code ≠ .ok)
      (below : ls.conns.length < ls.config.maxConnections.toNat)
      (start : connStartHandshake evp (env.conn ls.nextHandle)
        (acceptConn env ls.config hdr fromAddr) hdr.dcid = (code, after)) :
      Accepting evp env ls hdr fromAddr nowUs
        (code, countRejected (listenerRemoveConn ((ls.asked hdr.token fromAddr nowUs).joined
          env.allocMap connCap ls.nextHandle (acceptConn env ls.config hdr fromAddr))
          ls.nextHandle after))
  | begun {started after : Conn} (connCap : UInt32) (told : Bool) (made : env.allocConn = true)
      (below : ls.conns.length < ls.config.maxConnections.toNat)
      (start : connStartHandshake evp (env.conn ls.nextHandle)
        (acceptConn env ls.config hdr fromAddr) hdr.dcid = (.ok, started))
      (scid : after.scid = started.scid) :
      Accepting evp env ls hdr fromAddr nowUs
        (.ok, let next := ((ls.asked hdr.token fromAddr nowUs).joined env.allocMap connCap
            ls.nextHandle (acceptConn env ls.config hdr fromAddr)).setConn ls.nextHandle after
          if told then next.observe (.newConn ls.nextHandle) else next)

/-- Making a connection for a client ends in one of these ways. -/
theorem listenerAccept_accepting (evp : Evp) (env : ListenerEnv) (ls : Listener)
    (hdr : PktLongHeader) (data : Bytes) (fromAddr : Addr) (nowUs : UInt64) :
    Accepting evp env ls hdr fromAddr nowUs
      (listenerAccept evp env ls hdr data fromAddr nowUs) := by
  unfold listenerAccept
  simp only
  split
  · rename_i denied
    exact .unmade (by simpa using denied)
  · rename_i granted
    have way := listenerAddConn_added env (ls.asked hdr.token fromAddr nowUs) ls.nextHandle
      (acceptConn env ls.config hdr fromAddr)
    show Accepting evp env ls hdr fromAddr nowUs (listenerAdmit evp env
      (ls.asked hdr.token fromAddr nowUs) ls.nextHandle (acceptConn env ls.config hdr fromAddr)
      hdr.dcid data nowUs)
    unfold listenerAdmit
    generalize listenerAddConn env (ls.asked hdr.token fromAddr nowUs) ls.nextHandle
      (acceptConn env ls.config hdr fromAddr) = result at way
    cases way with
    | full limit => exact .unadded (by decide) (.inl limit)
    | cramped below outgrown denied => exact .unadded (by decide) (.inr denied)
    | added below connCap =>
      unfold listenerBegin
      simp only
      split
      · rename_i started start
        exact .begun connCap ls.config.onNewConn (by simpa using granted) below start
          (connRecv_scid evp (env.conn ls.nextHandle) started data nowUs)
      · rename_i code after bad start
        exact .withdrawn connCap bad below start

/-- Every datagram changes the routes in one of these ways. -/
theorem listenerRecv_received (evp : Evp) (env : ListenerEnv) (ls : Listener) (data : Bytes)
    (fromAddr : Addr) (nowUs : UInt64) :
    Received env ls (listenerRecv evp env ls data fromAddr nowUs).2 := by
  cases presented : listenerPresented env ls data fromAddr nowUs with
  | none =>
    have passed := listenerRecv_passed evp presented
    generalize (listenerRecv evp env ls data fromAddr nowUs).2 = next at passed
    cases passed with
    | dropped => exact .kept (Nat.le_refl _) rfl
    | forwarded _ live scid => exact .forwarded live scid rfl
  | some hdr =>
    rw [listenerRecv_presented evp presented, listenerCheckRate_only]
    simp only
    generalize (listenerCheckRate env ls fromAddr nowUs).2.rateLimiter = rateLimiter
    split
    · exact .kept (Nat.le_refl _) rfl
    · have accepting := listenerAccept_accepting evp env { ls with rateLimiter := rateLimiter } hdr
        data fromAddr nowUs
      have named := connStartHandshake_scid evp (env.conn ls.nextHandle)
        (acceptConn env ls.config hdr fromAddr) hdr.dcid
      generalize listenerAccept evp env { ls with rateLimiter := rateLimiter } hdr data fromAddr
        nowUs = result at accepting
      cases accepting with
      | unmade => exact .kept (Nat.le_refl _) rfl
      | unadded => exact .kept (Nat.le_succ _) rfl
      | withdrawn connCap bad below start =>
        rw [show connStartHandshake _ _ _ _ = _ from start] at named
        exact .withdrawn rfl named rfl
      | begun connCap told made below start scid =>
        rw [show connStartHandshake _ _ _ _ = _ from start] at named
        exact .accepted rfl (scid.trans named) (by cases told <;> rfl)

/-- What tending to its connections does to a listener. -/
inductive Tend (ls : Listener) : Listener → Prop
  | turned (sendIndex : UInt32) : Tend ls { ls with sendIndex := sendIndex }
  | replaced {handle : Nat} {conn after : Conn} (live : (handle, conn) ∈ ls.conns)
      (scid : after.scid = conn.scid) : Tend ls (ls.setConn handle after)
  | removed {handle : Nat} {conn : Conn} (live : (handle, conn) ∈ ls.conns) :
      Tend ls (listenerRemoveConn ls handle conn)

/-- Tending one step after the other. -/
abbrev Tends : Listener → Listener → Prop := Relation.ReflTransGen Tend

section Tending

variable {evp : Evp} {ls next : Listener}

theorem listenerSendLoop_tends {env : Nat → Env} {maxLen : Nat} {nowUs : UInt64} (left : Nat)
    {result : Option (Bytes × Addr)}
    (sent : listenerSendLoop evp env maxLen nowUs left ls = some (result, next)) :
    Tends ls next := by
  -- The induction is on the connections that may still be asked.
  induction left generalizing ls with
  | zero =>
    cases sent
    exact .refl
  | succ left ih =>
    unfold listenerSendLoop at sent
    simp only at sent
    refine .head (.turned (ls.sendIndex + 1)) ?_
    split at sent
    · exact ih sent
    · rename_i handle conn here
      have live : (handle, conn) ∈ ls.conns := List.mem_of_getElem? here
      split at sent
      · cases sent
      · rename_i called
        cases sent
        exact .single (.replaced live (connSend_scid called))
      · rename_i called
        exact .head (.replaced live (connSend_scid called)) (ih sent)

/-- A pass over the timers tends to connections. -/
theorem listenerTimeoutLoop_tends (nowUs : UInt64) (left i : Nat) (ls : Listener) :
    Tends ls (listenerTimeoutLoop nowUs left i ls) := by
  induction left generalizing i ls with
  | zero => exact .refl
  | succ left ih =>
    unfold listenerTimeoutLoop
    split
    · exact .refl
    · rename_i handle conn here
      have live : (handle, conn) ∈ ls.conns := List.mem_of_getElem? here
      refine .head (.replaced live (KeepsKeys.connOnTimeout conn nowUs).scid) ?_
      simp only
      split
      · have there : (handle, connOnTimeout conn nowUs) ∈
            (ls.routes.update handle (connOnTimeout conn nowUs)).conns :=
          Routes.mem_update.mpr ⟨conn, live, (if_pos rfl).symm⟩
        exact .head (.removed there) (ih i _)
      · exact ih (i + 1) _

/-- Whatever is not a datagram is tending. -/
theorem listenerStep_tends {env : ListenerEnv} {op : ListenerOp}
    (other : ∀ data fromAddr nowUs, op ≠ .recv data fromAddr nowUs)
    (stepped : listenerStep evp ls (env, op) = some next) : Tends ls next := by
  cases op with
  | recv data fromAddr nowUs => exact absurd rfl (other data fromAddr nowUs)
  | send maxLen nowUs =>
    obtain ⟨⟨result, after⟩, sent, rfl⟩ := Option.map_eq_some_iff.mp stepped
    exact listenerSendLoop_tends _ sent
  | onTimeout nowUs =>
    cases stepped
    exact listenerTimeoutLoop_tends nowUs _ 0 ls
  | removeConn handle =>
    unfold listenerStep at stepped
    simp only at stepped
    split at stepped
    · cases stepped
      exact .refl
    · rename_i live
      cases stepped
      exact .single (.removed (Registry.mem_of_find live))
  | operate handle op =>
    unfold listenerStep at stepped
    simp only at stepped
    split at stepped
    · cases stepped
      exact .refl
    · rename_i live
      obtain ⟨after, operated, rfl⟩ := Option.map_eq_some_iff.mp stepped
      exact .single (.replaced (Registry.mem_of_find live) (connStep_scid operated))

end Tending

/-- A system that grants every request and draws given octets. -/
def plainListenerEnv (random : Vector UInt8 8) : ListenerEnv where
  conn _ := plainEnv
  random := random
  allocConn := true
  allocCc := true
  allocArray := true
  allocMap := true
  allocBucket := true
  allocBuckets := true

/-- A listener that leaves everything to the defaults and tells the application of connections. -/
def plainListenerConfig : ListenerConfig where
  nodeId := Vector.replicate 4 0
  nodeIdLen := 0
  maxConnections := 0
  idleTimeoutUs := 0
  initialMaxData := 0
  initialMaxStreamData := 0
  maxStreamsBidi := 0
  maxStreamsUni := 0
  requireRetry := false
  onNewConn := true

/-- A client's first datagram, with an identifier of one octet and no token. -/
def firstInitial : Bytes := [0xC0, 0x4E, 0x58, 0x50, 0x01, 0x01, 0xAA, 0x00, 0x00, 0x01, 0x00]

end Nxp
