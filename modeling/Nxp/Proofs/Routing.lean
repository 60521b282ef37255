import Nxp.Core.ListenerLaws

/-! Datagrams reach the connection they name as long as no two identifiers in play share a hash. -/

namespace Nxp

variable {handle : Nat} {conn after : Conn} {env : ListenerEnv} {ls next : Listener}

/-- Every entry of the map names a connection with its hash and, if the map is whole, every
connection has its entry. -/
structure Routed (whole : Prop) (routes : Routes) : Prop where
  distinct : Registry.Distinct routes.conns
  issued : ∀ handle conn, (handle, conn) ∈ routes.conns → handle < routes.nextHandle
  backed : ∀ key handle, routes.connMap.lookup key = some handle →
    ∃ conn, (handle, conn) ∈ routes.conns ∧ cidHash conn.scid = key
  filed : whole → ∀ handle conn, (handle, conn) ∈ routes.conns →
    routes.connMap.lookup (cidHash conn.scid) = some handle

namespace Routed

variable {whole : Prop} {routes : Routes}

/-- A new listener has nothing to find. -/
theorem create (config : ListenerConfig) (allocLimiter : Bool) :
    Routed whole (listenerCreate config allocLimiter).routes where
  distinct := List.nodup_nil
  issued := by simp [Listener.routes, listenerCreate]
  backed := by simp [Listener.routes, listenerCreate]
  filed := by simp [Listener.routes, listenerCreate]

section

variable (routed : Routed whole routes)
include routed

theorem unique {other : Conn}
    (one : (handle, conn) ∈ routes.conns) (two : (handle, other) ∈ routes.conns) :
    conn = other := by
  have found := (Registry.find_eq_some_iff routed.distinct).mpr one
  rw [(Registry.find_eq_some_iff routed.distinct).mpr two] at found
  exact (Option.some.inj found).symm

theorem kept {nextHandle : Nat} (more : routes.nextHandle ≤ nextHandle) :
    Routed whole { routes with nextHandle := nextHandle } :=
  ⟨routed.distinct, fun handle conn live => (routed.issued handle conn live).trans_le more,
    routed.backed, routed.filed⟩

/-- A connection may change in any way that leaves it its identifier. -/
theorem update (live : (handle, conn) ∈ routes.conns) (scid : after.scid = conn.scid) :
    Routed whole (routes.update handle after) := by
  -- Every changed entry comes from one with the same handle and identifier, and the other way round.
  have back {other : Nat} {now : Conn} (here : (other, now) ∈ (routes.update handle after).conns) :
      ∃ before, (other, before) ∈ routes.conns ∧ now.scid = before.scid := by
    obtain ⟨before, was, rfl⟩ := Routes.mem_update.mp here
    refine ⟨before, was, ?_⟩
    split
    · rename_i same
      subst same
      rw [scid, routed.unique live was]
    · rfl
  have forth {other : Nat} {before : Conn} (was : (other, before) ∈ routes.conns) :
      ∃ now, (other, now) ∈ (routes.update handle after).conns ∧ now.scid = before.scid := by
    refine ⟨_, Routes.mem_update.mpr ⟨before, was, rfl⟩, ?_⟩
    split
    · rename_i same
      subst same
      rw [scid, routed.unique live was]
    · rfl
  constructor
  case distinct => exact routed.distinct.modify handle fun _ => after
  case issued =>
    intro other now here
    obtain ⟨before, was, -⟩ := back here
    exact routed.issued other before was
  case backed =>
    intro key other found
    obtain ⟨before, was, hashed⟩ := routed.backed key other found
    obtain ⟨now, here, same⟩ := forth was
    exact ⟨now, here, by rw [same, hashed]⟩
  case filed =>
    intro complete other now here
    obtain ⟨before, was, same⟩ := back here
    rw [same]
    exact routed.filed complete other before was

/-- A connection may be removed. -/
theorem remove (live : (handle, conn) ∈ routes.conns) (scid : after.scid = conn.scid) :
    Routed whole (routes.remove handle after) := by
  constructor
  case distinct => exact routed.distinct.remove handle
  case issued =>
    intro other now here
    exact routed.issued other now ((Routes.mem_remove routed.distinct).mp here).1
  case backed =>
    intro key other found
    have differs : key ≠ cidHash after.scid := by
      rintro rfl
      rw [Routes.remove, AList.lookup_erase] at found
      cases found
    rw [Routes.remove, AList.lookup_erase_ne differs] at found
    obtain ⟨named, was, hashed⟩ := routed.backed key other found
    refine ⟨named, (Routes.mem_remove routed.distinct).mpr ⟨was, ?_⟩, hashed⟩
    -- The entry of the removed connection had the hash that was erased.
    rintro rfl
    rw [routed.unique was live, ← scid] at hashed
    exact differs hashed.symm
  case filed =>
    intro complete other now here
    obtain ⟨was, differs⟩ := (Routes.mem_remove routed.distinct).mp here
    have found := routed.filed complete other now was
    have apart : cidHash now.scid ≠ cidHash after.scid := by
      intro same
      rw [same, scid, routed.filed complete handle conn live] at found
      exact differs (Option.some.inj found).symm
    rw [Routes.remove, AList.lookup_erase_ne apart]
    exact found

/-- A connection may be added, to a whole map only if its hash is new and the map takes it. -/
theorem file {granted : Bool}
    (apart : whole → granted = true ∧ ∀ handle other, (handle, other) ∈ routes.conns →
      cidHash other.scid ≠ cidHash conn.scid) :
    Routed whole (routes.file granted conn) := by
  have old {handle : Nat} {other : Conn} (was : (handle, other) ∈ routes.conns) :
      (handle, other) ∈ (routes.file granted conn).conns := Routes.mem_file.mpr (.inl was)
  constructor
  case distinct =>
    unfold Registry.Distinct Routes.file
    rw [List.map_append, List.nodup_append]
    refine ⟨routed.distinct, List.nodup_singleton _, ?_⟩
    -- The new handle is beyond all that were used.
    intro used there fresh same
    obtain ⟨⟨_, other⟩, was, rfl⟩ := List.mem_map.mp there
    have below := routed.issued _ other was
    simp only [List.map_cons, List.map_nil, List.mem_singleton] at same
    omega
  case issued =>
    intro handle other here
    rcases Routes.mem_file.mp here with was | ⟨rfl, rfl⟩
    · exact (routed.issued handle other was).trans (Nat.lt_succ_self _)
    · exact Nat.lt_succ_self _
  case backed =>
    intro key handle found
    simp only [Routes.file] at found
    cases granted with
    | false =>
      obtain ⟨other, was, hashed⟩ := routed.backed key handle found
      exact ⟨other, old was, hashed⟩
    | true =>
      by_cases same : key = cidHash conn.scid
      · subst same
        rw [if_pos rfl, AList.lookup_insert] at found
        cases found
        exact ⟨conn, Routes.mem_file.mpr (.inr ⟨rfl, rfl⟩), rfl⟩
      · rw [if_pos rfl, AList.lookup_insert_ne same] at found
        obtain ⟨other, was, hashed⟩ := routed.backed key handle found
        exact ⟨other, old was, hashed⟩
  case filed =>
    intro complete handle other here
    obtain ⟨rfl, alone⟩ := apart complete
    simp only [Routes.file, if_true]
    rcases Routes.mem_file.mp here with was | ⟨rfl, rfl⟩
    · rw [AList.lookup_insert_ne (alone handle other was)]
      exact routed.filed complete handle other was
    · exact AList.lookup_insert _

theorem mem
    (live : Registry.find routes.conns handle = some conn) : (handle, conn) ∈ routes.conns :=
  (Registry.find_eq_some_iff routed.distinct).mp live

end

/-- Tending to connections leaves every one where it is found, or removed. -/
theorem tends (routed : Routed whole ls.routes) (tends : Tends ls next) :
    Routed whole next.routes := by
  induction tends with
  | refl => exact routed
  | tail _ last ih =>
    cases last with
    | turned sendIndex => exact ih
    | replaced live scid => exact ih.update live scid
    | removed live => exact ih.remove live rfl

end Routed

/-- The connection a datagram makes, if it makes one, gets an identifier whose hash no other has,
and the map takes it. -/
def HashedApart (ls : Listener) : ListenerEnv × ListenerOp → Prop
  | (env, .recv _ _ _) =>
    env.allocMap = true ∧ ∀ handle conn, (handle, conn) ∈ ls.conns →
      cidHash conn.scid ≠ cidHash (listenerGenerateCid ls.config env.random)
  | _ => True

/-- A datagram leaves every connection where it is found. -/
theorem Received.routed {whole : Prop} (received : Received env ls next)
    (routed : Routed whole ls.routes)
    (apart : whole → env.allocMap = true ∧ ∀ handle conn, (handle, conn) ∈ ls.conns →
      cidHash conn.scid ≠ cidHash (listenerGenerateCid ls.config env.random)) :
    Routed whole next.routes := by
  have added {conn : Conn} (drawn : conn.scid = listenerGenerateCid ls.config env.random) :
      Routed whole (ls.routes.file env.allocMap conn) ∧
        (ls.nextHandle, conn) ∈ (ls.routes.file env.allocMap conn).conns := by
    refine ⟨routed.file fun complete => ?_, ?_⟩
    · rw [drawn]
      exact apart complete
    · exact Routes.mem_file.mpr (.inr ⟨rfl, rfl⟩)
  cases received with
  | kept issued same =>
    rw [same]
    exact routed.kept issued
  | forwarded live scid same =>
    rw [same]
    exact routed.update (routed.mem live) scid
  | withdrawn drawn scid same =>
    rw [same]
    exact (added drawn).1.remove (added drawn).2 scid
  | accepted drawn scid same =>
    rw [same]
    exact (added drawn).1.update (added drawn).2 scid

/-- Every operation leaves every connection where it is found. -/
theorem listenerStep_routed {whole : Prop} {evp : Evp} {input : ListenerEnv × ListenerOp}
    (routed : Routed whole ls.routes) (apart : whole → HashedApart ls input)
    (stepped : listenerStep evp ls input = some next) :
    Routed whole next.routes := by
  obtain ⟨env, op⟩ := input
  cases op with
  | recv data fromAddr nowUs =>
    cases stepped
    exact (listenerRecv_received evp env ls data fromAddr nowUs).routed routed apart
  | _ => exact routed.tends (listenerStep_tends (by simp) stepped)

/-- What is found under an identifier is the connection with that identifier. -/
def Resolves (ls : Listener) (cid : ConnId) : Prop :=
  ∀ handle, listenerFindConn ls cid = some handle ↔
    ∃ conn, (handle, conn) ∈ ls.conns ∧ conn.scid = cid

/-- An identifier resolves unless another one of the same hash is live. -/
theorem resolves_iff (routed : Routed True ls.routes) (cid : ConnId) :
    Resolves ls cid ↔ ∀ handle conn, (handle, conn) ∈ ls.conns →
      cidHash conn.scid = cidHash cid → conn.scid = cid := by
  constructor
  · intro resolves handle conn live hashed
    -- The connection is found under the hash it shares, so it must be the one named.
    have found := routed.filed trivial handle conn live
    rw [hashed] at found
    obtain ⟨named, there, scid⟩ := (resolves handle).mp found
    rw [routed.unique live there]
    exact scid
  · intro alone handle
    constructor
    · intro found
      obtain ⟨conn, live, hashed⟩ := routed.backed _ handle found
      exact ⟨conn, live, alone handle conn live hashed⟩
    · rintro ⟨conn, live, rfl⟩
      exact routed.filed trivial handle conn live

/-- A connection just made is found in vain, or hides another, if its hash was in use already or the
map did not take it. -/
theorem Routed.unresolved (routed : Routed True ls.routes)
    (drawn : conn.scid = listenerGenerateCid ls.config env.random) (scid : after.scid = conn.scid)
    (made : next.routes = (ls.routes.file env.allocMap conn).update ls.nextHandle after)
    (clash : env.allocMap = true → ∃ other old, (other, old) ∈ ls.conns ∧
      cidHash old.scid = cidHash (listenerGenerateCid ls.config env.random)) :
    ∃ cid, ¬ Resolves next cid := by
  have mine : (ls.nextHandle, after) ∈ next.routes.conns := by
    rw [made]
    exact Routes.mem_update.mpr
      ⟨conn, Routes.mem_file.mpr (.inr ⟨rfl, rfl⟩), (if_pos rfl).symm⟩
  have older {other : Nat} {old : Conn} (was : (other, old) ∈ ls.conns) :
      other ≠ ls.nextHandle ∧ (other, old) ∈ next.routes.conns := by
    have apart : other ≠ ls.nextHandle := (routed.issued other old was).ne
    rw [made]
    exact ⟨apart, Routes.mem_update.mpr
      ⟨old, Routes.mem_file.mpr (.inl was), (if_neg apart).symm⟩⟩
  by_contra all
  rw [not_exists_not] at all
  -- The new connection has to be found under its own identifier.
  have found : next.routes.connMap.lookup (cidHash after.scid) = some ls.nextHandle :=
    (all after.scid ls.nextHandle).mpr ⟨after, mine, rfl⟩
  cases granted : env.allocMap with
  | false =>
    -- The map did not take it, and nothing older has its handle.
    rw [made, granted] at found
    obtain ⟨old, was, -⟩ := routed.backed _ _ found
    exact (older was).1 rfl
  | true =>
    -- The older connection of the same hash has to be found in the same place.
    obtain ⟨other, old, was, hashed⟩ := clash granted
    have hidden : next.routes.connMap.lookup (cidHash old.scid) = some other :=
      (all old.scid other).mpr ⟨old, (older was).2, rfl⟩
    rw [hashed, ← drawn, ← scid, found] at hidden
    exact (older was).1 (Option.some.inj hidden).symm

/-- A connection that was not there before is one that was accepted. -/
theorem Received.fresh (received : Received env ls next) (routed : Routed False ls.routes)
    (live : (handle, conn) ∈ next.conns) (absent : ls.conn handle = none) :
    ∃ first after : Conn, first.scid = listenerGenerateCid ls.config env.random ∧
      after.scid = first.scid ∧
      next.routes = (ls.routes.file env.allocMap first).update ls.nextHandle after := by
  have known {old : Conn} (was : (handle, old) ∈ ls.routes.conns) : False := by
    have found : ls.conn handle = some old := (Registry.find_eq_some_iff routed.distinct).mpr was
    rw [absent] at found
    cases found
  have live : (handle, conn) ∈ next.routes.conns := live
  cases received with
  | kept issued same =>
    rw [same] at live
    exact (known live).elim
  | forwarded there scid same =>
    rw [same] at live
    obtain ⟨old, was, -⟩ := Routes.mem_update.mp live
    exact (known was).elim
  | withdrawn drawn scid same =>
    rw [same] at live
    obtain ⟨was, differs⟩ := (Routes.mem_remove (routed.file False.elim).distinct).mp live
    rcases Routes.mem_file.mp was with was | ⟨is, -⟩
    · exact (known was).elim
    · exact absurd is differs
  | accepted drawn scid same => exact ⟨_, _, drawn, scid, same⟩

/-- As long as every new identifier has a hash of its own and the map takes it, an identifier
resolves exactly when no other one in use has its hash; the first connection for which this is not
so leaves an identifier that does not resolve. -/
theorem datagrams_routed (evp : Evp) (config : ListenerConfig) (allocLimiter : Bool)
    {inputs : List (ListenerEnv × ListenerOp)} {ls : Listener}
    (reached : Machine.attempt (listenerStep evp) (listenerCreate config allocLimiter) inputs =
      some ls)
    (apart : Machine.Throughout (listenerStep evp) HashedApart (listenerCreate config allocLimiter)
      inputs) :
    (∀ cid, Resolves ls cid ↔ ∀ handle conn, (handle, conn) ∈ ls.conns →
      cidHash conn.scid = cidHash cid → conn.scid = cid) ∧
    ∀ input next handle conn, listenerStep evp ls input = some next →
      (handle, conn) ∈ next.conns → ls.conn handle = none → ¬ HashedApart ls input →
      ∃ cid, ¬ Resolves next cid := by
  have routed : Routed True ls.routes :=
    Machine.attempt_invariant HashedApart (fun ls => Routed True ls.routes)
      (fun _ _ _ before fine stepped => listenerStep_routed before (fun _ => fine) stepped)
      (Routed.create config allocLimiter) apart reached
  refine ⟨resolves_iff routed, ?_⟩
  rintro ⟨env, op⟩ next handle conn stepped live fresh clash
  cases op with
  | recv data fromAddr nowUs =>
    cases stepped
    have backed : Routed False ls.routes :=
      ⟨routed.distinct, routed.issued, routed.backed, False.elim⟩
    obtain ⟨first, after, drawn, scid, made⟩ :=
      (listenerRecv_received evp env ls data fromAddr nowUs).fresh backed live fresh
    refine routed.unresolved drawn scid made ?_
    intro granted
    by_contra alone
    exact clash ⟨granted, fun other old was hashed => alone ⟨other, old, was, hashed⟩⟩
  | _ => exact absurd trivial clash

/-- Two clients reach a new listener with their first datagrams, the second much later. -/
def twoInitials : List (ListenerEnv × ListenerOp) :=
  [(plainListenerEnv (Vector.replicate 8 0), .recv firstInitial Addr.zero 1),
    (plainListenerEnv (Vector.replicate 8 1), .recv firstInitial Addr.zero 40000000)]

/-- The listener then. -/
def twoAccepted : Listener :=
  (Machine.attempt (listenerStep plainEvp) (listenerCreate plainListenerConfig true)
    twoInitials).getD (listenerCreate plainListenerConfig true)

/-- The identifiers of both clients resolve. -/
theorem datagrams_routed_two :
    twoAccepted.conns.length = 2 ∧
      ∀ random ∈ [Vector.replicate 8 0, Vector.replicate 8 1],
        Resolves twoAccepted (listenerGenerateCid plainListenerConfig random) := by
  have apart : Machine.Throughout (listenerStep plainEvp) HashedApart
      (listenerCreate plainListenerConfig true) twoInitials := by
    refine ⟨⟨rfl, by simp [listenerCreate]⟩, fun first stepped => ⟨?_, fun _ _ => trivial⟩⟩
    have hashes : (listenerStep plainEvp (listenerCreate plainListenerConfig true)
        (plainListenerEnv (Vector.replicate 8 0), .recv firstInitial Addr.zero 1)).all (fun ls =>
          ls.conns.all fun entry => cidHash entry.2.scid ≠
            cidHash (listenerGenerateCid ls.config (Vector.replicate 8 1))) = true := by
      decide +kernel
    rw [stepped] at hashes
    refine ⟨rfl, fun other old was => ?_⟩
    exact of_decide_eq_true (List.all_eq_true.mp hashes _ was)
  have names : twoAccepted.conns.map (fun entry => entry.2.scid) =
      [Vector.replicate 8 0, Vector.replicate 8 1].map (listenerGenerateCid plainListenerConfig) := by
    decide +kernel
  have hashed : cidHash (listenerGenerateCid plainListenerConfig (Vector.replicate 8 0)) ≠
      cidHash (listenerGenerateCid plainListenerConfig (Vector.replicate 8 1)) := by
    decide +kernel
  refine ⟨by simpa using congrArg List.length names, fun random drawn => ?_⟩
  refine ((@datagrams_routed plainEvp plainListenerConfig true twoInitials twoAccepted rfl apart).1
    _).mpr ?_
  intro handle conn live same
  have named : conn.scid ∈ twoAccepted.conns.map (fun entry => entry.2.scid) :=
    List.mem_map.mpr ⟨_, live, rfl⟩
  rw [names] at named
  obtain ⟨other, member, is⟩ := List.mem_map.mp named
  rw [← is] at same ⊢
  simp only [List.mem_cons, List.not_mem_nil, or_false] at drawn member
  rcases drawn with rfl | rfl
  · rcases member with rfl | rfl
    · rfl
    · exact absurd same.symm hashed
  · rcases member with rfl | rfl
    · exact absurd same hashed
    · rfl

/-- An identifier of nine octets leads to a connection whose own has eight. -/
theorem stranger_found : ∃ ls, ∃ cid : ConnId, ∃ handle,
    Machine.attempt (listenerStep plainEvp) (listenerCreate plainListenerConfig true)
      [(plainListenerEnv #v[0xd5, 0x6b, 0xb9, 0x53, 0x42, 0x87, 0x08, 0x36],
        .recv firstInitial Addr.zero 1)] = some ls ∧
    listenerFindConn ls cid = some handle ∧
    ls.conns.map (fun entry => (entry.1, decide (entry.2.scid = cid))) = [(handle, false)] := by
  refine ⟨_, ⟨[0xd5, 0x6b, 0xb9, 0x53, 0x42, 0x87, 0x08, 0x36, 0x00], by decide⟩, 0, rfl, ?_⟩
  decide +kernel

end Nxp
