import Nxp.Core.ListenerLaws
import Nxp.Lib.Turns

/-! When a listener that found nothing to send has asked every connection. -/

namespace Nxp

variable {ls next : Listener}

/-- Places of the connections a listener asks for a datagram, in the order it does. -/
def listenerPolls (evp : Evp) (env : Nat → Env) (maxLen : Nat) (nowUs : UInt64) :
    Nat → Listener → List Nat
  | 0, _ => []
  | left + 1, ls =>
    let idx := ls.sendIndex.toNat % ls.conns.length
    let ls := { ls with sendIndex := ls.sendIndex + 1 }
    match ls.conns[idx]? with
    | none => listenerPolls evp env maxLen nowUs left ls
    | some (handle, conn) =>
      match connSend evp (env handle) conn maxLen nowUs with
      | none => [idx]
      | some (.datagram _, _) => [idx]
      | some (_, conn) => idx :: listenerPolls evp env maxLen nowUs left (ls.setConn handle conn)

/-- Places of the connections a listener asks in one call. -/
def listenerSendPolls (evp : Evp) (env : Nat → Env) (ls : Listener) (maxLen : Nat)
    (nowUs : UInt64) : List Nat :=
  listenerPolls evp env maxLen nowUs ls.conns.length ls

/-- A connection has nothing to send. -/
def HasNothing (evp : Evp) (env : Env) (conn : Conn) (maxLen : Nat) (nowUs : UInt64) : Prop :=
  ∃ result next, connSend evp env conn maxLen nowUs = some (result, next) ∧
    ∀ bytes, result ≠ .datagram bytes

section Loop

variable {evp : Evp} {env : Nat → Env} {maxLen : Nat} {nowUs : UInt64}

/-- A turn of a loop that finds nothing asks one connection and goes on. -/
inductive Asks (evp : Evp) (env : Nat → Env) (maxLen : Nat) (nowUs : UInt64) (left : Nat)
    (ls next : Listener) : Prop
  | asked {handle : Nat} {conn after : Conn} {result : SendResult}
      (here : ls.conns[ls.sendIndex.toNat % ls.conns.length]? = some (handle, conn))
      (called : connSend evp (env handle) conn maxLen nowUs = some (result, after))
      (none : ∀ bytes, result ≠ .datagram bytes)
      (onward : listenerSendLoop evp env maxLen nowUs left
        ({ ls with sendIndex := ls.sendIndex + 1 }.setConn handle after) = some (.none, next))
      (polls : listenerPolls evp env maxLen nowUs (left + 1) ls =
        ls.sendIndex.toNat % ls.conns.length ::
          listenerPolls evp env maxLen nowUs left
            ({ ls with sendIndex := ls.sendIndex + 1 }.setConn handle after))

theorem listenerSendLoop_asks {left : Nat} (present : 0 < ls.conns.length)
    (called : listenerSendLoop evp env maxLen nowUs (left + 1) ls = some (none, next)) :
    Asks evp env maxLen nowUs left ls next := by
  have inside := Nat.mod_lt ls.sendIndex.toNat present
  obtain ⟨⟨handle, conn⟩, here⟩ :
      ∃ entry, ls.conns[ls.sendIndex.toNat % ls.conns.length]? = some entry :=
    ⟨_, List.getElem?_eq_getElem inside⟩
  unfold listenerSendLoop at called
  simp only [here] at called
  split at called
  · cases called
  · cases called
  · rename_i result after other sent
    refine .asked here sent (fun bytes same => ?_) called ?_
    · subst same
      exact other bytes rfl
    · rw [listenerPolls]
      simp only [here, sent]

/-- A call that finds nothing asks at the places its counter points to. -/
theorem listenerPolls_eq (left : Nat) (present : 0 < ls.conns.length)
    (called : listenerSendLoop evp env maxLen nowUs left ls = some (none, next)) :
    listenerPolls evp env maxLen nowUs left ls = (List.range left).map
      (Turns.place (2 ^ 32) ls.conns.length ls.sendIndex.toNat) := by
  -- The counter of the next turn is one further, and may have wrapped.
  induction left generalizing ls with
  | zero => rfl
  | succ left ih =>
    cases listenerSendLoop_asks present called with
    | @asked handle conn after result here sent none onward polls =>
      have size : ({ ls with sendIndex := ls.sendIndex + 1 }.setConn handle after).conns.length =
          ls.conns.length := List.length_map _
      rw [polls, ih (by rw [size]; exact present) onward, size, List.range_succ_eq_map, List.map_cons,
        List.map_map]
      congr 1
      · unfold Turns.place
        rw [Nat.add_zero, Nat.mod_eq_of_lt ls.sendIndex.toNat_lt]
      · apply List.map_congr_left
        intro turn _
        show Turns.place (2 ^ 32) _ (ls.sendIndex + 1).toNat turn = _
        unfold Turns.place
        rw [UInt32.toNat_add, Nat.mod_add_mod]
        congr 2
        simp only [UInt32.toNat_one]
        omega

/-- A connection that was asked in a call that finds nothing had nothing to send. -/
theorem listenerPolls_nothing (left : Nat)
    (distinct : Registry.Distinct ls.conns) (present : 0 < ls.conns.length)
    (called : listenerSendLoop evp env maxLen nowUs left ls = some (none, next)) {i handle : Nat}
    {conn : Conn} (asked : i ∈ listenerPolls evp env maxLen nowUs left ls)
    (here : ls.conns[i]? = some (handle, conn)) :
    HasNothing evp (env handle) conn maxLen nowUs := by
  -- Until it is asked for the first time, the connection is as it was.
  induction left generalizing ls with
  | zero => cases asked
  | succ left ih =>
    cases listenerSendLoop_asks present called with
    | @asked first other after result there sent none onward polls =>
      by_cases same : handle = first
      · subst same
        obtain rfl := distinct.place here there rfl
        rw [there] at here
        cases here
        exact ⟨result, after, sent, none⟩
      · rw [polls] at asked
        rcases List.mem_cons.mp asked with rfl | later
        · rw [there] at here
          cases here
          exact absurd rfl same
        · refine ih (distinct.modify first fun _ => after) ?_ onward later ?_
          · show 0 < (Registry.modify ls.conns first fun _ => after).length
            rwa [Registry.modify, List.length_map]
          · show (Registry.modify ls.conns first fun _ => after)[i]? = _
            rw [Registry.modify, List.getElem?_map, here, Option.map_some, if_neg same]

end Loop

/-- A listener that finds nothing to send has asked every connection exactly if its counter does not
wrap on the way or the connections divide the bound it wraps at; then no connection had anything to
send. -/
theorem listener_polls_all_iff {evp : Evp} {env : Nat → Env} {maxLen : Nat}
    {nowUs : UInt64} (counted : ls.conns.length < 2 ^ 32)
    (called : listenerSend evp env ls maxLen nowUs = some (none, next)) :
    ((∀ i < ls.conns.length, i ∈ listenerSendPolls evp env ls maxLen nowUs) ↔
      ls.sendIndex.toNat + ls.conns.length ≤ 2 ^ 32 ∨ ls.conns.length ∣ 2 ^ 32) ∧
    (Registry.Distinct ls.conns →
      ls.sendIndex.toNat + ls.conns.length ≤ 2 ^ 32 ∨ ls.conns.length ∣ 2 ^ 32 →
      ∀ handle conn, (handle, conn) ∈ ls.conns →
        HasNothing evp (env handle) conn maxLen nowUs) := by
  have asked : (∀ i < ls.conns.length, i ∈ listenerSendPolls evp env ls maxLen nowUs) ↔
      ls.sendIndex.toNat + ls.conns.length ≤ 2 ^ 32 ∨ ls.conns.length ∣ 2 ^ 32 := by
    rw [← Turns.place_all_iff ls.sendIndex.toNat_lt counted.le]
    refine forall₂_congr fun i inside => ?_
    unfold listenerSendPolls
    rw [listenerPolls_eq _ (by omega) called, List.mem_map]
    simp only [List.mem_range]
  refine ⟨asked, fun distinct either handle conn member => ?_⟩
  obtain ⟨i, inside, here⟩ := List.mem_iff_getElem.mp member
  exact listenerPolls_nothing _ distinct (by omega) called (asked.mpr either i inside)
    (by rw [List.getElem?_eq_getElem inside, here])

/-- An established connection without anything to send. -/
def quietConn : Conn := connSetEstablished (connCreate plainConfig true false) ConnId.empty

/-- A listener with three connections, the last of which is about to be closed. -/
def threeConns (sendIndex : UInt32) : Listener :=
  { listenerCreate plainListenerConfig true with
    conns := [(0, quietConn), (1, quietConn), (2, (connInitiateClose quietConn 0).2)]
    sendIndex := sendIndex }

/-- A listener with three connections that have nothing to send. -/
def threeQuiet : Listener :=
  { threeConns 0 with conns := [(0, quietConn), (1, quietConn), (2, quietConn)] }

/-- A listener whose connections have nothing to send asks all of them. -/
theorem listener_polls_quiet :
    ∃ next, listenerSend plainEvp (fun _ => plainEnv) threeQuiet 1200 0 = some (none, next) ∧
      ∀ i < 3, i ∈ listenerSendPolls plainEvp (fun _ => plainEnv) threeQuiet 1200 0 := by
  obtain ⟨⟨result, next⟩, called, found⟩ : ∃ sent,
      listenerSend plainEvp (fun _ => plainEnv) threeQuiet 1200 0 = some sent ∧ sent.1 = none := by
    decide +kernel
  cases found
  exact ⟨next, called, (listener_polls_all_iff (by decide) called).1.mpr (.inl (by decide))⟩

/-- When the counter wraps, the first of three connections is asked twice and the last, which has a
datagram to send, not at all. -/
theorem listener_polls_wrapped :
    (∃ next, listenerSend plainEvp (fun _ => plainEnv) (threeConns 0xFFFFFFFF) 1200 0 =
      some (none, next)) ∧
    listenerSendPolls plainEvp (fun _ => plainEnv) (threeConns 0xFFFFFFFF) 1200 0 = [0, 0, 1] ∧
    ∃ conn bytes next, (threeConns 0xFFFFFFFF).conns[2]? = some (2, conn) ∧
      connSend plainEvp plainEnv conn 1200 0 = some (.datagram bytes, next) := by
  obtain ⟨⟨result, next⟩, called, found⟩ : ∃ sent,
      listenerSend plainEvp (fun _ => plainEnv) (threeConns 0xFFFFFFFF) 1200 0 = some sent ∧
        sent.1 = none := by
    decide +kernel
  cases found
  have polls : listenerSendPolls plainEvp (fun _ => plainEnv) (threeConns 0xFFFFFFFF) 1200 0 =
      [0, 0, 1] := by
    decide +kernel
  obtain ⟨⟨outcome, later⟩, sent, filled, worked⟩ : ∃ sent,
      connSend plainEvp plainEnv (connInitiateClose quietConn 0).2 1200 0 = some sent ∧
        sent.1 ≠ .nothing ∧ sent.1 ≠ .failed := by
    decide +kernel
  cases outcome with
  | datagram bytes => exact ⟨⟨next, called⟩, polls, _, bytes, later, rfl, sent⟩
  | nothing => exact absurd rfl filled
  | failed => exact absurd rfl worked

end Nxp
