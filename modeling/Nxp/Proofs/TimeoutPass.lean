import Nxp.Proofs.Routing

/-! One pass over a listener's connections when a timer fires. -/

namespace Nxp

/-- The connections whose timers fire in a pass, as they are afterwards and in the order they do. -/
def listenerFires (nowUs : UInt64) : Nat → Nat → Listener → List (Nat × Conn)
  | 0, _, _ => []
  | left + 1, i, ls =>
    match ls.conns[i]? with
    | none => []
    | some (handle, conn) =>
      let conn := connOnTimeout conn nowUs
      let ls := ls.setConn handle conn
      (handle, conn) ::
        if conn.state = .closed then
          listenerFires nowUs left i (listenerRemoveConn ls handle conn)
        else listenerFires nowUs left (i + 1) ls

/-- An entry of the array whose timers have fired. -/
def fireEntry (nowUs : UInt64) (entry : Nat × Conn) : Nat × Conn :=
  (entry.1, connOnTimeout entry.2 nowUs)

/-- Whether the connection of an entry is still needed. -/
def openEntry (entry : Nat × Conn) : Bool := entry.2.state ≠ .closed

section Pass

open scoped List

variable {nowUs : UInt64} {ls : Listener} {i handle : Nat} {conn : Conn}

theorem setConn_split (distinct : Registry.Distinct ls.conns)
    (here : ls.conns[i]? = some (handle, conn)) (after : Conn) :
    (ls.setConn handle after).conns.take i = ls.conns.take i ∧
      (ls.setConn handle after).conns[i]? = some (handle, after) ∧
      (ls.setConn handle after).conns.drop (i + 1) = ls.conns.drop (i + 1) := by
  have same : (ls.setConn handle after).conns = ls.conns.set i (handle, after) :=
    distinct.modify_eq here fun _ => after
  rw [same]
  refine ⟨List.take_set_of_le (Nat.le_refl i), ?_, ?_⟩
  · exact List.getElem?_set_self (List.getElem?_eq_some_iff.mp here).1
  · rw [List.drop_set, if_pos (Nat.lt_succ_self i)]

/-- From an index on, a pass with enough turns fires every connection once and keeps those that are
not closed then; what stands before the index is left alone. -/
theorem listenerTimeoutLoop_pass (left i : Nat) {ls : Listener}
    (distinct : Registry.Distinct ls.conns) (enough : ls.conns.length ≤ i + left) :
    (listenerFires nowUs left i ls) ~ (ls.conns.drop i).map (fireEntry nowUs) ∧
      (listenerTimeoutLoop nowUs left i ls).conns ~
        ls.conns.take i ++ (listenerFires nowUs left i ls).filter openEntry := by
  induction left generalizing i ls with
  | zero =>
    rw [Nat.add_zero] at enough
    rw [listenerFires, listenerTimeoutLoop, List.drop_of_length_le enough,
      List.take_of_length_le enough]
    simp
  | succ left ih =>
    rw [listenerFires, listenerTimeoutLoop]
    cases here : ls.conns[i]? with
    | none =>
      have beyond := List.getElem?_eq_none_iff.mp here
      rw [List.drop_of_length_le beyond, List.take_of_length_le beyond]
      simp
    | some entry =>
      obtain ⟨handle, conn⟩ := entry
      simp only
      obtain ⟨inside, there⟩ := List.getElem?_eq_some_iff.mp here
      obtain ⟨front, at_i, back⟩ := setConn_split distinct here (connOnTimeout conn nowUs)
      have kept : Registry.Distinct (ls.setConn handle (connOnTimeout conn nowUs)).conns :=
        distinct.modify handle fun _ => connOnTimeout conn nowUs
      have size : (ls.setConn handle (connOnTimeout conn nowUs)).conns.length = ls.conns.length :=
        List.length_map _
      rw [List.drop_eq_getElem_cons inside, there, List.map_cons]
      generalize ls.setConn handle (connOnTimeout conn nowUs) = fired at *
      by_cases shut : (connOnTimeout conn nowUs).state = .closed
      · -- The last connection comes to the place of the one removed, or there is none.
        simp only [if_pos shut]
        obtain ⟨before, behind⟩ := kept.remove_split at_i
        have fewer : (listenerRemoveConn fired handle (connOnTimeout conn nowUs)).conns.length ≤
            i + left := by
          have order := (Registry.remove_perm kept (List.mem_of_getElem? at_i)).length_eq
          rw [List.length_cons] at order
          show (Registry.remove fired.conns handle).length ≤ _
          omega
        obtain ⟨fires, stays⟩ := ih i (kept.remove handle) fewer
        constructor
        · refine List.Perm.cons _ (fires.trans ?_)
          rw [← back]
          exact behind.map _
        · refine stays.trans ?_
          rw [List.filter_cons_of_neg (by simp [openEntry, shut])]
          exact List.Perm.of_eq (congrArg (· ++ _) (before.trans front))
      · simp only [if_neg shut]
        obtain ⟨fires, stays⟩ := @ih (i + 1) fired kept (by omega)
        constructor
        · refine List.Perm.cons _ ?_
          rw [← back]
          exact fires
        · refine stays.trans ?_
          rw [List.filter_cons_of_pos (by simp [openEntry, shut]), List.take_add_one, at_i, front]
          simp

/-- More turns than there are connections change nothing, as the pass ends by itself. -/
theorem listenerTimeoutLoop_ends (left more i : Nat) {ls : Listener}
    (distinct : Registry.Distinct ls.conns) (enough : ls.conns.length ≤ i + left) :
    listenerTimeoutLoop nowUs (left + more) i ls = listenerTimeoutLoop nowUs left i ls := by
  induction left generalizing i ls with
  | zero =>
    have beyond : ls.conns[i]? = none := List.getElem?_eq_none_iff.mpr (by omega)
    rw [Nat.zero_add, listenerTimeoutLoop]
    cases more with
    | zero => rfl
    | succ more => rw [listenerTimeoutLoop, beyond]
  | succ left ih =>
    rw [Nat.succ_add, listenerTimeoutLoop, listenerTimeoutLoop]
    cases here : ls.conns[i]? with
    | none => rfl
    | some entry =>
      obtain ⟨handle, conn⟩ := entry
      simp only
      obtain ⟨-, at_i, -⟩ := setConn_split distinct here (connOnTimeout conn nowUs)
      have kept : Registry.Distinct (ls.setConn handle (connOnTimeout conn nowUs)).conns :=
        distinct.modify handle fun _ => connOnTimeout conn nowUs
      have size : (ls.setConn handle (connOnTimeout conn nowUs)).conns.length = ls.conns.length :=
        List.length_map _
      have order := (Registry.remove_perm kept (List.mem_of_getElem? at_i)).length_eq
      rw [List.length_cons] at order
      split
      · refine ih i (kept.remove handle) ?_
        show (Registry.remove _ handle).length ≤ _
        omega
      · exact ih (i + 1) kept (by omega)

end Pass

/-- A listener has no more connections than it may. -/
def Listener.Within (ls : Listener) : Prop :=
  ls.conns.length ≤ ls.config.maxConnections.toNat

namespace Listener.Within

variable {ls : Listener}

theorem setConn (within : ls.Within) (handle : Nat) (conn : Conn) :
    (ls.setConn handle conn).Within := by
  unfold Within
  show (Registry.modify ls.conns handle fun _ => conn).length ≤ _
  rw [Registry.modify, List.length_map]
  exact within

theorem remove (within : ls.Within) (handle : Nat) (conn : Conn) :
    (listenerRemoveConn ls handle conn).Within :=
  (Registry.remove_length_le ls.conns handle).trans within

/-- A client that is accepted does not make a listener overfull. -/
theorem accepting {evp : Evp} {env : ListenerEnv} {hdr : PktLongHeader} {fromAddr : Addr}
    {nowUs : UInt64} {result : ErrorCode × Listener} (within : ls.Within)
    (accepting : Accepting evp env ls hdr fromAddr nowUs result) : result.2.Within := by
  have joined (token : Bytes) (connCap : UInt32) (conn : Conn)
      (below : ls.conns.length < ls.config.maxConnections.toNat) :
      ((ls.asked token fromAddr nowUs).joined env.allocMap connCap ls.nextHandle conn).Within := by
    show (ls.conns ++ [(ls.nextHandle, conn)]).length ≤ ls.config.maxConnections.toNat
    rw [List.length_append, List.length_singleton]
    exact below
  cases accepting with
  | unmade => exact within
  | unadded => exact within
  | withdrawn connCap bad below =>
    let conn := acceptConn env ls.config hdr fromAddr
    exact (joined _ connCap conn below).remove ls.nextHandle conn
  | begun connCap told made below =>
    have begun := (joined hdr.token connCap (acceptConn env ls.config hdr fromAddr) below).setConn
      ls.nextHandle
    cases told <;> exact begun _

theorem tends {next : Listener} (within : ls.Within) (tends : Tends ls next) :
    next.Within := by
  induction tends with
  | refl => exact within
  | tail _ last ih =>
    cases last with
    | turned sendIndex => exact ih
    | replaced live scid => exact ih.setConn _ _
    | removed live => exact ih.remove _ _

/-- No operation makes a listener overfull. -/
theorem step {evp : Evp} {ls next : Listener} {input : ListenerEnv × ListenerOp}
    (within : ls.Within) (stepped : listenerStep evp ls input = some next) : next.Within := by
  obtain ⟨env, op⟩ := input
  cases op with
  | recv data fromAddr nowUs =>
    cases stepped
    cases presented : listenerPresented env ls data fromAddr nowUs with
    | none =>
      have passed := listenerRecv_passed evp presented
      generalize (listenerRecv evp env ls data fromAddr nowUs).2 = next at passed
      cases passed with
      | dropped => exact within
      | forwarded rateLimiter => exact within.setConn _ _
    | some hdr =>
      rw [listenerRecv_presented evp presented, listenerCheckRate_only]
      simp only
      generalize (listenerCheckRate env ls fromAddr nowUs).2.rateLimiter = rateLimiter
      have limited : ({ ls with rateLimiter := rateLimiter } : Listener).Within := within
      split
      · exact within
      · exact limited.accepting (listenerAccept_accepting evp env _ hdr data fromAddr nowUs)
  | _ => exact within.tends (listenerStep_tends (by simp) stepped)

end Listener.Within

/-- A pass ends by itself and lets the timers of every connection fire once; exactly those that are
closed then are removed, and distinct ones that are not closed remain, no more than may be. -/
theorem timeout_pass_complete {evp : Evp} {config : ListenerConfig} {allocLimiter : Bool}
    {inputs : List (ListenerEnv × ListenerOp)} {ls : Listener}
    (reached : Machine.attempt (listenerStep evp) (listenerCreate config allocLimiter) inputs =
      some ls) (nowUs : UInt64) :
    let fires := listenerFires nowUs ls.conns.length 0 ls
    let after := listenerOnTimeout ls nowUs
    (∀ more, listenerTimeoutLoop nowUs (ls.conns.length + more) 0 ls = after) ∧
      fires.Perm (ls.conns.map (fireEntry nowUs)) ∧
      after.conns.Perm (fires.filter openEntry) ∧
      Registry.Distinct after.conns ∧ (∀ entry ∈ after.conns, entry.2.state ≠ .closed) ∧
      after.conns.length ≤ after.config.maxConnections.toNat := by
  have routed : Routed False ls.routes :=
    Machine.attempt_preserves (fun ls => Routed False ls.routes)
      (fun _ _ _ before stepped => listenerStep_routed before False.elim stepped)
      (Routed.create config allocLimiter) reached
  have within : ls.Within := Machine.attempt_preserves Listener.Within
    (fun _ _ _ before stepped => before.step stepped) (Nat.zero_le _) reached
  have enough : ls.conns.length ≤ 0 + ls.conns.length := by omega
  obtain ⟨fires, stays⟩ :=
    @listenerTimeoutLoop_pass nowUs ls.conns.length 0 ls routed.distinct enough
  rw [List.take_zero, List.nil_append] at stays
  have tends := listenerTimeoutLoop_tends nowUs ls.conns.length 0 ls
  refine ⟨fun more => listenerTimeoutLoop_ends _ more 0 routed.distinct enough, fires, stays,
    (routed.tends tends).distinct, ?_, within.tends tends⟩
  intro entry member
  have kept := (List.mem_filter.mp (stays.subset member)).2
  exact of_decide_eq_true kept

/-- Of two clients, the one that was silent for longer than it may be is removed. -/
theorem timeout_pass_two :
    twoAccepted.conns.length = 2 ∧
      (listenerOnTimeout twoAccepted 60000000).conns.map (fun entry => entry.2.scid) =
        [listenerGenerateCid plainListenerConfig (Vector.replicate 8 1)] := by
  have facts : twoAccepted.conns.length = 2 ∧
      ((twoAccepted.conns.map (fireEntry 60000000)).filter openEntry).map (fun entry =>
        entry.2.scid) = [listenerGenerateCid plainListenerConfig (Vector.replicate 8 1)] := by
    decide +kernel
  obtain ⟨-, fires, stays, -⟩ :=
    @timeout_pass_complete plainEvp plainListenerConfig true twoInitials twoAccepted rfl 60000000
  have left := (stays.trans (fires.filter openEntry)).map fun entry => entry.2.scid
  rw [facts.2] at left
  exact ⟨facts.1, left.eq_singleton⟩

end Nxp
