import Nxp.Core.ListenerLaws
import Nxp.Crypto.RetryToken

/-! A listener that asks for tokens accepts any client that sends one, whatever it says. -/

namespace Nxp

variable {evp : Evp} {ls next : Listener} {serverKey : Key} {input : ListenerEnv × ListenerOp}

/-- A token that is good for an address, with some identifier. -/
def ValidToken (evp : Evp) (serverKey : Key) (fromAddr : Addr) (token : Bytes) (nowUs : UInt64) :
    Prop :=
  ∃ originalDcid, retryTokenValidate evp serverKey fromAddr originalDcid token nowUs = .ok

/-- Every client that was ever accepted, or got a connection, had a token good for its address. -/
def AddressesValidated (evp : Evp) (serverKey : Key) (ls : Listener) : Prop :=
  ∀ token fromAddr nowUs,
    .accepting token fromAddr nowUs ∈ ls.trace ∨
      (∃ handle, .created handle token fromAddr nowUs ∈ ls.trace) →
    ValidToken evp serverKey fromAddr token nowUs

/-- A datagram that asks for a connection with a token that is not good for its address. -/
def Forged (evp : Evp) (serverKey : Key) (ls : Listener) : ListenerEnv × ListenerOp → Prop
  | (env, .recv data fromAddr nowUs) =>
    ∃ hdr, listenerPresented env ls data fromAddr nowUs = some hdr ∧ hdr.token ≠ [] ∧
      ¬ ValidToken evp serverKey fromAddr hdr.token nowUs
  | _ => False

/-- Tokens are asked for, and connections are made only for clients that are accepted. -/
structure Asking (ls : Listener) : Prop where
  requireRetry : ls.config.requireRetry = true
  accepted : ∀ handle token fromAddr nowUs, .created handle token fromAddr nowUs ∈ ls.trace →
    .accepting token fromAddr nowUs ∈ ls.trace

/-- The configuration and what is seen stay the same. -/
def Unseen (ls next : Listener) : Prop := next.config = ls.config ∧ next.trace = ls.trace

theorem Tends.unseen (tends : Tends ls next) : Unseen ls next := by
  induction tends with
  | refl => exact ⟨rfl, rfl⟩
  | tail _ last ih => cases last <;> exact ih

/-- What is seen of a client that is accepted: the attempt, then at most a connection for it. -/
structure AcceptSeen (token : Bytes) (fromAddr : Addr) (nowUs : UInt64) (ls next : Listener) :
    Prop where
  config : next.config = ls.config
  trace : ∃ later, next.trace = ls.trace ++ .accepting token fromAddr nowUs :: later ∧
    ∀ event ∈ later, (∃ handle, event = .created handle token fromAddr nowUs) ∨
      ∃ handle, event = .newConn handle

theorem listenerAccept_seen (evp : Evp) (env : ListenerEnv) (ls : Listener) (hdr : PktLongHeader)
    (data : Bytes) (fromAddr : Addr) (nowUs : UInt64) :
    AcceptSeen hdr.token fromAddr nowUs ls
      (listenerAccept evp env ls hdr data fromAddr nowUs).2 := by
  have accepting := listenerAccept_accepting evp env ls hdr data fromAddr nowUs
  generalize listenerAccept evp env ls hdr data fromAddr nowUs = result at accepting
  have made : (ls.asked hdr.token fromAddr nowUs).trace = ls.trace ++
      [.accepting hdr.token fromAddr nowUs, .created ls.nextHandle hdr.token fromAddr nowUs] :=
    List.append_assoc ..
  cases accepting with
  | unmade => exact ⟨rfl, [], rfl, nofun⟩
  | unadded => exact ⟨rfl, [.created ls.nextHandle hdr.token fromAddr nowUs], made, by simp⟩
  | withdrawn => exact ⟨rfl, [.created ls.nextHandle hdr.token fromAddr nowUs], made, by simp⟩
  | begun connCap told =>
    cases told with
    | false => exact ⟨rfl, [.created ls.nextHandle hdr.token fromAddr nowUs], made, by simp⟩
    | true =>
      refine ⟨rfl, [.created ls.nextHandle hdr.token fromAddr nowUs, .newConn ls.nextHandle], ?_,
        by simp⟩
      exact (congrArg (· ++ [_]) made).trans (List.append_assoc ..)

/-- What is seen of a datagram: an attempt if it asks for a connection with some token, else
nothing. -/
theorem listenerRecv_seen (evp : Evp) (env : ListenerEnv) (data : Bytes) (fromAddr : Addr)
    (nowUs : UInt64) (retry : ls.config.requireRetry = true) :
    (∃ hdr, listenerPresented env ls data fromAddr nowUs = some hdr ∧ hdr.token ≠ [] ∧
      AcceptSeen hdr.token fromAddr nowUs ls (listenerRecv evp env ls data fromAddr nowUs).2) ∨
    (∀ hdr, listenerPresented env ls data fromAddr nowUs = some hdr → hdr.token = []) ∧
      Unseen ls (listenerRecv evp env ls data fromAddr nowUs).2 := by
  cases presented : listenerPresented env ls data fromAddr nowUs with
  | none =>
    have unmoved := listenerRecv_unmoved evp presented
    exact .inr ⟨by simp, unmoved.config, unmoved.trace⟩
  | some hdr =>
    have only := listenerCheckRate_only env ls fromAddr nowUs
    have same : (listenerCheckRate env ls fromAddr nowUs).2.config = ls.config ∧
        (listenerCheckRate env ls fromAddr nowUs).2.trace = ls.trace :=
      ⟨(congrArg Listener.config only :), (congrArg Listener.trace only :)⟩
    rw [listenerRecv_presented evp presented]
    by_cases empty : hdr.token = []
    · right
      simp only [retry, empty, List.length_nil, true_and, if_true]
      refine ⟨fun other equal => ?_, same⟩
      cases equal
      exact empty
    · left
      have long : hdr.token.length ≠ 0 := fun none => empty (List.length_eq_zero_iff.mp none)
      simp only [long, and_false, if_false]
      have seen := listenerAccept_seen evp env (listenerCheckRate env ls fromAddr nowUs).2 hdr data
        fromAddr nowUs
      obtain ⟨later, grown, events⟩ := seen.trace
      refine ⟨hdr, rfl, empty, seen.config.trans same.1, later, ?_, events⟩
      rw [grown, same.2]

theorem Asking.unseen (asking : Asking ls) (unseen : Unseen ls next) :
    Asking next := by
  refine ⟨?_, ?_⟩
  · rw [unseen.1]
    exact asking.requireRetry
  · rw [unseen.2]
    exact asking.accepted

theorem listenerStep_asking (asking : Asking ls)
    (stepped : listenerStep evp ls input = some next) : Asking next := by
  obtain ⟨env, op⟩ := input
  by_cases datagram : ∃ data fromAddr nowUs, op = .recv data fromAddr nowUs
  · obtain ⟨data, fromAddr, nowUs, rfl⟩ := datagram
    cases stepped
    rcases listenerRecv_seen evp env data fromAddr nowUs asking.requireRetry with
      ⟨hdr, -, -, seen⟩ | ⟨-, unseen⟩
    · obtain ⟨later, grown, events⟩ := seen.trace
      refine ⟨seen.config ▸ asking.requireRetry, ?_⟩
      intro handle token other time made
      rw [grown, List.mem_append, List.mem_cons] at made ⊢
      -- A connection is made for the client whose attempt was just seen.
      rcases made with before | first | after
      · exact .inl (asking.accepted handle token other time before)
      · cases first
      · rcases events _ after with ⟨_, same⟩ | ⟨_, same⟩
        · cases same
          exact .inr (.inl rfl)
        · cases same
    · exact asking.unseen unseen
  · exact asking.unseen (listenerStep_tends
      (fun data fromAddr nowUs same => datagram ⟨data, fromAddr, nowUs, same⟩) stepped).unseen

theorem AddressesValidated.unseen (unseen : Unseen ls next) :
    AddressesValidated evp serverKey next ↔ AddressesValidated evp serverKey ls := by
  unfold AddressesValidated
  rw [unseen.2]

/-- After an attempt is seen, every client was validated exactly if all before were and this one. -/
theorem AddressesValidated.seen {token : Bytes} {fromAddr : Addr} {nowUs : UInt64}
    (seen : AcceptSeen token fromAddr nowUs ls next) :
    AddressesValidated evp serverKey next ↔
      AddressesValidated evp serverKey ls ∧ ValidToken evp serverKey fromAddr token nowUs := by
  obtain ⟨later, grown, events⟩ := seen.trace
  constructor
  · intro valid
    refine ⟨fun other addr time before => valid other addr time ?_, valid _ _ _ (.inl ?_)⟩
    · rw [grown]
      rcases before with attempt | ⟨handle, made⟩
      · exact .inl (List.mem_append_left _ attempt)
      · exact .inr ⟨handle, List.mem_append_left _ made⟩
    · rw [grown]
      simp
  · rintro ⟨valid, good⟩ other addr time happened
    rw [grown] at happened
    rcases happened with attempt | ⟨handle, made⟩
    · rcases List.mem_append.mp attempt with before | now
      · exact valid other addr time (.inl before)
      · rcases List.mem_cons.mp now with same | after
        · cases same
          exact good
        · rcases events _ after with ⟨_, same⟩ | ⟨_, same⟩ <;> cases same
    · rcases List.mem_append.mp made with before | now
      · exact valid other addr time (.inr ⟨handle, before⟩)
      · rcases List.mem_cons.mp now with same | after
        · cases same
        · rcases events _ after with ⟨_, same⟩ | ⟨_, same⟩
          · cases same
            exact good
          · cases same

/-- A step leaves every client validated exactly if they were and it is no forged datagram. -/
theorem listenerStep_validated (asking : Asking ls)
    (stepped : listenerStep evp ls input = some next) :
    AddressesValidated evp serverKey next ↔
      AddressesValidated evp serverKey ls ∧ ¬ Forged evp serverKey ls input := by
  obtain ⟨env, op⟩ := input
  by_cases datagram : ∃ data fromAddr nowUs, op = .recv data fromAddr nowUs
  · obtain ⟨data, fromAddr, nowUs, rfl⟩ := datagram
    cases stepped
    rcases listenerRecv_seen evp env data fromAddr nowUs asking.requireRetry with
      ⟨hdr, presented, token, seen⟩ | ⟨empty, unseen⟩
    · rw [AddressesValidated.seen seen]
      apply and_congr_right
      intro _
      constructor
      · rintro good ⟨other, same, -, bad⟩
        rw [presented] at same
        cases same
        exact bad good
      · intro honest
        by_contra bad
        exact honest ⟨hdr, presented, token, bad⟩
    · rw [AddressesValidated.unseen unseen]
      refine ⟨fun valid => ⟨valid, ?_⟩, And.left⟩
      rintro ⟨hdr, presented, token, -⟩
      exact token (empty hdr presented)
  · have other (data fromAddr nowUs) : op ≠ .recv data fromAddr nowUs :=
      fun same => datagram ⟨data, fromAddr, nowUs, same⟩
    rw [AddressesValidated.unseen (listenerStep_tends other stepped).unseen]
    refine ⟨fun valid => ⟨valid, ?_⟩, And.left⟩
    cases op with
    | recv data fromAddr nowUs => exact absurd rfl (other data fromAddr nowUs)
    | _ => exact id

/-- Whatever the key, a listener that asks for tokens has accepted only clients with tokens good for
their addresses exactly if no forged token was ever presented to it. -/
theorem addresses_validated (evp : Evp) (serverKey : Key) {config : ListenerConfig}
    (retry : config.requireRetry = true) (allocLimiter : Bool)
    {inputs : List (ListenerEnv × ListenerOp)} {ls : Listener}
    (reached : Machine.attempt (listenerStep evp) (listenerCreate config allocLimiter) inputs =
      some ls) :
    AddressesValidated evp serverKey ls ↔
      Machine.Throughout (listenerStep evp) (fun ls input => ¬ Forged evp serverKey ls input)
        (listenerCreate config allocLimiter) inputs := by
  -- A forged token spoils the property, nothing else does, and nothing mends it.
  refine Machine.attempt_iff (Forged evp serverKey) Asking (AddressesValidated evp serverKey)
    (fun _ _ _ asking stepped => listenerStep_asking asking stepped) ?_ ?_ ?_ ?_ ?_ reached
  · intro _ _ _ asking valid honest stepped
    exact (listenerStep_validated asking stepped).mpr ⟨valid, honest⟩
  · intro _ _ _ asking forged stepped valid
    exact ((listenerStep_validated asking stepped).mp valid).2 forged
  · intro _ _ _ asking invalid stepped valid
    exact invalid ((listenerStep_validated asking stepped).mp valid).1
  · exact ⟨retry, by simp [listenerCreate]⟩
  · intro token fromAddr nowUs happened
    simp [listenerCreate] at happened

/-- A client's first datagram, with a token behind its length. -/
def initialWithToken (tokenLen token : Bytes) : Bytes :=
  [0xC0, 0x4E, 0x58, 0x50, 0x01, 0x01, 0xAA, 0x00] ++ tokenLen ++ token ++ [0x01, 0x00]

/-- A listener that asks for tokens. -/
def retryConfig : ListenerConfig := { plainListenerConfig with requireRetry := true }

/-- A token made for the address of all zeros at time zero, under a constant tag. -/
def zeroToken : Bytes :=
  List.replicate 12 0 ++ retryTokenPlaintext Addr.zero ConnId.empty 0 ++ List.replicate 16 0

/-- A new listener that asks for tokens, after a client's first datagram. -/
def presentedTo (data : Bytes) : Listener :=
  (listenerRecv plainEvp (plainListenerEnv (Vector.replicate 8 0)) (listenerCreate retryConfig true)
    data Addr.zero 1).2

/-- A client with a good token is accepted, and no other is. -/
theorem addresses_validated_one :
    (presentedTo (initialWithToken [0x40, 0x42] zeroToken)).conns.length = 1 ∧
      AddressesValidated plainEvp (Vector.replicate 32 0)
        (presentedTo (initialWithToken [0x40, 0x42] zeroToken)) := by
  refine ⟨by decide +kernel, ?_⟩
  refine (@addresses_validated plainEvp (Vector.replicate 32 0) retryConfig rfl true
    [(plainListenerEnv (Vector.replicate 8 0),
      .recv (initialWithToken [0x40, 0x42] zeroToken) Addr.zero 1)] _ rfl).mpr
    ⟨?_, fun _ _ => trivial⟩
  -- The token in the header is the one that was made.
  rintro ⟨hdr, presented, -, bad⟩
  have token : (listenerPresented (plainListenerEnv (Vector.replicate 8 0))
      (listenerCreate retryConfig true) (initialWithToken [0x40, 0x42] zeroToken) Addr.zero 1).map
        (·.token) = some zeroToken := by decide +kernel
  rw [presented] at token
  have same : hdr.token = zeroToken := Option.some.inj token
  rw [same] at bad
  exact bad ⟨ConnId.empty, by decide +kernel⟩

/-- A client is accepted with a token of one arbitrary octet, which no key and no identifier make
good. -/
theorem arbitrary_token_accepted :
    (presentedTo (initialWithToken [0x01] [0xFF])).conns.length = 1 ∧
      .accepting [0xFF] Addr.zero 1 ∈ (presentedTo (initialWithToken [0x01] [0xFF])).trace ∧
      ∀ serverKey, ¬ ValidToken plainEvp serverKey Addr.zero [0xFF] 1 := by
  refine ⟨by decide +kernel, by decide +kernel, ?_⟩
  rintro serverKey ⟨originalDcid, accepted⟩
  -- The token is shorter than any that was made.
  simp [retryTokenValidate, retryTokenFixedLen, aeadTagLen] at accepted

end Nxp
