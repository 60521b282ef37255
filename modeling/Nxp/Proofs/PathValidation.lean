import Nxp.Core.PathEvents

/-! A connection moves only to an address that answered the challenge sent to it. -/

namespace Nxp

variable (config : ConnConfig) (isServer allocCc : Bool) {conn : Conn} {history : List PathEvent}

/-- The validation of an address by some octets was started in a history, the call that started it
having drawn them, and no event of the history has ended it since. -/
def Underway (conn : Conn) (history : List PathEvent) (addr : Addr) (data : Vector UInt8 8) :
    Prop :=
  ∃ earlier sentAt later,
    history = earlier ++ .addrChange addr (some data) sentAt :: later ∧
      (Machine.run pathStep conn earlier).migration.migrationInProgress = false ∧
      (Machine.run pathStep conn earlier).migration.enabled = true ∧
      ∀ first event rest, later = first ++ event :: rest →
        event.ends (Machine.run pathStep conn
          (earlier ++ .addrChange addr (some data) sentAt :: first)) = false

theorem Underway.extend {addr : Addr}
    {data : Vector UInt8 8} (underway : Underway conn history addr data) {event : PathEvent}
    (quiet : event.ends (Machine.run pathStep conn history) = false) :
    Underway conn (history ++ [event]) addr data := by
  obtain ⟨earlier, sentAt, later, rfl, free, allowed, standing⟩ := underway
  refine ⟨earlier, sentAt, later ++ [event], by simp, free, allowed, ?_⟩
  intro first other rest parted
  -- The event in question is the last one or one of those before it.
  rcases List.eq_nil_or_concat rest with rfl | ⟨rest, last, rfl⟩
  · obtain ⟨rfl, same⟩ := List.append_inj' parted rfl
    cases same
    exact quiet
  · rw [List.concat_eq_append, ← List.cons_append, ← List.append_assoc] at parted
    exact standing first other rest (List.append_inj' parted rfl).1

/-- A connection whose outstanding challenge is that of a validation under way. -/
structure Awaited (conn : Conn) (history : List PathEvent) (now : Conn) : Prop where
  allowed : now.migration.enabled = true
  agree : now.migration.migrationInProgress = now.migration.newPath.challengePending
  started : now.migration.newPath.challengePending = true →
    Underway conn history now.migration.newPath.addr now.migration.newPath.challengeData

theorem Awaited.of_paths {now : Conn} {paths : Paths}
    (same : now.paths = paths) (allowed : paths.enabled = true)
    (agree : paths.migrationInProgress = paths.newPath.challengePending)
    (started : paths.newPath.challengePending = true →
      Underway conn history paths.newPath.addr paths.newPath.challengeData) :
    Awaited conn history now := by
  subst same
  exact ⟨allowed, agree, started⟩

theorem awaited_create :
    Awaited (connCreate config isServer allocCc) [] (connCreate config isServer allocCc) :=
  ⟨rfl, rfl, fun pending => Bool.noConfusion pending⟩

/-- One event keeps the account of what is awaited. -/
theorem Awaited.step (event : PathEvent)
    (awaited : Awaited conn history (Machine.run pathStep conn history)) :
    Awaited conn (history ++ [event]) (pathStep (Machine.run pathStep conn history) event) := by
  have moved := pathStep_moved (Machine.run pathStep conn history) event
  cases moved with
  | same quiet same =>
    exact .of_paths same awaited.allowed awaited.agree fun pending =>
      (awaited.started pending).extend quiet
  | drawn free allowed moved =>
    -- Without a validation no challenge is outstanding, and none was drawn.
    have idle : (Machine.run pathStep conn history).migration.newPath.challengePending = false :=
      awaited.agree.symm.trans free
    exact .of_paths moved allowed awaited.agree fun pending =>
      absurd (idle.symm.trans pending) Bool.false_ne_true
  | started free allowed moved =>
    refine .of_paths moved allowed rfl fun _ => ⟨history, _, [], rfl, free, allowed, ?_⟩
    intro first other rest parted
    simp at parted
  | validated pending answered moved =>
    exact .of_paths moved awaited.allowed rfl fun pending => Bool.noConfusion pending
  | dropped moved =>
    exact .of_paths moved awaited.allowed rfl fun pending => Bool.noConfusion pending

/-- And so does every run. -/
theorem awaited_run (history : List PathEvent) :
    Awaited (connCreate config isServer allocCc) history
      (Machine.run pathStep (connCreate config isServer allocCc) history) :=
  Machine.run_history (Awaited (connCreate config isServer allocCc))
    (awaited_create config isServer allocCc) (fun _ event awaited => awaited.step event) history

/-- Whenever the peer's address or that of the current path changes, both become the address of a
validation under way, by the very octets that are being taken. -/
theorem moves_validated (history : List PathEvent) (event : PathEvent) {next : Conn}
    (before : conn = Machine.run pathStep (connCreate config isServer allocCc) history)
    (after : next = pathStep conn event) (moved : next.peerAddr ≠ conn.peerAddr ∨
      next.migration.currentPath.addr ≠ conn.migration.currentPath.addr) :
    ∃ env data nowUs addr, event = .frame env (.pathResponse data) nowUs ∧
      next.peerAddr = addr ∧ next.migration.currentPath.addr = addr ∧
      Underway (connCreate config isServer allocCc) history addr data := by
  have awaited := awaited_run config isServer allocCc history
  rw [← before] at awaited
  have step := pathStep_moved conn event
  rw [← after] at step
  -- Only an answer to the challenge changes one of the two addresses.
  have still (same : next.peerAddr = conn.peerAddr)
      (path : next.migration.currentPath = conn.migration.currentPath) : False :=
    moved.elim (fun changed => changed same) fun changed => changed (congrArg PathState.addr path)
  cases step with
  | same _ same =>
    exact (still (congrArg Paths.peerAddr same :) (congrArg Paths.currentPath same :)).elim
  | drawn _ _ same =>
    exact (still (congrArg Paths.peerAddr same :) (congrArg Paths.currentPath same :)).elim
  | started _ _ same =>
    exact (still (congrArg Paths.peerAddr same :) (congrArg Paths.currentPath same :)).elim
  | dropped same =>
    exact (still (congrArg Paths.peerAddr same :) (congrArg Paths.currentPath same :)).elim
  | validated pending answered same =>
    exact ⟨_, _, _, conn.migration.newPath.addr, rfl, (congrArg Paths.peerAddr same :),
      (congrArg (fun paths => paths.currentPath.addr) same :),
      answered ▸ awaited.started pending⟩

/-- A connection whose peer moves and answers the challenge sent to its new address. -/
theorem moves_validated_once :
    ∃ env data nowUs addr,
      (PathEvent.frame plainEnv (.pathResponse (Vector.replicate 8 5)) 2 =
        .frame env (.pathResponse data) nowUs) ∧
      (⟨Vector.replicate 28 9⟩ : Addr) = addr ∧ (⟨Vector.replicate 28 9⟩ : Addr) = addr ∧
      Underway (connCreate plainConfig false true)
        [.addrChange ⟨Vector.replicate 28 9⟩ (some (Vector.replicate 8 5)) 1] addr data :=
  moves_validated plainConfig false true
    [.addrChange ⟨Vector.replicate 28 9⟩ (some (Vector.replicate 8 5)) 1]
    (.frame plainEnv (.pathResponse (Vector.replicate 8 5)) 2) rfl rfl (.inl (by decide +kernel))

end Nxp
