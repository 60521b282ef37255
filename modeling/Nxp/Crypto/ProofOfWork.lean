import Nxp.Crypto.Aead

/-! The hash puzzle set to a client before its handshake is taken on. -/

namespace Nxp

/-- The most leading zero bits a challenge may ask for. -/
def powMaxDifficulty : UInt8 := 32

/-- A puzzle set by the server. -/
structure PowChallenge where
  challenge : Vector UInt8 16
  difficulty : UInt8
  expiryUs : UInt64
  deriving DecidableEq, Repr

/-- A client's answer to a puzzle. -/
structure PowSolution where
  challenge : Vector UInt8 16
  nonce : Vector UInt8 8
  deriving DecidableEq, Repr

/-- Whether a hash starts with enough zero bits. -/
def powCheckHash (hash : Key) (difficulty : UInt8) : Bool :=
  if difficulty = 0 then true
  else if difficulty > powMaxDifficulty then false
  else
    let fullBytes := (difficulty / 8).toNat
    let remainingBits := difficulty % 8
    if (hash.toList.take fullBytes).any (· ≠ 0) then false
    else if remainingBits > 0 ∧ fullBytes < 32 then
      hash.getD fullBytes 0 &&& ((0xFF : UInt8) <<< (8 - remainingBits)) = 0
    else true

/-- A nonce as it lies in memory, the least significant octet first. -/
def nonceBytes (nonce : UInt64) : Vector UInt8 8 :=
  Vector.ofFn fun i => (nonce >>> UInt64.ofNat (8 * i)).toUInt8

/-- The hash of a challenge followed by a nonce. -/
def powHash (evp : Evp) (challenge : Vector UInt8 16) (nonce : Vector UInt8 8) : Option Key :=
  evp.sha256 (challenge.toList ++ nonce.toList)

/-- The search over the nonces, which has no answer yet when the turns given run out. -/
def powSearch (evp : Evp) (challenge : PowChallenge) (maxIterations : UInt64) :
    Nat → (nonce iterations : UInt64) → Option (Except ErrorCode PowSolution)
  | 0, _, _ => none
  | turns + 1, nonce, iterations =>
    match powHash evp challenge.challenge (nonceBytes nonce) with
    | none => some (.error .cryptoFail)
    | some hash =>
      if powCheckHash hash challenge.difficulty then
        some (.ok ⟨challenge.challenge, nonceBytes nonce⟩)
      else if maxIterations > 0 ∧ iterations + 1 ≥ maxIterations then
        some (.error .wouldBlock)
      else powSearch evp challenge maxIterations turns (nonce + 1) (iterations + 1)

/-- Solve a puzzle, with no limit on the iterations when it is zero. -/
def powSolve (evp : Evp) (challenge : PowChallenge) (maxIterations : UInt64) (turns : Nat) :
    Option (Except ErrorCode PowSolution) :=
  powSearch evp challenge maxIterations turns 0 0

/-- Check a client's answer. -/
def powVerify (evp : Evp) (challenge : PowChallenge) (solution : PowSolution) (nowUs : UInt64) :
    ErrorCode :=
  if challenge.challenge ≠ solution.challenge then .invalidArgument
  else if nowUs > challenge.expiryUs then .tokenInvalid
  else
    match powHash evp solution.challenge solution.nonce with
    | none => .cryptoFail
    | some hash => if powCheckHash hash challenge.difficulty then .ok else .cryptoFail

end Nxp
