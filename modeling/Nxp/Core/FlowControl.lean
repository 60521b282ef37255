import Nxp.Types

/-! Credit accounting shared by a connection and by each of its streams. -/

namespace Nxp

/-- Credit granted by the peer for sending, and granted to the peer for receiving. -/
structure FlowCtrl where
  peerMaxData : UInt64
  dataSent : UInt64
  localMaxData : UInt64
  dataRecv : UInt64
  maxDataNext : UInt64
  sendMaxData : Bool
  deriving DecidableEq, Repr, Inhabited

/-- Fresh accounting under the two initial limits. -/
def flowInit (localMax peerMax : UInt64) : FlowCtrl where
  peerMaxData := peerMax
  dataSent := 0
  localMaxData := localMax
  dataRecv := 0
  maxDataNext := localMax
  sendMaxData := false

/-- Whether this many more octets stay within the peer's limit. -/
def flowCanSend (fc : FlowCtrl) (len : UInt64) : Bool :=
  fc.dataSent + len ≤ fc.peerMaxData

/-- Charge octets put on the wire. -/
def flowOnSend (fc : FlowCtrl) (len : UInt64) : FlowCtrl :=
  { fc with dataSent := fc.dataSent + len }

/-- Count octets that arrived. -/
def flowOnRecv (fc : FlowCtrl) (len : UInt64) : FlowCtrl :=
  { fc with dataRecv := fc.dataRecv + len }

/-- Decide, when the application reads, whether a larger limit should be advertised. -/
def flowOnConsume (fc : FlowCtrl) : FlowCtrl :=
  -- The length read is ignored: everything received counts as consumed.
  let consumed := fc.dataRecv
  let window := fc.localMaxData
  if consumed > window / 2 then
    let newMax := fc.dataRecv + window
    if newMax > fc.maxDataNext then
      { fc with maxDataNext := newMax, sendMaxData := true }
    else fc
  else fc

/-- Adopt a limit announced by the peer, which can only grow. -/
def flowSetPeerMax (fc : FlowCtrl) (maxData : UInt64) : FlowCtrl :=
  if maxData > fc.peerMaxData then { fc with peerMaxData := maxData } else fc

/-- Whether a larger limit is waiting to be advertised. -/
def flowShouldUpdate (fc : FlowCtrl) : Bool := fc.sendMaxData

/-- Take the limit to advertise and start enforcing it. -/
def flowGetUpdate (fc : FlowCtrl) : UInt64 × FlowCtrl :=
  (fc.maxDataNext, { fc with sendMaxData := false, localMaxData := fc.maxDataNext })

/-- Counting arrivals leaves the enforced limit alone. -/
@[simp] theorem flowOnRecv_localMaxData (fc : FlowCtrl) (len : UInt64) :
    (flowOnRecv fc len).localMaxData = fc.localMaxData := rfl

/-- A limit is at least what it is set to, and at least what it was. -/
theorem flowSetPeerMax_le (fc : FlowCtrl) (limit : UInt64) :
    limit ≤ (flowSetPeerMax fc limit).peerMaxData ∧
      fc.peerMaxData ≤ (flowSetPeerMax fc limit).peerMaxData := by
  unfold flowSetPeerMax
  split
  · rename_i larger
    exact ⟨UInt64.le_refl _, UInt64.le_of_lt larger⟩
  · rename_i reached
    exact ⟨UInt64.not_lt.mp reached, UInt64.le_refl _⟩

end Nxp
