import Nxp.Proofs.AckArithmetic
import Nxp.Proofs.AckFidelity
import Nxp.Proofs.AddressValidation
import Nxp.Proofs.ArenaAccounts
import Nxp.Proofs.Authentication
import Nxp.Proofs.BbrPhases
import Nxp.Proofs.CcSamples
import Nxp.Proofs.Checksum
import Nxp.Proofs.CidPool
import Nxp.Proofs.Closing
import Nxp.Proofs.Continuity
import Nxp.Proofs.CreditOnce
import Nxp.Proofs.CreditReturn
import Nxp.Proofs.Delivery
import Nxp.Proofs.FinWrites
import Nxp.Proofs.FlowWindow
import Nxp.Proofs.FrameRoundTrip
import Nxp.Proofs.HeaderRoundTrip
import Nxp.Proofs.HeartbeatDeath
import Nxp.Proofs.HeartbeatEcho
import Nxp.Proofs.HelloTrace
import Nxp.Proofs.IdlePolls
import Nxp.Proofs.InFlight
import Nxp.Proofs.Lifecycles
import Nxp.Proofs.LiveChallenges
import Nxp.Proofs.LossJustified
import Nxp.Proofs.LossTimer
import Nxp.Proofs.LostControl
import Nxp.Proofs.MinQueue
import Nxp.Proofs.NewestAcked
import Nxp.Proofs.Numbering
import Nxp.Proofs.OneConnection
import Nxp.Proofs.Opening
import Nxp.Proofs.Output
import Nxp.Proofs.PacketNumbers
import Nxp.Proofs.PathValidation
import Nxp.Proofs.Polling
import Nxp.Proofs.PrefixCode
import Nxp.Proofs.Quiet
import Nxp.Proofs.RateLimit
import Nxp.Proofs.ReceivedRanges
import Nxp.Proofs.RecvBuffer
import Nxp.Proofs.RecvLimit
import Nxp.Proofs.Rejection
import Nxp.Proofs.RetiredCids
import Nxp.Proofs.Retransmission
import Nxp.Proofs.RoundRobin
import Nxp.Proofs.Rounds
import Nxp.Proofs.RttBounds
import Nxp.Proofs.Scheduled
import Nxp.Proofs.SendLimit
import Nxp.Proofs.SessionImport
import Nxp.Proofs.Silence
import Nxp.Proofs.SpscFifo
import Nxp.Proofs.StartAgain
import Nxp.Proofs.Statistics
import Nxp.Proofs.StreamAllowance
import Nxp.Proofs.StreamLimit
import Nxp.Proofs.StreamNames
import Nxp.Proofs.TcpMessages
import Nxp.Proofs.TicketReplay
import Nxp.Proofs.TimeoutPass
import Nxp.Proofs.TokenBuckets
import Nxp.Proofs.Tokens
import Nxp.Proofs.TransportParams
import Nxp.Proofs.WindowedMax
import Nxp.Proofs.Withheld
import Nxp.Proofs.Work
import Nxp.Proofs.WsMessages
