import Kv260Sigv.Library.Outcome
import Kv260Sigv.Parser.Daemon
import Kv260Sigv.Parser.Reference
import Kv260Sigv.Library.Reader
import Kv260Sigv.Parser.Grammar
import Kv260Sigv.Parser.Recognition
import Kv260Sigv.Parser.Simulation
import Kv260Sigv.Parser.Agreement
import Kv260Sigv.Library.Clocked
import Kv260Sigv.Library.Limbs
import Kv260Sigv.Library.Registers
import Kv260Sigv.Rtl.Fe25519MulWideCore
import Kv260Sigv.Rtl.Fe25519MulWideResult
import Kv260Sigv.Rtl.Fe25519MulCore
import Kv260Sigv.Rtl.Fe25519MulResult
import Kv260Sigv.Rtl.JobWords
import Kv260Sigv.System.Bench
import Kv260Sigv.Library.Scoreboard
import Kv260Sigv.System.Dispatch
import Kv260Sigv.System.Batch
import Kv260Sigv.Rtl.Sha512CompressCore
import Kv260Sigv.Rtl.Sha512StreamEngine
import Kv260Sigv.System.MessagePort
import Kv260Sigv.Daemon.Accelerator
import Kv260Sigv.Rtl.SigvAxiRegs
import Kv260Sigv.System.Device
import Kv260Sigv.Rtl.SigvAxiRegsEffect
import Kv260Sigv.Daemon.Calls
import Kv260Sigv.System.HostAccess
import Kv260Sigv.System.Launch
import Kv260Sigv.System.Session
import Kv260Sigv.System.Master
import Kv260Sigv.System.OwnConfig
import Kv260Sigv.Daemon.Payload
import Kv260Sigv.System.Contents
import Kv260Sigv.Daemon.Response
import Kv260Sigv.System.Verdicts
import Kv260Sigv.System.EndToEnd
import Kv260Sigv.Rtl.FieldHelpers
import Kv260Sigv.Rtl.Ed25519PointCore
import Kv260Sigv.Parser.Acceptance
import Kv260Sigv.System.CompletionSnapshot
import Kv260Sigv.System.ControlPlane
import Kv260Sigv.System.Polling
import Kv260Sigv.System.FrozenConfig
import Kv260Sigv.System.CompletionIrq
import Kv260Sigv.System.Limits
import Kv260Sigv.Library.Sha512
import Kv260Sigv.Rtl.Sha512CompressResult
import Kv260Sigv.Rtl.Sha512StreamBytes
import Kv260Sigv.Rtl.Sha512StreamResult
import Kv260Sigv.Library.Sharing
import Kv260Sigv.Host.Smoke
import Kv260Sigv.Daemon.Conduct
import Kv260Sigv.Host.SmokeCalls
import Kv260Sigv.System.Origins
import Kv260Sigv.System.SharedDevice
import Kv260Sigv.Rtl.ScalarReduceModL
import Kv260Sigv.Rtl.ScalarWnaf4Recode
import Kv260Sigv.Rtl.Ed25519BasepointTable
import Kv260Sigv.Rtl.Ed25519VerifyEngine
import Kv260Sigv.Library.Handshake
import Kv260Sigv.Rtl.Ed25519PointRun
import Kv260Sigv.Rtl.Ed25519VerifyControl
import Kv260Sigv.Rtl.Ed25519VerifyRun
import Kv260Sigv.Rtl.VerifyModes
import Kv260Sigv.Parser.CompactU16
import Kv260Sigv.Daemon.SingleFlight
import Kv260Sigv.Library.Threads
import Kv260Sigv.Daemon.BlockWrite
import Kv260Sigv.Daemon.MappedBytes
import Kv260Sigv.Library.Ledger
import Kv260Sigv.Rtl.SigvAxiRegsBus
import Kv260Sigv.System.Delays
import Kv260Sigv.System.Watchdog
import Kv260Sigv.Rtl.SigvKv260BringupCore
import Kv260Sigv.System.BringupContract
import Kv260Sigv.Library.Primality
import Kv260Sigv.Library.Edwards
import Kv260Sigv.Rtl.Ed25519Field
import Kv260Sigv.Rtl.Ed25519PointAdd
import Kv260Sigv.Library.QuotientRoot
import Kv260Sigv.Rtl.Ed25519PointPower
import Kv260Sigv.Rtl.Ed25519PointDecompress
import Kv260Sigv.Rtl.Ed25519PointProgress
import Kv260Sigv.Rtl.Sha512StreamProgress
import Kv260Sigv.Library.Wnaf
import Kv260Sigv.Rtl.ScalarWnaf4RecodeResult
import Kv260Sigv.Rtl.ScalarReduceModLResult
import Kv260Sigv.Rtl.FieldCopies
import Kv260Sigv.Library.Radix
import Kv260Sigv.Parser.Base58
import Kv260Sigv.Rtl.Ed25519VerifyProgress
import Kv260Sigv.Rtl.Ed25519VerifyRecode
import Kv260Sigv.Rtl.Ed25519VerifyGroup
import Kv260Sigv.Rtl.Ed25519VerifyJoint
import Kv260Sigv.Library.EdwardsGroup
