import Interclus.Verifier.Noninterference
import Interclus.Verifier.Soundness
import Interclus.Verifier.Division
import Interclus.Isolation.Containment
import Interclus.Update.Integrity
import Interclus.Flash.RoundTrip
import Interclus.Supervisor.LivePrograms
import Interclus.Protocol.Agreement
import Interclus.Console.Stream
import Interclus.Console.Acceptance
import Interclus.Console.Corruption
import Interclus.Console.Polling
import Interclus.Verifier.ContextLoads
import Interclus.Verifier.Exactness
import Interclus.Supervisor.FilterPhase
import Interclus.Update.Retransmission
import Interclus.Protocol.Transfer
import Interclus.Supervisor.NativeSlots
import Interclus.Protocol.Verdict
import Interclus.Protocol.StagingOwnership
import Interclus.Policy.AlertTotal
import Interclus.Verifier.Footprint
import Interclus.Verifier.AddressIndependence
import Interclus.Supervisor.ChannelEffect
import Interclus.Protocol.Transports
import Interclus.Supervisor.RebootOrder
import Interclus.Supervisor.RoundOrder
import Interclus.Policy.KnownGood
import Interclus.Host.DeviceGate
import Interclus.Update.Refusal
import Interclus.Isolation.ArmedWindow
import Interclus.Supervisor.FaultTelemetry
import Interclus.Isolation.TrapExact
import Interclus.Update.ErrorDetection
import Interclus.Supervisor.BootFrame
import Interclus.Verifier.GateBounds
import Interclus.Interpreter.StepCap
import Interclus.Interpreter.SoftArith
import Interclus.Interpreter.AluConformance
import Interclus.Isolation.BudgetDeadline
import Interclus.Update.ShaConformance
import Interclus.Supervisor.UserWindows
import Interclus.Supervisor.PendDecision
import Interclus.Protocol.PendStage
import Interclus.Supervisor.PinnedModules
import Interclus.Verifier.OracleGate
import Interclus.Interpreter.OracleRun
import Interclus.Verifier.ForwardOnly
import Interclus.Policy.RateLimit
import Interclus.Console.RingFrames
import Interclus.Console.CarvedReplies
import Interclus.Policy.SwarmFrame
import Interclus.Supervisor.ConsoleUpload
