import LoadFeedback.Header
import LoadFeedback.Main
import LoadFeedback.Path
import LoadFeedback.Simulation.Program
import LoadFeedback.Proofs.Receiver.Acknowledger
import LoadFeedback.Proofs.Sender.Spacing
import LoadFeedback.Proofs.Network.Agreement
import LoadFeedback.Proofs.Network.Severity
import LoadFeedback.Proofs.Network.Incarnation
import LoadFeedback.Proofs.Network.Reset
import LoadFeedback.Proofs.Flow.Expiry
import LoadFeedback.Proofs.Flow.Reset
import LoadFeedback.Proofs.Binary64.Tables
import LoadFeedback.Proofs.Simulation.Conservation
import LoadFeedback.Proofs.Receiver.Delivery
import LoadFeedback.Proofs.Receiver.Incarnations
import LoadFeedback.Proofs.Link.Clockwork
import LoadFeedback.Proofs.Exact.Load
import LoadFeedback.Proofs.Exact.Overload
import LoadFeedback.Proofs.Agenda.Weight
import LoadFeedback.Proofs.Simulation.Work
import LoadFeedback.Proofs.Simulation.Termination
import LoadFeedback.Proofs.Agenda.Order
import LoadFeedback.Proofs.Header
import LoadFeedback.Proofs.Link.Transparency
import LoadFeedback.Proofs.Timer.Deadlines
import LoadFeedback.Proofs.Exact.Growth
import LoadFeedback.Proofs.Exact.Response
import LoadFeedback.Proofs.Flow.Burst
import LoadFeedback.Proofs.Sender.BucketRate
import LoadFeedback.Proofs.Sender.RoundTrip
import LoadFeedback.Proofs.Exact.Rounding
import LoadFeedback.Proofs.Exact.Fairness
import LoadFeedback.Proofs.Link.Refusal
import LoadFeedback.Proofs.Exact.Grid
import LoadFeedback.Proofs.Exact.Scaling
import LoadFeedback.Proofs.Exact.Averages
