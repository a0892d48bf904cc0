import StockGate.Breaker.Session
import StockGate.Description
import StockGate.Main
import StockGate.Proofs.Breaker.Capacity
import StockGate.Proofs.Breaker.Conditions
import StockGate.Proofs.Breaker.History
import StockGate.Proofs.Breaker.Late
import StockGate.Proofs.Breaker.Moves
import StockGate.Proofs.Breaker.Order
import StockGate.Proofs.Catalog.Address
import StockGate.Proofs.Catalog.Wire
import StockGate.Proofs.Command.Status
import StockGate.Proofs.Flag.Context
import StockGate.Proofs.Flag.Endpoint
import StockGate.Proofs.Gate.Cancellation
import StockGate.Proofs.Gate.Health
import StockGate.Proofs.Gate.Indifference
import StockGate.Proofs.Gate.Return
import StockGate.Proofs.Gate.Records
import StockGate.Proofs.Gate.Recovery
import StockGate.Proofs.Gate.Shedding
import StockGate.Proofs.Gate.SideChannel
import StockGate.Proofs.Gate.Verdict
import StockGate.Proofs.Likeness.Telemetry
import StockGate.Proofs.Retry.Bounds
import StockGate.Proofs.Settings.Partial
import StockGate.Proofs.Settings.Reload
import StockGate.Proofs.Settings.Start
import StockGate.Proofs.Validation.Backoff
import StockGate.Proofs.Validation.Course
import StockGate.Settings.Reload
import StockGate.Telemetry.Sample
