import Schurfer.Probe.Final
import Schurfer.Costs.Pages
import Schurfer.Costs.Ledger
import Schurfer.Costs.Neighbours
import Schurfer.Costs.OpenLoss
import Schurfer.Pnl.PendingClose
import Schurfer.Orders.Views
import Schurfer.EmergencyClose.SingleFlight
import Schurfer.LateFill.Ownership
import Schurfer.Reconciliation.Sound
import Schurfer.Portfolio.Capacity
import Schurfer.Supervisor.Monitor
import Schurfer.Desk.Exits
import Schurfer.Protection.Vanished
import Schurfer.Commits.Prices
import Schurfer.Burst.Feed
import Schurfer.Burst.Memory
import Schurfer.Momentum.Counts
import Schurfer.Momentum.Complete
import Schurfer.Episodes.Once
import Schurfer.Episodes.Outcomes
import Schurfer.FormalRead.Once
import Schurfer.Watch.Rearm
import Schurfer.MomentumPaper.Windows
import Schurfer.Decisions.Lossless
import Schurfer.Notifier.Delivery
import Schurfer.Hold12hFunding.Coverage
import Schurfer.ColdBars.Receipts
import Schurfer.Pumps.Scanner
import Schurfer.LsrHistory.Read
import Schurfer.ExitPolicy.Trailing
import Schurfer.Desk.Evidence
import Schurfer.LateFill.StopIds
import Schurfer.Costs.Owner
import Schurfer.OrderLock.Lease
import Schurfer.Probe.Shares
import Schurfer.AbnormalFlow.Episodes
import Schurfer.OpenInterest.Pause
