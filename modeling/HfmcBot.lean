import HfmcBot.Types
import HfmcBot.Config
import HfmcBot.Exec
import HfmcBot.Risk
import HfmcBot.Strategy
import HfmcBot.Slices
import HfmcBot.Foundation.FiniteMap
import HfmcBot.Alerts
import HfmcBot.Persist
import HfmcBot.Engine
import HfmcBot.Engine.Steps
import HfmcBot.Engine.Run
import HfmcBot.Engine.Ledger
import HfmcBot.Engine.Orders
import HfmcBot.Foundation.RunningSum
import HfmcBot.Foundation.WeightedMean
import HfmcBot.Foundation.Cursor
import HfmcBot.Foundation.StableSort
import HfmcBot.Foundation.Greatest
import HfmcBot.Engine.Breaker
import HfmcBot.Engine.Throttle
import HfmcBot.Engine.AuditTrail
import HfmcBot.Engine.Snapshot
import HfmcBot.Foundation.Checked
import HfmcBot.Engine.Machine
import HfmcBot.Engine.MachineRestore
import HfmcBot.Engine.MachineRange
import HfmcBot.Engine.SweepOrder
import HfmcBot.Engine.Exits
import HfmcBot.Engine.Resubmission
import HfmcBot.Foundation.Attempt
import HfmcBot.Live.Json
import HfmcBot.Live.Upstream
import HfmcBot.Live.Clients
import HfmcBot.Live.Executor
import HfmcBot.Live.Exchanges
import HfmcBot.Live.AfterSubmission
import HfmcBot.Live.Landing
import HfmcBot.Live.TipRotation
import HfmcBot.Engine.RiskBlind
import HfmcBot.Live.Settings
import HfmcBot.Live.Checks
import HfmcBot.Grid
import HfmcBot.Engine.Recovery
import HfmcBot.Feed.TradeSubs
import HfmcBot.Feed.SubPlan
import HfmcBot.Feed.Decode
import HfmcBot.Feed.Instructions
import HfmcBot.Feed.SlotClock
import HfmcBot.Feed.Transactions
import HfmcBot.Engine.Funnel
import HfmcBot.Engine.FunnelWindow
import HfmcBot.Live.Reconcile
import HfmcBot.Live.Settlement
import HfmcBot.Foundation.JsonText
import HfmcBot.Feed.Archive
import HfmcBot.Engine.FreeCapital
import HfmcBot.Engine.Settlement
import HfmcBot.Engine.Desk
import HfmcBot.Engine.PaperFills
import HfmcBot.Engine.PaperSplit
import HfmcBot.Engine.SizingCaps
import HfmcBot.Engine.Vwap
import HfmcBot.Engine.RoundTrip
import HfmcBot.Engine.EntryClock
import HfmcBot.Engine.Lives
import HfmcBot.Engine.FailedOrders
import HfmcBot.Engine.ExitTurns
import HfmcBot.Engine.ClosedTrades
import HfmcBot.Engine.ExitRecords
import HfmcBot.Engine.StuckExits
import HfmcBot.Feed.Wire
import HfmcBot.Feed.WireRange
import HfmcBot.Engine.OrderIds
import HfmcBot.Feed.Recorder
import HfmcBot.Foundation.RateLimit
import HfmcBot.Alerter
import HfmcBot.Engine.CriticalAlerts
import HfmcBot.Engine.BreakerNotices
import HfmcBot.Foundation.Allowance
import HfmcBot.Live.Governor
import HfmcBot.Foundation.Rotation
import HfmcBot.Live.Failover
import HfmcBot.Live.Frame
import HfmcBot.Live.TipTurns
import HfmcBot.Live.Conversions
import HfmcBot.Live.Requests
import HfmcBot.Live.SwapAmount
import HfmcBot.Live.UrgencyFee
import HfmcBot.Environment
import HfmcBot.Foundation.Separator
import HfmcBot.Redaction
import HfmcBot.Feed.Curve
import HfmcBot.Foundation.Channel
import HfmcBot.PgAudit
import HfmcBot.Foundation.AtomicFile
import HfmcBot.SnapshotFile
import HfmcBot.LiveLoop
import HfmcBot.Startup
import HfmcBot.Live.Runs
import HfmcBot.DevnetTrade
import HfmcBot.Feed.GrpcStream
import HfmcBot.AlertWorker
import HfmcBot.Metrics
import HfmcBot.RecorderLoop
