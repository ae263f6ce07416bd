import PolymarketBt.Model.FastSim.Run
import PolymarketBt.Proofs.FastSim.Send
import PolymarketBt.Proofs.FastSim.Phases
import PolymarketBt.Soundness.TapeRefinement
import PolymarketBt.Soundness.SelfImpact
import PolymarketBt.Soundness.EntryEnvelope
import PolymarketBt.Soundness.ArchiveFraming
import PolymarketBt.Soundness.Causality
import PolymarketBt.Soundness.UncertaintyIntervals
import PolymarketBt.Soundness.ParserIsolation
import PolymarketBt.Soundness.LiveReplay
import PolymarketBt.Soundness.ArchiveRecovery
import PolymarketBt.Soundness.QueueAccounting
import PolymarketBt.Soundness.GapRejection
import PolymarketBt.Soundness.AsOfExecution
import PolymarketBt.Proofs.FastSim.ParentReturns
import PolymarketBt.Soundness.WalletLedger
import PolymarketBt.Soundness.OutageRecords
import PolymarketBt.Soundness.TakerLedger
import PolymarketBt.Soundness.RealizedPnl
import PolymarketBt.Soundness.SessionLedger
import PolymarketBt.Soundness.SweepIsolation
import PolymarketBt.Soundness.OrderSequence
import PolymarketBt.Soundness.DashboardBook
import PolymarketBt.Soundness.BatchIndependence
import PolymarketBt.Soundness.LockExclusion
import PolymarketBt.Soundness.BindingConstraint
import PolymarketBt.Soundness.NotionalSweep
import PolymarketBt.Soundness.RefusedEvents
import PolymarketBt.Soundness.UnfilledExits
import PolymarketBt.Soundness.TradeReconciliation
import PolymarketBt.Soundness.ChildOrders
import PolymarketBt.Soundness.VolumeCursor
import PolymarketBt.Soundness.MakerQueue
import PolymarketBt.Soundness.PartialRecovery
import PolymarketBt.Soundness.DaySelection
import PolymarketBt.Soundness.FixedScale
import PolymarketBt.Soundness.ChartMerging
import PolymarketBt.Soundness.ChartExport
import PolymarketBt.Soundness.ExecutionMetadata
import PolymarketBt.Soundness.TapeCache
import PolymarketBt.Soundness.AffordableShares
import PolymarketBt.Soundness.NormalizationCrashes
import PolymarketBt.Soundness.SimulatorTotality
import PolymarketBt.Soundness.DegradedTime
import PolymarketBt.Soundness.ManifestVerification
import PolymarketBt.Soundness.TimestampUnits
import PolymarketBt.Soundness.CompoundReplay
import PolymarketBt.Soundness.BacktestJobs
import PolymarketBt.Soundness.EpisodeIndex
import PolymarketBt.Soundness.WalkForward
import PolymarketBt.Soundness.AssetSubscriptions
import PolymarketBt.Soundness.SnapshotRows
import PolymarketBt.Soundness.RealismBand
import PolymarketBt.Soundness.MissedEntries
import PolymarketBt.Soundness.SessionPace
import PolymarketBt.Soundness.BacktestReport
import PolymarketBt.Soundness.EpisodeEvents
import PolymarketBt.Soundness.ThresholdHoldRun
