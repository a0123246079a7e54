import LinkAdaptation.Main
import LinkAdaptation.Proofs.PhaseCoherence
import LinkAdaptation.Proofs.StationRefinement
import LinkAdaptation.Proofs.TrialCourse
import LinkAdaptation.Proofs.BestRates
import LinkAdaptation.Proofs.LedgerWindows
import LinkAdaptation.Proofs.ColumnSearch
import LinkAdaptation.Proofs.SendableVectors
import LinkAdaptation.Proofs.TrialOutcomes
import LinkAdaptation.Proofs.WinnableTrials
import LinkAdaptation.Proofs.TrialStatistics
import LinkAdaptation.Proofs.SearchCycles
import LinkAdaptation.Proofs.TrafficBounds
import LinkAdaptation.Proofs.SteadyLink
import LinkAdaptation.Proofs.ClockIndependence
import LinkAdaptation.Proofs.OutcomeAges
import LinkAdaptation.Proofs.SimulationAccounts
import LinkAdaptation.Proofs.SlidingWindow
import LinkAdaptation.Proofs.Machine.Runs
import LinkAdaptation.Proofs.Machine.Walks
import LinkAdaptation.Proofs.WindowStatistics
import LinkAdaptation.Proofs.RateSteps
import LinkAdaptation.Proofs.NominalRates
import LinkAdaptation.Proofs.FrameDraws
import LinkAdaptation.Proofs.SingleMoves
import LinkAdaptation.Proofs.OwnStatistics
