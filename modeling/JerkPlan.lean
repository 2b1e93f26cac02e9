import JerkPlan.Chain.Algebra
import JerkPlan.Chain.Convex
import JerkPlan.Chain.Interior
import JerkPlan.Chain.Quadratic
import JerkPlan.Chain.Refine
import JerkPlan.Chart
import JerkPlan.ConvexPlan
import JerkPlan.Corridor
import JerkPlan.CurveFit
import JerkPlan.CurveTable
import JerkPlan.Cycle
import JerkPlan.Decimal.Digits
import JerkPlan.Decimal.Text
import JerkPlan.Endpoint
import JerkPlan.Failure
import JerkPlan.Horizon
import JerkPlan.JerkCurve
import JerkPlan.Journal
import JerkPlan.KnotProblem
import JerkPlan.Lookup
import JerkPlan.Outcome
import JerkPlan.Path
import JerkPlan.Planner
import JerkPlan.ProgramLists
import JerkPlan.Proofs.Arranging
import JerkPlan.Proofs.Calls
import JerkPlan.Proofs.CheckedSettings
import JerkPlan.Proofs.Checkpoints
import JerkPlan.Proofs.ColdStarts
import JerkPlan.Proofs.ConstantFits
import JerkPlan.Proofs.ConvexKernels
import JerkPlan.Proofs.ConvexProblems
import JerkPlan.Proofs.CorridorEnds
import JerkPlan.Proofs.CorridorKnots
import JerkPlan.Proofs.CorridorOutcomes
import JerkPlan.Proofs.CurveKnots
import JerkPlan.Proofs.CurveTables
import JerkPlan.Proofs.CycleCompletes
import JerkPlan.Proofs.CycleLimits
import JerkPlan.Proofs.CycleSteps
import JerkPlan.Proofs.DegradedCycles
import JerkPlan.Proofs.EarlierRecords
import JerkPlan.Proofs.EmergencyStops
import JerkPlan.Proofs.EndingGaps
import JerkPlan.Proofs.Exact
import JerkPlan.Proofs.Expansions
import JerkPlan.Proofs.FailedCycles
import JerkPlan.Proofs.FailureKinds
import JerkPlan.Proofs.FitOutcomes
import JerkPlan.Proofs.FittedCurves
import JerkPlan.Proofs.FittedLimits
import JerkPlan.Proofs.FurtherRegions
import JerkPlan.Proofs.HeldProfiles
import JerkPlan.Proofs.IdleRegions
import JerkPlan.Proofs.InverseReadings
import JerkPlan.Proofs.JoinedCurves
import JerkPlan.Proofs.KnotConstraints
import JerkPlan.Proofs.KnotCost
import JerkPlan.Proofs.KnotRows
import JerkPlan.Proofs.KnotShape
import JerkPlan.Proofs.LockTurns
import JerkPlan.Proofs.LongerHorizons
import JerkPlan.Proofs.LostGround
import JerkPlan.Proofs.Midway
import JerkPlan.Proofs.NextCycle
import JerkPlan.Proofs.OpenCorridors
import JerkPlan.Proofs.OrderedBounds
import JerkPlan.Proofs.OrderedReadings
import JerkPlan.Proofs.PlanFits
import JerkPlan.Proofs.PlanLimits
import JerkPlan.Proofs.Publishing
import JerkPlan.Proofs.Readings
import JerkPlan.Proofs.RefinementOutcomes
import JerkPlan.Proofs.RefinementRows
import JerkPlan.Proofs.RegionCuts
import JerkPlan.Proofs.RegionEdges
import JerkPlan.Proofs.Results
import JerkPlan.Proofs.RoughTargets
import JerkPlan.Proofs.SampledCurvature
import JerkPlan.Proofs.Sampling
import JerkPlan.Proofs.Search
import JerkPlan.Proofs.SeriesHistories
import JerkPlan.Proofs.SilentRecording
import JerkPlan.Proofs.SimpleCorridors
import JerkPlan.Proofs.SmoothCurves
import JerkPlan.Proofs.SoftCeilings
import JerkPlan.Proofs.SoftPenalties
import JerkPlan.Proofs.StageOrder
import JerkPlan.Proofs.StandingStart
import JerkPlan.Proofs.SteadyPlans
import JerkPlan.Proofs.TabulatedCurves
import JerkPlan.Proofs.UniqueMinimum
import JerkPlan.Publication
import JerkPlan.Recording
import JerkPlan.Refinement
import JerkPlan.Region
import JerkPlan.Scalar
import JerkPlan.Settings
import JerkPlan.SolveStatus
import JerkPlan.SpeedLimit
import JerkPlan.SpeedSeries
import JerkPlan.Stopwatch
