import DenseSimplex.Main
import DenseSimplex.Proofs.Candidates
import DenseSimplex.Proofs.Exact
import DenseSimplex.Proofs.PivotFormula
import DenseSimplex.Proofs.Repivot
import DenseSimplex.Proofs.LinearSystem
import DenseSimplex.Proofs.Transitions
import DenseSimplex.Proofs.Feasibility
import DenseSimplex.Proofs.Verdict
import DenseSimplex.Proofs.Infeasibility
import DenseSimplex.Proofs.Labels
import DenseSimplex.Proofs.PhaseOne
import DenseSimplex.Proofs.Paths
import DenseSimplex.Proofs.Invocations
import DenseSimplex.Proofs.Resumption
import DenseSimplex.Proofs.Statuses
import DenseSimplex.Proofs.Objective
import DenseSimplex.Proofs.Cycling
import DenseSimplex.Proofs.Ascent
import DenseSimplex.Proofs.Schedule
import DenseSimplex.Proofs.Pricing
import DenseSimplex.Proofs.Rows
import DenseSimplex.Proofs.FirstTableau
import DenseSimplex.Proofs.Draws
import DenseSimplex.Proofs.Trials
import DenseSimplex.Proofs.MachineNumbers
import DenseSimplex.Proofs.Rounding
import DenseSimplex.Proofs.WorkingPrecision
import DenseSimplex.Proofs.RatioTest
import DenseSimplex.Proofs.ColumnScan
import DenseSimplex.Proofs.Tolerance
import DenseSimplex.Proofs.Overlooked
import DenseSimplex.Proofs.Faults
import DenseSimplex.Proofs.Reports
import DenseSimplex.Proofs.Observation
import DenseSimplex.Proofs.Acceptance
import DenseSimplex.Proofs.Repricing
import DenseSimplex.Proofs.Generation
import DenseSimplex.Proofs.Seeds
import DenseSimplex.Proofs.Buffers
import DenseSimplex.Proofs.ColumnMajor
import DenseSimplex.Proofs.Baselines
import DenseSimplex.Proofs.Metering
