import Metaheuristic.Number.Numeral
import Metaheuristic.Number.Text
import Metaheuristic.Random.Generator
import Metaheuristic.Model.Script
import Metaheuristic.Population.Flat
import Metaheuristic.Search.Basic
import Metaheuristic.Proofs.Computation
import Metaheuristic.Proofs.Number.Double
import Metaheuristic.Proofs.Number.Exact
import Metaheuristic.Proofs.Number.Negation
import Metaheuristic.Proofs.Number.Rounding
import Metaheuristic.Proofs.Quality.Direction
import Metaheuristic.Proofs.Quality.Dominance
import Metaheuristic.Proofs.Quality.Survivors
import Metaheuristic.Proofs.Quality.Archive
import Metaheuristic.Proofs.Quality.Crowding
import Metaheuristic.Proofs.Quality.Bounded
import Metaheuristic.Proofs.Quality.Reporting
import Metaheuristic.Proofs.Quality.Extremes
import Metaheuristic.Proofs.Quality.Mirror
import Metaheuristic.Proofs.Quality.Record
import Metaheuristic.Proofs.Random.Draw
import Metaheuristic.Proofs.Space.Registry
import Metaheuristic.Proofs.Model.Rows
import Metaheuristic.Proofs.Model.Rowwise
import Metaheuristic.Proofs.Model.Pass
import Metaheuristic.Proofs.Model.Batch
import Metaheuristic.Proofs.Model.Mirror
import Metaheuristic.Proofs.Model.Recheck
import Metaheuristic.Proofs.Population.Sized
import Metaheuristic.Proofs.Population.Evaluated
import Metaheuristic.Proofs.Population.Mirror
import Metaheuristic.Proofs.Strategy.Mirror
import Metaheuristic.Proofs.Strategy.Sized
import Metaheuristic.Proofs.Search.Run
import Metaheuristic.Proofs.Search.Ledger
import Metaheuristic.Proofs.Search.Repeats
import Metaheuristic.Proofs.Search.Best
import Metaheuristic.Proofs.Search.Faithful
import Metaheuristic.Proofs.Search.Mirror
import Metaheuristic.Proofs.Search.Duality
import Metaheuristic.Proofs.Space.Coding
import Metaheuristic.Proofs.Space.Codec
import Metaheuristic.Proofs.Space.Bounds
import Metaheuristic.Proofs.Model.Discovery
import Metaheuristic.Proofs.Model.Reading
import Metaheuristic.Proofs.Model.Divergence
import Metaheuristic.Proofs.Random.Answers
import Metaheuristic.Proofs.Random.Generator
import Metaheuristic.Proofs.Model.Delivery
import Metaheuristic.Proofs.Number.UnitInterval
import Metaheuristic.Proofs.Population.Addressed
import Metaheuristic.Proofs.Population.Ranking
import Metaheuristic.Proofs.Strategy.Answers
import Metaheuristic.Proofs.Quality.Offering
import Metaheuristic.Proofs.Search.Safe
import Metaheuristic.Proofs.Search.Faults
import Metaheuristic.Proofs.Search.Summary
import Metaheuristic.Proofs.Search.Isolation
import Metaheuristic.Proofs.Number.UnitCube
import Metaheuristic.Proofs.Population.Genes
import Metaheuristic.Proofs.Random.UnitDraws
import Metaheuristic.Proofs.Strategy.Settings
import Metaheuristic.Proofs.Strategy.UnitCube
import Metaheuristic.Proofs.Search.UnitCube
import Metaheuristic.Proofs.Search.Lockstep
import Metaheuristic.Proofs.Search.Coverage
import Metaheuristic.Proofs.Search.MoreRepeats
import Metaheuristic.Proofs.Search.LongerBudget
import Metaheuristic.Proofs.Search.Front
import Metaheuristic.Proofs.Table
import Metaheuristic.Proofs.Strategy.Memory
import Metaheuristic.Proofs.Strategy.Counters
import Metaheuristic.Proofs.Search.Places
import Metaheuristic.Proofs.Search.History
import Metaheuristic.Proofs.Search.Counters
import Metaheuristic.Proofs.Number.Ends
import Metaheuristic.Proofs.Population.Standing
import Metaheuristic.Proofs.Search.Statistics
import Metaheuristic.Proofs.Strategy.Climbing
import Metaheuristic.Proofs.Search.Convergence
import Metaheuristic.Proofs.Search.Refusals
import Metaheuristic.Proofs.Quality.Peeling
import Metaheuristic.Proofs.Quality.Fronts
import Metaheuristic.Proofs.Number.Bits
import Metaheuristic.Proofs.Number.Total
import Metaheuristic.Proofs.Number.Gaps
import Metaheuristic.Proofs.Sorting
import Metaheuristic.Proofs.Quality.Minima
import Metaheuristic.Proofs.Quality.Spacing
import Metaheuristic.Proofs.Population.Precedence
import Metaheuristic.Proofs.Strategy.Verdict
import Metaheuristic.Proofs.Strategy.Replacement
import Metaheuristic.Proofs.Search.Trials
import Metaheuristic.Proofs.Search.Incumbents
import Metaheuristic.Proofs.Search.Lone
import Metaheuristic.Proofs.Search.Aspiration
import Metaheuristic.Proofs.Number.Distance
import Metaheuristic.Proofs.Search.Acceptance
import Metaheuristic.Proofs.Space.Ascending
import Metaheuristic.Proofs.Space.Sequences
import Metaheuristic.Proofs.Space.Listing
import Metaheuristic.Proofs.Model.Charges
import Metaheuristic.Proofs.Number.Amount
import Metaheuristic.Proofs.Model.Satisfaction
import Metaheuristic.Proofs.Quality.Penalty
import Metaheuristic.Proofs.Search.Penalized
import Metaheuristic.Proofs.Quality.Agreement
import Metaheuristic.Proofs.Random.Distinct
import Metaheuristic.Proofs.Strategy.Survival
import Metaheuristic.Proofs.Search.Selection
import Metaheuristic.Proofs.Random.Plans
import Metaheuristic.Proofs.Population.Trials
import Metaheuristic.Proofs.Strategy.Crossover
import Metaheuristic.Proofs.Strategy.Mutation
import Metaheuristic.Proofs.Strategy.Pack
import Metaheuristic.Proofs.Search.Leaders
import Metaheuristic.Proofs.Model.Objectives
import Metaheuristic.Proofs.Number.Codes
import Metaheuristic.Proofs.Options
import Metaheuristic.Proofs.Strategy.Options
import Metaheuristic.Proofs.Search.Options
import Metaheuristic.Proofs.Population.Matrix
import Metaheuristic.Proofs.Population.Stretches
import Metaheuristic.Proofs.Population.Edits
import Metaheuristic.Proofs.Population.Flat
import Metaheuristic.Proofs.Number.Value
import Metaheuristic.Proofs.Number.Whole
import Metaheuristic.Proofs.Search.Counts
import Metaheuristic.Proofs.Space.Sizes
import Metaheuristic.Proofs.Quality.Distances
