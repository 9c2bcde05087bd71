import Metaheuristic.Search.Run

/-! Results of searches. -/
namespace Metaheuristic

/-- A reported agent: its decoded values, its fitness, and its feasibility as
checked again. -/
structure Candidate (α : Type) where
  solution : Solution α
  reward : List α
  status : Feasibility

/-- What a caller should know about a result. -/
inductive Warning (α : Type) where
  /-- A repeat failed, and the others went on. -/
  | repeatFailed (round : Nat) (cause : Error α)
  /-- Nothing feasible was found. -/
  | infeasibleResult

def Warning.message {α : Type} [NumberText α] : Warning α → String
  | repeatFailed round cause => s!"repeat {round} failed: " ++ cause.message
  | infeasibleResult => "no feasible solution was found"

structure Result (α : Type) where
  algorithm : String
  candidates : List (Candidate α)
  multiObjective : Bool
  warnings : List (Warning α)
  /-- Statistics of each successful repeat, if they are kept. -/
  history : List (List (Statistics α))
  /-- Number of agents evaluated in successful repeats. -/
  evaluations : Nat
  report : Report

/-- What a successful repeat leaves behind. -/
structure Outcome (α : Type) where
  record : Record α
  log : List (Agent α)
  history : List (Statistics α)
  report : Report

/-- Number of agents evaluated in a repeat. -/
def Outcome.evaluations {α : Type} (o : Outcome α) : Nat := o.log.length

/-- The repeats of a search, folded in order. -/
structure Summary (α : Type) where
  record : Record α
  warnings : List (Warning α)
  history : List (List (Statistics α))
  evaluations : Nat
  report : Report
  succeeded : Nat
  firstError : Option (Error α)

namespace Summary

variable {α : Type}

def empty (directions : List Direction) (capacity : Option Nat) : Summary α :=
  ⟨.empty directions capacity, [], [], 0, .empty, 0, none⟩

variable [Scalar α]

/-- Adds a repeat: what a successful one found, or the error of a failed one. -/
def add (recordHistory : Bool) (s : Summary α) (round : Nat) :
    Except (Error α) (Outcome α) → Except Fault (Summary α)
  | .ok o => do
    let record ← s.record.merge o.record
    return { s with
      record := record
      history := if recordHistory then s.history ++ [o.history] else s.history
      evaluations := s.evaluations + o.evaluations
      report := s.report.merge o.report
      succeeded := s.succeeded + 1 }
  | .error cause => .ok { s with
      warnings := s.warnings ++ [.repeatFailed round cause]
      firstError := some (s.firstError.getD cause) }

/-- Adds repeats, the first one having the given number. -/
def addAll (recordHistory : Bool) :
    (round : Nat) → List (Except (Error α) (Outcome α)) → Summary α → Except Fault (Summary α)
  | _, [], s => .ok s
  | round, o :: rest, s => do
    addAll recordHistory (round + 1) rest (← s.add recordHistory round o)

end Summary

namespace Record

variable {α : Type} [Scalar α]

/-- The reported agents: the best one, or the archive ordered by its first
objective. -/
def reported : Record α → List (Agent α)
  | single _ best => best.toList
  | archive s =>
    match s.directions with
    | [] => s.members
    | d :: _ => s.members.mergeSort fun a b => d.compare a.leading b.leading != .gt

end Record
end Metaheuristic
