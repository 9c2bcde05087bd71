import Metaheuristic.Proofs.Number.Codes
import Metaheuristic.Proofs.Options
import Metaheuristic.Strategy.Basic

/-! The options of the algorithms: the keys each of them asks for, and the settings it makes of a
table in which these hold suitable numbers. What the table does not name keeps its default. -/
namespace Metaheuristic
open OptionReader

variable {α : Type} [Scalar α]

namespace Genetic.Settings

def keys : List OptionKey :=
  [⟨"selection", .choice⟩, ⟨"crossover_rate", .real⟩, ⟨"mutation_rate", .real⟩,
    ⟨"survival_lb", .real⟩, ⟨"survival_ub", .real⟩]

/-- The selection a number stands for: zero draws at random, one holds tournaments. -/
def selectionFor (x : α) : Selection := if x == Scalar.zero then .random else .tournament

/-- The settings a table asks for. -/
def holding (t : Table α) : Settings α :=
  { selection := ((t.get? "selection").map selectionFor).getD (default (α := α)).selection
    crossoverRate := (t.get? "crossover_rate").getD default.crossoverRate
    mutationRate := (t.get? "mutation_rate").getD default.mutationRate
    survivalLow := (t.get? "survival_lb").getD default.survivalLow
    survivalHigh := (t.get? "survival_ub").getD default.survivalHigh }

/-- The selection is read before everything else. -/
def readSelection : Reading α Selection := do
  match ← OptionReader.count "selection" with
  | some code => liftExcept (selectionOf code : Except (ConfigError α) Selection)
  | none => pure (default (α := α)).selection

theorem selectionOf_word [Scalar.LawfulCodes α] {x : α} (count : OptionKind.IsCount x)
    (choice : (x == Scalar.zero) = true ∨ (x == Scalar.one) = true) :
    (selectionOf (Scalar.toWord x) : Except (ConfigError α) Selection) = .ok (selectionFor x) := by
  obtain ⟨finite, lower, whole⟩ := count
  by_cases zero : (x == Scalar.zero) = true
  · have word : Scalar.toWord x = 0 :=
      (Scalar.LawfulCodes.toWord_eq_iff finite lower whole (Nat.zero_le 1)).mpr zero
    rw [word, selectionFor, if_pos zero]
    rfl
  · have one : (x == Scalar.one) = true := choice.resolve_left zero
    have word : Scalar.toWord x = 1 :=
      (Scalar.LawfulCodes.toWord_eq_iff finite lower whole Nat.le.refl).mpr one
    rw [word, selectionFor, if_neg zero]
    rfl

theorem selectionOf_other [Scalar.LawfulCodes α] {x : α} (count : OptionKind.IsCount x)
    (notZero : (x == Scalar.zero) = false) (notOne : (x == Scalar.one) = false) :
    (selectionOf (Scalar.toWord x) : Except (ConfigError α) Selection) =
      .error (.invalidParameter "selection" (.selectionCode (Scalar.toWord x))) := by
  obtain ⟨finite, lower, whole⟩ := count
  cases word : Scalar.toWord x with
  | zero =>
    have zero :=
      (Scalar.LawfulCodes.toWord_eq_iff finite lower whole (Nat.zero_le 1)).mp word
    exact absurd zero (Bool.eq_false_iff.mp notZero)
  | succ n =>
    cases n with
    | zero =>
      have one := (Scalar.LawfulCodes.toWord_eq_iff finite lower whole Nat.le.refl).mp word
      exact absurd one (Bool.eq_false_iff.mp notOne)
    | succ n => rfl

theorem reads_selection [Scalar.LawfulCodes α] :
    Reads [⟨"selection", .choice⟩] (readSelection : Reading α Selection)
      (fun t => ((t.get? "selection").map selectionFor).getD (default (α := α)).selection) := by
  refine Reads.single (f := fun held => (held.map selectionFor).getD (default (α := α)).selection)
    ?_ ?_ ?_
  · intro r held
    rw [readSelection, run_bind_accepted (run_count_absent held)]
    rfl
  · intro r x held silent
    obtain ⟨count, choice⟩ := (OptionKind.objection_eq_none .choice x).mp silent
    rw [readSelection, run_bind_accepted (run_count_suits held count)]
    simp only [selectionOf_word count choice]
    rfl
  · intro r x requirement held because
    cases number : OptionKind.countObjection x with
    | some earlier =>
      simp only [OptionKind.objection, number, Option.some_or, Option.some.injEq] at because
      rw [← because]
      exact run_bind_refused (run_count_objects held number)
    | none =>
      have count : OptionKind.IsCount x := (OptionKind.countObjection_eq_none x).mp number
      simp only [OptionKind.objection, number, Option.none_or] at because
      split at because
      · contradiction
      · rename_i neither
        simp only [Bool.or_eq_true, not_or, Bool.not_eq_true] at neither
        rw [readSelection, run_bind_accepted (run_count_suits held count)]
        simp only [selectionOf_other count neither.1 neither.2]
        cases because
        rfl

theorem read_eq : (read : Reading α (Settings α)) = readSelection >>= fun selection => do
    let crossoverRate := (← OptionReader.real "crossover_rate").getD default.crossoverRate
    let mutationRate := (← OptionReader.real "mutation_rate").getD default.mutationRate
    let survivalLow := (← OptionReader.real "survival_lb").getD default.survivalLow
    let survivalHigh := (← OptionReader.real "survival_ub").getD default.survivalHigh
    return ⟨selection, crossoverRate, mutationRate, survivalLow, survivalHigh⟩ := by
  rw [read, readSelection, bind_assoc]
  refine bind_congr fun held => ?_
  cases held <;> rfl

theorem reads [Scalar.LawfulCodes α] : Reads keys (read : Reading α (Settings α)) holding := by
  rw [read_eq]
  exact reads_selection.bind fun _ => (reads_real _).bind fun _ => (reads_real _).bind fun _ =>
    (reads_real _).bind fun _ => (reads_real _).map _

end Genetic.Settings

namespace Differential.Settings

def keys : List OptionKey := [⟨"scale_factor", .real⟩, ⟨"crossover_rate", .real⟩]

/-- The settings a table asks for. -/
def holding (t : Table α) : Settings α :=
  { scaleFactor := (t.get? "scale_factor").getD default.scaleFactor
    crossoverRate := (t.get? "crossover_rate").getD default.crossoverRate }

theorem reads : Reads keys (read : Reading α (Settings α)) holding :=
  (reads_real _).bind fun _ => (reads_real _).map _

end Differential.Settings

namespace Annealing.Settings

def keys : List OptionKey :=
  [⟨"max_temperature", .real⟩, ⟨"cooling_cycles", .count⟩, ⟨"cooling_alpha", .real⟩]

/-- The settings a table asks for; a factor asks for geometric cooling. -/
def holding (t : Table α) : Settings α :=
  { maxTemperature := (t.get? "max_temperature").getD default.maxTemperature
    cycles := (t.word? "cooling_cycles").getD (default (α := α)).cycles
    cooling := match t.get? "cooling_alpha" with
      | some factor => .geometric factor
      | none => default.cooling }

theorem reads : Reads keys (read : Reading α (Settings α)) holding :=
  (reads_real _).bind fun _ => (reads_count _).bind fun _ => (reads_real _).map _

end Annealing.Settings

namespace Tabu.Settings

def keys : List OptionKey :=
  [⟨"tabu_tenure", .count⟩, ⟨"strict", .flag⟩, ⟨"resolution", .real⟩]

/-- The settings a table asks for. -/
def holding (t : Table α) : Settings α :=
  { tenure := (t.word? "tabu_tenure").getD (default (α := α)).tenure
    strict := (t.flag? "strict").getD (default (α := α)).strict
    resolution := (t.get? "resolution").getD default.resolution }

theorem reads : Reads keys (read : Reading α (Settings α)) holding :=
  (reads_count _).bind fun _ => (reads_flag _).bind fun _ => (reads_real _).map _

end Tabu.Settings

namespace GreyWolf.Settings

def keys : List OptionKey := [⟨"a_max", .real⟩]

/-- The settings a table asks for. -/
def holding (t : Table α) : Settings α := { reach := (t.get? "a_max").getD default.reach }

theorem reads : Reads keys (read : Reading α (Settings α)) holding := (reads_real _).map _

end GreyWolf.Settings

namespace Algorithm

/-- The names of the algorithms; one of them has two. -/
def names : List String := ["ga", "de", "sa", "ts", "tabu", "gwo"]

/-- The keys of the algorithm of a name. -/
def keys (name : String) : List OptionKey :=
  match name.toLower with
  | "ga" => Genetic.Settings.keys
  | "de" => Differential.Settings.keys
  | "sa" => Annealing.Settings.keys
  | "ts" | "tabu" => Tabu.Settings.keys
  | "gwo" => GreyWolf.Settings.keys
  | _ => []

/-- The algorithm of a name with the settings a table asks for. -/
def holding (name : String) (t : Table α) : Algorithm α :=
  match name.toLower with
  | "ga" => genetic (Genetic.Settings.holding t)
  | "de" => differential (Differential.Settings.holding t)
  | "sa" => annealing (Annealing.Settings.holding t)
  | "ts" | "tabu" => tabu (Tabu.Settings.holding t)
  | "gwo" => greyWolf (GreyWolf.Settings.holding t)
  | _ => default

theorem reads [Scalar.LawfulCodes α] {name : String} (known : name.toLower ∈ names) :
    Reads (keys name) (read name : Reading α (Algorithm α)) (holding name) := by
  change Reads (keys name) (read name) fun t => holding name t
  unfold keys read holding
  generalize name.toLower = lower at known
  simp only [names, List.mem_cons, List.not_mem_nil, or_false] at known
  rcases known with rfl | rfl | rfl | rfl | rfl | rfl
  · exact Genetic.Settings.reads.map genetic
  · exact Differential.Settings.reads.map differential
  · exact Annealing.Settings.reads.map annealing
  · exact Tabu.Settings.reads.map tabu
  · exact Tabu.Settings.reads.map tabu
  · exact GreyWolf.Settings.reads.map greyWolf

theorem read_unknown {name : String} (unknown : name.toLower ∉ names) :
    (read name : Reading α (Algorithm α)) = throw (.unknownAlgorithm name) := by
  unfold read
  split
  case h_7 => rfl
  all_goals
    rename_i lower
    rw [lower] at unknown
    exact absurd (by decide) unknown

end Algorithm
end Metaheuristic
