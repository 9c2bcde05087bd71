import Metaheuristic.Proofs.Strategy.Options
import Metaheuristic.Search.Config

/-! The options of a search. A configuration is read from a table when the algorithm is known, the
table names nothing but the options of the algorithm and of the search, and each of them holds a
number of its kind. Otherwise the error names the algorithm, else the first option that holds
another number, and only then an option that nobody asked for. -/
namespace Metaheuristic

variable {α : Type} [Scalar α]

namespace Config
open OptionReader

def searchKeys : List OptionKey :=
  [⟨"population_size", .count⟩, ⟨"iterations", .count⟩, ⟨"penalty_coefficient", .real⟩,
    ⟨"repeats", .count⟩, ⟨"seed", .count⟩, ⟨"parallel", .flag⟩, ⟨"record_history", .flag⟩,
    ⟨"pareto_capacity", .count⟩]

/-- The keys of a search with the algorithm of a name, in the order in which they are read. -/
def keys (name : String) : List OptionKey := Algorithm.keys name ++ searchKeys

/-- The configuration a table asks for. -/
def holding (name : String) (t : Table α) : Config α :=
  let default : Config α := ofAlgorithm (Algorithm.holding name t)
  { algorithm := Algorithm.holding name t
    populationSize := (t.word? "population_size").getD default.populationSize
    iterations := (t.word? "iterations").getD default.iterations
    penaltyCoefficient := (t.get? "penalty_coefficient").getD default.penaltyCoefficient
    repeats := (t.word? "repeats").getD default.repeats
    seed := (t.word? "seed").map Nat.toUInt64
    parallel := (t.flag? "parallel").getD default.parallel
    recordHistory := (t.flag? "record_history").getD default.recordHistory
    archiveCapacity := t.word? "pareto_capacity" }

theorem keys_distinct (name : String) : (keyNames (keys name)).Nodup := by
  unfold keys Algorithm.keys
  split <;> decide

/-- Reads a configuration and leaves the other options alone. -/
def readKnown (name : String) : Reading α (Config α) := do
  let c := ofAlgorithm (← Algorithm.read name)
  let populationSize := (← OptionReader.count "population_size").getD c.populationSize
  let iterations := (← OptionReader.count "iterations").getD c.iterations
  let penalty := (← OptionReader.real "penalty_coefficient").getD c.penaltyCoefficient
  let repeats := (← OptionReader.count "repeats").getD c.repeats
  let seed := (← OptionReader.count "seed").map Nat.toUInt64
  let parallel := (← OptionReader.flag "parallel").getD c.parallel
  let recordHistory := (← OptionReader.flag "record_history").getD c.recordHistory
  let archiveCapacity ← OptionReader.count "pareto_capacity"
  return ⟨c.algorithm, populationSize, iterations, penalty, repeats, seed, parallel,
    recordHistory, archiveCapacity⟩

theorem read_eq (name : String) :
    (read name : Reading α (Config α)) = complete (readKnown name) (·.algorithm.name) := by
  unfold read complete readKnown
  simp only [bind_assoc, pure_bind]

theorem reads_known [Scalar.LawfulCodes α] {name : String}
    (known : name.toLower ∈ Algorithm.names) :
    Reads (keys name) (readKnown name : Reading α (Config α)) (holding name) :=
  (Algorithm.reads known).bind fun _ => (reads_count _).bind fun _ => (reads_count _).bind fun _ =>
    (reads_real _).bind fun _ => (reads_count _).bind fun _ => (reads_count _).bind fun _ =>
      (reads_flag _).bind fun _ => (reads_flag _).bind fun _ => (reads_count _).map _

theorem ofOptions_unknown {name : String} (unknown : name.toLower ∉ Algorithm.names)
    (t : Table α) : ofOptions name t = .error (.unknownAlgorithm name) := by
  rw [ofOptions, read, Algorithm.read_unknown unknown]
  rfl

section Known

variable [Scalar.LawfulCodes α] {name : String} {t : Table α}

theorem ofOptions_refused (known : name.toLower ∈ Algorithm.names) {e : ConfigError α}
    (objects : firstObjection (keys name) t = some e) : ofOptions name t = .error e := by
  rw [ofOptions, read_eq]
  exact complete_refused (reads_known known) objects

theorem ofOptions_of_valid (known : name.toLower ∈ Algorithm.names)
    (silent : firstObjection (keys name) t = none) :
    ofOptions name t =
      match firstUnknown (keys name) t with
      | some key => .error (.unknownOption key (Algorithm.holding name t).name)
      | none => .ok (holding name t) := by
  rw [ofOptions, read_eq]
  exact complete_of_valid (reads_known known) silent

theorem ofOptions_eq_ok (ordered : Table.Ordered t.entries) {c : Config α} :
    ofOptions name t = .ok c ↔
      name.toLower ∈ Algorithm.names ∧ t.Understood (keys name) ∧ c = holding name t := by
  by_cases known : name.toLower ∈ Algorithm.names
  · rw [understood_iff (keys_distinct name) ordered]
    cases objection : firstObjection (keys name) t with
    | some e =>
      rw [ofOptions_refused known objection]
      simp
    | none =>
      rw [ofOptions_of_valid known objection]
      cases firstUnknown (keys name) t with
      | some key => simp
      | none => simp [known, eq_comm]
  · rw [ofOptions_unknown known]
    simp [known]

end Known

/-- A table is accepted exactly when it is understood as a whole: the name is that of an
algorithm, capitals or not, and every entry is an option of the search or of the algorithm, with a
number of its kind. Then the configuration holds what the table says, and its defaults elsewhere.
A name of no algorithm is refused whatever the table says. Else the first option with a number of
another kind is what is reported, and only when there is none, the least name that is no option. -/
theorem accepted_when_understood [Scalar.LawfulCodes α] (name : String) (t : Table α)
    (ordered : Table.Ordered t.entries) :
    ((∃ c, ofOptions name t = .ok c) ↔
      name.toLower ∈ Algorithm.names ∧ t.Understood (keys name)) ∧
    (∀ c, ofOptions name t = .ok c → c = holding name t) ∧
    (name.toLower ∉ Algorithm.names → ofOptions name t = .error (.unknownAlgorithm name)) ∧
    (name.toLower ∈ Algorithm.names →
      (∀ invalid ∈ keys name, ¬ invalid.Valid t →
        ∃ before key after x requirement, keys name = before ++ key :: after ∧
          (∀ earlier ∈ before, earlier.Valid t) ∧ t.get? key.name = some x ∧
          key.kind.objection x = some requirement ∧
          ofOptions name t = .error (.invalidParameter key.name requirement)) ∧
      ((∀ key ∈ keys name, key.Valid t) → ∀ unknown ∈ t.names,
        unknown ∉ keyNames (keys name) →
        (∀ other ∈ t.names, other ∉ keyNames (keys name) → unknown ≤ other) →
        ofOptions name t = .error (.unknownOption unknown (Algorithm.holding name t).name))) := by
  refine ⟨?_, ?_, fun unknown => ofOptions_unknown unknown t, fun known => ⟨?_, ?_⟩⟩
  · constructor
    · intro ⟨c, accepted⟩
      obtain ⟨known, understood, _⟩ := (ofOptions_eq_ok ordered).mp accepted
      exact ⟨known, understood⟩
    · intro ⟨known, understood⟩
      exact ⟨holding name t, (ofOptions_eq_ok ordered).mpr ⟨known, understood, rfl⟩⟩
  · intro c accepted
    exact ((ofOptions_eq_ok ordered).mp accepted).2.2
  · intro invalid member notValid
    obtain ⟨before, key, after, x, requirement, split, earlier, held, because, first⟩ :=
      firstObjection_of_invalid member notValid
    exact ⟨before, key, after, x, requirement, split, earlier, held, because,
      ofOptions_refused known first⟩
  · intro valid unknown named notKey least
    rw [ofOptions_of_valid known (firstObjection_eq_none.mpr valid),
      firstUnknown_eq_some ordered named notKey least]

/-- Settings of a tabu search that remembers three states. -/
def remembering : Table Float := .ofList [("tabu_tenure", 3.0), ("iterations", 20.0)]

theorem accepted_when_understood_tabu :
    ofOptions "TS" remembering = .ok (holding "TS" remembering) ∧
      ofOptions "TS" (remembering.insert "typo" 1.0) = .error (.unknownOption "typo" "tabu") := by
  have known : "TS".toLower ∈ Algorithm.names := by decide +kernel
  constructor
  · have understood : remembering.Understood (keys "TS") := by decide +kernel
    have ordered : Table.Ordered remembering.entries := by
      unfold Table.Ordered
      decide
    obtain ⟨accepted, held, _⟩ := accepted_when_understood "TS" remembering ordered
    obtain ⟨c, ran⟩ := accepted.mpr ⟨known, understood⟩
    rw [ran, held c ran]
  · have ordered : Table.Ordered (remembering.insert "typo" 1.0).entries := by
      unfold Table.Ordered
      decide
    obtain ⟨_, _, _, refused⟩ :=
      accepted_when_understood "TS" (remembering.insert "typo" 1.0) ordered
    have refusal := (refused known).2 (by decide +kernel) "typo" (by decide +kernel)
      (by decide +kernel) (by decide +kernel)
    have scope : (Algorithm.holding "TS" (remembering.insert "typo" 1.0)).name = "tabu" := by
      decide +kernel
    rw [scope] at refusal
    exact refusal

end Config
end Metaheuristic
