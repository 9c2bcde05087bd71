import Metaheuristic.Proofs.Number.Whole
import Metaheuristic.Proofs.Search.Options

/-! The counts among the options, as numbers. A count is read from the doubles that are natural
numbers, and all others are refused. It is read as the number itself as far as there are words; the
numbers beyond are accepted too and read as the greatest word, so that from there on searches with
different seeds or budgets run with the same. -/
namespace Metaheuristic.Config
open OptionReader

/-- The settings that are counts, each with the part of the configuration it becomes. -/
def countSettings {α : Type} : List (String × (Config α → Option Nat)) :=
  [("population_size", fun c => some c.populationSize), ("iterations", fun c => some c.iterations),
    ("repeats", fun c => some c.repeats), ("seed", fun c => c.seed.map UInt64.toNat),
    ("pareto_capacity", fun c => c.archiveCapacity)]

theorem holding_of_ok {α : Type} [Scalar α] [Scalar.LawfulCodes α] {name : String} {t : Table α}
    {c : Config α} (accepted : ofOptions name t = .ok c) :
    firstObjection (keys name) t = none ∧ c = holding name t := by
  by_cases known : name.toLower ∈ Algorithm.names
  · cases objection : firstObjection (keys name) t with
    | some e =>
      rw [ofOptions_refused known objection] at accepted
      cases accepted
    | none =>
      rw [ofOptions_of_valid known objection] at accepted
      split at accepted
      · cases accepted
      · cases accepted
        exact ⟨rfl, rfl⟩
  · rw [ofOptions_unknown known] at accepted
    cases accepted

/-- Each of them is read under its name. -/
theorem countSettings_keys {α : Type} (name : String)
    (setting : String × (Config α → Option Nat)) (member : setting ∈ countSettings) :
    ⟨setting.1, .count⟩ ∈ keys name := by
  refine List.mem_append_right _ ?_
  simp only [countSettings, List.mem_cons, List.not_mem_nil, or_false] at member
  rcases member with rfl | rfl | rfl | rfl | rfl <;> simp [searchKeys]

theorem countSettings_holding (name : String) {t : Table Float} {x : Float}
    (setting : String × (Config Float → Option Nat)) (member : setting ∈ countSettings)
    (held : t.get? setting.1 = some x) :
    setting.2 (holding name t) = some (Scalar.toWord x) := by
  have word : (Nat.toUInt64 (Scalar.toWord x)).toNat = Scalar.toWord x := by
    change (Nat.toUInt64 x.toUInt64.toNat).toNat = x.toUInt64.toNat
    rw [Nat.toUInt64, UInt64.ofNat_toNat]
  simp only [countSettings, List.mem_cons, List.not_mem_nil, or_false] at member
  rcases member with rfl | rfl | rfl | rfl | rfl <;>
    simp [holding, Table.word?, held, word]

/-- An accepted configuration has every count that its table holds, as the number or as the
greatest word. -/
theorem count_of_ok {name : String} {t : Table Float} {c : Config Float}
    (accepted : ofOptions name t = .ok c) (setting : String × (Config Float → Option Nat))
    (member : setting ∈ countSettings) {x : Float} (held : t.get? setting.1 = some x) :
    ∃ n : Nat, Double.value? x = some (n : ℚ) ∧ setting.2 c = some (min n (wordCount - 1)) := by
  obtain ⟨silent, rfl⟩ := holding_of_ok accepted
  have suits : OptionKind.IsCount x :=
    firstObjection_eq_none.mp silent _ (countSettings_keys name setting member) x held
  obtain ⟨n, value⟩ := Double.isCount_iff.mp suits
  refine ⟨n, value, ?_⟩
  rw [countSettings_holding name setting member held, Double.toWord_eq value, Nat.floor_natCast]

/-- Whatever the options and the key: without the option nothing is read, and a natural number is
read as itself exactly when it is a word, and as the greatest word if it lies beyond; every other
number is refused as a parameter. So when two searches are accepted with one of the count settings,
whatever else their options say and whatever their algorithms are, this setting is that of their
numbers, and the two agree exactly when the numbers are the same or neither is below the greatest
word. -/
theorem counts_read_to_greatest_word (r r' : OptionReader Float) :
    (∀ key : String,
      (r.options.get? key = none → ((count key).run.run r).1 = .ok none) ∧
      ∀ x, r.options.get? key = some x →
        (∀ n : Nat, Double.value? x = some (n : ℚ) →
          ((count key).run.run r).1 = .ok (some (min n (wordCount - 1))) ∧
          (((count key).run.run r).1 = .ok (some n) ↔ n < wordCount)) ∧
        ((¬∃ n : Nat, Double.value? x = some (n : ℚ)) →
          ∃ requirement, ((count key).run.run r).1 = .error (.invalidParameter key requirement))) ∧
    ∀ (name name' : String) (c c' : Config Float),
      ofOptions name r.options = .ok c → ofOptions name' r'.options = .ok c' →
      ∀ setting ∈ countSettings, ∀ x x' : Float,
        r.options.get? setting.1 = some x → r'.options.get? setting.1 = some x' →
        ∃ n n' : Nat, Double.value? x = some (n : ℚ) ∧ Double.value? x' = some (n' : ℚ) ∧
          setting.2 c = some (min n (wordCount - 1)) ∧
          setting.2 c' = some (min n' (wordCount - 1)) ∧
          (setting.2 c = setting.2 c' ↔ n = n' ∨ (wordCount - 1 ≤ n ∧ wordCount - 1 ≤ n')) := by
  have words : 0 < wordCount := by decide
  refine ⟨fun key => ⟨fun absent => ?_, fun x held => ⟨fun n value => ?_, fun other => ?_⟩⟩, ?_⟩
  · rw [run_count_absent absent]
  · rw [run_count_suits held (Double.isCount_iff.mpr ⟨n, value⟩), Double.toWord_eq value,
      Nat.floor_natCast]
    refine ⟨rfl, ?_⟩
    rw [Except.ok.injEq, Option.some.injEq]
    omega
  · rw [← Double.isCount_iff, ← OptionKind.countObjection_eq_none] at other
    obtain ⟨requirement, because⟩ := Option.ne_none_iff_exists'.mp other
    exact ⟨requirement, by rw [run_count_objects held because]⟩
  · intro name name' c c' accepted accepted' setting member x x' held held'
    obtain ⟨n, value, own⟩ := count_of_ok accepted setting member held
    obtain ⟨n', value', own'⟩ := count_of_ok accepted' setting member held'
    refine ⟨n, n', value, value', own, own', ?_⟩
    rw [own, own', Option.some.injEq]
    omega

/-- Settings of a search with nothing but a seed. -/
def seeded (seed : Float) : Table Float := .ofList [("seed", seed)]

theorem ofOptions_seeded {seed : Float} {n : Nat} (value : Double.value? seed = some (n : ℚ)) :
    ofOptions "TS" (seeded seed) = .ok (holding "TS" (seeded seed)) := by
  have known : "TS".toLower ∈ Algorithm.names := by decide +kernel
  refine (ofOptions_eq_ok (List.pairwise_singleton _ _)).mpr ⟨known, ?_, rfl⟩
  intro e member
  rw [List.mem_singleton.mp member]
  exact ⟨⟨"seed", .count⟩, by decide +kernel, rfl, Double.isCount_iff.mpr ⟨n, value⟩⟩

/-- Small seeds are told apart. -/
theorem counts_read_to_greatest_word_seeds :
    (holding "TS" (seeded 3.0)).seed.map UInt64.toNat ≠
      (holding "TS" (seeded 4.0)).seed.map UInt64.toNat := by
  have three : Double.value? 3.0 = some ((3 : Nat) : ℚ) := by decide +kernel
  have four : Double.value? 4.0 = some ((4 : Nat) : ℚ) := by decide +kernel
  obtain ⟨n, n', value, value', _, _, agree⟩ := (counts_read_to_greatest_word
      (ofTable (seeded 3.0)) (ofTable (seeded 4.0))).2 "TS" "TS" _ _
    (ofOptions_seeded three) (ofOptions_seeded four)
    ("seed", fun c => c.seed.map UInt64.toNat) (by simp [countSettings]) 3.0 4.0 rfl rfl
  rw [three, Option.some.injEq, Nat.cast_inj] at value
  rw [four, Option.some.injEq, Nat.cast_inj] at value'
  subst value value'
  exact fun same => absurd (agree.mp same) (by decide)

/-- As many as there are words and twice as many are accepted, read as another number than they
are, and searches with these seeds run with the same seed. -/
theorem seeds_beyond_words :
    ((count "seed").run.run (ofTable (seeded 18446744073709551616.0))).1 =
      .ok (some 18446744073709551615) ∧
    Double.value? 18446744073709551616.0 = some 18446744073709551616 ∧
    Double.value? 36893488147419103232.0 = some 36893488147419103232 ∧
    ∃ c c', ofOptions "TS" (seeded 18446744073709551616.0) = .ok c ∧
      ofOptions "TS" (seeded 36893488147419103232.0) = .ok c' ∧ c.seed = c'.seed := by
  have single : Double.value? 18446744073709551616.0 =
    some ((18446744073709551616 : Nat) : ℚ) := by decide +kernel
  have double : Double.value? 36893488147419103232.0 =
    some ((36893488147419103232 : Nat) : ℚ) := by decide +kernel
  have word : Scalar.toWord 18446744073709551616.0 = 18446744073709551615 := by decide +kernel
  refine ⟨?_, single, double, _, _, ofOptions_seeded single, ofOptions_seeded double, ?_⟩
  · rw [run_count_suits rfl (Double.isCount_iff.mpr ⟨_, single⟩), word]
  · decide +kernel

end Metaheuristic.Config
