import Metaheuristic.Proofs.Population.Evaluated
import Metaheuristic.Proofs.Strategy.Memory
import Metaheuristic.Proofs.Strategy.Settings
import Metaheuristic.Proofs.Table

/-! What strategies count. Every decision is counted once, whichever way it goes, so after a
number of steps the counters add up to what the steps decided. A report shows the counters by
name, and merging two reports adds what they show. -/
namespace Metaheuristic

namespace Report

variable {r other : Report} {name name' : String}

/-- The counters stand in the strict order of their names. -/
def Ordered (r : Report) : Prop := Table.Ordered r.counters.entries

theorem empty_ordered : Ordered .empty := List.Pairwise.nil

theorem Ordered.add (ordered : r.Ordered) (name : String) (value : UInt64) :
    (r.add name value).Ordered :=
  Table.Ordered.alterEntry ordered name _

theorem get?_add_self (ordered : r.Ordered) (value : UInt64) :
    (r.add name value).get? name = some ((r.get? name).getD 0 + value) :=
  Table.lookup_alterEntry_self ordered

theorem get?_add_of_ne (different : name' ≠ name) (value : UInt64) :
    (r.add name value).get? name' = r.get? name' :=
  Table.lookup_alterEntry_of_ne different _ _

/-- Adds entries one after the other. -/
def addAll (r : Report) (entries : List (String × UInt64)) : Report :=
  entries.foldl (fun r e => r.add e.1 e.2) r

theorem Ordered.addAll (ordered : r.Ordered) (entries : List (String × UInt64)) :
    (r.addAll entries).Ordered := by
  induction entries generalizing r with
  | nil => exact ordered
  | cons e entries ih => exact ih (ordered.add e.1 e.2)

/-- Entries of different names are added to what was there under their names. -/
theorem get?_addAll (ordered : r.Ordered) {entries : List (String × UInt64)}
    (once : (entries.map Prod.fst).Nodup) (name : String) :
    (r.addAll entries).get? name =
      match entries.lookup name with
      | some value => some ((r.get? name).getD 0 + value)
      | none => r.get? name := by
  induction entries generalizing r with
  | nil => rfl
  | cons e entries ih =>
    obtain ⟨key, value⟩ := e
    obtain ⟨fresh, rest⟩ := List.nodup_cons.mp once
    have found := ih (ordered.add key value) rest
    rw [addAll] at found
    rw [addAll, List.foldl_cons, found]
    by_cases same : name = key
    · subst same
      have missing : entries.lookup name = none := by
        refine List.lookup_eq_none_iff.mpr fun e member => ?_
        have differs : name ≠ e.1 := by
          rintro rfl
          exact fresh (List.mem_map.mpr ⟨e, member, rfl⟩)
        simpa using differs
      rw [missing, List.lookup_cons_self]
      exact get?_add_self ordered value
    · have differs : (name == key) = false := by simpa using same
      rw [get?_add_of_ne same, List.lookup_cons, differs]

theorem Ordered.once (ordered : r.Ordered) : (r.toList.map Prod.fst).Nodup :=
  (List.pairwise_map.mpr ordered).imp fun before => before.ne

/-- Merging adds what the reports show under the same name. -/
theorem get?_merge (ordered : r.Ordered) (ordered' : other.Ordered) (name : String) :
    (r.merge other).get? name =
      match other.get? name with
      | some value => some ((r.get? name).getD 0 + value)
      | none => r.get? name :=
  get?_addAll ordered ordered'.once name

theorem Ordered.merge (ordered : r.Ordered) (other : Report) : (r.merge other).Ordered :=
  ordered.addAll _

/-- A report of these counters and no others, in the order of their names. Counts are shown as
machine words. -/
structure Shows (names : List String) (count : String → Nat) (r : Report) : Prop where
  ordered : r.Ordered
  found : ∀ name, r.get? name = if name ∈ names then some (count name).toUInt64 else none

namespace Shows

variable {names : List String} {count count' : String → Nat} {rs : List Report}
  {counts : List (String → Nat)}

theorem empty_merge (shown : Shows names count r) : Shows names count (Report.empty.merge r) := by
  refine ⟨empty_ordered.merge r, fun name => ?_⟩
  have nothing : Report.empty.get? name = none := rfl
  rw [get?_merge empty_ordered shown.ordered, shown.found, nothing]
  split
  · rename_i value listed
    rw [listed, Option.getD_none, UInt64.zero_add]
  · rename_i missing
    exact missing.symm

theorem merge (left : Shows names count r) (right : Shows names count' other) :
    Shows names (fun name => count name + count' name) (r.merge other) := by
  refine ⟨left.ordered.merge other, fun name => ?_⟩
  rw [get?_merge left.ordered right.ordered, left.found, right.found]
  by_cases listed : name ∈ names
  · simp only [if_pos listed, Option.getD_some, Nat.toUInt64_eq, UInt64.ofNat_add]
  · simp only [if_neg listed]

/-- Merging reports one after the other adds up what they show. -/
theorem foldl_merge (first : Shows names count r) (rest : List.Forall₂ (Shows names) counts rs) :
    Shows names (fun name => count name + (counts.map (· name)).sum) (rs.foldl .merge r) := by
  induction rest generalizing count r with
  | nil => exact first
  | @cons count' r' counts rs next _ ih =>
    have joined := ih (first.merge next)
    simp only [Nat.add_assoc] at joined
    exact joined

end Shows

/-- The report of exact counts. -/
def ofTally (tally : List (String × Nat)) : Report :=
  addAll .empty (tally.map fun e => (e.1, e.2.toUInt64))

theorem ofTally_ordered (tally : List (String × Nat)) : (ofTally tally).Ordered :=
  empty_ordered.addAll _

theorem get?_ofTally {tally : List (String × Nat)} (once : (tally.map Prod.fst).Nodup)
    (name : String) : (ofTally tally).get? name = (tally.lookup name).map Nat.toUInt64 := by
  have names : (tally.map fun e => (e.1, e.2.toUInt64)).map Prod.fst = tally.map Prod.fst := by
    rw [List.map_map]
    rfl
  have shown : ∀ entries : List (String × Nat),
      (entries.map fun e => (e.1, e.2.toUInt64)).lookup name =
        (entries.lookup name).map Nat.toUInt64 := by
    intro entries
    induction entries with
    | nil => rfl
    | cons e entries ih =>
      rw [List.map_cons, List.lookup_cons, List.lookup_cons, ih]
      cases name == e.1 <;> rfl
  have nothing : Report.empty.get? name = none := rfl
  rw [ofTally, get?_addAll empty_ordered (names ▸ once), shown, nothing]
  cases tally.lookup name with
  | none => rfl
  | some count => exact congrArg some (UInt64.zero_add _)

end Report

namespace Strategy

variable {α : Type}

/-- The exact counters of a strategy, by the names that its report gives them. -/
def tally : Strategy α → List (String × Nat)
  | genetic s => [("matings", s.matings), ("mutations", s.mutations)]
  | differential s => [("replacements", s.replacements), ("kept", s.kept)]
  | annealing s => [("accepted_better", s.acceptedBetter), ("accepted_worse", s.acceptedWorse),
      ("rejected", s.rejected)]
  | tabu s => [("moves", s.moves), ("rejected", s.rejected), ("tabu_hits", s.hits),
      ("aspirations", s.aspirations), ("memory", s.memory.size)]
  | greyWolf s => [("leader_changes", s.leaderChanges)]

theorem report_eq (s : Strategy α) : s.report = .ofTally s.tally := by
  cases s <;> rfl

/-- The exact counter of a name, which is zero where there is none. -/
def count (s : Strategy α) (name : String) : Nat := (s.tally.lookup name).getD 0

end Strategy

/-- The names of the counters of an algorithm. -/
def Algorithm.counters {α : Type} : Algorithm α → List String
  | genetic _ => ["matings", "mutations"]
  | differential _ => ["replacements", "kept"]
  | annealing _ => ["accepted_better", "accepted_worse", "rejected"]
  | tabu _ => ["moves", "rejected", "tabu_hits", "aspirations", "memory"]
  | greyWolf _ => ["leader_changes"]

theorem Algorithm.counters_nodup {α : Type} (a : Algorithm α) : a.counters.Nodup := by
  cases a <;> simp [counters]

namespace Strategy

variable {α : Type}

theorem tally_names (s : Strategy α) : s.tally.map Prod.fst = s.algorithm.counters := by
  cases s <;> rfl

/-- A report shows the counters of the algorithm. -/
theorem report_shows (s : Strategy α) : s.report.Shows s.algorithm.counters s.count := by
  have once : (s.tally.map Prod.fst).Nodup := s.tally_names ▸ s.algorithm.counters_nodup
  rw [report_eq]
  refine ⟨Report.ofTally_ordered _, fun name => ?_⟩
  rw [Report.get?_ofTally once, ← tally_names, count]
  cases found : s.tally.lookup name with
  | none =>
    have missing : name ∉ s.tally.map Prod.fst := by
      intro member
      obtain ⟨e, inside, rfl⟩ := List.mem_map.mp member
      have differs := List.lookup_eq_none_iff.mp found e inside
      simp at differs
    rw [if_neg missing]
    rfl
  | some count =>
    obtain ⟨before, after, split, _⟩ := List.lookup_eq_some_iff.mp found
    have member : name ∈ s.tally.map Prod.fst := by simp [split]
    rw [if_pos member]
    rfl

end Strategy

variable {ρ α : Type} [Scalar α] [RandomSource ρ α] {l : Layout} {n : Nat} {p : Population α}

open Population (Sized)

omit [Scalar α] in
/-- A chromosome that was read has as many genes as the layout says. -/
theorem Population.Sized.length_chromosome {row : Nat} {region : Region} {genes : List α}
    (sized : p.Sized l n) (below : row < n) (read : p.chromosome row region = .ok genes) :
    genes.length = l.genes := by
  obtain ⟨genes', again, length⟩ := sized.exists_chromosome below region
  rw [read] at again
  cases again
  exact length

namespace Genetic

/-- No row mates more than once, and no gene is redrawn more than once. -/
theorem varyGenes_drawn (s : Settings α) (genes others : List α) :
    Draw.Yields (varyGenes s genes others : Draw ρ _) fun x => x.2 ≤ genes.length := by
  induction genes generalizing others with
  | nil =>
    cases others <;> exact .pure (Nat.zero_le _)
  | cons gene genes ih =>
    cases others with
    | nil => exact .pure (Nat.zero_le _)
    | cons other others =>
      refine Draw.Yields.anything.bind fun x _ => (ih others).bind fun rest few => .pure ?_
      rw [List.length_cons]
      dsimp only
      split <;> omega

theorem varyRows_counts {parents : Population α} (sized : parents.Sized l n) (rows : List Nat)
    (inside : ∀ row ∈ rows, row < n) (s : State α) :
    Draw.Yields (varyRows parents rows s p : Draw ρ _) fun x =>
      x.1.matings ≤ s.matings + rows.length ∧
        x.1.mutations ≤ s.mutations + rows.length * l.genes := by
  induction rows generalizing s p with
  | nil => exact .pure ⟨Nat.le_refl _, Nat.le_add_right ..⟩
  | cons row rows ih =>
    refine Draw.Yields.anything.bind fun mate _ => Draw.Yields.anything.bind fun others _ =>
      (Draw.Yields.ofExcept fun own read => sized.length_chromosome
        (inside row List.mem_cons_self) read).bind fun own length =>
      (varyGenes_drawn _ own others).bind fun drawn few =>
      Draw.Yields.anything.bind fun q _ => ?_
    refine (ih (fun r member => inside r (List.mem_cons_of_mem _ member)) _).weaken
      fun x ⟨matings, mutations⟩ => ?_
    rw [length] at few
    rw [List.length_cons, Nat.succ_mul]
    dsimp only at matings mutations
    constructor
    · split at matings <;> omega
    · omega

theorem vary_counts (s : State α) (sized : p.Sized l n) :
    Draw.Yields (vary s p : Draw ρ _) fun x =>
      x.1.matings ≤ s.matings + n ∧ x.1.mutations ≤ s.mutations + n * l.genes := by
  have inside : ∀ row ∈ List.range p.count, row < n := fun row member =>
    sized.count ▸ List.mem_range.mp member
  refine (varyRows_counts sized _ inside s).bind fun x counts => ?_
  rw [List.length_range, sized.count] at counts
  refine Draw.Yields.anything.bind fun q _ => .pure ?_
  exact counts

theorem settle_state (directions : List Direction) (s : State α) :
    Draw.Yields (settle directions s p : Draw ρ _) fun x => x.1 = s := by
  refine Draw.Yields.anything.bind fun sorted _ => Draw.Yields.anything.bind fun fraction _ =>
    Draw.Yields.anything.bind fun order _ => Draw.Yields.anything.bind fun reordered _ => ?_
  exact .pure rfl

end Genetic

namespace Differential

/-- Every row is counted once, as replaced or as kept. -/
theorem settleRows_counts {directions : List Direction} {rows : List Nat} {s : State α}
    {x : State α × Population α} (ran : settleRows directions rows s p = .ok x) :
    x.1.replacements + x.1.kept = s.replacements + s.kept + rows.length := by
  induction rows generalizing s p with
  | nil =>
    cases ran
    rfl
  | cons row rows ih =>
    obtain ⟨trial, _, ran⟩ := bind_ok.mp ran
    obtain ⟨incumbent, _, ran⟩ := bind_ok.mp ran
    obtain ⟨better, _, ran⟩ := bind_ok.mp ran
    rw [List.length_cons]
    cases better with
    | true =>
      obtain ⟨q, promoted, ran⟩ := bind_ok.mp ran
      have counted := ih ran
      dsimp only at counted
      omega
    | false =>
      have counted := ih ran
      dsimp only at counted
      omega

theorem settle_counts {directions : List Direction} {s : State α} {x : State α × Population α}
    (ran : settle directions s p = .ok x) :
    x.1.replacements + x.1.kept = s.replacements + s.kept + p.count := by
  have counted := settleRows_counts ran
  rwa [List.length_range] at counted

theorem vary_state (s : State α) :
    Draw.Yields (vary s p : Draw ρ _) fun x => x.1 = s := by
  refine Draw.Yields.anything.bind fun q _ => Draw.Yields.anything.bind fun q' _ => ?_
  exact .pure rfl

end Differential

namespace Annealing

theorem settle_counts (directions : List Direction) (progress : Progress) (s : State α) :
    Draw.Yields (settle directions progress s p : Draw ρ _) fun x =>
      x.1.acceptedBetter + x.1.acceptedWorse + x.1.rejected =
        s.acceptedBetter + s.acceptedWorse + s.rejected + 1 :=
  (settle_verdict .anything directions progress s p).weaken
    fun _ ⟨_, _, _, _, _, _, verdict⟩ => verdict.counted

theorem vary_state (s : State α) : Draw.Yields (vary s p : Draw ρ _) fun x => x.1 = s :=
  Draw.Yields.anything.bind fun _ _ => .pure rfl

end Annealing

namespace Tabu

/-- What the counters of a tabu search say after so many decisions. -/
structure State.Tallies (s : State α) (settled : Nat) : Prop where
  decided : s.moves + s.rejected = settled
  fresh : settled = 0 → s.memory = .empty
  moved : 0 < settled → 0 < s.moves
  remembered : 0 < settled → 0 < s.memory.size
  fits : s.memory.size ≤ s.settings.tenure
  few : s.memory.size ≤ s.moves
  aspired : s.aspirations ≤ s.moves
  strict : s.settings.strict = true → s.hits = s.aspirations + s.rejected
  climbing : s.settings.strict = false → s.hits = 0 ∧ s.aspirations = 0 ∧ s.memory.size ≤ 1

namespace State.Tallies

variable {s : State α} {settled : Nat}

omit [Scalar α] in
/-- Moving to a candidate that enters memory: the first one, or any one in a strict search,
where it may have been in memory. -/
theorem enter (tallies : s.Tallies settled) (positive : 0 < s.settings.tenure) (key : Key)
    (best : Option α) {known : Nat} (once : known ≤ 1)
    (allowed : settled = 0 ∧ known = 0 ∨ s.settings.strict = true) :
    State.Tallies { s with
      memory := s.memory.remember s.settings.tenure key, best := best, moves := s.moves + 1,
      hits := s.hits + known, aspirations := s.aspirations + known } (settled + 1) := by
  obtain ⟨fits, longer⟩ := Memory.size_remember positive tallies.fits key
  have some : s.memory = .empty ∨ 0 < s.memory.size := by
    rcases Nat.eq_zero_or_pos settled with none | some
    · exact .inl (tallies.fresh none)
    · exact .inr (tallies.remembered some)
  have decided := tallies.decided
  have few := tallies.few
  have aspired := tallies.aspired
  constructor
  case decided => dsimp only; omega
  case fresh => exact nofun
  case moved => exact fun _ => Nat.succ_pos _
  case remembered => exact fun _ => Memory.size_remember_pos _ key some
  case fits => exact fits
  case few => exact Nat.le_trans longer (Nat.succ_le_succ few)
  case aspired => dsimp only; omega
  case strict =>
    intro strict
    have hits := tallies.strict strict
    dsimp only
    omega
  case climbing =>
    intro climbing
    rcases allowed with ⟨first, none⟩ | strict
    · obtain ⟨hits, aspirations, _⟩ := tallies.climbing climbing
      have nothing : s.memory.size = 0 := by rw [tallies.fresh first]; rfl
      exact ⟨by dsimp only; omega, by dsimp only; omega, by dsimp only; omega⟩
    · rw [strict] at climbing
      contradiction

omit [Scalar α] in
/-- Moving to a better candidate without looking at memory. -/
theorem climb (tallies : s.Tallies settled) (later : 0 < settled)
    (climbing : s.settings.strict = false) (best : Option α) :
    State.Tallies { s with best := best, moves := s.moves + 1 } (settled + 1) := by
  have decided := tallies.decided
  constructor
  case decided => dsimp only; omega
  case fresh => exact nofun
  case moved => exact fun _ => Nat.succ_pos _
  case remembered => exact fun _ => tallies.remembered later
  case fits => exact tallies.fits
  case few => exact Nat.le_succ_of_le tallies.few
  case aspired => exact Nat.le_succ_of_le tallies.aspired
  case strict =>
    intro strict
    rw [climbing] at strict
    contradiction
  case climbing => exact tallies.climbing

omit [Scalar α] in
/-- Staying where one is. A strict search rejects only what is in memory. -/
theorem reject (tallies : s.Tallies settled) (later : 0 < settled) {known : Nat}
    (strict : s.settings.strict = true → known = 1)
    (climbing : s.settings.strict = false → known = 0) :
    State.Tallies { s with hits := s.hits + known, rejected := s.rejected + 1 } (settled + 1) := by
  have decided := tallies.decided
  constructor
  case decided => dsimp only; omega
  case fresh => exact nofun
  case moved => exact fun _ => tallies.moved later
  case remembered => exact fun _ => tallies.remembered later
  case fits => exact tallies.fits
  case few => exact tallies.few
  case aspired => exact tallies.aspired
  case strict =>
    intro isStrict
    have hits := tallies.strict isStrict
    have one := strict isStrict
    dsimp only
    omega
  case climbing =>
    intro isClimbing
    obtain ⟨hits, aspirations, size⟩ := tallies.climbing isClimbing
    exact ⟨by dsimp only; rw [hits, climbing isClimbing], aspirations, size⟩

end State.Tallies

theorem settle_tallies {directions : List Direction} {progress : Progress} {s : State α}
    {settled : Nat} {x : State α × Population α} (tallies : s.Tallies settled)
    (positive : 0 < s.settings.tenure) (clock : progress.iteration = settled)
    (ran : settle directions progress s p = .ok x) : x.1.Tallies (settled + 1) := by
  obtain ⟨_, _, _, _, _, _, verdict⟩ := settle_verdict ran
  have positive_of_later (later : progress.iteration ≠ 0) : 0 < settled :=
    Nat.pos_of_ne_zero (clock ▸ later)
  cases verdict with
  | enter allowed =>
    refine tallies.enter positive _ _ (Nat.zero_le 1) ?_
    exact allowed.imp (fun first => ⟨clock ▸ first, rfl⟩) And.left
  | aspire strict => exact tallies.enter positive _ _ (Nat.le_refl 1) (.inr strict)
  | refuse later strict =>
    exact tallies.reject (positive_of_later later) (fun _ => rfl) fun climbing => by
      simp [climbing] at strict
  | climb later climbing => exact tallies.climb (positive_of_later later) climbing _
  | stay later climbing =>
    exact tallies.reject (positive_of_later later) (fun strict => by simp [climbing] at strict)
      fun _ => rfl

theorem vary_state (s : State α) : Draw.Yields (vary s p : Draw ρ _) fun x => x.1 = s :=
  Draw.Yields.anything.bind fun _ _ => .pure rfl

end Tabu

namespace GreyWolf

/-- What the counter of the grey wolves says after so many decisions. -/
structure State.Tallies (s : State α) (settled : Nat) : Prop where
  few : s.leaderChanges ≤ settled
  changed : 0 < settled ∨ s.leaders ≠ [] → 0 < s.leaderChanges

/-- The first leader is a change, so that there was one wherever there are leaders. -/
theorem settle_tallies {directions : List Direction} {s : State α} {settled : Nat}
    {x : State α × Population α} (tallies : s.Tallies settled)
    (ran : settle directions s p = .ok x) : x.1.Tallies (settled + 1) := by
  obtain ⟨q, _, ran⟩ := bind_ok.mp ran
  obtain ⟨first, _, ran⟩ := bind_ok.mp ran
  obtain ⟨second, _, ran⟩ := bind_ok.mp ran
  obtain ⟨third, _, ran⟩ := bind_ok.mp ran
  cases ran
  have step : ∀ changed : Bool,
      (if changed then s.leaderChanges + 1 else s.leaderChanges) ≤ settled + 1 ∧
        s.leaderChanges ≤ if changed then s.leaderChanges + 1 else s.leaderChanges := by
    have few := tallies.few
    intro changed
    cases changed
    · exact ⟨Nat.le_succ_of_le few, Nat.le_refl _⟩
    · exact ⟨Nat.succ_le_succ few, Nat.le_succ _⟩
  refine ⟨(step _).1, fun _ => ?_⟩
  dsimp only
  cases led : s.leaders with
  | nil => exact Nat.succ_pos _
  | cons leader leaders =>
    have earlier := tallies.changed (.inr (by rw [led]; exact List.cons_ne_nil _ _))
    exact Nat.lt_of_lt_of_le earlier (step _).2

theorem vary_state (progress : Progress) (s : State α) :
    Draw.Yields (vary progress s p : Draw ρ _) fun x => x.1 = s := by
  unfold vary
  split
  · exact .pure rfl
  · exact Draw.Yields.anything.bind fun _ _ => .pure rfl

end GreyWolf

namespace Strategy

/-- What the counters of a strategy say after it settled and varied so many times, with so
many agents of so many genes. -/
def Tallies (agents genes settled varied : Nat) : Strategy α → Prop
  | genetic s => s.matings ≤ agents * varied ∧ s.mutations ≤ agents * genes * varied
  | differential s => s.replacements + s.kept = agents * settled
  | annealing s => s.acceptedBetter + s.acceptedWorse + s.rejected = settled
  | tabu s => s.Tallies settled
  | greyWolf s => s.Tallies settled

variable {settled varied : Nat}

omit [Scalar α] in
theorem tallies_fresh (a : Algorithm α) (agents genes : Nat) :
    a.strategy.Tallies agents genes 0 0 := by
  cases a with
  | genetic settings => exact ⟨Nat.zero_le _, Nat.zero_le _⟩
  | differential settings => exact rfl
  | annealing settings => exact rfl
  | tabu settings =>
    exact ⟨rfl, fun _ => rfl, nofun, nofun, Nat.zero_le _, Nat.zero_le _, Nat.zero_le _,
      fun _ => rfl, fun _ => ⟨rfl, rfl, Nat.zero_le _⟩⟩
  | greyWolf settings =>
    exact ⟨Nat.zero_le _, fun some => absurd some (by rintro (_ | _) <;> contradiction)⟩

/-- A decision more. The first one of a tabu search is that of iteration zero. -/
theorem settle_tallies {s : Strategy α} (directions : List Direction) {progress : Progress}
    (sized : p.Sized l n) (valid : s.algorithm.validate = .ok ())
    (clock : s.algorithm.cycles = 1 → progress.iteration = settled)
    (tallies : s.Tallies n l.genes settled varied) :
    Draw.Yields (s.settle directions progress p : Draw ρ _)
      fun x => x.1.Tallies n l.genes (settled + 1) varied := by
  cases s with
  | genetic s =>
    refine (Genetic.settle_state directions s).bind fun x same => .pure ?_
    rw [same]
    exact tallies
  | differential s =>
    refine (Draw.Yields.ofExcept fun x ran => Differential.settle_counts ran).bind
      fun x counted => .pure ?_
    exact counted.trans (by rw [tallies, sized.count, Nat.mul_succ])
  | annealing s =>
    refine (Annealing.settle_counts directions progress s).bind fun x counted => .pure ?_
    exact counted.trans (congrArg Nat.succ tallies)
  | tabu s =>
    obtain ⟨_, required, _⟩ := bind_ok.mp valid
    refine (Draw.Yields.ofExcept fun x ran => Tabu.settle_tallies tallies
      (requireCount_ok required) (clock rfl) ran).bind fun x counted => .pure counted
  | greyWolf s =>
    exact (Draw.Yields.ofExcept fun x ran => GreyWolf.settle_tallies tallies ran).bind
      fun x counted => .pure counted

/-- New trials once more. Only a genetic algorithm counts what it does then. -/
theorem vary_tallies {s : Strategy α} (progress : Progress) (sized : p.Sized l n)
    (tallies : s.Tallies n l.genes settled varied) :
    Draw.Yields (s.vary progress p : Draw ρ _)
      fun x => x.1.Tallies n l.genes settled (varied + 1) := by
  cases s with
  | genetic s =>
    refine (Genetic.vary_counts s sized).bind fun x counted => .pure ?_
    obtain ⟨matings, mutations⟩ := tallies
    rw [Tallies, Nat.mul_succ, Nat.mul_succ]
    omega
  | differential s =>
    refine (Differential.vary_state s).bind fun x same => .pure ?_
    rw [same]
    exact tallies
  | annealing s =>
    refine (Annealing.vary_state s).bind fun x same => .pure ?_
    rw [same]
    exact tallies
  | tabu s =>
    refine (Tabu.vary_state s).bind fun x same => .pure ?_
    rw [same]
    exact tallies
  | greyWolf s =>
    refine (GreyWolf.vary_state progress s).bind fun x same => .pure ?_
    rw [same]
    exact tallies

end Strategy
end Metaheuristic
