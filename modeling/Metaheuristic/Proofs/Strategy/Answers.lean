import Metaheuristic.Proofs.Number.UnitInterval
import Metaheuristic.Proofs.Population.Ranking
import Metaheuristic.Proofs.Random.Answers
import Metaheuristic.Proofs.Strategy.Sized

/-! Strategies with validated settings always answer. Rates that were checked are
probabilities, a selection keeps at least one row and at most all, and where several
rows or genes are drawn there are as many. What is drawn names rows that exist, so
nothing that is read or written afterwards lies outside the population. -/
namespace Metaheuristic

variable {ρ α : Type} [Scalar α] [RandomSource ρ α] {l : Layout} {n : Nat} {p : Population α}

open Population (Sized)

theorem requireWithin_ok {name : String} {hi : Nat} {x : α}
    (ran : (requireWithin name hi x : Except (ConfigError α) Unit) = .ok ()) :
    Scalar.le Scalar.zero x = true ∧ Scalar.le x (Scalar.ofNat hi) = true := by
  unfold requireWithin at ran
  split at ran
  · rename_i within
    simpa using within
  · cases ran

omit [Scalar α] in
theorem requireCount_ok {name : String} {value : Nat}
    (ran : (requireCount name value : Except (ConfigError α) Unit) = .ok ()) : 0 < value := by
  unfold requireCount at ran
  split at ran
  · cases ran
  · omega

omit [Scalar α] in
theorem requireAgents_ok {name : String} {required actual : Nat}
    (ran : (requireAgents name required actual : Except (ConfigError α) Unit) = .ok ()) :
    required ≤ actual := by
  unfold requireAgents at ran
  split at ran
  · cases ran
  · omega

namespace Population

omit [Scalar α] [RandomSource ρ α] in
/-- New genes of the right number can be written into a row. -/
theorem Sized.written {γ : Type} {row : Nat} {region : Region} {genes : List α}
    {next : Population α → Draw ρ γ} {R : γ → Prop} (sized : p.Sized l n) (below : row < n)
    (length : genes.length = l.genes) (after : ∀ q, Sized l n q → Draw.Answers (next q) R) :
    Draw.Answers (do
      let q ← Draw.ofExcept (p.setChromosome row region genes)
      next q) R :=
  (Draw.Answers.ofExcept (sized.exists_setChromosome below length region)).bind after

theorem walkGenes_answers (genes : List α) :
    Draw.Answers (walkGenes genes : Draw ρ (List α)) fun moved => moved.length = genes.length := by
  induction genes with
  | nil => exact .pure rfl
  | cons base rest ih =>
    exact Draw.Answers.walk.bind fun move _ => ih.bind fun moved length =>
      .pure (congrArg Nat.succ length)

theorem Sized.walkRows_answers {rows : List Nat} (sized : p.Sized l n)
    (below : ∀ row ∈ rows, row < n) :
    Draw.Answers (Population.walkRows rows p : Draw ρ (Population α)) (Sized l n) := by
  induction rows generalizing p with
  | nil => exact .pure sized
  | cons row rows ih =>
    have here := below row List.mem_cons_self
    refine (Draw.Answers.ofExcept (sized.exists_chromosome here .incumbent)).bind
      fun base length => (walkGenes_answers base).bind fun moved same => ?_
    exact sized.written here (same.trans length) fun q kept =>
      ih kept fun row member => below row (List.mem_cons_of_mem _ member)

theorem Sized.walk_answers (sized : p.Sized l n) :
    Draw.Answers (p.walk : Draw ρ (Population α)) (Sized l n) :=
  sized.walkRows_answers fun _ member => Nat.lt_of_lt_of_eq (List.mem_range.mp member) sized.count

omit [Scalar α] in
private theorem drawGenes_answers (count : Nat) :
    Draw.Answers (drawGenes count : Draw ρ (List α)) fun _ => True := by
  induction count with
  | zero => exact .pure trivial
  | succ count ih => exact Draw.Answers.unit.bind fun _ _ => ih.bind fun _ _ => .pure trivial

private theorem drawRows_answers (directions : List Direction) (count : Nat) :
    Draw.Answers (drawRows l directions count : Draw ρ (List (Row α))) fun _ => True := by
  induction count with
  | zero => exact .pure trivial
  | succ count ih =>
    exact (drawGenes_answers l.genes).bind fun _ _ => ih.bind fun _ _ => .pure trivial

/-- A first population can always be drawn. -/
theorem draw_answers {directions : List Direction} (count : Nat)
    (objectives : directions.length = l.objectives) :
    Draw.Answers (draw l directions count : Draw ρ (Population α)) (Sized l count) := by
  have drawn : Draw.Answers (draw l directions count : Draw ρ (Population α)) fun _ => True :=
    (drawRows_answers directions count).bind fun _ _ => .pure trivial
  exact (drawn.and_yields (draw_sized count objectives)).weaken fun _ both => both.2

end Population

namespace Selection

omit [RandomSource ρ α] in
theorem sizeOf_bounds (positive : 0 < n) (fraction : α) :
    1 ≤ sizeOf n fraction ∧ sizeOf n fraction ≤ n := by
  unfold sizeOf
  dsimp only
  split
  · omega
  · rename_i large
    have least := Nat.min_le_right (Scalar.toWord (Scalar.round (fraction * Scalar.ofNat n)))
      (Nat.max n 1)
    have most : Nat.max n 1 = n := Nat.max_eq_left positive
    rw [most] at least ⊢
    exact ⟨Nat.le_min.mpr ⟨by omega, positive⟩, least⟩

/-- What may come to the place of a row: a row that stays comes to its own place, and the other
places go to rows that stay. -/
def Fills (keep row entry : Nat) : Prop := row < keep ∧ entry = row ∨ keep ≤ row ∧ entry < keep

omit [Scalar α] [RandomSource ρ α] in
theorem below_of_fills {keep : Nat} {rows order : List Nat}
    (fills : List.Forall₂ (Fills keep) rows order) : ∀ entry ∈ order, entry < keep := by
  induction fills with
  | nil => nofun
  | cons first _ ih =>
    refine List.forall_mem_cons.mpr ⟨?_, ih⟩
    rcases first with ⟨stays, rfl⟩ | ⟨_, drawn⟩
    · exact stays
    · exact drawn

omit [Scalar α] [RandomSource ρ α] in
/-- A tournament has a winner, and it is one of those drawn. -/
theorem exists_winner {size : Nat} {picks : List Nat} (positive : 0 < size)
    (length : picks.length = size) : ∃ winner, picks.min? = some winner ∧ winner ∈ picks := by
  cases least : picks.min? with
  | none =>
    rw [List.min?_eq_none_iff.mp least] at length
    exact absurd length (Nat.ne_of_lt positive)
  | some winner => exact ⟨winner, rfl, List.min?_mem least⟩

variable (inRange : RandomSource.InRange ρ n)

include inRange

omit [Scalar α] in
theorem survivors_answers {keep : Nat} (positive : 0 < keep) (rows : List Nat) :
    Draw.Answers (survivors keep rows : Draw ρ (List Nat))
      fun order => List.Forall₂ (Fills keep) rows order := by
  induction rows with
  | nil => exact .pure .nil
  | cons row rows ih =>
    have longer {entry : Nat} (fills : Fills keep row entry) : Draw.Answers (do
        let rest ← survivors keep rows
        pure (entry :: rest) : Draw ρ (List Nat))
          fun order => List.Forall₂ (Fills keep) (row :: rows) order :=
      ih.bind fun rest all => .pure (.cons fills all)
    rw [survivors]
    split
    · rename_i stays
      exact longer (.inl ⟨stays, rfl⟩)
    · rename_i leaves
      exact (Draw.Answers.index inRange positive).bind
        fun entry drawn => longer (.inr ⟨Nat.le_of_not_lt leaves, drawn⟩)

omit inRange [Scalar α] in
/-- What the winner of every sample has, the winners of the tournaments have. -/
theorem tournaments_answers {size : Nat} {P : List Nat → Prop} {Q : Nat → Prop}
    (sampled : Draw.Answers (Draw.sample n size : Draw ρ (List Nat)) P)
    (wins : ∀ picks, P picks → Q (picks.min?.getD 0)) (count : Nat) :
    Draw.Answers (tournaments n size count : Draw ρ (List Nat)) fun order =>
      ∀ row ∈ order, Q row := by
  induction count with
  | zero => exact .pure nofun
  | succ count ih =>
    exact sampled.bind fun picks drawn =>
      ih.bind fun rest all => .pure (List.forall_mem_cons.mpr ⟨wins picks drawn, all⟩)

theorem order_answers (s : Selection) (positive : 0 < n) (fraction : α) :
    Draw.Answers (s.order n fraction : Draw ρ (List Nat)) fun order =>
      order.length = n ∧ ∀ row ∈ order, row < n := by
  obtain ⟨some, enough⟩ := sizeOf_bounds positive fraction
  have within : Draw.Answers (s.order n fraction : Draw ρ (List Nat)) fun order =>
      ∀ row ∈ order, row < n := by
    cases s with
    | random =>
      exact (survivors_answers inRange some (List.range n)).weaken fun order fills row member =>
        Nat.lt_of_lt_of_le (below_of_fills fills row member) enough
    | tournament =>
      refine tournaments_answers (.sample inRange (Nat.le_refl n) enough) (fun picks drawn => ?_) n
      obtain ⟨winner, least, member⟩ := exists_winner some drawn.1
      rw [least]
      exact drawn.2 winner member
  exact (within.and_yields (length_order s n fraction)).weaken fun _ both => both.symm

end Selection

variable {directions : List Direction}

namespace Genetic

omit [RandomSource ρ α] in
/-- What validated settings are. -/
theorem Settings.validate_ok {s : Settings α} (ran : s.validate = .ok ()) :
    (Scalar.le Scalar.zero s.crossoverRate = true ∧ Scalar.le s.crossoverRate Scalar.one = true) ∧
    (Scalar.le Scalar.zero s.mutationRate = true ∧ Scalar.le s.mutationRate Scalar.one = true) ∧
    Scalar.lt Scalar.zero s.survivalLow = true ∧ Scalar.le s.survivalHigh Scalar.one = true := by
  obtain ⟨_, crossover, ran⟩ := bind_ok.mp ran
  obtain ⟨_, mutation, ran⟩ := bind_ok.mp ran
  refine ⟨requireWithin_ok crossover, requireWithin_ok mutation, ?_⟩
  split at ran
  · rename_i survival
    rw [Bool.and_eq_true, Bool.and_eq_true] at survival
    exact ⟨survival.1.1, survival.2⟩
  · cases ran

variable [Scalar.LawfulUnit α] {s : State α}

theorem survivingFraction_answers {s : Settings α} (valid : s.validate = .ok ()) :
    Draw.Answers (survivingFraction s : Draw ρ α) fun _ => True := by
  obtain ⟨_, _, lower, upper⟩ := Settings.validate_ok valid
  unfold survivingFraction
  split
  · rename_i wide
    exact .between wide (Scalar.LawfulUnit.apart lower wide upper)
  · exact .pure trivial

theorem settle_answers (inRange : RandomSource.InRange ρ n) (valid : s.settings.validate = .ok ())
    (positive : 0 < n) (objectives : l.objectives = directions.length) (sized : p.Sized l n) :
    Draw.Answers (settle directions s p : Draw ρ _) fun x =>
      x.1.settings = s.settings ∧ x.2.Sized l n := by
  refine (Draw.Answers.ofExcept (sized.exists_sortBestFirst objectives .trial)).bind
    fun sorted kept => (survivingFraction_answers valid).bind fun fraction _ => ?_
  rw [kept.count]
  refine (Selection.order_answers inRange s.settings.selection positive fraction).bind
    fun order chosen => ?_
  exact (Draw.Answers.ofExcept (kept.exists_reorder chosen.1 chosen.2)).bind
    fun q kept' => .pure ⟨rfl, kept'⟩

variable {settings : Settings α} (valid : settings.validate = .ok ())

include valid

theorem varyGene_answers (gene other : α) :
    Draw.Answers (varyGene settings gene other : Draw ρ (α × Bool)) fun _ => True := by
  obtain ⟨_, mutation, _⟩ := Settings.validate_ok valid
  have half := Scalar.LawfulUnit.half (α := α)
  have finished (gene : α) : Draw.Answers (do
      if ← Draw.chance settings.mutationRate then
        let fresh ← Draw.unit
        return (fresh, true)
      else return (gene, false) : Draw ρ (α × Bool)) fun _ => True := by
    refine (Draw.Answers.chance mutation.1 mutation.2).bind fun redraw _ => ?_
    split
    · exact Draw.Answers.unit.bind fun _ _ => .pure trivial
    · exact .pure trivial
  refine (Draw.Answers.chance half.1 half.2).bind fun keep _ => ?_
  split
  · exact finished gene
  · exact Draw.Answers.walk.bind fun weight _ => finished _

theorem varyGenes_answers (genes others : List α) :
    Draw.Answers (varyGenes settings genes others : Draw ρ (List α × Nat)) fun x =>
      x.1.length = genes.length := by
  induction genes generalizing others with
  | nil => exact .pure rfl
  | cons gene genes ih =>
    cases others with
    | nil => exact .pure rfl
    | cons other others =>
      exact (varyGene_answers valid gene other).bind fun x _ => (ih others).bind
        fun rest length => .pure (congrArg Nat.succ length)

omit [Scalar.LawfulUnit α] in
theorem mateOf_answers (inRange : RandomSource.InRange ρ n) {row : Nat} (below : row < n) :
    Draw.Answers (mateOf settings n row : Draw ρ Nat) fun mate => mate < n := by
  obtain ⟨crossover, _⟩ := Settings.validate_ok valid
  refine (Draw.Answers.chance crossover.1 crossover.2).bind fun mates _ => ?_
  split
  · exact .index inRange (Nat.zero_lt_of_lt below)
  · exact .pure below

theorem varyRows_answers (inRange : RandomSource.InRange ρ n) {parents : Population α}
    (before : parents.Sized l n) {rows : List Nat} (below : ∀ row ∈ rows, row < n)
    (own : s.settings = settings) (sized : p.Sized l n) :
    Draw.Answers (varyRows parents rows s p : Draw ρ _) fun x =>
      x.1.settings = settings ∧ x.2.Sized l n := by
  induction rows generalizing s p with
  | nil => exact .pure ⟨own, sized⟩
  | cons row rows ih =>
    have here := below row List.mem_cons_self
    rw [varyRows, own, before.count]
    refine (mateOf_answers valid inRange here).bind fun mate there => ?_
    refine (Draw.Answers.ofExcept (before.exists_chromosome there .trial)).bind fun others _ => ?_
    refine (Draw.Answers.ofExcept (before.exists_chromosome here .trial)).bind
      fun genes length => ?_
    refine (varyGenes_answers valid genes others).bind fun varied same => ?_
    exact sized.written here (same.trans length) fun q kept =>
      ih (fun row member => below row (List.mem_cons_of_mem _ member)) rfl kept

omit valid in
theorem vary_answers (inRange : RandomSource.InRange ρ n) (valid : s.settings.validate = .ok ())
    (sized : p.Sized l n) :
    Draw.Answers (vary s p : Draw ρ _) fun x => x.1.settings = s.settings ∧ x.2.Sized l n := by
  have below : ∀ row ∈ List.range p.count, row < n := fun _ member =>
    Nat.lt_of_lt_of_eq (List.mem_range.mp member) sized.count
  refine (varyRows_answers valid inRange sized below rfl sized).bind fun x kept => ?_
  exact (Draw.Answers.ofExcept (kept.2.exists_clip .trial)).bind fun q clipped =>
    .pure ⟨kept.1, clipped⟩

end Genetic

namespace Differential

variable {s : State α}

omit [RandomSource ρ α] in
theorem Settings.validate_ok {s : Settings α} (ran : s.validate = .ok ()) :
    Scalar.le Scalar.zero s.crossoverRate = true ∧
      Scalar.le s.crossoverRate Scalar.one = true := by
  obtain ⟨_, _, ran⟩ := bind_ok.mp ran
  exact requireWithin_ok ran

omit [RandomSource ρ α] in
theorem exists_improves {trial incumbent : List α} (left : trial.length = directions.length)
    (right : incumbent.length = directions.length) :
    ∃ b, improves directions trial incumbent = .ok b ∧ True := by
  unfold improves
  split
  · rename_i d
    obtain ⟨x, rfl⟩ := List.length_eq_one_iff.mp left
    obtain ⟨y, rfl⟩ := List.length_eq_one_iff.mp right
    exact ⟨_, rfl, trivial⟩
  · exact ⟨_, rfl, trivial⟩

omit [RandomSource ρ α] in
theorem exists_settleRows (objectives : l.objectives = directions.length) {rows : List Nat}
    (below : ∀ row ∈ rows, row < n) (sized : p.Sized l n) :
    ∃ x, settleRows directions rows s p = .ok x ∧
      x.1.settings = s.settings ∧ x.2.Sized l n := by
  induction rows generalizing s p with
  | nil => exact ⟨_, rfl, rfl, sized⟩
  | cons row rows ih =>
    have here := below row List.mem_cons_self
    have later : ∀ row ∈ rows, row < n := fun row member =>
      below row (List.mem_cons_of_mem _ member)
    rw [settleRows]
    refine exists_bind (sized.exists_reward here .trial) fun trial left => ?_
    refine exists_bind (sized.exists_reward here .incumbent) fun incumbent right => ?_
    refine exists_bind (exists_improves (left.trans objectives) (right.trans objectives))
      fun better _ => ?_
    split
    · exact exists_bind (sized.exists_promote here) fun q kept => ih later kept
    · exact ih later sized

omit [Scalar α] in
/-- The rows that a difference is made of: three of them, none beyond the last. -/
theorem partners_answers (inRange : RandomSource.InRange ρ n) (four : 4 ≤ n) (row : Nat) :
    Draw.Answers (partners n row : Draw ρ (List Nat)) fun picks =>
      picks.length = 3 ∧ ∀ k ∈ picks, k < n := by
  refine (Draw.Answers.sample (inRange.mono (Nat.sub_le n 1)) (Nat.le_refl _) (by omega)).bind
    fun picks drawn => .pure ?_
  refine ⟨(List.length_map _).trans drawn.1, fun k member => ?_⟩
  obtain ⟨j, inside, rfl⟩ := List.mem_map.mp member
  have narrow := drawn.2 j inside
  split <;> omega

theorem trialGenes_answers {settings : Settings α} (valid : settings.validate = .ok ())
    (forced place : Nat) {base a b current : List α} {genes : Nat} (first : base.length = genes)
    (second : a.length = genes) (third : b.length = genes) (own : current.length = genes) :
    Draw.Answers (trialGenes settings forced place base a b current : Draw ρ (List α))
      fun trial => trial.length = genes := by
  obtain ⟨lower, upper⟩ := Settings.validate_ok valid
  induction genes generalizing place base a b current with
  | zero =>
    rw [List.eq_nil_of_length_eq_zero first]
    exact .pure rfl
  | succ genes ih =>
    obtain ⟨x, base, rfl⟩ := List.exists_cons_of_length_eq_add_one first
    obtain ⟨y, a, rfl⟩ := List.exists_cons_of_length_eq_add_one second
    obtain ⟨z, b, rfl⟩ := List.exists_cons_of_length_eq_add_one third
    obtain ⟨w, current, rfl⟩ := List.exists_cons_of_length_eq_add_one own
    have rest := ih (place + 1) (Nat.succ.inj first) (Nat.succ.inj second) (Nat.succ.inj third)
      (Nat.succ.inj own)
    rw [trialGenes]
    split
    · exact rest.bind fun trial length => .pure (congrArg Nat.succ length)
    · exact (Draw.Answers.chance lower upper).bind fun mutant _ => rest.bind
        fun trial length => .pure (congrArg Nat.succ length)

theorem varyRows_answers (inRange : RandomSource.InRange ρ n) {settings : Settings α}
    (valid : settings.validate = .ok ()) (four : 4 ≤ n) (genes : 0 < l.genes) {rows : List Nat}
    (below : ∀ row ∈ rows, row < n) (sized : p.Sized l n) :
    Draw.Answers (varyRows settings rows p : Draw ρ _) (Sized l n) := by
  induction rows generalizing p with
  | nil => exact .pure sized
  | cons row rows ih =>
    have here := below row List.mem_cons_self
    rw [varyRows, sized.count]
    refine (partners_answers inRange four row).bind fun picks chosen => ?_
    obtain ⟨three, within⟩ := chosen
    obtain ⟨r0, r1, r2, rfl⟩ := List.length_eq_three.mp three
    have read (k : Nat) (member : k ∈ [r0, r1, r2]) := Draw.Answers.ofExcept (ρ := ρ)
      (sized.exists_chromosome (within k member) .incumbent)
    refine (Draw.Answers.index inRange (sized.layout.symm ▸ genes)).bind fun forced _ => ?_
    refine (read r0 (by simp)).bind fun base first => (read r1 (by simp)).bind fun a second =>
      (read r2 (by simp)).bind fun b third => ?_
    refine (Draw.Answers.ofExcept (sized.exists_chromosome here .incumbent)).bind
      fun current own => ?_
    refine (trialGenes_answers valid forced 0 first second third own).bind fun trial length => ?_
    exact sized.written here length fun q kept =>
      ih (fun row member => below row (List.mem_cons_of_mem _ member)) kept

theorem vary_answers (inRange : RandomSource.InRange ρ n) (valid : s.settings.validate = .ok ())
    (four : 4 ≤ n) (genes : 0 < l.genes) (sized : p.Sized l n) :
    Draw.Answers (vary s p : Draw ρ _) fun x => x.1.settings = s.settings ∧ x.2.Sized l n := by
  have below : ∀ row ∈ List.range p.count, row < n := fun _ member =>
    Nat.lt_of_lt_of_eq (List.mem_range.mp member) sized.count
  refine (varyRows_answers inRange valid four genes below sized).bind fun q kept => ?_
  exact (Draw.Answers.ofExcept (kept.exists_clip .trial)).bind fun q' clipped =>
    .pure ⟨rfl, clipped⟩

end Differential

namespace Annealing

variable {s : State α}

theorem settle_answers (progress : Progress) (one : 0 < n) (directed : directions ≠ [])
    (objectives : l.objectives = directions.length) (sized : p.Sized l n) :
    Draw.Answers (settle directions progress s p : Draw ρ _) fun x =>
      x.1.settings = s.settings ∧ x.2.Sized l n := by
  have reward (region : Region) := sized.exists_rewardAt one
    (objectives ▸ List.length_pos_iff.mpr directed) region
  have accepted (s' : State α) (same : s'.settings = s.settings) : Draw.Answers (do
      let p ← Draw.ofExcept (p.promote 0)
      return (s', p) : Draw ρ (State α × Population α)) fun x =>
        x.1.settings = s.settings ∧ x.2.Sized l n :=
    (Draw.Answers.ofExcept (sized.exists_promote one)).bind fun q kept => .pure ⟨same, kept⟩
  obtain ⟨candidate, readCandidate⟩ := reward .trial
  obtain ⟨current, readCurrent⟩ := reward .incumbent
  unfold settle
  split
  · exact absurd rfl directed
  · refine (Draw.Answers.ofExcept (Q := fun _ => True) ⟨candidate, readCandidate, trivial⟩).bind
      fun x _ => ?_
    refine (Draw.Answers.ofExcept (Q := fun _ => True) ⟨current, readCurrent, trivial⟩).bind
      fun y _ => ?_
    split
    · exact accepted _ rfl
    · refine Draw.Answers.unit.bind fun u _ => ?_
      split
      · exact accepted _ rfl
      · exact .pure ⟨rfl, sized⟩

theorem vary_answers (sized : p.Sized l n) :
    Draw.Answers (vary s p : Draw ρ _) fun x => x.1.settings = s.settings ∧ x.2.Sized l n :=
  sized.walk_answers.bind fun _ kept => .pure ⟨rfl, kept⟩

end Annealing

namespace Tabu

variable {s : State α}

omit [RandomSource ρ α] in
private theorem exists_commit (d : Direction) (reward : α) (one : 0 < n) (sized : p.Sized l n) :
    ∃ x, commit d reward s p = .ok x ∧ x.1.settings = s.settings ∧ x.2.Sized l n :=
  exists_bind (sized.exists_promote one) fun _ kept => ⟨_, rfl, rfl, kept⟩

omit [RandomSource ρ α] in
theorem exists_settle (progress : Progress) (one : 0 < n) (directed : directions ≠ [])
    (objectives : l.objectives = directions.length) (sized : p.Sized l n) :
    ∃ x, settle directions progress s p = .ok x ∧ x.1.settings = s.settings ∧ x.2.Sized l n := by
  have reward (region : Region) := sized.exists_rewardAt one
    (objectives ▸ List.length_pos_iff.mpr directed) region
  obtain ⟨candidate, readCandidate⟩ := reward .trial
  obtain ⟨current, readCurrent⟩ := reward .incumbent
  unfold settle
  split
  · exact absurd rfl directed
  · refine exists_bind (Q := fun _ => True) ⟨candidate, readCandidate, trivial⟩ fun x _ => ?_
    refine exists_bind (sized.exists_chromosome one .trial) fun genes _ => ?_
    dsimp only
    split
    · exact exists_commit _ x one sized
    · split
      · refine exists_bind (Q := fun _ => True) ⟨current, readCurrent, trivial⟩ fun y _ => ?_
        split
        · exact exists_commit _ x one sized
        · exact ⟨_, rfl, rfl, sized⟩
      · split
        · exact exists_commit _ x one sized
        · split
          · exact exists_commit _ x one sized
          · exact ⟨_, rfl, rfl, sized⟩

theorem vary_answers (sized : p.Sized l n) :
    Draw.Answers (vary s p : Draw ρ _) fun x => x.1.settings = s.settings ∧ x.2.Sized l n :=
  sized.walk_answers.bind fun _ kept => .pure ⟨rfl, kept⟩

end Tabu

namespace GreyWolf

variable {s : State α}

omit [RandomSource ρ α] in
theorem exists_settle (three : 3 ≤ n) (objectives : l.objectives = directions.length)
    (sized : p.Sized l n) :
    ∃ x, settle directions s p = .ok x ∧ x.1.settings = s.settings ∧ x.2.Sized l n ∧
      ∀ leader ∈ x.1.leaders, leader.length = l.genes := by
  refine exists_bind (sized.exists_sortBestFirst objectives .trial) fun q kept => ?_
  refine exists_bind (kept.exists_chromosome (show 0 < n by omega) .trial) fun first length => ?_
  refine exists_bind (kept.exists_chromosome (show 1 < n by omega) .trial) fun second length' => ?_
  refine exists_bind (kept.exists_chromosome (show 2 < n by omega) .trial) fun third length'' => ?_
  exact ⟨_, rfl, rfl, kept, by simp [length, length', length'']⟩

theorem addPoints_answers (reach gene : α) {place : Nat} {leaders : List (List α)}
    (led : ∀ leader ∈ leaders, place < leader.length) (sum : α) :
    Draw.Answers (addPoints reach gene place leaders sum : Draw ρ α) fun _ => True := by
  induction leaders generalizing sum with
  | nil => exact .pure trivial
  | cons leader leaders ih =>
    obtain ⟨first, rest⟩ := List.forall_mem_cons.mp led
    exact Draw.Answers.unit.bind fun spread _ => Draw.Answers.unit.bind fun pull _ =>
      (Draw.Answers.ofExcept (exists_entry first)).bind fun lead _ => ih rest _

/-- A row that is no longer than any leader. -/
theorem moveGenes_answers (reach : α) {leaders : List (List α)} (place : Nat) {genes : List α}
    (led : ∀ leader ∈ leaders, place + genes.length ≤ leader.length) :
    Draw.Answers (moveGenes reach leaders place genes : Draw ρ (List α)) fun moved =>
      moved.length = genes.length := by
  induction genes generalizing place with
  | nil => exact .pure rfl
  | cons gene genes ih =>
    have here : ∀ leader ∈ leaders, place < leader.length := fun leader member =>
      Nat.lt_of_lt_of_le (Nat.lt_add_of_pos_right (Nat.succ_pos _)) (led leader member)
    have later : ∀ leader ∈ leaders, place + 1 + genes.length ≤ leader.length := by
      intro leader member
      rw [Nat.add_right_comm]
      exact led leader member
    exact (addPoints_answers reach gene here _).bind fun sum _ => (ih (place + 1) later).bind
      fun moved length => .pure (congrArg Nat.succ length)

theorem moveRows_answers (reach : α) {leaders : List (List α)} {rows : List Nat}
    (led : ∀ leader ∈ leaders, leader.length = l.genes) (below : ∀ row ∈ rows, row < n)
    (sized : p.Sized l n) :
    Draw.Answers (moveRows reach leaders rows p : Draw ρ _) (Sized l n) := by
  induction rows generalizing p with
  | nil => exact .pure sized
  | cons row rows ih =>
    have here := below row List.mem_cons_self
    refine (Draw.Answers.ofExcept (sized.exists_chromosome here .trial)).bind
      fun genes length => ?_
    have room : ∀ leader ∈ leaders, 0 + genes.length ≤ leader.length := by
      intro leader member
      rw [Nat.zero_add, length, led leader member]
    refine (moveGenes_answers reach 0 room).bind fun moved same => ?_
    exact sized.written here (same.trans length) fun q kept =>
      ih (fun row member => below row (List.mem_cons_of_mem _ member)) kept

theorem vary_answers (progress : Progress) (led : ∀ leader ∈ s.leaders, leader.length = l.genes)
    (sized : p.Sized l n) :
    Draw.Answers (vary progress s p : Draw ρ _) fun x => x.1 = s ∧ x.2.Sized l n := by
  have below : ∀ row ∈ List.range p.count, row < n := fun _ member =>
    Nat.lt_of_lt_of_eq (List.mem_range.mp member) sized.count
  unfold vary
  split
  · exact .pure ⟨rfl, sized⟩
  · exact (moveRows_answers _ led below sized).bind fun q kept => .pure ⟨rfl, kept⟩

end GreyWolf

namespace Strategy

/-- The algorithm that a strategy carries out. -/
def algorithm : Strategy α → Algorithm α
  | genetic s => .genetic s.settings
  | differential s => .differential s.settings
  | annealing s => .annealing s.settings
  | tabu s => .tabu s.settings
  | greyWolf s => .greyWolf s.settings

/-- The chromosomes that a strategy follows. -/
def leaders : Strategy α → List (List α)
  | greyWolf s => s.leaders
  | _ => []

variable {s : Strategy α} [Scalar.LawfulUnit α]

/-- Settling always answers, when the algorithm was accepted for so many agents and
objectives. Leaders have as many genes as the rows they are copied from. -/
theorem settle_answers (progress : Progress) (inRange : RandomSource.InRange ρ n)
    (accepted : s.algorithm.validateFor n directions.length = .ok ()) (positive : 0 < n)
    (directed : directions ≠ []) (objectives : l.objectives = directions.length)
    (sized : p.Sized l n) :
    Draw.Answers (s.settle directions progress p : Draw ρ _) fun x =>
      x.1.algorithm = s.algorithm ∧ x.2.Sized l n ∧
        ∀ leader ∈ x.1.leaders, leader.length = l.genes := by
  obtain ⟨_, valid, required⟩ := bind_ok.mp accepted
  cases s with
  | genetic s =>
    exact (Genetic.settle_answers inRange valid positive objectives sized).bind
      fun x kept => .pure ⟨congrArg Algorithm.genetic kept.1, kept.2, nofun⟩
  | differential s =>
    refine (Draw.Answers.ofExcept (Differential.exists_settleRows objectives ?_ sized)).bind
      fun x kept => .pure ⟨congrArg Algorithm.differential kept.1, kept.2, nofun⟩
    exact fun _ member => Nat.lt_of_lt_of_eq (List.mem_range.mp member) sized.count
  | annealing s =>
    exact (Annealing.settle_answers progress positive directed objectives sized).bind
      fun x kept => .pure ⟨congrArg Algorithm.annealing kept.1, kept.2, nofun⟩
  | tabu s =>
    exact (Draw.Answers.ofExcept
      (Tabu.exists_settle progress positive directed objectives sized)).bind
        fun x kept => .pure ⟨congrArg Algorithm.tabu kept.1, kept.2, nofun⟩
  | greyWolf s =>
    exact (Draw.Answers.ofExcept
      (GreyWolf.exists_settle (requireAgents_ok required) objectives sized)).bind
        fun x kept => .pure ⟨congrArg Algorithm.greyWolf kept.1, kept.2⟩

/-- Varying always answers too, where the leaders have as many genes as the rows. -/
theorem vary_answers (progress : Progress) (inRange : RandomSource.InRange ρ n)
    {objectives : Nat} (accepted : s.algorithm.validateFor n objectives = .ok ())
    (genes : 0 < l.genes) (sized : p.Sized l n)
    (led : ∀ leader ∈ s.leaders, leader.length = l.genes) :
    Draw.Answers (s.vary progress p : Draw ρ _) fun x =>
      x.1.algorithm = s.algorithm ∧ x.2.Sized l n ∧
        ∀ leader ∈ x.1.leaders, leader.length = l.genes := by
  obtain ⟨_, valid, required⟩ := bind_ok.mp accepted
  cases s with
  | genetic s =>
    exact (Genetic.vary_answers inRange valid sized).bind
      fun x kept => .pure ⟨congrArg Algorithm.genetic kept.1, kept.2, nofun⟩
  | differential s =>
    exact (Differential.vary_answers inRange valid (requireAgents_ok required) genes sized).bind
      fun x kept => .pure ⟨congrArg Algorithm.differential kept.1, kept.2, nofun⟩
  | annealing s =>
    exact (Annealing.vary_answers sized).bind
      fun x kept => .pure ⟨congrArg Algorithm.annealing kept.1, kept.2, nofun⟩
  | tabu s =>
    exact (Tabu.vary_answers sized).bind
      fun x kept => .pure ⟨congrArg Algorithm.tabu kept.1, kept.2, nofun⟩
  | greyWolf s =>
    refine (GreyWolf.vary_answers progress led sized).bind fun x kept => .pure ?_
    obtain ⟨t, q⟩ := x
    obtain ⟨rfl, kept⟩ := kept
    exact ⟨rfl, kept, led⟩

end Strategy
end Metaheuristic
