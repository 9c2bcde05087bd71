import Metaheuristic.Proofs.Population.Mirror
import Metaheuristic.Strategy.Basic

/-! Strategies on mirrored populations. A strategy learns about rewards only by
comparing them under a direction, so on a mirrored population it draws the same,
decides the same and leaves the mirrored population. Tabu search also remembers a
reward, which is mirrored with the others. -/
namespace Metaheuristic

variable {ρ α : Type} [Scalar α]

namespace Genetic

variable [RandomSource ρ α]

theorem settle_mirror [Scalar.LawfulNegation α] (ds : List Direction) (s : State α)
    (p : Population α) (k : Nat) :
    Parallels id (Prod.map id (Population.mirror k))
      (settle ds s p : Draw ρ (State α × Population α))
      (settle (mirrorDirections k ds) s (p.mirror k)) := by
  have sorted := Population.sortBestFirst_mirror p .trial ds k
  refine .bind (Draw.parallels_ofExcept sorted) fun p => ?_
  refine .after _ fun fraction => .after _ fun order => ?_
  exact .bind (Draw.parallels_ofExcept (p.reorder_mirror order k)) fun p => .pure rfl

private theorem varyRows_mirror (parents : Population α) (rows : List Nat) (s : State α)
    (p : Population α) (k : Nat) :
    Parallels id (Prod.map id (Population.mirror k))
      (varyRows parents rows s p : Draw ρ (State α × Population α))
      (varyRows (parents.mirror k) rows s (p.mirror k)) := by
  induction rows generalizing s p with
  | nil => exact .pure rfl
  | cons row rows ih =>
    rw [varyRows, varyRows]
    simp only [Population.chromosome_mirror]
    refine .after _ fun mate => .after _ fun others => .after _ fun own => ?_
    refine .after _ fun varied => ?_
    exact .bind (Draw.parallels_ofExcept (p.setChromosome_mirror row .trial varied.1 k)) (ih _)

theorem vary_mirror (s : State α) (p : Population α) (k : Nat) :
    Parallels id (Prod.map id (Population.mirror k))
      (vary s p : Draw ρ (State α × Population α)) (vary s (p.mirror k)) := by
  refine .bind (varyRows_mirror p _ s p k) fun varied => ?_
  exact .bind (Draw.parallels_ofExcept (varied.2.clip_mirror .trial k)) fun p => .pure rfl

end Genetic

namespace Differential

theorem improves_mirror [Scalar.LawfulNegation α] (ds : List Direction) (trial incumbent : List α)
    (k : Nat) :
    improves (mirrorDirections k ds) (mirrorReward k trial) (mirrorReward k incumbent) =
      improves ds trial incumbent := by
  by_cases one : ds.length = 1
  · obtain ⟨d, rfl⟩ := List.length_eq_one_iff.mp one
    have head (reward : List α) :
        (mirrorReward k reward).head? = reward.head?.map (Scalar.turn (k == 0)) := by
      rw [List.head?_eq_getElem?, List.head?_eq_getElem?, getElem?_mirrorReward]
    rw [mirrorDirections_single, improves, improves, head, head]
    cases trial.head? with
    | none => rfl
    | some x =>
      cases incumbent.head? with
      | none => rfl
      | some y => exact congrArg Except.ok (d.isBetter_turn (k == 0) x y)
  · have many (es : List Direction) (t i : List α) (length : es.length = ds.length) :
        improves es t i = .ok (dominates es t i) := by
      match es with
      | [] => rfl
      | [e] => exact absurd length.symm one
      | e :: f :: rest => rfl
    rw [many _ _ _ (length_mirrorDirections k ds), many ds _ _ rfl, dominates_mirror]

private theorem settleRows_mirror [Scalar.LawfulNegation α] (ds : List Direction) (rows : List Nat)
    (s : State α) (p : Population α) (k : Nat) :
    settleRows (mirrorDirections k ds) rows s (p.mirror k) =
      (settleRows ds rows s p).map (Prod.map id (Population.mirror k)) := by
  induction rows generalizing s p with
  | nil => rfl
  | cons row rows ih =>
    rw [settleRows, settleRows]
    refine bind_image (p.reward_mirror row .trial k) fun trial => ?_
    refine bind_image (p.reward_mirror row .incumbent k) fun incumbent => ?_
    rw [improves_mirror]
    refine bind_same fun better => ?_
    cases better with
    | true =>
      exact bind_image (p.promote_mirror row k) (ih _)
    | false => exact ih _ p

theorem settle_mirror [Scalar.LawfulNegation α] (ds : List Direction) (s : State α)
    (p : Population α) (k : Nat) :
    settle (mirrorDirections k ds) s (p.mirror k) =
      (settle ds s p).map (Prod.map id (Population.mirror k)) :=
  settleRows_mirror ds (List.range p.count) s p k

variable [RandomSource ρ α]

private theorem varyRows_mirror (s : Settings α) (rows : List Nat) (p : Population α) (k : Nat) :
    Parallels id (Population.mirror k) (varyRows s rows p : Draw ρ (Population α))
      (varyRows s rows (p.mirror k)) := by
  induction rows generalizing p with
  | nil => exact .pure rfl
  | cons row rows ih =>
    rw [varyRows, varyRows]
    refine .after _ fun picks => ?_
    split
    · simp only [Population.chromosome_mirror]
      refine .after _ fun forced => .after _ fun base => .after _ fun a => ?_
      refine .after _ fun b => .after _ fun current => .after _ fun genes => ?_
      exact .bind (Draw.parallels_ofExcept (p.setChromosome_mirror row .trial genes k)) ih
    · exact .throw Fault.outOfRange

theorem vary_mirror (s : State α) (p : Population α) (k : Nat) :
    Parallels id (Prod.map id (Population.mirror k))
      (vary s p : Draw ρ (State α × Population α)) (vary s (p.mirror k)) := by
  refine .bind (varyRows_mirror s.settings _ p k) fun p => ?_
  exact .bind (Draw.parallels_ofExcept (p.clip_mirror .trial k)) fun p => .pure rfl

end Differential

namespace Annealing

variable [RandomSource ρ α]

/-- Candidates are as far from the current state and as often better, and the state
is the worst one when it was. -/
theorem settle_mirror [Scalar.LawfulNegation α] (ds : List Direction) (progress : Progress)
    (s : State α) (p : Population α) (k : Nat) :
    Parallels id (Prod.map id (Population.mirror k))
      (settle ds progress s p : Draw ρ (State α × Population α))
      (settle (mirrorDirections k ds) progress s (p.mirror k)) := by
  cases ds with
  | nil =>
    rw [mirrorDirections_nil]
    exact .throw Fault.outOfRange
  | cons d ds =>
    obtain ⟨rest, first⟩ := mirrorDirections_cons k d ds
    have read (region : Region) := p.rewardAt_mirror region 0 0 k
    have moved (p : Population α) := Draw.parallels_ofExcept (ρ := ρ) (p.promote_mirror 0 k)
    rw [first, settle, settle]
    refine .bind (Draw.parallels_ofExcept (read .trial)) fun candidate => ?_
    refine .bind (Draw.parallels_ofExcept (read .incumbent)) fun current => ?_
    have distance : acceptance (s.settings.cooling.temperature s.settings.maxTemperature progress)
        (Scalar.turn (k == 0) candidate) (Scalar.turn (k == 0) current) =
          acceptance (s.settings.cooling.temperature s.settings.maxTemperature progress)
            candidate current := by
      unfold acceptance
      rw [Scalar.abs_sub_turn]
    rw [Direction.worst_turn, Scalar.beq_turn, Direction.isBetter_turn]
    split
    · exact .bind (moved p) fun p => .pure rfl
    · refine .after _ fun u => ?_
      rw [distance]
      split
      · exact .bind (moved p) fun p => .pure rfl
      · exact .pure rfl

theorem vary_mirror (s : State α) (p : Population α) (k : Nat) :
    Parallels id (Prod.map id (Population.mirror k))
      (vary s p : Draw ρ (State α × Population α)) (vary s (p.mirror k)) :=
  .bind (p.walk_mirror k) fun _ => .pure rfl

end Annealing

namespace Tabu

/-- A search that remembers the mirrored reward. -/
def State.mirror (k : Nat) (s : State α) : State α :=
  { s with best := s.best.map (Scalar.turn (k == 0)) }

section Settling

variable [Scalar.LawfulNegation α]

theorem aspires_mirror (d : Direction) (reward : α) (s : State α) (k : Nat) :
    aspires (d.turn (k == 0)) (Scalar.turn (k == 0) reward) (s.mirror k) =
      aspires d reward s := by
  obtain ⟨settings, memory, best, moves, rejected, hits, aspirations⟩ := s
  cases best with
  | none => rfl
  | some best => exact d.isBetter_turn (k == 0) reward best

theorem commit_mirror (d : Direction) (reward : α) (s : State α) (p : Population α) (k : Nat) :
    commit (d.turn (k == 0)) (Scalar.turn (k == 0) reward) (s.mirror k) (p.mirror k) =
      (commit d reward s p).map (Prod.map (State.mirror k) (Population.mirror k)) := by
  have kept (s : State α) (p : Population α) (d : Direction) (reward : α) :
      commit d reward s p = p.promote 0 >>= fun p => .ok ({ s with
        moves := s.moves + 1
        best := if aspires d reward s then some reward else s.best }, p) := rfl
  rw [kept, kept]
  refine bind_image (p.promote_mirror 0 k) fun p => ?_
  rw [aspires_mirror]
  split <;> rfl

theorem enter_mirror (d : Direction) (key : Key) (reward : α) (s : State α) (p : Population α)
    (k : Nat) :
    enter (d.turn (k == 0)) key (Scalar.turn (k == 0) reward) (s.mirror k) (p.mirror k) =
      (enter d key reward s p).map (Prod.map (State.mirror k) (Population.mirror k)) :=
  commit_mirror d reward { s with memory := s.memory.remember s.settings.tenure key } p k

theorem settle_mirror (ds : List Direction) (progress : Progress) (s : State α)
    (p : Population α) (k : Nat) :
    settle (mirrorDirections k ds) progress (s.mirror k) (p.mirror k) =
      (settle ds progress s p).map (Prod.map (State.mirror k) (Population.mirror k)) := by
  cases ds with
  | nil =>
    rw [mirrorDirections_nil]
    rfl
  | cons d ds =>
    obtain ⟨rest, first⟩ := mirrorDirections_cons k d ds
    rw [first, settle, settle, Population.chromosome_mirror]
    refine bind_image (p.rewardAt_mirror .trial 0 0 k) fun reward => bind_same fun genes => ?_
    have settings : (s.mirror k).settings = s.settings := rfl
    have memory : (s.mirror k).memory = s.memory := rfl
    dsimp only
    rw [settings, memory, aspires_mirror]
    split
    · exact enter_mirror d (keyOf s.settings genes) reward s p k
    · split
      · refine bind_image (p.rewardAt_mirror .incumbent 0 0 k) fun current => ?_
        rw [Direction.isBetter_turn]
        split
        · exact commit_mirror d reward s p k
        · rfl
      · split
        · exact enter_mirror d (keyOf s.settings genes) reward s p k
        · split
          · exact enter_mirror d (keyOf s.settings genes) reward
              { s with hits := s.hits + 1, aspirations := s.aspirations + 1 } p k
          · rfl

end Settling

variable [RandomSource ρ α]

theorem vary_mirror (s : State α) (p : Population α) (k : Nat) :
    Parallels id (Prod.map (State.mirror k) (Population.mirror k))
      (vary s p : Draw ρ (State α × Population α)) (vary (s.mirror k) (p.mirror k)) :=
  .bind (p.walk_mirror k) fun _ => .pure rfl

end Tabu

namespace GreyWolf

theorem settle_mirror [Scalar.LawfulNegation α] (ds : List Direction) (s : State α)
    (p : Population α) (k : Nat) :
    settle (mirrorDirections k ds) s (p.mirror k) =
      (settle ds s p).map (Prod.map id (Population.mirror k)) := by
  refine bind_image (p.sortBestFirst_mirror .trial ds k) fun p => ?_
  simp only [Population.chromosome_mirror]
  exact bind_same fun first => bind_same fun second => bind_same fun third => rfl

variable [RandomSource ρ α]

private theorem moveRows_mirror (reach : α) (leaders : List (List α)) (rows : List Nat)
    (p : Population α) (k : Nat) :
    Parallels id (Population.mirror k) (moveRows reach leaders rows p : Draw ρ (Population α))
      (moveRows reach leaders rows (p.mirror k)) := by
  induction rows generalizing p with
  | nil => exact .pure rfl
  | cons row rows ih =>
    rw [moveRows, moveRows, Population.chromosome_mirror]
    refine .after _ fun old => .after _ fun genes => ?_
    exact .bind (Draw.parallels_ofExcept (p.setChromosome_mirror row .trial genes k)) ih

theorem vary_mirror (progress : Progress) (s : State α) (p : Population α) (k : Nat) :
    Parallels id (Prod.map id (Population.mirror k))
      (vary progress s p : Draw ρ (State α × Population α)) (vary progress s (p.mirror k)) := by
  rw [vary, vary]
  split
  · exact .pure rfl
  · exact .bind (moveRows_mirror _ s.leaders _ p k) fun p => .pure rfl

end GreyWolf

namespace Strategy

def mirror (k : Nat) : Strategy α → Strategy α
  | tabu s => tabu (s.mirror k)
  | s => s

theorem report_mirror (s : Strategy α) (k : Nat) : (s.mirror k).report = s.report := by
  cases s <;> rfl

theorem strategy_mirror (a : Algorithm α) (k : Nat) : a.strategy.mirror k = a.strategy := by
  cases a <;> rfl

variable [RandomSource ρ α]

theorem settle_mirror [Scalar.LawfulNegation α] (ds : List Direction) (progress : Progress)
    (p : Population α) (s : Strategy α) (k : Nat) :
    Parallels id (Prod.map (Strategy.mirror k) (Population.mirror k))
      (s.settle ds progress p : Draw ρ (Strategy α × Population α))
      ((s.mirror k).settle (mirrorDirections k ds) progress (p.mirror k)) := by
  cases s with
  | genetic s => exact .bind (Genetic.settle_mirror ds s p k) fun _ => .pure rfl
  | differential s =>
    exact .bind (Draw.parallels_ofExcept (Differential.settle_mirror ds s p k)) fun _ => .pure rfl
  | annealing s => exact .bind (Annealing.settle_mirror ds progress s p k) fun _ => .pure rfl
  | tabu s =>
    exact .bind (Draw.parallels_ofExcept (Tabu.settle_mirror ds progress s p k)) fun _ => .pure rfl
  | greyWolf s =>
    exact .bind (Draw.parallels_ofExcept (GreyWolf.settle_mirror ds s p k)) fun _ => .pure rfl

theorem vary_mirror (progress : Progress) (p : Population α) (s : Strategy α) (k : Nat) :
    Parallels id (Prod.map (Strategy.mirror k) (Population.mirror k))
      (s.vary progress p : Draw ρ (Strategy α × Population α))
      ((s.mirror k).vary progress (p.mirror k)) := by
  cases s with
  | genetic s => exact .bind (Genetic.vary_mirror s p k) fun _ => .pure rfl
  | differential s => exact .bind (Differential.vary_mirror s p k) fun _ => .pure rfl
  | annealing s => exact .bind (Annealing.vary_mirror s p k) fun _ => .pure rfl
  | tabu s => exact .bind (Tabu.vary_mirror s p k) fun _ => .pure rfl
  | greyWolf s => exact .bind (GreyWolf.vary_mirror progress s p k) fun _ => .pure rfl

end Strategy
end Metaheuristic
