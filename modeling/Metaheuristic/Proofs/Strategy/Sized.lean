import Metaheuristic.Population.Sampling
import Metaheuristic.Proofs.Population.Sized
import Metaheuristic.Proofs.Random.Draw
import Metaheuristic.Proofs.Strategy.Verdict
import Metaheuristic.Strategy.Basic

/-! Strategies keep populations sized, whatever they draw. -/
namespace Metaheuristic

variable {ρ α : Type} [Scalar α] [RandomSource ρ α] {l : Layout} {n : Nat} {p : Population α}

open Population (Sized)

namespace Selection

omit [Scalar α] in
theorem length_survivors (keep : Nat) (rows : List Nat) :
    Draw.Yields (survivors keep rows : Draw ρ (List Nat)) fun order =>
      order.length = rows.length := by
  induction rows with
  | nil => exact .pure rfl
  | cons row rows ih =>
    have longer (entry : Nat) : Draw.Yields (do
        let rest ← survivors keep rows
        pure (entry :: rest) : Draw ρ (List Nat)) fun order =>
          order.length = (row :: rows).length := by
      refine ih.bind fun rest length => .pure ?_
      rw [List.length_cons, List.length_cons, length]
    rw [survivors]
    split
    · exact Draw.Yields.anything.bind fun entry _ => longer entry
    · exact Draw.Yields.anything.bind fun entry _ => longer entry

omit [Scalar α] in
theorem length_tournaments (rows size count : Nat) :
    Draw.Yields (tournaments rows size count : Draw ρ (List Nat)) fun order =>
      order.length = count := by
  induction count with
  | zero => exact .pure rfl
  | succ count ih =>
    refine Draw.Yields.anything.bind fun sample _ => ih.bind fun rest length => .pure ?_
    rw [List.length_cons, length]

theorem length_order (s : Selection) (rows : Nat) (fraction : α) :
    Draw.Yields (s.order rows fraction : Draw ρ (List Nat)) fun order => order.length = rows := by
  cases s with
  | random =>
    exact (length_survivors _ (List.range rows)).weaken fun order length =>
      length.trans List.length_range
  | tournament => exact length_tournaments rows _ rows

end Selection

namespace Population

omit [Scalar α] [RandomSource ρ α] in
/-- New genes are written only when they fit, so what follows starts from a sized
population again. -/
theorem Sized.writes {γ : Type} {row : Nat} {region : Region} {genes : List α}
    {next : Population α → Draw ρ γ} {R : γ → Prop} (sized : p.Sized l n)
    (after : ∀ q, Sized l n q → Draw.Yields (next q) R) :
    Draw.Yields (do
      let q ← Draw.ofExcept (p.setChromosome row region genes)
      next q) R :=
  (Draw.Yields.ofExcept fun _ written => sized.setChromosome written).bind after

theorem Sized.walkRows (rows : List Nat) (sized : p.Sized l n) :
    Draw.Yields (walkRows rows p : Draw ρ (Population α)) (Sized l n) := by
  induction rows generalizing p with
  | nil => exact .pure sized
  | cons row rows ih =>
    refine Draw.Yields.anything.bind fun base _ => Draw.Yields.anything.bind fun genes _ => ?_
    exact sized.writes fun q kept => ih kept

omit [Scalar α] in
private theorem length_drawGenes (count : Nat) :
    Draw.Yields (drawGenes count : Draw ρ (List α)) fun genes => genes.length = count := by
  induction count with
  | zero => exact .pure rfl
  | succ count ih =>
    refine Draw.Yields.anything.bind fun gene _ => ih.bind fun rest length => .pure ?_
    rw [List.length_cons, length]

private theorem freshRow_sized {directions : List Direction} {genes : List α}
    (objectives : directions.length = l.objectives) (length : genes.length = l.genes) :
    (freshRow l directions genes).Sized l := by
  have block : Block.Sized l (⟨genes, .infeasible, directions.map Direction.worst⟩ : Block α) :=
    ⟨length, (List.length_map _).trans objectives⟩
  refine ⟨block, fun b held => ?_, ?_⟩
  · unfold freshRow at held
    dsimp only at held
    split at held
    · cases held
      exact block
    · cases held
  · unfold freshRow
    cases l.twoPhase <;> rfl

private theorem drawRows_sized {directions : List Direction} (count : Nat)
    (objectives : directions.length = l.objectives) :
    Draw.Yields (drawRows l directions count : Draw ρ (List (Row α))) fun rows =>
      rows.length = count ∧ ∀ r ∈ rows, r.Sized l := by
  induction count with
  | zero => exact .pure ⟨rfl, nofun⟩
  | succ count ih =>
    refine (length_drawGenes l.genes).bind fun genes length => ih.bind fun rest good => .pure ?_
    refine ⟨by rw [List.length_cons, good.1], fun r member => ?_⟩
    rcases List.mem_cons.mp member with rfl | later
    · exact freshRow_sized objectives length
    · exact good.2 r later

theorem draw_sized {directions : List Direction} (count : Nat)
    (objectives : directions.length = l.objectives) :
    Draw.Yields (draw l directions count : Draw ρ (Population α)) (Sized l count) :=
  (drawRows_sized count objectives).bind fun _ good =>
    .pure ⟨rfl, rfl, good.1, fun _ r place => good.2 r (List.mem_of_getElem? place)⟩

end Population

namespace Genetic

theorem settle_sized (directions : List Direction) (s : State α) (sized : p.Sized l n) :
    Draw.Yields (settle directions s p : Draw ρ _) fun x => x.2.Sized l n := by
  refine (Draw.Yields.ofExcept fun q sorted => sized.sortBestFirst sorted).bind fun q kept => ?_
  refine Draw.Yields.anything.bind fun fraction _ => ?_
  refine (Selection.length_order _ _ fraction).bind fun order length => ?_
  refine (Draw.Yields.ofExcept fun q' reordered => ?_).bind fun q' kept' => .pure kept'
  exact kept.reorder (length.trans kept.count) reordered

theorem varyRows_sized (parents : Population α) (rows : List Nat) (s : State α)
    (sized : p.Sized l n) :
    Draw.Yields (varyRows parents rows s p : Draw ρ _) fun x => x.2.Sized l n := by
  induction rows generalizing s p with
  | nil => exact .pure sized
  | cons row rows ih =>
    refine Draw.Yields.anything.bind fun mate _ => Draw.Yields.anything.bind fun others _ =>
      Draw.Yields.anything.bind fun own _ => Draw.Yields.anything.bind fun drawn _ => ?_
    exact sized.writes fun q kept => ih _ kept

theorem vary_sized (s : State α) (sized : p.Sized l n) :
    Draw.Yields (vary s p : Draw ρ _) fun x => x.2.Sized l n := by
  refine (varyRows_sized p _ s sized).bind fun x kept => ?_
  exact (Draw.Yields.ofExcept fun q clipped => kept.clip clipped).bind fun q kept' => .pure kept'

end Genetic

namespace Differential

private theorem settleRows_sized {directions : List Direction} {rows : List Nat} {s : State α}
    {x : State α × Population α} (sized : p.Sized l n)
    (ran : settleRows directions rows s p = .ok x) : x.2.Sized l n := by
  induction rows generalizing s p with
  | nil =>
    cases ran
    exact sized
  | cons row rows ih =>
    obtain ⟨trial, _, ran⟩ := bind_ok.mp ran
    obtain ⟨incumbent, _, ran⟩ := bind_ok.mp ran
    obtain ⟨better, _, ran⟩ := bind_ok.mp ran
    cases better with
    | true =>
      obtain ⟨q, promoted, ran⟩ := bind_ok.mp ran
      exact ih (sized.promote promoted) ran
    | false => exact ih sized ran

theorem settle_sized {directions : List Direction} {s : State α} {x : State α × Population α}
    (sized : p.Sized l n) (ran : settle directions s p = .ok x) : x.2.Sized l n :=
  settleRows_sized sized ran

theorem varyRows_sized (s : Settings α) (rows : List Nat) (sized : p.Sized l n) :
    Draw.Yields (varyRows s rows p : Draw ρ _) (Sized l n) := by
  induction rows generalizing p with
  | nil => exact .pure sized
  | cons row rows ih =>
    refine Draw.Yields.anything.bind fun picks _ => ?_
    split
    · refine Draw.Yields.anything.bind fun forced _ => Draw.Yields.anything.bind fun base _ =>
        Draw.Yields.anything.bind fun a _ => Draw.Yields.anything.bind fun b _ =>
          Draw.Yields.anything.bind fun current _ => Draw.Yields.anything.bind fun genes _ => ?_
      exact sized.writes fun q kept => ih kept
    · exact .throw _

theorem vary_sized (s : State α) (sized : p.Sized l n) :
    Draw.Yields (vary s p : Draw ρ _) fun x => x.2.Sized l n := by
  refine (varyRows_sized s.settings _ sized).bind fun q kept => ?_
  exact (Draw.Yields.ofExcept fun q' clipped => kept.clip clipped).bind fun q' kept' => .pure kept'

end Differential

namespace Annealing

theorem settle_sized (directions : List Direction) (progress : Progress) (s : State α)
    (sized : p.Sized l n) :
    Draw.Yields (settle directions progress s p : Draw ρ _) fun x => x.2.Sized l n := by
  have promoted : Draw.Yields (Draw.ofExcept (p.promote 0) : Draw ρ _) (Sized l n) :=
    .ofExcept fun q moved => sized.promote moved
  unfold settle
  split
  · exact .throw _
  · refine Draw.Yields.anything.bind fun candidate _ => Draw.Yields.anything.bind fun current _ => ?_
    split
    · exact promoted.bind fun q kept => .pure kept
    · refine Draw.Yields.anything.bind fun u _ => ?_
      split
      · exact promoted.bind fun q kept => .pure kept
      · exact .pure sized

theorem vary_sized (s : State α) (sized : p.Sized l n) :
    Draw.Yields (vary s p : Draw ρ _) fun x => x.2.Sized l n :=
  (sized.walkRows _).bind fun _ kept => .pure kept

end Annealing

namespace Tabu

theorem settle_sized {directions : List Direction} {progress : Progress} {s : State α}
    {x : State α × Population α} (sized : p.Sized l n)
    (ran : settle directions progress s p = .ok x) : x.2.Sized l n := by
  obtain ⟨_, _, _, _, _, _, verdict⟩ := settle_verdict ran
  rcases verdict.population with promoted | same
  · exact sized.promote promoted
  · rw [same]
    exact sized

theorem vary_sized (s : State α) (sized : p.Sized l n) :
    Draw.Yields (vary s p : Draw ρ _) fun x => x.2.Sized l n :=
  (sized.walkRows _).bind fun _ kept => .pure kept

end Tabu

namespace GreyWolf

theorem settle_sized {directions : List Direction} {s : State α} {x : State α × Population α}
    (sized : p.Sized l n) (ran : settle directions s p = .ok x) : x.2.Sized l n := by
  obtain ⟨q, sorted, ran⟩ := bind_ok.mp ran
  obtain ⟨first, _, ran⟩ := bind_ok.mp ran
  obtain ⟨second, _, ran⟩ := bind_ok.mp ran
  obtain ⟨third, _, ran⟩ := bind_ok.mp ran
  cases ran
  exact sized.sortBestFirst sorted

private theorem moveRows_sized (reach : α) (leaders : List (List α)) (rows : List Nat)
    (sized : p.Sized l n) :
    Draw.Yields (moveRows reach leaders rows p : Draw ρ _) (Sized l n) := by
  induction rows generalizing p with
  | nil => exact .pure sized
  | cons row rows ih =>
    refine Draw.Yields.anything.bind fun own _ => Draw.Yields.anything.bind fun genes _ => ?_
    exact sized.writes fun q kept => ih kept

theorem vary_sized (progress : Progress) (s : State α) (sized : p.Sized l n) :
    Draw.Yields (vary progress s p : Draw ρ _) fun x => x.2.Sized l n := by
  unfold vary
  split
  · exact .pure sized
  · exact (moveRows_sized _ _ _ sized).bind fun q kept => .pure kept

end GreyWolf

namespace Strategy

theorem settle_sized (directions : List Direction) (progress : Progress) (s : Strategy α)
    (sized : p.Sized l n) :
    Draw.Yields (s.settle directions progress p : Draw ρ _) fun x => x.2.Sized l n := by
  cases s with
  | genetic s => exact (Genetic.settle_sized directions s sized).bind fun x kept => .pure kept
  | differential s =>
    exact (Draw.Yields.ofExcept fun x ran => Differential.settle_sized sized ran).bind
      fun x kept => .pure kept
  | annealing s =>
    exact (Annealing.settle_sized directions progress s sized).bind fun x kept => .pure kept
  | tabu s =>
    exact (Draw.Yields.ofExcept fun x ran => Tabu.settle_sized sized ran).bind
      fun x kept => .pure kept
  | greyWolf s =>
    exact (Draw.Yields.ofExcept fun x ran => GreyWolf.settle_sized sized ran).bind
      fun x kept => .pure kept

theorem vary_sized (progress : Progress) (s : Strategy α) (sized : p.Sized l n) :
    Draw.Yields (s.vary progress p : Draw ρ _) fun x => x.2.Sized l n := by
  cases s with
  | genetic s => exact (Genetic.vary_sized s sized).bind fun x kept => .pure kept
  | differential s => exact (Differential.vary_sized s sized).bind fun x kept => .pure kept
  | annealing s => exact (Annealing.vary_sized s sized).bind fun x kept => .pure kept
  | tabu s => exact (Tabu.vary_sized s sized).bind fun x kept => .pure kept
  | greyWolf s => exact (GreyWolf.vary_sized progress s sized).bind fun x kept => .pure kept

end Strategy

end Metaheuristic
