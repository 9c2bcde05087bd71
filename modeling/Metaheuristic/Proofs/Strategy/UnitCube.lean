import Metaheuristic.Proofs.Population.Genes
import Metaheuristic.Proofs.Random.UnitDraws
import Metaheuristic.Proofs.Strategy.Settings

/-! Strategies stay inside the unit cube. First populations are drawn from it. Walks and the
wolves clamp each gene as they write it. Crossovers and mutants may leave the cube, but they
are finite, and the whole trial region is clamped before anyone else looks at it. Between
two variations genes are only copied: by promoting, by reordering, and into the leaders. -/
namespace Metaheuristic

open Exact
open Population (Genes Sized)

variable {ρ K : Type} [Field K] [LinearOrder K] [FloorRing K] [Elementary K]
  [RandomSource ρ (Exact K)] {l : Layout} {n : Nat} {p : Population (Exact K)}

namespace Population

section Drawing

variable (within : RandomSource.WithinUnit ρ)

include within

private theorem drawGenes_inUnit (count : Nat) :
    Draw.Yields (drawGenes count : Draw ρ (List (Exact K))) fun xs => ∀ x ∈ xs, InUnit x := by
  induction count with
  | zero => exact .pure nofun
  | succ count ih =>
    refine (Draw.Yields.unit within).bind fun gene inside => ih.bind fun rest all => .pure ?_
    exact List.forall_mem_cons.mpr ⟨inside, all⟩

private theorem drawRows_inUnit (directions : List Direction) (count : Nat) :
    Draw.Yields (drawRows l directions count : Draw ρ (List (Row (Exact K))))
      fun rows => ∀ r ∈ rows, r.Genes InUnit InUnit := by
  induction count with
  | zero => exact .pure nofun
  | succ count ih =>
    refine (drawGenes_inUnit within l.genes).bind fun genes inside => ih.bind fun rest all =>
      .pure (List.forall_mem_cons.mpr ⟨⟨inside, fun b held => ?_⟩, all⟩)
    unfold freshRow at held
    dsimp only at held
    split at held
    · cases held
      exact inside
    · cases held

theorem draw_inUnit (directions : List Direction) (count : Nat) :
    Draw.Yields (draw l directions count : Draw ρ (Population (Exact K)))
      (Genes InUnit InUnit) :=
  (drawRows_inUnit within directions count).bind fun _ all =>
    .pure fun _ r place => all r (List.mem_of_getElem? place)

variable [IsStrictOrderedRing K]

private theorem walkGenes_inUnit {xs : List (Exact K)} (inside : ∀ x ∈ xs, InUnit x) :
    Draw.Yields (walkGenes xs : Draw ρ (List (Exact K))) fun ys => ∀ y ∈ ys, InUnit y := by
  induction xs with
  | nil => exact .pure nofun
  | cons base xs ih =>
    obtain ⟨first, rest⟩ := List.forall_mem_cons.mp inside
    refine (Draw.Yields.walk within).bind fun move finite => (ih rest).bind fun moved all =>
      .pure (List.forall_mem_cons.mpr ⟨?_, all⟩)
    exact (first.finite.add finite).clampUnit

private theorem walkRows_inUnit (rows : List Nat) (genes : p.Genes InUnit InUnit) :
    Draw.Yields (walkRows rows p : Draw ρ (Population (Exact K))) (Genes InUnit InUnit) := by
  induction rows generalizing p with
  | nil => exact .pure genes
  | cons row rows ih =>
    refine (Draw.Yields.ofExcept fun base read =>
      genes.chromosome read (fun _ inside => inside) fun _ inside => inside).bind
        fun base inside => (walkGenes_inUnit within inside).bind fun moved kept => ?_
    exact (Draw.Yields.ofExcept fun q written => genes.setTrial kept written).bind
      fun q good => ih good

theorem walk_inUnit (genes : p.Genes InUnit InUnit) :
    Draw.Yields (p.walk : Draw ρ (Population (Exact K))) (Genes InUnit InUnit) :=
  walkRows_inUnit within _ genes

end Drawing
end Population

namespace Genetic

variable {s : State (Exact K)}

theorem settle_inUnit (directions : List Direction) (genes : p.Genes InUnit InUnit) :
    Draw.Yields (settle directions s p : Draw ρ _) fun x => x.2.Genes InUnit InUnit := by
  refine (Draw.Yields.ofExcept fun q sorted => genes.sortBestFirst sorted).bind fun q kept =>
    Draw.Yields.anything.bind fun fraction _ => Draw.Yields.anything.bind fun order _ => ?_
  exact (Draw.Yields.ofExcept fun q' reordered => kept.reorder reordered).bind
    fun q' kept' => .pure kept'

variable (within : RandomSource.WithinUnit ρ)

include within

private theorem varyGene_finite (settings : Settings (Exact K)) {gene other : Exact K}
    (own : Exact.Finite gene) (mate : Exact.Finite other) :
    Draw.Yields (varyGene settings gene other : Draw ρ _) fun x => Exact.Finite x.1 := by
  have finished (gene : Exact K) (own : Exact.Finite gene) : Draw.Yields (do
      if ← Draw.chance settings.mutationRate then
        let fresh ← Draw.unit
        return (fresh, true)
      else return (gene, false) : Draw ρ (Exact K × Bool)) fun x => Exact.Finite x.1 := by
    refine Draw.Yields.anything.bind fun redraw _ => ?_
    split
    · exact (Draw.Yields.unit within).bind fun fresh inside => .pure inside.finite
    · exact .pure own
  refine Draw.Yields.anything.bind fun keep _ => ?_
  split
  · exact finished gene own
  · refine (Draw.Yields.walk within).bind fun weight finite => finished _ ?_
    exact own.add (finite.mul (mate.sub own))

private theorem varyGenes_finite (settings : Settings (Exact K)) {genes others : List (Exact K)}
    (own : ∀ x ∈ genes, Exact.Finite x) (mate : ∀ x ∈ others, Exact.Finite x) :
    Draw.Yields (varyGenes settings genes others : Draw ρ _)
      fun x => ∀ y ∈ x.1, Exact.Finite y := by
  induction genes generalizing others with
  | nil => exact .pure nofun
  | cons gene genes ih =>
    cases others with
    | nil => exact .pure own
    | cons other others =>
      obtain ⟨first, rest⟩ := List.forall_mem_cons.mp own
      obtain ⟨first', rest'⟩ := List.forall_mem_cons.mp mate
      refine (varyGene_finite within settings first first').bind fun x finite =>
        (ih rest rest').bind fun y all => .pure ?_
      exact List.forall_mem_cons.mpr ⟨finite, all⟩

private theorem varyRows_finite {parents : Population (Exact K)}
    (before : parents.Genes InUnit InUnit) (rows : List Nat)
    (genes : p.Genes Exact.Finite InUnit) :
    Draw.Yields (varyRows parents rows s p : Draw ρ _)
      fun x => x.2.Genes Exact.Finite InUnit := by
  have read (row : Nat) (xs : List (Exact K)) (ran : parents.chromosome row .trial = .ok xs) :
      ∀ x ∈ xs, Exact.Finite x :=
    before.chromosome ran (fun _ inside => inside.finite) fun _ inside => inside.finite
  induction rows generalizing s p with
  | nil => exact .pure genes
  | cons row rows ih =>
    refine Draw.Yields.anything.bind fun mate _ =>
      (Draw.Yields.ofExcept (read mate)).bind fun others theirs =>
        (Draw.Yields.ofExcept (read row)).bind fun own ours =>
          (varyGenes_finite within s.settings ours theirs).bind fun varied finite => ?_
    exact (Draw.Yields.ofExcept fun q written => genes.setTrial finite written).bind
      fun q good => ih good

theorem vary_inUnit [IsStrictOrderedRing K] (sized : p.Sized l n)
    (genes : p.Genes InUnit InUnit) :
    Draw.Yields (vary s p : Draw ρ _) fun x => x.2.Genes InUnit InUnit := by
  have varied := varyRows_finite (s := s) within genes (List.range p.count)
    (genes.weaken fun _ inside => inside.finite)
  refine (varied.and (varyRows_sized p _ s sized)).bind fun x kept => ?_
  have covered : x.2.rows.length ≤ x.2.count :=
    Nat.le_of_eq (kept.2.length.trans kept.2.count.symm)
  exact (Draw.Yields.ofExcept fun q clipped =>
    kept.1.clip covered (fun _ finite => finite.clampUnit) clipped).bind fun q good => .pure good

end Genetic

namespace Differential

variable {s : State (Exact K)}

omit [RandomSource ρ (Exact K)] in
private theorem settleRows_inUnit {directions : List Direction} {rows : List Nat}
    {x : State (Exact K) × Population (Exact K)} (genes : p.Genes InUnit InUnit)
    (ran : settleRows directions rows s p = .ok x) : x.2.Genes InUnit InUnit := by
  induction rows generalizing s p with
  | nil =>
    cases ran
    exact genes
  | cons row rows ih =>
    obtain ⟨trial, _, ran⟩ := bind_ok.mp ran
    obtain ⟨incumbent, _, ran⟩ := bind_ok.mp ran
    obtain ⟨better, _, ran⟩ := bind_ok.mp ran
    cases better with
    | true =>
      obtain ⟨q, promoted, ran⟩ := bind_ok.mp ran
      exact ih (genes.promote (fun _ inside => inside) promoted) ran
    | false => exact ih genes ran

omit [RandomSource ρ (Exact K)] in
theorem settle_inUnit {directions : List Direction}
    {x : State (Exact K) × Population (Exact K)} (genes : p.Genes InUnit InUnit)
    (ran : settle directions s p = .ok x) : x.2.Genes InUnit InUnit :=
  settleRows_inUnit genes ran

omit [RandomSource ρ (Exact K)] in
theorem Settings.scale_finite {s : Settings (Exact K)} (ran : s.validate = .ok ()) :
    Exact.Finite s.scaleFactor := by
  obtain ⟨_, scale, _⟩ := bind_ok.mp ran
  obtain ⟨lower, upper⟩ := requireWithin_ok scale
  rw [zero_eq, le_eq] at lower
  rw [ofNat_eq, le_eq] at upper
  cases held : s.scaleFactor with
  | finite q => exact ⟨q, rfl⟩
  | infinity =>
    rw [held] at upper
    cases upper
  | negInfinity =>
    rw [held] at lower
    cases lower
  | undefined =>
    rw [held] at upper
    cases upper

/-- A mutant is finite where all that goes into it is. -/
private theorem trialGenes_finite {settings : Settings (Exact K)}
    (scale : Exact.Finite settings.scaleFactor) (forced place : Nat)
    {base a b current : List (Exact K)} (first : ∀ x ∈ base, Exact.Finite x)
    (second : ∀ x ∈ a, Exact.Finite x) (third : ∀ x ∈ b, Exact.Finite x)
    (own : ∀ x ∈ current, Exact.Finite x) :
    Draw.Yields (trialGenes settings forced place base a b current : Draw ρ _)
      fun trial => ∀ x ∈ trial, Exact.Finite x := by
  induction base generalizing place a b current with
  | nil => exact .pure nofun
  | cons x base ih =>
    rcases a with _ | ⟨y, a⟩
    · exact .pure nofun
    rcases b with _ | ⟨z, b⟩
    · exact .pure nofun
    rcases current with _ | ⟨w, current⟩
    · exact .pure nofun
    obtain ⟨finiteX, first⟩ := List.forall_mem_cons.mp first
    obtain ⟨finiteY, second⟩ := List.forall_mem_cons.mp second
    obtain ⟨finiteZ, third⟩ := List.forall_mem_cons.mp third
    obtain ⟨finiteW, own⟩ := List.forall_mem_cons.mp own
    have gene (mutant : Bool) : Exact.Finite
        (if mutant then x + settings.scaleFactor * (y - z) else w) := by
      cases mutant with
      | true => exact finiteX.add (scale.mul (finiteY.sub finiteZ))
      | false => exact finiteW
    have rest := ih (place + 1) first second third own
    rw [trialGenes]
    split
    · exact rest.bind fun trial all => .pure (List.forall_mem_cons.mpr ⟨gene true, all⟩)
    · exact Draw.Yields.anything.bind fun mutant _ => rest.bind fun trial all =>
        .pure (List.forall_mem_cons.mpr ⟨gene mutant, all⟩)

private theorem varyRows_finite {settings : Settings (Exact K)}
    (scale : Exact.Finite settings.scaleFactor) (rows : List Nat)
    (genes : p.Genes Exact.Finite InUnit) :
    Draw.Yields (varyRows settings rows p : Draw ρ _) (Genes Exact.Finite InUnit) := by
  induction rows generalizing p with
  | nil => exact .pure genes
  | cons row rows ih =>
    have read (row : Nat) (xs : List (Exact K)) (ran : p.chromosome row .incumbent = .ok xs) :
        ∀ x ∈ xs, Exact.Finite x :=
      genes.chromosome ran (fun _ finite => finite) fun _ inside => inside.finite
    refine Draw.Yields.anything.bind fun picks _ => ?_
    split
    · rename_i r0 r1 r2
      refine Draw.Yields.anything.bind fun forced _ =>
        (Draw.Yields.ofExcept (read r0)).bind fun base first =>
          (Draw.Yields.ofExcept (read r1)).bind fun a second =>
            (Draw.Yields.ofExcept (read r2)).bind fun b third =>
              (Draw.Yields.ofExcept (read row)).bind fun current own => ?_
      refine (trialGenes_finite scale forced 0 first second third own).bind fun trial finite => ?_
      exact (Draw.Yields.ofExcept fun q written => genes.setTrial finite written).bind
        fun q good => ih good
    · exact .throw _

theorem vary_inUnit [IsStrictOrderedRing K] (valid : s.settings.validate = .ok ())
    (sized : p.Sized l n) (genes : p.Genes InUnit InUnit) :
    Draw.Yields (vary s p : Draw ρ _) fun x => x.2.Genes InUnit InUnit := by
  have varied := varyRows_finite (ρ := ρ) (Settings.scale_finite valid) (List.range p.count)
    (genes.weaken fun _ inside => inside.finite)
  refine (varied.and (varyRows_sized s.settings _ sized)).bind fun q kept => ?_
  have covered : q.rows.length ≤ q.count := Nat.le_of_eq (kept.2.length.trans kept.2.count.symm)
  exact (Draw.Yields.ofExcept fun q' clipped =>
    kept.1.clip covered (fun _ finite => finite.clampUnit) clipped).bind fun q' good => .pure good

end Differential

namespace Annealing

variable {s : State (Exact K)}

theorem settle_inUnit (directions : List Direction) (progress : Progress)
    (genes : p.Genes InUnit InUnit) :
    Draw.Yields (settle directions progress s p : Draw ρ _)
      fun x => x.2.Genes InUnit InUnit := by
  have promoted : Draw.Yields (Draw.ofExcept (p.promote 0) : Draw ρ _) (Genes InUnit InUnit) :=
    .ofExcept fun q moved => genes.promote (fun _ inside => inside) moved
  unfold settle
  split
  · exact .throw _
  · refine Draw.Yields.anything.bind fun candidate _ =>
      Draw.Yields.anything.bind fun current _ => ?_
    split
    · exact promoted.bind fun q kept => .pure kept
    · refine Draw.Yields.anything.bind fun u _ => ?_
      split
      · exact promoted.bind fun q kept => .pure kept
      · exact .pure genes

theorem vary_inUnit [IsStrictOrderedRing K] (within : RandomSource.WithinUnit ρ)
    (genes : p.Genes InUnit InUnit) :
    Draw.Yields (vary s p : Draw ρ _) fun x => x.2.Genes InUnit InUnit :=
  (Population.walk_inUnit within genes).bind fun _ kept => .pure kept

end Annealing

namespace Tabu

variable {s : State (Exact K)}

omit [RandomSource ρ (Exact K)] in
theorem settle_inUnit {directions : List Direction} {progress : Progress}
    {x : State (Exact K) × Population (Exact K)} (genes : p.Genes InUnit InUnit)
    (ran : settle directions progress s p = .ok x) : x.2.Genes InUnit InUnit := by
  obtain ⟨_, _, _, _, _, _, verdict⟩ := settle_verdict ran
  rcases verdict.population with promoted | same
  · exact genes.promote (fun _ inside => inside) promoted
  · rw [same]
    exact genes

theorem vary_inUnit [IsStrictOrderedRing K] (within : RandomSource.WithinUnit ρ)
    (genes : p.Genes InUnit InUnit) :
    Draw.Yields (vary s p : Draw ρ _) fun x => x.2.Genes InUnit InUnit :=
  (Population.walk_inUnit within genes).bind fun _ kept => .pure kept

end Tabu

namespace GreyWolf

variable {s : State (Exact K)}

omit [RandomSource ρ (Exact K)] in
/-- The leaders are copies of three rows. -/
theorem settle_inUnit {directions : List Direction} (three : 3 ≤ n) (sized : p.Sized l n)
    (genes : p.Genes InUnit InUnit) {x : State (Exact K) × Population (Exact K)}
    (ran : settle directions s p = .ok x) :
    x.2.Genes InUnit InUnit ∧ ∀ leader ∈ x.1.leaders, InCube l.genes leader := by
  obtain ⟨q, sorted, ran⟩ := bind_ok.mp ran
  obtain ⟨first, readFirst, ran⟩ := bind_ok.mp ran
  obtain ⟨second, readSecond, ran⟩ := bind_ok.mp ran
  obtain ⟨third, readThird, ran⟩ := bind_ok.mp ran
  cases ran
  have kept := genes.sortBestFirst sorted
  have copied {row : Nat} (below : row < n) {xs : List (Exact K)}
      (read : q.chromosome row .trial = .ok xs) : InCube l.genes xs := by
    obtain ⟨ys, same, length⟩ := (sized.sortBestFirst sorted).exists_chromosome below .trial
    rw [read] at same
    cases same
    exact ⟨length, kept.chromosome read (fun _ inside => inside) fun _ inside => inside⟩
  refine ⟨kept, fun leader member => ?_⟩
  simp only [List.mem_cons, List.not_mem_nil, or_false] at member
  rcases member with rfl | rfl | rfl
  · exact copied (by omega) readFirst
  · exact copied (by omega) readSecond
  · exact copied (by omega) readThird

omit [RandomSource ρ (Exact K)] in
theorem Settings.reach_finite {s : Settings (Exact K)} (ran : s.validate = .ok ()) :
    Exact.Finite s.reach := by
  unfold Settings.validate requireNonNegative at ran
  split at ran
  · rename_i number
    rw [Bool.and_eq_true] at number
    exact isFinite_iff.mp number.1
  · cases ran

variable (within : RandomSource.WithinUnit ρ)

include within

private theorem addPoints_finite {reach gene : Exact K} (reaches : Exact.Finite reach)
    (own : Exact.Finite gene) (place : Nat) {leaders : List (List (Exact K))} {sum : Exact K}
    (led : ∀ leader ∈ leaders, ∀ x ∈ leader, InUnit x) (summed : Exact.Finite sum) :
    Draw.Yields (addPoints reach gene place leaders sum : Draw ρ _) Exact.Finite := by
  induction leaders generalizing sum with
  | nil => exact .pure summed
  | cons leader leaders ih =>
    obtain ⟨first, rest⟩ := List.forall_mem_cons.mp led
    refine (Draw.Yields.unit within).bind fun spread insideS =>
      (Draw.Yields.unit within).bind fun pull insideP => ?_
    refine (Draw.Yields.ofExcept fun lead read =>
      first lead (List.mem_of_getElem? (entry_ok read))).bind fun lead insideL => ?_
    have two : Exact.Finite (Scalar.ofNat 2 : Exact K) := finite_ofNat 2
    have around := ((two.mul reaches).mul insideS.finite).sub reaches
    have distance := (((two.mul insideP.finite).mul insideL.finite).sub own).abs
    exact ih rest (summed.add (insideL.finite.sub (around.mul distance)))

private theorem moveGenes_inUnit [IsStrictOrderedRing K] {reach : Exact K}
    (reaches : Exact.Finite reach) {leaders : List (List (Exact K))} (some : leaders ≠ [])
    (led : ∀ leader ∈ leaders, ∀ x ∈ leader, InUnit x) (place : Nat) {genes : List (Exact K)}
    (own : ∀ x ∈ genes, InUnit x) :
    Draw.Yields (moveGenes reach leaders place genes : Draw ρ _)
      fun moved => ∀ x ∈ moved, InUnit x := by
  have zero : Exact.Finite (Scalar.zero : Exact K) := finite_ofNat 0
  induction genes generalizing place with
  | nil => exact .pure nofun
  | cons gene genes ih =>
    obtain ⟨first, rest⟩ := List.forall_mem_cons.mp own
    refine (addPoints_finite within reaches first.finite place led zero).bind
      fun sum finite => (ih (place + 1) rest).bind fun moved all =>
        .pure (List.forall_mem_cons.mpr ⟨?_, all⟩)
    exact (finite.div_ofNat fun none => some (List.eq_nil_of_length_eq_zero none)).clampUnit

private theorem moveRows_inUnit [IsStrictOrderedRing K] {reach : Exact K}
    (reaches : Exact.Finite reach) {leaders : List (List (Exact K))} (some : leaders ≠ [])
    (led : ∀ leader ∈ leaders, ∀ x ∈ leader, InUnit x) (rows : List Nat)
    (genes : p.Genes InUnit InUnit) :
    Draw.Yields (moveRows reach leaders rows p : Draw ρ _) (Genes InUnit InUnit) := by
  induction rows generalizing p with
  | nil => exact .pure genes
  | cons row rows ih =>
    refine (Draw.Yields.ofExcept fun own read =>
      genes.chromosome read (fun _ inside => inside) fun _ inside => inside).bind
        fun own inside => (moveGenes_inUnit within reaches some led 0 inside).bind
          fun moved kept => ?_
    exact (Draw.Yields.ofExcept fun q written => genes.setTrial kept written).bind
      fun q good => ih good

theorem vary_inUnit [IsStrictOrderedRing K] (progress : Progress)
    (valid : s.settings.validate = .ok ())
    (led : ∀ leader ∈ s.leaders, InCube l.genes leader) (genes : p.Genes InUnit InUnit) :
    Draw.Yields (vary progress s p : Draw ρ _) fun x =>
      x.2.Genes InUnit InUnit ∧ x.1.leaders = s.leaders := by
  have fraction : Exact.Finite (progress.fraction : Exact K) := by
    unfold Progress.fraction
    split
    · exact finite_ofNat 0
    · rename_i budget
      exact (finite_ofNat _).div_ofNat budget
  have one : Exact.Finite (Scalar.one : Exact K) := finite_ofNat 1
  unfold vary
  split
  · exact .pure ⟨genes, rfl⟩
  · rename_i some
    refine (moveRows_inUnit within ((Settings.reach_finite valid).mul (one.sub fraction)) ?_
      (fun leader member => (led leader member).2) _ genes).bind fun q kept => .pure ⟨kept, rfl⟩
    simpa using some

end GreyWolf

namespace Strategy

variable {s : Strategy (Exact K)} {objectives : Nat}

theorem settle_inUnit (directions : List Direction) (progress : Progress)
    (accepted : s.algorithm.validateFor n objectives = .ok ()) (sized : p.Sized l n)
    (genes : p.Genes InUnit InUnit) :
    Draw.Yields (s.settle directions progress p : Draw ρ _) fun x =>
      x.2.Genes InUnit InUnit ∧ ∀ leader ∈ x.1.leaders, InCube l.genes leader := by
  cases s with
  | genetic s =>
    exact (Genetic.settle_inUnit directions genes).bind fun x kept => .pure ⟨kept, nofun⟩
  | differential s =>
    exact (Draw.Yields.ofExcept fun x ran => Differential.settle_inUnit genes ran).bind
      fun x kept => .pure ⟨kept, nofun⟩
  | annealing s =>
    exact (Annealing.settle_inUnit directions progress genes).bind
      fun x kept => .pure ⟨kept, nofun⟩
  | tabu s =>
    exact (Draw.Yields.ofExcept fun x ran => Tabu.settle_inUnit genes ran).bind
      fun x kept => .pure ⟨kept, nofun⟩
  | greyWolf s =>
    obtain ⟨_, _, required⟩ := bind_ok.mp accepted
    exact (Draw.Yields.ofExcept fun x ran =>
      GreyWolf.settle_inUnit (requireAgents_ok required) sized genes ran).bind
        fun x kept => .pure kept

theorem vary_inUnit [IsStrictOrderedRing K] (within : RandomSource.WithinUnit ρ)
    (progress : Progress) (accepted : s.algorithm.validateFor n objectives = .ok ())
    (sized : p.Sized l n) (genes : p.Genes InUnit InUnit)
    (led : ∀ leader ∈ s.leaders, InCube l.genes leader) :
    Draw.Yields (s.vary progress p : Draw ρ _) fun x =>
      x.2.Genes InUnit InUnit ∧ ∀ leader ∈ x.1.leaders, InCube l.genes leader := by
  obtain ⟨_, valid, _⟩ := bind_ok.mp accepted
  cases s with
  | genetic s =>
    exact (Genetic.vary_inUnit within sized genes).bind fun x kept => .pure ⟨kept, nofun⟩
  | differential s =>
    exact (Differential.vary_inUnit valid sized genes).bind fun x kept => .pure ⟨kept, nofun⟩
  | annealing s =>
    exact (Annealing.vary_inUnit (s := s) within genes).bind fun x kept => .pure ⟨kept, nofun⟩
  | tabu s =>
    exact (Tabu.vary_inUnit (s := s) within genes).bind fun x kept => .pure ⟨kept, nofun⟩
  | greyWolf s =>
    refine (GreyWolf.vary_inUnit within progress valid led genes).bind fun x kept =>
      .pure ⟨kept.1, fun leader member => led leader ?_⟩
    have same : x.1.leaders = s.leaders := kept.2
    have listed : leader ∈ x.1.leaders := member
    rwa [same] at listed

end Strategy
end Metaheuristic
