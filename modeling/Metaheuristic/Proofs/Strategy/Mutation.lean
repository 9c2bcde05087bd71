import Metaheuristic.Proofs.Number.Exact
import Metaheuristic.Proofs.Population.Trials
import Metaheuristic.Proofs.Random.Distinct
import Metaheuristic.Proofs.Random.Plans
import Metaheuristic.Proofs.Strategy.Answers

/-! New trials by scaled differences. Which rows are mixed and which genes are taken from the
mutant is drawn before any gene is looked at, so the variation of a population follows a plan that
does not know the population. All genes are read from incumbents, which no trial touches, so every
trial is made of the incumbents as they were. In the end all genes are clamped, those that come
from the own incumbent too. -/
namespace Metaheuristic.Differential

open Population (Sized Rewritten)

variable {ρ α : Type}

/-- What is drawn for a row: three other rows, and the places at which the trial takes the base
plus the scaled difference instead of the own incumbent. -/
structure Mix where
  row : Nat
  base : Nat
  plus : Nat
  minus : Nat
  mask : List Bool

variable [Scalar α]

/-- A gene of the mutant, or that of the incumbent. -/
def mixGene (factor : α) (mutant : Bool) (x y z w : α) : α :=
  if mutant then x + factor * (y - z) else w

/-- Mixes genes place by place. -/
def mixGenes (factor : α) : List Bool → (base plus minus own : List α) → List α
  | mutant :: mask, x :: base, y :: plus, z :: minus, w :: own =>
    mixGene factor mutant x y z w :: mixGenes factor mask base plus minus own
  | _, _, _, _, _ => []

/-- The genes of a trial before they are clamped. -/
def Mix.genes (factor : α) (m : Mix) (p : Population α) : List α :=
  mixGenes factor m.mask (p.genesOf .incumbent m.base) (p.genesOf .incumbent m.plus)
    (p.genesOf .incumbent m.minus) (p.genesOf .incumbent m.row)

/-- What is mixed at a place. -/
theorem mixGenes_at {factor : α} {mask : List Bool} {base plus minus own : List α} {place : Nat}
    {mutant : Bool} {x y z w : α} (masked : mask[place]? = some mutant)
    (first : base[place]? = some x) (second : plus[place]? = some y)
    (third : minus[place]? = some z) (last : own[place]? = some w) :
    (mixGenes factor mask base plus minus own)[place]? =
      some (mixGene factor mutant x y z w) := by
  induction mask generalizing base plus minus own place with
  | nil => cases masked
  | cons m mask ih =>
    rcases base with _ | ⟨x', base⟩ <;> rcases plus with _ | ⟨y', plus⟩ <;>
      rcases minus with _ | ⟨z', minus⟩ <;> rcases own with _ | ⟨w', own⟩ <;> try contradiction
    cases place with
    | zero =>
      cases masked
      cases first
      cases second
      cases third
      cases last
      rfl
    | succ place => exact ih masked first second third last

theorem length_mixGenes (factor : α) {mask : List Bool} {base plus minus own : List α} {count : Nat}
    (masked : mask.length = count) (first : base.length = count) (second : plus.length = count)
    (third : minus.length = count) (last : own.length = count) :
    (mixGenes factor mask base plus minus own).length = count := by
  induction count generalizing mask base plus minus own with
  | zero =>
    rw [List.eq_nil_of_length_eq_zero masked]
    rfl
  | succ count ih =>
    obtain ⟨m, mask, rfl⟩ := List.exists_cons_of_length_eq_add_one masked
    obtain ⟨x, base, rfl⟩ := List.exists_cons_of_length_eq_add_one first
    obtain ⟨y, plus, rfl⟩ := List.exists_cons_of_length_eq_add_one second
    obtain ⟨z, minus, rfl⟩ := List.exists_cons_of_length_eq_add_one third
    obtain ⟨w, own, rfl⟩ := List.exists_cons_of_length_eq_add_one last
    exact congrArg Nat.succ (ih (Nat.succ.inj masked) (Nat.succ.inj first) (Nat.succ.inj second)
      (Nat.succ.inj third) (Nat.succ.inj last))

section Plan

variable [RandomSource ρ α]

/-- The places of the mutant, for so many genes from one on. -/
def planMask (s : Settings α) (forced : Nat) : (place count : Nat) → Draw ρ (List Bool)
  | _, 0 => return []
  | place, count + 1 => do
    let mutant ← if place = forced then pure true else Draw.chance s.crossoverRate
    let rest ← planMask s forced (place + 1) count
    return mutant :: rest

/-- The mixes for the rows listed, of that many rows with so many genes. -/
def planRows (s : Settings α) (count genes : Nat) : List Nat → Draw ρ (List Mix)
  | [] => return []
  | row :: rows => do
    match ← partners count row with
    | [r0, r1, r2] =>
      let forced ← Draw.index genes
      let mask ← planMask s forced 0 genes
      let rest ← planRows s count genes rows
      return ⟨row, r0, r1, r2, mask⟩ :: rest
    | _ => throw .outOfRange

end Plan

section Following

variable [RandomSource ρ α] {l : Layout} {n : Nat} {p parents : Population α}
  {settings : Settings α} {s : State α}

omit [Scalar α] in
/-- Moving numbers up by one from the own row on leaves this row out and keeps the others apart. -/
theorem partners_distinct (inRange : RandomSource.InRange ρ n) (distinct : RandomSource.Distinct ρ)
    (four : 4 ≤ n) {row : Nat} :
    Draw.Answers (partners n row : Draw ρ (List Nat)) fun picks =>
      picks.length = 3 ∧ (∀ k ∈ picks, k < n) ∧ (row :: picks).Nodup := by
  refine (Draw.Answers.sample_distinct (inRange.mono (Nat.sub_le n 1)) distinct (Nat.le_refl _)
    (by omega)).bind fun picks drawn => .pure ?_
  obtain ⟨three, below, apart⟩ := drawn
  have shifted : ∀ k ∈ picks.map fun k => if row ≤ k then k + 1 else k, k < n ∧ k ≠ row := by
    intro k member
    obtain ⟨j, inside, rfl⟩ := List.mem_map.mp member
    have narrow := below j inside
    split <;> omega
  refine ⟨(List.length_map _).trans three, fun k member => (shifted k member).1,
    List.nodup_cons.mpr ⟨fun member => (shifted row member).2 rfl, ?_⟩⟩
  refine apart.map fun i j same => ?_
  split at same <;> split at same <;> omega

theorem trialGenes_follows (valid : settings.validate = .ok ()) (forced place : Nat)
    {base a b current : List α} {count : Nat} (first : base.length = count)
    (second : a.length = count) (third : b.length = count) (own : current.length = count) :
    Draw.Follows (trialGenes settings forced place base a b current : Draw ρ (List α))
      (planMask settings forced place count) fun mask trial => mask.length = count ∧
        (place ≤ forced → forced < place + count → true ∈ mask) ∧
        trial = mixGenes settings.scaleFactor mask base a b current := by
  obtain ⟨lower, upper⟩ := Settings.validate_ok valid
  induction count generalizing place base a b current with
  | zero =>
    rw [List.eq_nil_of_length_eq_zero first]
    exact .pure ⟨rfl, fun _ _ => by omega, rfl⟩
  | succ count ih =>
    obtain ⟨x, base, rfl⟩ := List.exists_cons_of_length_eq_add_one first
    obtain ⟨y, a, rfl⟩ := List.exists_cons_of_length_eq_add_one second
    obtain ⟨z, b, rfl⟩ := List.exists_cons_of_length_eq_add_one third
    obtain ⟨w, current, rfl⟩ := List.exists_cons_of_length_eq_add_one own
    have rest := ih (place + 1) (Nat.succ.inj first) (Nat.succ.inj second) (Nat.succ.inj third)
      (Nat.succ.inj own)
    have longer (mutant : Bool) (here : place = forced → mutant = true) : Draw.Follows (do
        let trial ← trialGenes settings forced (place + 1) base a b current
        return mixGene settings.scaleFactor mutant x y z w :: trial : Draw ρ (List α)) (do
        let mask ← planMask settings forced (place + 1) count
        return mutant :: mask)
        fun mask trial => mask.length = count + 1 ∧
          (place ≤ forced → forced < place + (count + 1) → true ∈ mask) ∧
          trial = mixGenes settings.scaleFactor mask (x :: base) (y :: a) (z :: b)
            (w :: current) := by
      refine rest.bind fun mask trial done => .pure ?_
      obtain ⟨length, taken, rfl⟩ := done
      refine ⟨congrArg Nat.succ length, fun reached before => ?_, rfl⟩
      by_cases now : place = forced
      · exact List.mem_cons.mpr (.inl (here now).symm)
      · exact List.mem_cons_of_mem _ (taken (by omega) (by omega))
    rw [trialGenes, planMask]
    split
    · exact longer true fun _ => rfl
    · rename_i other
      refine (Draw.Follows.self (.chance lower upper)).bind fun mutant _ same => ?_
      rw [← same.1]
      exact longer mutant fun now => absurd now other

/-- Each trial is mixed as planned from the incumbents of the parents, and written once. By
induction on the rows that are left. -/
theorem varyRows_follows (inRange : RandomSource.InRange ρ n)
    (distinct : RandomSource.Distinct ρ) (valid : settings.validate = .ok ()) (four : 4 ≤ n)
    (some : 0 < l.genes) (phases : l.twoPhase = true) {rows : List Nat} (nodup : rows.Nodup)
    (below : ∀ row ∈ rows, row < n) (sized : p.Sized l n)
    (same : ∀ row, p.genesOf .incumbent row = parents.genesOf .incumbent row) :
    Draw.Follows (varyRows settings rows p : Draw ρ _) (planRows settings n l.genes rows)
      fun plan q => plan.map (·.row) = rows ∧
        (∀ m ∈ plan, (m.base < n ∧ m.plus < n ∧ m.minus < n) ∧
          [m.row, m.base, m.plus, m.minus].Nodup ∧ m.mask.length = l.genes ∧ true ∈ m.mask) ∧
        q.Sized l n ∧
        Rewritten (plan.map fun m => (m.row, m.genes settings.scaleFactor parents)) p q := by
  induction rows generalizing p with
  | nil => exact .pure ⟨rfl, nofun, sized, .refl p⟩
  | cons row rows ih =>
    have here := below row List.mem_cons_self
    rw [varyRows, planRows, sized.count]
    refine (Draw.Follows.self (partners_distinct inRange distinct four)).bind
      fun picks _ chosen => ?_
    obtain ⟨rfl, three, within, apart⟩ := chosen
    obtain ⟨r0, r1, r2, rfl⟩ := List.length_eq_three.mp three
    have others : r0 < n ∧ r1 < n ∧ r2 < n := by simpa using within
    obtain ⟨first, second, third⟩ := others
    rw [sized.layout]
    refine (Draw.Follows.self (.index inRange some)).bind fun forced _ drawn => ?_
    obtain ⟨rfl, place⟩ := drawn
    refine .reads (sized.read_genesOf first .incumbent) ?_
    refine .reads (sized.read_genesOf second .incumbent) ?_
    refine .reads (sized.read_genesOf third .incumbent) ?_
    refine .reads (sized.read_genesOf here .incumbent) ?_
    refine (trialGenes_follows valid forced 0 (sized.length_genesOf first .incumbent)
      (sized.length_genesOf second .incumbent) (sized.length_genesOf third .incumbent)
      (sized.length_genesOf here .incumbent)).bind fun mask trial mixed => ?_
    obtain ⟨length, taken, rfl⟩ := mixed
    have full := length_mixGenes settings.scaleFactor length
      (sized.length_genesOf first .incumbent) (sized.length_genesOf second .incumbent)
      (sized.length_genesOf third .incumbent) (sized.length_genesOf here .incumbent)
    simp only [same] at full ⊢
    obtain ⟨q, written, kept⟩ := sized.exists_setChromosome here full .trial
    refine .reads written ?_
    refine (ih nodup.of_cons (fun row member => below row (List.mem_cons_of_mem _ member)) kept
      fun i => (Population.genesOf_setTrial sized phases written i).trans (same i)).collect
        fun plan q' done => ?_
    obtain ⟨listed, mixed, kept', rewritten⟩ := done
    have fresh : row ∉ (plan.map fun m => (m.row, m.genes settings.scaleFactor parents)).map
        Prod.fst := by
      rw [List.map_map]
      exact listed ▸ (List.nodup_cons.mp nodup).1
    exact ⟨congrArg (row :: ·) listed, List.forall_mem_cons.mpr
      ⟨⟨⟨first, second, third⟩, apart, length, taken (Nat.zero_le _) (by omega)⟩, mixed⟩, kept',
      rewritten.cons fresh written⟩

/-- Trials made by a plan: every gene is that of the own incumbent or of the mutant, clamped, and
nothing but the trial genes has changed. -/
structure Mixed (l : Layout) (n : Nat) (factor : α) (plan : List Mix) (p q : Population α) :
    Prop where
  sized : q.Sized l n
  rows : plan.map (·.row) = List.range n
  kept : ∀ (i : Nat) r, p.rows[i]? = some r → ∃ genes, q.rows[i]? = some (r.withTrial genes)
  mixed : ∀ m ∈ plan, (m.base < n ∧ m.plus < n ∧ m.minus < n) ∧
    [m.row, m.base, m.plus, m.minus].Nodup ∧ m.mask.length = l.genes ∧ true ∈ m.mask ∧
    ∀ place < l.genes, ∃ mutant x y z w, m.mask[place]? = some mutant ∧
      p.gene .incumbent m.base place = some x ∧ p.gene .incumbent m.plus place = some y ∧
      p.gene .incumbent m.minus place = some z ∧ p.gene .incumbent m.row place = some w ∧
      q.gene .trial m.row place =
        some (Scalar.clampUnit (if mutant then x + factor * (y - z) else w))

/-- Varying follows the plan and clamps what it wrote. -/
theorem vary_follows (inRange : RandomSource.InRange ρ n) (distinct : RandomSource.Distinct ρ)
    (valid : s.settings.validate = .ok ()) (four : 4 ≤ n) (some : 0 < l.genes)
    (phases : l.twoPhase = true) (sized : p.Sized l n) :
    Draw.Follows (vary s p : Draw ρ _) (planRows s.settings n l.genes (List.range n))
      fun plan x => x.1 = s ∧ Mixed l n s.settings.scaleFactor plan p x.2 := by
  have below : ∀ row ∈ List.range n, row < n := fun _ => List.mem_range.mp
  rw [vary, sized.count]
  refine (varyRows_follows inRange distinct valid four some phases List.nodup_range below sized
    fun _ => rfl).last fun plan q done => ?_
  obtain ⟨listed, mixed, kept, rewritten⟩ := done
  obtain ⟨q', clipped, kept'⟩ := kept.exists_clip .trial
  have written (m : Mix) (planned : m ∈ plan) {r : Row α} (held : p.rows[m.row]? = .some r) :=
    rewritten.clip kept clipped (List.mem_map.mpr ⟨m, planned, rfl⟩) held
  refine .reads clipped (.pure ⟨rfl, kept', listed, fun i r held => ?_, fun m planned => ?_⟩)
  · have inside : i < n := sized.length ▸ (List.getElem?_eq_some_iff.mp held).1
    obtain ⟨m, planned, rfl⟩ := List.mem_map.mp (listed ▸ List.mem_range.mpr inside)
    exact ⟨_, written m planned held⟩
  · obtain ⟨⟨base, plus, minus⟩, apart, length, taken⟩ := mixed m planned
    have own : m.row < n := List.mem_range.mp (listed ▸ List.mem_map_of_mem planned)
    refine ⟨⟨base, plus, minus⟩, apart, length, taken, fun place inside => ?_⟩
    obtain ⟨x, first⟩ := sized.exists_gene base .incumbent inside
    obtain ⟨y, second⟩ := sized.exists_gene plus .incumbent inside
    obtain ⟨z, third⟩ := sized.exists_gene minus .incumbent inside
    obtain ⟨w, last⟩ := sized.exists_gene own .incumbent inside
    have masked : m.mask[place]? = .some m.mask[place] := List.getElem?_eq_getElem (length ▸ inside)
    refine ⟨_, x, y, z, w, masked, first, second, third, last, ?_⟩
    obtain ⟨r, held, _⟩ := sized.exists_row own
    rw [Population.gene_of_withTrial (written m planned held), List.getElem?_map, Mix.genes,
      mixGenes_at masked first second third last]
    rfl

/-- Every trial is a mixture of incumbents as they were before the call, clamped. A gene of the own
incumbent is kept as it is where it lies in the unit interval. -/
theorem trials_mix_incumbents (inRange : RandomSource.InRange ρ n)
    (distinct : RandomSource.Distinct ρ) (valid : s.settings.validate = .ok ()) (four : 4 ≤ n)
    (some : 0 < l.genes) (phases : l.twoPhase = true) (sized : p.Sized l n) :
    Draw.Follows (vary s p : Draw ρ _) (planRows s.settings n l.genes (List.range n))
      (fun plan x => x.1 = s ∧ Mixed l n s.settings.scaleFactor plan p x.2) ∧
    ∀ w : α, Scalar.lt w Scalar.zero = false → Scalar.lt Scalar.one w = false →
      Scalar.clampUnit w = w := by
  refine ⟨vary_follows inRange distinct valid four some phases sized, fun w above below => ?_⟩
  simp [Scalar.clampUnit, Scalar.clamp, above, below]

end Following

/-- Four rows of two genes, the first of which has settled on genes beyond the unit interval. -/
def overshot : Population (Exact ℚ) where
  layout := ⟨2, 1, true⟩
  count := 4
  rows := [[2, 2], [0, 0], [0, 0], [0, 0]].map fun genes =>
    ⟨⟨[.finite 0, .finite 0], .unconstrained, [.finite 1]⟩,
      some ⟨genes.map .finite, .unconstrained, [.finite 1]⟩⟩

theorem overshot_sized : overshot.Sized ⟨2, 1, true⟩ 4 := by
  refine ⟨rfl, rfl, rfl, fun i r place => ?_⟩
  obtain ⟨genes, member, rfl⟩ := List.mem_map.mp (List.mem_of_getElem? place)
  have pairs : ∀ genes ∈ ([[2, 2], [0, 0], [0, 0], [0, 0]] : List (List ℚ)), genes.length = 2 := by
    decide
  refine ⟨⟨rfl, rfl⟩, fun b held => ?_, rfl⟩
  cases held
  exact ⟨(List.length_map _).trans (pairs genes member), rfl⟩

theorem trials_mix_incumbents_overshot :
    (Settings.default : Settings (Exact ℚ)).validate = .ok () ∧
    overshot.Sized ⟨2, 1, true⟩ 4 ∧
    ∃ plan q random, (vary ⟨.default, 0, 0⟩ overshot : Draw (Generator (Exact ℚ)) _).run.run
        (RandomSource.ofSeed 7) = (.ok (⟨.default, 0, 0⟩, q), random) ∧
      Mixed ⟨2, 1, true⟩ 4 (Scalar.ratio 1 2) plan overshot q := by
  obtain ⟨⟨⟩, valid⟩ := exists_ok (x := (Settings.default : Settings (Exact ℚ)).validate)
    (by decide +kernel)
  obtain ⟨plan, random, _, ⟨t, q⟩, ran, same, mixed⟩ :=
    (trials_mix_incumbents (s := ⟨.default, 0, 0⟩) (Generator.inRange.mono (by decide))
      Generator.distinct valid (by decide) (by decide) rfl overshot_sized).1
      (RandomSource.ofSeed 7)
  cases same
  exact ⟨valid, overshot_sized, plan, q, random, ran, mixed⟩

/-- A gene of the mutant of three rows, clamped. -/
def mutantAt (factor : α) (p : Population α) (base plus minus place : Nat) : Option α := do
  let x ← p.gene .incumbent base place
  let y ← p.gene .incumbent plus place
  let z ← p.gene .incumbent minus place
  return Scalar.clampUnit (x + factor * (y - z))

/-- Without a weight and without chance a trial differs from its incumbent in one place only, but
the other gene of the first row is clamped too: it is neither that of the incumbent nor one of a
mutant. -/
theorem trial_neither_incumbent_nor_mutant :
    (⟨Scalar.zero, Scalar.zero⟩ : Settings (Exact ℚ)).validate = .ok () ∧
    overshot.Sized ⟨2, 1, true⟩ 4 ∧
    ∃ x random, (vary ⟨⟨Scalar.zero, Scalar.zero⟩, 0, 0⟩ overshot :
        Draw (Generator (Exact ℚ)) _).run.run (RandomSource.ofSeed 7) = (.ok x, random) ∧
      ¬∃ r0 < 4, ∃ r1 < 4, ∃ r2 < 4, [0, r0, r1, r2].Nodup ∧ ∀ place < 2,
        x.2.gene .trial 0 place = overshot.gene .incumbent 0 place ∨
        x.2.gene .trial 0 place = mutantAt Scalar.zero overshot r0 r1 r2 place := by
  obtain ⟨⟨⟩, valid⟩ := exists_ok
    (x := (⟨Scalar.zero, Scalar.zero⟩ : Settings (Exact ℚ)).validate) (by decide +kernel)
  obtain ⟨x, ran, clamped⟩ := exists_ok_of_any
    (x := ((vary ⟨⟨Scalar.zero, Scalar.zero⟩, 0, 0⟩ overshot :
      Draw (Generator (Exact ℚ)) _).run.run (RandomSource.ofSeed 7)).1)
    (P := fun x : State (Exact ℚ) × Population (Exact ℚ) =>
      x.2.gene .trial 0 1 = some (.finite 1)) (by decide +kernel)
  have kept : overshot.gene .incumbent 0 1 = some (.finite 2) := by decide +kernel
  have zeros : ∀ row < 4, row ≠ 0 → overshot.gene .incumbent row 1 = some (.finite 0) := by
    decide +kernel
  refine ⟨valid, overshot_sized, x, _, Prod.ext ran rfl, ?_⟩
  rintro ⟨r0, below0, r1, below1, r2, below2, apart, genes⟩
  have others : r0 ≠ 0 ∧ r1 ≠ 0 ∧ r2 ≠ 0 := by
    simp only [List.nodup_cons, List.mem_cons, not_or] at apart
    omega
  have mutant : mutantAt Scalar.zero overshot r0 r1 r2 1 = some (.finite 0) := by
    rw [mutantAt, zeros r0 below0 others.1, zeros r1 below1 others.2.1, zeros r2 below2 others.2.2]
    decide +kernel
  have gene := genes 1 (by decide)
  rw [clamped, kept, mutant] at gene
  revert gene
  decide

end Metaheuristic.Differential
