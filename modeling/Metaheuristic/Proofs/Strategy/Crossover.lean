import Metaheuristic.Proofs.Number.UnitCube
import Metaheuristic.Proofs.Population.Trials
import Metaheuristic.Proofs.Random.Generator
import Metaheuristic.Proofs.Random.Plans
import Metaheuristic.Proofs.Random.UnitDraws
import Metaheuristic.Proofs.Strategy.Answers

/-! A new generation. Which rows mate and what happens to their genes is drawn before any gene is
looked at, so the variation of a population follows a plan that does not know the population. Each
row is crossed with its mate as both stood before, and written once. -/
namespace Metaheuristic.Genetic

open Population (Sized Rewritten)

variable {ρ α : Type}

/-- What happens to a gene. -/
inductive Change (α : Type) where
  | keep
  | blend (weight : α)
  | redraw (fresh : α)

/-- What is drawn for a row: its mate and what happens to its genes. -/
structure Crossing (α : Type) where
  row : Nat
  mate : Nat
  changes : List (Change α)

def Change.isRedraw : Change α → Bool
  | redraw _ => true
  | keep | blend _ => false

variable [Scalar α]

/-- The new gene in the place of one that has another one to blend with. -/
def Change.apply (gene other : α) : Change α → α
  | keep => gene
  | blend weight => gene + weight * (other - gene)
  | redraw fresh => fresh

/-- The genes of the row after its crossing with the mate, before they are clamped. -/
def Crossing.genes (c : Crossing α) (parents : Population α) : List α :=
  List.zipWith (fun change pair => change.apply pair.1 pair.2) c.changes
    ((parents.genesOf .trial c.row).zip (parents.genesOf .trial c.mate))

/-- Rows that are crossed have as many genes as the layout. -/
theorem Crossing.length_genes {l : Layout} {n : Nat} {parents : Population α}
    {c : Crossing α} (sized : parents.Sized l n) (row : c.row < n) (mate : c.mate < n)
    (length : c.changes.length = l.genes) : (c.genes parents).length = l.genes := by
  rw [Crossing.genes, List.length_zipWith, List.length_zip, sized.length_genesOf row,
    sized.length_genesOf mate, Nat.min_self, length, Nat.min_self]

section Plan

variable [RandomSource ρ α]

def planGene (s : Settings α) : Draw ρ (Change α) := do
  let change ←
    if ← Draw.chance (Scalar.ratio 1 2 : α) then pure .keep
    else do
      let weight ← Draw.walk
      pure (.blend weight)
  if ← Draw.chance s.mutationRate then
    let fresh ← Draw.unit
    return .redraw fresh
  else return change

def planGenes (s : Settings α) : (count : Nat) → Draw ρ (List (Change α))
  | 0 => return []
  | count + 1 => do
    let change ← planGene s
    let rest ← planGenes s count
    return change :: rest

/-- The crossings of the rows listed, of that many rows with so many genes. -/
def planRows (s : Settings α) (count genes : Nat) : List Nat → Draw ρ (List (Crossing α))
  | [] => return []
  | row :: rows => do
    let mate ← mateOf s count row
    let changes ← planGenes s genes
    let rest ← planRows s count genes rows
    return ⟨row, mate, changes⟩ :: rest

end Plan

/-- Number of rows with a mate other than themselves. -/
def matings (plan : List (Crossing α)) : Nat := plan.countP fun c => c.mate ≠ c.row

/-- Number of genes that are drawn anew. -/
def redraws (plan : List (Crossing α)) : Nat :=
  (plan.map fun c => c.changes.countP Change.isRedraw).sum

omit [Scalar α] in
theorem matings_cons (c : Crossing α) (plan : List (Crossing α)) :
    matings (c :: plan) = (if c.mate = c.row then 0 else 1) + matings plan := by
  rw [matings, List.countP_cons, Nat.add_comm]
  by_cases own : c.mate = c.row <;> simp [own, matings]

omit [Scalar α] in
theorem redraws_cons (c : Crossing α) (plan : List (Crossing α)) :
    redraws (c :: plan) = c.changes.countP Change.isRedraw + redraws plan := rfl

section Following

variable [RandomSource ρ α] [Scalar.LawfulUnit α] {l : Layout} {n : Nat} {p parents : Population α}
  {settings : Settings α} {s : State α} (valid : settings.validate = .ok ())

include valid

theorem varyGene_follows (gene other : α) :
    Draw.Follows (varyGene settings gene other : Draw ρ (α × Bool)) (planGene settings)
      fun change x => x = (change.apply gene other, change.isRedraw) := by
  obtain ⟨_, mutation, _⟩ := Settings.validate_ok valid
  have half := Scalar.LawfulUnit.half (α := α)
  have finished (change : Change α) (kept : change.isRedraw = false) : Draw.Follows (do
      if ← Draw.chance settings.mutationRate then
        let fresh ← Draw.unit
        return (fresh, true)
      else return (change.apply gene other, false) : Draw ρ (α × Bool)) (do
      if ← Draw.chance settings.mutationRate then
        let fresh ← Draw.unit
        return .redraw fresh
      else return change)
      fun change x => x = (change.apply gene other, change.isRedraw) := by
    refine (Draw.Follows.self (.chance mutation.1 mutation.2)).bind fun redraw _ same => ?_
    rw [← same.1]
    cases redraw with
    | true =>
      refine (Draw.Follows.self Draw.Answers.unit).bind fun fresh _ same => ?_
      rw [← same.1]
      exact .pure rfl
    | false => exact .pure (by rw [kept])
  refine (Draw.Follows.self (.chance half.1 half.2)).bind fun keep _ same => ?_
  rw [← same.1]
  cases keep with
  | true => exact finished .keep rfl
  | false =>
    refine (Draw.Follows.self Draw.Answers.walk).bind fun weight _ same => ?_
    rw [← same.1]
    exact finished (.blend weight) rfl

theorem varyGenes_follows {genes others : List α} {count : Nat} (own : genes.length = count)
    (other : others.length = count) :
    Draw.Follows (varyGenes settings genes others : Draw ρ (List α × Nat))
      (planGenes settings count) fun changes x => changes.length = count ∧
        x = (List.zipWith (fun change pair => change.apply pair.1 pair.2) changes
          (genes.zip others), changes.countP Change.isRedraw) := by
  induction count generalizing genes others with
  | zero =>
    rw [List.eq_nil_of_length_eq_zero own, List.eq_nil_of_length_eq_zero other]
    exact .pure ⟨rfl, rfl⟩
  | succ count ih =>
    obtain ⟨gene, genes, rfl⟩ := List.exists_cons_of_length_eq_add_one own
    obtain ⟨h, others, rfl⟩ := List.exists_cons_of_length_eq_add_one other
    refine (varyGene_follows valid gene h).bind fun change x first =>
      (ih (Nat.succ.inj own) (Nat.succ.inj other)).bind fun changes y rest => ?_
    obtain ⟨length, rfl⟩ := rest
    subst first
    refine .pure ⟨congrArg Nat.succ length, ?_⟩
    rw [List.zip_cons_cons, List.zipWith_cons_cons, List.countP_cons]
    split <;> rfl

/-- Each row is crossed as planned with the parents, and written once. By induction on the rows
that are left. -/
theorem varyRows_follows (inRange : RandomSource.InRange ρ n) (before : parents.Sized l n)
    {rows : List Nat} (nodup : rows.Nodup) (below : ∀ row ∈ rows, row < n)
    (own : s.settings = settings) (sized : p.Sized l n) :
    Draw.Follows (varyRows parents rows s p : Draw ρ _) (planRows settings n l.genes rows)
      fun plan x => plan.map (·.row) = rows ∧
        (∀ c ∈ plan, c.mate < n ∧ c.changes.length = l.genes) ∧
        x.1 = ⟨settings, s.matings + matings plan, s.mutations + redraws plan⟩ ∧
        x.2.Sized l n ∧ Rewritten (plan.map fun c => (c.row, c.genes parents)) p x.2 := by
  induction rows generalizing s p with
  | nil =>
    refine .pure ⟨rfl, nofun, ?_, sized, .refl p⟩
    rw [← own]
    rfl
  | cons row rows ih =>
    have here := below row List.mem_cons_self
    rw [varyRows, own, before.count]
    refine (Draw.Follows.self (mateOf_answers valid inRange here)).bind fun mate _ chosen => ?_
    obtain ⟨rfl, there⟩ := chosen
    refine .reads (before.read_genesOf there .trial) ?_
    refine .reads (before.read_genesOf here .trial) ?_
    refine (varyGenes_follows valid (before.length_genesOf here .trial)
      (before.length_genesOf there .trial)).bind fun changes x varied => ?_
    obtain ⟨length, rfl⟩ := varied
    let c : Crossing α := ⟨row, mate, changes⟩
    have full : (c.genes parents).length = l.genes := Crossing.length_genes before here there length
    obtain ⟨q, written, kept⟩ := sized.exists_setChromosome here full .trial
    refine .reads written ?_
    refine (ih nodup.of_cons (fun row member => below row (List.mem_cons_of_mem _ member)) rfl
      kept).collect fun plan x done => ?_
    obtain ⟨listed, crossed, counted, kept', rewritten⟩ := done
    have fresh : row ∉ (plan.map fun c => (c.row, c.genes parents)).map Prod.fst := by
      rw [List.map_map]
      exact listed ▸ (List.nodup_cons.mp nodup).1
    refine ⟨congrArg (row :: ·) listed, List.forall_mem_cons.mpr ⟨⟨there, length⟩, crossed⟩, ?_,
      kept', rewritten.cons fresh written⟩
    rw [counted, matings_cons, redraws_cons, ← Nat.add_assoc, ← Nat.add_assoc]
    by_cases alone : mate = row <;> simp [alone]

/-- Varying follows the plan and clamps what it wrote. -/
theorem vary_follows (inRange : RandomSource.InRange ρ n) (own : s.settings = settings)
    (sized : p.Sized l n) :
    Draw.Follows (vary s p : Draw ρ _) (planRows settings n l.genes (List.range n))
      fun plan x => plan.map (·.row) = List.range n ∧
        (∀ c ∈ plan, c.mate < n ∧ c.changes.length = l.genes) ∧
        x.1 = ⟨settings, s.matings + matings plan, s.mutations + redraws plan⟩ ∧
        x.2.Sized l n ∧ ∀ c ∈ plan, ∀ r, p.rows[c.row]? = some r →
          x.2.rows[c.row]? = some (r.withTrial ((c.genes p).map Scalar.clampUnit)) := by
  have below : ∀ row ∈ List.range n, row < n := fun _ => List.mem_range.mp
  rw [vary, sized.count]
  refine (varyRows_follows valid inRange sized List.nodup_range below own sized).last
    fun plan x done => ?_
  obtain ⟨listed, crossed, counted, kept, rewritten⟩ := done
  obtain ⟨q, clipped, kept'⟩ := kept.exists_clip .trial
  exact .reads clipped (.pure ⟨listed, crossed, counted, kept', fun c planned r held =>
    rewritten.clip kept clipped (List.mem_map.mpr ⟨c, planned, rfl⟩) held⟩)

end Following

/-- A gene of a crossing comes from the genes at its place in the row and in the mate. -/
theorem Crossing.gene_at {l : Layout} {n : Nat} {p : Population α} {c : Crossing α} {place : Nat}
    (sized : p.Sized l n) (row : c.row < n) (mate : c.mate < n)
    (length : c.changes.length = l.genes) (inside : place < l.genes) :
    ∃ change g h, c.changes[place]? = some change ∧ p.gene .trial c.row place = some g ∧
      p.gene .trial c.mate place = some h ∧ (c.genes p)[place]? = some (change.apply g h) := by
  obtain ⟨g, own⟩ := sized.exists_gene row .trial inside
  obtain ⟨h, other⟩ := sized.exists_gene mate .trial inside
  have changed : c.changes[place]? = some c.changes[place] :=
    List.getElem?_eq_getElem (length ▸ inside)
  refine ⟨_, g, h, changed, own, other, ?_⟩
  have paired : ((p.genesOf .trial c.row).zip (p.genesOf .trial c.mate))[place]? = some (g, h) :=
    List.getElem?_zip_eq_some.mpr ⟨own, other⟩
  rw [Crossing.genes, List.getElem?_zipWith, changed, paired]

section Drawn

variable [RandomSource ρ α] {settings : Settings α} {P : Change α → Prop}

/-- What is known of the draws for a gene is known of the change that they make. -/
theorem planGene_yields {Redraws : Bool → Prop} (keep : P .keep)
    (blend : Draw.Yields (Draw.walk : Draw ρ α) fun weight => P (.blend weight))
    (drawn : Draw.Yields (Draw.chance settings.mutationRate : Draw ρ Bool) Redraws)
    (redraw : Redraws true → Draw.Yields (Draw.unit : Draw ρ α) fun fresh => P (.redraw fresh)) :
    Draw.Yields (planGene settings : Draw ρ _) P := by
  have finished (change : Change α) (own : P change) : Draw.Yields (do
      if ← Draw.chance settings.mutationRate then
        let fresh ← Draw.unit
        return .redraw fresh
      else return change : Draw ρ (Change α)) P := by
    refine drawn.bind fun redraws known => ?_
    cases redraws with
    | true => exact (redraw known).bind fun fresh holds => .pure holds
    | false => exact .pure own
  refine Draw.Yields.anything.bind fun keeps _ => ?_
  cases keeps with
  | true => exact finished .keep keep
  | false => exact blend.bind fun weight holds => finished (.blend weight) holds

theorem planGenes_yields (gene : Draw.Yields (planGene settings : Draw ρ _) P) (count : Nat) :
    Draw.Yields (planGenes settings count : Draw ρ _) fun changes => ∀ c ∈ changes, P c := by
  induction count with
  | zero => exact .pure nofun
  | succ count ih =>
    exact gene.bind fun change first => ih.bind fun rest all =>
      .pure (List.forall_mem_cons.mpr ⟨first, all⟩)

theorem planRows_yields {count genes : Nat} (Mates : Nat → Nat → Prop)
    (mate : ∀ row, Draw.Yields (mateOf settings count row : Draw ρ _) (Mates row))
    (gene : Draw.Yields (planGene settings : Draw ρ _) P) (rows : List Nat) :
    Draw.Yields (planRows settings count genes rows : Draw ρ _) fun plan =>
      ∀ c ∈ plan, Mates c.row c.mate ∧ ∀ change ∈ c.changes, P change := by
  induction rows with
  | nil => exact .pure nofun
  | cons row rows ih =>
    exact (mate row).bind fun m mates => (planGenes_yields gene genes).bind fun changes all =>
      ih.bind fun rest crossings => .pure (List.forall_mem_cons.mpr ⟨⟨mates, all⟩, crossings⟩)

end Drawn

section Exactly

open Exact

variable {K : Type} [Field K] [LinearOrder K] [FloorRing K] [Elementary K]

/-- What may become of a gene `g` whose mate has `h`: it stays, it is blended with a weight of at
most one unit and clamped, or it is drawn anew. -/
inductive Outcome (g h : Exact K) : Change (Exact K) → Exact K → Prop
  | keep : Outcome g h .keep g
  | blend (u : K) (lower : -1 ≤ u) (upper : u ≤ 1) :
    Outcome g h (.blend (.finite u)) (Scalar.clampUnit (g + .finite u * (h - g)))
  | redraw (u : K) (lower : 0 ≤ u) (below : u < 1) : Outcome g h (.redraw (.finite u)) (.finite u)

/-- Weights of at most one unit and fresh values of the unit interval. -/
def Change.Within : Change (Exact K) → Prop
  | keep => True
  | blend weight => ∃ u : K, weight = .finite u ∧ -1 ≤ u ∧ u ≤ 1
  | redraw fresh => ∃ u : K, fresh = .finite u ∧ 0 ≤ u ∧ u < 1

theorem Change.Within.outcome [IsStrictOrderedRing K] {change : Change (Exact K)} {g : Exact K}
    (within : change.Within) (unit : InUnit g) (h : Exact K) :
    Outcome g h change (Scalar.clampUnit (change.apply g h)) := by
  cases change with
  | keep =>
    rw [apply, unit.clampUnit_eq]
    exact .keep
  | blend weight =>
    obtain ⟨u, rfl, lower, upper⟩ := within
    exact .blend u lower upper
  | redraw fresh =>
    obtain ⟨u, rfl, lower, below⟩ := within
    have inside : InUnit (.finite u : Exact K) := ⟨u, rfl, lower, below.le⟩
    rw [apply, inside.clampUnit_eq]
    exact .redraw u lower below

variable [RandomSource ρ (Exact K)] {settings : Settings (Exact K)}

theorem planGene_within (within : RandomSource.WithinUnit ρ) :
    Draw.Yields (planGene settings : Draw ρ _) Change.Within :=
  planGene_yields trivial (Draw.Yields.walk_range within) Draw.Yields.anything
    fun _ => Draw.Yields.unit_range within

theorem never_of_zero {rate : Exact K} (zero : rate = Scalar.zero)
    (never : ∀ random : ρ, (RandomSource.chance (Scalar.zero : Exact K) random).1 = false) :
    Draw.Yields (Draw.chance rate : Draw ρ Bool) fun happens => happens = false := by
  intro random happens random' _ ran
  unfold Draw.chance at ran
  split at ran
  · cases ran
    rw [zero]
    exact never random
  · cases ran

/-- Without mating and mutation every row is its own mate and no gene is drawn anew. -/
theorem planRows_idle {count genes : Nat}
    (never : ∀ random : ρ, (RandomSource.chance (Scalar.zero : Exact K) random).1 = false)
    (crossover : settings.crossoverRate = Scalar.zero)
    (mutation : settings.mutationRate = Scalar.zero) (rows : List Nat) :
    Draw.Yields (planRows settings count genes rows : Draw ρ _) fun plan =>
      ∀ c ∈ plan, c.mate = c.row ∧ ∀ change ∈ c.changes, change.isRedraw = false := by
  refine planRows_yields (fun row mate => mate = row) (fun row => ?_) ?_ rows
  · refine (never_of_zero crossover never).bind fun mates alone => ?_
    rw [alone]
    exact .pure rfl
  · exact planGene_yields rfl (Draw.Yields.anything.weaken fun _ _ => rfl)
      (never_of_zero mutation never) nofun

theorem planRows_within {count genes : Nat} (within : RandomSource.WithinUnit ρ)
    (rows : List Nat) :
    Draw.Yields (planRows settings count genes rows : Draw ρ _) fun plan =>
      ∀ c ∈ plan, ∀ change ∈ c.changes, change.Within :=
  (planRows_yields (fun _ _ => True) (fun _ => Draw.Yields.anything)
    (planGene_within within) rows).weaken fun _ known c planned => (known c planned).2

/-- A generation made by a plan: every gene of a row comes from the row and its mate as they were,
and nothing but the trial genes has changed. -/
structure Varied (l : Layout) (n : Nat) (plan : List (Crossing (Exact K)))
    (p q : Population (Exact K)) : Prop where
  sized : q.Sized l n
  rows : plan.map (·.row) = List.range n
  kept : ∀ (i : Nat) r, p.rows[i]? = some r → ∃ genes, q.rows[i]? = some (r.withTrial genes)
  crossed : ∀ c ∈ plan, c.mate < n ∧ c.changes.length = l.genes ∧
    ∀ place < l.genes, ∃ change g h new, c.changes[place]? = some change ∧
      p.gene .trial c.row place = some g ∧ p.gene .trial c.mate place = some h ∧
      q.gene .trial c.row place = some new ∧ Outcome g h change new

variable [IsStrictOrderedRing K] {l : Layout} {n : Nat} {p : Population (Exact K)}
  {s : State (Exact K)}

theorem vary_varied (within : RandomSource.WithinUnit ρ) (inRange : RandomSource.InRange ρ n)
    (valid : s.settings.validate = .ok ()) (sized : p.Sized l n)
    (unit : p.Genes InUnit fun _ => True) :
    Draw.Follows (vary s p : Draw ρ _) (planRows s.settings n l.genes (List.range n))
      fun plan x =>
        x.1 = ⟨s.settings, s.matings + matings plan, s.mutations + redraws plan⟩ ∧
        Varied l n plan p x.2 := by
  refine ((vary_follows valid inRange rfl sized).and_yields
    (planRows_within within _)).weaken fun plan x done => ?_
  obtain ⟨ranged, listed, crossed, counted, kept, written⟩ := done
  have inside (c : Crossing (Exact K)) (planned : c ∈ plan) : c.row < n :=
    List.mem_range.mp (listed ▸ List.mem_map_of_mem planned)
  refine ⟨counted, kept, listed, fun i r held => ?_, fun c planned =>
    ⟨(crossed c planned).1, (crossed c planned).2, fun place below => ?_⟩⟩
  · have below : i < n := sized.length ▸ (List.getElem?_eq_some_iff.mp held).1
    obtain ⟨c, planned, rfl⟩ := List.mem_map.mp (listed ▸ List.mem_range.mpr below)
    exact ⟨_, written c planned r held⟩
  · obtain ⟨mate, length⟩ := crossed c planned
    obtain ⟨change, g, h, changed, own, other, new⟩ :=
      Crossing.gene_at sized (inside c planned) mate length below
    obtain ⟨r, held, _⟩ := sized.exists_row (inside c planned)
    refine ⟨change, g, h, _, changed, own, other, ?_,
      (ranged c planned change (List.mem_of_getElem? changed)).outcome (unit.gene own) h⟩
    rw [Population.gene_of_withTrial (written c planned r held), List.getElem?_map, new,
      Option.map_some]

/-- A row that is crossed with itself stays as it is, unless genes are drawn anew. -/
theorem Crossing.idle {c : Crossing (Exact K)} (sized : p.Sized l n)
    (unit : p.Genes InUnit fun _ => True) (row : c.row < n) (alone : c.mate = c.row)
    (length : c.changes.length = l.genes)
    (ranged : ∀ change ∈ c.changes, change.Within)
    (idle : ∀ change ∈ c.changes, change.isRedraw = false) :
    (c.genes p).map Scalar.clampUnit = p.genesOf .trial c.row := by
  refine List.ext_getElem? fun place => ?_
  rw [List.getElem?_map]
  by_cases below : place < l.genes
  · obtain ⟨change, g, h, changed, own, other, new⟩ :=
      Crossing.gene_at sized row (alone ▸ row) length below
    have same : some h = some g := (other.symm.trans (alone ▸ rfl)).trans own
    cases same
    have inside : InUnit g := unit.gene own
    have stays : change.apply g g = g := by
      obtain ⟨q, rfl, _⟩ := inside
      have kept := idle change (List.mem_of_getElem? changed)
      have finite := ranged change (List.mem_of_getElem? changed)
      cases change with
      | keep => rfl
      | blend weight =>
        obtain ⟨u, rfl, _⟩ := finite
        have cancels : q + u * (q - q) = q := by ring
        rw [Change.apply, finite_sub, finite_mul, finite_add, cancels]
      | redraw fresh => cases kept
    rw [new, stays, Option.map_some, inside.clampUnit_eq]
    exact own.symm
  · have full := Crossing.length_genes sized row (alone ▸ row) length
    rw [List.getElem?_eq_none (full ▸ Nat.le_of_not_lt below), List.getElem?_eq_none
      (sized.length_genesOf row .trial ▸ Nat.le_of_not_lt below)]
    rfl

/-- Where nothing mates and nothing mutates the generation stays as it is. -/
theorem vary_idle (within : RandomSource.WithinUnit ρ) (inRange : RandomSource.InRange ρ n)
    (never : ∀ random : ρ, (RandomSource.chance (Scalar.zero : Exact K) random).1 = false)
    (valid : s.settings.validate = .ok ()) (sized : p.Sized l n)
    (unit : p.Genes InUnit fun _ => True) (crossover : s.settings.crossoverRate = Scalar.zero)
    (mutation : s.settings.mutationRate = Scalar.zero) :
    Draw.Answers (vary s p : Draw ρ _) fun x => x = (s, p) := by
  have follows := (vary_follows valid inRange rfl sized).and_yields
    ((planRows_within within _).and (planRows_idle never crossover mutation _))
  intro random
  obtain ⟨plan, random', _, ⟨t, q⟩, ran, ⟨ranged, idle⟩, listed, crossed, counted, kept, written⟩ :=
    follows random
  refine ⟨(t, q), random', ran, Prod.ext ?_ (sized.eq_of_rows kept fun i below => ?_)⟩
  · have alone : matings plan = 0 := List.countP_eq_zero.mpr fun c planned => by
      simpa using (idle c planned).1
    have none : redraws plan = 0 := List.sum_eq_zero fun count counts => by
      obtain ⟨c, planned, rfl⟩ := List.mem_map.mp counts
      refine List.countP_eq_zero.mpr fun change changes => ?_
      simp [(idle c planned).2 change changes]
    rw [alone, none] at counted
    exact counted
  · obtain ⟨c, planned, rfl⟩ := List.mem_map.mp (listed ▸ List.mem_range.mpr below)
    obtain ⟨r, held, _⟩ := sized.exists_row below
    have stays := Crossing.idle sized unit below (idle c planned).1 (crossed c planned).2
      (ranged c planned) (idle c planned).2
    have rewritten := written c planned r held
    rw [stays, Population.genesOf_of_row held] at rewritten
    exact rewritten.trans held.symm

/-- Varying crosses the rows of the previous generation. Where nothing mates and nothing mutates it
leaves the generation as it is. -/
theorem variation_crosses_previous_generation (within : RandomSource.WithinUnit ρ)
    (inRange : RandomSource.InRange ρ n) (valid : s.settings.validate = .ok ())
    (sized : p.Sized l n) (unit : p.Genes InUnit fun _ => True) :
    (Draw.Follows (vary s p : Draw ρ _) (planRows s.settings n l.genes (List.range n))
      fun plan x =>
        x.1 = ⟨s.settings, s.matings + matings plan, s.mutations + redraws plan⟩ ∧
        Varied l n plan p x.2) ∧
    ((∀ random : ρ, (RandomSource.chance (Scalar.zero : Exact K) random).1 = false) →
      s.settings.crossoverRate = Scalar.zero → s.settings.mutationRate = Scalar.zero →
      Draw.Answers (vary s p : Draw ρ _) fun x => x = (s, p)) :=
  ⟨vary_varied within inRange valid sized unit, fun never crossover mutation =>
    vary_idle within inRange never valid sized unit crossover mutation⟩

end Exactly

/-- Three rows of two genes. -/
def litter : Population (Exact ℚ) where
  layout := ⟨2, 1, false⟩
  count := 3
  rows := [[0, 1], [1 / 4, 1 / 2], [1, 3 / 4]].map fun genes =>
    ⟨⟨genes.map .finite, .unconstrained, [.finite 1]⟩, none⟩

/-- Settings by which nothing mates and nothing mutates. -/
def idling : Settings (Exact ℚ) :=
  { Settings.default with crossoverRate := Scalar.zero, mutationRate := Scalar.zero }

theorem variation_crosses_previous_generation_litter :
    (Settings.default : Settings (Exact ℚ)).validate = .ok () ∧ idling.validate = .ok () ∧
    litter.Sized ⟨2, 1, false⟩ 3 ∧ litter.Genes Exact.InUnit (fun _ => True) ∧
    (∃ plan t q random, (vary ⟨.default, 4, 5⟩ litter : Draw (Generator (Exact ℚ)) _).run.run
        (RandomSource.ofSeed 7) = (.ok (t, q), random) ∧
      t.matings = 4 + matings plan ∧ t.mutations = 5 + redraws plan ∧
      Varied ⟨2, 1, false⟩ 3 plan litter q) ∧
    ∃ random, (vary ⟨idling, 4, 5⟩ litter : Draw (Generator (Exact ℚ)) _).run.run
      (RandomSource.ofSeed 7) = (.ok (⟨idling, 4, 5⟩, litter), random) := by
  have inRange : RandomSource.InRange (Generator (Exact ℚ)) 3 := Generator.inRange.mono (by decide)
  obtain ⟨⟨⟩, valid⟩ := exists_ok (x := (Settings.default : Settings (Exact ℚ)).validate)
    (by decide +kernel)
  obtain ⟨⟨⟩, valid'⟩ := exists_ok (x := idling.validate) (by decide +kernel)
  have checked : ∀ genes ∈ ([[0, 1], [1 / 4, 1 / 2], [1, 3 / 4]] : List (List ℚ)),
      genes.length = 2 ∧ ∀ g ∈ genes, 0 ≤ g ∧ g ≤ 1 := by
    decide +kernel
  have sized : litter.Sized ⟨2, 1, false⟩ 3 := by
    refine ⟨rfl, rfl, rfl, fun i r place => ?_⟩
    obtain ⟨genes, member, rfl⟩ := List.mem_map.mp (List.mem_of_getElem? place)
    exact ⟨⟨(List.length_map _).trans (checked genes member).1, rfl⟩, nofun, rfl⟩
  have unit : litter.Genes Exact.InUnit (fun _ => True) := by
    intro i r place
    obtain ⟨genes, member, rfl⟩ := List.mem_map.mp (List.mem_of_getElem? place)
    refine ⟨fun g inside => ?_, nofun⟩
    obtain ⟨q, listed, rfl⟩ := List.mem_map.mp inside
    exact ⟨q, rfl, (checked genes member).2 q listed⟩
  refine ⟨valid, valid', sized, unit, ?_, ?_⟩
  · obtain ⟨plan, random, _, ⟨t, q⟩, ran, counted, varied⟩ :=
      (variation_crosses_previous_generation (s := ⟨.default, 4, 5⟩) Generator.withinUnit inRange
        valid sized unit).1 (RandomSource.ofSeed 7)
    exact ⟨plan, t, q, random, ran, congrArg State.matings counted,
      congrArg State.mutations counted, varied⟩
  · obtain ⟨x, random, ran, same⟩ :=
      (variation_crosses_previous_generation (s := ⟨idling, 4, 5⟩) Generator.withinUnit inRange
        valid' sized unit).2 Generator.chance_zero rfl rfl (RandomSource.ofSeed 7)
    exact ⟨random, same ▸ ran⟩

end Metaheuristic.Genetic
