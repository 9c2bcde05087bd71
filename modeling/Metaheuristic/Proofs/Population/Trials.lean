import Metaheuristic.Proofs.Population.Addressed
import Metaheuristic.Proofs.Population.Genes

/-! New trials. A strategy that varies a population writes the genes of one row after the other,
and clamps them all in the end. Nothing else of a row changes, and a row that is written once holds
what was written into it, clamped. -/
namespace Metaheuristic

variable {α : Type} {l : Layout} {n : Nat}

/-- The row with other genes in its trial. -/
def Row.withTrial (r : Row α) (genes : List α) : Row α :=
  { r with trial := { r.trial with genes := genes } }

namespace Population

variable {p q q' : Population α} {row : Nat} {genes : List α}

/-- The genes of a row. -/
def genesOf (p : Population α) (region : Region) (row : Nat) : List α :=
  ((p.rows[row]?).map fun r => (r.block region).genes).getD []

/-- A gene of a row. -/
def gene (p : Population α) (region : Region) (row place : Nat) : Option α :=
  (p.genesOf region row)[place]?

theorem genesOf_of_row {r : Row α} (held : p.rows[row]? = some r) (region : Region) :
    p.genesOf region row = (r.block region).genes := by
  rw [genesOf, held, Option.map_some, Option.getD_some]

theorem gene_of_withTrial {r : Row α} (held : p.rows[row]? = some (r.withTrial genes))
    (place : Nat) : p.gene .trial row place = genes[place]? := by
  rw [gene, genesOf_of_row held]
  rfl

theorem Sized.exists_row (sized : p.Sized l n) (below : row < n) :
    ∃ r, p.rows[row]? = some r ∧ r.Sized l := by
  have held := List.getElem?_eq_getElem (Nat.lt_of_lt_of_eq below sized.length.symm)
  exact ⟨_, held, sized.rows row _ held⟩

theorem Sized.read_genesOf (sized : p.Sized l n) (below : row < n) (region : Region) :
    p.chromosome row region = .ok (p.genesOf region row) := by
  obtain ⟨r, held, _⟩ := sized.exists_row below
  rw [genesOf_of_row held, sized.read_chromosome held]

theorem Sized.length_genesOf (sized : p.Sized l n) (below : row < n) (region : Region) :
    (p.genesOf region row).length = l.genes := by
  obtain ⟨r, held, rowSized⟩ := sized.exists_row below
  rw [genesOf_of_row held]
  exact (rowSized.block region).genes

theorem Sized.exists_gene (sized : p.Sized l n) (below : row < n) (region : Region) {place : Nat}
    (inside : place < l.genes) : ∃ g, p.gene region row place = some g :=
  ⟨_, List.getElem?_eq_getElem (Nat.lt_of_lt_of_eq inside (sized.length_genesOf below region).symm)⟩

/-- Populations with the same rows are the same. -/
theorem Sized.eq_of_rows (sized : p.Sized l n) (sized' : q.Sized l n)
    (same : ∀ i < n, q.rows[i]? = p.rows[i]?) : q = p := by
  have rows : q.rows = p.rows := by
    refine List.ext_getElem? fun i => ?_
    by_cases below : i < n
    · exact same i below
    · rw [List.getElem?_eq_none (sized'.length ▸ Nat.le_of_not_lt below),
        List.getElem?_eq_none (sized.length ▸ Nat.le_of_not_lt below)]
  have layout := sized'.layout.trans sized.layout.symm
  have count := sized'.count.trans sized.count.symm
  cases p
  cases q
  cases rows
  cases layout
  cases count
  rfl

/-- What every gene of the trials has. -/
theorem Genes.gene {P Q : α → Prop} (genes : p.Genes P Q) {place : Nat} {g : α}
    (held : p.gene .trial row place = some g) : P g := by
  have member := List.mem_of_getElem? held
  cases found : p.rows[row]? with
  | none =>
    rw [genesOf, found] at member
    cases member
  | some r =>
    rw [genesOf_of_row found] at member
    exact (genes row r found).trial g member

theorem modifyTrial_rows {start length : Nat} {f : Block α → Block α}
    (ran : p.modifyField row .trial start length f = .ok q) :
    q.layout = p.layout ∧ q.count = p.count ∧ ∀ i : Nat, q.rows[i]? = p.rows[i]?.map fun r =>
      if row = i then { r with trial := f r.trial } else r := by
  rw [modifyField_ok ran]
  refine ⟨rfl, rfl, fun i => ?_⟩
  simp only [List.getElem?_modify]
  rfl

theorem setTrial_rows (ran : p.setChromosome row .trial genes = .ok q) :
    q.layout = p.layout ∧ q.count = p.count ∧ ∀ i : Nat, q.rows[i]? = p.rows[i]?.map fun r =>
      if row = i then r.withTrial genes else r := by
  unfold setChromosome at ran
  split at ran
  · exact modifyTrial_rows ran
  · cases ran

/-- With two phases the incumbents read the same after trials are written. -/
theorem genesOf_setTrial (sized : p.Sized l n) (phases : l.twoPhase = true)
    (ran : p.setChromosome row .trial genes = .ok q) (i : Nat) :
    q.genesOf .incumbent i = p.genesOf .incumbent i := by
  obtain ⟨_, _, rows⟩ := setTrial_rows ran
  rw [genesOf, genesOf, rows, Option.map_map]
  cases held : p.rows[i]? with
  | none => rfl
  | some r =>
    obtain ⟨b, incumbent⟩ :=
      Option.isSome_iff_exists.mp ((sized.rows i r held).phases.trans phases)
    by_cases same : row = i <;> simp [same, Row.withTrial, Row.block, incumbent]

/-- The rows listed have the genes listed with them, and the others are as they were. -/
structure Rewritten (writes : List (Nat × List α)) (p q : Population α) : Prop where
  layout : q.layout = p.layout
  count : q.count = p.count
  written : ∀ row genes, (row, genes) ∈ writes → ∀ r, p.rows[row]? = some r →
    q.rows[row]? = some (r.withTrial genes)
  kept : ∀ i, i ∉ writes.map Prod.fst → q.rows[i]? = p.rows[i]?

namespace Rewritten

variable {writes : List (Nat × List α)}

theorem refl (p : Population α) : Rewritten [] p p := ⟨rfl, rfl, nofun, fun _ _ => rfl⟩

/-- A row is written and does not come again. -/
theorem cons (fresh : row ∉ writes.map Prod.fst)
    (ran : p.setChromosome row .trial genes = .ok q) (rest : Rewritten writes q q') :
    Rewritten ((row, genes) :: writes) p q' := by
  obtain ⟨layout, count, rows⟩ := setTrial_rows ran
  refine ⟨rest.layout.trans layout, rest.count.trans count, fun row' genes' listed r held => ?_,
    fun i missing => ?_⟩
  · rcases List.mem_cons.mp listed with same | later
    · cases same
      rw [rest.kept row fresh, rows, held, Option.map_some, if_pos rfl]
    · refine rest.written row' genes' later r ?_
      have other : row ≠ row' := by
        rintro rfl
        exact fresh (List.mem_map_of_mem later)
      rw [rows, held, Option.map_some, if_neg other]
  · rw [List.map_cons, List.mem_cons, not_or] at missing
    rw [rest.kept i missing.2, rows]
    simp [Ne.symm missing.1]

end Rewritten

/-- A change of every row, one after the other, changes every row. -/
theorem Sized.rows_of_foldlM {f : Population α → Nat → Except Fault (Population α)}
    {g : Row α → Row α} (sized : p.Sized l n)
    (step : ∀ k q q', q.Sized l n → f q k = .ok q' → q'.Sized l n ∧ q'.rows = q.rows.modify k g)
    (ran : (List.range p.count).foldlM f p = .ok q) :
    ∀ i : Nat, q.rows[i]? = p.rows[i]?.map g := by
  have passed : q.Sized l n ∧
      ∀ i : Nat, q.rows[i]? = p.rows[i]?.map fun r => if i < p.count then g r else r := by
    refine foldlM_range (I := fun k (q : Population α) => q.Sized l n ∧
      ∀ i : Nat, q.rows[i]? = p.rows[i]?.map fun r => if i < k then g r else r)
      ?_ ⟨sized, fun i => by simp⟩ ran
    intro k _ q q' sofar ran
    obtain ⟨kept, rows⟩ := step k q q' sofar.1 ran
    refine ⟨kept, fun i => ?_⟩
    rw [rows, List.getElem?_modify, sofar.2]
    cases p.rows[i]? with
    | none => rfl
    | some r =>
      rcases Nat.lt_trichotomy i k with before | rfl | later
      · simp [before, before.ne', Nat.lt_succ_of_lt before]
      · simp
      · simp [later.ne, Nat.not_lt.mpr later.le, Nat.not_lt.mpr (Nat.succ_le_of_lt later)]
  intro i
  rw [passed.2]
  cases held : p.rows[i]? with
  | none => rfl
  | some r =>
    have below : i < p.rows.length := (List.getElem?_eq_some_iff.mp held).1
    rw [sized.length, ← sized.count] at below
    rw [Option.map_some, Option.map_some, if_pos below]

/-- Clamping a region clamps every gene of its blocks and changes nothing else. -/
theorem clip_rows [Scalar α] {region : Region} (sized : p.Sized l n)
    (ran : p.clip region = .ok q) : ∀ i : Nat, q.rows[i]? = p.rows[i]?.map fun r =>
      r.modify region fun b => { b with genes := b.genes.map Scalar.clampUnit } := by
  refine sized.rows_of_foldlM (fun k q q' good step => ⟨?_, ?_⟩) ran
  · exact good.modifyField step
      fun b blockSized => ⟨(List.length_map _).trans blockSized.genes, blockSized.rewards⟩
  · rw [modifyField_ok step]

/-- After clamping, a row that was written holds what was written, clamped. -/
theorem Rewritten.clip [Scalar α] {writes : List (Nat × List α)} {r : Row α}
    (rewritten : Rewritten writes p q) (sized : q.Sized l n) (ran : q.clip .trial = .ok q')
    (listed : (row, genes) ∈ writes) (held : p.rows[row]? = some r) :
    q'.rows[row]? = some (r.withTrial (genes.map Scalar.clampUnit)) := by
  rw [clip_rows sized ran, rewritten.written row genes listed r held]
  rfl

end Population
end Metaheuristic
