import Metaheuristic.Proofs.Population.Addressed

/-! Where the fields of a population stand in its matrix. A row, a region and a field of a block
make an address; a field has its cells from there on. The addresses tile the matrix: every cell
belongs to a field, and different fields share no cell, except that in rows of one phase both
regions name the same block. -/
namespace Metaheuristic

variable {α : Type} {l : Layout} {n : Nat}

/-- The fields of a block. -/
inductive BlockField where
  | genes
  | status
  | rewards
  deriving DecidableEq, Repr

/-- What a field of a block holds. -/
inductive Content (α : Type) where
  | genes (xs : List α)
  | status (s : Feasibility)
  | rewards (xs : List α)

/-- The field that can hold the content. -/
def Content.field : Content α → BlockField
  | genes _ => .genes
  | status _ => .status
  | rewards _ => .rewards

/-- The content as cells of the matrix. -/
def Content.cells [Scalar α] : Content α → List α
  | genes xs | rewards xs => xs
  | status s => [s.code]

/-- The content has as many cells as its field. -/
def Content.Fits (l : Layout) : Content α → Prop
  | genes xs => xs.length = l.genes
  | status _ => True
  | rewards xs => xs.length = l.objectives

instance (l : Layout) : (c : Content α) → Decidable (c.Fits l)
  | .genes xs => inferInstanceAs (Decidable (xs.length = l.genes))
  | .status _ => inferInstanceAs (Decidable True)
  | .rewards xs => inferInstanceAs (Decidable (xs.length = l.objectives))

def Block.content (b : Block α) : BlockField → Content α
  | .genes => .genes b.genes
  | .status => .status b.status
  | .rewards => .rewards b.rewards

/-- The block with one field written. -/
def Block.put (b : Block α) : Content α → Block α
  | .genes xs => { b with genes := xs }
  | .status s => { b with status := s }
  | .rewards xs => { b with rewards := xs }

theorem Block.field_content (b : Block α) (field : BlockField) : (b.content field).field = field := by
  cases field <;> rfl

theorem Block.Sized.fits {b : Block α} (sized : b.Sized l) (field : BlockField) :
    (b.content field).Fits l := by
  cases field with
  | genes => exact sized.genes
  | status => trivial
  | rewards => exact sized.rewards

namespace BlockField

/-- Where a field starts in its block. -/
def start (l : Layout) : BlockField → Nat
  | genes => 0
  | status => l.genes
  | rewards => l.genes + 1

/-- Cells of a field. -/
def size (l : Layout) : BlockField → Nat
  | genes => l.genes
  | status => 1
  | rewards => l.objectives

theorem inside (l : Layout) (field : BlockField) : field.start l + field.size l ≤ l.block := by
  cases field <;> simp only [start, size, Layout.block] <;> omega

theorem apart (l : Layout) {field other : BlockField} (different : field ≠ other) :
    field.start l + field.size l ≤ other.start l ∨ other.start l + other.size l ≤ field.start l := by
  cases field <;> cases other <;> simp [start, size] at different ⊢

/-- Every cell of a block belongs to a field. -/
theorem cover {cell : Nat} (within : cell < l.block) :
    ∃ field : BlockField, field.start l ≤ cell ∧ cell < field.start l + field.size l := by
  unfold Layout.block at within
  by_cases first : cell < l.genes
  · exact ⟨.genes, by simp [start, size, first]⟩
  · by_cases second : cell = l.genes
    · exact ⟨.status, by simp [start, size, second]⟩
    · exact ⟨.rewards, by simp only [start, size]; omega⟩

end BlockField

theorem Content.Fits.length [Scalar α] {c : Content α} (fits : c.Fits l) :
    c.cells.length = c.field.size l := by
  cases c with
  | genes xs => exact fits
  | status s => rfl
  | rewards xs => exact fits

namespace Layout

/-- Where a field of a row's block starts in the matrix. -/
def place (l : Layout) (row : Nat) (region : Region) (field : BlockField) : Nat :=
  row * l.stride + l.offset region + field.start l

/-- Both regions name one block: they are the same, or rows have one phase. -/
def Same (l : Layout) (region other : Region) : Prop := region = other ∨ l.twoPhase = false

instance (region other : Region) : Decidable (l.Same region other) :=
  inferInstanceAs (Decidable (_ ∨ _))

theorem Same.symm {region other : Region} (same : l.Same region other) : l.Same other region :=
  same.imp Eq.symm id

theorem offset_of_same {region other : Region} (same : l.Same region other) :
    l.offset region = l.offset other := by
  rcases same with rfl | single
  · rfl
  · cases region <;> cases other <;> simp [offset, single]

theorem offset_apart {region other : Region} (different : ¬ l.Same region other) :
    l.offset region + l.block ≤ l.offset other ∨ l.offset other + l.block ≤ l.offset region := by
  simp only [Same, not_or, Bool.not_eq_false] at different
  obtain ⟨names, double⟩ := different
  cases region <;> cases other <;> simp [offset, double] at names ⊢

theorem place_inside {row : Nat} (below : row < n) (region : Region) (field : BlockField) :
    l.place row region field + field.size l ≤ n * l.stride := by
  have rows : (row + 1) * l.stride ≤ n * l.stride := Nat.mul_le_mul_right _ below
  have block := l.offset_block region
  have part := field.inside l
  rw [Nat.succ_mul] at rows
  unfold place
  omega

/-- Rows with different numbers, and blocks of one row that are not the same, share no cell. -/
theorem block_apart {row row' : Nat} {region region' : Region}
    (different : row ≠ row' ∨ ¬ l.Same region region') :
    row * l.stride + l.offset region + l.block ≤ row' * l.stride + l.offset region' ∨
      row' * l.stride + l.offset region' + l.block ≤ row * l.stride + l.offset region := by
  have inside := l.offset_block region
  have inside' := l.offset_block region'
  rcases Nat.lt_trichotomy row row' with before | rfl | after
  · have rows : (row + 1) * l.stride ≤ row' * l.stride := Nat.mul_le_mul_right _ before
    rw [Nat.succ_mul] at rows
    omega
  · rcases different with rows | regions
    · exact absurd rfl rows
    · rcases offset_apart regions with first | second <;> omega
  · have rows : (row' + 1) * l.stride ≤ row * l.stride := Nat.mul_le_mul_right _ after
    rw [Nat.succ_mul] at rows
    omega

/-- A field of one block shares no cell with another block. -/
theorem place_apart {row row' : Nat} {region region' : Region} (field : BlockField)
    (different : row ≠ row' ∨ ¬ l.Same region region') :
    l.place row region field + field.size l ≤ row' * l.stride + l.offset region' ∨
      row' * l.stride + l.offset region' + l.block ≤ l.place row region field := by
  have part := field.inside l
  unfold place
  rcases block_apart different with first | second <;> omega

/-- Fields with different addresses share no cell. -/
theorem places_apart {row row' : Nat} {region region' : Region} {field field' : BlockField}
    (different : row ≠ row' ∨ ¬ l.Same region region' ∨ field ≠ field') :
    l.place row region field + field.size l ≤ l.place row' region' field' ∨
      l.place row' region' field' + field'.size l ≤ l.place row region field := by
  by_cases blocks : row ≠ row' ∨ ¬ l.Same region region'
  · have part := field'.inside l
    rcases place_apart field blocks with first | second
    · exact .inl (by unfold place at *; omega)
    · exact .inr (by unfold place at *; omega)
  · obtain ⟨rfl, same⟩ : row = row' ∧ l.Same region region' := by
      simpa only [not_or, not_not] using blocks
    have fields : field ≠ field' := by simpa [same] using different
    have offset := offset_of_same same
    unfold place
    rcases BlockField.apart l fields with first | second <;> omega

/-- Every cell of the matrix belongs to a field. -/
theorem places_cover {cell : Nat} (within : cell < n * l.stride) :
    ∃ row < n, ∃ region field,
      l.place row region field ≤ cell ∧ cell < l.place row region field + field.size l := by
  have positive : 0 < l.stride := Nat.pos_of_mul_pos_left (Nat.zero_lt_of_lt within)
  have row : cell / l.stride < n := Nat.div_lt_of_lt_mul (Nat.mul_comm .. ▸ within)
  have column : cell % l.stride < l.stride := Nat.mod_lt _ positive
  have split : cell / l.stride * l.stride + cell % l.stride = cell := Nat.div_add_mod' ..
  obtain ⟨region, lower, upper⟩ : ∃ region, l.offset region ≤ cell % l.stride ∧
      cell % l.stride < l.offset region + l.block := by
    by_cases first : cell % l.stride < l.block
    · refine ⟨.trial, ?_, ?_⟩ <;> simp [offset, first]
    · refine ⟨.incumbent, ?_⟩
      unfold stride at column first ⊢
      cases double : l.twoPhase <;> simp [offset, double] at column first ⊢ <;> omega
  have within : cell % l.stride - l.offset region < l.block := by omega
  obtain ⟨field, first, last⟩ := BlockField.cover within
  refine ⟨cell / l.stride, row, region, field, ?_⟩
  unfold place
  omega

/-- The fields of as many rows tile the matrix. -/
structure Tiled (l : Layout) (n : Nat) : Prop where
  inside : ∀ row < n, ∀ region (field : BlockField),
    l.place row region field + field.size l ≤ n * l.stride
  /-- Fields with different addresses share no cell. -/
  apart : ∀ row row' region region' (field field' : BlockField),
    row ≠ row' ∨ ¬ l.Same region region' ∨ field ≠ field' →
      l.place row region field + field.size l ≤ l.place row' region' field' ∨
        l.place row' region' field' + field'.size l ≤ l.place row region field
  /-- Every cell belongs to a field. -/
  cover : ∀ cell < n * l.stride, ∃ row < n, ∃ region, ∃ field : BlockField,
    l.place row region field ≤ cell ∧ cell < l.place row region field + field.size l

theorem tiled (l : Layout) (n : Nat) : l.Tiled n :=
  ⟨fun _ below region field => place_inside below region field,
    fun _ _ _ _ _ _ different => places_apart different, fun _ within => places_cover within⟩

end Layout

end Metaheuristic
