import Metaheuristic.Proofs.Population.Edits
import Metaheuristic.Proofs.Population.Trials

/-! Populations of records lie in one vector. The cells of a record stand in a slot of the
matrix: a change of the record changes what is in the slot and nothing around it. So every
edit of a population of records is the edit of its matrix, with the same faults, and every
field of a record reads as its stretch of the matrix. -/
namespace Metaheuristic

variable {α : Type} {l : Layout} {n : Nat}

section Slots

variable {r : Row α} [Scalar α]

theorem Block.Sized.length_cells {b : Block α} (sized : b.Sized l) : b.cells.length = l.block := by
  rw [Block.cells, List.length_append, List.length_cons, sized.genes, sized.rewards, Layout.block]
  omega

/-- The slot of a field in a block. -/
theorem Block.Sized.exists_slot {b : Block α} (sized : b.Sized l) (field : BlockField) :
    ∃ before after, before.length = field.start l ∧
      b.cells = before ++ (b.content field).cells ++ after ∧
      ∀ c : Content α, c.field = field → (b.put c).cells = before ++ c.cells ++ after := by
  cases field with
  | genes =>
    refine ⟨[], b.status.code :: b.rewards, rfl, rfl, fun c same => ?_⟩
    cases c with
    | genes xs => rfl
    | status s => cases same
    | rewards xs => cases same
  | status =>
    refine ⟨b.genes, b.rewards, sized.genes, ?_, fun c same => ?_⟩
    · simp [Block.cells, Block.content, Content.cells]
    · cases c with
      | genes xs => cases same
      | status s => simp [Block.cells, Block.put, Content.cells]
      | rewards xs => cases same
  | rewards =>
    refine ⟨b.genes ++ [b.status.code], [], ?_, ?_, fun c same => ?_⟩
    · rw [List.length_append, sized.genes]
      rfl
    · simp [Block.cells, Block.content, Content.cells]
    · cases c with
      | genes xs => cases same
      | status s => cases same
      | rewards xs => simp [Block.cells, Block.put, Content.cells]

/-- The slot of a block in its row. -/
theorem Row.Sized.exists_slot (sized : r.Sized l) (region : Region) :
    ∃ before after, before.length = l.offset region ∧
      r.cells = before ++ (r.block region).cells ++ after ∧
      ∀ f, (r.modify region f).cells = before ++ (f (r.block region)).cells ++ after := by
  obtain ⟨trial, incumbent⟩ := r
  have phases := sized.phases
  cases incumbent with
  | none =>
    refine ⟨[], [], ?_, ?_, fun f => ?_⟩
    · cases region with
      | trial => rfl
      | incumbent =>
        rw [Layout.offset, ← phases]
        rfl
    · cases region <;> simp [Row.block, Row.cells]
    · cases region <;> simp [Row.block, Row.modify, Row.cells]
  | some b =>
    cases region with
    | trial => exact ⟨[], b.cells, rfl, rfl, fun f => rfl⟩
    | incumbent =>
      refine ⟨trial.cells, [], ?_, by simp [Row.block, Row.cells],
        fun f => by simp [Row.block, Row.modify, Row.cells]⟩
      rw [Layout.offset, ← phases]
      exact sized.trial.length_cells

theorem Row.Sized.length_cells (sized : r.Sized l) : r.cells.length = l.stride := by
  obtain ⟨trial, incumbent⟩ := r
  have phases := sized.phases
  rw [Row.cells, List.length_append, sized.trial.length_cells, Layout.stride, ← phases]
  cases incumbent with
  | none => rfl
  | some b =>
    have second := (sized.incumbent b rfl).length_cells
    simp only [Option.map_some, Option.getD_some, Option.isSome_some, if_true, second]
    omega

omit [Scalar α] in
theorem Row.Sized.promote_eq (sized : r.Sized l) (phases : l.twoPhase = true) :
    r.promote = r.modify .incumbent fun _ => r.block .trial := by
  obtain ⟨b, second⟩ := Option.isSome_iff_exists.mp (sized.phases.trans phases)
  simp only [Row.promote, Row.modify, second, Row.block]

theorem length_flatMap_cells {rows : List (Row α)} (sized : ∀ r ∈ rows, r.Sized l) :
    (rows.flatMap Row.cells).length = rows.length * l.stride := by
  rw [List.flatMap_def, length_flatten_uniform fun part member => ?_, List.length_map]
  obtain ⟨r, held, rfl⟩ := List.mem_map.mp member
  exact (sized r held).length_cells

end Slots

namespace Population

variable {p q : Population α} {row : Nat} {region : Region} {r : Row α}

/-- What a field holds. -/
def content (p : Population α) : Fields (Content α)
  | row, region, .genes => (p.chromosome row region).map .genes
  | row, region, .status => (p.status row region).map .status
  | row, region, .rewards => (p.reward row region).map .rewards

/-- Writes the field that can hold the content. -/
def put (p : Population α) (row : Nat) (region : Region) : Content α → Except Fault (Population α)
  | .genes xs => p.setChromosome row region xs
  | .status s => p.setStatus row region s
  | .rewards xs => p.setReward row region xs

variable [Scalar α]

def apply (p : Population α) : Edit α → Except Fault (Population α)
  | .write row region c => p.put row region c
  | .promote row => p.promote row
  | .promoteAll => p.promoteAll
  | .copyRow source target region => p.copyRow source target region
  | .clip region => p.clip region
  | .reorder order => p.reorder order

/-- The population in one vector. -/
def flat (p : Population α) : Flat α := ⟨p.layout, p.count, p.matrix⟩

/-- A population of records with other rows. -/
theorem flat_rows (p : Population α) {rows : List (Row α)} {data : List α}
    (same : rows.flatMap Row.cells = data) :
    ({ p with rows := rows } : Population α).flat = { p.flat with data := data } := by
  rw [flat, flat, matrix, same]

omit [Scalar α] in
theorem Sized.sized_of_mem (sized : p.Sized l n) (member : r ∈ p.rows) : r.Sized l := by
  obtain ⟨i, place⟩ := List.mem_iff_getElem?.mp member
  exact sized.rows i r place

theorem Sized.shaped (sized : p.Sized l n) : p.flat.Shaped l n := by
  refine ⟨sized.layout, sized.count, ?_⟩
  rw [flat, matrix, length_flatMap_cells fun r member => sized.sized_of_mem member, sized.length]

/-- The slot of a row in the matrix. -/
theorem Sized.exists_row_slot (sized : p.Sized l n) (held : p.rows[row]? = some r) :
    ∃ before after, before.length = row * l.stride ∧
      p.flat.data = before ++ r.cells ++ after ∧
      ∀ f, (p.rows.modify row f).flatMap Row.cells = before ++ (f r).cells ++ after := by
  obtain ⟨below, rfl⟩ := List.getElem?_eq_some_iff.mp held
  have changed (f : Row α → Row α) : (p.rows.modify row f).flatMap Row.cells =
      (p.rows.take row).flatMap Row.cells ++ (f p.rows[row]).cells ++
        (p.rows.drop (row + 1)).flatMap Row.cells := by
    rw [List.modify_eq_take_cons_drop below, List.flatMap_append, List.flatMap_cons,
      List.append_assoc]
  refine ⟨(p.rows.take row).flatMap Row.cells, (p.rows.drop (row + 1)).flatMap Row.cells, ?_, ?_,
    changed⟩
  · rw [length_flatMap_cells fun r member => sized.sized_of_mem (List.mem_of_mem_take member),
      List.length_take, Nat.min_eq_left below.le]
  · have same := changed id
    rw [List.modify_id] at same
    exact same

/-- The slot of a block in the matrix. -/
theorem Sized.exists_block_slot (sized : p.Sized l n) (held : p.rows[row]? = some r)
    (region : Region) :
    ∃ before after, before.length = row * l.stride + l.offset region ∧
      p.flat.data = before ++ (r.block region).cells ++ after ∧
      ∀ f, (p.rows.modify row fun r => r.modify region f).flatMap Row.cells =
        before ++ (f (r.block region)).cells ++ after := by
  obtain ⟨before, after, starts, whole, changed⟩ := sized.exists_row_slot held
  obtain ⟨left, right, inner, part, modified⟩ := (sized.rows row r held).exists_slot region
  refine ⟨before ++ left, right ++ after, ?_, ?_, fun f => ?_⟩
  · rw [List.length_append, starts, inner]
  · rw [whole, part]
    simp only [List.append_assoc]
  · rw [changed, modified]
    simp only [List.append_assoc]

/-- The slot of a field in the matrix. -/
theorem Sized.exists_slot (sized : p.Sized l n) (held : p.rows[row]? = some r) (region : Region)
    (field : BlockField) :
    ∃ before after, before.length = l.place row region field ∧
      p.flat.data = before ++ ((r.block region).content field).cells ++ after ∧
      ∀ (f : Block α → Block α) (c : Content α), c.field = field →
        f (r.block region) = (r.block region).put c →
        (p.rows.modify row fun r => r.modify region f).flatMap Row.cells =
          before ++ c.cells ++ after := by
  have block := (sized.rows row r held).block region
  obtain ⟨before, after, starts, whole, changed⟩ := sized.exists_block_slot held region
  obtain ⟨left, right, inner, part, written⟩ := block.exists_slot field
  refine ⟨before ++ left, right ++ after, ?_, ?_, fun f c same puts => ?_⟩
  · rw [List.length_append, starts, inner]
    rfl
  · rw [whole, part]
    simp only [List.append_assoc]
  · rw [changed, puts, written c same]
    simp only [List.append_assoc]

/-- A block stands where its row and its region say. -/
theorem Sized.stands_block (sized : p.Sized l n) (held : p.rows[row]? = some r) (region : Region) :
    Stands (r.block region).cells p.flat.data (row * l.stride + l.offset region) := by
  obtain ⟨before, after, starts, whole, _⟩ := sized.exists_block_slot held region
  exact ⟨before, after, whole, starts⟩

theorem Sized.stands_row (sized : p.Sized l n) (held : p.rows[row]? = some r) :
    Stands r.cells p.flat.data (row * l.stride) := by
  obtain ⟨before, after, starts, whole, _⟩ := sized.exists_row_slot held
  exact ⟨before, after, whole, starts⟩

/-- A field of a record stands at its place. -/
theorem Sized.stands (sized : p.Sized l n) (held : p.rows[row]? = some r) (region : Region)
    (field : BlockField) :
    Stands ((r.block region).content field).cells p.flat.data (l.place row region field) := by
  obtain ⟨before, after, starts, whole, _⟩ := sized.exists_slot held region field
  exact ⟨before, after, whole, starts⟩

/-- Only an empty field lies behind the last row. -/
theorem place_beyond {field : BlockField} (beyond : n ≤ row)
    (inside : l.place row region field + field.size l ≤ n * l.stride) : field.size l = 0 := by
  have rows : n * l.stride ≤ row * l.stride := Nat.mul_le_mul_right _ beyond
  unfold Layout.place at inside
  omega

theorem Sized.fits_iff (sized : p.Sized l n) (field : BlockField) :
    p.fits row region (field.start l) (field.size l) = true ↔
      l.place row region field + field.size l ≤ p.flat.data.length := by
  rw [Population.fits, sized.layout, sized.length, sized.shaped.length, decide_eq_true_eq]
  rfl

/-- A field reads as its stretch of the matrix. -/
theorem Sized.stretch_flat (sized : p.Sized l n) (row : Nat) (region : Region) (field : BlockField) :
    p.flat.stretch row region field = p.field row region (field.start l) (field.size l)
      (fun b => (b.content field).cells) [] := by
  rw [sized.shaped.stretch_eq]
  by_cases inside : l.place row region field + field.size l ≤ p.flat.data.length
  · rw [Population.field, if_pos ((sized.fits_iff field).mpr inside)]
    cases held : p.rows[row]? with
    | none =>
      have beyond : n ≤ row := sized.length ▸ List.getElem?_eq_none_iff.mp held
      have empty := place_beyond beyond (sized.shaped.length ▸ inside)
      rw [View.slice, if_pos inside, empty]
      rfl
    | some r =>
      have fits := ((sized.rows row r held).block region).fits field
      have cells := (sized.stands held region field).slice
      rw [fits.length, Block.field_content] at cells
      exact cells
  · rw [Population.field, if_neg (mt (sized.fits_iff field).mp inside),
      slice_of_not_inside (Nat.lt_of_not_le inside)]

/-- A content that fits is written over its stretch of the matrix. -/
theorem Sized.write_flat (sized : p.Sized l n) (row : Nat) (region : Region) {c : Content α}
    (fits : c.Fits l)
    {f : Block α → Block α}
    (puts : ∀ r, p.rows[row]? = some r → f (r.block region) = (r.block region).put c) :
    p.flat.write (l.place row region c.field) c.cells =
      (p.modifyField row region (c.field.start l) (c.field.size l) f).map flat := by
  rw [Flat.write, Population.modifyField]
  by_cases inside : l.place row region c.field + c.field.size l ≤ p.flat.data.length
  · rw [if_pos ((sized.fits_iff c.field).mpr inside)]
    cases held : p.rows[row]? with
    | none =>
      -- Nothing is written, and nothing changes.
      have past : p.rows.length ≤ row := List.getElem?_eq_none_iff.mp held
      have empty : c.cells = [] := by
        refine List.eq_nil_of_length_eq_zero (fits.length.trans ?_)
        exact place_beyond (sized.length ▸ past) (sized.shaped.length ▸ inside)
      have within : l.place row region c.field + 0 ≤ p.flat.data.length := by omega
      rw [empty, overwrite, List.length_nil, if_pos within, List.append_nil, Nat.add_zero,
        List.take_append_drop, List.modify_eq_self past]
      rfl
    | some r =>
      obtain ⟨before, after, starts, whole, changed⟩ := sized.exists_slot held region c.field
      have same : c.cells.length = ((r.block region).content c.field).cells.length := by
        rw [fits.length, (((sized.rows row r held).block region).fits c.field).length,
          Block.field_content]
      rw [whole, overwrite_slot starts same]
      exact congrArg Except.ok (p.flat_rows (changed f c rfl (puts r held))).symm
  · rw [if_neg (mt (sized.fits_iff c.field).mp inside), overwrite, fits.length, if_neg inside]
    rfl

theorem Sized.put_flat (sized : p.Sized l n) (row : Nat) (region : Region) (c : Content α) :
    p.flat.put row region c = (p.put row region c).map flat := by
  by_cases fits : c.Fits l
  · have records : p.put row region c =
        p.modifyField row region (c.field.start l) (c.field.size l) (·.put c) := by
      obtain ⟨rfl, _, _, _⟩ := sized
      cases c with
      | genes xs => exact if_pos fits
      | status s => rfl
      | rewards xs => exact if_pos fits
    rw [sized.shaped.put_eq fits, records]
    exact sized.write_flat row region fits fun _ _ => rfl
  · obtain ⟨rfl, _, _, _⟩ := sized
    cases c with
    | genes xs =>
      have records : p.setChromosome row region xs = .error .outOfRange := if_neg fits
      have vector : p.flat.setChromosome row region xs = .error .outOfRange := if_neg fits
      rw [Flat.put, put, records, vector]
      rfl
    | status s => exact absurd trivial fits
    | rewards xs =>
      have records : p.setReward row region xs = .error .outOfRange := if_neg fits
      have vector : p.flat.setReward row region xs = .error .outOfRange := if_neg fits
      rw [Flat.put, put, records, vector]
      rfl

section Reading

variable (sized : p.Sized l n) (row : Nat) (region : Region)

include sized

theorem Sized.chromosome_flat : p.flat.chromosome row region = p.chromosome row region := by
  have read := sized.stretch_flat row region .genes
  obtain ⟨rfl, _, _, _⟩ := sized
  exact read

theorem Sized.reward_flat : p.flat.reward row region = p.reward row region := by
  have read := sized.stretch_flat row region .rewards
  obtain ⟨rfl, _, _, _⟩ := sized
  exact read

theorem Sized.status_flat [Scalar.LawfulStatus α] :
    p.flat.status row region = p.status row region := by
  rw [Flat.status_eq, sized.stretch_flat row region .status]
  cases held : p.rows[row]? with
  | none =>
    have outside : p.fits row region (BlockField.status.start l) (BlockField.status.size l) =
        false := by
      rw [Bool.eq_false_iff, ne_eq, sized.fits_iff, sized.shaped.length]
      intro inside
      have beyond : n ≤ row := sized.length ▸ List.getElem?_eq_none_iff.mp held
      cases place_beyond beyond inside
    obtain ⟨rfl, _, _, _⟩ := sized
    have records : p.status row region = .error .outOfRange := if_neg (ne_true_of_eq_false outside)
    rw [records, field, outside]
    rfl
  | some r =>
    have inside := BlockField.status.inside l
    rw [sized.read_field held inside, status, sized.read_field held sized.status_inside]
    exact congrArg Except.ok (Scalar.LawfulStatus.fromCode_code _)

theorem Sized.agent_flat [Scalar.LawfulStatus α] :
    p.flat.agent row region = p.agent row region := by
  rw [Flat.agent, agent, sized.chromosome_flat, sized.reward_flat, sized.status_flat]

omit row in
theorem Sized.view_flat : p.flat.view region = p.view region := by
  have guards : (0 < p.flat.count && decide (p.flat.data.length <
      p.flat.start (p.flat.count - 1) region + p.flat.layout.genes)) =
        (0 < p.count && !p.fits (p.count - 1) region 0 p.layout.genes) := by
    congr 1
    rw [Population.fits, ← decide_not, sized.shaped.length, sized.layout, sized.length,
      Flat.start, flat, sized.layout]
    simp only [Nat.not_le, Nat.add_zero]
  have each : (List.range p.flat.count).mapM (fun row =>
      View.slice p.flat.data (p.flat.start row region) p.flat.layout.genes) =
        (List.range p.count).mapM fun row => p.chromosome row region :=
    mapM_congr fun row _ => sized.chromosome_flat row region
  rw [Flat.view, guards, each]
  rfl

end Reading

/-- The genes that are clipped are those that were read. -/
theorem Sized.clip_flat (sized : p.Sized l n) (region : Region) :
    p.flat.clip region = (p.clip region).map flat := by
  refine foldlM_image_of (I := Population.Sized l n) (fun row member q good => ?_)
    (fun row _ q q' good ran => ?_) sized
  · have below : row < n := sized.count ▸ List.mem_range.mp member
    obtain ⟨r, held, rowSized⟩ := good.exists_row below
    have length := (rowSized.block region).genes
    have read : q.flat.chromosome row region = .ok (r.block region).genes := by
      rw [good.chromosome_flat, good.read_chromosome held]
    have fits : (Content.genes ((r.block region).genes.map Scalar.clampUnit)).Fits l :=
      (List.length_map _).trans length
    have written := good.write_flat row region fits
      (f := fun b => { b with genes := b.genes.map Scalar.clampUnit }) fun r' held' => by
        cases held.symm.trans held'
        rfl
    rw [← good.shaped.put_eq fits] at written
    rw [Flat.clipRow, read, good.layout]
    exact written
  · exact good.modifyField ran
      fun b blockSized => ⟨(List.length_map _).trans blockSized.genes, blockSized.rewards⟩

/-- A block is copied over a block. -/
theorem Sized.copyBlock_flat {source target : Nat} {region reg : Region} {t : Row α}
    (sized : p.Sized l n) (first : p.rows[source]? = some r) (second : p.rows[target]? = some t) :
    p.flat.copyBlock (source * l.stride + l.offset region) (target * l.stride + l.offset reg) =
      .ok { p with rows := p.rows.modify target fun t => t.modify reg fun _ => r.block region }.flat := by
  have stands := sized.stands_block first region
  have block := ((sized.rows source r first).block region).length_cells
  obtain ⟨before, after, starts, whole, changed⟩ := sized.exists_block_slot second reg
  have same : (r.block region).cells.length = (t.block reg).cells.length := by
    rw [block, ((sized.rows target t second).block reg).length_cells]
  have read := stands.slice
  rw [block] at read
  have written : overwrite p.flat.data (target * l.stride + l.offset reg) (r.block region).cells =
      .ok (before ++ (r.block region).cells ++ after) := by
    rw [whole]
    exact overwrite_slot starts same
  have copied : copyWithin p.flat.data (source * l.stride + l.offset region) p.layout.block
      (target * l.stride + l.offset reg) = .ok (before ++ (r.block region).cells ++ after) := by
    rw [sized.layout]
    exact bind_ok.mpr ⟨_, read, written⟩
  rw [Flat.copyBlock]
  exact (congrArg (Except.map _) copied).trans
    (congrArg Except.ok (p.flat_rows (changed fun _ => r.block region)).symm)

theorem Sized.block_beyond (sized : p.Sized l n) (absent : p.rows[row]? = none) (region : Region) :
    p.flat.data.length < row * l.stride + l.offset region + l.block := by
  have beyond : n ≤ row := sized.length ▸ List.getElem?_eq_none_iff.mp absent
  have rows : n * l.stride ≤ row * l.stride := Nat.mul_le_mul_right _ beyond
  have cell : 0 < l.block := by
    unfold Layout.block
    omega
  rw [sized.shaped.length]
  omega

/-- A block behind the last row cannot be copied, nor copied over. -/
theorem Sized.copyBlock_beyond {source target : Nat} {region reg : Region} (sized : p.Sized l n)
    (beyond : p.rows[source]? = none ∨ p.rows[target]? = none) :
    p.flat.copyBlock (source * l.stride + l.offset region) (target * l.stride + l.offset reg) =
      .error .outOfRange := by
  have faults : copyWithin p.flat.data (source * l.stride + l.offset region) p.layout.block
      (target * l.stride + l.offset reg) = .error .outOfRange := by
    rw [sized.layout, copyWithin]
    cases cut : View.slice p.flat.data (source * l.stride + l.offset region) l.block with
    | error cause =>
      unfold View.slice at cut
      split at cut
      · cases cut
      · cases cut
        rfl
    | ok xs =>
      rcases beyond with first | second
      · rw [slice_of_not_inside (sized.block_beyond first region)] at cut
        cases cut
      · have length := (Stands.of_slice cut).2
        have outside := sized.block_beyond second reg
        exact if_neg (by omega)
  rw [Flat.copyBlock]
  exact congrArg (Except.map _) faults

/-- Promoting a row copies its trial block to where its incumbent block starts. -/
theorem Sized.promote_flat (sized : p.Sized l n) (row : Nat) :
    p.flat.promote row = (p.promote row).map flat := by
  cases phases : l.twoPhase with
  | false =>
    rw [Flat.promote, Population.promote, sized.shaped.layout, sized.layout, phases]
    rfl
  | true =>
    have starts : p.flat.start row .trial = row * l.stride + l.offset .trial := by
      rw [Flat.start, sized.shaped.layout]
    have ends : p.flat.start row .trial + p.flat.layout.block =
        row * l.stride + l.offset .incumbent := by
      rw [Flat.start, sized.shaped.layout, Layout.offset, Layout.offset, phases]
      rfl
    have vector : p.flat.promote row = p.flat.copyBlock (row * l.stride + l.offset .trial)
        (row * l.stride + l.offset .incumbent) := by
      rw [Flat.promote, ends, starts, sized.shaped.layout, phases]
      rfl
    have double : ¬ (!p.layout.twoPhase) = true := by simp [sized.layout, phases]
    rw [vector, Population.promote, if_neg double]
    cases held : p.rows[row]? with
    | none =>
      have outside : ¬ row < p.rows.length := Nat.not_lt.mpr (List.getElem?_eq_none_iff.mp held)
      rw [sized.copyBlock_beyond (.inl held), if_neg outside]
      rfl
    | some r =>
      have inside : row < p.rows.length := (List.getElem?_eq_some_iff.mp held).1
      have promoted : p.rows.modify row Row.promote =
          p.rows.modify row fun t => t.modify .incumbent fun _ => r.block .trial := by
        refine List.ext_getElem? fun i => ?_
        rw [List.getElem?_modify, List.getElem?_modify]
        split
        · rename_i same
          rw [← same, held]
          exact congrArg some ((sized.rows row r held).promote_eq phases)
        · rfl
      rw [sized.copyBlock_flat held held, if_pos inside, promoted]
      rfl

theorem Sized.promoteAll_flat (sized : p.Sized l n) :
    p.flat.promoteAll = p.promoteAll.map flat :=
  foldlM_image_of (I := Population.Sized l n) (fun row _ _ good => good.promote_flat row)
    (fun _ _ _ _ good ran => good.promote ran) sized

theorem Sized.copyRow_flat (sized : p.Sized l n) (source target : Nat) (region : Region) :
    p.flat.copyRow source target region = (p.copyRow source target region).map flat := by
  rw [Flat.copyRow, Population.copyRow]
  split
  · rfl
  · rw [Flat.start, Flat.start, sized.shaped.layout]
    cases first : p.rows[source]? with
    | none => exact sized.copyBlock_beyond (.inl first)
    | some r =>
      cases second : p.rows[target]? with
      | none => exact sized.copyBlock_beyond (.inr second)
      | some t => exact sized.copyBlock_flat first second

theorem Sized.reorder_flat (sized : p.Sized l n) (order : List Nat) :
    p.flat.reorder order = (p.reorder order).map flat := by
  have item (row : Nat) : View.slice p.flat.data (row * p.flat.layout.stride) p.flat.layout.stride =
      (p.rowAt row).map Row.cells := by
    rw [sized.shaped.layout, rowAt]
    cases held : p.rows[row]? with
    | none =>
      have outside := sized.block_beyond held .trial
      have block := l.offset_block .trial
      exact slice_of_not_inside (by omega)
    | some r =>
      have read := (sized.stands_row held).slice
      rw [(sized.rows row r held).length_cells] at read
      exact read
  exact bind_image (mapM_image item order) fun rows =>
    congrArg Except.ok (p.flat_rows List.flatMap_def).symm

/-- Every edit of the records is the edit of the vector, also when it faults. -/
theorem Sized.apply_flat (sized : p.Sized l n) (e : Edit α) :
    p.flat.apply e = (p.apply e).map flat := by
  cases e with
  | write row region c => exact sized.put_flat row region c
  | promote row => exact sized.promote_flat row
  | promoteAll => exact sized.promoteAll_flat
  | copyRow source target region => exact sized.copyRow_flat source target region
  | clip region => exact sized.clip_flat region
  | reorder order => exact sized.reorder_flat order

/-- Any number of edits. -/
def run (p : Population α) (edits : List (Edit α)) : Except Fault (Population α) :=
  edits.foldlM apply p

theorem Sized.apply {e : Edit α} (sized : p.Sized l n) (valid : e.Valid l n)
    (ran : p.apply e = .ok q) : q.Sized l n := by
  cases e with
  | write row region c =>
    cases c with
    | genes xs => exact sized.setChromosome ran
    | status s => exact sized.setStatus ran
    | rewards xs => exact sized.setReward ran
  | promote row => exact sized.promote ran
  | promoteAll => exact foldlM_ok (fun _ _ _ _ good step => good.promote step) sized ran
  | copyRow source target region => exact sized.copyRow ran
  | clip region => exact sized.clip ran
  | reorder order => exact sized.reorder valid.1 ran

theorem Sized.run_flat (sized : p.Sized l n) {edits : List (Edit α)}
    (valid : ∀ e ∈ edits, e.Valid l n) : p.flat.run edits = (p.run edits).map flat :=
  foldlM_image_of (fun e _ _ good => good.apply_flat e)
    (fun e member _ _ good ran => good.apply (valid e member) ran) sized

/-- Everything that is read of the records is read of the vector. -/
structure ReadsFlat (p : Population α) : Prop where
  content : ∀ row region field, p.flat.content row region field = p.content row region field
  cells : ∀ row region, p.flat.cells row region = p.cells row region
  agent : ∀ row region, p.flat.agent row region = p.agent row region
  view : ∀ region, p.flat.view region = p.view region

theorem Sized.cells_flat (sized : p.Sized l n) (row : Nat) (region : Region) :
    p.flat.cells row region = p.cells row region := by
  rw [Flat.cells, Flat.start, sized.shaped.layout]
  cases held : p.rows[row]? with
  | none =>
    have beyond := sized.block_beyond held region
    have outside : ¬ p.fits row region 0 p.layout.block = true := by
      rw [Population.fits, sized.layout, sized.length, decide_eq_true_eq]
      rw [sized.shaped.length] at beyond
      omega
    exact (slice_of_not_inside beyond).trans (if_neg outside).symm
  | some r =>
    have read := (sized.stands_block held region).slice
    rw [((sized.rows row r held).block region).length_cells] at read
    have inside : 0 + p.layout.block ≤ l.block := by rw [sized.layout, Nat.zero_add]
    rw [cells, sized.read_field held inside, read]

theorem Sized.readsFlat [Scalar.LawfulStatus α] (sized : p.Sized l n) : p.ReadsFlat := by
  refine ⟨fun row region field => ?_, sized.cells_flat, fun row region => sized.agent_flat row region,
    sized.view_flat⟩
  cases field with
  | genes => rw [Flat.content, content, sized.chromosome_flat]
  | status => rw [Flat.content, content, sized.status_flat]
  | rewards => rw [Flat.content, content, sized.reward_flat]

end Population

namespace Flat

/-- A population keeps its fields apart, though they share one vector. The fields of all rows tile
the vector, those with different addresses sharing no cell. After any number of edits within the
rows the vector is as long as before, each field reads its own stretch, and views show the
chromosomes. Every further edit within the rows does what it says to the fields it names, and leaves
the cells of the others alone. And when the population holds records, the same edits of the records
lead to where those of the vector do, and they read as the vector does. -/
theorem fields_apart [Scalar α] [Scalar.LawfulStatus α] {p : Flat α} (shaped : p.Shaped l n)
    {edits : List (Edit α)} (valid : ∀ e ∈ edits, e.Valid l n) :
    l.Tiled n ∧ ∃ q, p.run edits = .ok q ∧ q.Laid l n ∧
      (∀ e : Edit α, e.Valid l n → ∃ q', Leads l n e q q' ∧ q'.Laid l n) ∧
      (l.twoPhase = false → ∀ row, q.promote row = .ok q) ∧
      ∀ r : Population α, r.Sized l n → r.flat = p →
        ∃ r', r.run edits = .ok r' ∧ r'.flat = q ∧ r'.ReadsFlat ∧
          ∀ e, q.apply e = (r'.apply e).map Population.flat := by
  obtain ⟨q, ran, kept⟩ := shaped.exists_run valid
  refine ⟨l.tiled n, q, ran, kept.laid, fun e within => ?_, fun single row => ?_,
    fun r sized lies => ?_⟩
  · obtain ⟨q', leads⟩ := kept.exists_leads within
    exact ⟨q', leads, leads.shaped.laid⟩
  · rw [promote, kept.layout, single]
    rfl
  · have same := sized.run_flat valid
    rw [lies, ran] at same
    obtain ⟨r', reached, rfl⟩ := map_ok.mp same.symm
    have sized' : r'.Sized l n :=
      foldlM_ok (fun e member _ _ good step => good.apply (valid e member) step) sized reached
    exact ⟨r', reached, rfl, sized'.readsFlat, sized'.apply_flat⟩

/-- Two rows of two phases, each with two genes. -/
def couple : Flat Float where
  layout := ⟨2, 1, true⟩
  count := 2
  data := [0.25, 0.5, -1.0, 3.0, 0.0, 1.0, 0.0, 4.0, 0.75, 0.5, -1.0, 3.0, 0.0, 1.0, 0.0, 4.0]

/-- Writes into the first row, promotes it, and makes the second row a copy of it. -/
def doubling : List (Edit Float) :=
  [.write 0 .trial (.genes [1.0, 0.5]), .write 0 .trial (.status .feasible), .promote 0,
    .copyRow 0 1 .incumbent, .clip .trial, .promoteAll, .reorder [0, 0]]

/-- After them a write into the second incumbent does not show in the second trial. -/
theorem fields_apart_couple : ∃ q q', couple.run doubling = .ok q ∧ q.Laid ⟨2, 1, true⟩ 2 ∧
    q.setStatus 1 .incumbent .infeasible = .ok q' ∧
    View.slice q'.data 14 1 = .ok [Feasibility.infeasible.code] ∧
    q'.content 1 .incumbent .status = .ok (.status .infeasible) ∧
    q'.content 1 .trial .status = q.content 1 .trial .status := by
  have valid : ∀ e ∈ doubling, e.Valid ⟨2, 1, true⟩ 2 := by decide
  have shaped : couple.Shaped ⟨2, 1, true⟩ 2 := ⟨rfl, rfl, rfl⟩
  obtain ⟨_, q, ran, laid, next, _⟩ := fields_apart shaped valid
  obtain ⟨q', leads, _⟩ := next (.write 1 .incumbent (.status .infeasible)) (by decide)
  have cell := leads.stretch 1 (by decide) .incumbent .status
  rw [leads.shaped.stretch_eq] at cell
  refine ⟨q, q', ran, laid, leads.ran, cell, ?_, ?_⟩
  · rw [leads.content 1 (by decide)]
    rfl
  · rw [leads.content 1 (by decide)]
    rfl

end Flat
end Metaheuristic
