import Metaheuristic.Proofs.Number.Codes
import Metaheuristic.Proofs.Population.Matrix
import Metaheuristic.Proofs.Population.Stretches

/-! Edits of a population in one vector. Each of them changes the stretches of the fields it
names and no others: what every field holds afterwards is a function of what the fields held
before. This rests on the addresses alone. A write overwrites the stretch of one field, which
is apart from those of all others; a copied block carries its fields along, because they stand
in the same places of every block. Every edit within the rows succeeds and leaves the vector
laid out as before, so the same holds after any number of them. -/
namespace Metaheuristic

variable {α : Type} {l : Layout} {n : Nat}

/-- A call that changes a population. -/
inductive Edit (α : Type) where
  | write (row : Nat) (region : Region) (content : Content α)
  | promote (row : Nat)
  | promoteAll
  | copyRow (source target : Nat) (region : Region)
  | clip (region : Region)
  | reorder (order : List Nat)

/-- What is read of the fields of a population, by row, region and field. -/
abbrev Fields (β : Type) := Nat → Region → BlockField → Except Fault β

/-- The content with its genes clamped into the unit interval. -/
def Content.clipped [Scalar α] : Content α → Content α
  | genes xs => genes (xs.map Scalar.clampUnit)
  | status s => status s
  | rewards xs => rewards xs

/-- The content that stands in the cells of a field. -/
def Content.ofCells [Scalar α] : BlockField → List α → Content α
  | .genes, xs => genes xs
  | .status, xs => status (Feasibility.fromCode (xs.headD Scalar.zero))
  | .rewards, xs => rewards xs

/-- The cells of a field with its genes clamped into the unit interval. -/
def BlockField.clipped [Scalar α] : BlockField → List α → List α
  | genes, xs => xs.map Scalar.clampUnit
  | status, xs | rewards, xs => xs

/-- What was written is read back. -/
theorem Content.ofCells_cells [Scalar α] [Scalar.LawfulStatus α] (c : Content α) :
    ofCells c.field c.cells = c := by
  cases c with
  | genes xs => rfl
  | status s => exact congrArg status (Scalar.LawfulStatus.fromCode_code s)
  | rewards xs => rfl

theorem Content.ofCells_clipped [Scalar α] (field : BlockField) (xs : List α) :
    ofCells field (field.clipped xs) = (ofCells field xs).clipped := by
  cases field <;> rfl

namespace Edit

/-- The edit names rows of the population and brings what fits. -/
def Valid (l : Layout) (n : Nat) : Edit α → Prop
  | write row _ c => row < n ∧ c.Fits l
  | promote row => row < n
  | promoteAll => True
  | copyRow source target _ => source < n ∧ target < n
  | clip _ => True
  | reorder order => order.length = n ∧ ∀ row ∈ order, row < n

instance (l : Layout) (n : Nat) : (e : Edit α) → Decidable (e.Valid l n)
  | write row _ c => inferInstanceAs (Decidable (row < n ∧ c.Fits l))
  | promote row => inferInstanceAs (Decidable (row < n))
  | promoteAll => inferInstanceAs (Decidable True)
  | copyRow source target _ => inferInstanceAs (Decidable (source < n ∧ target < n))
  | clip _ => inferInstanceAs (Decidable True)
  | reorder order => inferInstanceAs (Decidable (order.length = n ∧ ∀ row ∈ order, row < n))

/-- What is read of the fields after the edit, from what was read of them before. A content that
is written reads as `given` says, and a field that is clipped as `clipped` says. -/
def after {β : Type} (l : Layout) (given : Content α → β) (clipped : BlockField → β → β)
    (held : Fields β) : Edit α → Fields β
  | write row region c, i, reg, field =>
    if i = row ∧ l.Same region reg ∧ field = c.field then .ok (given c) else held i reg field
  | promote row, i, reg, field =>
    if i = row ∧ reg = .incumbent then held i .trial field else held i reg field
  | promoteAll, i, _, field => held i .trial field
  | copyRow source target region, i, reg, field =>
    if i = target ∧ l.Same region reg then held source region field else held i reg field
  | clip region, i, reg, field =>
    if l.Same region reg then (held i reg field).map (clipped field) else held i reg field
  | reorder order, i, reg, field => held (order.getD i i) reg field

variable [Scalar α]

/-- The contents of the fields after the edit. -/
def contents (l : Layout) (held : Fields (Content α)) (e : Edit α) : Fields (Content α) :=
  e.after l id (fun _ => Content.clipped) held

/-- The cells of the fields after the edit. -/
def stretches (l : Layout) (held : Fields (List α)) (e : Edit α) : Fields (List α) :=
  e.after l Content.cells BlockField.clipped held

/-- What happens to the contents is what happens to the cells. -/
theorem contents_of_cells [Scalar.LawfulStatus α] {cells : Fields (List α)}
    {held : Fields (Content α)}
    (reads : ∀ row region field, held row region field =
      (cells row region field).map (Content.ofCells field))
    (e : Edit α) (row : Nat) (region : Region) (field : BlockField) :
    e.contents l held row region field =
      (e.stretches l cells row region field).map (Content.ofCells field) := by
  cases e with
  | write i reg c =>
    simp only [contents, stretches, after]
    split
    · rename_i named
      rw [named.2.2]
      exact congrArg Except.ok c.ofCells_cells.symm
    · exact reads row region field
  | promote i =>
    simp only [contents, stretches, after]
    split <;> exact reads _ _ _
  | promoteAll => exact reads _ _ _
  | copyRow source target reg =>
    simp only [contents, stretches, after]
    split <;> exact reads _ _ _
  | clip reg =>
    simp only [contents, stretches, after]
    split
    · rw [reads]
      cases cells row region field with
      | error cause => rfl
      | ok xs => exact congrArg Except.ok (Content.ofCells_clipped field xs).symm
    · exact reads _ _ _
  | reorder order => exact reads _ _ _

end Edit

namespace Flat

variable {p q : Flat α} {row : Nat} {region : Region}

/-- The vector has as many cells as its rows. -/
structure Shaped (l : Layout) (n : Nat) (p : Flat α) : Prop where
  layout : p.layout = l
  count : p.count = n
  length : p.data.length = n * l.stride

/-- The cells of a field. -/
def stretch (p : Flat α) : Fields (List α) := fun row region field =>
  View.slice p.data (p.layout.place row region field) (field.size p.layout)

theorem Shaped.stretch_eq (shaped : p.Shaped l n) (row : Nat) (region : Region)
    (field : BlockField) : p.stretch row region field =
      View.slice p.data (l.place row region field) (field.size l) := by
  rw [stretch, shaped.layout]

theorem Shaped.exists_stretch (shaped : p.Shaped l n) (below : row < n) (region : Region)
    (field : BlockField) :
    ∃ xs, p.stretch row region field = .ok xs ∧ xs.length = field.size l := by
  rw [shaped.stretch_eq]
  exact exists_slice (shaped.length ▸ Layout.place_inside below region field)

/-- With one phase both regions name the same stretches. -/
theorem Shaped.stretch_same (shaped : p.Shaped l n) {region other : Region}
    (same : l.Same region other) (row : Nat) (field : BlockField) :
    p.stretch row region field = p.stretch row other field := by
  rw [shaped.stretch_eq, shaped.stretch_eq, Layout.place, Layout.place,
    Layout.offset_of_same same]

theorem Shaped.overwritten (shaped : p.Shaped l n) {data : List α}
    (length : data.length = p.data.length) : ({ p with data := data } : Flat α).Shaped l n :=
  ⟨shaped.layout, shaped.count, length.trans shaped.length⟩

/-- A copied block carries its fields to where it goes, and no field of another block
changes. -/
theorem Shaped.exists_copyBlock {source target : Nat} (shaped : p.Shaped l n)
    (first : source < n) (second : target < n) (region reg : Region) :
    ∃ q, p.copyBlock (source * l.stride + l.offset region) (target * l.stride + l.offset reg) =
        .ok q ∧ q.Shaped l n ∧
      ∀ i other field, q.stretch i other field =
        if i = target ∧ l.Same reg other then p.stretch source region field
        else p.stretch i other field := by
  have inside {row : Nat} (below : row < n) (region : Region) :
      row * l.stride + l.offset region + p.layout.block ≤ p.data.length := by
    have rows : (row + 1) * l.stride ≤ n * l.stride := Nat.mul_le_mul_right _ below
    have block := l.offset_block region
    rw [Nat.succ_mul] at rows
    rw [shaped.layout, shaped.length]
    omega
  obtain ⟨data, ran⟩ := exists_copyWithin (inside first region) (inside second reg)
  have copied : p.copyBlock (source * l.stride + l.offset region)
      (target * l.stride + l.offset reg) = .ok { p with data := data } := by
    rw [copyBlock, ran]
    rfl
  have kept := shaped.overwritten (length_copyWithin ran)
  rw [shaped.layout] at ran
  refine ⟨_, copied, kept, fun i other field => ?_⟩
  rw [kept.stretch_eq, shaped.stretch_eq, shaped.stretch_eq]
  by_cases named : i = target ∧ l.Same reg other
  · obtain ⟨rfl, same⟩ := named
    rw [if_pos ⟨rfl, same⟩, Layout.place, ← Layout.offset_of_same same]
    exact slice_copyWithin ran (field.inside l)
  · rw [if_neg named]
    refine slice_copyWithin_apart ran (Layout.place_apart field ?_)
    by_contra alike
    simp only [not_or, not_not] at alike
    exact named ⟨alike.1, alike.2.symm⟩

/-- The incumbent block starts where the trial block ends. -/
theorem Shaped.exists_promote (shaped : p.Shaped l n) (below : row < n) :
    ∃ q, p.promote row = .ok q ∧ q.Shaped l n ∧ ∀ i reg field, q.stretch i reg field =
      if i = row ∧ reg = .incumbent then p.stretch i .trial field else p.stretch i reg field := by
  cases phases : l.twoPhase with
  | false =>
    have kept : p.promote row = .ok p := by
      rw [promote, shaped.layout, phases]
      rfl
    refine ⟨p, kept, shaped, fun i reg field => ?_⟩
    rw [shaped.stretch_same (.inr phases : l.Same .trial reg), ite_self]
  | true =>
    obtain ⟨q, copied, kept, moved⟩ := shaped.exists_copyBlock below below .trial .incumbent
    have starts : p.start row .trial = row * l.stride + l.offset .trial := by
      rw [start, shaped.layout]
    have ends : p.start row .trial + p.layout.block = row * l.stride + l.offset .incumbent := by
      rw [start, shaped.layout, Layout.offset, Layout.offset, phases]
      rfl
    refine ⟨q, ?_, kept, fun i reg field => ?_⟩
    · rw [promote, shaped.layout, phases, ← shaped.layout, ends, starts]
      exact copied
    · have names : l.Same .incumbent reg ↔ reg = .incumbent := by
        simp [Layout.Same, phases, eq_comm]
      rw [moved]
      by_cases here : i = row ∧ reg = .incumbent
      · rw [if_pos ⟨here.1, names.mpr here.2⟩, if_pos here, here.1]
      · rw [if_neg fun all => here ⟨all.1, names.mp all.2⟩, if_neg here]

/-- By induction on the rows that were promoted. -/
theorem Shaped.exists_promoteAll (shaped : p.Shaped l n) :
    ∃ q, p.promoteAll = .ok q ∧ q.Shaped l n ∧
      ∀ i < n, ∀ reg field, q.stretch i reg field = p.stretch i .trial field := by
  have promoted : ∃ q, p.promoteAll = .ok q ∧ q.Shaped l n ∧ ∀ i reg field, q.stretch i reg field =
      if i < n then p.stretch i .trial field else p.stretch i reg field := by
    rw [promoteAll, shaped.count]
    refine exists_foldlM_range (I := fun k (q : Flat α) => q.Shaped l n ∧
      ∀ i reg field, q.stretch i reg field =
        if i < k then p.stretch i .trial field else p.stretch i reg field)
      (fun k below q sofar => ?_) ⟨shaped, fun i reg field => by simp⟩
    obtain ⟨q', ran, kept, moved⟩ := sofar.1.exists_promote below
    refine ⟨q', ran, kept, fun i reg field => ?_⟩
    rw [moved, sofar.2, sofar.2]
    rcases Nat.lt_trichotomy i k with before | rfl | later
    · simp [before, before.ne, Nat.lt_succ_of_lt before]
    · cases reg <;> simp
    · simp [later.ne', Nat.not_lt.mpr later.le, Nat.not_lt.mpr (Nat.succ_le_of_lt later)]
  obtain ⟨q, ran, kept, moved⟩ := promoted
  exact ⟨q, ran, kept, fun i below reg field => by rw [moved, if_pos below]⟩

/-- A block that is copied over itself stays as it is. -/
theorem Shaped.exists_copyRow {source target : Nat} (shaped : p.Shaped l n) (first : source < n)
    (second : target < n) (region : Region) :
    ∃ q, p.copyRow source target region = .ok q ∧ q.Shaped l n ∧ ∀ i reg field,
      q.stretch i reg field = if i = target ∧ l.Same region reg then p.stretch source region field
        else p.stretch i reg field := by
  by_cases same : source = target
  · subst same
    refine ⟨p, if_pos rfl, shaped, fun i reg field => ?_⟩
    split
    · rename_i named
      rw [named.1, shaped.stretch_same named.2]
    · rfl
  · obtain ⟨q, copied, kept, moved⟩ := shaped.exists_copyBlock first second region region
    refine ⟨q, ?_, kept, moved⟩
    rw [copyRow, if_neg same, start, start, shaped.layout]
    exact copied

/-- Row `i` is cut out where the row at entry `i` of the order stands. -/
theorem Shaped.exists_reorder {order : List Nat} (shaped : p.Shaped l n)
    (length : order.length = n) (below : ∀ row ∈ order, row < n) :
    ∃ q, p.reorder order = .ok q ∧ q.Shaped l n ∧ ∀ i < n, ∀ reg field,
      q.stretch i reg field = p.stretch (order.getD i i) reg field := by
  have cuts : ∀ row ∈ order, ∃ part,
      View.slice p.data (row * p.layout.stride) p.layout.stride = .ok part ∧
        part.length = l.stride := by
    intro row member
    have inside : (row + 1) * l.stride ≤ n * l.stride := Nat.mul_le_mul_right _ (below row member)
    rw [shaped.layout]
    refine exists_slice ?_
    rw [shaped.length]
    rwa [Nat.succ_mul] at inside
  obtain ⟨parts, cut, count, uniform⟩ := exists_mapM cuts
  have rebuilt : p.reorder order = .ok { p with data := parts.flatten } := bind_ok.mpr ⟨parts, cut, rfl⟩
  have kept : ({ p with data := parts.flatten } : Flat α).Shaped l n := by
    refine shaped.overwritten ?_
    rw [length_flatten_uniform uniform, count, length, shaped.length]
  refine ⟨_, rebuilt, kept, fun i inside reg field => ?_⟩
  have place : order[i]? = some (order.getD i i) := by
    rw [List.getD_eq_getElem?_getD, List.getElem?_eq_getElem (Nat.lt_of_lt_of_eq inside length.symm)]
    rfl
  obtain ⟨part, held, found⟩ := (mapM_ok cut).2 i _ place
  have long := uniform part (List.mem_of_getElem? held)
  have room : l.offset reg + field.start l + field.size l ≤ part.length := by
    have block := l.offset_block reg
    have within := field.inside l
    omega
  have origin := (Stands.of_slice found).1
  rw [shaped.layout] at origin
  rw [kept.stretch_eq, shaped.stretch_eq, Layout.place, Layout.place, Nat.add_assoc, Nat.add_assoc,
    (stands_flatten uniform held).slice_within room, origin.slice_within room]

section Content

variable [Scalar α]

/-- What a field holds. -/
def content (p : Flat α) : Fields (Content α)
  | row, region, .genes => (p.chromosome row region).map .genes
  | row, region, .status => (p.status row region).map .status
  | row, region, .rewards => (p.reward row region).map .rewards

/-- Writes the field that can hold the content. -/
def put (p : Flat α) (row : Nat) (region : Region) : Content α → Except Fault (Flat α)
  | .genes xs => p.setChromosome row region xs
  | .status s => p.setStatus row region s
  | .rewards xs => p.setReward row region xs

def apply (p : Flat α) : Edit α → Except Fault (Flat α)
  | .write row region c => p.put row region c
  | .promote row => p.promote row
  | .promoteAll => p.promoteAll
  | .copyRow source target region => p.copyRow source target region
  | .clip region => p.clip region
  | .reorder order => p.reorder order

theorem status_eq (p : Flat α) (row : Nat) (region : Region) : p.status row region =
    (p.stretch row region .status).map fun xs => Feasibility.fromCode (xs.headD Scalar.zero) := by
  have read : p.status row region = (p.stretch row region .status >>= fun xs => entry xs 0).map
      Feasibility.fromCode := congrArg (Except.map _) (entry_eq_slice _ _)
  rw [read]
  cases cut : p.stretch row region .status with
  | error cause => rfl
  | ok xs =>
    obtain ⟨x, rfl⟩ := List.length_eq_one_iff.mp (Stands.of_slice cut).2
    rfl

/-- Every field is read from its own stretch. -/
theorem content_eq (p : Flat α) (row : Nat) (region : Region) (field : BlockField) :
    p.content row region field = (p.stretch row region field).map (Content.ofCells field) := by
  cases field with
  | genes => rfl
  | status =>
    rw [content, status_eq]
    cases p.stretch row region .status <;> rfl
  | rewards => rfl

/-- A content that fits is written over the stretch of its field. -/
theorem Shaped.put_eq (shaped : p.Shaped l n) {c : Content α} (fits : c.Fits l) (row : Nat)
    (region : Region) : p.put row region c = p.write (l.place row region c.field) c.cells := by
  obtain ⟨rfl, _, _⟩ := shaped
  cases c with
  | genes xs => exact if_pos fits
  | status s => rfl
  | rewards xs => exact if_pos fits

end Content

/-- The edit leads from one population to another one, in which every field has the cells and
the content that the edit says. -/
structure Leads [Scalar α] (l : Layout) (n : Nat) (e : Edit α) (p q : Flat α) : Prop where
  ran : p.apply e = .ok q
  shaped : q.Shaped l n
  stretch : ∀ row < n, ∀ region field,
    q.stretch row region field = e.stretches l p.stretch row region field
  content : ∀ row < n, ∀ region field,
    q.content row region field = e.contents l p.content row region field

section Leading

variable [Scalar α]

/-- The cells of the fields are all there is to know. -/
theorem Leads.of_stretch [Scalar.LawfulStatus α] {e : Edit α} (ran : p.apply e = .ok q)
    (shaped : q.Shaped l n)
    (stretch : ∀ row < n, ∀ region field,
      q.stretch row region field = e.stretches l p.stretch row region field) :
    Leads l n e p q := by
  refine ⟨ran, shaped, stretch, fun row below region field => ?_⟩
  rw [content_eq, stretch row below region field, Edit.contents_of_cells p.content_eq]

theorem Shaped.exists_write [Scalar.LawfulStatus α] {c : Content α} (shaped : p.Shaped l n)
    (below : row < n) (fits : c.Fits l) (region : Region) :
    ∃ q, Leads l n (.write row region c) p q := by
  have inside : l.place row region c.field + c.cells.length ≤ p.data.length := by
    rw [fits.length, shaped.length]
    exact Layout.place_inside below region c.field
  obtain ⟨data, ran⟩ := exists_overwrite inside
  have wrote : p.apply (.write row region c) = .ok { p with data := data } := by
    rw [apply, shaped.put_eq fits, write, ran]
    rfl
  have kept := shaped.overwritten (length_overwrite ran)
  refine ⟨_, .of_stretch wrote kept fun i _ reg field => ?_⟩
  rw [Edit.stretches, Edit.after, kept.stretch_eq]
  by_cases named : i = row ∧ l.Same region reg ∧ field = c.field
  · obtain ⟨rfl, same, rfl⟩ := named
    have place : l.place i reg c.field = l.place i region c.field := by
      rw [Layout.place, Layout.place, Layout.offset_of_same same]
    rw [if_pos ⟨rfl, same, rfl⟩, place, ← fits.length]
    exact (stands_overwrite ran).slice
  · rw [if_neg named, shaped.stretch_eq]
    refine slice_overwrite_apart ran ?_
    rw [fits.length]
    refine Layout.places_apart ?_
    by_contra alike
    simp only [not_or, not_not] at alike
    obtain ⟨rows, regions, fields⟩ := alike
    exact named ⟨rows, regions.symm, fields⟩

/-- By induction on the rows that were clipped, each of them a write of its clamped genes. -/
theorem Shaped.exists_clip [Scalar.LawfulStatus α] (shaped : p.Shaped l n) (region : Region) :
    ∃ q, Leads l n (.clip region) p q := by
  have clipped : ∃ q, p.clip region = .ok q ∧ q.Shaped l n ∧ ∀ i < n, ∀ reg field,
      q.stretch i reg field = if i < n ∧ l.Same region reg
        then (p.stretch i reg field).map field.clipped else p.stretch i reg field := by
    rw [clip, shaped.count]
    refine exists_foldlM_range (I := fun k (q : Flat α) => q.Shaped l n ∧ ∀ i < n, ∀ reg field,
      q.stretch i reg field = if i < k ∧ l.Same region reg
        then (p.stretch i reg field).map field.clipped else p.stretch i reg field)
      (fun k below q sofar => ?_) ⟨shaped, fun i _ reg field => by simp⟩
    obtain ⟨kept, moved⟩ := sofar
    obtain ⟨xs, read, length⟩ := kept.exists_stretch below region .genes
    have fits : (Content.genes (xs.map Scalar.clampUnit)).Fits l := by
      rw [Content.Fits, List.length_map]
      exact length
    obtain ⟨q', leads⟩ := kept.exists_write below fits region
    have found : q.chromosome k region = .ok xs := read
    refine ⟨q', bind_ok.mpr ⟨xs, found, leads.ran⟩, leads.shaped, fun i inside reg field => ?_⟩
    rw [leads.stretch i inside, Edit.stretches, Edit.after, moved i inside]
    rcases Nat.lt_trichotomy i k with before | rfl | later
    · simp [before, before.ne, Nat.lt_succ_of_lt before]
    · by_cases same : l.Same region reg
      · have own : p.stretch i reg field = q.stretch i region field := by
          rw [kept.stretch_same same, moved i inside, if_neg fun all => absurd all.1 (lt_irrefl i)]
        cases field with
        | genes =>
          rw [own, read]
          simp [same, Content.field, Content.cells, BlockField.clipped, Except.map]
        | status =>
          have alone : BlockField.status.clipped = (id : List α → List α) := rfl
          simp [same, Content.field, alone, Except.map_id]
        | rewards =>
          have alone : BlockField.rewards.clipped = (id : List α → List α) := rfl
          simp [same, Content.field, alone, Except.map_id]
      · simp [same]
    · simp [later.ne', Nat.not_lt.mpr later.le, Nat.not_lt.mpr (Nat.succ_le_of_lt later)]
  obtain ⟨q, ran, kept, moved⟩ := clipped
  refine ⟨q, .of_stretch ran kept fun i below reg field => ?_⟩
  rw [moved i below, Edit.stretches, Edit.after]
  simp [below]

/-- Every edit within the rows succeeds, and does what it says. -/
theorem Shaped.exists_leads [Scalar.LawfulStatus α] (shaped : p.Shaped l n) {e : Edit α}
    (valid : e.Valid l n) : ∃ q, Leads l n e p q := by
  cases e with
  | write row region c => exact shaped.exists_write valid.1 valid.2 region
  | promote row =>
    obtain ⟨q, ran, kept, moved⟩ := shaped.exists_promote valid
    exact ⟨q, .of_stretch ran kept fun i _ => moved i⟩
  | promoteAll =>
    obtain ⟨q, ran, kept, moved⟩ := shaped.exists_promoteAll
    exact ⟨q, .of_stretch ran kept moved⟩
  | copyRow source target region =>
    obtain ⟨q, ran, kept, moved⟩ := shaped.exists_copyRow valid.1 valid.2 region
    exact ⟨q, .of_stretch ran kept fun i _ => moved i⟩
  | clip region => exact shaped.exists_clip region
  | reorder order =>
    obtain ⟨q, ran, kept, moved⟩ := shaped.exists_reorder valid.1 valid.2
    exact ⟨q, .of_stretch ran kept moved⟩

/-- Any number of edits. -/
def run (p : Flat α) (edits : List (Edit α)) : Except Fault (Flat α) := edits.foldlM apply p

theorem Shaped.exists_run [Scalar.LawfulStatus α] (shaped : p.Shaped l n) {edits : List (Edit α)}
    (valid : ∀ e ∈ edits, e.Valid l n) : ∃ q, p.run edits = .ok q ∧ q.Shaped l n := by
  refine exists_foldlM (fun e member s good => ?_) shaped
  obtain ⟨s', leads⟩ := good.exists_leads (valid e member)
  exact ⟨s', leads.ran, leads.shaped⟩

end Leading

/-- The rows of a view are the chromosomes. -/
theorem Shaped.exists_view (shaped : p.Shaped l n) (region : Region) :
    ∃ view, p.view region = .ok view ∧ view.genes = l.genes ∧ view.rows.length = n ∧
      ∀ row < n, ∃ genes, p.chromosome row region = .ok genes ∧ view.rows[row]? = some genes := by
  have room : (0 < p.count && decide (p.data.length <
      p.start (p.count - 1) region + p.layout.genes)) = false := by
    rcases Nat.eq_zero_or_pos n with rfl | positive
    · rw [shaped.count]
      rfl
    · have inside : l.place (n - 1) region .genes + l.genes ≤ n * l.stride :=
        Layout.place_inside (Nat.sub_one_lt_of_lt positive) region .genes
      rw [shaped.count, shaped.length, start, shaped.layout, Bool.and_eq_false_iff,
        decide_eq_false_iff_not, decide_eq_false_iff_not]
      exact .inr (Nat.not_lt.mpr inside)
  have each : ∀ row ∈ List.range n, ∃ xs, p.chromosome row region = .ok xs ∧ True := by
    intro row member
    obtain ⟨xs, found, _⟩ := shaped.exists_stretch (List.mem_range.mp member) region .genes
    exact ⟨xs, found, trivial⟩
  obtain ⟨rows, read, length, _⟩ := exists_mapM each
  refine ⟨⟨p.layout.genes, rows⟩, ?_, congrArg Layout.genes shaped.layout,
    length.trans List.length_range, fun row below => ?_⟩
  · rw [view, room, shaped.count]
    exact bind_ok.mpr ⟨rows, read, rfl⟩
  · obtain ⟨genes, held, found⟩ := (mapM_ok read).2 row row (List.getElem?_range below)
    exact ⟨genes, found, held⟩

/-- Addresses inside a vector do not overflow. -/
theorem Shaped.strided_eq (shaped : p.Shaped l n) (small : n * l.stride < wordCount)
    (region : Region) :
    View.strided p.data n l.stride (l.offset region) l.genes = p.view region := by
  have inside {row : Nat} (below : row < n) :
      row * l.stride + l.offset region + l.genes ≤ n * l.stride :=
    Layout.place_inside below region .genes
  have last : (0 < n && decide (p.data.length <
      wrap ((n - 1) * l.stride + l.offset region + l.genes))) =
        (0 < n && decide (p.data.length < (n - 1) * l.stride + l.offset region + l.genes)) := by
    rcases Nat.eq_zero_or_pos n with rfl | positive
    · rfl
    · have bound := inside (Nat.sub_one_lt_of_lt positive)
      rw [wrap_of_lt (by omega)]
  have each : (List.range n).mapM (fun row =>
      View.slice p.data (wrap (row * l.stride + l.offset region)) l.genes) =
        (List.range n).mapM fun row =>
          View.slice p.data (row * l.stride + l.offset region) l.genes := by
    refine mapM_congr fun row member => ?_
    have bound := inside (List.mem_range.mp member)
    rw [wrap_of_lt (by omega)]
  obtain ⟨rfl, rfl, _⟩ := shaped
  rw [View.strided, view, last, each]
  rfl

/-- The fields of a population are where its layout says. -/
structure Laid [Scalar α] (l : Layout) (n : Nat) (p : Flat α) : Prop where
  length : p.data.length = n * l.stride
  /-- Every field is read from its own stretch. -/
  reads : ∀ row < n, ∀ region field, ∃ xs,
    View.slice p.data (l.place row region field) (field.size l) = .ok xs ∧
      p.content row region field = .ok (.ofCells field xs)
  /-- With one phase both regions name the same block. -/
  aliased : l.twoPhase = false → ∀ row region field,
    p.content row region field = p.content row .trial field
  /-- The rows of a view are the chromosomes. -/
  viewed : ∀ region, ∃ view, p.view region = .ok view ∧ view.genes = l.genes ∧
    view.rows.length = n ∧
    ∀ row < n, ∃ genes, p.chromosome row region = .ok genes ∧ view.rows[row]? = some genes
  /-- A view is what is found in the vector, one stride after the other. -/
  strided : n * l.stride < wordCount → ∀ region,
    View.strided p.data n l.stride (l.offset region) l.genes = p.view region

theorem Shaped.laid [Scalar α] (shaped : p.Shaped l n) : p.Laid l n := by
  refine ⟨shaped.length, fun row below region field => ?_, fun single row region field => ?_,
    fun region => shaped.exists_view region, fun small region => shaped.strided_eq small region⟩
  · obtain ⟨xs, read, _⟩ := shaped.exists_stretch below region field
    refine ⟨xs, shaped.stretch_eq row region field ▸ read, ?_⟩
    rw [content_eq, read]
    rfl
  · rw [content_eq, content_eq, shaped.stretch_same (.inr single)]

end Flat
end Metaheuristic
