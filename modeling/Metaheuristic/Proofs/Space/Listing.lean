import Mathlib
import Metaheuristic.Proofs.Space.Codec
import Metaheuristic.Proofs.Space.Layout
import Metaheuristic.Proofs.Space.Shape

/-! Everything a solution holds, in order. The listing of a solution goes through its names and
under each name through the tuples of the shape. Where every name has a value for each tuple, the
listing holds exactly what can be looked up, each entry once; and decoded solutions are like that,
with as many entries as there are genes. -/
namespace Metaheuristic

variable {α : Type}

/-- A value for each tuple of the shape, which are no more than the machine words. -/
structure Decoded.Full (d : Decoded α) : Prop where
  values : d.values.length = Shape.count d.shape.dims
  words : Shape.count d.shape.dims ≤ wordCount

namespace Solution

/-- The names stand in order, and each of them has a value for each tuple. -/
structure Full (s : Solution α) : Prop where
  ordered : Table.Ordered s.table.entries
  filled : ∀ e ∈ s.table.entries, e.2.Full

/-- An entry that is listed before another: of a lower name, or of the same name at a tuple that
comes first. -/
def Ahead (a b : String × List Nat × α) : Prop := a.1 < b.1 ∨ a.1 = b.1 ∧ a.2.1 < b.2.1

theorem Ahead.ne {a b : String × List Nat × α} (ahead : Ahead a b) :
    (a.1, a.2.1) ≠ (b.1, b.2.1) := by
  intro same
  obtain ⟨name, index⟩ := Prod.mk.inj same
  rcases ahead with lower | ⟨_, before⟩
  · exact lt_irrefl _ (name ▸ lower)
  · exact lt_irrefl _ (index ▸ before)

/-- The entries of one name: each value behind the tuple of its offset. -/
def block (name : String) (d : Decoded α) : List (String × List Nat × α) :=
  d.values.zipIdx.map fun p => (name, Shape.tuple d.shape.dims p.2, p.1)

variable {s : Solution α} {d : Decoded α} {name : String} {index : List Nat} {x : α}

theorem Full.var?_iff (full : s.Full) : s.var? name = some d ↔ (name, d) ∈ s.table.entries :=
  full.ordered.mem_iff_lookup.symm

theorem tuples_eq (full : d.Full) (name : String) : tuples name d = .ok (block name d) := by
  refine mapM_eq_ok fun ⟨v, flat⟩ member => ?_
  obtain ⟨below, _⟩ := List.mem_zipIdx' member
  rw [full.values] at below
  exact bind_ok.mpr ⟨_, Shape.tupleAt_eq (Nat.ne_zero_of_lt below) flat, rfl⟩

theorem mem_block (full : d.Full) {other : String} :
    (other, index, x) ∈ block name d ↔
      other = name ∧ Shape.Addresses index d.shape.dims ∧
        d.values[Shape.rowMajor d.shape.dims index]? = some x := by
  rw [block, List.mem_map]
  constructor
  · rintro ⟨⟨y, flat⟩, member, same⟩
    obtain ⟨rfl, rfl, rfl⟩ : name = other ∧ Shape.tuple d.shape.dims flat = index ∧ y = x := by
      simpa using same
    have held : d.values[flat]? = some y := List.mem_zipIdx_iff_getElem?.mp member
    have below : flat < Shape.count d.shape.dims :=
      Nat.lt_of_lt_of_eq (List.getElem?_eq_some_iff.mp held).1 full.values
    refine ⟨rfl, Shape.addresses_tuple (Nat.ne_zero_of_lt below) flat, ?_⟩
    rwa [Shape.rowMajor_tuple, Nat.mod_eq_of_lt below]
  · rintro ⟨rfl, inside, held⟩
    have first := Shape.tuple_rowMajor inside 0
    rw [Nat.zero_mul, Nat.zero_add] at first
    exact ⟨(x, Shape.rowMajor d.shape.dims index), List.mem_zipIdx_iff_getElem?.mpr held,
      by rw [first]⟩

theorem block_ordered (full : d.Full) (name : String) : (block name d).Pairwise Ahead := by
  rw [block, List.pairwise_map, List.pairwise_iff_getElem]
  intro i j inside inside' earlier
  rw [List.length_zipIdx, full.values] at inside inside'
  have inhabited := Nat.ne_zero_of_lt inside
  rw [List.getElem_zipIdx, List.getElem_zipIdx, Nat.zero_add, Nat.zero_add]
  refine .inr ⟨rfl, ?_⟩
  rw [← Shape.rowMajor_lt_iff (Shape.addresses_tuple inhabited i)
    (Shape.addresses_tuple inhabited j), Shape.rowMajor_tuple, Shape.rowMajor_tuple,
    Nat.mod_eq_of_lt inside, Nat.mod_eq_of_lt inside']
  exact earlier

/-- A value is found at a tuple where the number of the tuple says. -/
theorem Full.get?_iff (full : s.Full) :
    s.get? name index = some x ↔ ∃ d, (name, d) ∈ s.table.entries ∧
      Shape.Addresses index d.shape.dims ∧
      d.values[Shape.rowMajor d.shape.dims index]? = some x := by
  rw [get?]
  cases held : s.var? name with
  | none =>
    have absent (d : Decoded α) : (name, d) ∉ s.table.entries := by
      rw [← full.var?_iff, held]
      rintro ⟨⟩
    simp [absent]
  | some d =>
    have member : (name, d) ∈ s.table.entries := full.var?_iff.mp held
    have only (d' : Decoded α) : (name, d') ∈ s.table.entries ↔ d' = d := by
      rw [← full.var?_iff, held, Option.some_inj, eq_comm]
    simp only [only, exists_eq_left]
    by_cases inside : Shape.Addresses index d.shape.dims
    · have offset := Shape.offset?_rowMajor (full.filled _ member).words inside
      simp [offset, inside]
    · have offset : d.shape.offset? index = none := by
        refine Option.eq_none_iff_forall_ne_some.mpr fun flat read => ?_
        exact inside (Shape.offset?_eq_some_iff.mp read).1
      simp [offset, inside]

/-- The listing of a full solution never fails. -/
theorem Full.toList_eq (full : s.Full) :
    s.toList = .ok (s.table.entries.flatMap fun e => block e.1 e.2) := by
  rw [toList, mapM_eq_ok fun e member => tuples_eq (full.filled e member) e.1]
  rfl

/-- What is listed is what can be looked up. -/
theorem Full.mem_listing (full : s.Full) :
    (name, index, x) ∈ (s.table.entries.flatMap fun e => block e.1 e.2) ↔
      s.get? name index = some x := by
  rw [full.get?_iff, List.mem_flatMap]
  constructor
  · rintro ⟨⟨key, d⟩, member, inside⟩
    obtain ⟨rfl, found⟩ := (mem_block (full.filled _ member)).mp inside
    exact ⟨d, member, found⟩
  · rintro ⟨d, member, found⟩
    exact ⟨(name, d), member, (mem_block (full.filled _ member)).mpr ⟨rfl, found⟩⟩

theorem Full.listing_ordered (full : s.Full) :
    (s.table.entries.flatMap fun e => block e.1 e.2).Pairwise Ahead := by
  rw [List.pairwise_flatMap]
  constructor
  · intro e member
    exact block_ordered (full.filled e member) e.1
  · have named (e : String × Decoded α) (a : String × List Nat × α) (inside : a ∈ block e.1 e.2) :
        a.1 = e.1 := by
      obtain ⟨p, _, rfl⟩ := List.mem_map.mp inside
      rfl
    refine full.ordered.imp fun {e e'} before a inside b inside' => .inl ?_
    rwa [named e a inside, named e' b inside']

theorem length_listing (s : Solution α) :
    (s.table.entries.flatMap fun e => block e.1 e.2).length =
      (s.table.entries.map fun e => e.2.values.length).sum := by
  simp [List.length_flatMap, block]

end Solution

namespace Registry

variable [Scalar α] {chromosome : List α} {vs : List (Variable α)} {s s' : Solution α}
  {r : Registry α}

/-- What a variable leaves in a solution. -/
def entryOf (chromosome : List α) (v : Variable α) : String × Decoded α :=
  (v.name, ⟨v.kind, v.shape, v.decode ((chromosome.drop v.start).take v.width)⟩)

/-- Decoding keeps the names in order and adds an entry for each variable. -/
theorem decodeOnto_entries (names : (vs.map fun v => v.name).Nodup)
    (fresh : ∀ v ∈ vs, ∀ e ∈ s.table.entries, e.1 ≠ v.name)
    (ordered : Table.Ordered s.table.entries) (ran : decodeOnto chromosome vs s = .ok s') :
    Table.Ordered s'.table.entries ∧
      s'.table.entries.Perm (s.table.entries ++ vs.map (entryOf chromosome)) := by
  induction vs generalizing s with
  | nil =>
    cases ran
    exact ⟨ordered, by simp⟩
  | cons v vs ih =>
    obtain ⟨first, names⟩ := List.nodup_cons.mp names
    obtain ⟨own, others⟩ := List.forall_mem_cons.mp fresh
    obtain ⟨genes, read, rest⟩ := bind_ok.mp ran
    cases Variable.stretchOf_eq read
    have added : (s.insert v.name (entryOf chromosome v).2).table.entries.Perm
        (entryOf chromosome v :: s.table.entries) := Table.perm_alterEntry own
    obtain ⟨ordered', perm⟩ := ih names (fun w later e member => by
      rcases List.mem_cons.mp (added.mem_iff.mp member) with rfl | earlier
      · intro same
        exact first (List.mem_map.mpr ⟨w, later, same.symm⟩)
      · exact others w later e earlier) (ordered.alterEntry ..) rest
    refine ⟨ordered', perm.trans ?_⟩
    rw [List.map_cons]
    exact (added.append_right _).trans List.perm_middle.symm

/-- A decoded solution has the entries of the variables, in order of their names. -/
theorem Laid.decode_entries (laid : r.Laid) (ran : r.decode chromosome = .ok s) :
    Table.Ordered s.table.entries ∧
      s.table.entries.Perm (r.declared.map (entryOf chromosome)) := by
  have empty : Table.Ordered (Solution.empty (α := α)).table.entries := List.Pairwise.nil
  exact decodeOnto_entries laid.names (fun _ _ _ none => by cases none) empty ran

theorem Laid.decode_full (laid : r.Laid)
    (words : ∀ v ∈ r.declared, Shape.count v.shape.dims < wordCount)
    (ran : r.decode chromosome = .ok s) : s.Full := by
  obtain ⟨ordered, perm⟩ := laid.decode_entries ran
  refine ⟨ordered, fun e member => ?_⟩
  obtain ⟨v, declared, rfl⟩ := List.mem_map.mp (perm.mem_iff.mp member)
  obtain ⟨genes, read, length, _⟩ := laid.decode_ok ran v declared
  have small := words v declared
  refine ⟨?_, small.le⟩
  rw [entryOf, Variable.length_decode, ← Variable.stretchOf_eq read, length,
    Shape.size_of_lt small]

/-- There are as many values as genes, because the stretches follow one another. -/
theorem Laid.decode_values (laid : r.Laid) (ran : r.decode chromosome = .ok s) :
    (s.table.entries.map fun e => e.2.values.length).sum = r.genes := by
  have each (v : Variable α) (member : v ∈ r.declared) :
      v.stop = v.start + (entryOf chromosome v).2.values.length := by
    obtain ⟨genes, read, length, stop, _⟩ := laid.decode_ok ran v member
    rw [entryOf, Variable.length_decode, ← Variable.stretchOf_eq read, length, stop]
  have whole := Chained.length_written [] laid.chained rfl each
  rw [List.nil_append, List.length_flatten, List.map_map] at whole
  rw [((laid.decode_entries ran).2.map _).sum_eq, List.map_map]
  exact whole

/-- Row by row, whatever the dimensions are, the tuples are numbered one to one from zero up to
the product of the dimensions, in lexicographic order, and each number has the digits of its tuple.
Exactly these tuples have an offset, and it is their number, a machine word if the product is no
more than the words. So with variables that are not larger than that, a decoded solution lists
exactly what can be looked up, each entry once, by name and then row by row, and as many entries as
there are genes. -/
theorem decode_lists_row_major (ds : List (Declaration α)) (chromosome : List α) :
    (∀ shape : Shape,
      (∀ index flat, shape.offset? index = some flat ↔
        Shape.Addresses index shape.dims ∧ flat = wrap (Shape.rowMajor shape.dims index)) ∧
      Set.BijOn (Shape.rowMajor shape.dims) {index | Shape.Addresses index shape.dims}
        (Set.Iio (Shape.count shape.dims)) ∧
      StrictMonoOn (Shape.rowMajor shape.dims) {index | Shape.Addresses index shape.dims} ∧
      (∀ index, Shape.Addresses index shape.dims →
        shape.tupleAt (Shape.rowMajor shape.dims index) = .ok index) ∧
      (∀ flat < Shape.count shape.dims, ∃ index, shape.tupleAt flat = .ok index ∧
        Shape.Addresses index shape.dims ∧ Shape.rowMajor shape.dims index = flat) ∧
      (Shape.count shape.dims ≤ wordCount → ∀ index, Shape.Addresses index shape.dims →
        shape.offset? index = some (Shape.rowMajor shape.dims index))) ∧
    ((∀ v ∈ (afterAll ds).declared, Shape.count v.shape.dims < wordCount) →
      ∀ s, (afterAll ds).decode chromosome = .ok s → ∃ entries, s.toList = .ok entries ∧
        (∀ name index x, (name, index, x) ∈ entries ↔ s.get? name index = some x) ∧
        entries.Pairwise Solution.Ahead ∧
        (entries.map fun entry => (entry.1, entry.2.1)).Nodup ∧
        entries.length = (afterAll ds).genes) := by
  constructor
  · intro shape
    refine ⟨fun index flat => Shape.offset?_eq_some_iff, ⟨?_, ?_, ?_⟩, ?_, ?_, ?_, ?_⟩
    · intro index inside
      exact Shape.rowMajor_lt inside
    · intro index inside index' inside' same
      have first := Shape.tupleAt_rowMajor (s := shape) inside
      rw [same, Shape.tupleAt_rowMajor inside'] at first
      exact (Except.ok.inj first).symm
    · intro flat below
      exact Shape.exists_rowMajor below
    · intro index inside index' inside' before
      exact (Shape.rowMajor_lt_iff inside inside').mpr before
    · intro index inside
      exact Shape.tupleAt_rowMajor inside
    · intro flat below
      obtain ⟨index, inside, rfl⟩ := Shape.exists_rowMajor below
      exact ⟨index, Shape.tupleAt_rowMajor inside, inside, rfl⟩
    · intro small index inside
      exact Shape.offset?_rowMajor small inside
  · intro words s ran
    have laid := Laid.afterAll ds
    have full := laid.decode_full words ran
    refine ⟨_, full.toList_eq, fun name index x => full.mem_listing, full.listing_ordered, ?_, ?_⟩
    · rw [List.Nodup, List.pairwise_map]
      exact full.listing_ordered.imp Solution.Ahead.ne
    · rw [Solution.length_listing, laid.decode_values ran]

/-- Two rows of two. -/
def grid : Declaration (Exact ℚ) := ⟨"grid", .continuous, ⟨[2, 2]⟩, .between 0 10⟩

/-- A single gene that is named before the grid. -/
def bias : Declaration (Exact ℚ) := ⟨"bias", .binary, .scalar, .unit⟩

theorem afterAll_grid :
    afterAll [grid, bias] = (empty.extended grid grid.bound).extended bias .unit := by
  have first : empty.after grid = empty.extended grid grid.bound :=
    after_accepted (by simp [empty])
      (checkedBound_of_proper rfl (.inl rfl) ⟨0, 10, rfl, by norm_num⟩)
  rw [afterAll, List.foldl_cons, List.foldl_cons, List.foldl_nil, first]
  exact after_accepted (by simp [empty, extended, grid, bias]) rfl

/-- The name decides before the order of declaration, and the rows follow one another. -/
theorem decode_lists_row_major_grid :
    ∃ s entries,
      (afterAll [grid, bias]).decode ([0, 1 / 4, 1 / 2, 3 / 4, 1].map Exact.finite) = .ok s ∧
      s.toList = .ok entries ∧ entries.length = 5 ∧
      (entries.map fun entry => (entry.1, entry.2.1)) =
        [("bias", []), ("grid", [0, 0]), ("grid", [0, 1]), ("grid", [1, 0]), ("grid", [1, 1])] ∧
      ("grid", [1, 0], .finite 5) ∈ entries ∧ s.get? "grid" [1, 0] = some (.finite 5) := by
  have declared := afterAll_grid
  obtain ⟨_, lists⟩ := decode_lists_row_major [grid, bias]
    ([0, 1 / 4, 1 / 2, 3 / 4, 1].map Exact.finite)
  rw [declared] at lists ⊢
  obtain ⟨s, ran, keys⟩ := exists_ok_of_any (x := Registry.decode
      ((empty.extended grid grid.bound).extended bias .unit)
      ([0, 1 / 4, 1 / 2, 3 / 4, 1].map Exact.finite))
    (P := fun s => (s.toList.toOption.map fun entries =>
      entries.map fun entry => (entry.1, entry.2.1)) =
        some [("bias", []), ("grid", [0, 0]), ("grid", [0, 1]), ("grid", [1, 0]), ("grid", [1, 1])] ∧
      s.get? "grid" [1, 0] = some (.finite 5)) (by decide +kernel)
  obtain ⟨entries, listed, found, _, _, length⟩ := lists (by decide +kernel) s ran
  rw [listed] at keys
  exact ⟨s, entries, ran, listed, length, Option.some.inj keys.1, (found ..).mpr keys.2, keys.2⟩

end Registry
end Metaheuristic
