import Mathlib
import Metaheuristic.Number.Double
import Metaheuristic.Proofs.Computation
import Metaheuristic.Space.Registry

/-! What a registry looks like after any declarations, accepted or refused. The
list of variables, the map of names and the number of genes move together: names
are found where their variables stand, and the stretches of the variables follow
one another and cover all genes. A refused declaration changes nothing, which is
shown of a registry that is written in place, one part after the other.

Lengths are machine words. That they do not wrap is asked for of the true lengths,
those of the accepted variables together. -/
namespace Metaheuristic

variable {α : Type} [Scalar α]

/-- What makes a declaration unusable whatever the registry holds: nothing to index, a
sequence that is not a line, or a bound that is not finite, inverted, or negative
where it must not be. -/
def Declaration.Unfit (d : Declaration α) : Prop :=
  Shape.count d.shape.dims = 0 ∨ (d.kind = .sequence ∧ d.shape.dims.length ≠ 1) ∨
    ((d.kind = .continuous ∨ d.kind = .positive ∨ d.kind = .integer) ∧
      (Scalar.isFinite d.bound.lo = false ∨ Scalar.isFinite d.bound.hi = false ∨
        Scalar.lt d.bound.hi d.bound.lo = true ∨
        (d.kind = .positive ∧ Scalar.lt d.bound.lo Scalar.zero = true)))

namespace Shape

/-- A shape whose true length is a machine word has that length. -/
theorem size_of_lt {s : Shape} (small : count s.dims < wordCount) : s.size = count s.dims :=
  wrap_of_lt small

end Shape

section Stretches

variable {widths : List Nat} {gene : Nat}

/-- Stretches of the given widths, one after the other: each place lies in one. -/
theorem exists_sum_take (below : gene < widths.sum) :
    ∃ i, i < widths.length ∧ (widths.take i).sum ≤ gene ∧ gene < (widths.take (i + 1)).sum := by
  induction widths generalizing gene with
  | nil => simp at below
  | cons width widths ih =>
    rw [List.sum_cons] at below
    by_cases first : gene < width
    · exact ⟨0, by simp, by simp, by simpa using first⟩
    · have within : gene - width < widths.sum := by omega
      obtain ⟨i, inside, after, before⟩ := ih within
      refine ⟨i + 1, by simpa using inside, ?_, ?_⟩
      · simp only [List.take_succ_cons, List.sum_cons]
        omega
      · simp only [List.take_succ_cons, List.sum_cons] at before ⊢
        omega

theorem sum_take_mono {i j : Nat} (before : i ≤ j) : (widths.take i).sum ≤ (widths.take j).sum := by
  obtain ⟨k, rfl⟩ := Nat.exists_eq_add_of_le before
  rw [List.take_add, List.sum_append]
  omega

/-- An entry of a list with one more at the end. -/
theorem getElem?_concat {β : Type} {xs : List β} {x y : β} {i : Nat}
    (held : (xs ++ [x])[i]? = some y) : xs[i]? = some y ∨ (i = xs.length ∧ y = x) := by
  rcases Nat.lt_trichotomy i xs.length with before | here | behind
  · rw [List.getElem?_append_left before] at held
    exact .inl held
  · rw [here, List.getElem?_concat_length] at held
    cases held
    exact .inr ⟨here, rfl⟩
  · rw [List.getElem?_eq_none (by simp; omega)] at held
    cases held

theorem getElem?_append_some {β : Type} {xs ys : List β} {x : β} {i : Nat}
    (held : xs[i]? = some x) : (xs ++ ys)[i]? = some x := by
  rw [List.getElem?_append_left (List.getElem?_eq_some_iff.mp held).1, held]

end Stretches

namespace Registry

/-- Declares a variable in a registry that is changed in place: the genes first, then
the list of variables, then the map of names. -/
def declareInPlace (d : Declaration α) : ExceptT (Error α) (StateM (Registry α)) (Variable α) := do
  let r ← get
  if r.positions.contains d.name then throw (.schema (.duplicateName d.name))
  else
    match checkedBound d with
    | .error cause => throw (.config cause)
    | .ok bound =>
      let position := r.declared.length
      let stop := wrap (r.genes + d.shape.size)
      let v : Variable α := {
        d with bound := bound, position := position, start := r.genes, stop := stop }
      modify fun r => { r with genes := stop }
      modify fun r => { r with declared := r.declared ++ [v] }
      modify fun r => { r with positions := r.positions.insert d.name position }
      return v

/-- The registry after a declaration, accepted or not. -/
def after (r : Registry α) (d : Declaration α) : Registry α := ((declareInPlace d).run.run r).2

/-- The registry after several declarations, starting from an empty one. -/
def afterAll (ds : List (Declaration α)) : Registry α := ds.foldl after empty

omit [Scalar α] in
/-- The true number of elements of all variables. -/
def total (r : Registry α) : Nat := (r.declared.map fun v => Shape.count v.shape.dims).sum

variable {r r' : Registry α} {d : Declaration α} {ds : List (Declaration α)} {v : Variable α}

/-- What an accepted declaration was and what it leaves behind. -/
theorem declare_ok (ran : r.declare d = .ok (v, r')) :
    r.positions.contains d.name = false ∧ ∃ bound, checkedBound d = .ok bound ∧
      v = { d with
        bound := bound, position := r.declared.length, start := r.genes,
        stop := wrap (r.genes + d.shape.size) } ∧
      r' = { declared := r.declared ++ [v]
             positions := r.positions.insert d.name r.declared.length
             genes := wrap (r.genes + d.shape.size) } := by
  unfold declare at ran
  split at ran
  · cases ran
  · rename_i fresh
    split at ran
    · cases ran
    · rename_i bound checked
      cases ran
      exact ⟨by simpa using fresh, bound, checked, rfl, rfl⟩

/-- Declaring in place answers what declaring answers, and writes only when it accepts. -/
theorem declareInPlace_run (r : Registry α) (d : Declaration α) :
    (declareInPlace d).run.run r =
      match r.declare d with
      | .ok (v, r') => (.ok v, r')
      | .error cause => (.error cause, r) := by
  have looked {β : Type} (f : Registry α → ExceptT (Error α) (StateM (Registry α)) β) :
      (get >>= f).run.run r = (f r).run.run r := rfl
  rw [declareInPlace, looked, declare]
  by_cases known : r.positions.contains d.name = true
  · simp only [known, if_true]
    rfl
  · simp only [known, if_false, Bool.false_eq_true]
    cases checkedBound d with
    | error cause => rfl
    | ok bound => rfl

theorem after_ok (ran : r.declare d = .ok (v, r')) : r.after d = r' := by
  rw [after, declareInPlace_run, ran]

theorem after_error {cause : Error α} (ran : r.declare d = .error cause) : r.after d = r := by
  rw [after, declareInPlace_run, ran]

/-- A declaration leaves the registry as it was or adds one variable at the end. -/
theorem after_cases (r : Registry α) (d : Declaration α) :
    r.after d = r ∨ ∃ v r', r.declare d = .ok (v, r') ∧ r.after d = r' := by
  cases ran : r.declare d with
  | error cause => exact .inl (after_error ran)
  | ok answer => exact .inr ⟨answer.1, answer.2, rfl, after_ok ran⟩

theorem afterAll_concat (ds : List (Declaration α)) (d : Declaration α) :
    afterAll (ds ++ [d]) = (afterAll ds).after d := by
  simp [afterAll]

theorem total_declare (ran : r.declare d = .ok (v, r')) :
    r'.total = r.total + Shape.count d.shape.dims := by
  obtain ⟨_, bound, _, rfl, rfl⟩ := declare_ok ran
  simp [total]

theorem total_le_after (r : Registry α) (d : Declaration α) : r.total ≤ (r.after d).total := by
  rcases after_cases r d with same | ⟨v, r', ran, same⟩
  · exact Nat.le_of_eq (congrArg total same.symm)
  · rw [same, total_declare ran]
    omega

/-- Refused declarations count for nothing, so shapes that fit together always fit. -/
theorem total_afterAll_le (ds : List (Declaration α)) :
    (afterAll ds).total ≤ (ds.map fun d => Shape.count d.shape.dims).sum := by
  induction ds using List.reverseRecOn with
  | nil => exact Nat.le_refl _
  | append_singleton ds d ih =>
    rw [afterAll_concat, List.map_append, List.sum_append]
    rcases after_cases (afterAll ds) d with same | ⟨v, r', ran, same⟩
    · rw [same]
      omega
    · rw [same, total_declare ran]
      simpa using ih

theorem checkedBound_shape {bound : Bound α} (checked : checkedBound d = .ok bound) :
    d.shape.isEmpty = false := by
  unfold checkedBound at checked
  split at checked
  · cases checked
  · rename_i inhabited
    simpa using inhabited

/-- The checks refuse exactly the unfit declarations. -/
theorem checkedBound_error_iff (small : Shape.count d.shape.dims < wordCount) :
    (∃ cause, checkedBound d = .error cause) ↔ d.Unfit := by
  have empty : d.shape.isEmpty = true ↔ Shape.count d.shape.dims = 0 := by
    simp [Shape.isEmpty, Shape.size_of_lt small]
  unfold checkedBound Declaration.Unfit
  by_cases none : d.shape.isEmpty = true
  · simp [none, empty.mp none]
  · have inhabited : ¬Shape.count d.shape.dims = 0 := fun zero => none (empty.mpr zero)
    simp only [none, inhabited, false_or, if_false, Bool.false_eq_true]
    cases kind : d.kind with
    | binary => simp
    | sequence =>
      by_cases line : d.shape.dims.length = 1 <;> simp [line]
    | continuous | integer =>
      by_cases unbounded : Scalar.isFinite d.bound.lo = false ∨ Scalar.isFinite d.bound.hi = false
      · rcases unbounded with low | high <;> simp [*]
      · have ⟨low, high⟩ := not_or.mp unbounded
        simp only [Bool.not_eq_false] at low high
        cases inverted : Scalar.lt d.bound.hi d.bound.lo <;> simp [low, high]
    | positive =>
      by_cases unbounded : Scalar.isFinite d.bound.lo = false ∨ Scalar.isFinite d.bound.hi = false
      · rcases unbounded with low | high <;> simp [*]
      · have ⟨low, high⟩ := not_or.mp unbounded
        simp only [Bool.not_eq_false] at low high
        cases inverted : Scalar.lt d.bound.hi d.bound.lo <;>
          cases negative : Scalar.lt d.bound.lo Scalar.zero <;> simp [low, high]

/-- A registry whose parts agree. -/
structure Sound (r : Registry α) : Prop where
  /-- No name is taken twice. -/
  names : (r.declared.map fun v => v.name).Nodup
  /-- A name is found at the position of its variable, and only there. -/
  found : ∀ name position, r.position? name = some position ↔
    ∃ v, r.get? position = some v ∧ v.name = name
  /-- Every variable knows its position. -/
  placed : ∀ i v, r.get? i = some v → v.position = i
  /-- Every variable has as many genes as its shape has elements, at least one. -/
  width : ∀ v ∈ r.declared, v.width = v.shape.size ∧ v.shape.size = Shape.count v.shape.dims ∧
    1 ≤ v.width
  /-- Every variable starts where the variables before it end. -/
  start : ∀ i v, r.get? i = some v → v.start = ((r.declared.take i).map Variable.width).sum
  /-- The genes are those of all variables. -/
  genes : r.genes = (r.declared.map Variable.width).sum

/-- Nothing of an earlier registry has changed. -/
structure Extends (r r' : Registry α) : Prop where
  get? : ∀ i v, r.get? i = some v → r'.get? i = some v
  position? : ∀ name position, r.position? name = some position →
    r'.position? name = some position

omit [Scalar α] in
theorem Extends.refl (r : Registry α) : r.Extends r := ⟨fun _ _ held => held, fun _ _ held => held⟩

omit [Scalar α] in
theorem Extends.trans {r'' : Registry α} (first : r.Extends r') (second : r'.Extends r'') :
    r.Extends r'' :=
  ⟨fun i v held => second.get? i v (first.get? i v held),
    fun name position held => second.position? name position (first.position? name position held)⟩

/-- A declaration takes no name that is there, and its variable stands behind the others. -/
theorem extends_after (r : Registry α) (d : Declaration α) : r.Extends (r.after d) := by
  rcases after_cases r d with same | ⟨v, r', ran, same⟩
  · rw [same]
    exact Extends.refl r
  · rw [same]
    obtain ⟨fresh, bound, _, rfl, rfl⟩ := declare_ok ran
    refine ⟨fun i w held => getElem?_append_some held, ?_⟩
    intro name position held
    have other : (d.name == name) = false := by
      rw [beq_eq_false_iff_ne]
      rintro rfl
      rw [Std.HashMap.contains_eq_isSome_getElem?] at fresh
      rw [position?] at held
      rw [held] at fresh
      cases fresh
    simp only [position?, Std.HashMap.getElem?_insert, other]
    exact held

theorem extends_afterAll (earlier later : List (Declaration α)) :
    (afterAll earlier).Extends (afterAll (earlier ++ later)) := by
  induction later using List.reverseRecOn with
  | nil =>
    rw [List.append_nil]
    exact Extends.refl _
  | append_singleton later d ih =>
    rw [← List.append_assoc, afterAll_concat]
    exact ih.trans (extends_after _ d)

namespace Sound

omit [Scalar α] in
theorem empty : Sound (empty : Registry α) := by
  refine ⟨List.nodup_nil, ?_, ?_, nofun, ?_, rfl⟩
  · intro name position
    simp [Registry.empty, position?, get?]
  · intro i v none
    cases none
  · intro i v none
    cases none

omit [Scalar α] in
/-- A name is known when a variable has it. -/
theorem contains_iff (sound : r.Sound) (name : String) :
    r.positions.contains name = true ↔ ∃ v ∈ r.declared, v.name = name := by
  rw [Std.HashMap.contains_eq_isSome_getElem?, Option.isSome_iff_exists]
  constructor
  · rintro ⟨position, known⟩
    obtain ⟨v, held, named⟩ := (sound.found name position).mp known
    exact ⟨v, List.mem_of_getElem? held, named⟩
  · rintro ⟨v, member, named⟩
    obtain ⟨position, held⟩ := List.mem_iff_getElem?.mp member
    exact ⟨position, (sound.found name position).mpr ⟨v, held, named⟩⟩

omit [Scalar α] in
/-- The stretch of a variable ends where the widths up to it add up to. -/
theorem stop (sound : r.Sound) {i : Nat} (held : r.get? i = some v) :
    v.stop = ((r.declared.map Variable.width).take (i + 1)).sum := by
  have below : i < r.declared.length := (List.getElem?_eq_some_iff.mp held).1
  have own : r.declared[i] = v := (List.getElem?_eq_some_iff.mp held).2
  have positive := (sound.width v (List.mem_of_getElem? held)).2.2
  have start := sound.start i v held
  rw [← List.map_take, List.take_succ_eq_append_getElem below, own, List.map_append,
    List.sum_append, ← start]
  simp only [Variable.width, List.map_cons, List.map_nil, List.sum_cons, List.sum_nil] at positive ⊢
  omega

omit [Scalar α] in
theorem start_eq (sound : r.Sound) {i : Nat} (held : r.get? i = some v) :
    v.start = ((r.declared.map Variable.width).take i).sum := by
  rw [sound.start i v held, List.map_take]

omit [Scalar α] in
/-- The stretch of an earlier variable ends before that of a later one starts. -/
theorem apart (sound : r.Sound) {i j : Nat} {w : Variable α} (earlier : i < j)
    (first : r.get? i = some v) (second : r.get? j = some w) : v.stop ≤ w.start := by
  rw [sound.stop first, sound.start_eq second]
  exact sum_take_mono earlier

omit [Scalar α] in
/-- Every gene belongs to exactly one variable. -/
theorem cover (sound : r.Sound) {gene : Nat} (below : gene < r.genes) :
    ∃ i v, r.get? i = some v ∧ v.start ≤ gene ∧ gene < v.stop ∧
      ∀ j w, r.get? j = some w → w.start ≤ gene → gene < w.stop → j = i := by
  rw [sound.genes] at below
  obtain ⟨i, inside, after, before⟩ := exists_sum_take below
  rw [List.length_map] at inside
  have held : r.get? i = some r.declared[i] := List.getElem?_eq_getElem inside
  rw [← sound.start_eq held] at after
  rw [← sound.stop held] at before
  refine ⟨i, _, held, after, before, ?_⟩
  intro j w other afterW beforeW
  rcases Nat.lt_trichotomy j i with earlier | same | later
  · have ends := sound.apart earlier other held
    omega
  · exact same
  · have ends := sound.apart later held other
    omega

/-- An accepted declaration keeps the parts in agreement, provided that its variable
still fits. All three parts grow by the same variable. -/
theorem declare (sound : r.Sound) (fits : r.genes + Shape.count d.shape.dims < wordCount)
    (ran : r.declare d = .ok (v, r')) : r'.Sound := by
  obtain ⟨fresh, bound, checked, rfl, rfl⟩ := declare_ok ran
  have size : d.shape.size = Shape.count d.shape.dims := Shape.size_of_lt (by omega)
  have inhabited : 1 ≤ d.shape.size := by
    have notEmpty := checkedBound_shape checked
    simp only [Shape.isEmpty, beq_eq_false_iff_ne, ne_eq] at notEmpty
    omega
  have stop : wrap (r.genes + d.shape.size) = r.genes + d.shape.size := wrap_of_lt (by omega)
  have unknown : ∀ w ∈ r.declared, w.name ≠ d.name := by
    intro w member same
    have known := (sound.contains_iff d.name).mpr ⟨w, member, same⟩
    rw [fresh] at known
    contradiction
  rw [stop]
  refine ⟨?_, ?_, ?_, ?_, ?_, ?_⟩
  · simp only [List.map_append, List.map_cons, List.map_nil]
    refine List.nodup_append.mpr ⟨sound.names, by simp, ?_⟩
    intro name held other last
    obtain ⟨w, member, named⟩ := List.mem_map.mp held
    rw [List.mem_singleton.mp last, ← named]
    exact unknown w member
  · intro name position
    have looked : (r.positions.insert d.name r.declared.length)[name]? =
        if d.name = name then some r.declared.length else r.position? name := by
      simp [Std.HashMap.getElem?_insert, position?]
    simp only [position?, looked, get?]
    constructor
    · intro known
      split at known
      · rename_i same
        cases known
        exact ⟨_, List.getElem?_concat_length, same⟩
      · obtain ⟨w, held, named⟩ := (sound.found name position).mp known
        exact ⟨w, getElem?_append_some held, named⟩
    · rintro ⟨w, held, named⟩
      rcases getElem?_concat held with earlier | ⟨rfl, rfl⟩
      · have other : ¬d.name = name := by
          intro same
          exact unknown w (List.mem_of_getElem? earlier) (named.trans same.symm)
        rw [if_neg other]
        exact (sound.found name position).mpr ⟨w, earlier, named⟩
      · rw [if_pos named]
  · intro i w held
    rcases getElem?_concat held with earlier | ⟨rfl, rfl⟩
    · exact sound.placed i w earlier
    · rfl
  · intro w member
    rcases List.mem_append.mp member with earlier | last
    · exact sound.width w earlier
    · rw [List.mem_singleton.mp last]
      simp only [Variable.width]
      omega
  · intro i w held
    rcases getElem?_concat held with earlier | ⟨rfl, rfl⟩
    · have inside : i ≤ r.declared.length := Nat.le_of_lt (List.getElem?_eq_some_iff.mp earlier).1
      rw [List.take_append_of_le_length inside]
      exact sound.start i w earlier
    · simp only [List.take_left]
      exact sound.genes
  · simp only [List.map_append, List.sum_append, ← sound.genes, List.map_cons, List.map_nil,
      List.sum_cons, List.sum_nil, Variable.width]
    omega

omit [Scalar α] in
theorem genes_eq_total (sound : r.Sound) : r.genes = r.total := by
  rw [sound.genes, total]
  refine congrArg List.sum (List.map_congr_left fun v member => ?_)
  obtain ⟨width, size, _⟩ := sound.width v member
  exact width.trans size

/-- A declaration keeps the parts in agreement as long as the variables fit. -/
theorem after (sound : r.Sound) (fits : (r.after d).total < wordCount) : (r.after d).Sound := by
  cases ran : r.declare d with
  | error cause =>
    rw [after_error ran]
    exact sound
  | ok answer =>
    obtain ⟨v, r'⟩ := answer
    rw [after_ok ran] at fits ⊢
    rw [total_declare ran, ← sound.genes_eq_total] at fits
    exact sound.declare fits ran

/-- By induction on the declarations, each of them accepted or refused. -/
theorem afterAll (fits : (afterAll ds).total < wordCount) : (afterAll ds).Sound := by
  induction ds using List.reverseRecOn with
  | nil => exact Sound.empty
  | append_singleton ds d ih =>
    rw [afterAll_concat] at fits ⊢
    have before : (Registry.afterAll ds).total < wordCount :=
      Nat.lt_of_le_of_lt (total_le_after (Registry.afterAll ds) d) fits
    exact (ih before).after fits

end Sound

/-- Taken names are refused as duplicates, by themselves. -/
theorem declare_duplicate_iff (sound : r.Sound) :
    r.declare d = .error (.schema (.duplicateName d.name)) ↔ ∃ v ∈ r.declared, v.name = d.name := by
  rw [← sound.contains_iff, declare]
  by_cases known : r.positions.contains d.name = true
  · simp [known]
  · cases checkedBound d <;> simp [known]

/-- A name that is not taken is refused exactly when the declaration is unfit. -/
theorem declare_config_iff (sound : r.Sound) (small : Shape.count d.shape.dims < wordCount) :
    (∃ cause, r.declare d = .error (.config cause)) ↔
      (¬∃ v ∈ r.declared, v.name = d.name) ∧ d.Unfit := by
  rw [← sound.contains_iff, ← checkedBound_error_iff small, declare]
  by_cases known : r.positions.contains d.name = true
  · simp [known]
  · cases checkedBound d <;> simp [known]

/-- There is no other reason to refuse a declaration. -/
theorem declare_error_cases {cause : Error α} (ran : r.declare d = .error cause) :
    cause = .schema (.duplicateName d.name) ∨ ∃ flaw, cause = .config flaw := by
  unfold declare at ran
  split at ran
  · cases ran
    exact .inl rfl
  · split at ran
    · cases ran
      exact .inr ⟨_, rfl⟩
    · cases ran

/-- After any declarations, accepted or refused, the parts of a registry agree, every
gene belongs to exactly one variable, and whatever an earlier registry held is
still there. The next declaration is refused as a duplicate exactly when its name
is taken, and otherwise by the configuration exactly when it is unfit; refused, it
leaves every part of the registry as it was. -/
theorem declarations_consistent (ds : List (Declaration α))
    (fits : (afterAll ds).total < wordCount) :
    (afterAll ds).Sound ∧
    (∀ gene < (afterAll ds).genes, ∃ i v, (afterAll ds).get? i = some v ∧
      v.start ≤ gene ∧ gene < v.stop ∧
      ∀ j w, (afterAll ds).get? j = some w → w.start ≤ gene → gene < w.stop → j = i) ∧
    (∀ earlier later, ds = earlier ++ later → (afterAll earlier).Extends (afterAll ds)) ∧
    ∀ d : Declaration α, Shape.count d.shape.dims < wordCount →
      ((afterAll ds).declare d = .error (.schema (.duplicateName d.name)) ↔
        ∃ v ∈ (afterAll ds).declared, v.name = d.name) ∧
      ((∃ cause, (afterAll ds).declare d = .error (.config cause)) ↔
        (¬∃ v ∈ (afterAll ds).declared, v.name = d.name) ∧ d.Unfit) ∧
      (∀ cause, (afterAll ds).declare d = .error cause →
        (cause = .schema (.duplicateName d.name) ∨ ∃ flaw, cause = .config flaw) ∧
        (declareInPlace d).run.run (afterAll ds) = (.error cause, afterAll ds)) ∧
      ∀ v r', (afterAll ds).declare d = .ok (v, r') →
        (declareInPlace d).run.run (afterAll ds) = (.ok v, r') ∧
        r'.declared = (afterAll ds).declared ++ [v] ∧
        v.name = d.name ∧ v.kind = d.kind ∧ v.shape = d.shape := by
  have sound : (afterAll ds).Sound := Sound.afterAll fits
  refine ⟨sound, fun gene below => sound.cover below, ?_, ?_⟩
  · rintro earlier later rfl
    exact extends_afterAll earlier later
  · intro d small
    refine ⟨declare_duplicate_iff sound, declare_config_iff sound small, ?_, ?_⟩
    · intro cause ran
      refine ⟨declare_error_cases ran, ?_⟩
      rw [declareInPlace_run, ran]
    · intro v r' ran
      obtain ⟨_, bound, _, rfl, rfl⟩ := declare_ok ran
      refine ⟨?_, rfl, rfl, rfl, rfl⟩
      rw [declareInPlace_run, ran]

/-- Two amounts, the same name again, and a sequence that is not a line. -/
def refusals : List (Declaration Float) := [
  ⟨"x", .continuous, .vector 2, ⟨0.0, 10.0⟩⟩,
  ⟨"x", .binary, .scalar, ⟨0.0, 1.0⟩⟩,
  ⟨"s", .sequence, ⟨[2, 2]⟩, ⟨0.0, 1.0⟩⟩]

/-- The second declaration of a name is refused and writes nothing, and so is a
variable that would be negative. -/
theorem declarations_consistent_refusals :
    (afterAll refusals).total < wordCount ∧ (afterAll refusals).Sound ∧
    (declareInPlace ⟨"x", .binary, .scalar, ⟨0.0, 1.0⟩⟩).run.run (afterAll refusals) =
      (.error (.schema (.duplicateName "x")), afterAll refusals) ∧
    (⟨"x", .positive, .scalar, ⟨-1.0, 1.0⟩⟩ : Declaration Float).Unfit := by
  have fits : (afterAll refusals).total < wordCount :=
    Nat.lt_of_le_of_lt (total_afterAll_le refusals) (by decide)
  obtain ⟨sound, _, kept, next⟩ := declarations_consistent refusals fits
  obtain ⟨duplicate, _, refused, _⟩ := next ⟨"x", .binary, .scalar, ⟨0.0, 1.0⟩⟩ (by decide)
  have accepted : (empty : Registry Float).declare ⟨"x", .continuous, .vector 2, ⟨0.0, 10.0⟩⟩ =
      .ok (⟨⟨"x", .continuous, .vector 2, ⟨0.0, 10.0⟩⟩, 0, 0, 2⟩, ⟨[
        ⟨⟨"x", .continuous, .vector 2, ⟨0.0, 10.0⟩⟩, 0, 0, 2⟩],
        (∅ : Std.HashMap String Nat).insert "x" 0, 2⟩) := by
    rw [declare, if_neg (by simp [empty])]
    rfl
  have first :
      (afterAll [(⟨"x", .continuous, .vector 2, ⟨0.0, 10.0⟩⟩ : Declaration Float)]).get? 0 =
        some ⟨⟨"x", .continuous, .vector 2, ⟨0.0, 10.0⟩⟩, 0, 0, 2⟩ := by
    rw [afterAll, List.foldl_cons, List.foldl_nil, after_ok accepted]
    rfl
  have held :=
    (kept [⟨"x", .continuous, .vector 2, ⟨0.0, 10.0⟩⟩] (refusals.drop 1) rfl).get? 0 _ first
  have taken := duplicate.mpr ⟨_, List.mem_of_getElem? held, rfl⟩
  refine ⟨fits, sound, (refused _ taken).2,
    .inr (.inr ⟨.inr (.inl rfl), .inr (.inr (.inr ⟨rfl, ?_⟩))⟩)⟩
  decide +kernel

end Registry
end Metaheuristic
