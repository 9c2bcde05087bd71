import Metaheuristic.Proofs.Computation
import Metaheuristic.Proofs.Space.Registry
import Metaheuristic.Proofs.Table

/-! How the variables of a registry lie in a chromosome, without any assumption on their
lengths: every stretch starts where the one before it stops, as machine words do. A
chromosome that can be decoded at all is cut there, and the solution holds for every
name what its variable makes of its own stretch. Stretches written one after the other
are read back at the places they were written to. -/
namespace Metaheuristic

variable {α : Type}

namespace Solution

@[simp] theorem var?_insert_self (s : Solution α) (name : String) (d : Decoded α) :
    (s.insert name d).var? name = some d :=
  Table.lookup_insertEntry_self name d s.table.entries

theorem var?_insert_of_ne (s : Solution α) {name other : String} (different : other ≠ name)
    (d : Decoded α) : (s.insert name d).var? other = s.var? other :=
  Table.lookup_alterEntry_of_ne different _ s.table.entries

end Solution

namespace Variable

variable {v : Variable α} {chromosome genes : List α}

/-- A variable that can be read at all reads as many genes as it owns. -/
theorem stretchOf_ok (read : v.stretchOf chromosome = .ok genes) :
    v.start ≤ v.stop ∧ v.stop ≤ chromosome.length ∧ genes.length = v.width ∧
      ∀ g ∈ genes, g ∈ chromosome := by
  unfold stretchOf at read
  split at read
  · rename_i inside
    simp only [Bool.and_eq_true, decide_eq_true_eq] at inside
    cases read
    refine ⟨inside.1, inside.2, ?_,
      fun g member => List.mem_of_mem_drop (List.mem_of_mem_take member)⟩
    rw [List.length_take, List.length_drop, width]
    omega
  · cases read

theorem stretchOf_eq (read : v.stretchOf chromosome = .ok genes) :
    genes = (chromosome.drop v.start).take v.width := by
  unfold stretchOf at read
  split at read
  · cases read
    rfl
  · cases read

theorem exists_stretchOf (forward : v.start ≤ v.stop) (inside : v.stop ≤ chromosome.length) :
    ∃ genes, v.stretchOf chromosome = .ok genes := by
  rw [stretchOf, if_pos (by simpa using ⟨forward, inside⟩)]
  exact ⟨_, rfl⟩

/-- A part is read back where it was written. -/
theorem stretchOf_written {before part behind : List α} (start : v.start = before.length)
    (stop : v.stop = v.start + part.length) :
    v.stretchOf (before ++ part ++ behind) = .ok part := by
  have width : v.width = part.length := by
    rw [Variable.width]
    omega
  rw [stretchOf, if_pos (by simp; omega), start, width, List.append_assoc, List.drop_left,
    List.take_left]

end Variable

namespace Registry

/-- The stretches of the variables follow one another, as machine words do. -/
def Chained (start : Nat) : List (Variable α) → (stop : Nat) → Prop
  | [], stop => stop = start
  | v :: vs, stop =>
    v.start = start ∧ v.stop = wrap (start + v.shape.size) ∧ Chained v.stop vs stop

namespace Chained

variable {vs : List (Variable α)} {v : Variable α} {start stop : Nat}

/-- One more variable at the end. -/
theorem concat (chained : Chained start vs stop) (first : v.start = stop)
    (last : v.stop = wrap (stop + v.shape.size)) : Chained start (vs ++ [v]) v.stop := by
  induction vs generalizing start with
  | nil =>
    cases chained
    exact ⟨first, last, rfl⟩
  | cons w vs ih => exact ⟨chained.1, chained.2.1, ih chained.2.2⟩

/-- A stretch that does not run backwards has as many genes as the shape has elements:
a sum that wraps is less than what was added to. -/
theorem stop_eq (chained : Chained start vs stop) (word : start < wordCount) (member : v ∈ vs)
    (forward : v.start ≤ v.stop) : v.stop = v.start + v.shape.size := by
  induction vs generalizing start with
  | nil => cases member
  | cons w vs ih =>
    obtain ⟨first, last, rest⟩ := chained
    rcases List.mem_cons.mp member with rfl | later
    · have size : v.shape.size < wordCount := wrap_lt _
      unfold wrap at last
      unfold wordCount at last word size
      omega
    · refine ih rest ?_ later
      rw [last]
      exact wrap_lt _

/-- Stretches whose true lengths fit into the words neither run backwards nor beyond the
end. -/
theorem within (chained : Chained start vs stop)
    (fits : start + (vs.map fun v => v.shape.size).sum < wordCount) :
    start ≤ stop ∧ ∀ v ∈ vs, v.start ≤ v.stop ∧ v.stop ≤ stop := by
  induction vs generalizing start with
  | nil =>
    cases chained
    exact ⟨Nat.le_refl _, nofun⟩
  | cons w vs ih =>
    obtain ⟨first, last, rest⟩ := chained
    rw [List.map_cons, List.sum_cons] at fits
    rw [wrap_of_lt (by omega)] at last
    obtain ⟨inside, others⟩ := ih rest (by omega)
    refine ⟨by omega, fun v member => ?_⟩
    rcases List.mem_cons.mp member with rfl | later
    · omega
    · exact others v later

variable {part : Variable α → List α}

/-- Parts of the right lengths, one after the other, end where the last stretch does. -/
theorem length_written (before : List α) (chained : Chained start vs stop)
    (begun : before.length = start)
    (lengths : ∀ v ∈ vs, v.stop = v.start + (part v).length) :
    (before ++ (vs.map part).flatten).length = stop := by
  induction vs generalizing start before with
  | nil =>
    cases chained
    simpa using begun
  | cons v vs ih =>
    obtain ⟨first, _, rest⟩ := chained
    have own := lengths v List.mem_cons_self
    rw [List.map_cons, List.flatten_cons, ← List.append_assoc]
    refine ih _ rest ?_ fun w later => lengths w (List.mem_cons_of_mem _ later)
    rw [List.length_append]
    omega

/-- Every variable reads its own part. -/
theorem stretchOf_written (before : List α) (chained : Chained start vs stop)
    (begun : before.length = start) (lengths : ∀ v ∈ vs, v.stop = v.start + (part v).length) :
    ∀ v ∈ vs, v.stretchOf (before ++ (vs.map part).flatten) = .ok (part v) := by
  induction vs generalizing start before with
  | nil => exact nofun
  | cons w vs ih =>
    obtain ⟨first, _, rest⟩ := chained
    have own := lengths w List.mem_cons_self
    rw [List.map_cons, List.flatten_cons, ← List.append_assoc]
    intro v member
    rcases List.mem_cons.mp member with rfl | later
    · exact Variable.stretchOf_written (first.trans begun.symm) own
    · refine ih _ rest ?_ (fun u last => lengths u (List.mem_cons_of_mem _ last)) v later
      rw [List.length_append]
      omega

end Chained

variable [Scalar α] {r r' : Registry α} {v : Variable α}

/-- The variable of a declaration that is accepted with a bound. -/
def variableFor (r : Registry α) (d : Declaration α) (bound : Bound α) : Variable α :=
  { d with
    bound := bound, position := r.declared.length, start := r.genes,
    stop := wrap (r.genes + d.shape.size) }

/-- The registry with one more variable. -/
def extended (r : Registry α) (d : Declaration α) (bound : Bound α) : Registry α :=
  ⟨r.declared ++ [r.variableFor d bound], r.positions.insert d.name r.declared.length,
    wrap (r.genes + d.shape.size)⟩

/-- A new name with a bound that passes the checks is accepted. -/
theorem declare_accepted {d : Declaration α} {bound : Bound α}
    (fresh : r.positions.contains d.name = false) (checked : checkedBound d = .ok bound) :
    r.declare d = .ok (r.variableFor d bound, r.extended d bound) := by
  rw [declare, if_neg (by simp [fresh]), checked]
  rfl

theorem after_accepted {d : Declaration α} {bound : Bound α}
    (fresh : r.positions.contains d.name = false) (checked : checkedBound d = .ok bound) :
    r.after d = r.extended d bound :=
  after_ok (declare_accepted fresh checked)

/-- A registry that came about by declarations: no name twice, every name known, one
stretch behind the other, and only bounds that passed the checks. -/
structure Laid (r : Registry α) : Prop where
  names : (r.declared.map fun v => v.name).Nodup
  known : ∀ v ∈ r.declared, r.positions.contains v.name = true
  chained : Chained 0 r.declared r.genes
  checked : ∀ v ∈ r.declared, ∃ d, checkedBound d = .ok v.bound ∧
    v.toDeclaration = { d with bound := v.bound }

namespace Laid

theorem empty : Laid (empty : Registry α) := ⟨List.nodup_nil, nofun, rfl, nofun⟩

/-- Accepting a declaration keeps the variables laid out, whether they fit or not. -/
theorem declare {d : Declaration α} (laid : r.Laid) (ran : r.declare d = .ok (v, r')) :
    r'.Laid := by
  obtain ⟨fresh, bound, checked, rfl, rfl⟩ := declare_ok ran
  refine ⟨?_, ?_, ?_, ?_⟩
  · simp only [List.map_append, List.map_cons, List.map_nil]
    refine List.nodup_append.mpr ⟨laid.names, by simp, ?_⟩
    intro name held other last
    obtain ⟨w, member, named⟩ := List.mem_map.mp held
    rw [List.mem_singleton.mp last, ← named]
    intro same
    have taken := laid.known w member
    rw [same, fresh] at taken
    contradiction
  · intro w member
    rw [Std.HashMap.contains_insert, Bool.or_eq_true, beq_iff_eq]
    rcases List.mem_append.mp member with earlier | last
    · exact .inr (laid.known w earlier)
    · rw [List.mem_singleton.mp last]
      exact .inl rfl
  · exact laid.chained.concat rfl rfl
  · intro w member
    rcases List.mem_append.mp member with earlier | last
    · exact laid.checked w earlier
    · rw [List.mem_singleton.mp last]
      exact ⟨d, checked, rfl⟩

theorem after (laid : r.Laid) (d : Declaration α) : (r.after d).Laid := by
  rcases after_cases r d with same | ⟨v, r', ran, same⟩
  · rwa [same]
  · rw [same]
    exact laid.declare ran

/-- No variable is without elements. -/
theorem inhabited (laid : r.Laid) (member : v ∈ r.declared) : 0 < v.shape.size := by
  obtain ⟨d, checked, own⟩ := laid.checked v member
  have shape : v.shape = d.shape := by rw [own]
  have notEmpty := checkedBound_shape checked
  rw [← shape, Shape.isEmpty, beq_eq_false_iff_ne] at notEmpty
  exact Nat.pos_of_ne_zero notEmpty

/-- By induction on the declarations, each of them accepted or refused. -/
theorem afterAll (ds : List (Declaration α)) : (Registry.afterAll ds).Laid := by
  induction ds using List.reverseRecOn with
  | nil => exact empty
  | append_singleton ds d ih =>
    rw [afterAll_concat]
    exact ih.after d

end Laid

/-- The lengths of all variables together. -/
def demand (r : Registry α) : Nat := (r.declared.map fun v => v.shape.size).sum

section Decoding

variable {chromosome chromosome' : List α} {vs : List (Variable α)} {s s' : Solution α}

/-- Only what the variables make of their stretches matters for the solution. -/
theorem decodeOnto_congr (same : ∀ v ∈ vs,
      (v.stretchOf chromosome').map v.decode = (v.stretchOf chromosome).map v.decode) :
    decodeOnto chromosome' vs s = decodeOnto chromosome vs s := by
  induction vs generalizing s with
  | nil => rfl
  | cons v vs ih =>
    have first := same v List.mem_cons_self
    have rest (s : Solution α) : decodeOnto chromosome' vs s = decodeOnto chromosome vs s :=
      ih fun w later => same w (List.mem_cons_of_mem _ later)
    unfold decodeOnto
    cases read : v.stretchOf chromosome with
    | error cause =>
      rw [read] at first
      cases read' : v.stretchOf chromosome' with
      | error cause' =>
        rw [read'] at first
        cases first
        rfl
      | ok genes' =>
        rw [read'] at first
        cases first
    | ok genes =>
      rw [read] at first
      obtain ⟨genes', read', decoded⟩ := map_ok.mp first
      rw [read']
      refine (rest _).trans ?_
      rw [decoded]
      rfl

/-- Names that are not decoded keep what they have. -/
theorem decodeOnto_var?_of_notMem {name : String} (other : name ∉ vs.map fun v => v.name)
    (ran : decodeOnto chromosome vs s = .ok s') : s'.var? name = s.var? name := by
  induction vs generalizing s with
  | nil =>
    cases ran
    rfl
  | cons v vs ih =>
    rw [List.map_cons, List.mem_cons, not_or] at other
    obtain ⟨genes, _, rest⟩ := bind_ok.mp ran
    rw [ih other.2 rest, Solution.var?_insert_of_ne s other.1]

/-- Every variable can be read, and its name holds what it makes of its stretch. -/
theorem decodeOnto_var? (names : (vs.map fun v => v.name).Nodup)
    (ran : decodeOnto chromosome vs s = .ok s') : ∀ v ∈ vs, ∃ genes,
      v.stretchOf chromosome = .ok genes ∧
        s'.var? v.name = some ⟨v.kind, v.shape, v.decode genes⟩ := by
  induction vs generalizing s with
  | nil => exact nofun
  | cons w vs ih =>
    obtain ⟨fresh, names⟩ := List.nodup_cons.mp names
    obtain ⟨genes, read, rest⟩ := bind_ok.mp ran
    intro v member
    rcases List.mem_cons.mp member with rfl | later
    · refine ⟨genes, read, ?_⟩
      rw [decodeOnto_var?_of_notMem fresh rest, Solution.var?_insert_self]
    · exact ih names rest v later

theorem exists_decodeOnto (read : ∀ v ∈ vs, ∃ genes, v.stretchOf chromosome = .ok genes) :
    ∃ s', decodeOnto chromosome vs s = .ok s' := by
  induction vs generalizing s with
  | nil => exact ⟨s, rfl⟩
  | cons v vs ih =>
    obtain ⟨genes, first⟩ := read v List.mem_cons_self
    unfold decodeOnto
    rw [first]
    exact ih fun w later => read w (List.mem_cons_of_mem _ later)

/-- Where the lengths fit into the words, every variable finds its genes. -/
theorem Laid.exists_stretchOf (laid : r.Laid) (fits : r.demand < wordCount)
    (length : chromosome.length = r.genes) :
    ∀ v ∈ r.declared, ∃ genes, v.stretchOf chromosome = .ok genes := by
  obtain ⟨_, inside⟩ := laid.chained.within (by rwa [Nat.zero_add])
  intro v member
  obtain ⟨forward, stop⟩ := inside v member
  exact Variable.exists_stretchOf forward (stop.trans_eq length.symm)

/-- A registry whose lengths fit into the words decodes every chromosome of its length. -/
theorem Laid.exists_decode (laid : r.Laid) (fits : r.demand < wordCount)
    (length : chromosome.length = r.genes) : ∃ s, r.decode chromosome = .ok s :=
  exists_decodeOnto (laid.exists_stretchOf fits length)

/-- A decoded chromosome: every variable reads as many genes as its shape has elements,
up to where the next one starts, and its name holds what it makes of them. -/
theorem Laid.decode_ok (laid : r.Laid) (ran : r.decode chromosome = .ok s) :
    ∀ v ∈ r.declared, ∃ genes, v.stretchOf chromosome = .ok genes ∧
      genes.length = v.shape.size ∧ v.stop = v.start + v.shape.size ∧
      s.var? v.name = some ⟨v.kind, v.shape, v.decode genes⟩ := by
  intro v member
  obtain ⟨genes, read, held⟩ := decodeOnto_var? laid.names ran v member
  obtain ⟨forward, _, length, _⟩ := Variable.stretchOf_ok read
  have stop := laid.chained.stop_eq (by decide) member forward
  rw [Variable.width] at length
  exact ⟨genes, read, by omega, stop, held⟩

end Decoding

end Registry
end Metaheuristic
