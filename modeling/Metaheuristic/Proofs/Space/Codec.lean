import Metaheuristic.Proofs.Space.Coding
import Metaheuristic.Proofs.Space.Layout

/-! Encoding undoes decoding. The solution of a chromosome is written back variable by
variable, each into its own stretch and found by its name, so what a variable makes of
its genes and back is all that counts. The new chromosome need not be the old one: whole
values and permutations have many genes, and a bound without width forgets its gene. It
decodes to the same solution, and its real genes are the old ones. -/
namespace Metaheuristic

namespace Variable

variable {α : Type} {v : Variable α} {chromosome chromosome' genes : List α}

/-- Equal stretches are equal gene by gene. -/
theorem getElem?_of_stretchOf {gene : Nat} (read : v.stretchOf chromosome = .ok genes)
    (read' : v.stretchOf chromosome' = .ok genes) (from_start : v.start ≤ gene)
    (below : gene < v.stop) : chromosome'[gene]? = chromosome[gene]? := by
  have inside : gene - v.start < v.width := by
    rw [width]
    omega
  have place (whole : List α) (eq : genes = (whole.drop v.start).take v.width) :
      genes[gene - v.start]? = whole[gene]? := by
    rw [eq, List.getElem?_take_of_lt inside, List.getElem?_drop]
    congr 1
    omega
  rw [← place chromosome' (stretchOf_eq read'), ← place chromosome (stretchOf_eq read)]

variable [Scalar α]

/-- What a variable writes back for its stretch of a chromosome. -/
def recoded (chromosome : List α) (v : Variable α) : List α :=
  v.encode (v.decode ((chromosome.drop v.start).take v.width))

theorem recoded_eq (read : v.stretchOf chromosome = .ok genes) :
    v.recoded chromosome = v.encode (v.decode genes) := by
  rw [recoded, ← stretchOf_eq read]

end Variable

namespace Registry

section Writing

variable {α : Type} [Scalar α] {r : Registry α} {chromosome : List α} {s : Solution α}

theorem encodeOne_eq {v : Variable α} {genes : List α} (read : v.stretchOf chromosome = .ok genes)
    (held : s.var? v.name = some ⟨v.kind, v.shape, v.decode genes⟩) :
    encodeOne s v = .ok (v.recoded chromosome) := by
  have length : (v.encode (v.decode genes)).length = v.width := by
    rw [Variable.length_encode, Variable.length_decode, (Variable.stretchOf_ok read).2.2.1]
  rw [encodeOne, held, Variable.recoded_eq read]
  simp only [length, Nat.le_refl, if_true]
  rw [List.take_of_length_le (Nat.le_of_eq length)]

/-- The solution of a chromosome is written back as what the variables write back, each
into its own stretch. -/
theorem Laid.encode_ok (laid : r.Laid) (ran : r.decode chromosome = .ok s) :
    ∃ written, r.encode s = .ok written ∧ written.length = r.genes ∧
      ∀ v ∈ r.declared, v.stretchOf written = .ok (v.recoded chromosome) := by
  have decoded := laid.decode_ok ran
  have lengths : ∀ v ∈ r.declared, v.stop = v.start + (v.recoded chromosome).length := by
    intro v member
    obtain ⟨genes, read, length, stop, _⟩ := decoded v member
    rw [Variable.recoded_eq read, Variable.length_encode, Variable.length_decode, length, stop]
  have each : ∀ v ∈ r.declared, encodeOne s v = .ok (v.recoded chromosome) := by
    intro v member
    obtain ⟨genes, read, _, _, held⟩ := decoded v member
    exact encodeOne_eq read held
  refine ⟨(r.declared.map fun v => v.recoded chromosome).flatten, ?_, ?_, ?_⟩
  · rw [encode, mapM_eq_ok each]
    rfl
  · exact Chained.length_written [] laid.chained rfl lengths
  · exact Chained.stretchOf_written [] laid.chained rfl lengths

end Writing

variable {K : Type} [Field K] [LinearOrder K] [IsStrictOrderedRing K] [FloorRing K] [Elementary K]

/-- The checks let only intervals with finite ends in order pass. -/
theorem checkedBound_proper {d : Declaration (Exact K)} {bound : Bound (Exact K)}
    (checked : checkedBound d = .ok bound) : bound.Proper := by
  have ordered (finite : ¬(!Scalar.isFinite d.bound.lo || !Scalar.isFinite d.bound.hi) = true)
      (upright : ¬Scalar.lt d.bound.hi d.bound.lo = true) : d.bound.Proper := by
    simp only [Bool.or_eq_true, Bool.not_eq_true', not_or, Bool.not_eq_false] at finite
    obtain ⟨lo, lower⟩ := Exact.isFinite_iff.mp finite.1
    obtain ⟨hi, upper⟩ := Exact.isFinite_iff.mp finite.2
    rw [lower, upper, Exact.lt_eq] at upright
    refine ⟨lo, hi, ?_, not_lt.mp (by simpa [Exact.below] using upright)⟩
    rw [Bound.between, ← lower, ← upper]
  unfold checkedBound at checked
  split at checked
  · cases checked
  · split at checked
    · cases checked
      exact ⟨0, 1, by rw [Bound.unit, Bound.between, Exact.zero_eq, Exact.one_eq], zero_le_one⟩
    · split at checked
      · cases checked
        refine ⟨0, (d.shape.size - 1 : Nat), ?_, Nat.cast_nonneg _⟩
        rw [Bound.between, Exact.zero_eq, Exact.ofNat_eq]
      · cases checked
    · split at checked
      · cases checked
      · rename_i finite
        split at checked
        · cases checked
        · rename_i upright
          split at checked
          · cases checked
          · cases checked
            exact ordered finite upright

omit [IsStrictOrderedRing K] in
/-- Such an interval passes them where the sign does not matter. -/
theorem checkedBound_of_proper {d : Declaration (Exact K)} (inhabited : d.shape.isEmpty = false)
    (kind : d.kind = .continuous ∨ d.kind = .integer) (proper : d.bound.Proper) :
    checkedBound d = .ok d.bound := by
  obtain ⟨lo, hi, bound, ordered⟩ := proper
  have finite : (!Scalar.isFinite d.bound.lo || !Scalar.isFinite d.bound.hi) = false := by
    rw [bound]
    rfl
  have upright : Scalar.lt d.bound.hi d.bound.lo = false := by
    rw [bound, Exact.lt_eq]
    simpa [Bound.between, Exact.below] using ordered
  rcases kind with kind | kind <;>
    simp [checkedBound, inhabited, kind, finite, upright]

/-- Over exact numbers, whatever variables were declared, a chromosome of the right length
with genes of the unit interval that decodes is written back as a chromosome of the right
length, which decodes to the same solution and has the same genes for every real variable
whose bound is not a point. It does decode unless the variables are longer than all words
together. -/
theorem encode_inverts_decode (ds : List (Declaration (Exact K)))
    (chromosome : List (Exact K)) (length : chromosome.length = (afterAll ds).genes)
    (unit : ∀ g ∈ chromosome, Scalar.le Scalar.zero g = true ∧ Scalar.le g Scalar.one = true) :
    ((afterAll ds).demand < wordCount → ∃ s, (afterAll ds).decode chromosome = .ok s) ∧
    ∀ s, (afterAll ds).decode chromosome = .ok s →
      ∃ written, (afterAll ds).encode s = .ok written ∧
        written.length = (afterAll ds).genes ∧ (afterAll ds).decode written = .ok s ∧
        ∀ v ∈ (afterAll ds).declared, v.kind = .continuous ∨ v.kind = .positive →
          Scalar.lt v.bound.lo v.bound.hi = true →
          ∀ gene, v.start ≤ gene → gene < v.stop → written[gene]? = chromosome[gene]? := by
  have laid : (afterAll ds).Laid := Laid.afterAll ds
  refine ⟨fun fits => laid.exists_decode fits length, fun s ran => ?_⟩
  have decoded := laid.decode_ok ran
  have units {v : Variable (Exact K)} {genes : List (Exact K)}
      (read : v.stretchOf chromosome = .ok genes) :
      ∀ g ∈ genes, ∃ x, g = .finite x ∧ 0 ≤ x ∧ x ≤ 1 :=
    fun g member => Exact.unit_iff.mp (unit g ((Variable.stretchOf_ok read).2.2.2 g member))
  obtain ⟨written, encoded, length', parts⟩ := laid.encode_ok ran
  refine ⟨written, encoded, length', ?_, ?_⟩
  · rw [← ran]
    refine decodeOnto_congr fun v member => ?_
    obtain ⟨genes, read, size, _, _⟩ := decoded v member
    obtain ⟨d, checked, _⟩ := laid.checked v member
    have small : genes.length ≤ wordCount := size ▸ (wrap_lt _).le
    rw [parts v member, Variable.recoded_eq read, read]
    exact congrArg Except.ok
      (Variable.decode_encode_decode (checkedBound_proper checked) (units read) small)
  · intro v member real wide gene from_start below
    obtain ⟨genes, read, _, _, _⟩ := decoded v member
    obtain ⟨d, checked, _⟩ := laid.checked v member
    obtain ⟨lo, hi, bound, _⟩ := checkedBound_proper checked
    rw [bound, Bound.between, Exact.lt_eq] at wide
    have back : v.recoded chromosome = genes := (Variable.recoded_eq read).trans
      (Variable.encode_decode real bound (by simpa [Exact.below] using wide) (units read))
    exact Variable.getElem?_of_stretchOf read (back ▸ parts v member) from_start below

/-- Two amounts. -/
def amounts : Declaration (Exact ℚ) := ⟨"x", .continuous, .vector 2, .between 0 10⟩

/-- A whole number between 0.2 and 0.4. -/
def squeezed : Declaration (Exact ℚ) := ⟨"k", .integer, .scalar, .between (1 / 5) (2 / 5)⟩

/-- An order of three things. -/
def order : Declaration (Exact ℚ) := ⟨"p", .sequence, .vector 3, .unit⟩

/-- The registry of the three variables. -/
def mixed : Registry (Exact ℚ) :=
  ((empty.extended amounts amounts.bound).extended squeezed squeezed.bound).extended order
    (.between 0 2)

theorem afterAll_mixed : afterAll [amounts, squeezed, order] = mixed := by
  have first : empty.after amounts = empty.extended amounts amounts.bound :=
    after_accepted (by simp [empty])
      (checkedBound_of_proper rfl (.inl rfl) ⟨0, 10, rfl, by norm_num⟩)
  have second : (empty.extended amounts amounts.bound).after squeezed =
      (empty.extended amounts amounts.bound).extended squeezed squeezed.bound :=
    after_accepted (by simp [empty, extended, amounts, squeezed])
      (checkedBound_of_proper rfl (.inr rfl) ⟨1 / 5, 2 / 5, rfl, by norm_num⟩)
  rw [afterAll, List.foldl_cons, List.foldl_cons, List.foldl_cons, List.foldl_nil, first, second]
  exact after_accepted (by simp [empty, extended, amounts, squeezed, order]) rfl

/-- The whole number is rounded out of its bound and comes back all the same, and so do
the genes of the two amounts. -/
theorem encode_inverts_decode_mixed :
    ∃ s written,
      (afterAll [amounts, squeezed, order]).decode
        ([1 / 4, 1, 1 / 2, 1 / 2, 0, 1].map Exact.finite) = .ok s ∧
      s.get? "k" [] = some (.finite 0) ∧
      (afterAll [amounts, squeezed, order]).encode s = .ok written ∧
      (afterAll [amounts, squeezed, order]).decode written = .ok s ∧
      written[0]? = some (.finite (1 / 4)) := by
  have declared := afterAll_mixed
  obtain ⟨exists_solution, back⟩ :=
    encode_inverts_decode [amounts, squeezed, order]
      ([1 / 4, 1, 1 / 2, 1 / 2, 0, 1].map Exact.finite) (by rw [declared]; rfl) (by decide +kernel)
  obtain ⟨s, ran⟩ := exists_solution (by rw [declared]; decide +kernel)
  obtain ⟨written, encoded, _, again, kept⟩ := back s ran
  refine ⟨s, written, ran, ?_, encoded, again, ?_⟩
  · rw [declared] at ran
    obtain ⟨genes, read, _, _, held⟩ := (declared ▸ Laid.afterAll _).decode_ok ran
      ⟨squeezed, 1, 2, 3⟩ (.tail _ (.head _))
    cases Variable.stretchOf_eq read
    have held : s.var? "k" = _ := held
    simp only [Solution.get?, held]
    decide +kernel
  · rw [kept ⟨amounts, 0, 0, 2⟩ (by rw [declared]; exact .head _) (.inl rfl) (by decide +kernel) 0
      (Nat.le_refl _) (by decide)]
    rfl

end Registry
end Metaheuristic
