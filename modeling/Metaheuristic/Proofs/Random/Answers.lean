import Metaheuristic.Proofs.Random.Draw

/-! Draws that are always answered. A draw faults only when it makes no sense, so a
computation whose draws all make sense has an answer wherever the source stands. What is
drawn then depends on the source, which has to keep to the ranges it is asked for. -/
namespace Metaheuristic

/-- A source that keeps to its ranges: numbers below a bound are below it, and a sample
from at most `limit` numbers has as many of them as it was asked for. -/
structure RandomSource.InRange (ρ : Type) {α : Type} [RandomSource ρ α] (limit : Nat) : Prop where
  index : ∀ {n : Nat} (s : ρ), 0 < n → (RandomSource.index n s).1 < n
  sample : ∀ {bound count : Nat} (s : ρ), bound ≤ limit → count ≤ bound →
    (RandomSource.sample bound count s).1.length = count ∧
      ∀ k ∈ (RandomSource.sample bound count s).1, k < bound

theorem RandomSource.InRange.mono {ρ α : Type} [RandomSource ρ α] {limit limit' : Nat}
    (inRange : InRange ρ limit) (smaller : limit' ≤ limit) : InRange ρ limit' :=
  ⟨inRange.index, fun s small => inRange.sample s (Nat.le_trans small smaller)⟩

/-- A sequence goes on from where its first computation succeeded. -/
theorem run_bind_of_ok {σ ε β γ : Type} {x : ExceptT ε (StateM σ) β}
    {f : β → ExceptT ε (StateM σ) γ} {s s' : σ} {b : β} (ran : x.run.run s = (.ok b, s')) :
    (x >>= f).run.run s = (f b).run.run s' := by
  rw [ExceptT.run_bind, StateT.run_bind, ran]
  rfl

/-- A computation that fails keeps what comes after it from happening. -/
theorem run_bind_of_error {σ ε β γ : Type} {x : ExceptT ε (StateM σ) β}
    {f : β → ExceptT ε (StateM σ) γ} {s s' : σ} {e : ε} (failed : x.run.run s = (.error e, s')) :
    (x >>= f).run.run s = (.error e, s') := by
  rw [ExceptT.run_bind, StateT.run_bind, failed]
  rfl

namespace Draw

variable {ρ β γ : Type}

/-- A result that needs no draw is there at once. -/
theorem run_ofExcept {r : Except Fault β} {b : β} (ran : r = .ok b) (f : β → Draw ρ γ) (s : ρ) :
    (ofExcept r >>= f).run.run s = (f b).run.run s := by
  rw [ran]
  rfl

/-- From every state of the source the computation answers a value with the property. -/
def Answers (d : Draw ρ β) (Q : β → Prop) : Prop :=
  ∀ s, ∃ b s', d.run.run s = (.ok b, s') ∧ Q b

namespace Answers

variable {Q Q' : β → Prop} {R : γ → Prop} {d : Draw ρ β}

theorem pure {b : β} (holds : Q b) : Answers (Pure.pure b : Draw ρ β) Q :=
  fun s => ⟨b, s, rfl, holds⟩

theorem ofExcept {r : Except Fault β} (ran : ∃ b, r = .ok b ∧ Q b) :
    Answers (Draw.ofExcept r : Draw ρ β) Q := by
  obtain ⟨b, rfl, holds⟩ := ran
  exact fun s => ⟨b, s, rfl, holds⟩

theorem bind {f : β → Draw ρ γ} (first : Answers d Q) (second : ∀ b, Q b → Answers (f b) R) :
    Answers (d >>= f) R := by
  intro s
  obtain ⟨b, s', begun, holds⟩ := first s
  obtain ⟨c, s'', ended, done⟩ := second b holds s'
  exact ⟨c, s'', (run_bind_of_ok begun).trans ended, done⟩

theorem weaken (answers : Answers d Q) (after : ∀ b, Q b → Q' b) : Answers d Q' := by
  intro s
  obtain ⟨b, s', ran, holds⟩ := answers s
  exact ⟨b, s', ran, after b holds⟩

/-- A computation has one answer from a state of the source, so it has both properties. -/
theorem and (first : Answers d Q) (second : Answers d Q') : Answers d fun b => Q b ∧ Q' b := by
  intro s
  obtain ⟨b, s', ran, holds⟩ := first s
  obtain ⟨b', s'', same, holds'⟩ := second s
  rw [ran] at same
  cases same
  exact ⟨b, s', ran, holds, holds'⟩

/-- An answer has whatever every answer has. -/
theorem and_yields (answers : Answers d Q) (yields : Yields d Q') :
    Answers d fun b => Q b ∧ Q' b := by
  intro s
  obtain ⟨b, s', ran, holds⟩ := answers s
  exact ⟨b, s', ran, holds, yields s b s' trivial ran⟩

private theorem step {f : ρ → β × ρ} (holds : ∀ s, Q (f s).1) : Answers (Draw.step f) Q :=
  fun s => ⟨(f s).1, (f s).2, rfl, holds s⟩

variable {α : Type} [RandomSource ρ α]

theorem unit : Answers (Draw.unit : Draw ρ α) fun _ => True := step fun _ => trivial

theorem walk [Scalar α] : Answers (Draw.walk : Draw ρ α) fun _ => True := step fun _ => trivial

theorem between [Scalar α] {lo hi : α} (ordered : Scalar.lt lo hi = true)
    (finite : Scalar.isFinite (hi - lo) = true) :
    Answers (Draw.between lo hi : Draw ρ α) fun _ => True := by
  rw [Draw.between, if_pos (by simp [ordered, finite])]
  exact step fun _ => trivial

theorem chance [Scalar α] {p : α} (lower : Scalar.le Scalar.zero p = true)
    (upper : Scalar.le p Scalar.one = true) :
    Answers (Draw.chance p : Draw ρ Bool) fun _ => True := by
  rw [Draw.chance, if_pos (by simp [lower, upper])]
  exact step fun _ => trivial

theorem index {limit n : Nat} (inRange : RandomSource.InRange ρ limit) (positive : 0 < n) :
    Answers (Draw.index n : Draw ρ Nat) fun k => k < n := by
  rw [Draw.index, if_neg (Nat.ne_of_gt positive)]
  exact step fun s => inRange.index s positive

theorem sample {limit bound count : Nat} (inRange : RandomSource.InRange ρ limit)
    (small : bound ≤ limit) (enough : count ≤ bound) :
    Answers (Draw.sample bound count : Draw ρ (List Nat)) fun picks =>
      picks.length = count ∧ ∀ k ∈ picks, k < bound := by
  rw [Draw.sample, if_neg (Nat.not_lt.mpr enough)]
  exact step fun s => inRange.sample s small enough

end Answers
end Draw
end Metaheuristic
