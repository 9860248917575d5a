/-
Reading a computation in `Except` backwards.

A transaction is a sequence of reads, guards and writes, each of which may stop
it. Its inversion lemma (*if it committed, then every guard held and every write
went through*) is obtained by peeling the sequence from the front, one bind or
one guard at a time. The lemmas here are the peeling steps, stated as
equivalences so that a whole body can be opened by one `simp only`.

The dual reading (*which step can have failed*) is used for the statements that
a branch is never taken.
-/
import Mathlib.Logic.Basic

namespace Fallible

variable {ε α β : Type}
variable {a : α} {f : α → Except ε β} {e e' : ε} {x y : Except ε α} {c : Bool} {o : Option α}

/-- A guard: go on if `c`, else fail with `e`. -/
def ensure (c : Bool) (e : ε) : Except ε Unit := if c then .ok () else .error e

/-- A read that must find something. -/
def orFail (o : Option α) (e : ε) : Except ε α := o.elim (.error e) .ok

theorem ok_bind : ((.ok a : Except ε α) >>= f) = f a := rfl

theorem error_bind : ((.error e : Except ε α) >>= f) = .error e := rfl

theorem bind_eq_ok {b : β} :
    (x >>= f) = .ok b ↔ ∃ a, x = .ok a ∧ f a = .ok b := by
  cases x with
  | error | ok => simp [bind, Except.bind]

theorem bind_eq_error :
    (x >>= f) = .error e ↔ x = .error e ∨ ∃ a, x = .ok a ∧ f a = .error e := by
  cases x with
  | error | ok => simp [bind, Except.bind]

theorem pure_eq_ok {b : α} : (pure a : Except ε α) = .ok b ↔ a = b := by
  simp [pure, Except.pure]

theorem pure_ne_error : (pure a : Except ε α) = .error e ↔ False := by
  simp [pure, Except.pure]

theorem ensure_eq_ok {u : Unit} : ensure c e = .ok u ↔ c = true := by
  cases c <;> simp [ensure]

theorem ensure_eq_error :
    ensure c e = .error e' ↔ c = false ∧ e = e' := by
  cases c <;> simp [ensure]

theorem orFail_eq_ok : orFail o e = .ok a ↔ o = some a := by
  cases o <;> simp [orFail]

theorem orFail_eq_error :
    orFail o e = .error e' ↔ o = none ∧ e = e' := by
  cases o <;> simp [orFail]

/-- A branch that succeeded, told apart by its condition. -/
theorem ite_eq_ok {c : Prop} [Decidable c] :
    (if c then x else y) = .ok a ↔ (c ∧ x = .ok a) ∨ (¬ c ∧ y = .ok a) := by
  split <;> simp [*]

theorem ite_eq_error {c : Prop} [Decidable c] :
    (if c then x else y) = .error e ↔ (c ∧ x = .error e) ∨ (¬ c ∧ y = .error e) := by
  split <;> simp [*]

/-! ## What a computation can fail with -/

/-- Whatever `x` fails with satisfies `P`. -/
def Throws (P : ε → Prop) (x : Except ε α) : Prop := ∀ e, x = .error e → P e

namespace Throws

variable {P : ε → Prop}

theorem pure (a : α) : Throws P (Pure.pure a : Except ε α) := fun _ h => (pure_ne_error.mp h).elim

theorem bind {x : Except ε α} {f : α → Except ε β} (hx : Throws P x) (hf : ∀ a, Throws P (f a)) :
    Throws P (x >>= f) := by
  intro e h
  rcases bind_eq_error.mp h with h | ⟨a, -, h⟩
  · exact hx e h
  · exact hf a e h

theorem ite {c : Prop} [Decidable c] {x y : Except ε α} (hx : Throws P x) (hy : Throws P y) :
    Throws P (if c then x else y) := by
  split
  · exact hx
  · exact hy

theorem ensure {c : Bool} {e : ε} (h : P e) : Throws P (ensure c e) := by
  intro e' he
  exact (ensure_eq_error.mp he).2 ▸ h

theorem orFail {o : Option α} {e : ε} (h : P e) : Throws P (orFail o e) := by
  intro e' he
  exact (orFail_eq_error.mp he).2 ▸ h

end Throws

end Fallible
