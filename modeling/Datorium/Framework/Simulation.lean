
import Mathlib.Data.List.Basic
namespace Datorium.Framework
variable {σ τ ι ο : Type}
def answers (step : σ → ι → ο × σ) : σ → List ι → List ο × σ
  | s, [] => ([], s)
  | s, i :: is =>
    let rest := answers step (step s i).2 is
    ((step s i).1 :: rest.1, rest.2)

def Guarded (step : σ → ι → ο × σ) (guard : σ → ι → Prop) : σ → List ι → Prop
  | _, [] => True
  | s, i :: is => guard s i ∧ Guarded step guard (step s i).2 is

inductive Accepts (spec : τ → ι → ο → τ → Prop) : τ → List ι → List ο → τ → Prop where
  | nil (t : τ) : Accepts spec t [] [] t
  | cons {t t' t'' : τ} {i : ι} {o : ο} {is : List ι} {os : List ο} (head : spec t i o t')
      (tail : Accepts spec t' is os t'') : Accepts spec t (i :: is) (o :: os) t''

variable {step : σ → ι → ο × σ} {spec : τ → ι → ο → τ → Prop} {guard : σ → ι → Prop}
  {R : σ → τ → Prop}
theorem Guarded.take {inputs : List ι} {s : σ} (h : Guarded step guard s inputs) (n : ℕ) :
    Guarded step guard s (inputs.take n) := by
  induction inputs generalizing s n with
  | nil =>
    rw [List.take_nil]
    trivial
  | cons i is ih =>
    cases n with
    | zero => trivial
    | succ n => exact ⟨h.1, ih h.2 n⟩

theorem accepts_of_simulation
    (hstep : ∀ s t i, R s t → guard s i → ∃ t', spec t i (step s i).1 t' ∧ R (step s i).2 t')
    (inputs : List ι) {s : σ} {t : τ} (hst : R s t) (hguard : Guarded step guard s inputs) :
    ∃ t', Accepts spec t inputs (answers step s inputs).1 t' ∧ R (answers step s inputs).2 t' := by
  induction inputs generalizing s t with
  | nil => exact ⟨t, .nil t, hst⟩
  | cons i is ih =>
    obtain ⟨t₁, hspec, hnext⟩ := hstep s t i hst hguard.1
    obtain ⟨t', htail, hlast⟩ := ih hnext hguard.2
    exact ⟨t', .cons hspec htail, hlast⟩
end Datorium.Framework
