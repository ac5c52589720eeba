
import Mathlib.Data.Set.Basic
/-! # Derived places and the net difference -/
namespace Datorium.Framework
/-- An object, the version preserved since its last distribution, whether work is queued for it, and
its places. -/
structure Tracked (V B : Type) where
  live : Option V
  base : Option V
  queued : Prop
  places : Set B

namespace Tracked
variable {V B : Type} (eval : V → Set B)
def derived (v : Option V) : Set B := {b | ∃ x, v = some x ∧ b ∈ eval x}

def commit (s : Tracked V B) (new : Option V) : Tracked V B :=
  { live := new, base := s.base.or s.live, queued := True, places := s.places }

structure Begun (s t : Tracked V B) : Prop where
  live : t.live = s.live
  base : t.base = s.base
  gained : t.places ⊆ s.places ∪ derived eval s.live

structure Distributed (s t : Tracked V B) : Prop where
  live : t.live = s.live
  base : t.base = none
  places : t.places = derived eval s.live ∪ (s.places \ derived eval s.base)

/-- The places are those of the version distributed last, or some of them; where no work is queued
they are those of the live version. -/
structure Coherent (s : Tracked V B) : Prop where
  places : s.places ⊆ derived eval (s.base.or s.live)
  pending : s.base ≠ none → s.queued
  settled : ¬ s.queued → s.places = derived eval s.live

structure Recoverable (s : Tracked V B) : Prop where
  places : s.places ⊆ derived eval s.base ∪ derived eval s.live
  pending : s.base ≠ none → s.queued
  settled : ¬ s.queued → s.places = derived eval s.live

variable {eval} {s t : Tracked V B}
@[simp] theorem derived_none : derived eval none = ∅ := by
  ext b
  simp [derived]

@[simp] theorem mem_derived_some {v : V} {b : B} : b ∈ derived eval (some v) ↔ b ∈ eval v := by
  simp [derived]

theorem Coherent.recoverable (h : s.Coherent eval) : s.Recoverable eval where
  places := by
    intro b hb
    have hbase := h.places hb
    cases hs : s.base with
    | none =>
      rw [hs, Option.none_or] at hbase
      exact .inr hbase
    | some v =>
      rw [hs, Option.some_or] at hbase
      exact .inl hbase
  pending := h.pending
  settled := h.settled

theorem coherent_empty (hlive : s.live = none) (hbase : s.base = none) (hplaces : s.places = ∅) :
    s.Coherent eval where
  places := by simp [hplaces]
  pending h := absurd hbase h
  settled _ := by rw [hplaces, hlive, derived_none]

theorem Coherent.commit (h : s.Coherent eval) (new : Option V) : (s.commit new).Coherent eval where
  places := by
    intro b hb
    have hold := h.places hb
    cases hs : s.base.or s.live with
    | none => simp [hs] at hold
    | some v =>
      rw [hs] at hold
      simpa [Tracked.commit, hs] using hold
  pending _ := trivial
  settled hq := absurd trivial hq

theorem Recoverable.distributed (h : s.Recoverable eval) (hst : Distributed eval s t) :
    t.places = derived eval t.live := by
  rw [hst.places, hst.live]
  apply Set.union_eq_self_of_subset_right
  rintro b ⟨hb, hold⟩
  exact (h.places hb).resolve_left hold

theorem Distributed.coherent (hst : Distributed eval s t) (h : s.Recoverable eval) :
    t.Coherent eval where
  places := by
    rw [h.distributed hst, hst.base, Option.none_or]
  pending hbase := absurd hst.base hbase
  settled _ := h.distributed hst

theorem Begun.recoverable (hst : Begun eval s t) (h : s.Recoverable eval) (hq : t.queued) :
    t.Recoverable eval where
  places := by
    intro b hb
    rw [hst.base, hst.live]
    rcases hst.gained hb with hold | hnew
    · exact h.places hold
    · exact .inr hnew
  pending _ := hq
  settled hn := absurd hq hn
end Tracked
end Datorium.Framework
