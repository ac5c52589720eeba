
import Datorium.Framework.Program
/-! # Until -/
namespace Datorium.Framework
variable {σ : Type} {hold goal : σ → Prop}
/-- Along the states, `hold` until the first one in which the goal is reached. -/
def Until (hold goal : σ → Prop) : List σ → Prop
  | [] => True
  | s :: states => goal s ∨ (hold s ∧ Until hold goal states)

theorem until_of_forall {states : List σ} (h : ∀ s ∈ states, hold s) : Until hold goal states := by
  induction states with
  | nil => trivial
  | cons s states ih =>
    exact .inr ⟨h s List.mem_cons_self, ih fun t ht => h t (List.mem_cons_of_mem _ ht)⟩

theorem until_append {states states' : List σ} : Until hold goal (states ++ states') ↔
    Until hold goal states ∧ ((∃ s ∈ states, goal s) ∨ Until hold goal states') := by
  induction states with
  | nil => simp [Until]
  | cons s states ih =>
    simp only [List.cons_append, Until, ih, List.exists_mem_cons_iff]
    by_cases hgoal : goal s
    · simp [hgoal]
    · simp [hgoal, and_assoc]

theorem Until.head {s : σ} {states : List σ} (h : Until hold goal (s :: states)) :
    goal s ∨ hold s := h.imp_right And.left

namespace Program
variable {Op : Type} {Res : Op → Type} {α β : Type} {h : Handler Op Res σ}
theorem visited_bind (p : Program Op Res α) (f : α → Program Op Res β) (s : σ) :
    visited h (bind p f) s =
      (stops h p s).map Prod.snd ++ visited h (f (run h p s).1) (run h p s).2 := by
  induction p generalizing s with
  | done a => rfl
  | call op next ih => simp [ih]

theorem visited_eq_stops (p : Program Op Res α) (s : σ) :
    visited h p s = (stops h p s).map Prod.snd ++ [(run h p s).2] := by
  induction p generalizing s with
  | done a => rfl
  | call op next ih => simp [ih]

theorem visited_eq_cons (p : Program Op Res α) (s : σ) : ∃ states, visited h p s = s :: states := by
  cases p with
  | done a => exact ⟨[], rfl⟩
  | call op next => exact ⟨_, rfl⟩

theorem self_mem_visited (p : Program Op Res α) (s : σ) : s ∈ visited h p s := by
  obtain ⟨states, hstates⟩ := @visited_eq_cons σ Op Res α h p s
  rw [hstates]
  exact List.mem_cons_self

theorem related_of_only {P : Op → Prop} {R : σ → σ → Prop} {p : Program Op Res α} (hp : Only P p)
    (hstep : ∀ op s t, P op → R s t → (h op s).1 = (h op t).1 ∧ R (h op s).2 (h op t).2) {s t : σ}
    (hst : R s t) : ∀ u ∈ visited h p s, ∃ v ∈ visited h p t, R u v := by
  induction p generalizing s t with
  | done a =>
    intro u hu
    rw [visited_done, List.mem_singleton] at hu
    exact ⟨t, List.mem_singleton_self t, hu ▸ hst⟩
  | call op next ih =>
    obtain ⟨hanswer, hnext⟩ := hstep op s t hp.1 hst
    intro u hu
    rw [visited_call, List.mem_cons] at hu
    rcases hu with rfl | hu
    · exact ⟨t, List.mem_cons_self, hst⟩
    · rw [hanswer] at hu
      obtain ⟨v, hv, huv⟩ := ih _ (hp.2 _) hnext u hu
      exact ⟨v, List.mem_cons_of_mem _ hv, huv⟩
end Program
end Datorium.Framework
