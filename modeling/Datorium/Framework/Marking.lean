
import Mathlib.Data.List.Nodup
import Mathlib.Logic.Function.Basic
namespace Datorium.Framework
variable {α β : Type} [DecidableEq α]
def mark (marked : α → Bool) (a : α) : Except α (α → Bool) :=
  if marked a then .error a else .ok (Function.update marked a true)

theorem foldlM_mark_eq_ok (points : List α) (marked final : α → Bool) :
    points.foldlM mark marked = .ok final ↔ points.Nodup ∧ (∀ a ∈ points, marked a = false) ∧
        final = fun a => marked a || decide (a ∈ points) := by
  induction points generalizing marked with
  | nil =>
    simp only [List.foldlM_nil, List.nodup_nil, List.not_mem_nil, decide_false, Bool.or_false,
      true_and]
    exact ⟨fun h => ⟨by simp, (Except.ok.inj h).symm⟩, fun h => by rw [h.2]; rfl⟩
  | cons a points ih =>
    cases ha : marked a with
    | true =>
      have hstop : (a :: points).foldlM mark marked = .error a := by
        simp only [List.foldlM_cons, mark, ha, if_true]
        rfl
      rw [hstop]
      constructor
      · intro h
        cases h
      · rintro ⟨-, hfree, -⟩
        rw [hfree a List.mem_cons_self] at ha
        cases ha
    | false =>
      have hgo : (a :: points).foldlM mark marked =
          points.foldlM mark (Function.update marked a true) := by
        simp only [List.foldlM_cons, mark, ha, Bool.false_eq_true, if_false]
        rfl
      rw [hgo, ih, List.nodup_cons]
      have hmarked : (fun b => Function.update marked a true b || decide (b ∈ points)) =
          fun b => marked b || decide (b ∈ a :: points) := by
        funext b
        by_cases hb : b = a
        · simp [hb]
        · simp [hb]
      rw [hmarked]
      constructor
      · rintro ⟨hnodup, hfree, hfinal⟩
        refine ⟨⟨fun hmem => ?_, hnodup⟩, fun b hb => ?_, hfinal⟩
        · have hself := hfree a hmem
          rw [Function.update_self] at hself
          cases hself
        · by_cases hba : b = a
          · rw [hba, ha]
          · have hother := hfree b ((List.mem_cons.mp hb).resolve_left hba)
            rwa [Function.update_of_ne hba] at hother
      · rintro ⟨⟨hnew, hnodup⟩, hfree, hfinal⟩
        refine ⟨hnodup, fun b hb => ?_, hfinal⟩
        have hba : b ≠ a := fun h => hnew (h ▸ hb)
        rw [Function.update_of_ne hba]
        exact hfree b (List.mem_cons_of_mem _ hb)

theorem foldlM_mark_flatMap (blocks : List β) (points : β → List α) (marked : α → Bool) :
    blocks.foldlM (fun marked b => (points b).foldlM mark marked) marked =
      (blocks.flatMap points).foldlM mark marked := by
  induction blocks generalizing marked with
  | nil => rfl
  | cons b blocks ih =>
    rw [List.foldlM_cons, List.flatMap_cons, List.foldlM_append]
    cases (points b).foldlM mark marked with
    | error a => rfl
    | ok marked' => exact ih marked'
end Datorium.Framework
