
import Mathlib.Data.List.Forall2
/-! # Insertion at the first place that fits -/
namespace Datorium.Framework
variable {α β : Type*}
def insertBefore (p : α → Bool) (x : α) : List α → List α
  | [] => [x]
  | y :: ys => if p y then x :: y :: ys else y :: insertBefore p x ys

theorem insertBefore_perm (p : α → Bool) (x : α) (ys : List α) :
    (insertBefore p x ys).Perm (x :: ys) := by
  induction ys with
  | nil => exact .refl _
  | cons y ys ih =>
    rw [insertBefore]
    split
    · exact .refl _
    · exact (ih.cons y).trans (.swap x y ys)

theorem map_insertBefore (f : α → β) (p : β → Bool) (x : α) (ys : List α) :
    (insertBefore (fun y => p (f y)) x ys).map f = insertBefore p (f x) (ys.map f) := by
  induction ys with
  | nil => rfl
  | cons y ys ih =>
    simp only [insertBefore, List.map_cons]
    split
    · rfl
    · rw [List.map_cons, ih]

theorem insertBefore_congr {p q : α → Bool} {ys : List α} (h : ∀ y ∈ ys, p y = q y) (x : α) :
    insertBefore p x ys = insertBefore q x ys := by
  induction ys with
  | nil => rfl
  | cons y ys ih =>
    rw [insertBefore, insertBefore, h y List.mem_cons_self,
      ih fun y' hy' => h y' (List.mem_cons_of_mem _ hy')]

theorem pairwise_insertBefore {lt : α → α → Prop} {p : α → Bool} {x : α} {ys : List α}
    (hirrefl : ∀ y ∈ ys, ¬ lt y y) (hp : ∀ y ∈ ys, p y = true ↔ lt x y)
    (htrans : ∀ y ∈ ys, ∀ z ∈ ys, lt z x → lt x y → lt z y)
    (hys : ys.Pairwise fun a b => ¬ lt b a) :
    (insertBefore p x ys).Pairwise fun a b => ¬ lt b a := by
  induction ys with
  | nil => simp [insertBefore]
  | cons y ys ih =>
    obtain ⟨hy, hrest⟩ := List.pairwise_cons.mp hys
    rw [insertBefore]
    split
    · -- everything behind the first larger element is not smaller than it
      rename_i hfirst
      have hlt : lt x y := (hp y List.mem_cons_self).mp hfirst
      refine List.pairwise_cons.mpr ⟨fun z hz hzx => ?_, hys⟩
      have hzy : lt z y := htrans y List.mem_cons_self z hz hzx hlt
      rcases List.mem_cons.mp hz with rfl | hz
      · exact hirrefl z List.mem_cons_self hzy
      · exact hy z hz hzy
    · rename_i hfirst
      refine List.pairwise_cons.mpr ⟨fun z hz => ?_, ih ?_ ?_ ?_ hrest⟩
      · rcases List.mem_cons.mp ((insertBefore_perm p x ys).mem_iff.mp hz) with rfl | hz
        · exact fun h => hfirst ((hp y List.mem_cons_self).mpr h)
        · exact hy z hz
      · exact fun y' hy' => hirrefl y' (List.mem_cons_of_mem _ hy')
      · exact fun y' hy' => hp y' (List.mem_cons_of_mem _ hy')
      · exact fun y' hy' z hz =>
          htrans y' (List.mem_cons_of_mem _ hy') z (List.mem_cons_of_mem _ hz)

structure Orders (cmp : α → α → Int) (S : α → Prop) : Prop where
  swap : ∀ a b, S a → S b → (cmp a b < 0 ↔ 0 < cmp b a)
  trans : ∀ a b c, S a → S b → S c → cmp a b ≤ 0 → cmp b c ≤ 0 → cmp a c ≤ 0

namespace Orders
variable {cmp : α → α → Int} {S : α → Prop} {a b c : α}
theorem self_eq (h : Orders cmp S) (ha : S a) : cmp a a = 0 := by
  have hswap := h.swap a a ha ha
  omega

theorem eq_swap (h : Orders cmp S) (ha : S a) (hb : S b) (heq : cmp a b = 0) : cmp b a = 0 := by
  have h1 := h.swap a b ha hb
  have h2 := h.swap b a hb ha
  omega

theorem lt_of_lt_of_le (h : Orders cmp S) (ha : S a) (hb : S b) (hc : S c) (hab : cmp a b < 0)
    (hbc : cmp b c ≤ 0) : cmp a c < 0 := by
  by_contra hac
  have hca : cmp c a ≤ 0 := by
    have hswap := h.swap a c ha hc
    have hswap' := h.swap c a hc ha
    omega
  have hba := h.trans b c a hb hc ha hbc hca
  have hswap := h.swap a b ha hb
  omega

theorem lt_of_le_of_lt (h : Orders cmp S) (ha : S a) (hb : S b) (hc : S c) (hab : cmp a b ≤ 0)
    (hbc : cmp b c < 0) : cmp a c < 0 := by
  by_contra hac
  have hca : cmp c a ≤ 0 := by
    have hswap := h.swap a c ha hc
    have hswap' := h.swap c a hc ha
    omega
  have hcb := h.trans c a b hc ha hb hca hab
  have hswap := h.swap b c hb hc
  omega

theorem neg (h : Orders cmp S) : Orders (fun a b => -cmp a b) S where
  swap a b ha hb := by
    have hswap := h.swap b a hb ha
    omega
  trans a b c ha hb hc hab hbc := by
    have h1 := h.swap a b ha hb
    have h2 := h.swap b a hb ha
    have h3 := h.swap b c hb hc
    have h4 := h.swap c b hc hb
    have h5 := h.swap a c ha hc
    have h6 := h.swap c a hc ha
    have hca := h.trans c b a hc hb ha (by omega) (by omega)
    omega

theorem congr (h : Orders cmp S) {cmp' : α → α → Int}
    (heq : ∀ a b, S a → S b → cmp' a b = cmp a b) : Orders cmp' S where
  swap a b ha hb := by
    rw [heq a b ha hb, heq b a hb ha]
    exact h.swap a b ha hb
  trans a b c ha hb hc := by
    rw [heq a b ha hb, heq b c hb hc, heq a c ha hc]
    exact h.trans a b c ha hb hc

theorem image {f : β → α} {cmp : β → β → Int} {cmp' : α → α → Int} {S : α → Prop}
    (h : Orders cmp fun _ => True) (hS : ∀ a, S a → ∃ x, a = f x)
    (heq : ∀ x y, cmp' (f x) (f y) = cmp x y) : Orders cmp' S where
  swap a b ha hb := by
    obtain ⟨x, rfl⟩ := hS a ha
    obtain ⟨y, rfl⟩ := hS b hb
    rw [heq, heq]
    exact h.swap x y trivial trivial
  trans a b c ha hb hc := by
    obtain ⟨x, rfl⟩ := hS a ha
    obtain ⟨y, rfl⟩ := hS b hb
    obtain ⟨z, rfl⟩ := hS c hc
    rw [heq, heq, heq]
    exact h.trans x y z trivial trivial trivial

theorem ranked {rank : α → Int} (h : ∀ r, Orders cmp fun a => S a ∧ rank a = r) :
    Orders (fun a b => if rank a ≠ rank b then rank a - rank b else cmp a b) S where
  swap a b ha hb := by
    by_cases hab : rank a = rank b
    · simpa [hab] using (h (rank b)).swap a b ⟨ha, hab⟩ ⟨hb, rfl⟩
    · simp only [ne_eq, hab, Ne.symm hab, not_false_eq_true, if_true]
      omega
  trans a b c ha hb hc hab hbc := by
    by_cases h1 : rank a = rank b
    · by_cases h2 : rank b = rank c
      · rw [if_neg (not_not.mpr h1)] at hab
        rw [if_neg (not_not.mpr h2)] at hbc
        rw [if_neg (not_not.mpr (h1.trans h2))]
        exact (h (rank c)).trans a b c ⟨ha, h1.trans h2⟩ ⟨hb, h2⟩ ⟨hc, rfl⟩ hab hbc
      · rw [if_pos h2] at hbc
        rw [if_pos (h1 ▸ h2)]
        omega
    · rw [if_pos h1] at hab
      have hle : rank b ≤ rank c := by
        by_cases h2 : rank b = rank c
        · omega
        · rw [if_pos h2] at hbc
          omega
      have hne : rank a ≠ rank c := by omega
      rw [if_pos hne]
      omega
end Orders

variable {ι : Type*}
def compareBy (cmp : ι → α → α → Int) : List ι → List α → List α → Int
  | i :: is, a :: as, b :: bs => if cmp i a b ≠ 0 then cmp i a b else compareBy cmp is as bs
  | _, _, _ => 0

theorem compareBy_map {κ : Type*} (f : κ → ι) (cmp : ι → α → α → Int) (ks : List κ)
    (as bs : List α) : compareBy cmp (ks.map f) as bs = compareBy (fun k => cmp (f k)) ks as bs := by
  induction ks generalizing as bs with
  | nil => rfl
  | cons k ks ih =>
    cases as with
    | nil => rfl
    | cons a as =>
      cases bs with
      | nil => rfl
      | cons b bs => simp only [List.map_cons, compareBy, ih]

theorem Orders.compareBy {cmp : ι → α → α → Int} {S : ι → α → Prop} {is : List ι}
    (h : ∀ i ∈ is, Orders (cmp i) (S i)) :
    Orders (compareBy cmp is) (fun as => List.Forall₂ S is as) := by
  induction is with
  | nil =>
    refine ⟨?_, ?_⟩
    · intro as bs has hbs
      simp [Framework.compareBy]
    · intro as bs cs has hbs hcs _ _
      simp [Framework.compareBy]
  | cons i is ih =>
    have hi := h i List.mem_cons_self
    have ih := ih fun j hj => h j (List.mem_cons_of_mem _ hj)
    refine ⟨?_, ?_⟩
    · intro as bs has hbs
      obtain ⟨a, as', ha, has', rfl⟩ := List.forall₂_cons_left_iff.mp has
      obtain ⟨b, bs', hb, hbs', rfl⟩ := List.forall₂_cons_left_iff.mp hbs
      have hswap := hi.swap a b ha hb
      have hswap' := hi.swap b a hb ha
      have hrest := ih.swap as' bs' has' hbs'
      simp only [Framework.compareBy]
      by_cases hab : cmp i a b = 0
      · have hba := hi.eq_swap ha hb hab
        simpa [hab, hba] using hrest
      · have hba : cmp i b a ≠ 0 := by omega
        simpa [hab, hba] using hswap
    · intro as bs cs has hbs hcs
      obtain ⟨a, as', ha, has', rfl⟩ := List.forall₂_cons_left_iff.mp has
      obtain ⟨b, bs', hb, hbs', rfl⟩ := List.forall₂_cons_left_iff.mp hbs
      obtain ⟨c, cs', hc, hcs', rfl⟩ := List.forall₂_cons_left_iff.mp hcs
      simp only [Framework.compareBy]
      -- the first key decides unless it is equal for both pairs
      by_cases hab : cmp i a b = 0
      · by_cases hbc : cmp i b c = 0
        · have hac : cmp i a c = 0 := by
            have hle := hi.trans a b c ha hb hc (by omega) (by omega)
            have hge := hi.trans c b a hc hb ha (Int.le_of_eq (hi.eq_swap hb hc hbc))
              (Int.le_of_eq (hi.eq_swap ha hb hab))
            have hswap := hi.swap a c ha hc
            omega
          simpa [hab, hbc, hac] using ih.trans as' bs' cs' has' hbs' hcs'
        · intro _ hle
          rw [if_pos hbc] at hle
          have hlt := hi.lt_of_le_of_lt ha hb hc (by omega) (by omega)
          rw [if_pos (Int.ne_of_lt hlt)]
          omega
      · by_cases hbc : cmp i b c = 0
        · intro hle _
          rw [if_pos hab] at hle
          have hlt := hi.lt_of_lt_of_le ha hb hc (by omega) (by omega)
          rw [if_pos (Int.ne_of_lt hlt)]
          omega
        · intro hle hle'
          rw [if_pos hab] at hle
          rw [if_pos hbc] at hle'
          have hlt := hi.lt_of_lt_of_le ha hb hc (by omega) hle'
          rw [if_pos (Int.ne_of_lt hlt)]
          omega
end Datorium.Framework
