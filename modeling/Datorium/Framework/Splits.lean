
import Mathlib.Data.List.Basic
/-! # Cuts of a word at a separator -/
namespace Datorium.Framework
variable {α : Type*} {sep : α}
def Shifted (sep : α) (a b a' b' : List α) : Prop := ∃ c, a' = a ++ sep :: c ∧ b = c ++ sep :: b'

variable {a b a' b' : List α}
theorem Shifted.append_eq (h : Shifted sep a b a' b') : a ++ sep :: b = a' ++ sep :: b' := by
  obtain ⟨c, rfl, rfl⟩ := h
  simp

theorem append_sep_eq_iff : a ++ sep :: b = a' ++ sep :: b' ↔
      (a = a' ∧ b = b') ∨ Shifted sep a b a' b' ∨ Shifted sep a' b' a b := by
  constructor
  · intro h
    rcases List.append_eq_append_iff.mp h with ⟨c, rfl, hc⟩ | ⟨c, rfl, hc⟩
    · cases c with
      | nil =>
        rw [List.nil_append] at hc
        exact .inl ⟨(List.append_nil a).symm, (List.cons.inj hc).2⟩
      | cons x c =>
        obtain ⟨rfl, rfl⟩ := List.cons.inj hc
        exact .inr (.inl ⟨c, rfl, rfl⟩)
    · cases c with
      | nil =>
        rw [List.nil_append] at hc
        exact .inl ⟨List.append_nil a', (List.cons.inj hc).2.symm⟩
      | cons x c =>
        obtain ⟨rfl, rfl⟩ := List.cons.inj hc
        exact .inr (.inr ⟨c, rfl, rfl⟩)
  · rintro (⟨rfl, rfl⟩ | h | h)
    · rfl
    · exact h.append_eq
    · exact h.append_eq.symm

theorem eq_of_two_separators {sep' : α} (hne : sep ≠ sep') (h : a ++ sep :: b = a' ++ sep :: b')
    (h' : a ++ sep' :: b = a' ++ sep' :: b') : a = a' ∧ b = b' := by
  rcases append_sep_eq_iff.mp h with heq | ⟨c, rfl, rfl⟩ | ⟨c, rfl, rfl⟩
  · exact heq
  · rw [List.append_assoc, List.append_cancel_left_eq, List.cons_append, List.cons.injEq] at h'
    exact absurd h'.1.symm hne
  · rw [List.append_assoc, List.append_cancel_left_eq, List.cons_append, List.cons.injEq] at h'
    exact absurd h'.1 hne

theorem not_shifted_of_not_mem (h : sep ∉ a') : ¬ Shifted sep a b a' b' := by
  rintro ⟨c, rfl, -⟩
  exact h (by simp)

variable [DecidableEq α]
def splits (sep : α) : List α → List (List α × List α)
  | [] => []
  | c :: cs =>
    (if c = sep then [([], cs)] else []) ++ (splits sep cs).map fun s => (c :: s.1, s.2)

variable {word : List α} {s : List α × List α} {p : List α × List α → Bool}
theorem mem_splits : s ∈ splits sep word ↔ s.1 ++ sep :: s.2 = word := by
  obtain ⟨a, b⟩ := s
  induction word generalizing a with
  | nil => simp [splits]
  | cons c cs ih =>
    cases a with
    | nil =>
      by_cases hc : c = sep
      · simp [splits, hc, eq_comm]
      · simp [splits, hc, Ne.symm hc]
    | cons x a =>
      have hmem : (x :: a, b) ∈ splits sep (c :: cs) ↔ x = c ∧ (a, b) ∈ splits sep cs := by
        by_cases hc : c = sep <;> simp [splits, hc] <;> tauto
      rw [hmem, ih]
      simp

theorem splits_pairwise (word : List α) :
    (splits sep word).Pairwise fun s t => Shifted sep s.1 s.2 t.1 t.2 := by
  induction word with
  | nil => simp [splits]
  | cons c cs ih =>
    have htail : ((splits sep cs).map fun s => (c :: s.1, s.2)).Pairwise
        fun s t => Shifted sep s.1 s.2 t.1 t.2 := by
      refine List.pairwise_map.mpr (ih.imp ?_)
      rintro s t ⟨d, hd, hd'⟩
      exact ⟨d, by simp [hd], hd'⟩
    by_cases hc : c = sep
    · subst hc
      refine List.pairwise_append.mpr ⟨by simp, htail, ?_⟩
      intro s hs t ht
      rw [if_pos rfl, List.mem_singleton] at hs
      obtain ⟨u, hu, rfl⟩ := List.mem_map.mp ht
      subst hs
      exact ⟨u.1, rfl, (mem_splits.mp hu).symm⟩
    · simpa [splits, hc] using htail

def lastSplit (p : List α × List α → Bool) (sep : α) (word : List α) : Option (List α × List α) :=
  (splits sep word).reverse.find? p

theorem splits_around {later earlier : List (List α × List α)}
    (h : (splits sep word).reverse = later ++ s :: earlier) :
    (∀ t ∈ later, Shifted sep s.1 s.2 t.1 t.2) ∧ ∀ t ∈ earlier, Shifted sep t.1 t.2 s.1 s.2 := by
  have hpair : (splits sep word).reverse.Pairwise fun s t => Shifted sep t.1 t.2 s.1 s.2 :=
    List.pairwise_reverse.mpr (splits_pairwise word)
  rw [h] at hpair
  obtain ⟨-, hright, hcross⟩ := List.pairwise_append.mp hpair
  exact ⟨fun t ht => hcross t ht s (by simp), (List.pairwise_cons.mp hright).1⟩

theorem lastSplit_eq_some_iff :
    lastSplit p sep word = some s ↔ s.1 ++ sep :: s.2 = word ∧ p s = true ∧
      ∀ c d, s.2 = c ++ sep :: d → p (s.1 ++ sep :: c, d) = false := by
  constructor
  · intro h
    obtain ⟨hp, later, earlier, hl, hlater⟩ := List.find?_eq_some_iff_append.mp h
    have hmem : s.1 ++ sep :: s.2 = word :=
      mem_splits.mp (List.mem_reverse.mp (by rw [hl]; simp))
    refine ⟨hmem, hp, fun c d hcd => ?_⟩
    have hlast : (s.1 ++ sep :: c, d) ∈ (splits sep word).reverse :=
      List.mem_reverse.mpr (mem_splits.mpr (by rw [← hmem, hcd]; simp))
    rw [hl] at hlast
    -- the longer left part is neither that of `s` nor that of an earlier cut
    rcases List.mem_append.mp hlast with hlate | hlast
    · simpa using hlater _ hlate
    · rcases List.mem_cons.mp hlast with heq | hearly
      · have hlen := congrArg (fun t => t.1.length) heq
        simp only [List.length_append, List.length_cons] at hlen
        omega
      · obtain ⟨e, he, -⟩ := (splits_around hl).2 _ hearly
        have hlen := congrArg List.length he
        simp only [List.length_append, List.length_cons] at hlen
        omega
  · rintro ⟨hmem, hp, hlast⟩
    have hs : s ∈ (splits sep word).reverse := List.mem_reverse.mpr (mem_splits.mpr hmem)
    obtain ⟨later, earlier, hl⟩ := List.append_of_mem hs
    refine List.find?_eq_some_iff_append.mpr ⟨hp, later, earlier, hl, fun t ht => ?_⟩
    obtain ⟨c, hc, hd⟩ := (splits_around hl).1 t ht
    have hfails := hlast c t.2 hd
    rw [← hc] at hfails
    simpa using hfails

theorem lastSplit_isSome (h : p (a, b) = true) : ∃ s, lastSplit p sep (a ++ sep :: b) = some s := by
  rw [← Option.isSome_iff_exists, lastSplit, List.find?_isSome]
  exact ⟨(a, b), List.mem_reverse.mpr (mem_splits.mpr rfl), h⟩

theorem foldl_keep_longest {size : List α → Nat} (hsize : ∀ a c, size a < size (a ++ sep :: c))
    (word : List α) :
    (splits sep word).foldl (fun best s =>
        if p s && best.all (fun b => decide (size b.1 < size s.1)) then some s else best) none =
      lastSplit p sep word := by
  have hgen : ∀ (l : List (List α × List α)) (best : Option (List α × List α)),
      l.Pairwise (fun s t => Shifted sep s.1 s.2 t.1 t.2) →
      (∀ b ∈ best, ∀ s ∈ l, size b.1 < size s.1) →
      l.foldl (fun best s =>
        if p s && best.all (fun b => decide (size b.1 < size s.1)) then some s else best) best =
        (l.reverse.find? p).or best := by
    intro l
    induction l with
    | nil => intro best _ _; simp
    | cons s l ih =>
      intro best hpair hbest
      obtain ⟨hs, hl⟩ := List.pairwise_cons.mp hpair
      have hkeep : best.all (fun b => decide (size b.1 < size s.1)) = true := by
        cases best with
        | none => rfl
        | some b => simpa using hbest b rfl s (by simp)
      have hgrow : ∀ t ∈ l, size s.1 < size t.1 := by
        intro t ht
        obtain ⟨c, hc, -⟩ := hs t ht
        rw [hc]
        exact hsize _ _
      rw [List.foldl_cons, hkeep, Bool.and_true, List.reverse_cons, List.find?_append]
      by_cases hp : p s = true
      · rw [if_pos hp, ih (some s) hl (by simpa using hgrow)]
        cases l.reverse.find? p <;> simp [hp]
      · rw [if_neg hp, ih best hl (fun b hb t ht => hbest b hb t (by simp [ht]))]
        cases l.reverse.find? p <;> simp [hp]
  rw [hgen _ none (splits_pairwise word) (by simp), Option.or_none]
  rfl
end Datorium.Framework
