
import Mathlib.Data.List.Nodup
namespace Datorium.Framework
abbrev Fields (κ α : Type) := List (κ × α)

namespace Fields
variable {κ α : Type} [DecidableEq κ]
def get? (k : κ) : Fields κ α → Option α
  | [] => none
  | (k', a) :: fs => if k' = k then some a else get? k fs

def set (k : κ) (a : α) : Fields κ α → Fields κ α
  | [] => [(k, a)]
  | (k', a') :: fs => if k' = k then (k, a) :: fs else (k', a') :: set k a fs

def remove (k : κ) (fs : Fields κ α) : Fields κ α := fs.filter fun f => f.1 ≠ k

def insertByKey [LE κ] [DecidableLE κ] (f : κ × α) : Fields κ α → Fields κ α
  | [] => [f]
  | g :: fs => if f.1 ≤ g.1 then f :: g :: fs else g :: insertByKey f fs

def sortByKey [LE κ] [DecidableLE κ] (fs : Fields κ α) : Fields κ α := fs.foldr insertByKey []

@[simp] theorem get?_nil (k : κ) : get? k ([] : Fields κ α) = none := rfl

theorem get?_cons (k k' : κ) (a : α) (fs : Fields κ α) :
    get? k ((k', a) :: fs) = if k' = k then some a else get? k fs := rfl

@[simp] theorem get?_cons_same (k : κ) (a : α) (fs : Fields κ α) :
    get? k ((k, a) :: fs) = some a := by simp [get?_cons]

theorem get?_cons_other {k k' : κ} (h : k' ≠ k) (a : α) (fs : Fields κ α) :
    get? k ((k', a) :: fs) = get? k fs := by simp [get?_cons, h]

theorem get?_insertByKey [LE κ] [DecidableLE κ] (hrefl : ∀ a : κ, a ≤ a) (k : κ) (f : κ × α)
    (fs : Fields κ α) : get? k (insertByKey f fs) = get? k (f :: fs) := by
  obtain ⟨j, a⟩ := f
  induction fs with
  | nil => rfl
  | cons g fs ih =>
    obtain ⟨i, b⟩ := g
    by_cases hji : j ≤ i
    · simp [insertByKey, hji]
    · have hne : i ≠ j := by
        rintro rfl
        exact hji (hrefl i)
      simp only [insertByKey, hji, if_false, get?_cons, ih]
      by_cases hi : i = k
      · simp [hi, Ne.symm (hi ▸ hne)]
      · simp [hi]

theorem get?_sortByKey [LE κ] [DecidableLE κ] (hrefl : ∀ a : κ, a ≤ a) (k : κ) (fs : Fields κ α) :
    get? k (sortByKey fs) = get? k fs := by
  induction fs with
  | nil => rfl
  | cons f fs ih =>
    rw [sortByKey, List.foldr_cons, get?_insertByKey hrefl]
    rw [get?_cons, get?_cons]
    exact congrArg (fun r => if f.1 = k then some f.2 else r) ih

theorem get?_append (k : κ) (fs gs : Fields κ α) :
    get? k (fs ++ gs) = (get? k fs).or (get? k gs) := by
  induction fs with
  | nil => rfl
  | cons f fs ih =>
    rw [List.cons_append, get?_cons, get?_cons, ih]
    split <;> rfl

theorem get?_filter (p : κ → Bool) (k : κ) (fs : Fields κ α) :
    get? k (fs.filter fun f => p f.1) = if p k then get? k fs else none := by
  induction fs with
  | nil => simp
  | cons f fs ih =>
    obtain ⟨k', a⟩ := f
    by_cases hk : k' = k
    · subst k'
      cases hp : p k <;> simp [hp, ih]
    · cases hp : p k' <;> simp [hp, ih, get?_cons, hk]

@[simp] theorem get?_set_same (k : κ) (a : α) (fs : Fields κ α) : get? k (set k a fs) = some a := by
  induction fs with
  | nil => simp [set]
  | cons f fs ih =>
    obtain ⟨k', a'⟩ := f
    by_cases hk : k' = k <;> simp [set, hk, get?_cons, ih]

theorem get?_set_other {k k' : κ} (h : k ≠ k') (a : α) (fs : Fields κ α) :
    get? k' (set k a fs) = get? k' fs := by
  induction fs with
  | nil => simp [set, get?_cons, h]
  | cons f fs ih =>
    obtain ⟨j, b⟩ := f
    by_cases hj : j = k
    · subst j
      simp [set, get?_cons, h]
    · simp [set, hj, get?_cons, ih]

@[simp] theorem get?_remove_same (k : κ) (fs : Fields κ α) : get? k (remove k fs) = none := by
  have h := get?_filter (fun j => decide (j ≠ k)) k fs
  simpa [remove] using h

theorem get?_remove_other {k k' : κ} (h : k ≠ k') (fs : Fields κ α) :
    get? k' (remove k fs) = get? k' fs := by
  have hf := get?_filter (fun j => decide (j ≠ k)) k' fs
  simpa [remove, Ne.symm h] using hf

theorem get?_eq_none_iff (k : κ) (fs : Fields κ α) : get? k fs = none ↔ k ∉ fs.map Prod.fst := by
  induction fs with
  | nil => simp
  | cons f fs ih =>
    obtain ⟨k', a⟩ := f
    by_cases hk : k' = k
    · simp [hk]
    · simp [get?_cons, hk, ih, Ne.symm hk]

theorem mem_of_get? {k : κ} {a : α} {fs : Fields κ α} (h : get? k fs = some a) : (k, a) ∈ fs := by
  induction fs with
  | nil => cases h
  | cons f fs ih =>
    obtain ⟨k', a'⟩ := f
    by_cases hk : k' = k
    · subst k'
      rw [get?_cons_same] at h
      cases h
      exact List.mem_cons_self
    · rw [get?_cons_other hk] at h
      exact List.mem_cons_of_mem _ (ih h)

theorem get?_of_mem {k : κ} {a : α} {fs : Fields κ α} (h : (fs.map Prod.fst).Nodup)
    (hmem : (k, a) ∈ fs) : get? k fs = some a := by
  cases hget : get? k fs with
  | none => exact absurd (List.mem_map_of_mem hmem) ((get?_eq_none_iff k fs).mp hget)
  | some b =>
    have hsame : (k, b) = (k, a) := List.inj_on_of_nodup_map h (mem_of_get? hget) hmem rfl
    cases hsame
    rfl

omit [DecidableEq κ] in
theorem perm_insertByKey [LE κ] [DecidableLE κ] (f : κ × α) (fs : Fields κ α) :
    (insertByKey f fs).Perm (f :: fs) := by
  induction fs with
  | nil => exact .refl _
  | cons g fs ih =>
    rw [insertByKey]
    split
    · exact .refl _
    · exact (ih.cons g).trans (.swap f g fs)

omit [DecidableEq κ] in
theorem perm_sortByKey [LE κ] [DecidableLE κ] (fs : Fields κ α) : (sortByKey fs).Perm fs := by
  induction fs with
  | nil => exact .refl _
  | cons f fs ih => exact (perm_insertByKey f _).trans (ih.cons f)

section
variable [LE κ] [DecidableLE κ]
def put (f : κ × α) : Fields κ α → Fields κ α
  | [] => [f]
  | g :: fs => if g.1 = f.1 then f :: fs else if f.1 ≤ g.1 then f :: g :: fs else g :: put f fs

def normal (fs : Fields κ α) : Fields κ α := fs.foldr put []

def size (fs : Fields κ α) : Nat := (normal (fs.map fun f => (f.1, ()))).length
end
end Fields
end Datorium.Framework
