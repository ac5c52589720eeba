
import Mathlib.Data.List.Sort
import Mathlib.Data.List.Nodup
/-! # Keyed rows -/
namespace Datorium.Framework.Keyed
variable {ρ κ : Type} (key : ρ → κ)
def Distinct (rows : List ρ) : Prop := (rows.map key).Nodup

section
variable [DecidableEq κ]
def lookup (k : κ) (rows : List ρ) : Option ρ := rows.find? fun row => key row = k

def upsert (row : ρ) : List ρ → List ρ
  | [] => [row]
  | r :: rows => if key r = key row then row :: rows else r :: upsert row rows

def erase (k : κ) (rows : List ρ) : List ρ := rows.filter fun row => key row ≠ k

@[simp] theorem lookup_nil (k : κ) : lookup key k [] = none := rfl

theorem lookup_cons (k : κ) (r : ρ) (rows : List ρ) :
    lookup key k (r :: rows) = if key r = k then some r else lookup key k rows := by
  by_cases h : key r = k <;> simp [lookup, h]

variable {k : κ} {row : ρ} {rows : List ρ}
theorem lookup_key (h : lookup key k rows = some row) : key row = k := by simpa using List.find?_some h

theorem lookup_mem (h : lookup key k rows = some row) : row ∈ rows := List.mem_of_find?_eq_some h

theorem lookup_eq_none : lookup key k rows = none ↔ k ∉ rows.map key := by
  simp only [lookup, List.find?_eq_none, decide_eq_true_eq, List.mem_map, not_exists, not_and]

theorem lookup_eq_some (h : Distinct key rows) :
    lookup key k rows = some row ↔ row ∈ rows ∧ key row = k := by
  refine ⟨fun hfind => ⟨lookup_mem key hfind, lookup_key key hfind⟩, ?_⟩
  rintro ⟨hmem, rfl⟩
  cases hfind : lookup key (key row) rows with
  | none => exact absurd (List.mem_map_of_mem hmem) ((lookup_eq_none key).mp hfind)
  | some row' =>
    have hsame : row' = row :=
      List.inj_on_of_nodup_map h (lookup_mem key hfind) hmem (lookup_key key hfind)
    rw [hsame]

theorem lookup_upsert (k : κ) (row : ρ) (rows : List ρ) :
    lookup key k (upsert key row rows) = if k = key row then some row else lookup key k rows := by
  induction rows with
  | nil =>
    rw [upsert, lookup_cons]
    exact if_congr eq_comm rfl rfl
  | cons r rows ih =>
    rw [upsert]
    by_cases hr : key r = key row
    · rw [if_pos hr, lookup_cons, lookup_cons, hr]
      by_cases hk : k = key row
      · rw [if_pos hk.symm, if_pos hk]
      · rw [if_neg (Ne.symm hk), if_neg hk, if_neg (Ne.symm hk)]
    · rw [if_neg hr, lookup_cons, lookup_cons, ih]
      by_cases hk : k = key row
      · rw [if_pos hk, if_pos hk, if_neg fun h => hr (h.trans hk)]
      · rw [if_neg hk, if_neg hk]

theorem lookup_erase (k j : κ) (rows : List ρ) :
    lookup key j (erase key k rows) = if j = k then none else lookup key j rows := by
  induction rows with
  | nil => simp [erase]
  | cons r rows ih =>
    simp only [erase] at ih ⊢
    by_cases hr : key r = k
    · rw [List.filter_cons_of_neg (by simpa using hr), ih, lookup_cons]
      by_cases hj : j = k
      · rw [if_pos hj, if_pos hj]
      · rw [if_neg hj, if_neg hj, if_neg fun h => hj (h.symm.trans hr)]
    · rw [List.filter_cons_of_pos (by simpa using hr), lookup_cons, ih, lookup_cons]
      by_cases hj : j = k
      · rw [if_pos hj, if_pos hj, if_neg fun h => hr (h.trans hj)]
      · rw [if_neg hj, if_neg hj]

theorem mem_keys_upsert (k : κ) (row : ρ) (rows : List ρ) :
    k ∈ (upsert key row rows).map key ↔ k = key row ∨ k ∈ rows.map key := by
  rw [← not_iff_not, not_or, ← lookup_eq_none, ← lookup_eq_none, lookup_upsert]
  by_cases hk : k = key row <;> simp [hk]

theorem mem_upsert {r : ρ} (h : r ∈ upsert key row rows) : r = row ∨ r ∈ rows := by
  induction rows with
  | nil => exact .inl (by simpa [upsert] using h)
  | cons r' rows ih =>
    rw [upsert] at h
    split at h
    · rcases List.mem_cons.mp h with rfl | h
      · exact .inl rfl
      · exact .inr (List.mem_cons_of_mem _ h)
    · rcases List.mem_cons.mp h with rfl | h
      · exact .inr List.mem_cons_self
      · exact (ih h).imp_right (List.mem_cons_of_mem _)

theorem Distinct.upsert {rows : List ρ} (h : Distinct key rows) (row : ρ) :
    Distinct key (upsert key row rows) := by
  induction rows with
  | nil => exact List.pairwise_singleton _ _
  | cons r rows ih =>
    obtain ⟨hr, hrows⟩ := List.nodup_cons.mp h
    by_cases hkey : key r = key row
    · rw [Keyed.upsert, if_pos hkey]
      exact List.nodup_cons.mpr ⟨hkey ▸ hr, hrows⟩
    · rw [Keyed.upsert, if_neg hkey]
      refine List.nodup_cons.mpr ⟨?_, ih hrows⟩
      rw [mem_keys_upsert]
      exact not_or.mpr ⟨hkey, hr⟩

theorem Distinct.erase (h : Distinct key rows) (k : κ) : Distinct key (erase key k rows) := h.sublist (List.filter_sublist.map key)

theorem lookup_perm {rows' : List ρ} (hperm : rows.Perm rows') (h : Distinct key rows) (k : κ) :
    lookup key k rows = lookup key k rows' := by
  have h' : Distinct key rows' := (hperm.map key).nodup_iff.mp h
  refine Option.ext fun row => ?_
  rw [lookup_eq_some key h, lookup_eq_some key h', hperm.mem_iff]
end
section
variable [LinearOrder κ]
def sort (rows : List ρ) : List ρ := rows.insertionSort fun r r' => key r ≤ key r'

def Ascending (rows : List ρ) : Prop := rows.Pairwise fun r r' => key r < key r'

theorem sort_perm (rows : List ρ) : (sort key rows).Perm rows := List.perm_insertionSort _ _

variable {rows : List ρ}
theorem Distinct.sort (h : Distinct key rows) : Distinct key (sort key rows) :=
  ((sort_perm key rows).map key).nodup_iff.mpr h

theorem lookup_sort (h : Distinct key rows) (k : κ) :
    lookup key k (sort key rows) = lookup key k rows :=
  (lookup_perm key (sort_perm key rows).symm h k).symm

theorem Ascending.distinct (h : Ascending key rows) : Distinct key rows :=
  List.pairwise_map.mpr (h.imp fun hlt => hlt.ne)

theorem Distinct.ascending (h : Distinct key rows) : Ascending key (Keyed.sort key rows) := by
  have hne : (Keyed.sort key rows).Pairwise fun r r' => key r ≠ key r' :=
    List.pairwise_map.mp h.sort
  have htotal : Std.Total fun r r' : ρ => key r ≤ key r' := ⟨fun r r' => le_total _ _⟩
  have htrans : IsTrans ρ fun r r' => key r ≤ key r' := ⟨fun _ _ _ h h' => le_trans h h'⟩
  have hle : (Keyed.sort key rows).Pairwise fun r r' => key r ≤ key r' :=
    List.pairwise_insertionSort _ _
  exact hle.imp₂ (fun _ _ hle hne => lt_of_le_of_ne hle hne) hne
end
end Datorium.Framework.Keyed
