
import Datorium.Search.Order
namespace Datorium
open Framework List
section
variable {fl : Floats}
/-- No numbers, arrays or objects, and no missing value before the last key. -/
structure WireSafe (vals : List (SortValue fl.F)) : Prop where
  plain : ∀ v ∈ vals, v.Plain
  gaps : .missing ∉ vals.dropLast

def received (vals : List (SortValue fl.F)) : List (SortValue fl.F) :=
  sortValuesFromJSON (sortValuesToJSON vals)

theorem SortValue.Plain.received_eq {v : SortValue fl.F} (h : v.Plain) (hne : v ≠ .missing) :
    SortValue.ofAny v.toAny = v := by
  cases v with
  | missing => exact absurd rfl hne
  | null => rfl
  | known w => cases w <;> first | exact h.elim | rfl

theorem toJSON_received {vals : List (SortValue fl.F)} (h : ∀ v ∈ vals, v.Plain) :
    sortValuesToJSON (received vals) = sortValuesToJSON vals := by
  unfold received sortValuesToJSON sortValuesFromJSON
  rw [map_map, map_map]
  refine map_congr_left fun v hv => ?_
  cases v with
  | missing => rfl
  | null => rfl
  | known w => cases w <;> first | exact (h _ hv).elim | rfl

theorem WireSafe.tail {v : SortValue fl.F} {vals : List (SortValue fl.F)}
    (h : WireSafe (v :: vals)) : WireSafe vals where
  plain w hw := h.plain w (mem_cons_of_mem _ hw)
  gaps hmem := by
    cases vals with
    | nil => simp at hmem
    | cons w vals => exact h.gaps (mem_cons_of_mem _ hmem)

theorem WireSafe.compare_lt_iff {vals : List (SortValue fl.F)} (h : WireSafe vals)
    {stored : List (Any fl.F)} (hlen : stored.length = vals.length) (dirs : List SortDir) :
    compareStoredSort fl (received vals) stored dirs < 0 ↔
      compareStoredSort fl vals stored dirs < 0 := by
  induction vals generalizing stored dirs with
  | nil => rfl
  | cons v vals ih =>
    obtain ⟨s, stored', rfl⟩ := exists_cons_of_length_eq_add_one hlen
    have hlen' : stored'.length = vals.length := by simpa using hlen
    have hreceived : received (v :: vals) = SortValue.ofAny v.toAny :: received vals := rfl
    rw [hreceived, compareStoredSort, compareStoredSort]
    by_cases hv : v = .missing
    · -- nothing follows a missing value, so neither side finds a smaller one
      subst hv
      have hlast : vals = [] := by
        cases vals with
        | nil => rfl
        | cons w vals => exact absurd mem_cons_self h.gaps
      subst hlast
      obtain rfl := length_eq_zero_iff.mp hlen'
      cases s <;> simp [compareOne, SortValue.rank, storedRank, SortValue.ofAny,
        SortValue.toAny, compareStoredSort, received, sortValuesFromJSON, sortValuesToJSON]
    · rw [(h.plain v mem_cons_self).received_eq hv]
      split
      · exact Iff.rfl
      · exact ih h.tail hlen' dirs.tail

theorem WireSafe.upsertItems_eq {vals : List (SortValue fl.F)} (h : WireSafe vals)
    {items : List (BucketItem fl)} (hlen : ∀ it ∈ items, it.sort.length = vals.length)
    (sort : List SortSpec) (id : String) :
    upsertItems items sort id (received vals) = upsertItems items sort id vals := by
  have hinsert : ∀ rest : List (BucketItem fl), (∀ it ∈ rest, it ∈ items) → insertBefore (fun it =>
          decide (compareStoredSort fl (received vals) it.sort (sort.map SortSpec.dir) < 0))
        ⟨sortValuesToJSON (received vals), id⟩ rest =
      insertBefore (fun it =>
          decide (compareStoredSort fl vals it.sort (sort.map SortSpec.dir) < 0))
        ⟨sortValuesToJSON vals, id⟩ rest := by
    intro rest hrest
    rw [toJSON_received h.plain]
    refine insertBefore_congr (fun it hit => ?_) _
    rw [decide_eq_decide]
    exact h.compare_lt_iff (hlen it (hrest it hit)) _
  unfold upsertItems
  cases items.find? fun it => it.id == id with
  | none => simp only [hinsert items fun it hit => hit]
  | some found =>
    have hrest := hinsert (items.eraseP fun it => it.id == id) fun it hit =>
      mem_of_mem_eraseP hit
    rw [toJSON_received h.plain] at hrest ⊢
    simp only [hrest]

def mutateItems (sort : List SortSpec) (items : List (BucketItem fl)) :
    Mutation → List (BucketItem fl)
  | .upsert id doc => (upsertItems items sort id (computeSortValues fl sort doc)).2
  | .remove id => items.eraseP fun it => it.id == id

def itemsAfter (fl : Floats) (sort : List SortSpec) (done : List Mutation) : List (BucketItem fl) :=
  done.foldl (mutateItems sort) []

def Mutated (fl : Floats) (sort : List SortSpec) (done : List Mutation) (file : Option Json) :
    Prop :=
  Saved file (itemsAfter fl sort done) ∧ ∀ it ∈ itemsAfter fl sort done, it.sort.length = sort.length

def Mutation.WireSafe (fl : Floats) (sort : List SortSpec) : Mutation → Prop
  | .upsert _ doc => Datorium.WireSafe (computeSortValues fl sort doc)
  | .remove _ => True

theorem length_mutateItems {sort : List SortSpec} {items : List (BucketItem fl)}
    (h : ∀ it ∈ items, it.sort.length = sort.length) (m : Mutation) :
    ∀ it ∈ mutateItems sort items m, it.sort.length = sort.length := by
  intro it hit
  cases m with
  | upsert id doc =>
    rcases mem_upsertItems hit with hit | rfl
    · exact h it hit
    · simp [sortValuesToJSON, computeSortValues]
  | remove id => exact h it (mem_of_mem_eraseP hit)

section
variable {ctx : BucketContext fl} {done : List Mutation} {file : Option Json} {m : Mutation}
theorem Mutated.next {items : List (BucketItem fl)} {file' : Option Json}
    (h : Mutated fl ctx.sort done file)
    (hitems : items = mutateItems ctx.sort (itemsAfter fl ctx.sort done) m)
    (hsaved : Saved file' items) : Mutated fl ctx.sort (done ++ [m]) file' := by
  have hafter : itemsAfter fl ctx.sort (done ++ [m]) =
      mutateItems ctx.sort (itemsAfter fl ctx.sort done) m := foldl_append
  rw [Mutated, hafter, ← hitems]
  exact ⟨hsaved, hitems ▸ length_mutateItems h.2 m⟩

theorem Saved.applyLocally {items : List (BucketItem fl)} (h : Saved file items)
    (hkey : ∀ v ∈ ctx.key, v.Stable fl)
    (hm : ∀ id doc, m = .upsert id doc → ∀ v ∈ computeSortValues fl ctx.sort doc, v.Plain)
    (version : String) :
    ∃ file', applyLocally ctx version file m = some file' ∧
      Saved file' (mutateItems ctx.sort items m) := by
  cases m with
  | upsert id doc =>
    exact @Saved.localUpsert _ _ _ ctx id _ h version hkey fun v hv => (hm id doc rfl v hv).stable
  | remove id => exact h.removeFrom version id

theorem Mutated.locally (h : Mutated fl ctx.sort done file) (hkey : ∀ v ∈ ctx.key, v.Stable fl)
    (hm : m.WireSafe fl ctx.sort) (version : String) :
    ∃ file', applyLocally ctx version file m = some file' ∧
      Mutated fl ctx.sort (done ++ [m]) file' := by
  obtain ⟨file', hfile', hsaved⟩ := h.1.applyLocally hkey (m := m) (by
    rintro id doc rfl
    exact hm.plain) version
  exact ⟨file', hfile', h.next rfl hsaved⟩

theorem Mutated.remotely (h : Mutated fl ctx.sort done file) (hm : m.WireSafe fl ctx.sort)
    (version : String) :
    ∃ file', applyRemotely ctx version file m = some file' ∧
      Mutated fl ctx.sort (done ++ [m]) file' := by
  cases m with
  | upsert id doc =>
    have hstable : ∀ v ∈ computeSortValues fl ctx.sort doc, v.toAny.Stable fl :=
      fun v hv => (hm.plain v hv).stable
    have hwire : unmarshalList fl ((sortValuesToJSON (computeSortValues fl ctx.sort doc)).map
        (Any.marshal fl)) = some (sortValuesToJSON (computeSortValues fl ctx.sort doc)) := by
      refine unmarshalList_marshal fun v hv => ?_
      obtain ⟨w, hw, rfl⟩ := mem_map.mp hv
      exact hstable w hw
    have hreceived : ∀ v ∈ received (computeSortValues fl ctx.sort doc), v.toAny.Stable fl := by
      intro v hv
      have hmem := mem_map_of_mem (f := SortValue.toAny) hv
      rw [← sortValuesToJSON, toJSON_received hm.plain] at hmem
      obtain ⟨w, hw, heq⟩ := mem_map.mp hmem
      rw [← heq]
      exact hstable w hw
    obtain ⟨file', hfile', hsaved⟩ := @Saved.remoteUpsert _ _ _ ctx id _ h.1 version hreceived
    refine ⟨file', ?_, h.next ?_ hsaved⟩
    · simp only [applyRemotely, hwire]
      exact hfile'
    · rw [hm.upsertItems_eq]
      · rfl
      · intro it hit
        rw [h.2 it hit]
        simp [computeSortValues]
  | remove id =>
    obtain ⟨file', hfile', hsaved⟩ := h.1.removeFrom version id
    exact ⟨file', hfile', h.next rfl hsaved⟩
end

/-- With sort values that are safe on the wire, the local file and the file of a replica have the
same ids in the same order after every sequence of mutations. -/
theorem search_replicas_agree {ctx : BucketContext fl} (hkey : ∀ v ∈ ctx.key, v.Stable fl)
    (versions versions' : Nat → String) (ms : List Mutation)
    (hms : ∀ m ∈ ms, m.WireSafe fl ctx.sort) :
    ∃ file file' rf rf' existed existed',
      runMutations (applyLocally ctx) versions ms none = some file ∧
      runMutations (applyRemotely ctx) versions' ms none = some file' ∧
      loadBucket fl file = some (rf, existed) ∧ loadBucket fl file' = some (rf', existed') ∧
      rf.items.map BucketItem.id = rf'.items.map BucketItem.id := by
  have hstart : Mutated fl ctx.sort [] none := ⟨saved_none, forall_mem_nil _⟩
  obtain ⟨file, hrun, hmutated⟩ := @runMutations_invariant (applyLocally ctx)
    (Mutated fl ctx.sort) (Mutation.WireSafe fl ctx.sort)
    (fun _ _ _ version h hm => h.locally hkey hm version) ms hms versions _ _ hstart
  obtain ⟨file', hrun', hmutated'⟩ := @runMutations_invariant (applyRemotely ctx)
    (Mutated fl ctx.sort) (Mutation.WireSafe fl ctx.sort)
    (fun _ _ _ version h hm => h.remotely hm version) ms hms versions' _ _ hstart
  obtain ⟨⟨rf, existed, hload, -, hitems, -⟩, -⟩ := hmutated
  obtain ⟨⟨rf', existed', hload', -, hitems', -⟩, -⟩ := hmutated'
  exact ⟨file, file', rf, rf', existed, existed', hrun, hrun', hload, hload', by rw [hitems, hitems']⟩
end
namespace Sample
theorem titled_wireSafe : ∀ m ∈ titled, m.WireSafe floats [byTitle] := by
  intro m hm
  cases m with
  | upsert id doc => exact ⟨(titled_conforms _ hm).plain, by simp [computeSortValues]⟩
  | remove id => trivial

theorem film_replicas_agree : ∃ file file' rf rf' existed existed',
    runMutations (applyLocally (filmBucket byTitle)) (fun _ => "v") titled none = some file ∧
      runMutations (applyRemotely (filmBucket byTitle)) (fun _ => "v") titled none = some file' ∧
      loadBucket floats file = some (rf, existed) ∧ loadBucket floats file' = some (rf', existed') ∧
      rf.items.map BucketItem.id = rf'.items.map BucketItem.id :=
  search_replicas_agree (fun v hv => by cases mem_singleton.mp hv; trivial) (fun _ => "v")
    (fun _ => "v") titled titled_wireSafe

theorem film_replicas_differ :
    bucketIds (applyLocally (filmBucket byLength)) measured = some ["f1", "f2"] ∧
      bucketIds (applyRemotely (filmBucket byLength)) measured = some ["f2", "f1"] := by
  decide +kernel
end Sample
end Datorium
