
import Datorium.Framework.Rely
import Datorium.Search.Bucket
/-!
# Updates of a bucket file

There is no lock: a run of `ApplyMutation` that finds another version than its own starts over.
-/
namespace Datorium
open Framework List
def searchDir (dataDir : Path) (collection : String) : Path :=
  (collectionDir dataDir collection).join ".search"

def searchResultPath (dataDir : Path) (collection searchName : String)
    (encodedSegments : List String) : Path :=
  ([searchName] ++ encodedSegments ++ ["matches.json"]).foldl Path.join (searchDir dataDir collection)

section
variable (fl : Floats)
/-- What `LoadResultFile` makes of the answer to its read. -/
def loadedResult (path : Path) : Except FsError File → Except FsError (ResultFile fl × Bool)
  | .error err => if err.isNotExist then .ok ({}, false) else .error err
  | .ok (.json v) =>
    match ResultFile.ofJson fl v with
    | some rf => .ok (rf, true)
    | none => .error (.other ("invalid search result JSON /" ++ "/".intercalate path))
  | .ok (.bytes _) => .error (.other ("invalid search result JSON /" ++ "/".intercalate path))

def loadResultFile (site : Site) (path : Path) : Prog (Except FsError (ResultFile fl × Bool)) := do
  let r ← readFile site path
  pure (loadedResult fl path r)

def writeResultFile (site : WriteStep → Site) (path : Path) (rf : ResultFile fl) :
    Prog (Except FsError Unit) :=
  writeFileAtomic site path (.json (rf.toJson fl))

/-- The attempts of `ApplyMutation`; `last` is the error of the verification before. -/
def mutationAttempts (path : Path) (mutate : ResultFile fl → Bool → Bool × ResultFile fl) :
    List Nat → Option FsError → Prog (Except FsError (Bool × String))
  | [], last =>
    pure (.error (.other ("search result apply retries exhausted for /" ++
      "/".intercalate path ++ ": " ++ (last.map FsError.message).getD "%!w(<nil>)")))
  | attempt :: attempts, _ => do
      match ← loadResultFile fl (.bucket path attempt .load) path with
      | .error err => pure (.error err)
      | .ok (rf, existed) =>
        match mutate (rf.named fl) existed with
        | (false, rf') => pure (.ok (false, rf'.version))
        | (true, rf') =>
          match ← newId (.bucket path attempt .version) with
          | .error err => pure (.error err)
          | .ok version =>
            match ← writeResultFile fl (fun step => .bucket path attempt (.write step)) path
                { rf' with version } with
            | .error err => pure (.error err)
            | .ok () =>
              match ← loadResultFile fl (.bucket path attempt .verify) path with
              | .error err => mutationAttempts path mutate attempts (some err)
              | .ok (check, _) =>
                if check.version = version then pure (.ok (true, version))
                else mutationAttempts path mutate attempts none

def maxAttempts : Nat := 10

def applyMutation (path : Path) (mutate : ResultFile fl → Bool → Bool × ResultFile fl) :
    Prog (Except FsError (Bool × String)) :=
  mutationAttempts fl path mutate (range maxAttempts) none

def loadFile (file : Option File) : Option (ResultFile fl × Bool) :=
  match file with
  | none => some ({}, false)
  | some (.json v) => (ResultFile.ofJson fl v).map fun rf => (rf, true)
  | some (.bytes _) => none

theorem loadFile_none_existed {file : Option File} {rf : ResultFile fl}
    (h : loadFile fl file = some (rf, false)) : rf = {} := by
  cases file with
  | none =>
    cases h
    rfl
  | some f =>
    cases f with
    | json v => cases hv : ResultFile.ofJson fl v <;> simp [loadFile, hv] at h
    | bytes data => cases h

theorem loadedResult_eq {ν : Type} {host : Host ν} {site : Site} {path : Path} (w : World ν) :
    (∃ a, loadFile fl (w.files path) = some a ∧
        loadedResult fl path (exec host .none ⟨site, .readFile path⟩ w).1 = .ok a) ∨
      loadFile fl (w.files path) = none ∧
        ∃ err, loadedResult fl path (exec host .none ⟨site, .readFile path⟩ w).1 = .error err := by
  cases hfile : w.files path with
  | none =>
    exact .inl ⟨({}, false), rfl,
      by simp [exec, Call.apply, hfile, loadedResult, FsError.isNotExist]⟩
  | some file =>
    have hread : (exec host .none ⟨site, .readFile path⟩ w).1 =
        (Except.ok file : Except FsError File) := by
      simp [exec, Call.apply, hfile]
      rfl
    rw [hread]
    cases file with
    | bytes data => exact .inr ⟨rfl, _, rfl⟩
    | json v =>
      cases hv : ResultFile.ofJson fl v with
      | none =>
        exact .inr ⟨by simp [loadFile, hv],
          .other ("invalid search result JSON /" ++ "/".intercalate path),
          by simp only [loadedResult, hv]⟩
      | some rf => exact .inl ⟨(rf, true), by simp [loadFile, hv], by simp only [loadedResult, hv]⟩

/-- The mutations that are applied to a bucket: those of `LocalApplier` and of the remote handler. -/
inductive BucketRun where
  | localUpsert (ctx : BucketContext fl) (id : String) (sortVals : List (SortValue fl.F))
  | remoteUpsert (ctx : BucketContext fl) (id : String) (sortVals : List (SortValue fl.F))
  | remove (id : String)

variable {fl}
namespace BucketRun
def id : BucketRun fl → String
  | localUpsert _ id _ => id
  | remoteUpsert _ id _ => id
  | remove id => id

def mutate : BucketRun fl → ResultFile fl → Bool → Bool × ResultFile fl
  | localUpsert ctx id sortVals => Datorium.localUpsert ctx id sortVals
  | remoteUpsert ctx id sortVals => Datorium.remoteUpsert ctx id sortVals
  | remove id => removeFrom id
end BucketRun

/-- The stored form of sort values: as written, equal for `DeepEqual`, or loaded from such a form. -/
inductive Kept (sortVals : List (SortValue fl.F)) : List (Any fl.F) → Prop where
  | written : Kept sortVals (sortValuesToJSON sortVals)
  | same {sort : List (Any fl.F)} (equal : deepEqualList fl sort (sortValuesToJSON sortVals) = true) :
      Kept sortVals sort
  | loaded {sort sort' : List (Any fl.F)} (kept : Kept sortVals sort)
      (load : unmarshalList fl (sort.map (Any.marshal fl)) = some sort') : Kept sortVals sort'

def BucketRun.Reflected (rf : ResultFile fl) : BucketRun fl → Prop
  | localUpsert _ id sortVals => ∃ it ∈ rf.items, it.id = id ∧ Kept sortVals it.sort
  | remoteUpsert _ id sortVals => ∃ it ∈ rf.items, it.id = id ∧ Kept sortVals it.sort
  | remove id => id ∉ rf.items.map BucketItem.id
end
section
variable {fl : Floats}
theorem ids_eraseP (items : List (BucketItem fl)) (id : String) :
    (items.eraseP fun it => it.id == id).map BucketItem.id =
      (items.map BucketItem.id).erase id := by
  rw [erase_eq_eraseP', eraseP_map]
  rfl

section
variable {items : List (BucketItem fl)} {sort : List SortSpec} {id : String}
  {sortVals : List (SortValue fl.F)}
theorem upsertItems_perm (h : (upsertItems items sort id sortVals).1 = true) :
    (upsertItems items sort id sortVals).2.Perm
      (⟨sortValuesToJSON sortVals, id⟩ :: items.eraseP fun it => it.id == id) := by
  unfold upsertItems at h ⊢
  cases hfind : items.find? fun it => it.id == id with
  | none =>
    have hnone : items.eraseP (fun it => it.id == id) = items :=
      eraseP_of_forall_not fun it hit => by simpa using find?_eq_none.mp hfind it hit
    rw [hnone]
    exact insertBefore_perm _ _ _
  | some it =>
    simp only [hfind] at h ⊢
    split at h
    · cases h
    · rename_i hdiffers
      rw [if_neg hdiffers]
      exact insertBefore_perm _ _ _

theorem upsertItems_found (h : (upsertItems items sort id sortVals).1 = false) :
    ∃ it ∈ items, it.id = id ∧ deepEqualList fl it.sort (sortValuesToJSON sortVals) = true := by
  unfold upsertItems at h
  cases hfind : items.find? fun it => it.id == id with
  | none => simp [hfind] at h
  | some it =>
    simp only [hfind] at h
    split at h
    · rename_i hsame
      exact ⟨it, mem_of_find?_eq_some hfind, by simpa using find?_some hfind, hsame⟩
    · cases h
end

def listedIds (v : Json) : List String :=
  match v.get? "items" with
  | some (.arr items) => items.map fun it => Json.asString (it.get? "id")
  | _ => []

theorem listedIds_toJson (rf : ResultFile fl) :
    listedIds (rf.toJson fl) = rf.items.map BucketItem.id := by
  simp [listedIds, ResultFile.toJson, Json.get?, Fields.get?_cons, BucketItem.toJson, Json.asString]

theorem stringOf_eq_some {v : Option Json} {s : String} (h : WorkItem.stringOf v = some s) :
    Json.asString v = s := by
  unfold WorkItem.stringOf at h
  unfold Json.asString
  split at h <;> simp_all

theorem ofJson_id {v : Json} {it : BucketItem fl} (h : BucketItem.ofJson fl v = some it) :
    it.id = Json.asString (v.get? "id") := by
  cases v with
  | obj fields =>
    simp only [BucketItem.ofJson, Json.toMap?, Option.pure_def, Option.bind_eq_bind,
      Option.bind_some, Option.bind_eq_some_iff] at h
    obtain ⟨sort, -, id, hid, heq⟩ := h
    cases heq
    exact (stringOf_eq_some hid).symm
  | _ => cases h

theorem bucketItems_ids {vs : List Json} {items : List (BucketItem fl)}
    (h : bucketItems fl vs = some items) :
    items.map BucketItem.id = vs.map fun it => Json.asString (it.get? "id") := by
  induction vs generalizing items with
  | nil =>
    cases h
    rfl
  | cons v vs ih =>
    rw [bucketItems] at h
    cases hv : BucketItem.ofJson fl v with
    | none => simp [hv] at h
    | some it =>
      cases hvs : bucketItems fl vs with
      | none => simp [hv, hvs] at h
      | some its =>
        simp only [hv, hvs, Option.some.injEq] at h
        subst h
        rw [map_cons, map_cons, ih hvs, ofJson_id hv]

theorem ofJson_eq_some {v : Json} {rf : ResultFile fl} (h : ResultFile.ofJson fl v = some rf) :
    WorkItem.stringOf (v.get? "#") = some rf.version ∧
      itemsOf fl (v.get? "items") = some rf.items := by
  cases v with
  | obj fields =>
    simp only [ResultFile.ofJson, Json.toMap?, Option.pure_def, Option.bind_eq_bind,
      Option.bind_some, Option.bind_eq_some_iff] at h
    obtain ⟨version, hversion, schema, -, search, -, coll, -, key, -, items, hitems, heq⟩ := h
    cases heq
    exact ⟨hversion, hitems⟩
  | _ => cases h

theorem listedIds_eq {v : Json} {rf : ResultFile fl} (h : ResultFile.ofJson fl v = some rf) :
    listedIds v = rf.items.map BucketItem.id := by
  have hitems := (ofJson_eq_some h).2
  unfold listedIds
  unfold itemsOf at hitems
  split at hitems
  · rename_i hnone
    rw [hnone, ← Option.some.inj hitems]
    rfl
  · rename_i hnull
    rw [hnull, ← Option.some.inj hitems]
    rfl
  · rename_i values harr
    rw [harr]
    exact (bucketItems_ids hitems).symm
  · cases hitems

theorem ofJson_toJson {rf rf' : ResultFile fl} (h : ResultFile.ofJson fl (rf.toJson fl) = some rf') :
    rf'.version = rf.version ∧ Forall₂ (fun it it' : BucketItem fl => it'.id = it.id ∧
      unmarshalList fl (it.sort.map (Any.marshal fl)) = some it'.sort) rf.items rf'.items := by
  obtain ⟨hversion, hitems⟩ := ofJson_eq_some h
  refine ⟨?_, ?_⟩
  · simpa [ResultFile.toJson, Json.get?, Fields.get?_cons, WorkItem.stringOf] using hversion.symm
  · have hload : bucketItems fl (rf.items.map (BucketItem.toJson fl)) = some rf'.items := by
      simpa [ResultFile.toJson, Json.get?, Fields.get?_cons, itemsOf] using hitems
    clear h hversion hitems
    generalize rf.items = items at hload
    generalize rf'.items = items' at hload
    induction items generalizing items' with
    | nil =>
      cases hload
      exact .nil
    | cons it items ih =>
      rw [map_cons, bucketItems] at hload
      cases hit : BucketItem.ofJson fl (it.toJson fl) with
      | none => simp [hit] at hload
      | some it' =>
        cases hits : bucketItems fl (items.map (BucketItem.toJson fl)) with
        | none => simp [hit, hits] at hload
        | some its =>
          simp only [hit, hits, Option.some.injEq] at hload
          subst hload
          refine .cons ⟨?_, ?_⟩ (ih _ hits)
          · rw [ofJson_id hit]
            simp [BucketItem.toJson, Json.get?, Fields.get?_cons, Json.asString]
          · cases hsort : unmarshalList fl (it.sort.map (Any.marshal fl)) with
            | none =>
              simp [BucketItem.ofJson, BucketItem.toJson, Json.toMap?, Fields.get?_cons,
                anyListOf, hsort] at hit
            | some sort =>
              simp [BucketItem.ofJson, BucketItem.toJson, Json.toMap?, Fields.get?_cons,
                anyListOf, hsort, WorkItem.stringOf] at hit
              rw [← hit]


theorem named_items (rf : ResultFile fl) : (rf.named fl).items = rf.items := by
  unfold ResultFile.named
  split <;> rfl

theorem exists_of_forall₂ {α β : Type} {R : α → β → Prop} {as : List α} {bs : List β}
    (h : Forall₂ R as bs) {a : α} (ha : a ∈ as) : ∃ b ∈ bs, R a b := by
  induction h with
  | nil => cases ha
  | cons hab _ ih =>
    rcases mem_cons.mp ha with rfl | ha
    · exact ⟨_, mem_cons_self, hab⟩
    · obtain ⟨b, hb, hR⟩ := ih ha
      exact ⟨b, mem_cons_of_mem _ hb, hR⟩

namespace BucketRun
theorem reflected_of_unchanged {r : BucketRun fl} {rf : ResultFile fl} {existed : Bool}
    (hexisted : existed = false → rf.items = []) (h : (r.mutate rf existed).1 = false) :
    r.Reflected rf := by
  cases r with
  | localUpsert ctx id sortVals =>
    rw [mutate, Datorium.localUpsert, ResultFile.upsert_eq] at h
    obtain ⟨it, hit, hid, hsame⟩ := upsertItems_found h
    exact ⟨it, hit, hid, .same hsame⟩
  | remoteUpsert ctx id sortVals =>
    rw [mutate, Datorium.remoteUpsert, ResultFile.upsert_eq] at h
    obtain ⟨it, hit, hid, hsame⟩ := upsertItems_found h
    exact ⟨it, hit, hid, .same hsame⟩
  | remove id =>
    cases existed with
    | false => simp [Reflected, hexisted rfl]
    | true =>
      rw [mutate, removeFrom, if_pos rfl, ResultFile.remove_eq] at h
      simpa [Reflected] using h

theorem mutate_items {r : BucketRun fl} {rf : ResultFile fl} {existed : Bool}
    (h : (r.mutate rf existed).1 = true) :
    ∃ own, (r.mutate rf existed).2.items.Perm (own ++ rf.items.eraseP fun it => it.id == r.id) ∧
      (own = [] ∧ (∃ id, r = .remove id) ∨ ∃ sortVals, own = [⟨sortValuesToJSON sortVals, r.id⟩] ∧
          ∀ rf', r.Reflected rf' ↔ ∃ it ∈ rf'.items, it.id = r.id ∧ Kept sortVals it.sort) := by
  cases r with
  | localUpsert ctx id sortVals =>
    rw [mutate, Datorium.localUpsert, ResultFile.upsert_eq] at h ⊢
    exact ⟨_, upsertItems_perm h, .inr ⟨sortVals, rfl, fun _ => Iff.rfl⟩⟩
  | remoteUpsert ctx id sortVals =>
    rw [mutate, Datorium.remoteUpsert, ResultFile.upsert_eq] at h ⊢
    exact ⟨_, upsertItems_perm h, .inr ⟨sortVals, rfl, fun _ => Iff.rfl⟩⟩
  | remove id =>
    cases existed with
    | false => cases h
    | true =>
      rw [mutate, removeFrom, if_pos rfl, ResultFile.remove_eq]
      exact ⟨[], .refl _, .inl ⟨rfl, id, rfl⟩⟩

variable {r r' : BucketRun fl} {rf rf' : ResultFile fl} {existed : Bool}
theorem reflected_of_changed (hdistinct : (rf.items.map BucketItem.id).Nodup)
    (h : (r.mutate rf existed).1 = true) : r.Reflected (r.mutate rf existed).2 := by
  obtain ⟨own, hperm, ⟨rfl, id, rfl⟩ | ⟨sortVals, rfl, hreflected⟩⟩ := mutate_items h
  · have hids := (hperm.map BucketItem.id).mem_iff (a := id)
    rw [nil_append, ids_eraseP] at hids
    exact fun hmem => hdistinct.not_mem_erase (hids.mp hmem)
  · exact (hreflected _).mpr ⟨_, hperm.mem_iff.mpr mem_cons_self, rfl, .written⟩

theorem mem_mutate (h : (r.mutate rf existed).1 = true) {it : BucketItem fl} (hne : it.id ≠ r.id) :
    it ∈ (r.mutate rf existed).2.items ↔ it ∈ rf.items := by
  obtain ⟨own, hperm, hown⟩ := mutate_items h
  have hnot : it ∉ own := by
    rcases hown with ⟨rfl, -⟩ | ⟨sortVals, rfl, -⟩
    · simp
    · intro hmem
      rw [mem_singleton.mp hmem] at hne
      exact hne rfl
  rw [hperm.mem_iff, mem_append, or_iff_right hnot]
  exact mem_eraseP_of_neg (by simpa using hne)

theorem distinct_mutate (hdistinct : (rf.items.map BucketItem.id).Nodup)
    (h : (r.mutate rf existed).1 = true) :
    ((r.mutate rf existed).2.items.map BucketItem.id).Nodup := by
  obtain ⟨own, hperm, hown⟩ := mutate_items h
  rw [(hperm.map BucketItem.id).nodup_iff, map_append, ids_eraseP]
  rcases hown with ⟨rfl, -⟩ | ⟨sortVals, rfl, -⟩
  · exact hdistinct.erase _
  · exact nodup_cons.mpr ⟨hdistinct.not_mem_erase, hdistinct.erase _⟩

theorem Reflected.frame (hr : r'.Reflected rf) (hne : r'.id ≠ r.id)
    (h : (r.mutate rf existed).1 = true) : r'.Reflected (r.mutate rf existed).2 := by
  have hmem : ∀ it : BucketItem fl, it.id = r'.id →
      (it ∈ (r.mutate rf existed).2.items ↔ it ∈ rf.items) :=
    fun it hit => mem_mutate h (hit ▸ hne)
  cases r' with
  | localUpsert ctx id sortVals =>
    obtain ⟨it, hit, hid, hkept⟩ := hr
    exact ⟨it, (hmem it hid).mpr hit, hid, hkept⟩
  | remoteUpsert ctx id sortVals =>
    obtain ⟨it, hit, hid, hkept⟩ := hr
    exact ⟨it, (hmem it hid).mpr hit, hid, hkept⟩
  | remove id =>
    intro hlisted
    obtain ⟨it, hit, hid⟩ := mem_map.mp hlisted
    exact hr (mem_map.mpr ⟨it, (hmem it hid).mp hit, hid⟩)

theorem Reflected.of_items (h : rf'.items = rf.items) (hr : r.Reflected rf) : r.Reflected rf' := by
  cases r <;> simpa [Reflected, h] using hr

theorem Reflected.loaded (hr : r.Reflected rf)
    (hload : ResultFile.ofJson fl (rf.toJson fl) = some rf') : r.Reflected rf' := by
  obtain ⟨-, hitems⟩ := ofJson_toJson hload
  have hupsert : ∀ id sortVals, (∃ it ∈ rf.items, it.id = id ∧ Kept sortVals it.sort) →
      ∃ it ∈ rf'.items, it.id = id ∧ Kept sortVals it.sort := by
    rintro id sortVals ⟨it, hit, hid, hkept⟩
    obtain ⟨it', hit', hsame, hsort⟩ := exists_of_forall₂ hitems hit
    exact ⟨it', hit', hsame.trans hid, .loaded hkept hsort⟩
  cases r with
  | localUpsert ctx id sortVals => exact hupsert id sortVals hr
  | remoteUpsert ctx id sortVals => exact hupsert id sortVals hr
  | remove id =>
    have hids : rf'.items.map BucketItem.id = rf.items.map BucketItem.id := by
      rw [← listedIds_eq hload, listedIds_toJson]
    rw [Reflected, hids]
    exact hr
end BucketRun
end
end Datorium
