
import Mathlib.Data.Finset.Basic
import Datorium.Search.Evaluate
import Datorium.Search.Replicas
import Datorium.Search.Store
namespace Datorium
open Framework List
section
variable {fl : Floats}
structure Floats.Rereads (fl : Floats) : Prop where
  parse_marshal : ∀ f, fl.parse (fl.marshal f) = some f
  eq_self : ∀ f, fl.eq f f = true

theorem Segment.stable (hfl : fl.Rereads) {v : Any fl.F} {seg : String} (h : Segment fl v seg) :
    v.Stable fl := by
  cases h with
  | null => exact Any.stable_null
  | bool b => exact Any.stable_bool b
  | float f => exact Any.stable_float (hfl.parse_marshal f)
  | str s => exact Any.stable_str s

theorem key_expandBuckets {P : Any fl.F → Prop} {outs : List (ClauseOutcome fl.F)}
    (houts : ∀ out ∈ outs, ∀ o ∈ out.options, P o.key)
    {cur : List (List String × List (Any fl.F))} (hcur : ∀ pair ∈ cur, ∀ v ∈ pair.2, P v) :
    ∀ b ∈ expandBuckets outs cur, ∀ v ∈ b.key, P v := by
  induction outs generalizing cur with
  | nil =>
    intro b hb
    obtain ⟨pair, hpair, rfl⟩ := mem_map.mp hb
    exact hcur pair hpair
  | cons out outs ih =>
    have hrest : ∀ out ∈ outs, ∀ o ∈ out.options, P o.key :=
      fun out' hout' => houts out' (mem_cons_of_mem _ hout')
    intro b hb
    rw [expandBuckets] at hb
    split at hb
    · exact ih hrest hcur b hb
    · split at hb
      · cases hb
      · refine ih hrest ?_ b hb
        intro pair hpair v hv
        obtain ⟨before, hbefore, hmem⟩ := mem_flatMap.mp hpair
        obtain ⟨o, ho, rfl⟩ := mem_map.mp hmem
        rcases mem_append.mp hv with hv | hv
        · exact hcur before hbefore v hv
        · rw [mem_singleton.mp hv]
          exact houts out mem_cons_self o ho

def bucketKey (d : Definition fl.F) (segs : List String) (doc : JsonFields) : List (Any fl.F) :=
  match evaluateDocument fl d (some doc) with
  | .error _ => []
  | .ok buckets => ((buckets.find? fun b => b.segments = segs).map EvalResult.key).getD []

theorem segment_bucketKey (d : Definition fl.F) (segs : List String) (doc : JsonFields) :
    ∀ v ∈ bucketKey d segs doc, ∃ seg, Segment fl v seg := by
  intro v hv
  unfold bucketKey at hv
  cases houts : evaluateClauses fl doc 0 d.clauses with
  | error message => simp [evaluateDocument, houts] at hv
  | ok outs =>
    cases outs with
    | none => simp [evaluateDocument, houts] at hv
    | some outs =>
      simp only [evaluateDocument, houts] at hv
      cases hb : (expandBuckets outs [([], [])]).find? fun b => b.segments = segs with
      | none => simp [hb] at hv
      | some b =>
        rw [hb] at hv
        exact key_expandBuckets (P := fun v => ∃ seg, Segment fl v seg)
          (fun out hout o ho => ⟨_, segment_evaluateClauses houts out hout o ho⟩) (by simp) b
          (mem_of_find?_eq_some hb) v hv

theorem stable_bucketKey (hfl : fl.Rereads) (d : Definition fl.F) (segs : List String)
    (doc : JsonFields) : ∀ v ∈ bucketKey d segs doc, v.Stable fl := by
  intro v hv
  obtain ⟨seg, hseg⟩ := segment_bucketKey d segs doc v hv
  exact hseg.stable hfl

def contextFor (collection search : String) (d : Definition fl.F) (segs : List String)
    (doc : JsonFields) : BucketContext fl := ⟨collection, search, bucketKey d segs doc, d.sort⟩

def Mutation.document : Mutation → JsonFields
  | .upsert _ doc => doc
  | .remove _ => []

/-- A mutation by `LocalApplier`, the key being the one the document was evaluated to. -/
def applyComputed (collection search : String) (d : Definition fl.F) (segs : List String)
    (version : String) (file : Option Json) (m : Mutation) : Option (Option Json) :=
  applyLocally (contextFor collection search d segs m.document) version file m

def Mutation.docId : Mutation → String
  | .upsert id _ => id
  | .remove id => id

def Mutation.onIds (ids : Finset String) : Mutation → Finset String
  | .upsert id _ => insert id ids
  | .remove id => ids.erase id

def idsAfter (ms : List Mutation) : Finset String := ms.foldl Mutation.onIds ∅

structure SortedIndex (fl : Floats) (sort : List SortSpec) (ms : List Mutation)
    (rf : ResultFile fl) : Prop where
  once : (rf.items.map BucketItem.id).Nodup
  ids : (rf.items.map BucketItem.id).toFinset = idsAfter ms
  values : ∀ it ∈ rf.items, it.sort = sortValuesToJSON (lastValues fl sort ms it.id)
  sorted : InOrder fl sort ms rf

def ResultFile.others (rf : ResultFile fl) (id : String) : List (BucketItem fl) :=
  rf.items.filter fun it => it.id ≠ id

def SortSpec.Given (kind : String → KeyKind) (doc : JsonFields) (spec : SortSpec) : Prop :=
  match kind spec.field with
  | .string => spec.field = "/!" ∨ ∃ s, pointerGet doc spec.field = some (.str s)
  | .boolean => spec.field ≠ "/!" ∧ ∃ b, pointerGet doc spec.field = some (.bool b)

def Mutation.Sortable (kind : String → KeyKind) (sort : List SortSpec) (m : Mutation) : Prop :=
  ∀ id doc, m = .upsert id doc → ∀ spec ∈ sort, spec.Given kind doc

def keyShapes (kind : String → KeyKind) (sort : List SortSpec) : List KeyShape :=
  sort.map fun spec => ⟨kind spec.field, .null⟩

theorem SortSpec.Given.fits {kind : String → KeyKind} {doc : JsonFields} {spec : SortSpec}
    (h : spec.Given kind doc) :
    KeyShape.Fits ⟨kind spec.field, .null⟩ (computeSortValue fl doc spec) := by
  unfold SortSpec.Given at h
  unfold computeSortValue
  cases hkind : kind spec.field with
  | string =>
    rw [hkind] at h
    by_cases hid : spec.field = "/!"
    · rw [if_pos hid]
      rfl
    · obtain ⟨s, hs⟩ := h.resolve_left hid
      rw [if_neg hid, hs]
      simp [Any.ofJson, KeyShape.Fits]
  | boolean =>
    rw [hkind] at h
    obtain ⟨hid, b, hb⟩ := h
    rw [if_neg hid, hb]
    simp [Any.ofJson, KeyShape.Fits]

theorem Mutation.Sortable.conforms {kind : String → KeyKind} {sort : List SortSpec} {m : Mutation}
    (h : m.Sortable kind sort) : m.Conforms fl (keyShapes kind sort) sort := by
  cases m with
  | remove id => trivial
  | upsert id doc =>
    have hgiven := h id doc rfl
    rw [Mutation.Conforms, Datorium.Conforms, keyShapes, computeSortValues,
      forall₂_map_left_iff, forall₂_map_right_iff, forall₂_same]
    exact fun spec hspec => (hgiven spec hspec).fits

theorem gapsLast_keyShapes (kind : String → KeyKind) (sort : List SortSpec) :
    GapsLast (keyShapes kind sort) := by
  intro shape hshape
  obtain ⟨spec, -, rfl⟩ := mem_map.mp (mem_of_mem_dropLast hshape)
  rfl

theorem Saved.unique {file : Option Json} {items items' : List (BucketItem fl)}
    (h : Saved file items) (h' : Saved file items') : items = items' := by
  obtain ⟨rf, existed, hload, -, rfl, -⟩ := h
  obtain ⟨rf', existed', hload', -, rfl, -⟩ := h'
  rw [hload] at hload'
  cases hload'
  rfl

section
variable {items : List (BucketItem fl)} {sort : List SortSpec} {id : String}
  {vals : List (SortValue fl.F)}
theorem others_insertBefore (p : BucketItem fl → Bool) (vs : List (Any fl.F)) :
    (insertBefore p ⟨vs, id⟩ items).filter (fun it => it.id ≠ id) =
      items.filter fun it => it.id ≠ id := by
  induction items with
  | nil => simp [insertBefore]
  | cons it items ih =>
    rw [insertBefore]
    split
    · simp
    · rw [filter_cons, filter_cons, ih]

theorem others_eraseP : (items.eraseP fun it => it.id == id).filter (fun it => it.id ≠ id) =
    items.filter fun it => it.id ≠ id := by
  induction items with
  | nil => rfl
  | cons it items ih =>
    by_cases hit : it.id = id
    · simp [hit]
    · simpa [hit] using ih

theorem others_mutateItems (sort : List SortSpec) (items : List (BucketItem fl)) (m : Mutation) :
    (mutateItems sort items m).filter (fun it => it.id ≠ m.docId) =
      items.filter fun it => it.id ≠ m.docId := by
  cases m with
  | remove id => exact others_eraseP
  | upsert id doc =>
    rw [mutateItems, upsertItems]
    split
    · split
      · rfl
      · exact (others_insertBefore _ _).trans others_eraseP
    · exact others_insertBefore _ _

theorem ids_upsertItems (items : List (BucketItem fl)) (sort : List SortSpec) (id : String)
    (vals : List (SortValue fl.F)) :
    (id ∈ items.map BucketItem.id ∧ (upsertItems items sort id vals).2 = items) ∨
      ((upsertItems items sort id vals).2.map BucketItem.id).Perm
        (id :: (items.map BucketItem.id).erase id) := by
  cases h : (upsertItems items sort id vals).1 with
  | false =>
    obtain ⟨it, hit, rfl, -⟩ := upsertItems_found h
    exact .inl ⟨mem_map_of_mem hit, upsertItems_unchanged h⟩
  | true =>
    right
    rw [← ids_eraseP]
    exact (upsertItems_perm h).map BucketItem.id

theorem nodup_mutateItems (h : (items.map BucketItem.id).Nodup) (sort : List SortSpec)
    (m : Mutation) : ((mutateItems sort items m).map BucketItem.id).Nodup := by
  cases m with
  | remove id =>
    rw [mutateItems, ids_eraseP]
    exact h.erase id
  | upsert id doc =>
    rcases ids_upsertItems items sort id (computeSortValues fl sort doc) with ⟨-, hsame⟩ | hperm
    · rw [mutateItems, hsame]
      exact h
    · exact hperm.nodup_iff.mpr (nodup_cons.mpr ⟨h.not_mem_erase, h.erase id⟩)

theorem ids_mutateItems (h : (items.map BucketItem.id).Nodup) (sort : List SortSpec)
    (m : Mutation) : ((mutateItems sort items m).map BucketItem.id).toFinset =
      m.onIds (items.map BucketItem.id).toFinset := by
  ext x
  cases m with
  | remove id =>
    rw [mutateItems, ids_eraseP, Mutation.onIds, Finset.mem_erase, mem_toFinset,
      mem_toFinset, h.mem_erase_iff]
  | upsert id doc =>
    rw [Mutation.onIds, Finset.mem_insert, mem_toFinset, mem_toFinset]
    rcases ids_upsertItems items sort id (computeSortValues fl sort doc) with ⟨hmem, hsame⟩ | hperm
    · rw [mutateItems, hsame]
      constructor
      · exact .inr
      · rintro (rfl | hx)
        · exact hmem
        · exact hx
    · rw [mutateItems, hperm.mem_iff, mem_cons, h.mem_erase_iff]
      by_cases hx : x = id <;> simp [hx]
end

def IndexFile (fl : Floats) (kind : String → KeyKind) (sort : List SortSpec)
    (done : List Mutation) (file : Option Json) : Prop :=
  OrderedFile fl (keyShapes kind sort) sort done file ∧
    ∃ items : List (BucketItem fl), Saved file items ∧ (items.map BucketItem.id).Nodup ∧
      (items.map BucketItem.id).toFinset = idsAfter done

section
variable {kind : String → KeyKind} {d : Definition fl.F} {done : List Mutation}
  {file : Option Json} {m : Mutation}
theorem IndexFile.start (kind : String → KeyKind) (sort : List SortSpec) :
    IndexFile fl kind sort [] none :=
  ⟨⟨[], saved_none, ⟨by simp, by simp, by simp⟩, by simp⟩, [], saved_none, by simp, by simp [idsAfter]⟩

theorem Saved.applyComputed {items : List (BucketItem fl)} (h : Saved file items)
    (hfl : fl.Rereads) (hm : m.Sortable kind d.sort) (coll search : String)
    (segs : List String) (version : String) :
    ∃ file', applyComputed coll search d segs version file m = some file' ∧
      Saved file' (mutateItems d.sort items m) := by
  have hconforms : m.Conforms fl (keyShapes kind d.sort) d.sort := hm.conforms
  refine @Saved.applyLocally _ (contextFor coll search d segs m.document) _ _ _ h
    (stable_bucketKey hfl d segs m.document) ?_ version
  rintro id doc rfl
  exact hconforms.plain

theorem IndexFile.step (hfl : fl.Rereads) (h : IndexFile fl kind d.sort done file)
    (hm : m.Sortable kind d.sort) (coll search : String) (segs : List String)
    (version : String) :
    ∃ file', applyComputed coll search d segs version file m = some file' ∧
      IndexFile fl kind d.sort (done ++ [m]) file' := by
  obtain ⟨hordered, items, hsaved, hnodup, hids⟩ := h
  obtain ⟨file', hfile', hordered'⟩ := @OrderedFile.step _ _
    (contextFor coll search d segs m.document) (gapsLast_keyShapes kind d.sort)
    (by simp [contextFor, keyShapes]) (stable_bucketKey hfl d segs m.document) _ _ _ version hordered
    hm.conforms
  obtain ⟨file'', hfile'', hsaved'⟩ := hsaved.applyComputed hfl hm coll search segs version
  rw [applyComputed, hfile'] at hfile''
  cases hfile''
  refine ⟨file', hfile', hordered', _, hsaved', nodup_mutateItems hnodup _ _, ?_⟩
  rw [ids_mutateItems hnodup, hids, idsAfter, idsAfter, foldl_append]
  rfl

theorem IndexFile.index (h : IndexFile fl kind d.sort done file) :
    ∃ rf existed, loadBucket fl file = some (rf, existed) ∧ SortedIndex fl d.sort done rf ∧
      Saved file rf.items := by
  obtain ⟨⟨entries, hsaved', hordered, hlast⟩, items, hsaved, hnodup, hids⟩ := h
  have hentries : items = entries.map Entry.item := hsaved.unique hsaved'
  have hsaved'' := hsaved
  obtain ⟨rf, existed, hload, -, hitems, -⟩ := hsaved
  rw [← hitems] at hnodup hids hentries hsaved''
  refine ⟨rf, existed, hload, ⟨hnodup, hids, fun it hit => ?_, ?_⟩, hsaved''⟩
  · rw [hentries] at hit
    obtain ⟨en, hen, rfl⟩ := mem_map.mp hit
    exact congrArg sortValuesToJSON (hlast en hen).symm
  · have hmap : rf.items.map BucketItem.id = entries.map Prod.fst := by
      rw [hentries, map_map]
      rfl
    rw [InOrder, hmap, pairwise_map]
    refine hordered.sorted.imp_of_mem fun {a b} ha hb hab => ?_
    rw [hlast a ha, hlast b hb]
    exact hab
end

/-- With sort fields that are the id, strings or booleans and always there, every sequence of
mutations leaves a sorted index. -/
theorem bucket_is_sorted_index (hfl : fl.Rereads) (kind : String → KeyKind)
    (coll search : String) (d : Definition fl.F) (segs : List String)
    (versions : Nat → String) (ms : List Mutation) (hms : ∀ m ∈ ms, m.Sortable kind d.sort) :
    ∃ file rf existed,
      runMutations (applyComputed coll search d segs) versions ms none = some file ∧
      loadBucket fl file = some (rf, existed) ∧ SortedIndex fl d.sort ms rf ∧
      ∀ m version, m.Sortable kind d.sort → ∃ file' rf' existed',
        applyComputed coll search d segs version file m = some file' ∧
        loadBucket fl file' = some (rf', existed') ∧ SortedIndex fl d.sort (ms ++ [m]) rf' ∧
        rf'.others m.docId = rf.others m.docId := by
  obtain ⟨file, hrun, hfile⟩ := runMutations_invariant (I := IndexFile fl kind d.sort)
    (fun _ _ _ version h hm => h.step hfl hm coll search segs version) ms hms versions
    (IndexFile.start kind d.sort)
  rw [nil_append] at hfile
  obtain ⟨rf, existed, hload, hindex, hsaved⟩ := hfile.index
  refine ⟨file, rf, existed, hrun, hload, hindex, fun m version hm => ?_⟩
  obtain ⟨file', hstep, hfile'⟩ := hfile.step hfl hm coll search segs version
  obtain ⟨rf', existed', hload', hindex', hsaved'⟩ := hfile'.index
  obtain ⟨file'', hstep', hmutated⟩ := hsaved.applyComputed hfl hm coll search segs version
  rw [hstep] at hstep'
  cases hstep'
  refine ⟨file', rf', existed', hstep, hload', hindex', ?_⟩
  rw [ResultFile.others, hsaved'.unique hmutated]
  exact others_mutateItems d.sort rf.items m
end
namespace Sample
theorem floats_reread : floats.Rereads where
  parse_marshal := by
    have hall : ∀ f : Fin 3, (if numberText f = "0" then some (0 : Fin 3)
        else if numberText f = "-0" then some 1 else if numberText f = "31" then some 2
        else none) = some f := by
      decide
    exact hall
  eq_self := floats_decimal.eq_self

def filmsByTitle : Definition floats.F := ⟨[], [byTitle]⟩

def titledFilms : List Mutation :=
  [.upsert "f1" [("title", .str "Alien")], .upsert "f3" [("title", .str "Brazil")],
    .upsert "f2" [("title", .str "Cube")], .remove "f1"]

theorem titledFilms_sortable : ∀ m ∈ titledFilms, m.Sortable (fun _ => .string) filmsByTitle.sort := by
  intro m hm id doc hdoc spec hspec
  obtain rfl := mem_singleton.mp hspec
  simp only [titledFilms, mem_cons, not_mem_nil, or_false] at hm
  rcases hm with rfl | rfl | rfl | rfl <;> cases hdoc <;> exact .inr ⟨_, rfl⟩

theorem films_sorted_by_title : ∃ file rf existed,
    runMutations (applyComputed "films" "byTitle" filmsByTitle []) (fun _ => "v") titledFilms none =
        some file ∧
      loadBucket floats file = some (rf, existed) ∧ SortedIndex floats [byTitle] titledFilms rf ∧
      ∀ m version, m.Sortable (fun _ => .string) [byTitle] → ∃ file' rf' existed',
        applyComputed "films" "byTitle" filmsByTitle [] version file m = some file' ∧
        loadBucket floats file' = some (rf', existed') ∧
        SortedIndex floats [byTitle] (titledFilms ++ [m]) rf' ∧ rf'.others m.docId = rf.others m.docId :=
  bucket_is_sorted_index floats_reread (fun _ => .string) "films" "byTitle" filmsByTitle []
    (fun _ => "v") titledFilms titledFilms_sortable
end Sample
end Datorium
