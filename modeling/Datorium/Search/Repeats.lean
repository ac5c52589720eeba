
import Datorium.Search.Upserts
/-!
# Repeated upserts

Stored sort values have been written and read: a number is read as a `float64`, while the document
gives its text.
-/
namespace Datorium
open Framework List
section
variable {fl : Floats}
inductive Any.Textless {F : Type} : Any F → Prop where
  | null : Textless .null
  | bool (b : Bool) : Textless (.bool b)
  | float (f : F) : Textless (.float f)
  | str (s : String) : Textless (.str s)
  | arr {items : List (Any F)} (items_textless : ∀ v ∈ items, Textless v) : Textless (.arr items)
  | obj {fields : List (String × Any F)} (fields_textless : ∀ f ∈ fields, Textless f.2) :
      Textless (.obj fields)

inductive Any.Keyed {F : Type} : Any F → Prop where
  | null : Keyed .null
  | bool (b : Bool) : Keyed (.bool b)
  | number (text : String) : Keyed (.number text)
  | float (f : F) : Keyed (.float f)
  | str (s : String) : Keyed (.str s)
  | arr {items : List (Any F)} (items_keyed : ∀ v ∈ items, Keyed v) : Keyed (.arr items)
  | obj {fields : List (String × Any F)} (once : (fields.map Prod.fst).Nodup)
      (fields_keyed : ∀ f ∈ fields, Keyed f.2) : Keyed (.obj fields)

variable {items : List (BucketItem fl)} {F : Type} {vs : List (Any fl.F)}
  {gs fields : List (String × Any fl.F)} {w : Any fl.F}
theorem deepEqualList_eq_true {ws : List (Any fl.F)} :
    deepEqualList fl vs ws = true ↔ Forall₂ (fun v w => deepEqual fl v w = true) vs ws := by
  induction vs generalizing ws with
  | nil => cases ws <;> simp [deepEqualList]
  | cons v vs ih => cases ws <;> simp [deepEqualList, ih]

theorem deepEqualFields_eq_true {fs : List (String × Any fl.F)} : deepEqualFields fl fs gs = true ↔
      ∀ f ∈ fs, ∃ w, Fields.get? f.1 gs = some w ∧ deepEqual fl f.2 w = true := by
  induction fs with
  | nil => simp [deepEqualFields]
  | cons f fs ih =>
    obtain ⟨key, v⟩ := f
    rw [deepEqualFields, Bool.and_eq_true, ih, forall_mem_cons, deepEqualField]
    refine and_congr_left fun _ => ?_
    cases Fields.get? key gs <;> simp

theorem unmarshalList_eq_some {xs : List Json} : unmarshalList fl xs = some vs ↔
      Forall₂ (fun x v => Any.unmarshal fl x = some v) xs vs := by
  induction xs generalizing vs with
  | nil => cases vs <;> simp [unmarshalList]
  | cons x xs ih =>
    rw [unmarshalList]
    constructor
    · intro h
      split at h
      · rename_i v rest hv hrest
        cases h
        exact .cons hv (ih.mp hrest)
      · cases h
    · intro h
      cases h with
      | cons hv hrest => rw [hv, ih.mpr hrest]

theorem unmarshalFields_eq_some {fs : JsonFields} : unmarshalFields fl fs = some gs ↔
      Forall₂ (fun f g => g.1 = f.1 ∧ Any.unmarshal fl f.2 = some g.2) fs gs := by
  induction fs generalizing gs with
  | nil => cases gs <;> simp [unmarshalFields]
  | cons f fs ih =>
    obtain ⟨key, x⟩ := f
    rw [unmarshalFields, unmarshalField]
    constructor
    · intro h
      cases hx : Any.unmarshal fl x with
      | none => simp [hx] at h
      | some v =>
        cases hrest : unmarshalFields fl fs with
        | none => simp [hx, hrest] at h
        | some rest =>
          simp only [hx, hrest, Option.map_some, Option.some.injEq] at h
          subst h
          exact .cons ⟨rfl, hx⟩ (ih.mp hrest)
    · intro h
      cases h with
      | @cons _ g _ _ hv hrest =>
        obtain ⟨key', v⟩ := g
        obtain ⟨rfl, hv⟩ := hv
        simp only at hv
        simp [hv, ih.mpr hrest]

theorem exists_forall₂ {α β : Type} {R : α → β → Prop} {xs : List α} (h : ∀ x ∈ xs, ∃ y, R x y) :
    ∃ ys, Forall₂ R xs ys := by
  induction xs with
  | nil => exact ⟨[], .nil⟩
  | cons x xs ih =>
    obtain ⟨y, hy⟩ := h x mem_cons_self
    obtain ⟨ys, hys⟩ := ih fun x' hx' => h x' (mem_cons_of_mem _ hx')
    exact ⟨y :: ys, .cons hy hys⟩

theorem exists_of_forall₂_right {α β : Type} {R : α → β → Prop} {xs : List α} {ys : List β}
    (h : Forall₂ R xs ys) {y : β} (hy : y ∈ ys) : ∃ x ∈ xs, R x y := by
  induction h with
  | nil => cases hy
  | cons hxy _ ih =>
    rcases mem_cons.mp hy with rfl | hy
    · exact ⟨_, mem_cons_self, hxy⟩
    · obtain ⟨x, hx, hR⟩ := ih hy
      exact ⟨x, mem_cons_of_mem _ hx, hR⟩

theorem map_fst_of_forall₂ {α β γ : Type} {fs : List (α × β)} {gs : List (α × γ)}
    (h : Forall₂ (fun f g => g.1 = f.1) fs gs) : gs.map Prod.fst = fs.map Prod.fst := by
  induction h with
  | nil => rfl
  | cons hkey _ ih => rw [map_cons, map_cons, hkey, ih]

theorem textless_unmarshal : ∀ (x : Json) (v : Any fl.F), Any.unmarshal fl x = some v → v.Textless
  | .null, v, h => by
      rw [Any.unmarshal] at h
      cases h
      exact .null
  | .bool b, v, h => by
      rw [Any.unmarshal] at h
      cases h
      exact .bool b
  | .num text, v, h => by
      rw [Any.unmarshal] at h
      obtain ⟨f, -, rfl⟩ := Option.map_eq_some_iff.mp h
      exact .float f
  | .str s, v, h => by
      rw [Any.unmarshal] at h
      cases h
      exact .str s
  | .arr items, v, h => by
      rw [Any.unmarshal] at h
      obtain ⟨vs, hvs, rfl⟩ := Option.map_eq_some_iff.mp h
      refine .arr fun v hv => ?_
      obtain ⟨x, hx, hxv⟩ := exists_of_forall₂_right (unmarshalList_eq_some.mp hvs) hv
      exact textless_unmarshal x v hxv
  | .obj fields, v, h => by
      rw [Any.unmarshal] at h
      obtain ⟨gs, hgs, rfl⟩ := Option.map_eq_some_iff.mp h
      refine .obj fun g hg => ?_
      obtain ⟨⟨key, x⟩, hf, -, hfg⟩ := exists_of_forall₂_right (unmarshalFields_eq_some.mp hgs) hg
      have hlt := sizeOf_lt_of_mem hf
      rw [Prod.mk.sizeOf_spec] at hlt
      have : sizeOf x < 1 + sizeOf fields := by omega
      exact textless_unmarshal x g.2 hfg
termination_by x => sizeOf x

theorem marshal_arr (items : List (Any fl.F)) :
    (Any.arr items).marshal fl = .arr (items.map (Any.marshal fl)) := by
  rw [Any.marshal, Any.written, sortKeys]
  congr 1
  induction items with
  | nil => simp [writtenList, sortItems]
  | cons v items ih => rw [writtenList, sortItems, ih, map_cons, Any.marshal]

theorem marshal_obj (fields : List (String × Any fl.F)) : (Any.obj fields).marshal fl =
      .obj (Fields.sortByKey (fields.map fun f => (f.1, f.2.marshal fl))) := by
  rw [Any.marshal, Any.written, sortKeys]
  congr 2
  induction fields with
  | nil => simp [writtenFields, sortFields]
  | cons f fields ih =>
    rw [writtenFields, sortFields, ih, map_cons, writtenField, sortField, Any.marshal]

theorem unmarshal_marshal_obj : Any.unmarshal fl ((Any.obj fields).marshal fl) = some w ↔
      ∃ gs, w = .obj gs ∧ Forall₂ (fun f g => g.1 = f.1 ∧ Any.unmarshal fl f.2 = some g.2)
        (Fields.sortByKey (fields.map fun f => (f.1, f.2.marshal fl))) gs := by
  rw [marshal_obj, Any.unmarshal, Option.map_eq_some_iff]
  refine exists_congr fun gs => ?_
  rw [unmarshalFields_eq_some, and_comm, eq_comm]

theorem unmarshal_marshal_arr {items : List (Any fl.F)} :
    Any.unmarshal fl ((Any.arr items).marshal fl) = some w ↔ ∃ ws, w = .arr ws ∧
        Forall₂ (fun v w => Any.unmarshal fl (v.marshal fl) = some w) items ws := by
  rw [marshal_arr, Any.unmarshal, Option.map_eq_some_iff]
  refine exists_congr fun ws => ?_
  rw [unmarshalList_eq_some, forall₂_map_left_iff, and_comm, eq_comm]

theorem mem_sortByKey_marshal {f : String × Json} :
    f ∈ Fields.sortByKey (fields.map fun f => (f.1, f.2.marshal fl)) ↔
      ∃ g ∈ fields, (g.1, g.2.marshal fl) = f := by
  rw [(Fields.perm_sortByKey _).mem_iff, mem_map]

theorem perm_keys (h : Forall₂ (fun f g => g.1 = f.1 ∧ Any.unmarshal fl f.2 = some g.2)
      (Fields.sortByKey (fields.map fun f => (f.1, f.2.marshal fl))) gs) :
    (gs.map Prod.fst).Perm (fields.map Prod.fst) := by
  rw [map_fst_of_forall₂ (h.imp fun _ _ h => h.1)]
  simpa [Function.comp_def] using
    (Fields.perm_sortByKey (fields.map fun f => (f.1, f.2.marshal fl))).map Prod.fst

theorem Any.Keyed.reread {v : Any fl.F} (h : v.Keyed)
    (hw : Any.unmarshal fl (v.marshal fl) = some w) : w.Keyed := by
  induction h generalizing w with
  | null =>
    rw [Any.stable_null] at hw
    cases hw
    exact .null
  | bool b =>
    rw [Any.stable_bool] at hw
    cases hw
    exact .bool b
  | str s =>
    rw [Any.stable_str] at hw
    cases hw
    exact .str s
  | number text =>
    simp only [Any.marshal, Any.written, sortKeys, Any.unmarshal, Option.map_eq_some_iff] at hw
    obtain ⟨f, -, rfl⟩ := hw
    exact .float f
  | float f =>
    simp only [Any.marshal, Any.written, sortKeys, Any.unmarshal, Option.map_eq_some_iff] at hw
    obtain ⟨f, -, rfl⟩ := hw
    exact .float f
  | arr _ ih =>
    obtain ⟨ws, rfl, hws⟩ := unmarshal_marshal_arr.mp hw
    refine .arr fun w hw => ?_
    obtain ⟨v, hv, hvw⟩ := exists_of_forall₂_right hws hw
    exact ih v hv hvw
  | obj honce _ ih =>
    obtain ⟨gs, rfl, hgs⟩ := unmarshal_marshal_obj.mp hw
    refine .obj ((perm_keys hgs).nodup_iff.mpr honce) fun g hg => ?_
    obtain ⟨f', hf', -, hread⟩ := exists_of_forall₂_right hgs hg
    obtain ⟨f, hf, rfl⟩ := mem_sortByKey_marshal.mp hf'
    exact ih f hf hread

theorem Any.Textless.reread (hfl : fl.Rereads) {v : Any fl.F} (h : v.Textless) (hkeyed : v.Keyed) :
    ∃ w, Any.unmarshal fl (v.marshal fl) = some w ∧ deepEqual fl w v = true := by
  induction h with
  | null => exact ⟨.null, Any.stable_null, by simp [deepEqual]⟩
  | bool b => exact ⟨.bool b, Any.stable_bool b, by simp [deepEqual]⟩
  | float f =>
    exact ⟨.float f, Any.stable_float (hfl.parse_marshal f),
      by simpa [deepEqual] using hfl.eq_self f⟩
  | str s => exact ⟨.str s, Any.stable_str s, by simp [deepEqual]⟩
  | @arr items _ ih =>
    cases hkeyed with
    | arr hitems =>
      obtain ⟨ws, hws⟩ := exists_forall₂ fun v hv => ih v hv (hitems v hv)
      refine ⟨.arr ws, unmarshal_marshal_arr.mpr ⟨ws, rfl, hws.imp fun _ _ h => h.1⟩, ?_⟩
      rw [deepEqual, deepEqualList_eq_true]
      exact (hws.imp fun _ _ h => h.2).flip
  | @obj fields _ ih =>
    cases hkeyed with
    | obj honce hfields =>
      obtain ⟨gs, hgs⟩ := exists_forall₂ (R := fun (f : String × Json) (g : String × Any fl.F) =>
        (g.1 = f.1 ∧ Any.unmarshal fl f.2 = some g.2) ∧
          ∃ w, Fields.get? g.1 fields = some w ∧ deepEqual fl g.2 w = true) fun f' hf' => by
          obtain ⟨f, hf, rfl⟩ := mem_sortByKey_marshal.mp hf'
          obtain ⟨w, hw, hequal⟩ := ih f hf (hfields f hf)
          exact ⟨(f.1, w), ⟨rfl, hw⟩, f.2, Fields.get?_of_mem honce hf, hequal⟩
      have hread := hgs.imp fun _ _ h => h.1
      have hlength : gs.length = fields.length := by simpa using (perm_keys hread).length_eq
      refine ⟨.obj gs, unmarshal_marshal_obj.mpr ⟨gs, rfl, hread⟩, ?_⟩
      rw [deepEqual, hlength, BEq.rfl, Bool.true_and, deepEqualFields_eq_true]
      intro g hg
      obtain ⟨f, -, hf⟩ := exists_of_forall₂_right hgs hg
      exact hf.2

theorem Any.Textless.of_deepEqual (h : w.Textless) (hw : w.Keyed) {v : Any fl.F} (hv : v.Keyed)
    (hequal : deepEqual fl w v = true) : v.Textless := by
  induction h generalizing v with
  | null => cases v <;> simp [deepEqual] at hequal; exact .null
  | bool b => cases v <;> simp [deepEqual] at hequal; exact .bool _
  | float f => cases v <;> simp [deepEqual] at hequal; exact .float _
  | str s => cases v <;> simp [deepEqual] at hequal; exact .str _
  | arr _ ih =>
    cases hv with
    | arr hvs =>
      cases hw with
      | arr hws =>
        rw [deepEqual, deepEqualList_eq_true] at hequal
        refine .arr fun v hv => ?_
        obtain ⟨w, hw, hwv⟩ := exists_of_forall₂_right hequal hv
        exact ih w hw (hws w hw) (hvs v hv) hwv
    | _ => simp [deepEqual] at hequal
  | @obj fs _ ih =>
    cases hv with
    | @obj gs hgs hgkeyed =>
      cases hw with
      | obj hfs hfkeyed =>
        rw [deepEqual, Bool.and_eq_true, beq_iff_eq, deepEqualFields_eq_true] at hequal
        obtain ⟨hlength, hfields⟩ := hequal
        -- as many keys on both sides, so every key on the right is met
        have hsub : fs.map Prod.fst ⊆ gs.map Prod.fst := by
          intro key hkey
          obtain ⟨f, hf, rfl⟩ := mem_map.mp hkey
          obtain ⟨w, hw, -⟩ := hfields f hf
          exact mem_map.mpr ⟨_, Fields.mem_of_get? hw, rfl⟩
        have hperm : (fs.map Prod.fst).Perm (gs.map Prod.fst) :=
          (subperm_of_subset hfs hsub).perm_of_length_le (by simp [hlength])
        refine .obj fun g hg => ?_
        obtain ⟨f, hf, hfg⟩ := mem_map.mp (hperm.mem_iff.mpr (mem_map_of_mem hg))
        obtain ⟨w, hw, hwv⟩ := hfields f hf
        rw [hfg, Fields.get?_of_mem hgs hg] at hw
        cases hw
        exact ih f hf (hfkeyed f hf) (hgkeyed g hg) hwv
    | _ => simp [deepEqual] at hequal

inductive Json.Numberless : Json → Prop where
  | null : Numberless .null
  | bool (b : Bool) : Numberless (.bool b)
  | str (s : String) : Numberless (.str s)
  | arr {items : List Json} (items_numberless : ∀ v ∈ items, Numberless v) : Numberless (.arr items)
  | obj {fields : JsonFields} (fields_numberless : ∀ f ∈ fields, Numberless f.2) :
      Numberless (.obj fields)

theorem ofJsonFields_eq (fields : JsonFields) :
    (Any.ofJsonFields fields : List (String × Any F)) = fields.map fun f => (f.1, .ofJson f.2) := by
  induction fields with
  | nil => simp [Any.ofJsonFields]
  | cons f fields ih => rw [Any.ofJsonFields, Any.ofJsonField, ih, map_cons]

variable {v : Json}
theorem Any.Textless.numberless {w : Any F} (h : w.Textless) (hv : Any.ofJson v = w) :
    v.Numberless := by
  induction h generalizing v with
  | null => cases v <;> simp [Any.ofJson] at hv; exact .null
  | bool b => cases v <;> simp [Any.ofJson] at hv; exact .bool _
  | float f => cases v <;> simp [Any.ofJson] at hv
  | str s => cases v <;> simp [Any.ofJson] at hv; exact .str _
  | arr _ ih =>
    cases v <;> simp [Any.ofJson, Any.ofJsonList_eq] at hv
    subst hv
    exact .arr fun v hv => ih _ (mem_map_of_mem hv) rfl
  | obj _ ih =>
    cases v <;> simp [Any.ofJson, ofJsonFields_eq] at hv
    subst hv
    exact .obj fun f hf => ih _ (mem_map_of_mem hf) rfl

theorem Json.Numberless.textless (h : v.Numberless) : (Any.ofJson v : Any F).Textless := by
  induction h with
  | null => rw [Any.ofJson]; exact .null
  | bool b => rw [Any.ofJson]; exact .bool b
  | str s => rw [Any.ofJson]; exact .str s
  | arr _ ih =>
    rw [Any.ofJson, Any.ofJsonList_eq]
    refine .arr fun v hv => ?_
    obtain ⟨x, hx, rfl⟩ := mem_map.mp hv
    exact ih x hx
  | obj _ ih =>
    rw [Any.ofJson, ofJsonFields_eq]
    refine .obj fun f hf => ?_
    obtain ⟨x, hx, rfl⟩ := mem_map.mp hf
    exact ih x hx

def SortSpec.Numberless (doc : JsonFields) (spec : SortSpec) : Prop :=
  spec.field = "/!" ∨ ∀ v, pointerGet doc spec.field = some v → v.Numberless

theorem textless_computeSortValue (doc : JsonFields) (spec : SortSpec) :
    (computeSortValue fl doc spec).toAny.Textless ↔ spec.Numberless doc := by
  unfold computeSortValue SortSpec.Numberless
  by_cases hid : spec.field = "/!"
  · rw [if_pos hid]
    exact iff_of_true (.str _) (.inl hid)
  · rw [if_neg hid, or_iff_right hid]
    cases hv : pointerGet doc spec.field with
    | none => exact iff_of_true .null (by simp)
    | some v =>
      have hknown : ∀ w : Any fl.F, w = .ofJson v →
          (w.Textless ↔ ∀ u, some v = some u → u.Numberless) := by
        rintro w rfl
        constructor
        · rintro h u ⟨⟩
          exact h.numberless rfl
        · exact fun h => (h v rfl).textless
      cases v <;> exact hknown _ (by simp [SortValue.toAny, Any.ofJson])

inductive Json.Keyed : Json → Prop where
  | null : Keyed .null
  | bool (b : Bool) : Keyed (.bool b)
  | num (text : String) : Keyed (.num text)
  | str (s : String) : Keyed (.str s)
  | arr {items : List Json} (items_keyed : ∀ v ∈ items, Keyed v) : Keyed (.arr items)
  | obj {fields : JsonFields} (once : (fields.map Prod.fst).Nodup)
      (fields_keyed : ∀ f ∈ fields, Keyed f.2) : Keyed (.obj fields)

theorem Json.Keyed.ofJson (h : v.Keyed) : (Any.ofJson v : Any F).Keyed := by
  induction h with
  | null => rw [Any.ofJson]; exact .null
  | bool b => rw [Any.ofJson]; exact .bool b
  | num text => rw [Any.ofJson]; exact .number text
  | str s => rw [Any.ofJson]; exact .str s
  | arr _ ih =>
    rw [Any.ofJson, Any.ofJsonList_eq]
    refine .arr fun v hv => ?_
    obtain ⟨x, hx, rfl⟩ := mem_map.mp hv
    exact ih x hx
  | @obj fields honce _ ih =>
    rw [Any.ofJson, ofJsonFields_eq]
    refine .obj (by simpa [Function.comp_def] using honce) fun f hf => ?_
    obtain ⟨x, hx, rfl⟩ := mem_map.mp hf
    exact ih x hx

theorem Json.Keyed.walk {segs : List String} {x : Json} (h : x.Keyed)
    (hv : pointerWalk x segs = some v) : v.Keyed := by
  induction segs generalizing x with
  | nil =>
    rw [pointerWalk] at hv
    cases hv
    exact h
  | cons seg segs ih =>
    cases h with
    | @obj fields _ hfields =>
      rw [pointerWalk] at hv
      split at hv
      · cases hv
      · rename_i hget
        exact ih (hfields _ (Fields.mem_of_get? hget)) hv
    | @arr items hitems =>
      rw [pointerWalk] at hv
      split at hv
      · cases hv
      · split at hv
        · split at hv
          · cases hv
          · rename_i hget
            exact ih (hitems _ (mem_of_getElem? hget)) hv
        · cases hv
    | _ => simp [pointerWalk] at hv

theorem keyed_computeSortValue {doc : JsonFields} (h : (Json.obj doc).Keyed) (spec : SortSpec) :
    (computeSortValue fl doc spec).toAny.Keyed := by
  unfold computeSortValue
  split
  · exact .str _
  · cases hv : pointerGet doc spec.field with
    | none => exact .null
    | some v =>
      have hkeyed : (Any.ofJson v : Any fl.F).Keyed := (h.walk hv).ofJson
      cases v <;> first | exact .null | exact hkeyed

structure ResultFile.Proper (rf : ResultFile fl) : Prop where
  once : (rf.items.map BucketItem.id).Nodup
  key : ∀ v ∈ rf.key, v.Keyed
  items : ∀ it ∈ rf.items, ∀ v ∈ it.sort, v.Keyed

structure ResultFile.Textless (rf : ResultFile fl) : Prop where
  key : ∀ v ∈ rf.key, v.Textless
  items : ∀ it ∈ rf.items, ∀ v ∈ it.sort, v.Textless

theorem textless_anyListOf {x : Option Json} (h : anyListOf fl x = some vs) :
    ∀ v ∈ vs, v.Textless := by
  unfold anyListOf at h
  split at h
  · cases h
    simp
  · cases h
    simp
  · intro v hv
    obtain ⟨x, -, hx⟩ := exists_of_forall₂_right (unmarshalList_eq_some.mp h) hv
    exact textless_unmarshal x v hx
  · cases h

variable {rf : ResultFile fl}
theorem textless_bucketItems {xs : List Json} (h : bucketItems fl xs = some items) :
    ∀ it ∈ items, ∀ v ∈ it.sort, v.Textless := by
  induction xs generalizing items with
  | nil =>
    cases h
    simp
  | cons x xs ih =>
    rw [bucketItems] at h
    split at h
    · rename_i it its hit hits
      cases h
      intro it' hit'
      rcases mem_cons.mp hit' with rfl | hit'
      · simp only [BucketItem.ofJson, Option.bind_eq_bind, Option.bind_eq_some_iff,
          Option.pure_def] at hit
        obtain ⟨fields, -, sort, hsort, id, -, heq⟩ := hit
        cases heq
        exact textless_anyListOf hsort
      · exact ih hits it' hit'
    · cases h

theorem textless_loadBucket {file : Option Json} {existed : Bool}
    (h : loadBucket fl file = some (rf, existed)) : rf.Textless := by
  cases file with
  | none =>
    cases h
    exact ⟨by simp, by simp⟩
  | some x =>
    rw [loadBucket, Option.map_eq_some_iff] at h
    obtain ⟨rf', hrf', heq⟩ := h
    cases heq
    simp only [ResultFile.ofJson, Option.bind_eq_bind, Option.bind_eq_some_iff,
      Option.pure_def] at hrf'
    obtain ⟨fields, -, _, -, _, -, _, -, _, -, key, hkey, items, hitems, heq⟩ := hrf'
    cases heq
    refine ⟨textless_anyListOf hkey, ?_⟩
    unfold itemsOf at hitems
    split at hitems
    · cases hitems
      simp
    · cases hitems
      simp
    · exact textless_bucketItems hitems
    · cases hitems

theorem reread_list (hfl : fl.Rereads) (h : ∀ v ∈ vs, v.Textless) (hkeyed : ∀ v ∈ vs, v.Keyed) :
    ∃ ws, unmarshalList fl (vs.map (Any.marshal fl)) = some ws ∧ deepEqualList fl ws vs = true := by
  obtain ⟨w, hw, hequal⟩ := (Any.Textless.arr h).reread hfl (.arr hkeyed)
  obtain ⟨ws, rfl, hws⟩ := unmarshal_marshal_arr.mp hw
  exact ⟨ws, unmarshalList_eq_some.mpr (forall₂_map_left_iff.mpr hws),
    by simpa [deepEqual] using hequal⟩

theorem reread_bucketItems (hfl : fl.Rereads) (h : ∀ it ∈ items, ∀ v ∈ it.sort, v.Textless)
    (hkeyed : ∀ it ∈ items, ∀ v ∈ it.sort, v.Keyed) :
    ∃ items', bucketItems fl (items.map (BucketItem.toJson fl)) = some items' := by
  induction items with
  | nil => exact ⟨[], rfl⟩
  | cons it items ih =>
    obtain ⟨sort, hsort, -⟩ := reread_list hfl (h it mem_cons_self) (hkeyed it mem_cons_self)
    obtain ⟨items', hitems'⟩ := ih (fun it' hit' => h it' (mem_cons_of_mem _ hit'))
      fun it' hit' => hkeyed it' (mem_cons_of_mem _ hit')
    have hit : BucketItem.ofJson fl (it.toJson fl) = some ⟨sort, it.id⟩ := by
      simp [BucketItem.ofJson, BucketItem.toJson, Fields.get?_cons, anyListOf, hsort,
        WorkItem.stringOf]
    exact ⟨⟨sort, it.id⟩ :: items', by rw [map_cons, bucketItems, hit, hitems']⟩

theorem ResultFile.Textless.load (hfl : fl.Rereads) (h : rf.Textless) (hproper : rf.Proper) :
    ∃ rf', loadBucket fl (some (rf.toJson fl)) = some (rf', true) := by
  obtain ⟨key, hkey, -⟩ := reread_list hfl h.key hproper.key
  obtain ⟨items, hitems⟩ := reread_bucketItems hfl h.items hproper.items
  have hread : anyListOf fl (some (if rf.key = [] then .null
      else .arr (rf.key.map (Any.marshal fl)))) = some key := by
    by_cases hempty : rf.key = []
    · rw [hempty] at hkey
      cases hkey
      rw [if_pos hempty]
      rfl
    · rw [if_neg hempty]
      exact hkey
  simp [loadBucket, ResultFile.ofJson, ResultFile.toJson, Fields.get?_cons, hread, itemsOf, hitems,
    WorkItem.stringOf]

theorem keyed_reread {ws : List (Any fl.F)} (h : ∀ v ∈ vs, v.Keyed)
    (hws : unmarshalList fl (vs.map (Any.marshal fl)) = some ws) : ∀ w ∈ ws, w.Keyed := by
  intro w hw
  obtain ⟨x, hx, hread⟩ := exists_of_forall₂_right (unmarshalList_eq_some.mp hws) hw
  obtain ⟨v, hv, rfl⟩ := mem_map.mp hx
  exact (h v hv).reread hread

theorem keyed_key_reread {rf' : ResultFile fl} (h : ∀ v ∈ rf.key, v.Keyed)
    (hload : ResultFile.ofJson fl (rf.toJson fl) = some rf') : ∀ v ∈ rf'.key, v.Keyed := by
  simp only [ResultFile.ofJson, Option.bind_eq_bind, Option.bind_eq_some_iff,
    Option.pure_def] at hload
  obtain ⟨fields, hfields, _, -, _, -, _, -, _, -, key, hkey, items, -, heq⟩ := hload
  cases heq
  cases hfields
  have hget : Fields.get? "key" [("#", Json.str rf.version), ("$", .str rf.schema),
      ("search", .str rf.search), ("collection", .str rf.collection),
      ("key", if rf.key = [] then .null else .arr (rf.key.map (Any.marshal fl))),
      ("items", .arr (rf.items.map (BucketItem.toJson fl)))] =
        some (if rf.key = [] then .null else .arr (rf.key.map (Any.marshal fl))) := by
    simp [Fields.get?_cons]
  rw [hget] at hkey
  split at hkey
  · cases hkey
    simp
  · exact keyed_reread h hkey

theorem ids_of_forall₂ {R : BucketItem fl → BucketItem fl → Prop} {items' : List (BucketItem fl)}
    (h : Forall₂ (fun it it' => it'.id = it.id ∧ R it it') items items') :
    items'.map BucketItem.id = items.map BucketItem.id := by
  induction h with
  | nil => rfl
  | cons hit _ ih => rw [map_cons, map_cons, hit.1, ih]

theorem ofJson_of_loadBucket {x : Json} {existed : Bool}
    (h : loadBucket fl (some x) = some (rf, existed)) : ResultFile.ofJson fl x = some rf := by
  rw [loadBucket, Option.map_eq_some_iff] at h
  obtain ⟨rf', hrf', heq⟩ := h
  cases heq
  exact hrf'

theorem ResultFile.Proper.reload {rf' : ResultFile fl} (h : rf.Proper)
    (hload : ResultFile.ofJson fl (rf.toJson fl) = some rf') : rf'.Proper := by
  obtain ⟨-, hitems⟩ := ofJson_toJson hload
  refine ⟨?_, keyed_key_reread h.key hload, fun it' hit' => ?_⟩
  · rw [ids_of_forall₂ hitems]
    exact h.once
  · obtain ⟨it, hit, -, hsort⟩ := exists_of_forall₂_right hitems hit'
    exact keyed_reread (h.items it hit) hsort

section
variable {coll search id : String} {d : Definition fl.F} {segs : List String}
  {doc : JsonFields} {file : Option Json} {rf : ResultFile fl} {existed : Bool}
def UpsertIdle (collection search : String) (d : Definition fl.F) (segs : List String) (id : String)
    (doc : JsonFields) (file : Option Json) : Prop :=
  ∃ rf existed, loadBucket fl file = some (rf, existed) ∧
    (localUpsert (contextFor collection search d segs doc) id (computeSortValues fl d.sort doc)
      (rf.named fl) existed).1 = false ∧
    ∀ version, applyComputed collection search d segs version file (.upsert id doc) = some file

theorem named_key (rf : ResultFile fl) : (rf.named fl).key = rf.key := by
  unfold ResultFile.named
  split <;> rfl

theorem localUpsert_eq (ctx : BucketContext fl) (id : String) (vals : List (SortValue fl.F))
    (rf : ResultFile fl) (existed : Bool) :
    localUpsert ctx id vals (rf.named fl) existed = ((upsertItems rf.items ctx.sort id vals).1,
        { rf.named fl with
          search := ctx.search
          collection := ctx.collection
          key := if existed = false ∨ rf.key = [] then ctx.key else rf.key
          items := (upsertItems rf.items ctx.sort id vals).2 }) := by
  rw [localUpsert, ResultFile.upsert_eq]
  simp only [named_items, named_key]

theorem upsertIdle_iff (hload : loadBucket fl file = some (rf, existed)) :
    UpsertIdle coll search d segs id doc file ↔
      (upsertItems rf.items d.sort id (computeSortValues fl d.sort doc)).1 = false := by
  constructor
  · rintro ⟨rf', existed', hload', hidle, -⟩
    rw [hload] at hload'
    cases hload'
    rw [localUpsert_eq] at hidle
    exact hidle
  · intro h
    have hidle : (localUpsert (contextFor coll search d segs doc) id
        (computeSortValues fl d.sort doc) (rf.named fl) existed).1 = false := by
      rw [localUpsert_eq]
      exact h
    refine ⟨rf, existed, hload, hidle, fun version => ?_⟩
    cases hresult : localUpsert (contextFor coll search d segs doc) id
        (computeSortValues fl d.sort doc) (rf.named fl) existed with
    | mk changed rf' =>
      rw [hresult] at hidle
      cases hidle
      simp only [applyComputed, applyLocally, applyAlone, hload, Mutation.document]
      rw [show (contextFor coll search d segs doc).sort = d.sort from rfl, hresult]

theorem textless_sortValues :
    (∀ v ∈ sortValuesToJSON (computeSortValues fl d.sort doc), v.Textless) ↔
      ∀ spec ∈ d.sort, spec.Numberless doc := by
  simp only [sortValuesToJSON, computeSortValues, map_map, forall_mem_map,
    Function.comp_apply, textless_computeSortValue]

theorem keyed_sortValues (hdoc : (Json.obj doc).Keyed) :
    ∀ v ∈ sortValuesToJSON (computeSortValues fl d.sort doc), v.Keyed := by
  simp only [sortValuesToJSON, computeSortValues, map_map, forall_mem_map, Function.comp_apply]
  exact fun spec _ => keyed_computeSortValue hdoc spec

theorem numberless_of_idle (hload : loadBucket fl file = some (rf, existed)) (hproper : rf.Proper)
    (hdoc : (Json.obj doc).Keyed)
    (h : (upsertItems rf.items d.sort id (computeSortValues fl d.sort doc)).1 = false) :
    ∀ spec ∈ d.sort, spec.Numberless doc := by
  obtain ⟨it, hit, -, hequal⟩ := upsertItems_found h
  have hstored : (Any.arr it.sort).Textless := .arr ((textless_loadBucket hload).items it hit)
  have hcomputed := hstored.of_deepEqual (.arr (hproper.items it hit)) (.arr (keyed_sortValues hdoc))
    (by simpa [deepEqual] using hequal)
  refine textless_sortValues.mp ?_
  cases hcomputed with
  | arr h => exact h

theorem idle_of_numberless (hfl : fl.Rereads) {rf' : ResultFile fl}
    (hload : ResultFile.ofJson fl (rf.toJson fl) = some rf') (hproper : rf.Proper)
    (hdoc : (Json.obj doc).Keyed)
    (hmem : ⟨sortValuesToJSON (computeSortValues fl d.sort doc), id⟩ ∈ rf.items)
    (hsort : ∀ spec ∈ d.sort, spec.Numberless doc) :
    (upsertItems rf'.items d.sort id (computeSortValues fl d.sort doc)).1 = false := by
  obtain ⟨it, hit, hid, hread⟩ := exists_of_forall₂ (ofJson_toJson hload).2 hmem
  obtain ⟨ws, hws, hequal⟩ := reread_list hfl (textless_sortValues.mpr hsort) (keyed_sortValues hdoc)
  rw [hws] at hread
  cases hread
  have hfind : rf'.items.find? (fun it => it.id == id) = some it := by
    cases hfound : rf'.items.find? fun it => it.id == id with
    | none => exact absurd (find?_eq_none.mp hfound it hit) (by simp [hid])
    | some found =>
      have hsame : found.id = it.id := by simpa [hid] using find?_some hfound
      rw [inj_on_of_nodup_map (hproper.reload hload).once (mem_of_find?_eq_some hfound) hit hsame]
  rw [upsertItems, hfind]
  simp only [hequal, if_true]

theorem Segment.keyed {v : Any fl.F} {seg : String} (h : Segment fl v seg) : v.Keyed := by
  cases h with
  | null => exact .null
  | bool b => exact .bool b
  | float f => exact .float f
  | str s => exact .str s

theorem Segment.textless {v : Any fl.F} {seg : String} (h : Segment fl v seg) : v.Textless := by
  cases h with
  | null => exact .null
  | bool b => exact .bool b
  | float f => exact .float f
  | str s => exact .str s

def upsertedFile (collection search : String) (d : Definition fl.F) (segs : List String)
    (version id : String) (doc : JsonFields) (rf : ResultFile fl) (existed : Bool) : ResultFile fl :=
  { (localUpsert (contextFor collection search d segs doc) id (computeSortValues fl d.sort doc)
      (rf.named fl) existed).2 with version }

theorem applyComputed_upsert (hload : loadBucket fl file = some (rf, existed)) (version : String) :
    applyComputed coll search d segs version file (.upsert id doc) =
      some (if (upsertItems rf.items d.sort id (computeSortValues fl d.sort doc)).1 = true
        then some ((upsertedFile coll search d segs version id doc rf existed).toJson fl)
        else file) := by
  have hsort : (contextFor coll search d segs doc).sort = d.sort := rfl
  simp only [applyComputed, applyLocally, applyAlone, hload, Mutation.document, upsertedFile, hsort]
  rw [localUpsert_eq, hsort]
  cases (upsertItems rf.items d.sort id (computeSortValues fl d.sort doc)).1 with
  | false => rfl
  | true => rfl

theorem items_upsertedFile (version : String) :
    (upsertedFile coll search d segs version id doc rf existed).items =
      (upsertItems rf.items d.sort id (computeSortValues fl d.sort doc)).2 := by
  rw [upsertedFile, localUpsert_eq]
  rfl

theorem key_upsertedFile {P : Any fl.F → Prop} (hP : ∀ v seg, Segment fl v seg → P v)
    (hrf : ∀ v ∈ rf.key, P v) (version : String) :
    ∀ v ∈ (upsertedFile coll search d segs version id doc rf existed).key, P v := by
  rw [upsertedFile, localUpsert_eq]
  intro v hv
  simp only at hv
  split at hv
  · obtain ⟨seg, hseg⟩ := segment_bucketKey d segs doc v hv
    exact hP v seg hseg
  · exact hrf v hv

theorem ResultFile.Proper.upserted (h : rf.Proper) (hdoc : (Json.obj doc).Keyed) (version : String) :
    (upsertedFile coll search d segs version id doc rf existed).Proper where
  once := by
    rw [items_upsertedFile]
    exact nodup_mutateItems h.once d.sort (.upsert id doc)
  key := key_upsertedFile (fun _ _ hseg => hseg.keyed) h.key version
  items := by
    intro it hit
    rw [items_upsertedFile] at hit
    rcases mem_upsertItems hit with hit | rfl
    · exact h.items it hit
    · exact keyed_sortValues hdoc

theorem ResultFile.Textless.upserted (h : rf.Textless)
    (hsort : ∀ spec ∈ d.sort, spec.Numberless doc) (version : String) :
    (upsertedFile coll search d segs version id doc rf existed).Textless where
  key := key_upsertedFile (fun _ _ hseg => hseg.textless) h.key version
  items := by
    intro it hit
    rw [items_upsertedFile] at hit
    rcases mem_upsertItems hit with hit | rfl
    · exact h.items it hit
    · exact textless_sortValues.mpr hsort

/-- A repeated upsert is recognized exactly when no sort value of the document has a number in
it. -/
theorem repeated_upsert_idle_iff (hfl : fl.Rereads) (coll search : String)
    (d : Definition fl.F) (segs : List String) (hload : loadBucket fl file = some (rf, existed))
    (hproper : rf.Proper) (hdoc : (Json.obj doc).Keyed) (id version : String) :
    ∃ file₁, applyComputed coll search d segs version file (.upsert id doc) = some file₁ ∧
      (UpsertIdle coll search d segs id doc file₁ ↔ ∀ spec ∈ d.sort, spec.Numberless doc) := by
  refine ⟨_, applyComputed_upsert hload version, ?_⟩
  cases hchanged : (upsertItems rf.items d.sort id (computeSortValues fl d.sort doc)).1 with
  | false =>
    rw [if_neg (by simp), upsertIdle_iff hload, iff_true_left hchanged]
    exact numberless_of_idle hload hproper hdoc hchanged
  | true =>
    rw [if_pos rfl]
    generalize hupserted : upsertedFile coll search d segs version id doc rf existed = upserted
    have hproper' : upserted.Proper := hupserted ▸ hproper.upserted hdoc version
    constructor
    · rintro ⟨rf₁, existed₁, hload₁, hidle⟩
      have hreload := ofJson_of_loadBucket hload₁
      exact numberless_of_idle hload₁ (hproper'.reload hreload) hdoc
        ((upsertIdle_iff hload₁).mp ⟨rf₁, existed₁, hload₁, hidle⟩)
    · intro hsort
      have htextless : upserted.Textless :=
        hupserted ▸ (textless_loadBucket hload).upserted hsort version
      obtain ⟨rf₁, hload₁⟩ := htextless.load hfl hproper'
      have hreload := ofJson_of_loadBucket hload₁
      refine (upsertIdle_iff hload₁).mpr (idle_of_numberless hfl hreload hproper' hdoc ?_ hsort)
      rw [← hupserted, items_upsertedFile]
      exact (upsertItems_perm hchanged).mem_iff.mpr mem_cons_self
end
end
namespace Sample
def filmsByLength : Definition floats.F := ⟨[], [byLength]⟩

theorem proper_start : (⟨"", "", "", "", [], []⟩ : ResultFile floats).Proper :=
  ⟨by simp, by simp, by simp⟩

def alienTitle : JsonFields := [("title", .str "Alien")]
def alienLength : JsonFields := [("length", .num "31")]

theorem keyed_alienTitle : (Json.obj alienTitle).Keyed :=
  .obj (by simp [alienTitle]) fun f hf => by
    obtain rfl := mem_singleton.mp hf
    exact .str _

theorem film_upsert_repeats :
    ∃ file₁, applyComputed "films" "byTitle" filmsByTitle [] "v" none (.upsert "f1" alienTitle) =
        some file₁ ∧
      (UpsertIdle "films" "byTitle" filmsByTitle [] "f1" alienTitle file₁ ↔
        ∀ spec ∈ filmsByTitle.sort, spec.Numberless alienTitle) :=
  repeated_upsert_idle_iff floats_reread "films" "byTitle" filmsByTitle [] rfl proper_start
    keyed_alienTitle "f1" "v"

theorem film_upsert_changes_again :
    ∃ file₁, applyComputed "films" "byLength" filmsByLength [] "v" none (.upsert "f1" alienLength) =
        some file₁ ∧ ¬ UpsertIdle "films" "byLength" filmsByLength [] "f1" alienLength file₁ := by
  refine ⟨_, rfl, fun hidle => ?_⟩
  have hload : loadBucket floats (some (ResultFile.toJson floats
      ⟨"v", "SearchResult:v1", "byLength", "films", [], [⟨[.number "31"], "f1"⟩]⟩)) =
        some (⟨"v", "SearchResult:v1", "byLength", "films", [], [⟨[.float (2 : Fin 3)], "f1"⟩]⟩,
          true) := rfl
  exact absurd ((upsertIdle_iff hload).mp hidle) (by decide +kernel)
end Sample
end Datorium
