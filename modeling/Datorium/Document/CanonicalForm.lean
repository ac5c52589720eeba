
import Datorium.Document.Canonical
namespace Datorium
open Framework List
inductive SchemaEntry.Distinct : SchemaEntry → Prop
  | mk {name : String} {kind : Kind} {format : String} {custom : Option Json}
      {children : List SchemaEntry} {items : Option SchemaEntry}
      (names : (children.map SchemaEntry.name).Nodup) (nested : ∀ c ∈ children, Distinct c)
      (item : ∀ c ∈ items, Distinct c) : Distinct (.mk name kind format custom children items)

def extraFields (children : List SchemaEntry) (fields : JsonFields) : JsonFields :=
  fields.filter fun f => f.1 ∉ children.map SchemaEntry.name

inductive Moved : SchemaEntry → Json → Json → Prop
  | refl (entry : SchemaEntry) (v : Json) : Moved entry v v
  | object {name format : String} {custom : Option Json} {children : List SchemaEntry}
      {items : Option SchemaEntry} {fs gs : JsonFields}
      (extra : extraFields children fs = extraFields children gs)
      (present : ∀ c ∈ children, Fields.get? c.name fs = none ↔ Fields.get? c.name gs = none)
      (nested : ∀ c ∈ children, ∀ v w, Fields.get? c.name fs = some v →
        Fields.get? c.name gs = some w → Moved c v w) :
      Moved (.mk name .object format custom children items) (.obj fs) (.obj gs)
  | array {name format : String} {custom : Option Json} {children : List SchemaEntry}
      {item : SchemaEntry} {vs ws : List Json} (length : vs.length = ws.length)
      (nested : ∀ (i : Nat) v w, vs[i]? = some v → ws[i]? = some w → Moved item v w) :
      Moved (.mk name .array format custom children (some item)) (.arr vs) (.arr ws)

inductive SchemaOrdered : SchemaEntry → Json → Prop
  | object {name format : String} {custom : Option Json} {children : List SchemaEntry}
      {items : Option SchemaEntry} {defined extra : JsonFields}
      (order : (defined.map Prod.fst).Sublist (children.map SchemaEntry.name))
      (rest : ∀ f ∈ extra, f.1 ∉ children.map SchemaEntry.name)
      (nested : ∀ c ∈ children, ∀ v, Fields.get? c.name defined = some v → SchemaOrdered c v) :
      SchemaOrdered (.mk name .object format custom children items) (.obj (defined ++ extra))
  | array {name format : String} {custom : Option Json} {children : List SchemaEntry}
      {items : Option SchemaEntry} {vs : List Json}
      (nested : ∀ item ∈ items, ∀ v ∈ vs, SchemaOrdered item v) :
      SchemaOrdered (.mk name .array format custom children items) (.arr vs)
  | value {entry : SchemaEntry} {v : Json} (hobj : entry.kind = .object → v.toMap? = none)
      (harr : entry.kind = .array → ∀ vs, v ≠ .arr vs) : SchemaOrdered entry v

section
variable {children : List SchemaEntry} {fields : JsonFields} {entry : SchemaEntry} {v w : Json}
theorem reorderFields_congr {fs gs : JsonFields}
    (h : ∀ c ∈ children, (Fields.get? c.name fs).map (reorderBySchema c) =
      (Fields.get? c.name gs).map (reorderBySchema c)) :
    reorderFields children fs = reorderFields children gs := by
  induction children with
  | nil => rw [reorderFields, reorderFields]
  | cons c rest ih =>
    have hc := h c mem_cons_self
    have hrest := ih fun c' hc' => h c' (mem_cons_of_mem _ hc')
    rw [reorderFields, reorderFields]
    cases hf : Fields.get? c.name fs <;> cases hg : Fields.get? c.name gs <;>
      simp_all

theorem Moved.reorder_eq (h : Moved entry v w) :
    reorderBySchema entry v = reorderBySchema entry w := by
  induction h with
  | refl => rfl
  | @object _ _ _ children _ fs gs extra present _ ih =>
    have hdefined : reorderFields children fs = reorderFields children gs := by
      refine reorderFields_congr fun c hc => ?_
      cases hf : Fields.get? c.name fs with
      | none => rw [(present c hc).mp hf]
      | some v =>
        obtain ⟨w, hg⟩ := Option.ne_none_iff_exists'.mp fun hg => by
          rw [(present c hc).mpr hg] at hf
          cases hf
        rw [hg, Option.map_some, Option.map_some, ih c hc v w hf hg]
    rw [reorderBySchema, reorderBySchema, hdefined]
    exact congrArg (fun rest => Json.obj (_ ++ rest)) extra
  | @array _ _ _ _ item vs ws length _ ih =>
    rw [reorderBySchema, reorderBySchema]
    refine congrArg Json.arr (ext_getElem (by simpa using length) fun i hi hi' => ?_)
    rw [length_map] at hi hi'
    rw [getElem_map, getElem_map, reorderItem, reorderItem]
    exact ih i _ _ (getElem?_eq_getElem hi) (getElem?_eq_getElem hi')

theorem reorderFields_sublist (children : List SchemaEntry) (fields : JsonFields) :
    ((reorderFields children fields).map Prod.fst).Sublist (children.map SchemaEntry.name) := by
  induction children with
  | nil => simp [reorderFields]
  | cons c rest ih =>
    rw [reorderFields]
    split
    · exact ih.cons _
    · exact ih.cons_cons _

theorem get?_reorderFields (hnames : (children.map SchemaEntry.name).Nodup) {c : SchemaEntry}
    (hc : c ∈ children) : Fields.get? c.name (reorderFields children fields) =
      (Fields.get? c.name fields).map (reorderBySchema c) := by
  induction children with
  | nil => cases hc
  | cons c' rest ih =>
    obtain ⟨hnew, hrest⟩ := nodup_cons.mp hnames
    rw [reorderFields]
    rcases mem_cons.mp hc with rfl | hc
    · have hnone : Fields.get? c.name (reorderFields rest fields) = none :=
        (Fields.get?_eq_none_iff _ _).mpr fun hmem =>
          hnew ((reorderFields_sublist rest fields).subset hmem)
      cases Fields.get? c.name fields <;> simp [hnone]
    · have hne : c'.name ≠ c.name := fun heq => hnew (heq ▸ mem_map_of_mem hc)
      split
      · exact ih hrest hc
      · rw [Fields.get?_cons_other hne]
        exact ih hrest hc

theorem extraFields_reordered (children : List SchemaEntry) (fields : JsonFields) :
    extraFields children (reorderFields children fields ++ extraFields children fields) =
      extraFields children fields := by
  have hnone : extraFields children (reorderFields children fields) = [] := by
    refine filter_eq_nil_iff.mpr fun f hf => ?_
    simpa using (reorderFields_sublist children fields).subset (mem_map_of_mem hf)
  rw [extraFields, filter_append, ← extraFields, hnone, ← extraFields, extraFields,
    extraFields, filter_filter]
  simp

theorem get?_reordered (hnames : (children.map SchemaEntry.name).Nodup) {c : SchemaEntry}
    (hc : c ∈ children) :
    Fields.get? c.name (reorderFields children fields ++ extraFields children fields) =
      (Fields.get? c.name fields).map (reorderBySchema c) := by
  have hname : c.name ∈ children.map SchemaEntry.name := mem_map_of_mem hc
  rw [Fields.get?_append, get?_reorderFields hnames hc, extraFields,
    Fields.get?_filter fun k => decide (k ∉ children.map SchemaEntry.name)]
  simp [hname]

theorem moved_reorder (h : entry.Distinct) (v : Json) : Moved entry (reorderBySchema entry v) v := by
  induction h generalizing v with
  | @mk _ kind _ _ children items names _ _ nested item =>
    cases kind with
    | object =>
      cases v with
      | obj fields =>
        rw [reorderBySchema]
        refine .object (extraFields_reordered children fields) (fun c hc => ?_)
          fun c hc v w hv hw => ?_
        · rw [← extraFields, get?_reordered names hc, Option.map_eq_none_iff]
        · rw [← extraFields, get?_reordered names hc, hw] at hv
          cases hv
          exact nested c hc w
      | _ => exact .refl _ _
    | array =>
      cases v with
      | arr values =>
        rw [reorderBySchema]
        cases items with
        | none =>
          have hsame : values.map (reorderItem none) = values := by simp [reorderItem]
          rw [hsame]
          exact .refl _ _
        | some entry =>
          refine .array (by simp) fun i v w hv hw => ?_
          rw [getElem?_map, hw] at hv
          cases hv
          rw [reorderItem]
          exact item entry rfl w
      | _ => exact .refl _ _
    | _ => exact .refl _ _

theorem schemaOrdered_reorder (h : entry.Distinct) (v : Json) :
    SchemaOrdered entry (reorderBySchema entry v) := by
  induction h generalizing v with
  | @mk _ kind _ _ children items names _ _ nested item =>
    cases kind with
    | object =>
      cases v with
      | obj fields =>
        rw [reorderBySchema]
        refine .object (reorderFields_sublist children fields) (fun f hf => ?_) fun c hc v hv => ?_
        · simpa using (mem_filter.mp hf).2
        · rw [get?_reorderFields names hc] at hv
          obtain ⟨u, -, rfl⟩ := Option.map_eq_some_iff.mp hv
          exact nested c hc u
      | _ => exact .value (fun _ => rfl) (by simp [SchemaEntry.kind])
    | array =>
      cases v with
      | arr values =>
        rw [reorderBySchema]
        refine .array fun entry hentry v hv => ?_
        obtain ⟨u, -, rfl⟩ := mem_map.mp hv
        obtain rfl : items = some entry := hentry
        rw [reorderItem]
        exact item entry rfl u
      | _ => exact .value (by simp [SchemaEntry.kind]) (by simp [reorderBySchema])
    | _ => exact .value (by simp [SchemaEntry.kind]) (by simp [SchemaEntry.kind])
end

/-! ## Documents -/

def contentFields (fields : JsonFields) : JsonFields := fields.filter fun f => contentKey f.1

structure MovedFields (schema : SchemaEntry) (fs gs : JsonFields) : Prop where
  owned : ∀ k, contentKey k = false → Fields.get? k fs = Fields.get? k gs
  content : Moved schema (.obj (contentFields fs)) (.obj (contentFields gs))

/-- The database-owned fields first, then the content in its order; extra fields stand as they did.
-/
structure CanonicalForm (schema : SchemaEntry) (fields out : JsonFields) : Prop where
  same : Json.Same (.obj out) (.obj fields)
  order : out = metaFields fields ++ contentFields out ∧ SchemaOrdered schema (.obj (contentFields out))
  moved : MovedFields schema out fields

section
variable {o : Ojson} {schemaRaw : Json} {schema : SchemaEntry} {fs gs : JsonFields}
theorem metaFields_congr (h : ∀ k, contentKey k = false → Fields.get? k fs = Fields.get? k gs) :
    metaFields fs = metaFields gs := by
  refine filterMap_congr fun k hk => ?_
  rw [h k (by simpa [contentKey] using hk)]

theorem contentFields_metaFields (fields : JsonFields) : contentFields (metaFields fields) = [] := by
  refine filter_eq_nil_iff.mpr fun f hf => ?_
  obtain ⟨k, hk, hkf⟩ := mem_filterMap.mp hf
  obtain ⟨v, -, rfl⟩ := Option.map_eq_some_iff.mp hkf
  simpa [contentKey] using hk

theorem canonicalize_eq (hcompile : o.compile schemaRaw = .ok schema) (fields : JsonFields) :
    ∃ ordered, reorderBySchema schema (.obj (contentFields fields)) = .obj ordered ∧
      contentFields ordered = ordered ∧
      canonicalize o schemaRaw (.obj fields) = .ok (.obj (metaFields fields ++ ordered)) := by
  have hsame := reorderBySchema_same schema (.obj (contentFields fields))
  generalize hordered : reorderBySchema schema (.obj (contentFields fields)) = v at hsame
  cases hsame with
  | @obj ordered _ hkey _ =>
    refine ⟨ordered, rfl, filter_eq_self.mpr fun f hf => ?_, ?_⟩
    · by_contra hk
      have hnone : Fields.get? f.1 (contentFields fields) = none := by
        rw [contentFields, Fields.get?_filter, if_neg hk]
      exact (Fields.get?_eq_none_iff _ _).mp ((hkey f.1).mpr hnone) (mem_map_of_mem hf)
    · rw [contentFields] at hordered
      simp only [canonicalize, hcompile, hordered]

theorem canonicalize_congr (hcompile : o.compile schemaRaw = .ok schema)
    (h : MovedFields schema fs gs) :
    canonicalize o schemaRaw (.obj fs) = canonicalize o schemaRaw (.obj gs) := by
  obtain ⟨ordered, hordered, -, heq⟩ := canonicalize_eq hcompile fs
  obtain ⟨ordered', hordered', -, heq'⟩ := canonicalize_eq hcompile gs
  rw [h.content.reorder_eq, hordered'] at hordered
  cases hordered
  rw [heq, heq', metaFields_congr h.owned]

theorem canonicalForm_of_ok (hcompile : o.compile schemaRaw = .ok schema)
    (hdistinct : schema.Distinct) {fields out : JsonFields}
    (h : canonicalize o schemaRaw (.obj fields) = .ok (.obj out)) :
    CanonicalForm schema fields out := by
  obtain ⟨_, _, ⟨⟩, ⟨⟩, howned, hsame⟩ := canonicalize_ok h
  obtain ⟨ordered, hordered, hcontent, heq⟩ := canonicalize_eq hcompile fields
  rw [h] at heq
  obtain rfl : out = metaFields fields ++ ordered := by simpa using heq
  have hout : contentFields (metaFields fields ++ ordered) = ordered := by
    rw [contentFields, filter_append, ← contentFields, ← contentFields,
      contentFields_metaFields, hcontent, nil_append]
  refine ⟨?_, ⟨by rw [hout], ?_⟩, howned, ?_⟩
  · have hget : ∀ (fs : JsonFields) k, contentKey k = true →
        Fields.get? k (fs.filter fun f => contentKey f.1) = Fields.get? k fs := fun fs k hk => by
      rw [Fields.get?_filter, if_pos hk]
    cases hsame with
    | obj hkey hfield =>
      refine .obj (fun k => ?_) fun k v w hv hw => ?_
      · cases hk : contentKey k with
        | false => rw [howned k hk]
        | true => rw [← hget _ k hk, hkey k, hget _ k hk]
      · cases hk : contentKey k with
        | false =>
          rw [howned k hk, hw] at hv
          cases hv
          exact .refl _
        | true => exact hfield k v w (by rwa [hget _ k hk]) (by rwa [hget _ k hk])
  · rw [hout, ← hordered]
    exact schemaOrdered_reorder hdistinct _
  · rw [hout, ← hordered]
    exact moved_reorder hdistinct _

/-- Every document object has a canonical form, which is canonical itself and does not depend on
where the fields of the schema and the database stand. -/
theorem canonical_form (hcompile : o.compile schemaRaw = .ok schema) (hdistinct : schema.Distinct)
    (fields : JsonFields) :
    ∃ out, canonicalize o schemaRaw (.obj fields) = .ok (.obj out) ∧
      CanonicalForm schema fields out ∧ canonicalize o schemaRaw (.obj out) = .ok (.obj out) ∧
      ∀ gs, MovedFields schema fields gs → canonicalize o schemaRaw (.obj gs) = .ok (.obj out) := by
  obtain ⟨ordered, -, -, heq⟩ := canonicalize_eq hcompile fields
  have hform := canonicalForm_of_ok hcompile hdistinct heq
  exact ⟨_, heq, hform, (canonicalize_congr hcompile hform.moved).trans heq,
    fun gs hgs => (canonicalize_congr hcompile hgs).symm.trans heq⟩
end
namespace Sample
def castEntry : SchemaEntry :=
  .mk "" .object "" none [.mk "title" .string "" none [] none, .mk "cast" .array "" none [] none] none

def castOjson : Ojson :=
  ⟨fun _ => .ok castEntry, fun _ _ => .ok (), fun _ => .ok [], fun v _ => .ok v⟩

def castFields : JsonFields :=
  [("year", .num "1979"), ("cast", .arr []), ("$", .str "Movies:1"), ("title", .str "Alien")]

theorem castEntry_distinct : castEntry.Distinct := by
  refine .mk (by decide) (fun c hc => ?_) (by simp)
  simp only [mem_cons, not_mem_nil, or_false] at hc
  rcases hc with rfl | rfl <;> exact .mk (by simp) (by simp) (by simp)
end Sample
open Sample
theorem canonical_form_cast : castEntry.Distinct ∧ ∃ out,
      canonicalize castOjson .null (.obj castFields) = .ok (.obj out) ∧
      CanonicalForm castEntry castFields out ∧
      canonicalize castOjson .null (.obj out) = .ok (.obj out) ∧
      ∀ gs, MovedFields castEntry castFields gs →
        canonicalize castOjson .null (.obj gs) = .ok (.obj out) :=
  ⟨castEntry_distinct, canonical_form rfl castEntry_distinct castFields⟩
end Datorium
