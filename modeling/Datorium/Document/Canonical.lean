
import Datorium.Document.Schema
/-!
# Canonical documents

A stored document has the database-owned fields `!`, `$`, `#` first, then the fields of the schema
in schema order at every level, then the extra fields in their own order.
-/
namespace Datorium
open Framework
def metaFieldOrder : List String := ["!", "$", "#"]

def contentKey (key : String) : Bool := key ∉ metaFieldOrder

mutual

def reorderBySchema : SchemaEntry → Json → Json
  | .mk _ .object _ _ children _, .obj fields =>
    .obj (reorderFields children fields ++
      fields.filter fun f => f.1 ∉ children.map SchemaEntry.name)
  | .mk _ .array _ _ _ items, .arr values => .arr (values.map (reorderItem items))
  | _, value => value

def reorderFields : List SchemaEntry → JsonFields → JsonFields
  | [], _ => []
  | child :: rest, fields =>
    match Fields.get? child.name fields with
    | none => reorderFields rest fields
    | some value => (child.name, reorderBySchema child value) :: reorderFields rest fields

def reorderItem : Option SchemaEntry → Json → Json
  | none, value => value
  | some entry, value => reorderBySchema entry value
end

private theorem reorderFields_none {k : String} {children : List SchemaEntry}
    {fields : JsonFields} (h : k ∉ children.map SchemaEntry.name ∨ Fields.get? k fields = none) :
    Fields.get? k (reorderFields children fields) = none := by
  induction children with
  | nil => simp [reorderFields]
  | cons child rest ih =>
    have hrest : k ∉ rest.map SchemaEntry.name ∨ Fields.get? k fields = none := by
      rcases h with h | h
      · exact Or.inl fun hk => h (List.mem_cons_of_mem _ hk)
      · exact Or.inr h
    rw [reorderFields]
    split
    · exact ih hrest
    · rename_i value hv
      have hne : child.name ≠ k := by
        rintro rfl
        rcases h with h | h
        · exact h (by simp)
        · rw [h] at hv
          cases hv
      rw [Fields.get?_cons_other hne]
      exact ih hrest

-- The recursion of the two functions: an entry holds smaller entries, a list of children is
-- consumed from the left.
mutual

theorem reorderBySchema_same : ∀ (entry : SchemaEntry) (v : Json),
    Json.Same (reorderBySchema entry v) v
  | .mk _ kind _ _ children items, v => by
      cases v with
      | obj fields =>
        cases kind with
        | object =>
          rw [reorderBySchema]
          refine .obj (fun k => ?_) fun k u w hu hw => ?_
          · rw [Fields.get?_append, Fields.get?_filter (fun j => decide
              (j ∉ children.map SchemaEntry.name))]
            by_cases hk : k ∈ children.map SchemaEntry.name
            · cases hg : Fields.get? k fields with
              | none => simp [reorderFields_none (Or.inr hg)]
              | some v =>
                obtain ⟨w, hw, -⟩ := reorderFields_some children fields k v hk hg
                simp [hw]
            · simp only [reorderFields_none (Or.inl hk), Option.none_or, hk,
                not_false_eq_true, decide_true, if_true]
          · rw [Fields.get?_append, Fields.get?_filter (fun j => decide
              (j ∉ children.map SchemaEntry.name))] at hu
            by_cases hk : k ∈ children.map SchemaEntry.name
            · obtain ⟨w', hw', hs⟩ := reorderFields_some children fields k w hk hw
              rw [hw', Option.some_or] at hu
              cases hu
              exact hs
            · simp only [reorderFields_none (Or.inl hk), Option.none_or, hk,
                not_false_eq_true, decide_true, if_true, hw] at hu
              cases hu
              exact .refl _
        | _ => rw [reorderBySchema] <;> simp [Json.Same.refl]
      | arr values =>
        cases kind with
        | array =>
          rw [reorderBySchema]
          refine .arr (by simp) fun i u w hu hw => ?_
          rw [List.getElem?_map, hw] at hu
          cases hu
          exact reorderItem_same items w
        | _ => rw [reorderBySchema] <;> simp [Json.Same.refl]
      | _ => rw [reorderBySchema] <;> simp [Json.Same.refl]
termination_by entry => (sizeOf entry, 0)

private theorem reorderFields_some : ∀ (children : List SchemaEntry) (fields : JsonFields)
    (k : String) (v : Json), k ∈ children.map SchemaEntry.name → Fields.get? k fields = some v →
    ∃ w, Fields.get? k (reorderFields children fields) = some w ∧ Json.Same w v
  | [], _, _, _, hk, _ => by simp at hk
  | child :: rest, fields, k, v, hk, hv => by
      rw [reorderFields]
      by_cases hc : child.name = k
      · rw [hc, hv]
        exact ⟨_, Fields.get?_cons_same _ _ _, reorderBySchema_same child v⟩
      · have hk' : k ∈ rest.map SchemaEntry.name := by
          simpa [Ne.symm hc] using hk
        obtain ⟨w, hw, hs⟩ := reorderFields_some rest fields k v hk' hv
        refine ⟨w, ?_, hs⟩
        split
        · exact hw
        · rw [Fields.get?_cons_other hc]
          exact hw
termination_by children => (sizeOf children, 0)

private theorem reorderItem_same : ∀ (items : Option SchemaEntry) (v : Json),
    Json.Same (reorderItem items v) v
  | none, v => by
      rw [reorderItem]
      exact .refl v
  | some entry, v => by
      rw [reorderItem]
      exact reorderBySchema_same entry v
termination_by items => (sizeOf items, 0)
end

def metaFields (fields : JsonFields) : JsonFields :=
  metaFieldOrder.filterMap fun key => (Fields.get? key fields).map fun value => (key, value)

def canonicalize (o : Ojson) (schemaRaw : Json) : Json → Except String Json
  | .obj fields =>
    match o.compile schemaRaw with
    | .error err => .error ("docjson: compile schema: " ++ err)
    | .ok schema =>
      match reorderBySchema schema (.obj (fields.filter fun f => contentKey f.1)) with
      | .obj ordered => .ok (.obj (metaFields fields ++ ordered))
      | _ => .error "docjson: value is not an object"
  | _ => .error "docjson: document must be an object"

private theorem get?_metaFields (k : String) (fields : JsonFields) :
    Fields.get? k (metaFields fields) = if contentKey k then none else Fields.get? k fields := by
  by_cases hk : k ∈ metaFieldOrder
  · have hc : contentKey k = false := by simp [contentKey, hk]
    simp only [metaFieldOrder, List.mem_cons, List.not_mem_nil, or_false] at hk
    rw [hc, if_neg Bool.false_ne_true]
    rcases hk with rfl | rfl | rfl <;>
      cases h₁ : Fields.get? "!" fields <;> cases h₂ : Fields.get? "$" fields <;>
        cases h₃ : Fields.get? "#" fields <;>
          simp [metaFields, metaFieldOrder, h₁, h₂, h₃, Fields.get?_cons]
  · have hc : contentKey k = true := by simp [contentKey, hk]
    rw [hc, if_pos rfl, Fields.get?_eq_none_iff]
    intro hmem
    simp only [metaFields, List.mem_map, List.mem_filterMap] at hmem
    obtain ⟨f, ⟨key, hkey, hf⟩, rfl⟩ := hmem
    cases hg : Fields.get? key fields with
    | none => simp [hg] at hf
    | some v =>
      simp only [hg, Option.map_some, Option.some.injEq] at hf
      subst hf
      exact hk hkey

theorem canonicalize_ok {o : Ojson} {schemaRaw v w : Json}
    (h : canonicalize o schemaRaw v = .ok w) :
    ∃ fields out, v = .obj fields ∧ w = .obj out ∧
      (∀ k, contentKey k = false → Fields.get? k out = Fields.get? k fields) ∧
      Json.Same (.obj (out.filter fun f => contentKey f.1))
        (.obj (fields.filter fun f => contentKey f.1)) := by
  cases v with
  | obj fields =>
    simp only [canonicalize] at h
    split at h
    · cases h
    · rename_i schema _
      have hsame := reorderBySchema_same schema (.obj (fields.filter fun f => contentKey f.1))
      split at h
      · rename_i ordered hord
        cases h
        rw [hord] at hsame
        cases hsame with
        | obj hkey hfield =>
          refine ⟨fields, _, rfl, rfl, fun k hk => ?_, .obj (fun k => ?_) ?_⟩
          · have hn : Fields.get? k ordered = none := by
              rw [hkey, Fields.get?_filter, hk]
              rfl
            rw [Fields.get?_append, get?_metaFields, hk, hn]
            simp
          · rw [Fields.get?_filter, Fields.get?_filter, Fields.get?_append, get?_metaFields]
            cases hk : contentKey k with
            | false => simp
            | true => simpa [Fields.get?_filter, hk] using hkey k
          · intro k u w hu hw
            rw [Fields.get?_filter, Fields.get?_append, get?_metaFields] at hu
            cases hk : contentKey k with
            | false => simp [hk] at hu
            | true => exact hfield k u w (by simpa [hk] using hu) hw
      · cases h
  | _ => cases h

mutual

/-- `json.Marshal` of a decoded value: object keys come out sorted. -/
def sortKeys : Json → Json
  | .arr values => .arr (sortItems values)
  | .obj fields => .obj (Fields.sortByKey (sortFields fields))
  | value => value

def sortItems : List Json → List Json
  | [] => []
  | v :: vs => sortKeys v :: sortItems vs

def sortFields : List (String × Json) → List (String × Json)
  | [] => []
  | f :: fs => sortField f :: sortFields fs

def sortField : String × Json → String × Json
  | (key, v) => (key, sortKeys v)
end

theorem get?_sortFields (k : String) (fields : JsonFields) :
    Fields.get? k (sortFields fields) = (Fields.get? k fields).map sortKeys := by
  induction fields with
  | nil => simp [sortFields]
  | cons f fields ih =>
    obtain ⟨j, v⟩ := f
    rw [sortFields, sortField, Fields.get?_cons, Fields.get?_cons, ih]
    split <;> rfl

theorem get?_sortKeys_obj (k : String) (fields : JsonFields) :
    (sortKeys (.obj fields)).get? k = (Fields.get? k fields).map sortKeys := by
  rw [sortKeys, Json.get?_obj, Fields.get?_sortByKey (fun a => String.le_refl a), get?_sortFields]

private theorem getElem?_sortItems (values : List Json) (i : Nat) :
    (sortItems values)[i]? = values[i]?.map sortKeys := by
  induction values generalizing i with
  | nil => simp [sortItems]
  | cons v values ih => cases i <;> simp [sortItems, ih]

private theorem length_sortItems (values : List Json) :
    (sortItems values).length = values.length := by
  induction values with
  | nil => simp [sortItems]
  | cons v values ih => simp [sortItems, ih]

theorem sortKeys_same : ∀ v, Json.Same (sortKeys v) v
  | .null => by rw [sortKeys] <;> simp [Json.Same.refl]
  | .bool _ => by rw [sortKeys] <;> simp [Json.Same.refl]
  | .num _ => by rw [sortKeys] <;> simp [Json.Same.refl]
  | .str _ => by rw [sortKeys] <;> simp [Json.Same.refl]
  | .arr values => by
      rw [sortKeys]
      refine .arr (length_sortItems values) fun i v w hv hw => ?_
      have hmem : w ∈ values := List.mem_of_getElem? hw
      rw [getElem?_sortItems, hw] at hv
      cases hv
      exact sortKeys_same w
  | .obj fields => by
      rw [sortKeys]
      have hget : ∀ k, Fields.get? k (Fields.sortByKey (sortFields fields)) =
          (Fields.get? k fields).map sortKeys := fun k => by
        rw [Fields.get?_sortByKey fun a => String.le_refl a, get?_sortFields]
      refine .obj (fun k => by simp [hget k]) fun k v w hv hw => ?_
      have hmem : (k, w) ∈ fields := Fields.mem_of_get? hw
      rw [hget, hw] at hv
      cases hv
      exact sortKeys_same w
termination_by v => sizeOf v
decreasing_by
  · simp only [Json.arr.sizeOf_spec]
    have := List.sizeOf_lt_of_mem hmem
    omega
  · have h := List.sizeOf_lt_of_mem hmem
    simp only [Prod.mk.sizeOf_spec, Json.obj.sizeOf_spec] at h ⊢
    omega

def canonicalizeMap (o : Ojson) (schemaRaw : Json) (fields : JsonFields) : Except String Json :=
  canonicalize o schemaRaw (sortKeys (.obj fields))

def encodeMap (fields : JsonFields) : Json := sortKeys (.obj fields)
end Datorium
