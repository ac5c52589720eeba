
import Datorium.Engine.Commits
namespace Datorium
open Framework List
structure SchemaError where
  path : String
  message : String
  deriving DecidableEq

def Config.splitFieldPath (path : String) : List String :=
  match path.toList.dropWhile (· = '/') with
  | [] => []
  | trimmed => (trimmed.splitOn '/').map String.ofList

/-- `summaryPathResolves`, along the segments. -/
def resolvesSegments : SchemaEntry → List String → Bool
  | _, [] => true
  | entry, segment :: segments =>
    match entry.child segment with
    | none => false
    | some child => resolvesSegments child segments

def summaryPathResolves (root : SchemaEntry) (path : String) : Bool :=
  resolvesSegments root (Config.splitFieldPath path)

def summaryErrors (o : Ojson) (quote : String → String) (existing : Fields String Json)
    (path : String) (summary : List String) (target : String) : List SchemaError :=
  match Fields.get? target existing with
  | none => []
  | some targetRaw =>
    match o.compile targetRaw with
    | .error _ => []
    | .ok schema =>
      if summary ≠ [] ∧ summary.any (summaryPathResolves schema) = false then
        [⟨path ++ "/custom/summary",
          "no summary path resolves against target collection " ++ quote target⟩]
      else []

def validateSummary (o : Ojson) (quote : String → String) (existing : Fields String Json)
    (collections : Option Json) (path : String) (summary : List Json) : List SchemaError :=
  let notStrings := summary.filter fun item => (stringItems (some (.arr [item]))).isEmpty
  notStrings.map (fun _ => ⟨path ++ "/custom/summary", "custom.summary items must be strings"⟩) ++
    (stringItems collections).flatMap
      (summaryErrors o quote existing path (stringItems (some (.arr summary))))

def validateCachedRef (o : Ojson) (quote : String → String) (existing : Fields String Json)
    (custom : Option Json) (path : String) : List SchemaError :=
  let collections := custom.bind (Json.get? "collections")
  let listed := match collections with
    | some (.arr (_ :: _)) => true
    | _ => false
  let collectionErrors : List SchemaError :=
    if listed then []
    else [⟨path ++ "/custom/collections",
      "DatoriumCachedRef fields must include custom.collections as a non-empty array"⟩]
  match custom.bind (Json.get? "summary") with
  | some (.arr summary) => collectionErrors ++
      validateSummary o quote existing (if listed then collections else none) path summary
  | _ => collectionErrors ++ [⟨path ++ "/custom/summary",
        "DatoriumCachedRef fields must include custom.summary as an array of strings"⟩]

def entryErrors (o : Ojson) (quote : String → String) (existing : Fields String Json) (kind : Kind)
    (format : String) (custom : Option Json) (path : String) : List SchemaError :=
  let kindErrors : List SchemaError :=
    if (format = "DatoriumDirectRef" ∨ format = "DatoriumCachedRef") ∧ kind ≠ .string then
      [⟨path, format ++ " format is only valid on kind string"⟩]
    else []
  let refErrors := if format = "DatoriumCachedRef" then
    validateCachedRef o quote existing custom path else []
  kindErrors ++ refErrors

mutual

def walkSchemaEntry (o : Ojson) (quote : String → String) (existing : Fields String Json) :
    SchemaEntry → String → List SchemaError
  | .mk _ kind format custom children items, path =>
    entryErrors o quote existing kind format custom path ++
      walkChildren o quote existing children path ++ walkItems o quote existing items path

def walkChildren (o : Ojson) (quote : String → String) (existing : Fields String Json) :
    List SchemaEntry → String → List SchemaError
  | [], _ => []
  | child :: children, path =>
    walkSchemaEntry o quote existing child (path ++ "/" ++ child.name) ++
      walkChildren o quote existing children path

def walkItems (o : Ojson) (quote : String → String) (existing : Fields String Json) :
    Option SchemaEntry → String → List SchemaError
  | none, _ => []
  | some entry, path => walkSchemaEntry o quote existing entry (path ++ "/items")
end

def validateCollectionSchemaRules (o : Ojson) (quote : String → String) (raw : Json)
    (existing : Fields String Json) : List SchemaError :=
  match o.compile raw with
  | .error err => [⟨"", err⟩]
  | .ok schema =>
    if schema.kind ≠ .object then [⟨"", "schema root must be kind object"⟩]
    else walkSchemaEntry o quote existing schema ""

/-- A node of the raw schema, reached through `children` and `items`. -/
inductive NodeWithin : Json → Json → Prop
  | self (node : Json) : NodeWithin node node
  | child {fields : JsonFields} {values : List Json} {value node : Json}
      (hchildren : ("children", .arr values) ∈ fields) (hvalue : value ∈ values)
      (h : NodeWithin value node) : NodeWithin (.obj fields) node
  | item {fields : JsonFields} {value node : Json} (hitems : ("items", value) ∈ fields)
      (h : NodeWithin value node) : NodeWithin (.obj fields) node

def Declares (target : String) (root : Json) : Prop :=
  ∃ fields, NodeWithin root (.obj fields) ∧ declaresReference target fields = true

variable {target : String} {fields : JsonFields} {ref : RefField}
theorem anyReferences_iff {values : List Json} : anyReferences target values = true ↔
      ∃ value ∈ values, nodeReferencesCollection target value = true := by
  induction values with
  | nil => simp [anyReferences]
  | cons value values ih => simp [anyReferences, ih]

theorem childrenReference_iff : childrenReference target fields = true ↔
      ∃ field ∈ fields, fieldReferences target field = true := by
  induction fields with
  | nil => simp [childrenReference]
  | cons field fields ih => simp [childrenReference, ih]

theorem fieldReferences_iff {key : String} {value : Json} :
    fieldReferences target (key, value) = true ↔
      (key = "children" ∧ ∃ values, value = .arr values ∧ ∃ node ∈ values,
        nodeReferencesCollection target node = true) ∨
      (key = "items" ∧ nodeReferencesCollection target value = true) := by
  cases value with
  | arr values => simp [fieldReferences, anyReferences_iff, nodeReferencesCollection]
  | _ => simp [fieldReferences]

theorem nodeReferencesCollection_obj : nodeReferencesCollection target (.obj fields) = true ↔
      declaresReference target fields = true ∨
      (∃ values, ("children", .arr values) ∈ fields ∧ ∃ node ∈ values,
        nodeReferencesCollection target node = true) ∨
      ∃ value, ("items", value) ∈ fields ∧ nodeReferencesCollection target value = true := by
  rw [nodeReferencesCollection, Bool.or_eq_true, childrenReference_iff]
  refine or_congr Iff.rfl ⟨?_, ?_⟩
  · rintro ⟨⟨key, value⟩, hfield, href⟩
    rcases fieldReferences_iff.mp href with ⟨rfl, values, rfl, hnode⟩ | ⟨rfl, hnode⟩
    · exact .inl ⟨values, hfield, hnode⟩
    · exact .inr ⟨value, hfield, hnode⟩
  · rintro (⟨values, hfield, hnode⟩ | ⟨value, hfield, hnode⟩)
    · exact ⟨_, hfield, fieldReferences_iff.mpr (.inl ⟨rfl, values, rfl, hnode⟩)⟩
    · exact ⟨_, hfield, fieldReferences_iff.mpr (.inr ⟨rfl, hnode⟩)⟩

theorem NodeWithin.referenced {root node : Json} (h : NodeWithin root node)
    (href : nodeReferencesCollection target node = true) :
    nodeReferencesCollection target root = true := by
  induction h with
  | self node => exact href
  | child hchildren hvalue h ih =>
    exact nodeReferencesCollection_obj.mpr (.inr (.inl ⟨_, hchildren, _, hvalue, ih href⟩))
  | item hitems h ih =>
    exact nodeReferencesCollection_obj.mpr (.inr (.inr ⟨_, hitems, ih href⟩))

-- By size: the nodes the walk enters are parts of the fields.
theorem declares_of_references : ∀ root : Json,
    nodeReferencesCollection target root = true → Declares target root 
  | .obj fields, h => by
      rcases nodeReferencesCollection_obj.mp h with
        hself | ⟨values, hchildren, node, hnode, href⟩ | ⟨value, hitems, href⟩
      · exact ⟨fields, .self _, hself⟩
      · obtain ⟨found, hwithin, hdeclares⟩ := declares_of_references node href
        exact ⟨found, .child hchildren hnode hwithin, hdeclares⟩
      · obtain ⟨found, hwithin, hdeclares⟩ := declares_of_references value href
        exact ⟨found, .item hitems hwithin, hdeclares⟩
  | .null, h => by simp [nodeReferencesCollection] at h
  | .bool _, h => by simp [nodeReferencesCollection] at h
  | .num _, h => by simp [nodeReferencesCollection] at h
  | .str _, h => by simp [nodeReferencesCollection] at h
  | .arr _, h => by simp [nodeReferencesCollection] at h
termination_by root => sizeOf root
decreasing_by
  · have hfields := sizeOf_lt_of_mem hchildren
    have hvalues := sizeOf_lt_of_mem hnode
    simp only [Prod.mk.sizeOf_spec, Json.arr.sizeOf_spec, Json.obj.sizeOf_spec] at hfields ⊢
    omega
  · have hfields := sizeOf_lt_of_mem hitems
    simp only [Prod.mk.sizeOf_spec, Json.obj.sizeOf_spec] at hfields ⊢
    omega

theorem nodeReferencesCollection_iff {root : Json} :
    nodeReferencesCollection target root = true ↔ Declares target root := by
  refine ⟨declares_of_references root, fun ⟨fields, hwithin, hdeclares⟩ => ?_⟩
  exact hwithin.referenced (nodeReferencesCollection_obj.mpr (.inl hdeclares))

inductive StoredRef : SchemaEntry → Json → String → Prop
  | here {name kind custom children items s} :
      StoredRef (.mk name kind "DatoriumCachedRef" custom children items) (.str s) s
  | child {name format custom children items child value s} {fields : JsonFields}
      (hformat : format ≠ "DatoriumCachedRef") (hchild : child ∈ children)
      (hvalue : Fields.get? child.name fields = some value) (h : StoredRef child value s) :
      StoredRef (.mk name .object format custom children items) (.obj fields) s
  | item {name format custom children entry value s} {values : List Json}
      (hformat : format ≠ "DatoriumCachedRef") (hvalue : value ∈ values)
      (h : StoredRef entry value s) :
      StoredRef (.mk name .array format custom children (some entry)) (.arr values) s

theorem mem_collectChildRefs {children : List SchemaEntry} {path : String} :
    ref ∈ collectChildRefs children fields path ↔
      ∃ child ∈ children, ∃ value, Fields.get? child.name fields = some value ∧
        ref ∈ collectRefFields child value (joinFieldPath path child.name) := by
  induction children with
  | nil => simp [collectChildRefs]
  | cons child children ih =>
    cases hvalue : Fields.get? child.name fields with
    | none => simp [collectChildRefs, hvalue, ih]
    | some value => simp [collectChildRefs, hvalue, ih]

theorem mem_collectItemRefs {items : Option SchemaEntry} {values : List Json} {path : String} :
    ref ∈ collectItemRefs items values path ↔
      ∃ entry, items = some entry ∧ ∃ value ∈ values, ref ∈ collectRefFields entry value path := by
  cases items <;> simp [collectItemRefs]

theorem mem_refFieldFrom {fieldName stored : String} {custom : Option Json}
    (h : ref ∈ refFieldFrom fieldName stored custom) :
    parseRef stored = some (ref.targetCollection, ref.targetID) := by
  cases hparse : parseRef stored with
  | none => simp [refFieldFrom, hparse] at h
  | some target =>
    simp only [refFieldFrom, hparse, Option.mem_def, Option.some.injEq] at h
    rw [← h]

theorem stored_of_collected : ∀ (entry : SchemaEntry) (value : Json) (path : String) (ref : RefField),
    ref ∈ collectRefFields entry value path →
      ∃ s, StoredRef entry value s ∧ parseRef s = some (ref.targetCollection, ref.targetID)
  | .mk name kind format custom children items, value, path, ref, h => by
      by_cases hformat : format = "DatoriumCachedRef"
      · subst hformat
        cases value with
        | str s =>
          simp only [collectRefFields, if_true, Option.mem_toList] at h
          exact ⟨s, .here, mem_refFieldFrom h⟩
        | _ => simp [collectRefFields] at h
      · cases value with
        | obj fields =>
          cases kind with
          | object =>
            simp only [collectRefFields, if_neg hformat] at h
            obtain ⟨child, hchild, found, hget, href⟩ := mem_collectChildRefs.mp h
            obtain ⟨s, hstored, hparse⟩ := stored_of_collected child found _ ref href
            exact ⟨s, .child hformat hchild hget hstored, hparse⟩
          | _ => simp [collectRefFields, hformat] at h
        | arr values =>
          cases kind with
          | array =>
            simp only [collectRefFields, if_neg hformat] at h
            obtain ⟨entry, hitems, found, hfound, href⟩ := mem_collectItemRefs.mp h
            obtain ⟨s, hstored, hparse⟩ := stored_of_collected entry found _ ref href
            rw [hitems]
            exact ⟨s, .item hformat hfound hstored, hparse⟩
          | _ => simp [collectRefFields, hformat] at h
        | _ => simp [collectRefFields, hformat] at h
termination_by entry => sizeOf entry
decreasing_by
  · simp only [hitems, SchemaEntry.mk.sizeOf_spec, Option.some.sizeOf_spec]
    omega
  · have := sizeOf_lt_of_mem hchild
    simp only [SchemaEntry.mk.sizeOf_spec]
    omega

theorem StoredRef.collected {entry : SchemaEntry} {value : Json} {s id : String}
    (h : StoredRef entry value s) (hparse : parseRef s = some (target, id)) (path : String) :
    ∃ ref ∈ collectRefFields entry value path, ref.targetCollection = target ∧ ref.targetID = id := by
  induction h generalizing path with
  | here => simp [collectRefFields, refFieldFrom, hparse]
  | child hformat hchild hvalue h ih =>
    obtain ⟨ref, href, htarget⟩ := ih hparse _
    refine ⟨ref, ?_, htarget⟩
    rw [collectRefFields, if_neg hformat]
    exact mem_collectChildRefs.mpr ⟨_, hchild, _, hvalue, href⟩
  | item hformat hvalue h ih =>
    obtain ⟨ref, href, htarget⟩ := ih hparse _
    refine ⟨ref, ?_, htarget⟩
    rw [collectRefFields, if_neg hformat]
    exact mem_collectItemRefs.mpr ⟨_, rfl, _, hvalue, href⟩

def Config.DeclaresCollection (cfg : Config) (target : String) : Prop :=
  ∃ collection raw, (collection, raw) ∈ cfg.schemas ∧ Declares target raw

theorem anySchemaReferencesCollection_iff {cfg : Config} :
    anySchemaReferencesCollection cfg target = true ↔ cfg.DeclaresCollection target := by
  simp [anySchemaReferencesCollection, Config.DeclaresCollection, nodeReferencesCollection_iff]

/-- Every reference found in a document is to a collection whose changes are fanned out exactly when
every reference text at a cached-reference field names a collection that some schema declares. -/
theorem references_fanned_out (o : Ojson) (cfg : Config) (schemaRaw : Json) (schema : SchemaEntry)
    (doc : JsonFields) (hcompile : o.compile schemaRaw = .ok schema) :
    (∃ refs, findRefFields o schemaRaw doc = .ok refs ∧
        ∀ ref ∈ refs, anySchemaReferencesCollection cfg ref.targetCollection = true) ↔
      ∀ s target id, StoredRef schema (.obj doc) s → parseRef s = some (target, id) →
        cfg.DeclaresCollection target := by
  simp only [findRefFields, hcompile, Except.ok.injEq, exists_eq_left',
    anySchemaReferencesCollection_iff]
  refine ⟨fun h s target id hstored hparse => ?_, fun h ref href => ?_⟩
  · obtain ⟨ref, href, rfl, -⟩ := hstored.collected hparse ""
    exact h ref href
  · obtain ⟨s, hstored, hparse⟩ := stored_of_collected schema (.obj doc) "" ref href
    exact h s _ _ hstored hparse

namespace Sample
def sequelCustom : Json := .obj [("collections", .arr [.str "Movies"]), ("summary", .arr [])]

def sequelSchema : SchemaEntry :=
  .mk "" .object "" none [.mk "title" .string "" none [] none,
    .mk "sequel" .string "DatoriumCachedRef" (some sequelCustom) [] none] none

def sequelRaw : Json :=
  .obj [("kind", .str "object"), ("children", .arr [
    .obj [("name", .str "title"), ("kind", .str "string"), ("required", .bool true)],
    .obj [("name", .str "sequel"), ("kind", .str "string"), ("format", .str "DatoriumCachedRef"),
      ("custom", sequelCustom)]])]

def sequelConfig : Config :=
  { referringConfig with
      schemas := [("Movies", sequelRaw)]
      plainNames := fun collection h => referringConfig.plainNames collection (by
        by_cases hc : "Movies" = collection
        · simp [referringConfig, hc]
        · simp [Fields.get?_cons, hc] at h) }

def sequelServer : Engine :=
  { server with
      cfg := sequelConfig
      ojson := { ojson with compile := fun _ => .ok sequelSchema } }

def createSequel (sequel : String) : Request :=
  ⟨.create, "Movies", "alien", [("title", .str "Alien"), ("sequel", .str sequel)], true⟩

def sequelRun (sequel : String) : Result × World Unit :=
  (execute sequelServer (createSequel sequel)).run (exec host .none) emptyWorld

def storedMovie (sequel : String) : JsonFields :=
  match (sequelRun sequel).2.files (sequelServer.live "Movies" "alien") with
  | some (.json (.obj fields)) => fields
  | _ => []

def foundTargets (sequel : String) : List String :=
  (collectRefFields sequelSchema (.obj (storedMovie sequel)) "").map RefField.targetCollection
end Sample
open Sample
theorem references_fanned_out_declared : (sequelRun "@@__Movies__aliens").1.ok = true ∧
      ∀ s target id, StoredRef sequelSchema
        (.obj (storedMovie "@@__Movies__aliens")) s → parseRef s = some (target, id) →
          sequelConfig.DeclaresCollection target := by
  have hfound : foundTargets "@@__Movies__aliens" = ["Movies"] ∧
      anySchemaReferencesCollection sequelConfig "Movies" = true := by decide +kernel
  refine ⟨by decide +kernel, (references_fanned_out sequelServer.ojson _ sequelRaw _
    _ rfl).mp ⟨_, rfl, fun ref href => ?_⟩⟩
  have htarget : ref.targetCollection ∈ foundTargets "@@__Movies__aliens" :=
    mem_map_of_mem href
  rw [hfound.1, mem_singleton] at htarget
  rw [htarget]
  exact hfound.2

/-- The rules accept the schema and create accepts the document, whose reference is found and names
a collection no schema declares. -/
theorem reference_not_fanned_out :
    validateCollectionSchemaRules sequelServer.ojson id sequelRaw [] = [] ∧
      (sequelRun "@@__Actors__ripley").1.ok = true ∧
      foundTargets "@@__Actors__ripley" = ["Actors"] ∧
      anySchemaReferencesCollection sequelConfig "Actors" = false := by
  decide +kernel

/-! ## Where summaries are read from -/

def InsideCache (dataDir : Path) (op : Op) : Prop :=
  ∀ p ∈ op.call.paths, dataDir.join ".cache" <+: p

/-- A reference whose cache file, and the directory made for it, are below `.cache`. -/
def RefInside (dataDir : Path) (target id : String) : Prop :=
  dataDir.join ".cache" <+: cacheDir dataDir target ∧
    dataDir.join ".cache" <+: cachePath dataDir target id

instance (dataDir : Path) (target id : String) : Decidable (RefInside dataDir target id) :=
  inferInstanceAs (Decidable (_ ∧ _))

theorem RefInside.summarizes {dataDir : Path} {id : String} (h : RefInside dataDir target id) :
    Summarizes (InsideCache dataDir) dataDir target id where
  load := forall_mem_singleton.mpr h.2
  dir := forall_mem_singleton.mpr h.1
  prepare _ := forall_mem_singleton.mpr h.2
  install := forall_mem_singleton.mpr h.2

-- Where the cache has nothing, a stub is made: its file is read twice, then its directory is made.
theorem refInside_of_only {α : Type} {next : JsonFields → Prog α} {dataDir : Path}
    {refs : List RefField} {out : JsonFields}
    (h : ((collectSummaries dataDir refs out).bind next).Only (InsideCache dataDir)) :
    ∀ ref ∈ refs, RefInside dataDir ref.targetCollection ref.targetID := by
  induction refs generalizing out with
  | nil => simp
  | cons ref refs ih =>
    obtain ⟨hload, hmissing⟩ := h
    obtain ⟨hdir, hfailed⟩ := (hmissing (.error .notExist)).2 (.error .notExist)
    intro r hr
    rcases mem_cons.mp hr with rfl | hr
    · exact ⟨hdir _ mem_cons_self, hload _ mem_cons_self⟩
    · exact ih (hfailed (.error .notExist)) r hr

/-- A read that asks for summaries touches files below `.cache` only exactly when every reference
text of the document stays there once it is joined into a path. -/
theorem summaries_inside_cache (e : Engine) (req : Request) (schemaRaw : Json)
    (schema : SchemaEntry) (doc : JsonFields)
    (hasked : Json.asBool (Fields.get? "cacheSummaries" req.detail) = true)
    (hraw : Fields.get? req.target e.cfg.schemas = some schemaRaw)
    (hcompile : e.ojson.compile schemaRaw = .ok schema) :
    (readDocument e req doc).Only (InsideCache e.dataDir) ↔
      ∀ s target id, StoredRef schema (.obj doc) s → parseRef s = some (target, id) →
        RefInside e.dataDir target id := by
  simp only [readDocument, hasked, if_true, buildCacheSummaries, hraw, findRefFields, hcompile]
  constructor
  · intro h s target id hstored hparse
    obtain ⟨ref, href, rfl, rfl⟩ := hstored.collected hparse ""
    exact refInside_of_only h ref href
  · intro h
    refine .bind (only_collectSummaries (fun ref href => ?_) []) fun _ => trivial
    obtain ⟨s, hstored, hparse⟩ := stored_of_collected schema (.obj doc) "" ref href
    exact (h s _ _ hstored hparse).summarizes

namespace Sample
def readSequel : Request :=
  ⟨.read, "Movies", "alien", [("cacheSummaries", .bool true)], true⟩

def sequelRead (sequel : String) : Result × World Unit :=
  (execute sequelServer readSequel).run (exec host .none) (sequelRun sequel).2
end Sample

theorem summary_inside_cache : (sequelRun "@@__Movies__aliens").1.ok = true ∧
      (readDocument sequelServer readSequel (storedMovie "@@__Movies__aliens")).Only
          (InsideCache sequelServer.dataDir) := by
  refine ⟨by decide +kernel, (summaries_inside_cache sequelServer readSequel
    sequelRaw sequelSchema _ rfl rfl rfl).mpr fun s target id hstored hparse => ?_⟩
  have hinside : ∀ ref ∈ collectRefFields sequelSchema (.obj (storedMovie "@@__Movies__aliens")) "",
      RefInside sequelServer.dataDir ref.targetCollection ref.targetID := by decide +kernel
  obtain ⟨ref, href, rfl, rfl⟩ := hstored.collected hparse ""
  exact hinside ref href

/-- Create accepts a reference that climbs out of the data directory; the read makes its file. -/
theorem summary_outside_cache : (sequelRun "@@__../..__secret").1.ok = true ∧
      (sequelRun "@@__../..__secret").2.files ["secret.json"] = none ∧
      (sequelRead "@@__../..__secret").1.ok = true ∧
      ((sequelRead "@@__../..__secret").2.files ["secret.json"]).isSome = true ∧
      ¬ sequelServer.dataDir.join ".cache" <+: ["secret.json"] := by
  decide +kernel
end Datorium
