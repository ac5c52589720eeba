
import Datorium.Storage.Documents
namespace Datorium
open Framework
/-- `SplitN(s, "__", 2)`, when there are two parts. -/
def splitUnderscores : List Char → Option (List Char × List Char)
  | '_' :: '_' :: rest => some ([], rest)
  | c :: rest => (splitUnderscores rest).map fun parts => (c :: parts.1, parts.2)
  | [] => none

def parseRef (s : String) : Option (String × String) :=
  if "@@__".toList.isPrefixOf s.toList then
    match splitUnderscores (s.toList.drop 4) with
    | some (collection, id) =>
      if collection = [] ∨ id = [] then none
      else some (String.ofList collection, String.ofList id)
    | none => none
  else none

structure RefField where
  fieldName : String
  targetCollection : String
  targetID : String
  summary : List String

def stringItems : Option Json → List String
  | some (.arr items) => items.filterMap fun
      | .str s => some s
      | _ => none
  | _ => []

def joinFieldPath (base name : String) : String :=
  if base = "" then name else if name = "" then base else base ++ "/" ++ name

def refFieldFrom (fieldName stored : String) (custom : Option Json) : Option RefField :=
  match parseRef stored with
  | none => none
  | some (collection, id) =>
    some { fieldName, targetCollection := collection, targetID := id,
           summary := stringItems (custom.bind (Json.get? "summary")) }

mutual

def collectRefFields : SchemaEntry → Json → String → List RefField
  | _, .null, _ => []
  | .mk name kind format custom children items, value, path =>
    if format = "DatoriumCachedRef" then
      match value with
      | .str s => (refFieldFrom (if path = "" then name else path) s custom).toList
      | _ => []
    else match kind, value with
      | .object, .obj fields => collectChildRefs children fields path
      | .array, .arr values => collectItemRefs items values (if path = "" then name else path)
      | _, _ => []

def collectChildRefs : List SchemaEntry → JsonFields → String → List RefField
  | [], _, _ => []
  | child :: children, fields, path =>
    match Fields.get? child.name fields with
    | none => collectChildRefs children fields path
    | some value =>
      collectRefFields child value (joinFieldPath path child.name) ++
        collectChildRefs children fields path

def collectItemRefs : Option SchemaEntry → List Json → String → List RefField
  | none, _, _ => []
  | some entry, values, path => values.flatMap fun value => collectRefFields entry value path
end

def findRefFields (o : Ojson) (schemaRaw : Json) (doc : JsonFields) : Except String (List RefField) :=
  match o.compile schemaRaw with
  | .error err => .error err
  | .ok schema => .ok (collectRefFields schema (.obj doc) "")

/-- `lookupPath`, along the segments of a pointer. -/
def lookupSegments : List String → Json → Option Json
  | [], value => some value
  | segment :: segments, value => (value.get? segment).bind (lookupSegments segments)

def lookupPath (doc : JsonFields) (path : String) : Option Json :=
  let trimmed := match path.toList with
    | '/' :: rest => rest
    | cs => cs
  lookupSegments ((trimmed.splitOn '/').map String.ofList) (.obj doc)

def buildSummary (cached : JsonFields) (summaryPaths : List String) : JsonFields :=
  let carry (key : String) (out : JsonFields) : JsonFields :=
    match Fields.get? key cached with
    | some value => Fields.set key value out
    | none => out
  let base := Fields.set "#" ((Fields.get? "#" cached).getD .null) (carry "$" (carry "!" []))
  summaryPaths.foldl (fun out path =>
    match lookupPath cached path with
    | some value => Fields.set path value out
    | none => out) base

def loadCacheFile (dataDir : Path) (sourceCollection sourceDocID : String) :
    Prog (Except FsError (Option JsonFields)) := do
  match ← readDocumentJSON .cacheLoad (cachePath dataDir sourceCollection sourceDocID) with
  | .error err => pure (if err.isNotExist then .ok none else .error err)
  | .ok doc => pure (.ok (some doc))

def ensureStub (dataDir : Path) (sourceCollection sourceDocID : String) :
    Prog (Except FsError JsonFields) := do
  match ← loadCacheFile dataDir sourceCollection sourceDocID with
  | .error err => pure (.error err)
  | .ok (some existing) => pure (.ok existing)
  | .ok none =>
    let stub : JsonFields := [("!", .str sourceDocID), ("#", .null)]
    match ← mkdirAll .cacheDir (cacheDir dataDir sourceCollection) with
    | .error err => pure (.error err)
    | .ok () =>
      match ← writeFileAtomic .cacheStub (cachePath dataDir sourceCollection sourceDocID)
          (.json (encodeMap stub)) with
      | .error err => pure (.error err)
      | .ok () => pure (.ok stub)

def mergeSummary (out : JsonFields) (ref : RefField) (summary : JsonFields) : JsonFields :=
  let byCollection := match Fields.get? ref.targetCollection out with
    | some (.obj fields) => fields
    | _ => []
  let merged := match Fields.get? ref.targetID byCollection with
    | some (.obj existing) => summary.foldl (fun acc f => Fields.set f.1 f.2 acc) existing
    | _ => summary
  Fields.set ref.targetCollection (.obj (Fields.set ref.targetID (.obj merged) byCollection)) out

def collectSummaries (dataDir : Path) : List RefField → JsonFields → Prog JsonFields
  | [], out => pure out
  | ref :: refs, out => do
      match ← loadCacheFile dataDir ref.targetCollection ref.targetID with
      | .error _ => collectSummaries dataDir refs out
      | .ok (some cached) =>
        collectSummaries dataDir refs (mergeSummary out ref (buildSummary cached ref.summary))
      | .ok none =>
        match ← ensureStub dataDir ref.targetCollection ref.targetID with
        | .error _ => collectSummaries dataDir refs out
        | .ok stub =>
          collectSummaries dataDir refs (mergeSummary out ref (buildSummary stub ref.summary))

def buildCacheSummaries (o : Ojson) (dataDir : Path) (doc : JsonFields) (schemaRaw : Option Json) :
    Prog JsonFields :=
  match schemaRaw with
  | none => pure []
  | some schemaRaw =>
    match findRefFields o schemaRaw doc with
    | .error _ => pure []
    | .ok refs => collectSummaries dataDir refs []
end Datorium
