
import Datorium.Engine.Config
namespace Datorium
open Framework
/-- `commandreq.Request`. `utf8` says that the raw bytes of the detail are valid UTF-8, which ojson
insists on and `encoding/json` does not. -/
structure Request where
  command : Command
  target : String
  parameter : String
  detail : JsonFields
  utf8 : Bool

inductive ErrorCode where
  | collectionNotFound
  | documentIdRequired
  | invalidDocumentId
  | wrongMachine
  | readMemberStale
  | documentStale
  | idGenerationFailed
  | schemaMismatch
  | invalidMetadata
  | idMismatch
  | invalidSchema
  | documentEncodeFailed
  | documentExists
  | documentNotFound
  | schemaMigrationFailed
  | versionMismatch
  | invalidDetail
  | invalidPatch
  | invalidPatchPath
  | filesystemError
  | queueWriteFailed
  | invalidFileName
  | fileTooLarge
  | fileExists
  | fileNotFound
  | fileVersionMismatch
  | fileStale
  deriving DecidableEq, Repr

structure ApiError where
  code : ErrorCode
  path : String := ""
  message : String
  expected : String := ""
  actual : String := ""

structure Note where
  code : String
  message : String
  required : List String
  acknowledged : List String
  unacknowledged : List String
  timeoutMs : Nat

structure Result where
  ok : Bool
  command : Command
  collection : String
  id : Option String := none
  marker : Option String := none
  version : Option String := none
  versions : Option (String × String) := none
  operationId : Option String := none
  sot : Option JsonFields := none
  extraFields : Option JsonFields := none
  cacheSummaries : Option JsonFields := none
  note : Option Note := none
  distributionComplete : Option Bool := none
  configVersion : Option Int := none
  errors : List ApiError := []

namespace Request
def fail (req : Request) (err : ApiError) : Result :=
  { ok := false, command := req.command, collection := req.target, id := some req.parameter,
    errors := [err] }

@[simp] theorem fail_ok (req : Request) (err : ApiError) : (req.fail err).ok = false := rfl

def expectedVersion (req : Request) : String := Json.asString (Fields.get? "#" req.detail)

/-- `commandreq.StringField(detail, "operationId")`. -/
def operationId (req : Request) : String := Json.stringField req.detail "operationId"
end Request

def invalidDocumentId : ApiError :=
  { code := .invalidDocumentId,
    message := "document id is invalid or unsafe for filesystem storage" }

def collectionNotFound : ApiError :=
  { code := .collectionNotFound, message := "collection does not exist" }

def documentNotFound : ApiError :=
  { code := .documentNotFound, message := "document not found" }

def idGenerationFailed (err : FsError) : ApiError :=
  { code := .idGenerationFailed, message := err.message }

def filesystemError (err : FsError) : ApiError :=
  { code := .filesystemError, message := err.message }

def queueWriteFailed (err : FsError) : ApiError :=
  { code := .queueWriteFailed, message := err.message }

def invalidSchema (message : String) : ApiError := { code := .invalidSchema, message }

def documentEncodeFailed (message : String) : ApiError := { code := .documentEncodeFailed, message }

def invalidPatch (message : String) : ApiError := { code := .invalidPatch, message }

def versionMismatch (expected actual : String) : ApiError :=
  { code := .versionMismatch, path := "/#", message := "Document version does not match.",
    expected, actual }

def schemaMismatch (expected actual : String) : ApiError :=
  { code := .schemaMismatch, path := "/$",
    message := "Document schema marker does not match the collection schema.", expected, actual }

def wrongMachineResult (req : Request) (cfg : Config) (message : String) : Result :=
  { req.fail { code := .wrongMachine, message } with configVersion := some cfg.version }

def checkRouting (e : Engine) (req : Request) : Option Result :=
  if e.serverName = "" then none
  else
    let assignment := e.cfg.assignmentForSlot (slot req.parameter)
    match req.command with
    | .read =>
      if e.serverName ∈ assignment.shardReadMember then none
      else some (wrongMachineResult req e.cfg
        ("This server is not a SHARD_READ_MEMBER for the target shard; " ++
          "refresh establishment config and retry."))
    | _ =>
      if assignment.shardSOTMember = e.serverName then none
      else some (wrongMachineResult req e.cfg
        "This server is not the SHARD_SOT_MEMBER for the target shard.")

def checkStaleness (e : Engine) (req : Request) : Option Result :=
  match e.readState with
  | none => none
  | some state =>
    let sot := (e.cfg.assignmentForSlot (slot req.parameter)).shardSOTMember
    if sot ≠ "" ∧ sot ≠ e.serverName ∧ sot ∈ state.staleSOT then
      some (req.fail { code := .readMemberStale, message :=
        "This read member has failed too many check-ins with the shard's SOT-member and " ++
          "refuses all reads for this shard slot until it catches up." })
    else if req.target ++ "/" ++ req.parameter ∈ state.pendingDocs then
      some (req.fail { code := .documentStale, message :=
        "This document has a pending replicated write that has not been applied yet." })
    else none

variable {e : Engine} {req : Request} {res : Result}
theorem checkRouting_owned (h : e.OwnsEverySlot) (req : Request) : checkRouting e req = none := by
  unfold checkRouting
  split
  · rfl
  · cases req.command <;> simp [(h _).1, (h _).2]

theorem checkRouting_error (h : checkRouting e req = some res) : res.ok = false := by
  unfold checkRouting at h
  split at h
  · cases h
  · dsimp only at h
    split at h <;> split at h <;> cases h <;> rfl

theorem checkStaleness_error (h : checkStaleness e req = some res) : res.ok = false := by
  unfold checkStaleness at h
  split at h
  · cases h
  · dsimp only at h
    split at h
    · cases h
      rfl
    · split at h <;> cases h
      rfl

/-- The checks of `create` before anything is generated. -/
def createAdmission (e : Engine) (req : Request) : Except Result Json :=
  match Fields.get? req.target e.cfg.schemas with
  | none => .error { req.fail collectionNotFound with id := none }
  | some schemaRaw =>
    if req.parameter = "" ∨ req.parameter = "null" then
      .error (req.fail
        { code := .documentIdRequired,
          message := "create requires a client-supplied document id; server-side id " ++
            "generation is not supported" })
    else if ¬ (validDocumentID req.parameter ∧ safeID req.parameter) then
      .error (req.fail invalidDocumentId)
    else match checkRouting e req with
      | some wrong => .error wrong
      | none => .ok schemaRaw

theorem createAdmission_error (h : createAdmission e req = .error res) : res.ok = false := by
  unfold createAdmission at h
  split at h
  · cases h
    rfl
  · split at h
    · cases h
      rfl
    · split at h
      · cases h
        rfl
      · split at h
        · rename_i wrong hw
          cases h
          exact checkRouting_error hw
        · cases h

theorem createAdmission_ok {schemaRaw : Json} (h : createAdmission e req = .ok schemaRaw) :
    Fields.get? req.target e.cfg.schemas = some schemaRaw ∧ DocumentId req.parameter := by
  unfold createAdmission at h
  split at h
  · cases h
  · rename_i raw hraw
    split at h
    · cases h
    · split at h
      · cases h
      · rename_i hid
        split at h
        · cases h
        · cases h
          exact ⟨hraw, .of_valid (not_not.mp hid).1⟩

def stripWriteMeta (detail : JsonFields) : JsonFields :=
  detail.filter fun f => f.1 ∉ ["operationId", "!", "$", "#", "RFC6902"]

/-- The checks of `create` on the detail object. -/
def createContent (e : Engine) (req : Request) (schemaRaw : Json) : Except ApiError Unit :=
  let marker := e.cfg.currentSchemaMarker req.target
  let supplied := Json.asString (Fields.get? "$" req.detail)
  let bang := Json.asString (Fields.get? "!" req.detail)
  if supplied ≠ "" ∧ supplied ≠ marker then .error (schemaMismatch marker supplied)
  else if (Fields.get? "#" req.detail).isSome then
    .error { code := .invalidMetadata, path := "/#", message := "create content cannot include #" }
  else if bang ≠ "" ∧ bang ≠ req.parameter then
    .error { code := .idMismatch, path := "/!", message := "supplied ! does not match document id",
             expected := req.parameter, actual := bang }
  else match e.ojson.validateValueAgainstSchema schemaRaw
      (sortKeys (.obj (stripWriteMeta req.detail))) with
    | .error err => .error (invalidSchema err)
    | .ok () => .ok ()

/-- The database-owned fields, assigned in the order of `create` and `patch`. -/
def stamp (id marker version : String) (doc : Json) : Except String Json := do
  let doc ← doc.setTry "!" (.str id)
  let doc ← doc.setTry "$" (.str marker)
  doc.setTry "#" (.str version)

def stampFields (id marker version : String) (fields : JsonFields) : JsonFields :=
  Fields.set "#" (.str version) (Fields.set "$" (.str marker) (Fields.set "!" (.str id) fields))

theorem stamp_ok {id marker version : String} {doc doc' : Json}
    (h : stamp id marker version doc = .ok doc') :
    ∃ fields, doc = .obj fields ∧ doc' = .obj (stampFields id marker version fields) := by
  cases doc with
  | obj fields => exact ⟨fields, rfl, (Except.ok.inj h).symm⟩
  | _ => cases h

theorem get?_stampFields (id marker version : String) (fields : JsonFields) (k : String) :
    Fields.get? k (stampFields id marker version fields) =
      if k = "#" then some (.str version) else if k = "$" then some (.str marker)
      else if k = "!" then some (.str id) else Fields.get? k fields := by
  by_cases h₁ : k = "#"
  · simp [stampFields, h₁]
  · by_cases h₂ : k = "$"
    · simp [stampFields, h₂, Fields.get?_set_other]
    · by_cases h₃ : k = "!"
      · simp [stampFields, h₃, Fields.get?_set_other]
      · simp [stampFields, h₁, h₂, h₃, Fields.get?_set_other, Ne.symm h₁, Ne.symm h₂, Ne.symm h₃]

def canonicalCreateDocument (o : Ojson) (schemaRaw : Json) (req : Request) (marker version : String) :
    Except String Json :=
  if req.utf8 = false then .error "JSON text must be valid UTF-8"
  else match stamp req.parameter marker version ((Json.obj req.detail).remove "operationId") with
    | .error err => .error err
    | .ok doc => canonicalize o schemaRaw doc

/-- The checks of `patch` before the document is read. -/
def patchAdmission (e : Engine) (req : Request) : Except Result Json :=
  if ¬ (validDocumentID req.parameter ∧ safeID req.parameter) then
    .error (req.fail invalidDocumentId)
  else match checkRouting e req with
    | some wrong => .error wrong
    | none =>
      match Fields.get? req.target e.cfg.schemas with
      | none => .error (req.fail collectionNotFound)
      | some schemaRaw => .ok schemaRaw

theorem patchAdmission_error (h : patchAdmission e req = .error res) : res.ok = false := by
  unfold patchAdmission at h
  split at h
  · cases h
    rfl
  · split at h
    · rename_i wrong hw
      cases h
      exact checkRouting_error hw
    · split at h <;> cases h
      rfl

theorem patchAdmission_ok {schemaRaw : Json} (h : patchAdmission e req = .ok schemaRaw) :
    Fields.get? req.target e.cfg.schemas = some schemaRaw ∧ DocumentId req.parameter := by
  unfold patchAdmission at h
  split at h
  · cases h
  · rename_i hid
    split at h
    · cases h
    · split at h
      · cases h
      · rename_i raw hraw
        cases h
        exact ⟨hraw, .of_valid (not_not.mp hid).1⟩

def restrictedPointer (p : String) : Bool :=
  p != "" && (p == "/!" || p == "/$" || p == "/#" || "/!/".toList.isPrefixOf p.toList ||
    "/$/".toList.isPrefixOf p.toList || "/#/".toList.isPrefixOf p.toList)

/-- `content`: the patched document without its database-owned fields. -/
def patchContent (patched : Json) : Json :=
  (((patched.remove "!").remove "$").remove "#").remove "operationId"

/-- The version, marker and id checks of `patch` on the stored document. -/
def patchGuard (e : Engine) (req : Request) (doc : Json) : Except ApiError Unit :=
  let expected := req.expectedVersion
  let actual := Json.asString (doc.get? "#")
  let marker := e.cfg.currentSchemaMarker req.target
  let supplied := Json.asString (Fields.get? "$" req.detail)
  let bang := Json.asString (doc.get? "!")
  if expected = "" ∨ expected ≠ actual then .error (versionMismatch expected actual)
  else if supplied ≠ marker then .error (schemaMismatch marker supplied)
  else if bang ≠ req.parameter then
    .error { code := .idMismatch, path := "/!", message := "document ! does not match id",
             expected := req.parameter, actual := bang }
  else .ok ()

def patchResult (e : Engine) (req : Request) (schemaRaw doc : Json) :
    Except ApiError (List PatchOp × Json) :=
  if req.utf8 = false then
    .error { code := .invalidDetail, message := "JSON text must be valid UTF-8" }
  else match Fields.get? "RFC6902" req.detail with
    | some (.arr ops) =>
      match e.ojson.readPatch (.arr ops) with
      | .error err => .error (invalidPatch err)
      | .ok patch =>
        match patch.find? fun op => restrictedPointer op.path || restrictedPointer op.source with
        | some op =>
          .error { code := .invalidPatchPath, path := op.path,
                   message := "cannot patch database-owned metadata" }
        | none =>
          match e.ojson.applyPatch doc patch with
          | .error err => .error (invalidPatch err)
          | .ok patched =>
            match e.ojson.validateValueAgainstSchema schemaRaw (patchContent patched) with
            | .error err => .error (invalidSchema err)
            | .ok () => .ok (patch, patched)
    | _ => .error (invalidPatch "RFC6902 array is required")

def patchOpsToMaps : List PatchOp → Except String (List JsonFields)
  | [] => .ok []
  | op :: ops =>
    match op.value.toMap? with
    | none => .error "patch operation is not an object"
    | some fields =>
      match patchOpsToMaps ops with
      | .error err => .error err
      | .ok rest => .ok (fields :: rest)

def patchStamped (e : Engine) (req : Request) (patch : List PatchOp) (patched : Json)
    (after : String) : Except ApiError (Json × List JsonFields) :=
  match stamp req.parameter (e.cfg.currentSchemaMarker req.target) after patched with
  | .error err => .error (documentEncodeFailed err)
  | .ok doc =>
    match patchOpsToMaps patch with
    | .error err => .error (invalidPatch err)
    | .ok ops =>
      .ok (doc.remove "operationId",
        ops ++ [[("op", .str "replace"), ("path", .str "/#"), ("value", .str after)]])

/-- The checks of `delete` before the document is read. -/
def deleteAdmission (e : Engine) (req : Request) : Except Result Unit :=
  if ¬ (validDocumentID req.parameter ∧ safeID req.parameter) then
    .error (req.fail invalidDocumentId)
  else match checkRouting e req with
    | some wrong => .error wrong
    | none => .ok ()

theorem deleteAdmission_error (h : deleteAdmission e req = .error res) : res.ok = false := by
  unfold deleteAdmission at h
  split at h
  · cases h
    rfl
  · split at h
    · rename_i wrong hw
      cases h
      exact checkRouting_error hw
    · cases h

theorem deleteAdmission_ok (h : deleteAdmission e req = .ok ()) : DocumentId req.parameter := by
  unfold deleteAdmission at h
  split at h
  · cases h
  · rename_i hid
    exact .of_valid (not_not.mp hid).1

def deleteGuard (req : Request) (doc : JsonFields) : Except ApiError Unit :=
  let expected := req.expectedVersion
  let actual := Json.asString (Fields.get? "#" doc)
  if expected = "" ∨ expected ≠ actual then .error (versionMismatch expected actual) else .ok ()

/-- The checks of `read` before the document is read. -/
def readAdmission (e : Engine) (req : Request) : Except Result Unit :=
  if ¬ (validDocumentID req.parameter ∧ safeID req.parameter) then
    .error (req.fail invalidDocumentId)
  else match checkRouting e req with
    | some wrong => .error wrong
    | none =>
      match checkStaleness e req with
      | some wrong => .error wrong
      | none => .ok ()

theorem readAdmission_error (h : readAdmission e req = .error res) : res.ok = false := by
  unfold readAdmission at h
  split at h
  · cases h
    rfl
  · split at h
    · rename_i wrong hw
      cases h
      exact checkRouting_error hw
    · split at h
      · rename_i wrong hw
        cases h
        exact checkStaleness_error hw
      · cases h

def childName : Json → Option String
  | .null => some ""
  | .obj fields =>
    match Fields.get? "name" fields with
    | none => some ""
    | some .null => some ""
    | some (.str name) => some name
    | some _ => none
  | _ => none

def schemaFieldNames (schemaRaw : Json) : List String :=
  match schemaRaw.get? "children" with
  | some (.arr children) => ((children.mapM childName).getD []).filter (· ≠ "")
  | _ => []

def splitSOTAndExtra (doc : JsonFields) (schemaRaw : Option Json) : JsonFields × JsonFields :=
  let names := ["!", "$", "#"] ++ (schemaRaw.map schemaFieldNames).getD []
  doc.partition fun f => f.1 ∈ names
end Datorium
