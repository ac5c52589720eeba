
import Datorium.Agents.Cache
import Datorium.Agents.Change
import Datorium.Agents.Upgrade
import Datorium.Engine.Request
import Datorium.Replication.Pending
/-!
# The document commands

A write decides and commits under the engine mutex; delivery to the members and distribution to
searches and caches come after the mutex is released.
-/
namespace Datorium
open Framework
def buildNote (outcome : PushOutcome) : Note :=
  { code := "replication_retry_scheduled",
    message := "Write succeeded on the SOT-member, but one or more read members did not " ++
      "acknowledge the one-time delivery attempt. Durable .pendingWrites entries were " ++
      "recorded; those read members are responsible for catch-up.",
    required := outcome.required,
    acknowledged := outcome.acknowledged,
    unacknowledged := outcome.unacknowledged,
    timeoutMs := outcome.timeoutMs }

def Engine.targets (e : Engine) (id : String) : List String :=
  targetsForAssignment e.serverName (e.cfg.assignmentForSlot (slot id))

/-- The replication half of `deliverOnce`: the note for the response, if one is due. -/
def deliverReplicas (e : Engine) (item : WorkItem) : Prog (Option Note) :=
  if e.replicates then do
    let outcome ← replicateDocumentWrite e item (e.targets item.id)
    pure (if outcome.complete then none else some (buildNote outcome))
  else pure none

/-- The distribution half of `deliverOnce`. -/
def deliverDerived (e : Engine) (item : WorkItem) : Prog Bool :=
  if e.distributes then processNow e item.command item.collection item.id else pure false

def deliverOnce (e : Engine) (item : WorkItem) (result : Result) : Prog Result := do
  let note ← deliverReplicas e item
  let derivedComplete ← deliverDerived e item
  pure { result with note, distributionComplete := some (note.isNone && derivedComplete) }

def locked {α : Type} (body : Prog α) : Prog α := do
  lock
  let r ← body
  unlock
  pure r

def operationIdOr (req : Request) : Prog (Except FsError String) :=
  if req.operationId = "" then newId .operationId else pure (.ok req.operationId)

def documentExists : ApiError :=
  { code := .documentExists, message := "document already exists" }

def CommitError.toApiError : CommitError → ApiError
  | .document err => filesystemError err
  | .queueEntry err => queueWriteFailed err

def createWrite (e : Engine) (req : Request) (doc : Json) : Prog (Except ApiError Unit) := do
  match ← ensureCollectionDir e.dataDir req.target with
  | .error err => pure (.error (filesystemError err))
  | .ok () =>
    match ← writeDocumentJSONVerified id (e.live req.target req.parameter) doc with
    | .error err => pure (.error (filesystemError err))
    | .ok () =>
      match ← enqueueChange id e.dataDir req.target req.parameter .create with
      | .error err => pure (.error (queueWriteFailed err))
      | .ok () => pure (.ok ())

/-- The locked part of `create`; any error of the existence check counts as absence. -/
def createLocal (e : Engine) (req : Request) (doc : Json) : Prog (Except ApiError Unit) := do
  match ← stat .statLive (e.live req.target req.parameter) with
  | .ok () => pure (.error documentExists)
  | .error _ => createWrite e req doc

def createItem (req : Request) (operationId version : String) (doc : Json) : WorkItem :=
  { collection := req.target, id := req.parameter, beforeVersion := "", afterVersion := version,
    operationId, command := .create, patch := [], payload := some doc }

def createResponse (req : Request) (marker operationId version : String) : Result :=
  { ok := true, command := .create, collection := req.target, id := some req.parameter,
    marker := some marker, version := some version, operationId := some operationId }

def create (e : Engine) (req : Request) : Prog Result :=
  match createAdmission e req with
  | .error res => pure res
  | .ok schemaRaw => do
      match ← operationIdOr req with
      | .error err => pure (req.fail (idGenerationFailed err))
      | .ok operationId =>
        match createContent e req schemaRaw with
        | .error err => pure (req.fail err)
        | .ok () =>
          match ← newId .version with
          | .error err => pure (req.fail (idGenerationFailed err))
          | .ok version =>
            let marker := e.cfg.currentSchemaMarker req.target
            match canonicalCreateDocument e.ojson schemaRaw req marker version with
            | .error err => pure (req.fail (documentEncodeFailed err))
            | .ok doc =>
              match ← locked (createLocal e req doc) with
              | .error err => pure (req.fail err)
              | .ok () =>
                deliverOnce e (createItem req operationId version doc)
                  (createResponse req marker operationId version)

def patchItem (req : Request) (operationId after : String) (ops : List JsonFields) (doc : Json) :
    WorkItem :=
  { collection := req.target, id := req.parameter, beforeVersion := req.expectedVersion,
    afterVersion := after, operationId, command := .patch, patch := ops, payload := some doc }

def patchResponse (req : Request) (marker operationId after : String) : Result :=
  { ok := true, command := .patch, collection := req.target, id := some req.parameter,
    marker := some marker, operationId := some operationId,
    versions := some (req.expectedVersion, after) }

/-- The end of the locked part of `patch`: encode the document and commit it. -/
def patchCommit (e : Engine) (req : Request) (schemaRaw : Json) (after operationId : String)
    (doc : Json) (ops : List JsonFields) : Prog (Except ApiError (WorkItem × Result)) :=
  match canonicalize e.ojson schemaRaw doc with
  | .error err => pure (.error (documentEncodeFailed err))
  | .ok newDoc => do
      match ← replaceDocument id e req.target req.parameter newDoc with
      | .error err => pure (.error err.toApiError)
      | .ok () =>
        pure (.ok (patchItem req operationId after ops newDoc,
          patchResponse req (e.cfg.currentSchemaMarker req.target) operationId after))

/-- The locked part of `patch` from the stored document on. -/
def patchStored (e : Engine) (req : Request) (schemaRaw doc : Json) :
    Prog (Except ApiError (WorkItem × Result)) :=
  match patchGuard e req doc with
  | .error err => pure (.error err)
  | .ok () =>
    match patchResult e req schemaRaw doc with
    | .error err => pure (.error err)
    | .ok (ops, patched) => do
        match ← newId .version with
        | .error err => pure (.error (idGenerationFailed err))
        | .ok after =>
          match patchStamped e req ops patched after with
          | .error err => pure (.error err)
          | .ok (stamped, replicatedOps) =>
            match ← operationIdOr req with
            | .error err => pure (.error (idGenerationFailed err))
            | .ok operationId =>
              patchCommit e req schemaRaw after operationId stamped replicatedOps

def patchLocal (e : Engine) (req : Request) (schemaRaw : Json) :
    Prog (Except ApiError (WorkItem × Result)) := do
  match ← readDocumentValue .readLive (e.live req.target req.parameter) with
  | .error _ => pure (.error documentNotFound)
  | .ok doc => patchStored e req schemaRaw doc

def patch (e : Engine) (req : Request) : Prog Result :=
  match patchAdmission e req with
  | .error res => pure res
  | .ok schemaRaw => do
      match ← locked (patchLocal e req schemaRaw) with
      | .error err => pure (req.fail err)
      | .ok committed => deliverOnce e committed.1 committed.2

def deleteItem (req : Request) (operationId : String) : WorkItem :=
  { collection := req.target, id := req.parameter, beforeVersion := req.expectedVersion,
    afterVersion := req.expectedVersion, operationId, command := .delete, patch := [],
    payload := none }

def deleteResponse (req : Request) (operationId : String) : Result :=
  { ok := true, command := .delete, collection := req.target, id := some req.parameter,
    version := some req.expectedVersion, operationId := some operationId }

/-- The end of the locked part of `delete`. -/
def deleteCommit (e : Engine) (req : Request) (operationId : String) :
    Prog (Except ApiError (WorkItem × Result)) := do
  match ← softDeleteDocument e.dataDir req.target req.parameter with
  | .error err => pure (.error (filesystemError err))
  | .ok () =>
    match ← enqueueChange id e.dataDir req.target req.parameter .delete with
    | .error err => pure (.error (queueWriteFailed err))
    | .ok () => pure (.ok (deleteItem req operationId, deleteResponse req operationId))

def deleteLocal (e : Engine) (req : Request) : Prog (Except ApiError (WorkItem × Result)) := do
  match ← readDocumentJSON .readLive (e.live req.target req.parameter) with
  | .error _ => pure (.error documentNotFound)
  | .ok doc =>
    match deleteGuard req doc with
    | .error err => pure (.error err)
    | .ok () =>
      match ← operationIdOr req with
      | .error err => pure (.error (idGenerationFailed err))
      | .ok operationId => deleteCommit e req operationId

def delete (e : Engine) (req : Request) : Prog Result :=
  match deleteAdmission e req with
  | .error res => pure res
  | .ok () => do
      match ← locked (deleteLocal e req) with
      | .error err => pure (req.fail err)
      | .ok committed => deliverOnce e committed.1 committed.2

def readResponse (e : Engine) (req : Request) (doc : JsonFields) (summaries : Option JsonFields) :
    Result :=
  let split := splitSOTAndExtra doc (Fields.get? req.target e.cfg.schemas)
  let wantExtra := Json.asBool (Fields.get? "extraFields" req.detail)
  { ok := true, command := .read, collection := req.target, id := some req.parameter,
    sot := some split.1, extraFields := if wantExtra then some split.2 else none,
    cacheSummaries := summaries }

/-- The end of `read`: the summaries, when they are asked for, and the response. -/
def readDocument (e : Engine) (req : Request) (doc : JsonFields) : Prog Result :=
  if Json.asBool (Fields.get? "cacheSummaries" req.detail) then do
    let summaries ← buildCacheSummaries e.ojson e.dataDir doc (Fields.get? req.target e.cfg.schemas)
    pure (readResponse e req doc (some summaries))
  else pure (readResponse e req doc none)

def read (e : Engine) (req : Request) : Prog Result :=
  match readAdmission e req with
  | .error res => pure res
  | .ok () => do
      match ← readDocumentJSON .readLive (e.live req.target req.parameter) with
      | .error _ => pure (req.fail documentNotFound)
      | .ok doc =>
        match ← migrateOnAccess e req.target req.parameter doc with
        | .error err =>
          pure (req.fail { code := .schemaMigrationFailed, message := err.message })
        | .ok current => readDocument e req current

def execute (e : Engine) (req : Request) : Prog Result :=
  match req.command with
  | .create => create e req
  | .read => read e req
  | .patch => patch e req
  | .delete => delete e req
end Datorium
