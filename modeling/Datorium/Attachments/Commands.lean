
import Datorium.Attachments.Blobs
import Datorium.Engine.Commands
namespace Datorium
open Framework
namespace FileWorkItem
def fields (item : FileWorkItem) : JsonFields :=
  [("collection", .str item.collection), ("id", .str item.id), ("filename", .str item.filename)] ++
    WorkItem.omitEmpty "contentType" item.contentType ++
    FileOpJournal.omitZero "byteSize" item.byteSize ++ WorkItem.omitEmpty "sha256" item.sha256 ++
    [("version", .str item.version), ("operationId", .str item.operationId),
      ("command", .str item.command.text)]

def toJson (item : FileWorkItem) : Json := .obj item.fields

/-- `json.Unmarshal` into a file work item. -/
def ofJson (v : Json) : Option FileWorkItem := do
  let fields ← v.toMap?
  let collection ← WorkItem.stringOf (Fields.get? "collection" fields)
  let id ← WorkItem.stringOf (Fields.get? "id" fields)
  let filename ← WorkItem.stringOf (Fields.get? "filename" fields)
  let contentType ← WorkItem.stringOf (Fields.get? "contentType" fields)
  let byteSize ← intOf (Fields.get? "byteSize" fields)
  let sha256 ← WorkItem.stringOf (Fields.get? "sha256" fields)
  let version ← WorkItem.stringOf (Fields.get? "version" fields)
  let operationId ← WorkItem.stringOf (Fields.get? "operationId" fields)
  let command ← (WorkItem.stringOf (Fields.get? "command" fields)).bind FileCommand.ofText
  return { collection, id, filename, contentType, byteSize, sha256, version, operationId, command }

theorem get?_fields_required (item : FileWorkItem) :
    Fields.get? "collection" item.fields = some (.str item.collection) ∧
      Fields.get? "id" item.fields = some (.str item.id) ∧
      Fields.get? "filename" item.fields = some (.str item.filename) ∧
      Fields.get? "version" item.fields = some (.str item.version) ∧
      Fields.get? "operationId" item.fields = some (.str item.operationId) ∧
      Fields.get? "command" item.fields = some (.str item.command.text) := by
  simp [fields, Fields.get?_append, Fields.get?_cons, WorkItem.get?_omitEmpty_other,
    FileOpJournal.get?_omitZero_other]

theorem get?_fields_optional (item : FileWorkItem) : Fields.get? "contentType" item.fields =
        Fields.get? "contentType" (WorkItem.omitEmpty "contentType" item.contentType) ∧
      Fields.get? "byteSize" item.fields =
        Fields.get? "byteSize" (FileOpJournal.omitZero "byteSize" item.byteSize) ∧
      Fields.get? "sha256" item.fields =
        Fields.get? "sha256" (WorkItem.omitEmpty "sha256" item.sha256) := by
  simp [fields, Fields.get?_append, Fields.get?_cons, WorkItem.get?_omitEmpty_other,
    FileOpJournal.get?_omitZero_other]

@[simp] theorem ofJson_toJson (item : FileWorkItem) : ofJson item.toJson = some item := by
  obtain ⟨hcollection, hid, hfilename, hversion, hoperation, hcommand⟩ := item.get?_fields_required
  obtain ⟨htype, hsize, hsha⟩ := item.get?_fields_optional
  simp only [ofJson, toJson, Json.toMap?_obj, Option.bind_eq_bind, Option.bind_some, hcollection,
    hid, hfilename, hversion, hoperation, hcommand, htype, hsize, hsha,
    WorkItem.stringOf_omitEmpty, FileOpJournal.intOf_omitZero]
  simp only [WorkItem.stringOf, Option.bind_some, FileCommand.ofText_text]
  rfl
end FileWorkItem

def writePendingFileWrite (dataDir : Path) (collection targetServer : String)
    (item : FileWorkItem) : Prog (Except FsError Unit) := do
  match ← mkdirAll (.file .pendingDir) (pendingFileWritesDir dataDir collection) with
  | .error err => pure (.error err)
  | .ok () =>
    writeFileAtomic (fun step => .file (.pending step))
      (pendingFileWritePath dataDir collection targetServer item.id item.filename)
      (.json item.toJson)

def deletePendingFileWrite (dataDir : Path) (collection targetServer id filename : String) :
    Prog (Except FsError Bool) := do
  let path := pendingFileWritePath dataDir collection targetServer id filename
  match ← stat (.file .pendingStat) path with
  | .error err => pure (if err.isNotExist then .ok false else .error err)
  | .ok () =>
    match ← remove (.file .pendingRemove) path with
    | .error err => pure (.error err)
    | .ok () => pure (.ok true)

/-- `pushFileOne`: an upload is sent with the bytes that are stored when it is sent. -/
def pushFileOne (e : Engine) (target : String) (item : FileWorkItem) : Prog Bool :=
  match Fields.get? target e.cfg.baseURLs with
  | none => pure false
  | some url =>
    if url = "" then pure false
    else if item.command = .fileDelete then pushFileItem target item none
    else do
      match ← openBinary (.file .pushOpen) e.dataDir item.collection item.id item.filename with
      | .error _ => pure false
      | .ok data => pushFileItem target item (some data)

def deliverFileTo (e : Engine) (item : FileWorkItem) (target : String) : Prog Bool := do
  let _ ← writePendingFileWrite e.dataDir item.collection target item
  let acknowledged ← pushFileOne e target item
  if acknowledged then do
    let _ ← deletePendingFileWrite e.dataDir item.collection target item.id item.filename
    pure true
  else pure false

/-- The deliveries run in parallel on disjoint files, here in target order. -/
def deliverFileAll (e : Engine) (item : FileWorkItem) :
    List String → Prog (List String × List String)
  | [] => pure ([], [])
  | target :: targets => do
      let acknowledged ← deliverFileTo e item target
      let rest ← deliverFileAll e item targets
      pure (if acknowledged then (target :: rest.1, rest.2) else (rest.1, target :: rest.2))

def replicateFileWrite (e : Engine) (item : FileWorkItem) (targets : List String) :
    Prog PushOutcome := do
  let outcome ← deliverFileAll e item targets
  pure { required := targets, acknowledged := outcome.1, unacknowledged := outcome.2,
         timeoutMs := defaultTimeoutMs }

def buildFileNote (outcome : PushOutcome) : Note :=
  { code := "fileReplicationIncomplete",
    message := "One or more read/proxy members did not acknowledge the file write within the " ++
      "delivery timeout; the latest desired state remains pending for catch-up.",
    required := outcome.required,
    acknowledged := outcome.acknowledged,
    unacknowledged := outcome.unacknowledged,
    timeoutMs := outcome.timeoutMs }

/-- `envelope.Result`: the fields an attachment command can answer with. -/
structure FileResult where
  ok : Bool
  command : FileCommand
  collection : String
  id : Option String
  filename : Option String := none
  version : Option String := none
  byteSize : Option Int := none
  sha256 : Option String := none
  contentType : Option String := none
  operationId : Option String := none
  files : Option (List FileEntry) := none
  note : Option Note := none
  distributionComplete : Option Bool := none
  configVersion : Option Int := none
  errors : List ApiError := []

structure FileTarget where
  collection : String
  id : String
  filename : String
  deriving DecidableEq

def filenameField (filename : String) : Option String :=
  if filename = "" then none else some filename

def FileTarget.fail (target : FileTarget) (command : FileCommand) (err : ApiError) : FileResult :=
  { ok := false, command, collection := target.collection, id := some target.id,
    filename := some target.filename, errors := [err] }

def failList (collection id : String) (err : ApiError) : FileResult :=
  { ok := false, command := .fileList, collection, id := some id, errors := [err] }

def wrongMachineFile (base : Result) (command : FileCommand) (filename : String) : FileResult :=
  { ok := base.ok, command, collection := base.collection, id := base.id,
    filename := filenameField filename, configVersion := base.configVersion,
    errors := base.errors }

def invalidFileName : ApiError :=
  { code := .invalidFileName, message := "file name is invalid or unsafe for filesystem storage" }

def parentNotFound : ApiError :=
  { code := .documentNotFound, message := "parent document not found" }

def fileNotFound : ApiError := { code := .fileNotFound, message := "file not found" }

def fileVersionMismatch (expected actual : String) : ApiError :=
  { code := .fileVersionMismatch, message := "file version does not match", expected, actual }

def fileExists (actual : String) : ApiError :=
  { code := .fileExists,
    message := "file already exists; provide If-Match with the current file version to update",
    actual }

def exceedsLimit (max : Int) : ApiError :=
  { code := .fileTooLarge,
    message := "file exceeds maxFileBytes limit of " ++ max.repr }

def Engine.maxFileBytes (e : Engine) : Int :=
  if 0 < e.cfg.maxFileBytes then e.cfg.maxFileBytes else defaultMaxFileBytes

def routed (command : Command) (collection id : String) : Request :=
  { command, target := collection, parameter := id, detail := [], utf8 := true }

def ReadMemberState.isPendingFile (state : ReadMemberState) (collection id filename : String) :
    Bool :=
  decide (filename ≠ "" ∧ collection ++ "/" ++ id ++ "/" ++ filename ∈ state.pendingFiles)

def ReadMemberState.hasPendingFilesForDoc (state : ReadMemberState) (collection id : String) :
    Bool :=
  state.pendingFiles.any fun key =>
    (collection ++ "/" ++ id ++ "/").toList.isPrefixOf key.toList

def checkFileStaleness (e : Engine) (command : FileCommand) (collection id filename : String) :
    Option FileResult :=
  let stale (message : String) : FileResult :=
    { ok := false, command, collection, id := some id, filename := filenameField filename,
      errors := [{ code := .fileStale, message }] }
  match e.readState with
  | none => none
  | some state =>
    let sot := (e.cfg.assignmentForSlot (slot id)).shardSOTMember
    if sot ≠ "" ∧ sot ≠ e.serverName ∧ sot ∈ state.staleSOT then
      some (stale ("This read member has failed too many check-ins with the shard's " ++
        "SOT-member and refuses file reads for this shard slot until it catches up."))
    else if state.isPendingFile collection id filename ∨
        filename = "" ∧ state.hasPendingFilesForDoc collection id then
      some (stale "This file has a pending replicated write that has not been applied yet.")
    else none

def fileAdmission (e : Engine) (target : FileTarget) (early command : FileCommand)
    (routing : Command) : Except FileResult Unit :=
  if ¬ (validDocumentID target.id ∧ safeID target.id) then
    .error (target.fail early invalidDocumentId)
  else if safeFileName target.filename = false then .error (target.fail early invalidFileName)
  else match checkRouting e (routed routing target.collection target.id) with
    | some wrong => .error (wrongMachineFile wrong command target.filename)
    | none => .ok ()

/-- `PutFileOptions` with the upload and the name its temporary file gets. -/
structure Upload where
  target : FileTarget
  contentType : String
  ifMatch : String
  operationId : String
  body : Body
  stage : StageName

namespace Upload
def command (u : Upload) : FileCommand := if u.ifMatch = "" then .fileCreate else .fileUpdate

def storedType (u : Upload) : String :=
  if u.contentType = "" then "application/octet-stream" else u.contentType

def admits (u : Upload) (existing : Option FileEntry) : Except ApiError Unit :=
  match existing with
  | some entry =>
    if u.ifMatch = "" then .error (fileExists entry.version)
    else if entry.version ≠ u.ifMatch then
      .error (fileVersionMismatch u.ifMatch entry.version)
    else .ok ()
  | none => if u.ifMatch = "" then .ok () else .error fileNotFound

def entry (u : Upload) (staged : StagedBinary) (operationId version : String) : FileEntry :=
  { name := u.target.filename, contentType := u.storedType, byteSize := staged.byteSize,
    sha256 := staged.sha256, version, operationId }
end Upload

def fileItem (target : FileTarget) (command : FileCommand) (entry : FileEntry) : FileWorkItem :=
  { collection := target.collection, id := target.id, filename := target.filename,
    contentType := entry.contentType, byteSize := entry.byteSize, sha256 := entry.sha256,
    version := entry.version, operationId := entry.operationId, command }

def fileResponse (target : FileTarget) (command : FileCommand) (entry : FileEntry) : FileResult :=
  { ok := true, command, collection := target.collection, id := some target.id,
    filename := some target.filename, version := some entry.version,
    byteSize := some entry.byteSize, sha256 := some entry.sha256,
    contentType := some entry.contentType, operationId := some entry.operationId }

def deliverFileOnce (e : Engine) (item : FileWorkItem) (result : FileResult) : Prog FileResult :=
  if e.replicates then do
    let outcome ← replicateFileWrite e item (e.targets item.id)
    pure { result with
      note := if outcome.complete then none else some (buildFileNote outcome),
      distributionComplete := some outcome.complete }
  else pure { result with distributionComplete := some true }

def fileOperationId (operationId : String) : Prog (Except FsError String) :=
  if operationId = "" then newId .operationId else pure (.ok operationId)

/-- The end of the locked part of `PutFile`. -/
def putCommit (lib : FileLib) (e : Engine) (u : Upload) (staged : StagedBinary) :
    Prog (Except ApiError FileEntry) := do
  match ← fileOperationId u.operationId with
  | .error err => pure (.error (idGenerationFailed err))
  | .ok operationId =>
    match ← newId .version with
    | .error err => pure (.error (idGenerationFailed err))
    | .ok version =>
      let entry := u.entry staged operationId version
      match ← commitStagedBinary lib e.dataDir u.target.collection u.target.id entry staged with
      | .error err => pure (.error (filesystemError err))
      | .ok () => pure (.ok entry)

def putLocal (lib : FileLib) (e : Engine) (u : Upload) (staged : StagedBinary) :
    Prog (Except ApiError FileEntry) := do
  match ← stat (.file .parent) (e.live u.target.collection u.target.id) with
  | .error _ => pure (.error parentNotFound)
  | .ok () =>
    match ← readFilesManifest lib (.file .manifest) e.dataDir u.target.collection u.target.id with
    | .error err => pure (.error (filesystemError err))
    | .ok entries =>
      match u.admits (lookupFileEntry entries u.target.filename) with
      | .error err => pure (.error err)
      | .ok () => putCommit lib e u staged

def stageError (max : Int) (err : FsError) : ApiError :=
  if isFileTooLarge err then exceedsLimit max else filesystemError err

def putFile (lib : FileLib) (e : Engine) (u : Upload) : Prog FileResult :=
  match fileAdmission e u.target .fileCreate u.command .create with
  | .error res => pure res
  | .ok () => do
      match ← stageWriteBinary lib e.dataDir u.target.collection u.target.id u.target.filename
          u.stage u.body e.maxFileBytes with
      | .error err => pure (u.target.fail u.command (stageError e.maxFileBytes err))
      | .ok staged =>
        match ← locked (putLocal lib e u staged) with
        | .error err => do
            let _ ← remove (.file .discard) staged.stagedPath
            pure (u.target.fail u.command err)
        | .ok entry =>
          deliverFileOnce e (fileItem u.target u.command entry)
            (fileResponse u.target u.command entry)

def deleteFileGuard (ifMatch : String) (existing : Option FileEntry) : Except ApiError FileEntry :=
  match existing with
  | none => .error fileNotFound
  | some entry =>
    if ifMatch = "" ∨ ifMatch ≠ entry.version then
      .error (fileVersionMismatch ifMatch entry.version)
    else .ok entry

def deleteFileLocal (lib : FileLib) (e : Engine) (target : FileTarget)
    (ifMatch operationId : String) : Prog (Except ApiError FileEntry) := do
  match ← stat (.file .parent) (e.live target.collection target.id) with
  | .error _ => pure (.error parentNotFound)
  | .ok () =>
    match ← readFilesManifest lib (.file .manifest) e.dataDir target.collection target.id with
    | .error err => pure (.error (filesystemError err))
    | .ok entries =>
      match deleteFileGuard ifMatch (lookupFileEntry entries target.filename) with
      | .error err => pure (.error err)
      | .ok existing =>
        match ← fileOperationId operationId with
        | .error err => pure (.error (idGenerationFailed err))
        | .ok operationId =>
          let entry := { existing with operationId }
          match ← commitFileDelete lib e.dataDir target.collection target.id entry with
          | .error err => pure (.error (filesystemError err))
          | .ok () => pure (.ok entry)

def deleteFile (lib : FileLib) (e : Engine) (target : FileTarget) (ifMatch operationId : String) :
    Prog FileResult :=
  match fileAdmission e target .fileDelete .fileDelete .delete with
  | .error res => pure res
  | .ok () => do
      match ← locked (deleteFileLocal lib e target ifMatch operationId) with
      | .error err => pure (target.fail .fileDelete err)
      | .ok entry =>
        deliverFileOnce e (fileItem target .fileDelete entry)
          (fileResponse target .fileDelete entry)

def listFiles (lib : FileLib) (e : Engine) (collection id : String) : Prog FileResult :=
  if ¬ (validDocumentID id ∧ safeID id) then pure (failList collection id invalidDocumentId)
  else match checkRouting e (routed .read collection id) with
    | some wrong => pure (wrongMachineFile wrong .fileList "")
    | none =>
      match checkFileStaleness e .fileList collection id "" with
      | some stale => pure stale
      | none => do
          match ← stat (.file .parent) (e.live collection id) with
          | .error _ => pure (failList collection id parentNotFound)
          | .ok () =>
            match ← readFilesManifest lib (.file .manifest) e.dataDir collection id with
            | .error err => pure (failList collection id (filesystemError err))
            | .ok entries =>
              pure { ok := true, command := .fileList, collection, id := some id,
                     files := some entries }

def openError (err : FsError) : ApiError :=
  if err.isNotExist then fileNotFound else filesystemError err

def openFileForDownload (lib : FileLib) (e : Engine) (target : FileTarget) :
    Prog (Except FileResult (FileEntry × List UInt8)) :=
  match fileAdmission e target .fileRead .fileRead .read with
  | .error res => pure (.error res)
  | .ok () =>
    match checkFileStaleness e .fileRead target.collection target.id target.filename with
    | some stale => pure (.error stale)
    | none => do
        match ← stat (.file .parent) (e.live target.collection target.id) with
        | .error _ => pure (.error (target.fail .fileRead parentNotFound))
        | .ok () =>
          match ← readFilesManifest lib (.file .manifest) e.dataDir target.collection target.id with
          | .error err => pure (.error (target.fail .fileRead (filesystemError err)))
          | .ok entries =>
            match lookupFileEntry entries target.filename with
            | none => pure (.error (target.fail .fileRead fileNotFound))
            | some entry =>
              match ← openBinary (.file .openBlob) e.dataDir target.collection target.id
                  target.filename with
              | .error err => pure (.error (target.fail .fileRead (openError err)))
              | .ok data => pure (.ok (entry, data))

structure Download where
  contentType : String
  contentLength : Int
  sha256 : String
  version : String
  operationId : String
  body : List UInt8
  deriving DecidableEq

def download (entry : FileEntry) (data : List UInt8) : Download :=
  { contentType := entry.contentType, contentLength := entry.byteSize, sha256 := entry.sha256,
    version := entry.version, operationId := entry.operationId,
    body := data.take entry.byteSize.toNat }

/-- `handleFileReadCommand` without a range. -/
def readFileCommand (lib : FileLib) (e : Engine) (target : FileTarget) :
    Prog (Except FileResult Download) := do
  match ← openFileForDownload lib e target with
  | .error res => pure (.error res)
  | .ok opened => pure (.ok (download opened.1 opened.2))
end Datorium
