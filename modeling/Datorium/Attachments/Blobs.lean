
import Mathlib.Data.List.Infix
import Datorium.Attachments.Manifest
/-!
# Staged uploads and journalled commits

A commit moves a staged upload into place and notes its phases in a journal: the blob comes first,
the manifest follows, and the journal is cleared last.
-/
namespace Datorium
open Framework
def defaultMaxFileBytes : Int := 1073741824

/-- A name that `os.CreateTemp` makes from the pattern `.stage-*`. -/
structure StageName where
  random : String
  noSlash : '/' ∉ random.toList

def StageName.text (name : StageName) : String := ".stage-" ++ name.random

def stagePath (dataDir : Path) (collection id : String) (name : StageName) : Path :=
  (fileOpsDir dataDir collection id).join name.text

structure StagedBinary where
  stagedPath : Path
  byteSize : Int
  sha256 : String

def fileTooLarge : FsError := .other "fileTooLarge"

def isFileTooLarge (err : FsError) : Bool :=
  decide ("fileTooLarge".toList <:+: err.message.toList)

structure Body where
  data : List UInt8
  endsWithLast : Bool
  deriving DecidableEq

/-- The reader refuses to be read once it has given `max` bytes, also when the body ends there,
unless it has already said so. -/
def Body.exceeds (body : Body) (max : Int) : Bool :=
  decide (max < body.data.length ∨ max = body.data.length ∧ body.endsWithLast = false)

def fillStage (path : Path) (body : Body) (max : Int) : Prog (Except FsError Unit) := do
  match ← install (.file (.stage .write)) path (.bytes (body.data.take max.toNat)) with
  | .error err => pure (.error err)
  | .ok () =>
    if body.exceeds max then pure (.error fileTooLarge)
    else prepareFile (fun step => .file (.stage step)) path [.sync, .close, .chmod]

/-- `StageWriteBinary`; `name` is the name the temporary file gets, which no file has. -/
def stageWriteBinary (lib : FileLib) (dataDir : Path) (collection id filename : String)
    (name : StageName) (body : Body) (maxBytes : Int) :
    Prog (Except FsError StagedBinary) :=
  let max := if maxBytes ≤ 0 then defaultMaxFileBytes else maxBytes
  let path := stagePath dataDir collection id name
  if safeFileName filename = false then pure (.error (.other "invalid file name"))
  else do
    match ← mkdirAll (.file (.stage .mkdir)) (fileOpsDir dataDir collection id) with
    | .error err => pure (.error err)
    | .ok () =>
      match ← install (.file (.stage .createTemp)) path (.bytes []) with
      | .error err => pure (.error err)
      | .ok () =>
        match ← fillStage path body max with
        | .error err => do
            let _ ← remove (.file .unstage) path
            pure (.error err)
        | .ok () => pure (.ok ⟨path, body.data.length, lib.sha256 body.data⟩)

theorem run_stageWriteBinary_ok {ν : Type} {host : Host ν} {w : World ν} {lib : FileLib}
    {dataDir : Path} {coll id filename : String} {name : StageName} {body : Body}
    {maxBytes : Int} (hname : safeFileName filename = true) (hpositive : 0 < maxBytes)
    (hlimit : body.exceeds maxBytes = false) :
    (stageWriteBinary lib dataDir coll id filename name body maxBytes).run (exec host .none) w =
      (.ok ⟨stagePath dataDir coll id name, body.data.length, lib.sha256 body.data⟩,
        w.put (stagePath dataDir coll id name) (some (.bytes body.data))) := by
  have hmax : ¬ maxBytes ≤ 0 := not_le.mpr hpositive
  have hshort : (body.data.length : Int) ≤ maxBytes := by
    simp only [Body.exceeds, decide_eq_false_iff_not, not_or, not_lt] at hlimit
    exact hlimit.1
  have htake : body.data.take maxBytes.toNat = body.data := List.take_of_length_le (by omega)
  simp [stageWriteBinary, hname, hmax, fillStage, hlimit, htake, run_prepareFile, World.put_put]

inductive JournalCommand where
  | create
  | update
  | delete
  deriving DecidableEq, Repr

namespace JournalCommand
def text : JournalCommand → String
  | create => "create"
  | update => "update"
  | delete => "delete"
end JournalCommand
namespace JournalPhase
def text : JournalPhase → String
  | staged => "staged"
  | blobCommitted => "blobCommitted"
  | done => "done"
end JournalPhase

structure FileOpJournal where
  command : JournalCommand
  filename : String
  contentType : String
  byteSize : Int
  sha256 : String
  version : String
  operationId : String
  stagedPath : Option Path
  phase : JournalPhase
  deriving DecidableEq

namespace FileOpJournal
def omitZero (key : String) (n : Int) : JsonFields := if n = 0 then [] else [(key, .num n.repr)]

def stagedField : Option Path → JsonFields
  | none => []
  | some path => [("stagedPath", .arr (path.map .str))]

def fields (j : FileOpJournal) : JsonFields :=
  [("command", .str j.command.text), ("filename", .str j.filename)] ++
    WorkItem.omitEmpty "contentType" j.contentType ++ omitZero "byteSize" j.byteSize ++
    WorkItem.omitEmpty "sha256" j.sha256 ++
    [("version", .str j.version), ("operationId", .str j.operationId)] ++
    stagedField j.stagedPath ++ [("phase", .str j.phase.text)]

def toJson (j : FileOpJournal) : Json := .obj j.fields

theorem intOf_omitZero (key : String) (n : Int) :
    intOf (Fields.get? key (omitZero key n)) = some n := by
  by_cases h : n = 0 <;> simp [omitZero, h, intOf, integerOf_repr]

theorem get?_omitZero_other {key key' : String} (h : key ≠ key') (n : Int) :
    Fields.get? key' (omitZero key n) = none := by
  by_cases hn : n = 0 <;> simp [omitZero, hn, Fields.get?_cons, h]
end FileOpJournal

def fileOpJournalPath (dataDir : Path) (collection id operationId : String) : Path :=
  (fileOpsDir dataDir collection id).join (operationId ++ ".json")

def writeFileOpJournal (dataDir : Path) (collection id : String) (j : FileOpJournal) :
    Prog (Except FsError Unit) := do
  match ← mkdirAll (.file (.journalDir j.phase)) (fileOpsDir dataDir collection id) with
  | .error err => pure (.error err)
  | .ok () =>
    writeFileAtomic (fun step => .file (.journal j.phase step))
      (fileOpJournalPath dataDir collection id j.operationId) (.json j.toJson)

def clearFileOpJournal (place : FilePlace → Site) (dataDir : Path)
    (collection id operationId : String) : Prog (Except FsError Unit) :=
  removeIfPresent (place .clearJournal) (fileOpJournalPath dataDir collection id operationId)

def journalCommand (lib : FileLib) (dataDir : Path) (collection id filename : String) :
    Prog JournalCommand := do
  match ← readFilesManifest lib (.file .commitManifest) dataDir collection id with
  | .error _ => pure .create
  | .ok entries => pure (if (lookupFileEntry entries filename).isSome then .update else .create)

def uploadJournal (command : JournalCommand) (entry : FileEntry) (staged : StagedBinary) :
    FileOpJournal :=
  { command, filename := entry.name, contentType := entry.contentType, byteSize := entry.byteSize,
    sha256 := entry.sha256, version := entry.version, operationId := entry.operationId,
    stagedPath := some staged.stagedPath, phase := .staged }

/-- `CommitStagedBinary` once the blob is in place. -/
def finishUpload (lib : FileLib) (dataDir : Path) (collection id : String) (entry : FileEntry)
    (j : FileOpJournal) : Prog (Except FsError Unit) := do
  match ← writeFileOpJournal dataDir collection id
      { j with phase := .blobCommitted, stagedPath := none } with
  | .error err => pure (.error err)
  | .ok () =>
    match ← upsertManifestEntry lib .file dataDir collection id entry with
    | .error err => pure (.error err)
    | .ok () => do
        let _ ← writeFileOpJournal dataDir collection id
          { j with phase := .done, stagedPath := none }
        clearFileOpJournal .file dataDir collection id entry.operationId

def commitStagedBinary (lib : FileLib) (dataDir : Path) (collection id : String)
    (entry : FileEntry) (staged : StagedBinary) : Prog (Except FsError Unit) := do
  let command ← journalCommand lib dataDir collection id entry.name
  match ← writeFileOpJournal dataDir collection id (uploadJournal command entry staged) with
  | .error err => pure (.error err)
  | .ok () =>
    match ← mkdirAll (.file .blobDir) (lfsDir dataDir collection id) with
    | .error err => pure (.error err)
    | .ok () =>
      let final := binaryPath dataDir collection id entry.name
      match ← rename (.file .blobRename) staged.stagedPath final with
      | .error err =>
        pure (.error (.other ("atomic rename to /" ++ "/".intercalate final ++ ": " ++
          err.message)))
      | .ok () => finishUpload lib dataDir collection id entry (uploadJournal command entry staged)

def removalJournal (entry : FileEntry) : FileOpJournal :=
  { command := .delete, filename := entry.name, contentType := "", byteSize := 0, sha256 := "",
    version := entry.version, operationId := entry.operationId, stagedPath := none,
    phase := .staged }

def removeBinary (dataDir : Path) (collection id filename : String) : Prog (Except FsError Unit) :=
  removeIfPresent (.file .blobRemove) (binaryPath dataDir collection id filename)

/-- `CommitFileDelete` once the blob is gone. -/
def finishRemoval (lib : FileLib) (dataDir : Path) (collection id : String) (entry : FileEntry) :
    Prog (Except FsError Unit) := do
  match ← writeFileOpJournal dataDir collection id
      { removalJournal entry with phase := .blobCommitted } with
  | .error err => pure (.error err)
  | .ok () =>
    match ← removeManifestEntry lib .file dataDir collection id entry.name with
    | .error err => pure (.error err)
    | .ok () => clearFileOpJournal .file dataDir collection id entry.operationId

def commitFileDelete (lib : FileLib) (dataDir : Path) (collection id : String)
    (entry : FileEntry) : Prog (Except FsError Unit) := do
  match ← writeFileOpJournal dataDir collection id (removalJournal entry) with
  | .error err => pure (.error err)
  | .ok () =>
    match ← removeBinary dataDir collection id entry.name with
    | .error err => pure (.error err)
    | .ok () => finishRemoval lib dataDir collection id entry

def File.data : File → List UInt8
  | .bytes data => data
  | .json _ => []

def openBinary (site : Site) (dataDir : Path) (collection id filename : String) :
    Prog (Except FsError (List UInt8)) :=
  if safeFileName filename = false then pure (.error (.other "invalid file name"))
  else do
    match ← readFile site (binaryPath dataDir collection id filename) with
    | .error err => pure (.error err)
    | .ok file => pure (.ok file.data)
end Datorium
