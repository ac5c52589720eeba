
import Datorium.Engine.Config
/-!
# The change agent

An entry of the change queue is claimed by renaming `.queue` to `.taken`, its document is
distributed, and only then the previous version and the claim are removed.
-/
namespace Datorium
open Framework
/-- Letters that `encoding/json` takes for one in field names. -/
def foldChar (c : Char) : Char :=
  if 'A' ≤ c ∧ c ≤ 'Z' then Char.ofNat (c.toNat + 32)
  else if c = 'ſ' then 's' else if c = 'K' then 'k' else c

def namesField (key field : String) : Bool := key.toList.map foldChar = field.toList.map foldChar

def decodeStringItems : List Json → Option (List String)
  | [] => some []
  | .str s :: items => (decodeStringItems items).map (s :: ·)
  | .null :: items => (decodeStringItems items).map ("" :: ·)
  | _ :: _ => none

def decodeStrings : Json → Option (List String)
  | .null => some []
  | .arr items => decodeStringItems items
  | _ => none

/-- A JSON value as a `customCollections`; the last such key counts. -/
def customCollections : Json → Option (List String)
  | .null => some []
  | .obj fields => fields.foldlM (fun collections field =>
    if namesField field.1 "collections" then decodeStrings field.2 else some collections) []
  | _ => none

def declaresReference (target : String) (fields : JsonFields) : Bool :=
  match Fields.get? "format" fields, Fields.get? "custom" fields with
  | some (.str "DatoriumCachedRef"), some custom =>
    (customCollections custom).any fun collections => collections.contains target
  | _, _ => false

mutual

def nodeReferencesCollection (target : String) : Json → Bool
  | .obj fields => declaresReference target fields || childrenReference target fields
  | _ => false

def childrenReference (target : String) : List (String × Json) → Bool
  | [] => false
  | field :: fields => fieldReferences target field || childrenReference target fields

def fieldReferences (target : String) : String × Json → Bool
  | (key, .arr values) => key = "children" && anyReferences target values
  | (key, value) => key = "items" && nodeReferencesCollection target value

def anyReferences (target : String) : List Json → Bool
  | [] => false
  | value :: values => nodeReferencesCollection target value || anyReferences target values
end

def anySchemaReferencesCollection (cfg : Config) (collection : String) : Bool :=
  cfg.schemas.any fun entry => nodeReferencesCollection collection entry.2

/-- The work item of `distributeCache`; none for a create or patch entry whose document is gone. -/
def cacheItem (collection id : String) (change : Command) (operationId : String)
    (current prev : Option JsonFields) : Option CacheItem :=
  let before := Json.asString (prev.bind (Fields.get? "#"))
  match change with
  | .delete =>
    some { sourceCollection := collection, sourceDocumentID := id, beforeVersion := before,
           afterVersion := "", operationId, command := change,
           payload := [("!", .str id), ("#", .null)] }
  | _ =>
    match current with
    | none => none
    | some doc =>
      some { sourceCollection := collection, sourceDocumentID := id, beforeVersion := before,
             afterVersion := Json.asString (Fields.get? "#" doc), operationId,
             command := change, payload := doc }

def distributeCache (e : Engine) (collection id : String) (change : Command)
    (current prev : Option JsonFields) : Prog (Except FsError Bool) :=
  if anySchemaReferencesCollection e.cfg collection = false ∨ e.cfg.allReadMembers = [] then
    pure (.ok true)
  else do
    match ← newId .cacheOperationId with
    | .error err => pure (.error err)
    | .ok operationId =>
      match cacheItem collection id change operationId current prev with
      | none => pure (.ok true)
      | some item => fanOut e.cfg.allReadMembers item

def readOptionalDoc (site : Site) (path : Path) : Prog (Except FsError (Option JsonFields)) := do
  match ← readDocumentJSON site path with
  | .error err => pure (if err.isNotExist then .ok none else .error err)
  | .ok doc => pure (.ok (some doc))

def World.readOptional {ν : Type} (w : World ν) (fails : Bool) (path : Path) :
    Except FsError (Option JsonFields) :=
  match w.readFields fails path with
  | .error err => if err.isNotExist then .ok none else .error err
  | .ok doc => .ok (some doc)

@[simp] theorem ensures_readOptionalDoc {ν : Type} {host : Host ν} {faults : Faults} {w : World ν}
    {crash : Op → World ν → Prop} {post : Except FsError (Option JsonFields) → World ν → Prop}
    (site : Site) (path : Path) :
    (readOptionalDoc site path).Ensures (exec host faults) crash post w ↔
      crash ⟨site, .readFile path⟩ w ∧ post (w.readOptional (faults site) path) w := by
  cases hr : w.readFields (faults site) path <;>
    simp [readOptionalDoc, World.readOptional, hr]

theorem run_readOptionalDoc {ν : Type} {host : Host ν} {faults : Faults} {w : World ν} (site : Site)
    (path : Path) : (readOptionalDoc site path).run (exec host faults) w =
      (w.readOptional (faults site) path, w) := by
  cases hr : w.readFields (faults site) path <;> simp [readOptionalDoc, World.readOptional, hr]

abbrev Distribution :=
  String → String → Option JsonFields → Option JsonFields → Prog (Except FsError Unit)

/-- `process`, with the code of `distributeSearch`. -/
def processWith (distribute : Distribution) (e : Engine) (change : Command)
    (collection id : String) : Prog (Except FsError Bool) := do
  match ← readOptionalDoc .readCurrent (e.live collection id) with
  | .error err => pure (.error (.other ("read current document: " ++ err.message)))
  | .ok current =>
    match ← readOptionalDoc .readPrevious (e.previous collection id) with
    | .error err => pure (.error (.other ("read previous document: " ++ err.message)))
    | .ok prev =>
      match ← distributeCache e collection id change current prev with
      | .error err => pure (.error (.other ("cache distribution: " ++ err.message)))
      | .ok complete =>
        match ← distribute collection id prev current with
        | .error err => pure (.error (.other ("search distribution: " ++ err.message)))
        | .ok () => pure (.ok complete)

def process (e : Engine) (change : Command) (collection id : String) : Prog (Except FsError Bool) :=
  processWith index e change collection id

inductive EntryState where
  | queue
  | taken
  deriving DecidableEq, Repr

def removeIfPresent (site : Site) (path : Path) : Prog (Except FsError Unit) := do
  match ← remove site path with
  | .error err => pure (if err.isNotExist then .ok () else .error err)
  | .ok () => pure (.ok ())

theorem ensures_removeIfPresent {ν : Type} {host : Host ν} {w : World ν}
    {crash : Op → World ν → Prop} {post : Except FsError Unit → World ν → Prop} {site : Site}
    {path : Path} (hcrash : crash ⟨site, .remove path⟩ w) (hpost : post (.ok ()) (w.put path none)) :
    (removeIfPresent site path).Ensures (exec host .none) crash post w := by
  cases hp : w.files path with
  | none =>
    rw [World.put_none_of_absent hp] at hpost
    simpa [removeIfPresent, hp, FsError.isNotExist, hcrash] using hpost
  | some file => simpa [removeIfPresent, hp, hcrash] using hpost

theorem run_removeIfPresent {ν : Type} {host : Host ν} {faults : Faults} {w : World ν} (site : Site)
    (path : Path) :
    (removeIfPresent site path).run (exec host faults) w = (.error .io, w) ∨
      (removeIfPresent site path).run (exec host faults) w = (.ok (), w.put path none) := by
  cases hf : faults site with
  | true => exact .inl (by simp [removeIfPresent, hf, FsError.isNotExist])
  | false =>
    refine .inr ?_
    cases hp : w.files path with
    | none =>
      rw [World.put_none_of_absent hp]
      simp [removeIfPresent, hf, hp, FsError.isNotExist]
    | some file => simp [removeIfPresent, hf, hp]

/-- The part of `runEntryResult` after the claim, with the code of `distributeSearch`. -/
def runClaimedWith (distribute : Distribution) (e : Engine) (change : Command)
    (collection id : String) : Prog (Except FsError Bool) := do
  match ← processWith distribute e change collection id with
  | .error err => pure (.error err)
  | .ok complete =>
    match ← removeIfPresent .dropPrevious (e.previous collection id) with
    | .error err => pure (.error (.other ("remove previous dotfile: " ++ err.message)))
    | .ok () =>
      match ← removeIfPresent .dropTaken (takenQueuePath e.dataDir change collection id) with
      | .error err => pure (.error (.other ("remove taken marker: " ++ err.message)))
      | .ok () => pure (.ok complete)

def runClaimed (e : Engine) (change : Command) (collection id : String) :
    Prog (Except FsError Bool) :=
  runClaimedWith index e change collection id

/-- `runEntryResult`, with the code of `distributeSearch`; a claim lost to another worker is no
error. -/
def runEntryResultWith (distribute : Distribution) (e : Engine) (change : Command)
    (collection id : String) : EntryState → Prog (Except FsError Bool)
  | .taken => runClaimedWith distribute e change collection id
  | .queue => do
      match ← rename .claim (queuePath e.dataDir change collection id)
          (takenQueuePath e.dataDir change collection id) with
      | .error err =>
        pure (if err.isNotExist then .ok false
          else .error (.other ("claim " ++ queueBaseName change collection id ++ ".queue: " ++
            err.message)))
      | .ok () => runClaimedWith distribute e change collection id

def runEntryResult (e : Engine) (change : Command) (collection id : String) (state : EntryState) :
    Prog (Except FsError Bool) :=
  runEntryResultWith index e change collection id state

def entryComplete (e : Engine) (change : Command) (collection id : String) (state : EntryState) :
    Prog Bool := do
  match ← runEntryResult e change collection id state with
  | .error _ => pure false
  | .ok complete => pure complete

def processNow (e : Engine) (change : Command) (collection id : String) : Prog Bool := do
  match ← stat .statTaken (takenQueuePath e.dataDir change collection id) with
  | .ok () => entryComplete e change collection id .taken
  | .error _ =>
    match ← stat .statQueue (queuePath e.dataDir change collection id) with
    | .error _ => pure false
    | .ok () => entryComplete e change collection id .queue
end Datorium
