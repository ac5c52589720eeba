
import Datorium.Document.Canonical
import Datorium.Framework.Ensures
import Datorium.Storage.Path
/-!
# The world a server runs in

The server sees its data directory one filesystem call at a time, draws fresh ids, holds one mutex
and talks to other servers.
-/
namespace Datorium
open Framework
inductive Command where
  | create
  | read
  | patch
  | delete
  deriving DecidableEq, Repr

namespace Command
def text : Command → String
  | create => "create"
  | read => "read"
  | patch => "patch"
  | delete => "delete"

def ofText : String → Option Command
  | "create" => some create
  | "read" => some read
  | "patch" => some patch
  | "delete" => some delete
  | _ => none

@[simp] theorem ofText_text (c : Command) : ofText c.text = some c := by cases c <;> rfl
end Command

/-- `DocumentWorkItem`: one replicated document write. -/
structure WorkItem where
  collection : String
  id : String
  beforeVersion : String
  afterVersion : String
  operationId : String
  command : Command
  patch : List JsonFields
  payload : Option Json

/-- `cache.WorkItem`: one cache update for the read members. -/
structure CacheItem where
  sourceCollection : String
  sourceDocumentID : String
  beforeVersion : String
  afterVersion : String
  operationId : String
  command : Command
  payload : JsonFields

inductive FileCommand where
  | fileCreate
  | fileUpdate
  | fileDelete
  | fileList
  | fileRead
  deriving DecidableEq, Repr

namespace FileCommand
def text : FileCommand → String
  | fileCreate => "fileCreate"
  | fileUpdate => "fileUpdate"
  | fileDelete => "fileDelete"
  | fileList => "fileList"
  | fileRead => "fileRead"

def ofText : String → Option FileCommand
  | "fileCreate" => some fileCreate
  | "fileUpdate" => some fileUpdate
  | "fileDelete" => some fileDelete
  | "fileList" => some fileList
  | "fileRead" => some fileRead
  | _ => none

@[simp] theorem ofText_text (c : FileCommand) : ofText c.text = some c := by cases c <;> rfl
end FileCommand

structure FileWorkItem where
  collection : String
  id : String
  filename : String
  contentType : String
  byteSize : Int
  sha256 : String
  version : String
  operationId : String
  command : FileCommand
  deriving DecidableEq

inductive File where
  | json (value : Json)
  | bytes (data : List UInt8)

def File.marker : File := .bytes []

inductive FsError where
  | notExist
  | io
  | other (message : String)
  deriving DecidableEq, Repr

namespace FsError
def isNotExist : FsError → Bool
  | notExist => true
  | _ => false

def message : FsError → String
  | notExist => "no such file or directory"
  | io => "input/output error"
  | other message => message
end FsError

/-- The steps of `WriteFileAtomic`. -/
inductive WriteStep where
  | mkdir
  | createTemp
  | write
  | sync
  | close
  | chmod
  | rename
  deriving DecidableEq, Repr

inductive JournalPhase where
  | staged
  | blobCommitted
  | done
  deriving DecidableEq, Repr

/-- The places of the attachment code; `recovery` is one of `RecoverFileOps`, at the entry of the
given name. -/
inductive FilePlace where
  | stage (step : WriteStep)
  | unstage
  | discard
  | parent
  | manifest
  | commitManifest
  | journalDir (phase : JournalPhase)
  | journal (phase : JournalPhase) (step : WriteStep)
  | blobDir
  | blobRename
  | blobRemove
  | manifestRead
  | manifestWrite (step : WriteStep)
  | manifestRemove
  | clearJournal
  | openBlob
  | pendingDir
  | pending (step : WriteStep)
  | pushOpen
  | push
  | pendingStat
  | pendingRemove
  | readJournal
  | recovery (name : String) (inner : FilePlace)
  deriving DecidableEq, Repr

/-- The places of `ApplyMutation`. -/
inductive BucketPlace where
  | load
  | version
  | write (step : WriteStep)
  | verify
  deriving DecidableEq, Repr

inductive Site where
  | operationId
  | version
  | lock
  | unlock
  | readLive
  | statLive
  | ensureDir
  | preserveStatPrevious
  | preserveStatLive
  | preserveRename
  | write (step : WriteStep)
  | verify (attempt : Nat)
  | softDeleteStat
  | softDeleteMove
  | cascadeManifest
  | cascadeLFS
  | cascadeFileOps
  | queueDir
  | queue (step : WriteStep)
  | push
  | pending (step : WriteStep)
  | pendingRead
  | pendingStat
  | pendingRemove
  | statTaken
  | statQueue
  | claim
  | readCurrent
  | readPrevious
  | cacheOperationId
  | cacheFanOut
  | searchIndex
  | dropPrevious
  | dropTaken
  | cacheLoad
  | cacheDir
  | cacheStub (step : WriteStep)
  | reread
  | scan
  | migration (inner : Site)
  | file (place : FilePlace)
  | bucket (path : Path) (attempt : Nat) (place : BucketPlace)
  deriving DecidableEq, Repr

/-- The calls of the server on its world. `prepare` is about a temporary file that nothing else
reads, and `install` is the rename. -/
inductive Call where
  | stat (path : Path)
  | readFile (path : Path)
  | rename (source target : Path)
  | remove (path : Path)
  | removeAll (path : Path)
  | mkdirAll (path : Path)
  | prepare (step : WriteStep) (path : Path)
  | install (path : Path) (file : File)
  | newId
  | lock
  | unlock
  | push (targetServer : String) (item : WorkItem)
  | pushFile (targetServer : String) (item : FileWorkItem) (body : Option (List UInt8))
  | fanOut (targets : List String) (item : CacheItem)
  | index (collection id : String) (previous current : Option JsonFields)

def Call.Answer : Call → Type
  | stat _ => Except FsError Unit
  | readFile _ => Except FsError File
  | rename _ _ => Except FsError Unit
  | remove _ => Except FsError Unit
  | removeAll _ => Except FsError Unit
  | mkdirAll _ => Except FsError Unit
  | prepare _ _ => Except FsError Unit
  | install _ _ => Except FsError Unit
  | newId => Except FsError String
  | lock => Unit
  | unlock => Unit
  | push _ _ => Bool
  | pushFile _ _ _ => Bool
  | fanOut _ _ => Except FsError Bool
  | index _ _ _ _ => Except FsError Unit

structure Op where
  site : Site
  call : Call

abbrev Op.Answer (op : Op) : Type := op.call.Answer

abbrev Prog := Program Op Op.Answer

def perform (site : Site) (call : Call) : Prog call.Answer := Program.call ⟨site, call⟩ .done

/-- The files of the data directory, the number of ids drawn so far and the state `ν` of everything
outside. -/
structure World (ν : Type) where
  files : Path → Option File
  issued : Nat
  outside : ν

structure Host (ν : Type) where
  ids : Nat → String
  push : String → WorkItem → ν → Bool × ν
  fanOut : List String → CacheItem → ν → Except FsError Bool × ν
  index : String → String → Option JsonFields → Option JsonFields → ν → Except FsError Unit × ν
  /-- The answer of a member to a file write; a member that is not there does not answer. -/
  pushFile : String → FileWorkItem → Option (List UInt8) → ν → Bool × ν := fun _ _ _ s => (false, s)

abbrev Faults := Site → Bool

def Faults.none : Faults := fun _ => false

@[simp] theorem Faults.none_apply (site : Site) : Faults.none site = false := rfl

namespace World
variable {ν : Type}
def put (w : World ν) (path : Path) (file : Option File) : World ν :=
  { w with files := fun p => if p = path then file else w.files p }

def move (w : World ν) (source target : Path) : World ν :=
  (w.put source none).put target (w.files source)

def prune (w : World ν) (path : Path) : World ν :=
  { w with files := fun p => if path <+: p then none else w.files p }

@[simp] theorem put_files_same (w : World ν) (path : Path) (file : Option File) :
    (w.put path file).files path = file := by simp [put]

variable {p source target : Path}
theorem put_files_other (w : World ν) {path : Path} (h : p ≠ path) (file : Option File) :
    (w.put path file).files p = w.files p := by simp [put, h]

theorem put_files (w : World ν) (path p : Path) (file : Option File) :
    (w.put path file).files p = if p = path then file else w.files p := rfl

@[simp] theorem put_issued (w : World ν) (path : Path) (file : Option File) :
    (w.put path file).issued = w.issued := rfl

@[simp] theorem put_outside (w : World ν) (path : Path) (file : Option File) :
    (w.put path file).outside = w.outside := rfl

theorem put_none_of_absent {w : World ν} {path : Path} (h : w.files path = none) :
    w.put path none = w := by
  have hfiles : (w.put path none).files = w.files := by
    funext p
    by_cases hp : p = path
    · rw [hp, put_files_same, h]
    · exact put_files_other w hp none
  cases w
  simpa [put] using hfiles

@[simp] theorem move_issued (w : World ν) (source target : Path) :
    (w.move source target).issued = w.issued := rfl

@[simp] theorem move_outside (w : World ν) (source target : Path) :
    (w.move source target).outside = w.outside := rfl

@[simp] theorem move_files_target (w : World ν) (source target : Path) :
    (w.move source target).files target = w.files source := by simp [move]

theorem move_files_source (w : World ν) (h : source ≠ target) :
    (w.move source target).files source = none := by simp [move, put_files, h]

theorem move_files_other (w : World ν) (hs : p ≠ source) (ht : p ≠ target) :
    (w.move source target).files p = w.files p := by
  simp [move, put_files, hs, ht]

theorem prune_files (w : World ν) (path p : Path) :
    (w.prune path).files p = if path <+: p then none else w.files p := rfl

@[simp] theorem prune_issued (w : World ν) (path : Path) : (w.prune path).issued = w.issued := rfl

@[simp] theorem prune_outside (w : World ν) (path : Path) :
    (w.prune path).outside = w.outside := rfl

theorem put_put (w : World ν) (path : Path) (a b : Option File) :
    (w.put path a).put path b = w.put path b := by
  unfold put
  congr 1
  funext p
  by_cases h : p = path <;> simp [h]

theorem put_comm (w : World ν) {q : Path} (h : p ≠ q) (a b : Option File) :
    (w.put p a).put q b = (w.put q b).put p a := by
  unfold put
  congr 1
  funext r
  by_cases hp : r = p
  · subst hp
    simp [h]
  · simp [hp]

theorem put_move (w : World ν) (hs : p ≠ source) (ht : p ≠ target) (a : Option File) :
    (w.put p a).move source target = (w.move source target).put p a := by
  rw [move, move, put_files_other _ (Ne.symm hs), put_comm _ hs, put_comm _ ht]
end World

def Call.apply {ν : Type} (host : Host ν) : (call : Call) → World ν → call.Answer × World ν
  | .stat path, w =>
    match w.files path with
    | none => (.error .notExist, w)
    | some _ => (.ok (), w)
  | .readFile path, w =>
    match w.files path with
    | none => (.error .notExist, w)
    | some file => (.ok file, w)
  | .rename source target, w =>
    match w.files source with
    | none => (.error .notExist, w)
    | some _ => (.ok (), w.move source target)
  | .remove path, w =>
    match w.files path with
    | none => (.error .notExist, w)
    | some _ => (.ok (), w.put path none)
  | .removeAll path, w => (.ok (), w.prune path)
  | .mkdirAll _, w => (.ok (), w)
  | .prepare _ _, w => (.ok (), w)
  | .install path file, w => (.ok (), w.put path (some file))
  | .newId, w => (.ok (host.ids w.issued), { w with issued := w.issued + 1 })
  | .lock, w => ((), w)
  | .unlock, w => ((), w)
  | .push target item, w =>
    let (answer, outside) := host.push target item w.outside
    (answer, { w with outside })
  | .pushFile target item body, w =>
    let (answer, outside) := host.pushFile target item body w.outside
    (answer, { w with outside })
  | .fanOut targets item, w =>
    let (answer, outside) := host.fanOut targets item w.outside
    (answer, { w with outside })
  | .index collection id previous current, w =>
    let (answer, outside) := host.index collection id previous current w.outside
    (answer, { w with outside })

def Call.failed : (call : Call) → call.Answer
  | .stat _ => .error .io
  | .readFile _ => .error .io
  | .rename _ _ => .error .io
  | .remove _ => .error .io
  | .removeAll _ => .error .io
  | .mkdirAll _ => .error .io
  | .prepare _ _ => .error .io
  | .install _ _ => .error .io
  | .newId => .error .io
  | .lock => ()
  | .unlock => ()
  | .push _ _ => false
  | .pushFile _ _ _ => false
  | .fanOut _ _ => .error .io
  | .index _ _ _ _ => .error .io

def exec {ν : Type} (host : Host ν) (faults : Faults) : Handler Op Op.Answer (World ν) :=
  fun op w => if faults op.site then (op.call.failed, w) else op.call.apply host w

def stat (site : Site) (path : Path) : Prog (Except FsError Unit) := perform site (.stat path)

def readFile (site : Site) (path : Path) : Prog (Except FsError File) :=
  perform site (.readFile path)

def rename (site : Site) (source target : Path) : Prog (Except FsError Unit) :=
  perform site (.rename source target)

def remove (site : Site) (path : Path) : Prog (Except FsError Unit) := perform site (.remove path)

def removeAll (site : Site) (path : Path) : Prog (Except FsError Unit) :=
  perform site (.removeAll path)

def mkdirAll (site : Site) (path : Path) : Prog (Except FsError Unit) :=
  perform site (.mkdirAll path)

def prepare (site : Site) (step : WriteStep) (path : Path) : Prog (Except FsError Unit) :=
  perform site (.prepare step path)

def install (site : Site) (path : Path) (file : File) : Prog (Except FsError Unit) :=
  perform site (.install path file)

def newId (site : Site) : Prog (Except FsError String) := perform site .newId

def lock : Prog Unit := perform .lock .lock

def unlock : Prog Unit := perform .unlock .unlock

/-- The HTTP request of `pushOne`: whether the answer was `ok` and `applied`. -/
def pushItem (target : String) (item : WorkItem) : Prog Bool := perform .push (.push target item)

/-- The HTTP request of `pushFileOne`: whether the answer had a success status. -/
def pushFileItem (target : String) (item : FileWorkItem) (body : Option (List UInt8)) : Prog Bool :=
  perform (.file .push) (.pushFile target item body)

/-- The target loop of `distributeCache`: whether every target applied the item. -/
def fanOut (targets : List String) (item : CacheItem) : Prog (Except FsError Bool) :=
  perform .cacheFanOut (.fanOut targets item)

/-- The definition loop of `distributeSearch`. -/
def index (collection id : String) (previous current : Option JsonFields) :
    Prog (Except FsError Unit) :=
  perform .searchIndex (.index collection id previous current)

section
variable {ν : Type} {host : Host ν} {faults : Faults} {site : Site} {w : World ν}
@[simp] theorem run_stat (path : Path) : (stat site path).run (exec host faults) w =
      (if faults site then .error .io
        else match w.files path with
          | none => .error .notExist
          | some _ => .ok (), w) := by
  change exec host faults ⟨site, .stat path⟩ w = _
  cases hf : faults site <;> cases hp : w.files path <;>
    simp only [exec, hf, Call.failed, Call.apply, hp] <;> rfl

@[simp] theorem run_readFile (path : Path) : (readFile site path).run (exec host faults) w =
      (if faults site then .error .io
        else match w.files path with
          | none => .error .notExist
          | some file => .ok file, w) := by
  change exec host faults ⟨site, .readFile path⟩ w = _
  cases hf : faults site <;> cases hp : w.files path <;>
    simp only [exec, hf, Call.failed, Call.apply, hp] <;> rfl

@[simp] theorem run_rename (source target : Path) :
    (rename site source target).run (exec host faults) w = if faults site then (.error .io, w)
        else match w.files source with
          | none => (.error .notExist, w)
          | some _ => (.ok (), w.move source target) := rfl

@[simp] theorem run_remove (path : Path) : (remove site path).run (exec host faults) w =
      if faults site then (.error .io, w)
        else match w.files path with
          | none => (.error .notExist, w)
          | some _ => (.ok (), w.put path none) := rfl

@[simp] theorem run_removeAll (path : Path) : (removeAll site path).run (exec host faults) w =
      if faults site then (.error .io, w) else (.ok (), w.prune path) := rfl

@[simp] theorem run_mkdirAll (path : Path) : (mkdirAll site path).run (exec host faults) w =
      (if faults site then .error .io else .ok (), w) := by
  change exec host faults ⟨site, .mkdirAll path⟩ w = _
  cases hf : faults site <;> simp only [exec, hf, Call.failed, Call.apply] <;> rfl

@[simp] theorem run_prepare (step : WriteStep) (path : Path) :
    (prepare site step path).run (exec host faults) w =
      (if faults site then .error .io else .ok (), w) := by
  change exec host faults ⟨site, .prepare step path⟩ w = _
  cases hf : faults site <;> simp only [exec, hf, Call.failed, Call.apply] <;> rfl

@[simp] theorem run_install (path : Path) (file : File) :
    (install site path file).run (exec host faults) w =
      if faults site then (.error .io, w) else (.ok (), w.put path (some file)) := rfl

@[simp] theorem run_newId : (newId site).run (exec host faults) w =
      if faults site then (.error .io, w)
        else (.ok (host.ids w.issued), { w with issued := w.issued + 1 }) := rfl

@[simp] theorem run_lock : lock.run (exec host faults) w = ((), w) := by
  change exec host faults ⟨.lock, .lock⟩ w = _
  cases hf : faults .lock <;> simp only [exec, hf, Call.failed, Call.apply] <;> rfl

@[simp] theorem run_unlock : unlock.run (exec host faults) w = ((), w) := by
  change exec host faults ⟨.unlock, .unlock⟩ w = _
  cases hf : faults .unlock <;> simp only [exec, hf, Call.failed, Call.apply] <;> rfl
end
section
variable {ν : Type} {host : Host ν} {site : Site} {w : World ν} {path : Path}
theorem exec_readFile_ok {file : File}
    (h : (exec host .none ⟨site, .readFile path⟩ w).1 = (Except.ok file : Except FsError File)) :
    w.files path = some file := by
  cases hp : w.files path with
  | none => simp [exec, Call.apply, hp] at h
  | some file' =>
    simp only [exec, Call.apply, hp] at h
    cases h
    rfl

variable {err : FsError}
theorem exec_stat_error
    (h : (exec host .none ⟨site, .stat path⟩ w).1 = (Except.error err : Except FsError Unit)) :
    w.files path = none := by
  cases hp : w.files path with
  | none => rfl
  | some file => simp [exec, Call.apply, hp] at h

theorem exec_remove_ok
    (h : (exec host .none ⟨site, .remove path⟩ w).1 = (Except.ok () : Except FsError Unit)) :
    w.files path ≠ none ∧ (exec host .none ⟨site, .remove path⟩ w).2 = w.put path none := by
  cases hp : w.files path with
  | none => simp [exec, Call.apply, hp] at h
  | some file => simp [exec, Call.apply, hp]

theorem exec_remove_error
    (h : (exec host .none ⟨site, .remove path⟩ w).1 = (Except.error err : Except FsError Unit)) :
    w.files path = none ∧ (exec host .none ⟨site, .remove path⟩ w).2 = w := by
  cases hp : w.files path with
  | none => simp [exec, Call.apply, hp]
  | some file => simp [exec, Call.apply, hp] at h

theorem exec_rename_ok {target : Path} (h : (exec host .none ⟨site, .rename path target⟩ w).1 =
      (Except.ok () : Except FsError Unit)) :
    w.files path ≠ none ∧
      (exec host .none ⟨site, .rename path target⟩ w).2 = w.move path target := by
  cases hp : w.files path with
  | none => simp [exec, Call.apply, hp] at h
  | some file => simp [exec, Call.apply, hp]

theorem exec_rename_error {target : Path} (h : (exec host .none ⟨site, .rename path target⟩ w).1 =
      (Except.error err : Except FsError Unit)) :
    w.files path = none ∧ (exec host .none ⟨site, .rename path target⟩ w).2 = w := by
  cases hp : w.files path with
  | none => simp [exec, Call.apply, hp]
  | some file => simp [exec, Call.apply, hp] at h
end
section
variable {ν : Type} {host : Host ν} {faults : Faults} {site : Site} {w : World ν}
  {crash : Op → World ν → Prop}
theorem ensures_perform {call : Call} {post : call.Answer → World ν → Prop} :
    (perform site call).Ensures (exec host faults) crash post w ↔
      crash ⟨site, call⟩ w ∧ post ((perform site call).run (exec host faults) w).1
        ((perform site call).run (exec host faults) w).2 :=
  (Program.ensures_call _ _ _).trans (and_congr_right fun _ => Program.ensures_done _ _)

variable {post : Except FsError Unit → World ν → Prop}
@[simp] theorem ensures_stat (path : Path) :
    (stat site path).Ensures (exec host faults) crash post w ↔
      crash ⟨site, .stat path⟩ w ∧ post ((stat site path).run (exec host faults) w).1
        ((stat site path).run (exec host faults) w).2 := ensures_perform

@[simp] theorem ensures_readFile (path : Path) {post : Except FsError File → World ν → Prop} :
    (readFile site path).Ensures (exec host faults) crash post w ↔
      crash ⟨site, .readFile path⟩ w ∧ post ((readFile site path).run (exec host faults) w).1
        ((readFile site path).run (exec host faults) w).2 := ensures_perform

@[simp] theorem ensures_rename (source target : Path) :
    (rename site source target).Ensures (exec host faults) crash post w ↔
      crash ⟨site, .rename source target⟩ w ∧ post ((rename site source target).run (exec host faults) w).1
        ((rename site source target).run (exec host faults) w).2 := ensures_perform

@[simp] theorem ensures_remove (path : Path) :
    (remove site path).Ensures (exec host faults) crash post w ↔
      crash ⟨site, .remove path⟩ w ∧ post ((remove site path).run (exec host faults) w).1
        ((remove site path).run (exec host faults) w).2 := ensures_perform

@[simp] theorem ensures_mkdirAll (path : Path) :
    (mkdirAll site path).Ensures (exec host faults) crash post w ↔
      crash ⟨site, .mkdirAll path⟩ w ∧ post ((mkdirAll site path).run (exec host faults) w).1
        ((mkdirAll site path).run (exec host faults) w).2 := ensures_perform

@[simp] theorem ensures_prepare (step : WriteStep) (path : Path) :
    (prepare site step path).Ensures (exec host faults) crash post w ↔
      crash ⟨site, .prepare step path⟩ w ∧ post ((prepare site step path).run (exec host faults) w).1
        ((prepare site step path).run (exec host faults) w).2 := ensures_perform

@[simp] theorem ensures_install (path : Path) (file : File) :
    (install site path file).Ensures (exec host faults) crash post w ↔
      crash ⟨site, .install path file⟩ w ∧ post ((install site path file).run (exec host faults) w).1
        ((install site path file).run (exec host faults) w).2 := ensures_perform

@[simp] theorem ensures_newId {post : Except FsError String → World ν → Prop} :
    (newId site).Ensures (exec host faults) crash post w ↔
      crash ⟨site, .newId⟩ w ∧ post ((newId site).run (exec host faults) w).1
        ((newId site).run (exec host faults) w).2 := ensures_perform

@[simp] theorem ensures_lock {post : Unit → World ν → Prop} :
    lock.Ensures (exec host faults) crash post w ↔
      crash ⟨.lock, .lock⟩ w ∧ post (lock.run (exec host faults) w).1
        (lock.run (exec host faults) w).2 := ensures_perform

@[simp] theorem ensures_unlock {post : Unit → World ν → Prop} :
    unlock.Ensures (exec host faults) crash post w ↔
      crash ⟨.unlock, .unlock⟩ w ∧ post (unlock.run (exec host faults) w).1
        (unlock.run (exec host faults) w).2 := ensures_perform
end

theorem exec_issued {ν : Type} {host : Host ν} {faults : Faults} (op : Op) (w : World ν) :
    w.issued ≤ (exec host faults op w).2.issued := by
  obtain ⟨site, call⟩ := op
  cases hf : faults site with
  | true => simp [exec, hf]
  | false =>
    cases call with
    | stat p => cases hp : w.files p <;> simp [exec, hf, Call.apply, hp]
    | readFile p => cases hp : w.files p <;> simp [exec, hf, Call.apply, hp]
    | rename source target => cases hp : w.files source <;> simp [exec, hf, Call.apply, hp]
    | remove p => cases hp : w.files p <;> simp [exec, hf, Call.apply, hp]
    | _ => simp [exec, hf, Call.apply]

theorem issued_le_run {ν α : Type} {host : Host ν} {faults : Faults} (p : Prog α) (w : World ν) :
    w.issued ≤ (p.run (exec host faults) w).2.issued := by
  induction p generalizing w with
  | done a => exact Nat.le_refl _
  | call op next ih => exact Nat.le_trans (exec_issued op w) (ih _ _)

/-- The files and directories a call creates, overwrites, renames or removes. -/
def Call.changed : Call → List Path
  | .rename source target => [source, target]
  | .remove p => [p]
  | .removeAll p => [p]
  | .mkdirAll p => [p]
  | .prepare _ p => [p]
  | .install p _ => [p]
  | _ => []

def Call.paths : Call → List Path
  | .stat p => [p]
  | .readFile p => [p]
  | call => call.changed

def Call.Avoids (path : Path) : Call → Prop
  | .rename source target => source ≠ path ∧ target ≠ path
  | .remove p => p ≠ path
  | .removeAll p => ¬ p <+: path
  | .install p _ => p ≠ path
  | _ => True

instance (path : Path) (call : Call) : Decidable (call.Avoids path) := by
  cases call with
  | rename source target => exact inferInstanceAs (Decidable (_ ∧ _))
  | remove p => exact inferInstanceAs (Decidable (_ ≠ _))
  | removeAll p => exact inferInstanceAs (Decidable (¬ _))
  | install p file => exact inferInstanceAs (Decidable (_ ≠ _))
  | _ => exact isTrue trivial

theorem Call.Avoids.apply {ν : Type} {host : Host ν} {path : Path} {call : Call}
    (h : call.Avoids path) (w : World ν) : (call.apply host w).2.files path = w.files path := by
  cases call with
  | stat p => cases hp : w.files p <;> simp [Call.apply, hp]
  | readFile p => cases hp : w.files p <;> simp [Call.apply, hp]
  | rename source target =>
    cases hp : w.files source with
    | none => simp [Call.apply, hp]
    | some f => simp [Call.apply, hp, World.move_files_other w h.1.symm h.2.symm]
  | remove p =>
    cases hp : w.files p with
    | none => simp [Call.apply, hp]
    | some f => simp [Call.apply, hp, World.put_files, Ne.symm h]
  | removeAll p =>
    have hp : ¬ p <+: path := h
    simp [Call.apply, World.prune_files, hp]
  | install p f => simp [Call.apply, World.put_files, Ne.symm h]
  | _ => rfl

def Keeps {α : Type} (path : Path) (p : Prog α) : Prop := p.Only fun op => op.call.Avoids path

theorem Call.Avoids.exec {ν : Type} {host : Host ν} {faults : Faults} {path : Path} {op : Op}
    (h : op.call.Avoids path) (w : World ν) :
    (exec host faults op w).2.files path = w.files path := by
  unfold Datorium.exec
  split
  · rfl
  · exact h.apply w

namespace Keeps
variable {α β ν : Type} {path : Path} {p : Prog α} {host : Host ν} {faults : Faults} {w : World ν}
theorem visited (hp : Keeps path p) {t : World ν} (ht : t ∈ p.visited (exec host faults) w) :
    t.files path = w.files path :=
  Program.Only.visited hp (fun _ s hop hs => (hop.exec s).trans hs) rfl ht

theorem ensures (hp : Keeps path p) :
    p.Ensures (exec host faults) (fun _ t => t.files path = w.files path)
      (fun _ t => t.files path = w.files path) w :=
  (Program.Only.ensures hp (fun _ s hop hs => (hop.exec s).trans hs) rfl).mono
    (fun _ _ h => h.2) fun _ _ h => h

theorem run (hp : Keeps path p) : (p.run (exec host faults) w).2.files path = w.files path :=
  hp.visited (Program.final_mem_visited _ p w)

theorem bind {f : α → Prog β} (hp : Keeps path p) (hf : ∀ a, Keeps path (f a)) :
    Keeps path (Program.bind p f) := Program.Only.bind hp hf
end Keeps
end Datorium
