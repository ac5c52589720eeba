
import Datorium.Storage.World
namespace Datorium
open Framework World
def prepareSteps : List WriteStep := [.mkdir, .createTemp, .write, .sync, .close, .chmod]

def prepareFile (site : WriteStep → Site) (path : Path) :
    List WriteStep → Prog (Except FsError Unit)
  | [] => pure (.ok ())
  | step :: steps => do
      match ← prepare (site step) step path with
      | .error err => pure (.error err)
      | .ok () => prepareFile site path steps

def writeFileAtomic (site : WriteStep → Site) (path : Path) (data : File) :
    Prog (Except FsError Unit) := do
  match ← prepareFile site path prepareSteps with
  | .error err => pure (.error err)
  | .ok () =>
    match ← install (site .rename) path data with
    | .error err =>
      pure (.error (.other ("atomic rename to /" ++ "/".intercalate path ++ ": " ++ err.message)))
    | .ok () => pure (.ok ())

section
variable {ν : Type} {host : Host ν} {faults : Faults} {w : World ν}
theorem run_prepareFile (site : WriteStep → Site) (path : Path) (steps : List WriteStep) :
    (prepareFile site path steps).run (exec host faults) w =
      (if steps.any (fun step => faults (site step)) then .error .io else .ok (), w) := by
  induction steps with
  | nil => simp [prepareFile]
  | cons step steps ih =>
    cases hf : faults (site step) <;> simp [prepareFile, hf, ih]

theorem run_writeFileAtomic_ok {site : WriteStep → Site} (h : ∀ step, faults (site step) = false)
    (path : Path) (data : File) :
    (writeFileAtomic site path data).run (exec host faults) w =
      (.ok (), w.put path (some data)) := by
  simp [writeFileAtomic, run_prepareFile, prepareSteps, h]

theorem run_writeFileAtomic_error {site : WriteStep → Site} (h : ∃ step, faults (site step) = true)
    (path : Path) (data : File) :
    ∃ err, (writeFileAtomic site path data).run (exec host faults) w = (.error err, w) := by
  by_cases hp : prepareSteps.any (fun step => faults (site step)) = true
  · exact ⟨.io, by simp [writeFileAtomic, run_prepareFile, hp]⟩
  · have hrename : faults (site .rename) = true := by
      obtain ⟨step, hstep⟩ := h
      cases step <;> simp_all [prepareSteps]
    exact ⟨_, by simp [writeFileAtomic, run_prepareFile, hp, hrename]; rfl⟩
end

def readDocumentValue (site : Site) (path : Path) : Prog (Except FsError Json) := do
  match ← readFile site path with
  | .error err => pure (.error err)
  | .ok (.json doc) => pure (.ok doc)
  | .ok (.bytes _) =>
    pure (.error (.other ("invalid document JSON /" ++ "/".intercalate path)))

def readDocumentJSON (site : Site) (path : Path) : Prog (Except FsError JsonFields) := do
  match ← readDocumentValue site path with
  | .error err => pure (.error err)
  | .ok doc =>
    match doc.toMap? with
    | none => pure (.error (.other ("invalid document JSON /" ++ "/".intercalate path)))
    | some fields => pure (.ok fields)

def documentVersion (doc : Json) : String := Json.text (doc.get? "#")

def verifyDocumentVersion (site : Site) (path : Path) (expected : String) :
    Prog (Except FsError Unit) := do
  match ← readDocumentValue site path with
  | .error err => pure (.error err)
  | .ok doc =>
    let actual := Json.text (doc.get? "#")
    if actual ≠ expected then
      pure (.error (.other ("version mismatch after write: expected " ++ expected ++
        " actual " ++ actual)))
    else pure (.ok ())

/-- The verification loop; `last` is the error of the attempt before. -/
def verifyAttempts (place : Site → Site) (path : Path) (version : String) :
    List Nat → FsError → Prog (Except FsError Unit)
  | [], last => pure (.error (.other ("post-rename verification failed: " ++ last.message)))
  | attempt :: attempts, _ => do
      match ← verifyDocumentVersion (place (.verify attempt)) path version with
      | .ok () => pure (.ok ())
      | .error err => verifyAttempts place path version attempts err

def verifyCount : Nat := 5

def writeDocumentJSONVerified (place : Site → Site) (path : Path) (doc : Json) :
    Prog (Except FsError Unit) := do
  match ← writeFileAtomic (fun step => place (.write step)) path (.json doc) with
  | .error err => pure (.error err)
  | .ok () =>
    if documentVersion doc = "" then pure (.ok ())
    else verifyAttempts place path (documentVersion doc) (List.range verifyCount) .io

def World.readValue {ν : Type} (w : World ν) (fails : Bool) (path : Path) : Except FsError Json :=
  if fails then .error .io
  else match w.files path with
    | none => .error .notExist
    | some (.json doc) => .ok doc
    | some (.bytes _) => .error (.other ("invalid document JSON /" ++ "/".intercalate path))

def World.readFields {ν : Type} (w : World ν) (fails : Bool) (path : Path) :
    Except FsError JsonFields :=
  match w.readValue fails path with
  | .error err => .error err
  | .ok doc =>
    match doc.toMap? with
    | none => .error (.other ("invalid document JSON /" ++ "/".intercalate path))
    | some fields => .ok fields

section
variable {ν : Type} {host : Host ν} {faults : Faults} {w : World ν}
variable {path : Path} {doc : Json} {place : Site → Site}
theorem readValue_eq_ok {fails : Bool} :
    w.readValue fails path = .ok doc ↔ fails = false ∧ w.files path = some (.json doc) := by
  cases fails <;> cases hp : w.files path with
  | none => simp [readValue, hp]
  | some file => cases file <;> simp [readValue, hp]

theorem readFields_eq_ok {fails : Bool} {fields : JsonFields} :
    w.readFields fails path = .ok fields ↔
      fails = false ∧ w.files path = some (.json (.obj fields)) := by
  cases hv : w.readValue fails path with
  | error err =>
    have hne : ¬ w.readValue fails path = .ok (.obj fields) := by simp [hv]
    simpa [readFields, hv] using mt readValue_eq_ok.mpr hne
  | ok doc =>
    obtain ⟨rfl, hp⟩ := readValue_eq_ok.mp hv
    cases doc <;> simp [readFields, hv, hp, Json.toMap?]

@[simp] theorem run_readDocumentValue (site : Site) (path : Path) :
    (readDocumentValue site path).run (exec host faults) w =
      (w.readValue (faults site) path, w) := by
  cases hf : faults site <;> cases hp : w.files path with
  | none => simp [readDocumentValue, readValue, hf, hp]
  | some file => cases file <;> simp [readDocumentValue, readValue, hf, hp]

@[simp] theorem run_readDocumentJSON (site : Site) (path : Path) :
    (readDocumentJSON site path).run (exec host faults) w =
      (w.readFields (faults site) path, w) := by
  cases hv : w.readValue (faults site) path with
  | error err => simp [readDocumentJSON, readFields, hv]
  | ok doc => cases hm : doc.toMap? <;> simp [readDocumentJSON, readFields, hv, hm]

@[simp] theorem ensures_readDocumentValue {crash : Op → World ν → Prop}
    {post : Except FsError Json → World ν → Prop} (site : Site) (path : Path) :
    (readDocumentValue site path).Ensures (exec host faults) crash post w ↔
      crash ⟨site, .readFile path⟩ w ∧ post (w.readValue (faults site) path) w := by
  cases hf : faults site <;> cases hp : w.files path with
  | none => simp [readDocumentValue, readValue, hf, hp]
  | some file => cases file <;> simp [readDocumentValue, readValue, hf, hp]

@[simp] theorem ensures_readDocumentJSON {crash : Op → World ν → Prop}
    {post : Except FsError JsonFields → World ν → Prop} (site : Site) (path : Path) :
    (readDocumentJSON site path).Ensures (exec host faults) crash post w ↔
      crash ⟨site, .readFile path⟩ w ∧ post (w.readFields (faults site) path) w := by
  cases hv : w.readValue (faults site) path with
  | error err => simp [readDocumentJSON, readFields, hv]
  | ok doc => cases hm : doc.toMap? <;> simp [readDocumentJSON, readFields, hv, hm]

theorem run_verifyAttempts_ok (hfile : w.files path = some (.json doc)) {attempts : List Nat}
    (h : ∃ k ∈ attempts, faults (place (.verify k)) = false) (last : FsError) :
    (verifyAttempts place path (documentVersion doc) attempts last).run (exec host faults) w =
      (.ok (), w) := by
  induction attempts generalizing last with
  | nil => simp at h
  | cons k attempts ih =>
    cases hf : faults (place (.verify k)) with
    | false =>
      have hread : w.readValue false path = .ok doc := readValue_eq_ok.mpr ⟨rfl, hfile⟩
      simp [verifyAttempts, verifyDocumentVersion, hf, hread, documentVersion]
    | true =>
      have hrest : ∃ j ∈ attempts, faults (place (.verify j)) = false := by
        obtain ⟨j, hj, hok⟩ := h
        rcases List.mem_cons.mp hj with rfl | hj
        · rw [hf] at hok
          cases hok
        · exact ⟨j, hj, hok⟩
      simpa [verifyAttempts, verifyDocumentVersion, hf, readValue] using ih hrest .io

theorem run_verifyAttempts_error {attempts : List Nat}
    (h : ∀ k ∈ attempts, faults (place (.verify k)) = true) (path : Path) (version : String)
    (last : FsError) :
    ∃ err, (verifyAttempts place path version attempts last).run (exec host faults) w =
      (.error err, w) := by
  induction attempts generalizing last with
  | nil => exact ⟨_, rfl⟩
  | cons k attempts ih =>
    obtain ⟨err, herr⟩ := ih (fun j hj => h j (List.mem_cons_of_mem _ hj)) .io
    refine ⟨err, ?_⟩
    simpa [verifyAttempts, verifyDocumentVersion, h k List.mem_cons_self, readValue] using herr

def Unverifiable (faults : Faults) (place : Site → Site) (doc : Json) : Prop :=
  documentVersion doc ≠ "" ∧ ∀ k < verifyCount, faults (place (.verify k)) = true

theorem not_unverifiable_none (place : Site → Site) (doc : Json) :
    ¬ Unverifiable .none place doc := by
  intro h
  cases h.2 0 (by decide)

theorem run_writeDocumentJSONVerified_ok (hw : ∀ step, faults (place (.write step)) = false)
    (hv : ¬ Unverifiable faults place doc) (path : Path) :
    (writeDocumentJSONVerified place path doc).run (exec host faults) w =
      (.ok (), w.put path (some (.json doc))) := by
  by_cases hver : documentVersion doc = ""
  · simp [writeDocumentJSONVerified, run_writeFileAtomic_ok hw, hver]
  · have hk : ∃ k ∈ List.range verifyCount, faults (place (.verify k)) = false := by
      simpa [Unverifiable, hver] using hv
    simp [writeDocumentJSONVerified, run_writeFileAtomic_ok hw, hver,
      run_verifyAttempts_ok (put_files_same w path _) hk]

theorem run_writeDocumentJSONVerified_error (hw : ∃ step, faults (place (.write step)) = true)
    (path : Path) (doc : Json) :
    ∃ err, (writeDocumentJSONVerified place path doc).run (exec host faults) w =
      (.error err, w) := by
  obtain ⟨err, herr⟩ : ∃ err, (writeFileAtomic (fun step => place (.write step)) path
      (.json doc)).run (exec host faults) w = (.error err, w) := run_writeFileAtomic_error hw _ _
  exact ⟨err, by simp [writeDocumentJSONVerified, herr]⟩

theorem run_writeDocumentJSONVerified_unverified
    (hw : ∀ step, faults (place (.write step)) = false) (hv : Unverifiable faults place doc)
    (path : Path) :
    ∃ err, (writeDocumentJSONVerified place path doc).run (exec host faults) w =
      (.error err, w.put path (some (.json doc))) := by
  obtain ⟨err, herr⟩ : ∃ err, (verifyAttempts place path (documentVersion doc)
      (List.range verifyCount) .io).run (exec host faults) (w.put path (some (.json doc))) =
        (.error err, w.put path (some (.json doc))) :=
    run_verifyAttempts_error (fun k hk => hv.2 k (List.mem_range.mp hk)) _ _ _
  exact ⟨err, by simp [writeDocumentJSONVerified, run_writeFileAtomic_ok hw, hv.1, herr]⟩

theorem writeDocumentJSONVerified_eq_ok {w' : World ν}
    (h : (writeDocumentJSONVerified place path doc).run (exec host faults) w = (.ok (), w')) :
    w' = w.put path (some (.json doc)) := by
  by_cases hw : ∃ step, faults (place (.write step)) = true
  · obtain ⟨err, herr⟩ : ∃ err, (writeDocumentJSONVerified place path doc).run (exec host faults)
        w = (.error err, w) := run_writeDocumentJSONVerified_error hw _ _
    rw [herr] at h
    cases h
  · simp only [not_exists, Bool.not_eq_true] at hw
    by_cases hv : Unverifiable faults place doc
    · obtain ⟨err, herr⟩ : ∃ err, (writeDocumentJSONVerified place path doc).run
          (exec host faults) w = (.error err, w.put path (some (.json doc))) :=
        run_writeDocumentJSONVerified_unverified hw hv _
      rw [herr] at h
      cases h
    · rw [run_writeDocumentJSONVerified_ok hw hv] at h
      exact (Prod.mk.inj h).2.symm
end

def preservePreviousIfAbsent (place : Site → Site) (dataDir : Path) (collection id : String) :
    Prog (Except FsError Unit) := do
  let live := documentPath dataDir collection id
  let prev := previousDocumentPath dataDir collection id
  match ← stat (place .preserveStatPrevious) prev with
  | .ok () => pure (.ok ())
  | .error err =>
    if err.isNotExist then
      match ← stat (place .preserveStatLive) live with
      | .error err => pure (.error err)
      | .ok () => rename (place .preserveRename) live prev
    else pure (.error err)

/-- The directories `CascadeDeleteDocumentFiles` removes. -/
def sweepDocumentFiles (dataDir : Path) (collection id : String) : Prog (Except FsError Unit) := do
  match ← removeAll .cascadeLFS (lfsDir dataDir collection id) with
  | .error err => pure (.error err)
  | .ok () => removeAll .cascadeFileOps (fileOpsDir dataDir collection id)

def cascadeDeleteDocumentFiles (dataDir : Path) (collection id : String) :
    Prog (Except FsError Unit) := do
  match ← remove .cascadeManifest (filesManifestPath dataDir collection id) with
  | .error err =>
    if err.isNotExist then sweepDocumentFiles dataDir collection id else pure (.error err)
  | .ok () => sweepDocumentFiles dataDir collection id

/-- How `SoftDeleteDocument` takes the live document away. -/
def moveAway (live prev : Path) : Prog (Except FsError Unit) := do
  match ← stat .softDeleteStat prev with
  | .ok () => remove .softDeleteMove live
  | .error _ => rename .softDeleteMove live prev

def softDeleteDocument (dataDir : Path) (collection id : String) : Prog (Except FsError Unit) := do
  match ← moveAway (documentPath dataDir collection id)
      (previousDocumentPath dataDir collection id) with
  | .error err => pure (.error err)
  | .ok () => cascadeDeleteDocumentFiles dataDir collection id

section
variable {ν : Type} {host : Host ν} {faults : Faults} {w : World ν} {dataDir : Path}
  {coll id : String}
variable {place : Site → Site}
theorem run_preservePreviousIfAbsent_kept (hf : faults (place .preserveStatPrevious) = false)
    (hprev : w.files (previousDocumentPath dataDir coll id) ≠ none) :
    (preservePreviousIfAbsent place dataDir coll id).run (exec host faults) w = (.ok (), w) := by
  obtain ⟨file, hfile⟩ := Option.ne_none_iff_exists'.mp hprev
  simp [preservePreviousIfAbsent, hf, hfile]

theorem run_preservePreviousIfAbsent_moved (hf : faults (place .preserveStatPrevious) = false ∧
      faults (place .preserveStatLive) = false ∧ faults (place .preserveRename) = false)
    (hprev : w.files (previousDocumentPath dataDir coll id) = none)
    (hlive : w.files (documentPath dataDir coll id) ≠ none) :
    (preservePreviousIfAbsent place dataDir coll id).run (exec host faults) w =
      (.ok (), w.move (documentPath dataDir coll id) (previousDocumentPath dataDir coll id)) := by
  obtain ⟨file, hfile⟩ := Option.ne_none_iff_exists'.mp hlive
  simp [preservePreviousIfAbsent, hf, hprev, hfile, FsError.isNotExist]

theorem run_preservePreviousIfAbsent_error (h : faults (place .preserveStatPrevious) = true ∨
      w.files (previousDocumentPath dataDir coll id) = none ∧
        (faults (place .preserveStatLive) = true ∨ faults (place .preserveRename) = true ∨
          w.files (documentPath dataDir coll id) = none)) :
    ∃ err, (preservePreviousIfAbsent place dataDir coll id).run (exec host faults) w =
      (.error err, w) := by
  cases hs : faults (place .preserveStatPrevious) with
  | true => exact ⟨.io, by simp [preservePreviousIfAbsent, hs, FsError.isNotExist]⟩
  | false =>
    obtain ⟨hprev, h⟩ := h.resolve_left (by simp [hs])
    cases hl : faults (place .preserveStatLive) with
    | true => exact ⟨.io, by simp [preservePreviousIfAbsent, hs, hprev, hl, FsError.isNotExist]⟩
    | false =>
      cases hlive : w.files (documentPath dataDir coll id) with
      | none =>
        exact ⟨.notExist, by
          simp [preservePreviousIfAbsent, hs, hprev, hl, hlive, FsError.isNotExist]⟩
      | some file =>
        have hr : faults (place .preserveRename) = true := by simpa [hl, hlive] using h
        exact ⟨.io, by
          simp [preservePreviousIfAbsent, hs, hprev, hl, hlive, hr, FsError.isNotExist]⟩

theorem run_cascadeDeleteDocumentFiles_ok
    (hf : faults .cascadeManifest = false ∧ faults .cascadeLFS = false ∧
      faults .cascadeFileOps = false) :
    (cascadeDeleteDocumentFiles dataDir coll id).run (exec host faults) w =
      (.ok (), ((w.put (filesManifestPath dataDir coll id) none).prune
        (lfsDir dataDir coll id)).prune (fileOpsDir dataDir coll id)) := by
  cases hm : w.files (filesManifestPath dataDir coll id) with
  | none =>
    simp [cascadeDeleteDocumentFiles, sweepDocumentFiles, hf, hm, FsError.isNotExist, put_none_of_absent]
  | some file => simp [cascadeDeleteDocumentFiles, sweepDocumentFiles, hf, hm]

theorem run_cascadeDeleteDocumentFiles_error
    (hf : faults .cascadeManifest = true ∨ faults .cascadeLFS = true ∨
      faults .cascadeFileOps = true) :
    ∃ err, ((cascadeDeleteDocumentFiles dataDir coll id).run (exec host faults) w).1 =
      .error err := by
  refine ⟨.io, ?_⟩
  cases h₁ : faults .cascadeManifest <;> cases h₂ : faults .cascadeLFS <;>
    cases h₃ : faults .cascadeFileOps <;>
      cases hm : w.files (filesManifestPath dataDir coll id) <;>
        simp_all [cascadeDeleteDocumentFiles, sweepDocumentFiles, FsError.isNotExist]

theorem only_cascadeDeleteDocumentFiles {P : Op → Prop}
    (hm : P ⟨.cascadeManifest, .remove (filesManifestPath dataDir coll id)⟩)
    (hl : P ⟨.cascadeLFS, .removeAll (lfsDir dataDir coll id)⟩)
    (ho : P ⟨.cascadeFileOps, .removeAll (fileOpsDir dataDir coll id)⟩) :
    (cascadeDeleteDocumentFiles dataDir coll id).Only P := by
  have hsweep : (sweepDocumentFiles dataDir coll id).Only P := by
    refine .bindOk ⟨hl, fun _ => trivial⟩ (fun _ => trivial) fun u => ?_
    exact ⟨ho, fun _ => trivial⟩
  refine .bind ⟨hm, fun _ => trivial⟩ fun r => ?_
  cases r with
  | error err =>
    dsimp only
    split
    · exact hsweep
    · trivial
  | ok u => exact hsweep

def World.vacate (w : World ν) (live prev : Path) (statFails : Bool) : World ν :=
  if statFails = false ∧ w.files prev ≠ none then w.put live none else w.move live prev

theorem run_softDeleteDocument {file : File} (hf : faults .softDeleteMove = false)
    (hlive : w.files (documentPath dataDir coll id) = some file) :
    (softDeleteDocument dataDir coll id).run (exec host faults) w =
      (cascadeDeleteDocumentFiles dataDir coll id).run (exec host faults)
        (w.vacate (documentPath dataDir coll id)
          (previousDocumentPath dataDir coll id) (faults .softDeleteStat)) := by
  cases hs : faults .softDeleteStat <;>
    cases hp : w.files (previousDocumentPath dataDir coll id) <;>
      simp [softDeleteDocument, moveAway, vacate, hs, hp, hf, hlive]

theorem run_softDeleteDocument_error
    (hf : faults .softDeleteMove = true ∨ w.files (documentPath dataDir coll id) = none) :
    ∃ err, (softDeleteDocument dataDir coll id).run (exec host faults) w = (.error err, w) := by
  cases hm : faults .softDeleteMove with
  | true =>
    refine ⟨.io, ?_⟩
    cases hs : faults .softDeleteStat <;>
      cases hp : w.files (previousDocumentPath dataDir coll id) <;>
        simp [softDeleteDocument, moveAway, hs, hp, hm]
  | false =>
    have hlive := hf.resolve_left (by simp [hm])
    refine ⟨.notExist, ?_⟩
    cases hs : faults .softDeleteStat <;>
      cases hp : w.files (previousDocumentPath dataDir coll id) <;>
        simp [softDeleteDocument, moveAway, hs, hp, hm, hlive]
end

def ensureCollectionDir (dataDir : Path) (collection : String) : Prog (Except FsError Unit) :=
  mkdirAll .ensureDir (collectionDir dataDir collection)

/-- The name shared by the `.queue` and the `.taken` file of a change. -/
def queueBaseName (change : Command) (collection id : String) : String :=
  change.text ++ "__" ++ collection ++ "__" ++ id

/-- `QueueEntryPath` of a `.queue` entry. -/
def queuePath (dataDir : Path) (change : Command) (collection id : String) : Path :=
  (changeQueueDir dataDir collection).join (queueBaseName change collection id ++ ".queue")

def takenQueuePath (dataDir : Path) (change : Command) (collection id : String) : Path :=
  (changeQueueDir dataDir collection).join (queueBaseName change collection id ++ ".taken")

variable {coll : String}
theorem queueBaseName_noSlash {id : String} (hc : PlainName coll) (h : DocumentId id)
    (change : Command) : '/' ∉ (queueBaseName change coll id).toList := by
  cases change <;> simp [queueBaseName, Command.text, hc.noSlash, h.noSlash]

theorem queueBaseName_inj {id id' : String} {change change' : Command}
    (h : queueBaseName change coll id = queueBaseName change' coll id') :
    change = change' ∧ id = id' := by
  have hlist := congrArg String.toList h
  cases change <;> cases change' <;> simp [queueBaseName, Command.text] at hlist <;>
    exact ⟨rfl, String.toList_inj.mp hlist⟩

theorem queuePath_eq {dataDir : Path} {id : String} (hc : PlainName coll) (h : DocumentId id)
    (change : Command) :
    queuePath dataDir change coll id =
      dataDir ++ [coll, ".changeQueue", queueBaseName change coll id ++ ".queue"] := by
  rw [queuePath, changeQueueDir_eq hc, Path.join_plain, List.append_assoc]
  · rfl
  · exact .append (queueBaseName_noSlash hc h change) (by decide) (by decide)

theorem takenQueuePath_eq {dataDir : Path} {id : String} (hc : PlainName coll) (h : DocumentId id)
    (change : Command) :
    takenQueuePath dataDir change coll id =
      dataDir ++ [coll, ".changeQueue", queueBaseName change coll id ++ ".taken"] := by
  rw [takenQueuePath, changeQueueDir_eq hc, Path.join_plain, List.append_assoc]
  · rfl
  · exact .append (queueBaseName_noSlash hc h change) (by decide) (by decide)

def enqueueChange (place : Site → Site) (dataDir : Path) (collection id : String)
    (change : Command) : Prog (Except FsError Unit) := do
  match ← mkdirAll (place .queueDir) (changeQueueDir dataDir collection) with
  | .error err => pure (.error err)
  | .ok () =>
    writeFileAtomic (fun step => place (.queue step)) (queuePath dataDir change collection id)
      .marker

section
variable {ν : Type} {host : Host ν} {faults : Faults} {w : World ν} {dataDir : Path}
  {coll id : String} {change : Command}
def QueueFails (faults : Faults) (place : Site → Site) : Prop :=
  faults (place .queueDir) = true ∨ ∃ step, faults (place (.queue step)) = true

theorem not_queueFails_none (place : Site → Site) : ¬ QueueFails .none place := by
  simp [QueueFails]

theorem run_enqueueChange_ok {place : Site → Site} (h : ¬ QueueFails faults place) :
    (enqueueChange place dataDir coll id change).run (exec host faults) w =
      (.ok (), w.put (queuePath dataDir change coll id) (some .marker)) := by
  simp only [QueueFails, not_or, not_exists, Bool.not_eq_true] at h
  simp [enqueueChange, h.1, run_writeFileAtomic_ok h.2]

theorem run_enqueueChange_error {place : Site → Site} (h : QueueFails faults place) :
    ∃ err, (enqueueChange place dataDir coll id change).run (exec host faults) w =
      (.error err, w) := by
  cases hd : faults (place .queueDir) with
  | true => exact ⟨.io, by simp [enqueueChange, hd]⟩
  | false =>
    have hq := h.resolve_left (by simp [hd])
    obtain ⟨err, herr⟩ : ∃ err, (writeFileAtomic (fun step => place (.queue step))
        (queuePath dataDir change coll id) .marker).run (exec host faults) w =
          (.error err, w) := run_writeFileAtomic_error hq _ _
    exact ⟨err, by simp [enqueueChange, hd, herr]⟩
end
end Datorium
