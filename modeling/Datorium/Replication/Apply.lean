
import Mathlib.Logic.Relation
import Datorium.Engine.Commits
namespace Datorium
open Framework Program
inductive TokenKind where
  | client
  | machine
  | admin
  deriving DecidableEq, Repr

structure Claims where
  kind : TokenKind
  serverName : String

inductive SysErrorCode where
  | invalidRequest
  | machineIdentityMismatch
  | targetServerMismatch
  | applyFailed
  | workItemNotFound
  | filesystemError
  | invalidFileName
  deriving DecidableEq, Repr

structure SysError where
  code : SysErrorCode
  path : String := ""
  message : String
  expected : String := ""
  actual : String := ""

def requireMachine (claims : Claims) (serverName : String) : Option SysError :=
  if claims.kind ≠ .machine then
    some { code := .machineIdentityMismatch, message := "this endpoint requires a machine token" }
  else if serverName ≠ "" ∧ claims.serverName ≠ serverName then
    some { code := .machineIdentityMismatch, message :=
      "authenticated server name does not match the requested server name" }
  else none

def WorkItem.label (item : WorkItem) : String := item.collection ++ "/" ++ item.id

def applyWritten (path : Path) (doc : Json) : Prog (Except FsError Bool) := do
  match ← writeDocumentJSONVerified id path doc with
  | .error err => pure (.error err)
  | .ok () => pure (.ok true)

def applyCreate (dataDir : Path) (item : WorkItem) : Prog (Except FsError Bool) := do
  let path := documentPath dataDir item.collection item.id
  match ← readDocumentJSON .readLive path with
  | .ok existing =>
    if Json.asString (Fields.get? "#" existing) = item.afterVersion then pure (.ok true)
    else pure (.error (.other ("replication: create conflict for " ++ item.label ++
      ": local version differs from replicated version")))
  | .error _ =>
    match item.payload with
    | none => pure (.error (.other ("replication: create work item for " ++ item.label ++
        " is missing payload")))
    | some payload =>
      match ← ensureCollectionDir dataDir item.collection with
      | .error err => pure (.error err)
      | .ok () => applyWritten path payload

def WorkItem.patchValue (item : WorkItem) : Json :=
  if item.patch = [] then .null else .arr (item.patch.map fun op => sortKeys (.obj op))

def WorkItem.patchedFrom (o : Ojson) (item : WorkItem) (doc : Json) : Except String Json :=
  match o.readPatch item.patchValue with
  | .error err => .error ("replication: parse patch for " ++ item.label ++ ": " ++ err)
  | .ok ops =>
    match o.applyPatch doc ops with
    | .error err => .error ("replication: apply patch op to " ++ item.label ++ ": " ++ err)
    | .ok patched => .ok patched

/-- The part of `applyPatch` after the previous version is kept. -/
def applyPatched (o : Ojson) (path : Path) (item : WorkItem) (doc : Json) :
    Prog (Except FsError Bool) :=
  match item.payload with
  | some payload => applyWritten path payload
  | none =>
    match item.patchedFrom o doc with
    | .error err => pure (.error (.other err))
    | .ok patched => applyWritten path patched

def applyPatch (dataDir : Path) (o : Ojson) (item : WorkItem) : Prog (Except FsError Bool) := do
  let path := documentPath dataDir item.collection item.id
  match ← readDocumentValue .readLive path with
  | .error err => pure (.error (.other ("replication: patch target " ++ item.label ++
      " not found locally: " ++ err.message)))
  | .ok doc =>
    if Json.text (doc.get? "#") = item.afterVersion then pure (.ok true)
    else
      match ← preservePreviousIfAbsent id dataDir item.collection item.id with
      | .error err => pure (.error err)
      | .ok () => applyPatched o path item doc

def applyDelete (dataDir : Path) (item : WorkItem) : Prog (Except FsError Bool) := do
  match ← readDocumentJSON .readLive (documentPath dataDir item.collection item.id) with
  | .error _ => do
      let _ ← cascadeDeleteDocumentFiles dataDir item.collection item.id
      pure (.ok true)
  | .ok _ =>
    match ← softDeleteDocument dataDir item.collection item.id with
    | .error err => pure (.error err)
    | .ok () => pure (.ok true)

def applyItem (dataDir : Path) (o : Ojson) (item : WorkItem) : Prog (Except FsError Bool) :=
  match item.command with
  | .create => applyCreate dataDir item
  | .patch => applyPatch dataDir o item
  | .delete => applyDelete dataDir item
  | .read => pure (.error (.other ("replication: unknown command \"" ++ item.command.text ++ "\"")))

structure ApplyAnswer where
  ok : Bool
  applied : Option Bool := none
  operationId : Option String := none
  targetServer : Option String := none
  errors : List SysError := []

/-- `pushOne` counts the answer as an acknowledgement. -/
def ApplyAnswer.acknowledges (answer : ApplyAnswer) : Bool :=
  answer.ok && answer.applied.getD false

def targetServerRequired : SysError :=
  { code := .invalidRequest, path := "/targetServer", message := "targetServer is required" }

def targetServerMismatch (expected actual : String) : SysError :=
  { code := .targetServerMismatch, message := "this delivery is not addressed to this server",
    expected, actual }

def applyFailed (err : FsError) : SysError := { code := .applyFailed, message := err.message }

def applyAnswer (item : WorkItem) : Except FsError Bool → ApplyAnswer
  | .error err =>
    { ok := false, operationId := some item.operationId, errors := [applyFailed err] }
  | .ok applied =>
    { ok := true, applied := some applied, operationId := some item.operationId }

def handleApplyDocumentWrite (m : Engine) (claims : Claims) (targetServer : String)
    (item : WorkItem) : Prog ApplyAnswer :=
  if targetServer = "" then pure { ok := false, errors := [targetServerRequired] }
  else
    match requireMachine claims "" with
    | some err => pure { ok := false, targetServer := some targetServer, errors := [err] }
    | none =>
      if targetServer ≠ m.serverName then
        pure { ok := false, targetServer := some targetServer,
               errors := [targetServerMismatch m.serverName targetServer] }
      else do
        let r ← applyItem m.dataDir m.ojson item
        pure (applyAnswer item r)

section
variable {μ : Type} {host : Host μ} {faults : Faults} {w w' : World μ} {dataDir : Path}
  {o : Ojson} {item : WorkItem} {applied : Bool}
theorem applyWritten_ok {path : Path} {doc : Json}
    (h : (applyWritten path doc).run (exec host faults) w = (.ok applied, w')) :
    applied = true ∧ w' = w.put path (some (.json doc)) := by
  simp only [applyWritten, bind_eq, run_bind] at h
  rcases hwrite : (writeDocumentJSONVerified id path doc).run (exec host faults) w with ⟨r, t⟩
  rw [hwrite] at h
  cases r with
  | error err => cases h
  | ok u =>
    cases h
    exact ⟨rfl, writeDocumentJSONVerified_eq_ok hwrite⟩

theorem applyCreate_ok
    (h : (applyCreate dataDir item).run (exec host faults) w = (.ok applied, w')) :
    applied = true ∧ ((∃ existing, w.files (documentPath dataDir item.collection item.id) =
          some (.json (.obj existing)) ∧
        Json.asString (Fields.get? "#" existing) = item.afterVersion ∧ w' = w) ∨
      ∃ payload, item.payload = some payload ∧
        w' = w.put (documentPath dataDir item.collection item.id) (some (.json payload))) := by
  simp only [applyCreate, bind_eq, run_bind, run_readDocumentJSON] at h
  cases hread : w.readFields (faults .readLive) (documentPath dataDir item.collection item.id) with
  | ok existing =>
    simp only [hread] at h
    split at h
    · cases h
      exact ⟨rfl, .inl ⟨existing, (readFields_eq_ok.mp hread).2, by assumption, rfl⟩⟩
    · cases h
  | error err =>
    simp only [hread] at h
    cases hpayload : item.payload with
    | none =>
      rw [hpayload] at h
      cases h
    | some payload =>
      simp only [hpayload, run_bind, ensureCollectionDir, run_mkdirAll] at h
      split at h
      · cases h
      · obtain ⟨rfl, hw'⟩ := applyWritten_ok h
        exact ⟨rfl, .inr ⟨payload, rfl, hw'⟩⟩

theorem applyPatched_ok {path : Path} {doc : Json}
    (h : (applyPatched o path item doc).run (exec host faults) w = (.ok applied, w')) :
    applied = true ∧ ∃ new, (item.payload = some new ∨
        item.payload = none ∧ item.patchedFrom o doc = .ok new) ∧
      w' = w.put path (some (.json new)) := by
  unfold applyPatched at h
  cases hpayload : item.payload with
  | some payload =>
    rw [hpayload] at h
    obtain ⟨rfl, hw'⟩ := applyWritten_ok h
    exact ⟨rfl, payload, .inl rfl, hw'⟩
  | none =>
    simp only [hpayload] at h
    cases hpatched : item.patchedFrom o doc with
    | error err =>
      rw [hpatched] at h
      cases h
    | ok patched =>
      simp only [hpatched] at h
      obtain ⟨rfl, hw'⟩ := applyWritten_ok h
      exact ⟨rfl, patched, .inr ⟨rfl, rfl⟩, hw'⟩

theorem applyPatch_ok
    (h : (applyPatch dataDir o item).run (exec host faults) w = (.ok applied, w')) :
    applied = true ∧ ∃ doc, w.files (documentPath dataDir item.collection item.id) =
        some (.json doc) ∧
      (documentVersion doc = item.afterVersion ∧ w' = w ∨
      ∃ new, (item.payload = some new ∨ item.payload = none ∧ item.patchedFrom o doc = .ok new) ∧
        w'.files (documentPath dataDir item.collection item.id) = some (.json new)) := by
  simp only [applyPatch, bind_eq, run_bind, run_readDocumentValue] at h
  cases hread : w.readValue (faults .readLive) (documentPath dataDir item.collection item.id) with
  | error err =>
    rw [hread] at h
    cases h
  | ok doc =>
    have hstored := (readValue_eq_ok.mp hread).2
    simp only [hread] at h
    split at h
    · cases h
      exact ⟨rfl, doc, hstored, .inl ⟨by assumption, rfl⟩⟩
    · rw [run_bind] at h
      rcases hkeep : (preservePreviousIfAbsent id dataDir item.collection item.id).run
          (exec host faults) w with ⟨r, t⟩
      rw [hkeep] at h
      cases r with
      | error err => cases h
      | ok u =>
        obtain ⟨rfl, new, hnew, rfl⟩ := applyPatched_ok h
        exact ⟨rfl, doc, hstored, .inr ⟨new, hnew, World.put_files_same _ _ _⟩⟩

theorem keeps_cascade_live (hid : DocumentId item.id) :
    Keeps (documentPath dataDir item.collection item.id)
      (cascadeDeleteDocumentFiles dataDir item.collection item.id) :=
  only_cascadeDeleteDocumentFiles (documentPath_ne_filesManifestPath hid).symm
    (not_lfsDir_prefix_documentPath hid) (not_fileOpsDir_prefix_documentPath hid)

theorem applyDelete_unreadable (host : Host μ) {err : FsError}
    (hread : w.readFields (faults .readLive) (documentPath dataDir item.collection item.id) =
      .error err) (hid : DocumentId item.id) :
    ((applyDelete dataDir item).run (exec host faults) w).1 = .ok true ∧
      ((applyDelete dataDir item).run (exec host faults) w).2.files
          (documentPath dataDir item.collection item.id) =
        w.files (documentPath dataDir item.collection item.id) := by
  simp only [applyDelete, bind_eq, run_bind, run_readDocumentJSON, hread,
    pure_eq, run_done, true_and]
  exact (keeps_cascade_live hid).run

theorem softDeleteDocument_live (host : Host μ) {file : File} (hid : DocumentId item.id)
    (hm : faults .softDeleteMove = false)
    (hlive : w.files (documentPath dataDir item.collection item.id) = some file) :
    ((softDeleteDocument dataDir item.collection item.id).run (exec host faults) w).2.files
      (documentPath dataDir item.collection item.id) = none := by
  rw [run_softDeleteDocument hm hlive, (keeps_cascade_live hid).run]
  exact vacate_live (documentPath_ne_previousDocumentPath hid) _

theorem applyDelete_readable {existing : JsonFields}
    (hread : w.readFields (faults .readLive) (documentPath dataDir item.collection item.id) =
      .ok existing) (hid : DocumentId item.id)
    (h : (applyDelete dataDir item).run (exec host faults) w = (.ok applied, w')) :
    w'.files (documentPath dataDir item.collection item.id) = none := by
  have hlive := (readFields_eq_ok.mp hread).2
  simp only [applyDelete, bind_eq, run_bind, run_readDocumentJSON, hread] at h
  rcases hsoft : (softDeleteDocument dataDir item.collection item.id).run (exec host faults) w
    with ⟨r, t⟩
  rw [hsoft] at h
  cases r with
  | error err => cases h
  | ok u =>
    cases h
    cases hm : faults .softDeleteMove with
    | true =>
      obtain ⟨err, herr⟩ : ∃ err, (softDeleteDocument dataDir item.collection item.id).run
          (exec host faults) w = (.error err, w) := run_softDeleteDocument_error (.inl hm)
      rw [herr] at hsoft
      cases hsoft
    | false =>
      have hgone := softDeleteDocument_live host hid hm hlive
      rwa [hsoft] at hgone
end

structure WorkItem.Carries (item : WorkItem) : Prop where
  gone : item.payload = none ↔ item.command = .delete
  written : item.command ≠ .read

def WorkItem.effect (item : WorkItem) (live : Option File) : Bool × Option File :=
  match item.command, live with
  | .create, some (.json (.obj existing)) =>
    (Json.asString (Fields.get? "#" existing) = item.afterVersion, live)
  | .create, _ => (true, item.payload.map .json)
  | .patch, some (.json doc) =>
    (true, if documentVersion doc = item.afterVersion then live else item.payload.map .json)
  | .patch, _ => (false, live)
  | .delete, some (.json (.obj _)) => (true, none)
  | .delete, _ => (true, live)
  | .read, _ => (false, live)

section
variable {μ : Type} {host : Host μ} {w : World μ} {dataDir : Path} {o : Ojson} {item : WorkItem}
theorem WorkItem.effect_cases (item : WorkItem) (hc : item.Carries) (live : Option File) :
    (item.effect live).2 = live ∨ (item.effect live).2 = item.payload.map .json := by
  unfold WorkItem.effect
  split
  · exact .inl rfl
  · exact .inr rfl
  · split
    · exact .inl rfl
    · exact .inr rfl
  · exact .inl rfl
  · rw [hc.gone.mpr (by assumption)]
    exact .inr rfl
  · exact .inl rfl
  · exact .inl rfl

def HasEffect (p : Prog (Except FsError Bool)) (path : Path) (effect : Bool × Option File)
    (host : Host μ) (w : World μ) : Prop :=
  ((p.run (exec host .none) w).1 = .ok true ↔ effect.1 = true) ∧
    (p.run (exec host .none) w).2.files path = effect.2

theorem hasEffect_applyWritten (path : Path) (doc : Json) :
    HasEffect (applyWritten path doc) path (true, some (.json doc)) host w := by
  have hwrite : (writeDocumentJSONVerified id path doc).run (exec host .none) w =
      (.ok (), w.put path (some (.json doc))) :=
    run_writeDocumentJSONVerified_ok (fun _ => rfl) (not_unverifiable_none _ _) path
  simp [HasEffect, applyWritten, hwrite]

theorem readFields_none (path : Path) :
    (∃ fields, w.files path = some (.json (.obj fields)) ∧ w.readFields false path = .ok fields) ∨
      (∀ fields, w.files path ≠ some (.json (.obj fields))) ∧
        ∃ err, w.readFields false path = .error err := by
  cases hread : w.readFields false path with
  | ok fields => exact .inl ⟨fields, (readFields_eq_ok.mp hread).2, rfl⟩
  | error err =>
    refine .inr ⟨fun fields hfile => ?_, err, rfl⟩
    rw [readFields_eq_ok.mpr ⟨rfl, hfile⟩] at hread
    cases hread

theorem effect_create_other (hcmd : item.command = .create) {live : Option File}
    (h : ∀ fields, live ≠ some (.json (.obj fields))) :
    item.effect live = (true, item.payload.map .json) := by
  unfold WorkItem.effect
  rw [hcmd]
  split <;> simp_all

theorem effect_delete_other (hcmd : item.command = .delete) {live : Option File}
    (h : ∀ fields, live ≠ some (.json (.obj fields))) : item.effect live = (true, live) := by
  unfold WorkItem.effect
  rw [hcmd]
  split <;> simp_all

theorem hasEffect_create (hcmd : item.command = .create) (hc : item.Carries) :
    HasEffect (applyCreate dataDir item) (documentPath dataDir item.collection item.id)
      (item.effect (w.files (documentPath dataDir item.collection item.id))) host w := by
  obtain ⟨payload, hpayload⟩ := Option.ne_none_iff_exists'.mp (mt hc.gone.mp (by rw [hcmd]; decide))
  rcases @readFields_none μ w (documentPath dataDir item.collection item.id) with
    ⟨existing, hfile, hread⟩ | ⟨hother, err, hread⟩
  · have heffect : item.effect (some (.json (.obj existing))) =
        (decide (Json.asString (Fields.get? "#" existing) = item.afterVersion),
          some (.json (.obj existing))) := by
      simp [WorkItem.effect, hcmd]
    rw [hfile, heffect]
    by_cases hv : Json.asString (Fields.get? "#" existing) = item.afterVersion <;>
      simp [HasEffect, applyCreate, hread, hv, hfile]
  · rw [effect_create_other hcmd hother, hpayload]
    have hwritten := @hasEffect_applyWritten μ host w
      (documentPath dataDir item.collection item.id) payload
    simpa [HasEffect, applyCreate, hread, hpayload, ensureCollectionDir] using hwritten

theorem hasEffect_patch (hcmd : item.command = .patch) (hc : item.Carries) :
    HasEffect (applyPatch dataDir o item) (documentPath dataDir item.collection item.id)
      (item.effect (w.files (documentPath dataDir item.collection item.id))) host w := by
  obtain ⟨payload, hpayload⟩ := Option.ne_none_iff_exists'.mp (mt hc.gone.mp (by rw [hcmd]; decide))
  cases hread : w.readValue false (documentPath dataDir item.collection item.id) with
  | error err =>
    have heffect : item.effect (w.files (documentPath dataDir item.collection item.id)) =
        (false, w.files (documentPath dataDir item.collection item.id)) := by
      unfold WorkItem.effect
      rw [hcmd]
      split <;> simp_all [World.readValue]
    rw [heffect]
    simp [HasEffect, applyPatch, hread]
  | ok doc =>
    have hfile := (readValue_eq_ok.mp hread).2
    have heffect : item.effect (some (.json doc)) = (true,
        if documentVersion doc = item.afterVersion then some (.json doc)
        else item.payload.map .json) := by
      simp [WorkItem.effect, hcmd]
    rw [hfile, heffect]
    by_cases hv : documentVersion doc = item.afterVersion
    · have hv' : Json.text (doc.get? "#") = item.afterVersion := hv
      simp [HasEffect, applyPatch, hread, hv, hv', hfile]
    · have hv' : ¬ Json.text (doc.get? "#") = item.afterVersion := hv
      have hkeep : ∃ t, (preservePreviousIfAbsent id dataDir item.collection item.id).run
          (exec host .none) w = (.ok (), t) := by
        by_cases hp : w.files (previousDocumentPath dataDir item.collection item.id) = none
        · exact ⟨_, run_preservePreviousIfAbsent_moved ⟨rfl, rfl, rfl⟩ hp (by simp [hfile])⟩
        · exact ⟨_, run_preservePreviousIfAbsent_kept rfl hp⟩
      obtain ⟨t, hkeep⟩ := hkeep
      have hwritten := @hasEffect_applyWritten μ host t
        (documentPath dataDir item.collection item.id) payload
      simpa [HasEffect, applyPatch, hread, hv, hv', hkeep, applyPatched, hpayload] using hwritten

theorem hasEffect_delete (hcmd : item.command = .delete) (hid : DocumentId item.id) :
    HasEffect (applyDelete dataDir item) (documentPath dataDir item.collection item.id)
      (item.effect (w.files (documentPath dataDir item.collection item.id))) host w := by
  rcases @readFields_none μ w (documentPath dataDir item.collection item.id) with
    ⟨existing, hfile, hread⟩ | ⟨hother, err, hread⟩
  · have heffect : item.effect (some (.json (.obj existing))) = (true, none) := by
      simp [WorkItem.effect, hcmd]
    have hgone := @softDeleteDocument_live μ .none w dataDir item host _ hid rfl hfile
    have hsweep : (softDeleteDocument dataDir item.collection item.id).run (exec host .none) w =
        (.ok (), _) :=
      (run_softDeleteDocument rfl hfile).trans (run_cascadeDeleteDocumentFiles_ok ⟨rfl, rfl, rfl⟩)
    rw [hsweep] at hgone
    rw [hfile, heffect]
    simp only [HasEffect, applyDelete, bind_eq, run_bind, run_readDocumentJSON,
      Faults.none_apply, hread, hsweep]
    exact ⟨by simp, hgone⟩
  · rw [effect_delete_other hcmd hother]
    obtain ⟨hanswer, hkept⟩ := @applyDelete_unreadable μ .none w dataDir item host err hread hid
    exact ⟨⟨fun _ => rfl, fun _ => hanswer⟩, hkept⟩

theorem hasEffect_applyItem (hid : DocumentId item.id) (hc : item.Carries) :
    HasEffect (applyItem dataDir o item) (documentPath dataDir item.collection item.id)
      (item.effect (w.files (documentPath dataDir item.collection item.id))) host w := by
  unfold applyItem
  cases hcmd : item.command with
  | create => exact hasEffect_create hcmd hc
  | patch => exact hasEffect_patch hcmd hc
  | delete => exact hasEffect_delete hcmd hid
  | read => exact absurd hcmd hc.written

theorem run_applyItem_live {coll docId : String}
    (habout : item.collection = coll ∧ item.id = docId) (hid : DocumentId docId)
    (hc : item.Carries) (m : Engine) (host : Host μ) (w : World μ) :
    (((applyItem m.dataDir m.ojson item).run (exec host .none) w).1 = .ok true ↔
        (item.effect (w.files (m.live coll docId))).1 = true) ∧
      ((applyItem m.dataDir m.ojson item).run (exec host .none) w).2.files
        (m.live coll docId) = (item.effect (w.files (m.live coll docId))).2 := by
  obtain ⟨rfl, rfl⟩ := habout
  exact hasEffect_applyItem hid hc
end

structure Engine.LetsIn (m : Engine) (claims : Claims) (targetServer : String) : Prop where
  addressed : targetServer ≠ ""
  machine : claims.kind = .machine
  own : targetServer = m.serverName

section
variable {μ : Type} {host : Host μ} {faults : Faults} {w : World μ} {m : Engine} {claims : Claims}
  {targetServer : String}
theorem requireMachine_any : requireMachine claims "" = none ↔ claims.kind = .machine := by
  by_cases h : claims.kind = .machine <;> simp [requireMachine, h]

theorem run_handleApply_in (h : m.LetsIn claims targetServer) (item : WorkItem) :
    (handleApplyDocumentWrite m claims targetServer item).run (exec host faults) w =
      (applyAnswer item ((applyItem m.dataDir m.ojson item).run (exec host faults) w).1,
        ((applyItem m.dataDir m.ojson item).run (exec host faults) w).2) := by
  simp [handleApplyDocumentWrite, h.addressed, requireMachine_any.mpr h.machine, h.own.symm]

theorem handleApply_out (h : ¬ m.LetsIn claims targetServer) (item : WorkItem) :
    ((handleApplyDocumentWrite m claims targetServer item).run (exec host faults)
      w).1.acknowledges = false := by
  unfold handleApplyDocumentWrite
  split
  · rfl
  · rename_i haddressed
    cases hmachine : requireMachine claims "" with
    | some err => rfl
    | none =>
      have hother : targetServer ≠ m.serverName :=
        fun hown => h ⟨haddressed, requireMachine_any.mp hmachine, hown⟩
      simp only [hother, ne_eq, not_false_eq_true, if_true]
      rfl

theorem applyAnswer_acknowledges {item : WorkItem} {r : Except FsError Bool} :
    (applyAnswer item r).acknowledges = true ↔ r = .ok true := by
  cases r <;> simp [applyAnswer, ApplyAnswer.acknowledges]
end

def Engine.MissesDelete {μ : Type} (m : Engine) (faults : Faults) (item : WorkItem) (w : World μ) :
    Prop :=
  item.command = .delete ∧ w.files (m.live item.collection item.id) ≠ none ∧
    ∀ fields, w.readFields (faults .readLive) (m.live item.collection item.id) ≠ .ok fields

def VersionsAgree : Option File → Option File → Prop
  | some (.json doc), some (.json doc') => documentVersion doc = documentVersion doc' → doc = doc'
  | _, _ => True

section
variable {ν μ : Type} {sourceHost : Host ν} {sourceFaults : Faults} {s s' : World ν}
  {host : Host μ} {faults : Faults} {w w' : World μ} {e m : Engine} {req : Request}
  {item : WorkItem} {applied : Bool}
theorem applyItem_committed (hids : ∀ n, sourceHost.ids n ≠ "")
    (hitem : CommittedItem e sourceHost req item s s')
    (hunique : VersionsAgree (w.files (m.live item.collection item.id))
      (s'.files (e.live item.collection item.id)))
    (hmiss : ¬ m.MissesDelete faults item w)
    (h : (applyItem m.dataDir m.ojson item).run (exec host faults) w = (.ok applied, w')) :
    w'.files (m.live item.collection item.id) = s'.files (e.live item.collection item.id) := by
  have hlive : s'.files (e.live item.collection item.id) = item.payload.map File.json := by
    rw [hitem.collection, hitem.id]
    exact hitem.live
  have hid : DocumentId item.id := hitem.id ▸ hitem.valid
  rw [hlive] at hunique ⊢
  -- A stored document with the version of the item is the document of the item.
  have hsame : ∀ doc payload, item.payload = some payload →
      w.files (m.live item.collection item.id) = some (.json doc) →
      documentVersion doc = item.afterVersion → doc = payload := by
    intro doc payload hpayload hdoc hversion
    rw [hpayload, hdoc] at hunique
    refine hunique (hversion.trans ?_)
    rw [documentVersion, hitem.version payload hpayload, Json.text_str]
  cases hcmd : item.command with
  | read => exact absurd (hitem.command.symm.trans hcmd) hitem.written
  | create =>
    obtain ⟨payload, hpayload⟩ := Option.ne_none_iff_exists'.mp
      (mt hitem.gone.mp (by rw [← hitem.command, hcmd]; decide))
    rw [applyItem, hcmd] at h
    obtain ⟨-, ⟨existing, hstored, hversion, rfl⟩ | ⟨payload', hpayload', rfl⟩⟩ :=
      applyCreate_ok h
    · obtain ⟨n, -, -, hn⟩ := hitem.drawn (by rw [← hitem.command, hcmd]; decide)
      have hdrawn : Json.asString (Fields.get? "#" existing) ≠ "" := by
        rw [hversion, hn]
        exact hids n
      have htext : documentVersion (.obj existing) = item.afterVersion :=
        (Json.text_of_asString hdrawn).trans hversion
      rw [hsame _ payload hpayload hstored htext] at hstored
      rw [hpayload]
      exact hstored
    · rw [hpayload']
      exact World.put_files_same _ _ _
  | patch =>
    obtain ⟨payload, hpayload⟩ := Option.ne_none_iff_exists'.mp
      (mt hitem.gone.mp (by rw [← hitem.command, hcmd]; decide))
    rw [applyItem, hcmd] at h
    obtain ⟨-, doc, hstored, ⟨hversion, rfl⟩ | ⟨new, hnew, hw'⟩⟩ := applyPatch_ok h
    · rw [hsame _ payload hpayload hstored hversion] at hstored
      rw [hpayload]
      exact hstored
    · rw [hpayload] at hnew ⊢
      rcases hnew with hnew | ⟨hnone, -⟩
      · cases hnew
        exact hw'
      · cases hnone
  | delete =>
    rw [hitem.gone.mpr (by rw [← hitem.command, hcmd])]
    rw [applyItem, hcmd] at h
    cases hread : w.readFields (faults .readLive) (m.live item.collection item.id) with
    | ok existing => exact applyDelete_readable hread hid h
    | error err =>
      have habsent : w.files (m.live item.collection item.id) = none := by
        by_contra hheld
        refine hmiss ⟨hcmd, hheld, fun fields hfields => ?_⟩
        rw [hread] at hfields
        cases hfields
      have hkept := (applyDelete_unreadable host hread hid).2
      rw [h] at hkept
      exact hkept.trans habsent

/-- An acknowledged delivery leaves the member with the document of the source of truth, unless it
is a delete of a document the member does not read as an object. -/
theorem acknowledgement_sound_iff (hids : ∀ n, sourceHost.ids n ≠ "")
    {res : Result} (hcommit : (commit e req).run (exec sourceHost sourceFaults) s =
      (.ok (item, res), s')) (claims : Claims) (targetServer : String)
    (hunique : VersionsAgree (w.files (m.live item.collection item.id))
      (s'.files (e.live item.collection item.id))) :
    (((handleApplyDocumentWrite m claims targetServer item).run (exec host faults)
          w).1.acknowledges = true →
        ((handleApplyDocumentWrite m claims targetServer item).run (exec host faults) w).2.files
            (m.live item.collection item.id) = s'.files (e.live item.collection item.id)) ↔
      ¬ (m.LetsIn claims targetServer ∧ m.MissesDelete faults item w) := by
  have hitem := commit_item hcommit
  have hid : DocumentId item.id := hitem.id ▸ hitem.valid
  by_cases hin : m.LetsIn claims targetServer
  · rw [run_handleApply_in hin, applyAnswer_acknowledges]
    constructor
    · rintro hsound ⟨-, hcmd, hheld, hunread⟩
      have hread : ∃ err, w.readFields (faults .readLive) (m.live item.collection item.id) =
          .error err := by
        cases hread : w.readFields (faults .readLive) (m.live item.collection item.id) with
        | error err => exact ⟨err, rfl⟩
        | ok fields => exact absurd hread (hunread fields)
      obtain ⟨err, hread⟩ := hread
      obtain ⟨hanswer, hkept⟩ := applyDelete_unreadable host hread hid
      rw [applyItem, hcmd] at hsound
      have hlive := hitem.live
      rw [hitem.gone.mpr (by rw [← hitem.command, hcmd]), ← hitem.collection, ← hitem.id] at hlive
      exact hheld (hkept.symm.trans ((hsound hanswer).trans hlive))
    · intro hmiss hanswer
      exact applyItem_committed hids hitem hunique (fun h => hmiss ⟨hin, h⟩) (Prod.ext hanswer rfl)
  · rw [handleApply_out hin]
    exact ⟨fun _ h => hin h.1, fun _ h => by cases h⟩
end

inductive ApplyStep {μ : Type} (m : Engine) (host : Host μ) : World μ → World μ → Prop
  | delivered (faults : Faults) (item : WorkItem) (w : World μ) :
      ApplyStep m host w ((applyItem m.dataDir m.ojson item).run (exec host faults) w).2

namespace Sample
def member : Engine := { server with serverName := "beta", replicates := false }

def machine : Claims := ⟨.machine, "alpha"⟩

def committed (req : Request) (w : World Unit) : Option (WorkItem × World Unit) :=
  match (commit server req).run (exec host .none) w with
  | (.ok (item, _), w') => some (item, w')
  | _ => none

def delivered (faults : Faults) (item : WorkItem) (w : World Unit) : World Unit :=
  ((applyItem member.dataDir member.ojson item).run (exec host faults) w).2

def arrayItem : WorkItem :=
  { collection := "Movies", id := "alien", beforeVersion := "", afterVersion := "x",
    operationId := "x", command := .create, patch := [], payload := some (.arr []) }

def replica : World Unit :=
  ((committed createRequest emptyWorld).elim emptyWorld fun commit =>
    delivered .none commit.1 emptyWorld)

theorem committed_eq_some {req : Request} {w w' : World Unit} {item : WorkItem}
    (h : committed req w = some (item, w')) :
    ∃ res, (commit server req).run (exec host .none) w = (.ok (item, res), w') := by
  rw [committed] at h
  rcases hrun : (commit server req).run (exec host .none) w with ⟨_ | ⟨item', res⟩, w''⟩
  · rw [hrun] at h
    cases h
  · rw [hrun] at h
    cases h
    exact ⟨res, rfl⟩

def misses (faults : Faults) (w : World Unit) (item : WorkItem) : Bool :=
  ((handleApplyDocumentWrite member machine "beta" item).run (exec host faults) w).1.acknowledges &&
    (((handleApplyDocumentWrite member machine "beta" item).run (exec host faults) w).2.files
      (member.live item.collection item.id)).isSome

theorem applyStep_delivered (faults : Faults) (item : WorkItem) (w : World Unit) :
    Relation.ReflTransGen (ApplyStep member host) w (delivered faults item w) :=
  .single (.delivered faults item w)

theorem reach_replica : Relation.ReflTransGen (ApplyStep member host) emptyWorld replica := by
  rw [replica]
  cases committed createRequest emptyWorld with
  | none => exact .refl
  | some commit => exact applyStep_delivered _ _ _
end Sample
open Sample
theorem acknowledgement_sound_create :
    ∃ item res s', (commit server createRequest).run (exec host .none)
        emptyWorld = (.ok (item, res), s') ∧
      (((handleApplyDocumentWrite member machine "beta" item).run
          (exec host .none) emptyWorld).1.acknowledges = true →
        ((handleApplyDocumentWrite member machine "beta" item).run
          (exec host .none) emptyWorld).2.files (member.live item.collection item.id) =
          s'.files (server.live item.collection item.id)) := by
  have hsome : (committed createRequest emptyWorld).isSome = true := by
    decide +kernel
  obtain ⟨⟨item, s'⟩, hcommitted⟩ := Option.isSome_iff_exists.mp hsome
  obtain ⟨res, hrun⟩ := committed_eq_some hcommitted
  exact ⟨item, res, s', hrun, (acknowledgement_sound_iff host_ids_ne hrun _ _
    (by rw [emptyWorld]; trivial)).mpr fun h => h.2.2.1 rfl⟩

/-- A delete is acknowledged and the document stays. -/
theorem acknowledgement_unsound : Relation.ReflTransGen (ApplyStep member host) emptyWorld replica ∧
      Relation.ReflTransGen (ApplyStep member host) emptyWorld
        (delivered .none arrayItem emptyWorld) ∧
      ∃ item res s', (commit server (deleteRequest "v1")).run
          (exec host .none) (after createRequest emptyWorld) = (.ok (item, res), s') ∧
        s'.files (server.live item.collection item.id) = none ∧
        misses (fun site => site = .readLive) replica item = true ∧
        misses .none (delivered .none arrayItem emptyWorld) item =
          true := by
  refine ⟨reach_replica, applyStep_delivered _ _ _, ?_⟩
  have hmisses : (committed (deleteRequest "v1")
      (after createRequest emptyWorld)).any (fun commit =>
        (commit.2.files (server.live commit.1.collection commit.1.id)).isNone &&
        misses (fun site => site = .readLive) replica commit.1 &&
        misses .none (delivered .none arrayItem emptyWorld) commit.1) =
      true := by
    decide +kernel
  obtain ⟨⟨item, s'⟩, hcommitted, hfacts⟩ := (Option.any_eq_true _ _).mp hmisses
  simp only [Bool.and_eq_true, Option.isNone_iff_eq_none] at hfacts
  obtain ⟨res, hrun⟩ := committed_eq_some hcommitted
  exact ⟨item, res, s', hrun, hfacts.1.1, hfacts.1.2, hfacts.2⟩
end Datorium
