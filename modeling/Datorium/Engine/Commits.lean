
import Datorium.Engine.Handoff
namespace Datorium
open Framework Program World
def createCommitted (e : Engine) (req : Request) : Prog (Except Result (WorkItem × Result)) :=
  match createAdmission e req with
  | .error res => pure (.error res)
  | .ok schemaRaw => do
      match ← operationIdOr req with
      | .error err => pure (.error (req.fail (idGenerationFailed err)))
      | .ok operationId =>
        match createContent e req schemaRaw with
        | .error err => pure (.error (req.fail err))
        | .ok () =>
          match ← newId .version with
          | .error err => pure (.error (req.fail (idGenerationFailed err)))
          | .ok version =>
            let marker := e.cfg.currentSchemaMarker req.target
            match canonicalCreateDocument e.ojson schemaRaw req marker version with
            | .error err => pure (.error (req.fail (documentEncodeFailed err)))
            | .ok doc =>
              match ← locked (createLocal e req doc) with
              | .error err => pure (.error (req.fail err))
              | .ok () =>
                pure (.ok (createItem req operationId version doc,
                  createResponse req marker operationId version))

def lockedCommit (req : Request) (body : Prog (Except ApiError (WorkItem × Result))) :
    Prog (Except Result (WorkItem × Result)) := do
  match ← locked body with
  | .error err => pure (.error (req.fail err))
  | .ok committed => pure (.ok committed)

def patchCommitted (e : Engine) (req : Request) : Prog (Except Result (WorkItem × Result)) :=
  match patchAdmission e req with
  | .error res => pure (.error res)
  | .ok schemaRaw => lockedCommit req (patchLocal e req schemaRaw)

def deleteCommitted (e : Engine) (req : Request) : Prog (Except Result (WorkItem × Result)) :=
  match deleteAdmission e req with
  | .error res => pure (.error res)
  | .ok () => lockedCommit req (deleteLocal e req)

def commit (e : Engine) (req : Request) : Prog (Except Result (WorkItem × Result)) :=
  match req.command with
  | .create => createCommitted e req
  | .read => do
      let res ← read e req
      pure (.error res)
  | .patch => patchCommitted e req
  | .delete => deleteCommitted e req

def deliver (e : Engine) : Except Result (WorkItem × Result) → Prog Result
  | .error res => pure res
  | .ok committed => deliverOnce e committed.1 committed.2

theorem create_eq_committed (e : Engine) (req : Request) :
    create e req = (createCommitted e req).bind (deliver e) := by
  unfold create createCommitted
  cases createAdmission e req with
  | error res => rfl
  | ok schemaRaw =>
    simp only [bind_eq, bind_assoc]
    congr 1
    funext operationId
    cases operationId with
    | error err => rfl
    | ok operationId =>
      cases createContent e req schemaRaw with
      | error err => rfl
      | ok u =>
        simp only [bind_assoc]
        congr 1
        funext version
        cases version with
        | error err => rfl
        | ok version =>
          dsimp only
          cases canonicalCreateDocument e.ojson schemaRaw req
              (e.cfg.currentSchemaMarker req.target) version with
          | error err => rfl
          | ok doc =>
            simp only [bind_assoc]
            congr 1
            funext r
            cases r <;> rfl

theorem patch_eq_committed (e : Engine) (req : Request) :
    patch e req = (patchCommitted e req).bind (deliver e) := by
  unfold patch patchCommitted
  cases patchAdmission e req with
  | error res => rfl
  | ok schemaRaw =>
    simp only [lockedCommit, bind_eq, bind_assoc]
    congr 1
    funext r
    cases r <;> rfl

theorem delete_eq_committed (e : Engine) (req : Request) :
    delete e req = (deleteCommitted e req).bind (deliver e) := by
  unfold delete deleteCommitted
  cases deleteAdmission e req with
  | error res => rfl
  | ok u =>
    simp only [lockedCommit, bind_eq, bind_assoc]
    congr 1
    funext r
    cases r <;> rfl

structure CommittedItem {ν : Type} (e : Engine) (host : Host ν) (req : Request) (item : WorkItem)
    (w w' : World ν) : Prop where
  collection : item.collection = req.target
  id : item.id = req.parameter
  valid : DocumentId req.parameter
  command : item.command = req.command
  written : req.command ≠ .read
  live : w'.files (e.live req.target req.parameter) = item.payload.map File.json
  gone : item.payload = none ↔ req.command = .delete
  version : ∀ doc, item.payload = some doc → doc.get? "#" = some (.str item.afterVersion)
  drawn : req.command ≠ .delete → ∃ n, w.issued ≤ n ∧ n < w'.issued ∧ item.afterVersion = host.ids n

section
variable {ν : Type} {host : Host ν} {faults : Faults} {e : Engine} {req : Request} {w w' : World ν}
  {item : WorkItem} {res : Result}
variable {doc : Json} {coll docId : String} {committed : WorkItem × Result} {path : Path}
theorem createLocal_eq_ok (h : (createLocal e req doc).run (exec host faults) w = (.ok (), w')) :
    w' = (w.put (e.live req.target req.parameter) (some (.json doc))).put
      (queuePath e.dataDir .create req.target req.parameter) (some .marker) := by
  by_cases hr : CreateRefused e faults req w
  · rw [run_createLocal_refused hr] at h
    cases h
  by_cases hb : CreateBlocked faults
  · obtain ⟨err, herr⟩ := run_createLocal_blocked host doc hr hb
    rw [herr] at h
    cases h
  by_cases hu : CreateUnfinished faults doc
  · obtain ⟨err, herr⟩ := run_createLocal_unfinished host hr hb hu
    rw [herr] at h
    cases h
  rw [run_createLocal_ok hr hb hu] at h
  exact (Prod.mk.inj h).2.symm

theorem replaceDocument_eq_ok
    (h : (replaceDocument id e coll docId doc).run (exec host faults) w = (.ok (), w')) :
    w' = ((w.preserved e coll docId).put (e.live coll docId) (some (.json doc))).put
      (queuePath e.dataDir .patch coll docId) (some .marker) := by
  by_cases hb : PreserveBlocked e id faults coll docId w
  · obtain ⟨err, herr⟩ := run_replaceDocument_blocked host doc hb
    rw [herr] at h
    cases h
  by_cases hw : ∃ step, faults (id (.write step)) = true
  · obtain ⟨err, herr⟩ := run_replaceDocument_unwritten host doc hb hw
    rw [herr] at h
    cases h
  by_cases hu : Unverifiable faults id doc ∨ QueueFails faults id
  · obtain ⟨err, herr⟩ := run_replaceDocument_unfinished host hb hw hu
    rw [herr] at h
    cases h
  rw [run_replaceDocument_ok hb hw hu] at h
  exact (Prod.mk.inj h).2.symm

theorem deleteCommit_eq_ok {operationId : String} (hid : DocumentId req.parameter)
    (h : (deleteCommit e req operationId).run (exec host faults) w = (.ok committed, w')) :
    committed = (deleteItem req operationId, deleteResponse req operationId) ∧
      w' = (w.deleted e faults req).put (queuePath e.dataDir .delete req.target req.parameter)
        (some .marker) := by
  cases hlive : w.files (e.live req.target req.parameter) with
  | none =>
    obtain ⟨err, herr⟩ := run_deleteCommit_blocked host operationId (.inr hlive)
    rw [herr] at h
    cases h
  | some file =>
    cases hm : faults .softDeleteMove with
    | true =>
      obtain ⟨err, herr⟩ := run_deleteCommit_blocked host operationId (.inl hm)
      rw [herr] at h
      cases h
    | false =>
      by_cases hu : DeleteUnfinished faults
      · obtain ⟨err, w'', herr, -⟩ :=
          run_deleteCommit_unfinished host operationId hid hm hlive hu
        rw [herr] at h
        cases h
      rw [run_deleteCommit_ok hm hlive hu] at h
      cases h
      exact ⟨rfl, rfl⟩

theorem createCommitted_ok
    (h : (createCommitted e req).run (exec host faults) w = (.ok (item, res), w')) :
    ∃ schemaRaw doc, CreateReady e host faults req w schemaRaw doc ∧
      item = createItem req (req.operationIdIn host w) (req.createVersion host w) doc ∧
      (createLocal e req doc).run (exec host faults) (w.tick (req.operationIdDraws + 1)) =
        (.ok (), w') := by
  unfold createCommitted at h
  cases hadm : createAdmission e req with
  | error res => simp [hadm] at h
  | ok schemaRaw =>
    by_cases hop : req.operationId = "" → faults .operationId = false
    swap
    · simp [hadm, run_operationIdOr_error hop] at h
    simp only [hadm, bind_eq, run_bind, run_operationIdOr_ok hop] at h
    cases hcon : createContent e req schemaRaw with
    | error err => simp [hcon] at h
    | ok u =>
      cases hver : faults .version with
      | true => simp [hcon, hver] at h
      | false =>
        simp only [hcon, run_bind, run_newId_ok hver, tick_issued, tick_tick] at h
        cases hdoc : canonicalCreateDocument e.ojson schemaRaw req
            (e.cfg.currentSchemaMarker req.target)
            (host.ids (w.issued + req.operationIdDraws)) with
        | error err => simp [hdoc] at h
        | ok doc =>
          simp only [hdoc, run_bind, run_locked] at h
          rcases hlocal : (createLocal e req doc).run (exec host faults)
              (w.tick (req.operationIdDraws + 1)) with ⟨r, t⟩
          rw [hlocal] at h
          cases r with
          | error err => cases h
          | ok u =>
            cases h
            exact ⟨schemaRaw, doc, ⟨hadm, hop, hcon, hver, hdoc⟩, rfl, hlocal⟩

theorem lockedCommit_ok {body : Prog (Except ApiError (WorkItem × Result))}
    (h : (lockedCommit req body).run (exec host faults) w = (.ok committed, w')) :
    body.run (exec host faults) w = (.ok committed, w') := by
  simp only [lockedCommit, bind_eq, run_bind, run_locked] at h
  rcases hbody : body.run (exec host faults) w with ⟨r, t⟩
  rw [hbody] at h
  cases r with
  | error err => cases h
  | ok committed' =>
    cases h
    rfl

theorem patchLocal_ok {schemaRaw : Json} (hadm : patchAdmission e req = .ok schemaRaw)
    (h : (patchLocal e req schemaRaw).run (exec host faults) w = (.ok committed, w')) :
    ∃ old new ops, PatchReady e host faults req w schemaRaw old new ops ∧
      committed.1 = patchItem req (req.patchOperationId host w) (host.ids w.issued) ops new ∧
      (replaceDocument id e req.target req.parameter new).run (exec host faults)
        (w.tick (1 + req.operationIdDraws)) = (.ok (), w') := by
  simp only [patchLocal, bind_eq, run_bind, run_readDocumentValue] at h
  cases hread : w.readValue (faults .readLive) (e.live req.target req.parameter) with
  | error err =>
    rw [hread] at h
    cases h
  | ok old =>
    obtain ⟨hrf, hstored⟩ := readValue_eq_ok.mp hread
    simp only [hread] at h
    rcases @patchStored_cases ν host faults e req w schemaRaw old with
      hidle | ⟨hguard, hver, hop, po, pd, st, ops, new, hres, hstamp, henc⟩
    · obtain ⟨⟨err, herr⟩, -⟩ := hidle.2
      rw [h] at herr
      cases herr
    · simp only [patchStored, hguard, hres, bind_eq, run_bind, run_newId_ok hver,
        hstamp, run_operationIdOr_ok hop, patchCommit, henc, tick_tick] at h
      rcases hreplace : (replaceDocument id e req.target req.parameter new).run
          (exec host faults) (w.tick (1 + req.operationIdDraws)) with ⟨r, t⟩
      rw [hreplace] at h
      cases r with
      | error err => cases h
      | ok u =>
        cases h
        exact ⟨old, new, ops,
          ⟨hadm, hrf, hstored, hguard, hver, hop, po, pd, st, hres, hstamp, henc⟩, rfl,
          hreplace⟩

theorem deleteLocal_ok (hid : DocumentId req.parameter)
    (h : (deleteLocal e req).run (exec host faults) w = (.ok committed, w')) :
    ∃ operationId n, committed.1 = deleteItem req operationId ∧
      w' = ((w.tick n).deleted e faults req).put
        (queuePath e.dataDir .delete req.target req.parameter) (some .marker) := by
  simp only [deleteLocal, bind_eq, run_bind, run_readDocumentJSON] at h
  cases hread : w.readFields (faults .readLive) (e.live req.target req.parameter) with
  | error err =>
    rw [hread] at h
    cases h
  | ok old =>
    simp only [hread] at h
    cases hguard : deleteGuard req old with
    | error err =>
      rw [hguard] at h
      cases h
    | ok u =>
      by_cases hop : req.operationId = "" → faults .operationId = false
      swap
      · simp [hguard, run_operationIdOr_error hop] at h
      simp only [hguard, run_bind, run_operationIdOr_ok hop] at h
      obtain ⟨rfl, hw'⟩ := deleteCommit_eq_ok hid h
      exact ⟨_, _, rfl, hw'⟩

theorem createCommitted_item
    (h : (createCommitted e req).run (exec host faults) w = (.ok (item, res), w'))
    (hcmd : req.command = .create) : CommittedItem e host req item w w' := by
  obtain ⟨schemaRaw, doc, hready, rfl, hlocal⟩ := createCommitted_ok h
  obtain ⟨hraw, hid⟩ := createAdmission_ok hready.admitted
  have hc := configured_of_schema hraw
  have hw' := createLocal_eq_ok hlocal
  have hlive : e.LivePath (e.live req.target req.parameter) := ⟨_, _, hc, hid, rfl⟩
  refine ⟨rfl, rfl, hid, hcmd.symm, by simp [hcmd], ?_, ?_, ?_, fun _ => ?_⟩
  · rw [hw', put_files_other _ (e.queuePath_not_live hc hid hlive _).symm, put_files_same]
    rfl
  · simp [createItem, hcmd]
  · intro doc' hdoc'
    cases hdoc'
    exact hready.stamped.2.2.1
  · refine ⟨w.issued + req.operationIdDraws, Nat.le_add_right _ _, ?_, rfl⟩
    rw [hw']
    simp

theorem patchCommitted_item
    (h : (patchCommitted e req).run (exec host faults) w = (.ok (item, res), w'))
    (hcmd : req.command = .patch) : CommittedItem e host req item w w' := by
  unfold patchCommitted at h
  cases hadm : patchAdmission e req with
  | error res => simp [hadm] at h
  | ok schemaRaw =>
    rw [hadm] at h
    obtain ⟨old, new, ops, hready, hitem, hreplace⟩ := patchLocal_ok hadm (lockedCommit_ok h)
    subst hitem
    obtain ⟨hraw, hid⟩ := patchAdmission_ok hready.admitted
    have hc := configured_of_schema hraw
    have hw' := replaceDocument_eq_ok hreplace
    have hlive : e.LivePath (e.live req.target req.parameter) := ⟨_, _, hc, hid, rfl⟩
    refine ⟨rfl, rfl, hid, hcmd.symm, by simp [hcmd], ?_, ?_, ?_, fun _ => ?_⟩
    · rw [hw', put_files_other _ (e.queuePath_not_live hc hid hlive _).symm, put_files_same]
      rfl
    · simp [patchItem, hcmd]
    · intro doc' hdoc'
      cases hdoc'
      exact hready.stamped.2.2.1
    · refine ⟨w.issued, Nat.le_refl _, ?_, rfl⟩
      have hissued : ∀ t : World ν, (t.preserved e req.target req.parameter).issued = t.issued := by
        intro t
        unfold preserved
        split <;> rfl
      rw [hw', put_issued, put_issued, hissued]
      change w.issued < w.issued + (1 + req.operationIdDraws)
      omega

theorem queuePath_ne_live (hid : DocumentId req.parameter) (change : Command) :
    queuePath e.dataDir change req.target req.parameter ≠ e.live req.target req.parameter := by
  have hname : queueBaseName change req.target req.parameter ++ ".queue" =
      change.text ++ "__" ++ req.target ++ "__" ++ (req.parameter ++ ".queue") := by
    rw [queueBaseName, String.append_assoc]
  obtain ⟨dir, pre, hqueue⟩ := Path.join_append_last (changeQueueDir e.dataDir req.target)
    (change.text ++ "__" ++ req.target ++ "__") (t := req.parameter ++ ".queue")
    (by simp [hid.noSlash]) (by rw [String.length_append]; exact Nat.lt_add_left _ (by decide))
  rw [queuePath, hname, hqueue, Engine.live, documentPath_eq_join hid]
  intro heq
  have hlast := congrArg (fun p : Path => p.getLast?.map fun s => s.toList.getLast?) heq
  simp at hlast

theorem deleteCommitted_item
    (h : (deleteCommitted e req).run (exec host faults) w = (.ok (item, res), w'))
    (hcmd : req.command = .delete) : CommittedItem e host req item w w' := by
  unfold deleteCommitted at h
  cases hadm : deleteAdmission e req with
  | error res => simp [hadm] at h
  | ok u =>
    rw [hadm] at h
    have hid := deleteAdmission_ok hadm
    obtain ⟨operationId, n, hitem, hw'⟩ := deleteLocal_ok hid (lockedCommit_ok h)
    subst hitem
    refine ⟨rfl, rfl, hid, hcmd.symm, by simp [hcmd], ?_, ?_, ?_, fun hne => absurd hcmd hne⟩
    · rw [hw', put_files_other _ (queuePath_ne_live hid .delete).symm]
      exact deleted_own_live hid
    · simp [deleteItem, hcmd]
    · intro doc hdoc
      cases hdoc

theorem commit_item (h : (commit e req).run (exec host faults) w = (.ok (item, res), w')) :
    CommittedItem e host req item w w' := by
  unfold commit at h
  cases hcmd : req.command with
  | create =>
    rw [hcmd] at h
    exact createCommitted_item h hcmd
  | read => simp [hcmd] at h
  | patch =>
    rw [hcmd] at h
    exact patchCommitted_item h hcmd
  | delete =>
    rw [hcmd] at h
    exact deleteCommitted_item h hcmd

structure Apart (e : Engine) (collection docId : String) (path : Path) : Prop where
  live : path ≠ e.live collection docId
  previous : path ≠ e.previous collection docId
  manifest : path ≠ filesManifestPath e.dataDir collection docId
  lfs : ¬ lfsDir e.dataDir collection docId <+: path
  fileOps : ¬ fileOpsDir e.dataDir collection docId <+: path
  queue : ∀ change, path ≠ queuePath e.dataDir change collection docId

theorem Apart.preserved (hp : Apart e coll docId path) :
    (w.preserved e coll docId).files path = w.files path := by
  unfold World.preserved
  split
  · exact move_files_other _ hp.live hp.previous
  · rfl

theorem Apart.deleted (hp : Apart e req.target req.parameter path) :
    (w.deleted e faults req).files path = w.files path :=
  (deleted_files hp.manifest hp.lfs hp.fileOps).trans (vacate_files hp.live hp.previous _)

theorem commit_frame (hp : Apart e req.target req.parameter path)
    (h : (commit e req).run (exec host faults) w = (.ok (item, res), w')) :
    w'.files path = w.files path := by
  unfold commit at h
  cases hcmd : req.command with
  | create =>
    rw [hcmd] at h
    obtain ⟨schemaRaw, doc, -, -, hlocal⟩ := createCommitted_ok h
    rw [createLocal_eq_ok hlocal, put_files_other _ (hp.queue _), put_files_other _ hp.live]
    rfl
  | read => simp [hcmd] at h
  | patch =>
    simp only [hcmd, patchCommitted] at h
    cases hadm : patchAdmission e req with
    | error res => simp [hadm] at h
    | ok schemaRaw =>
      rw [hadm] at h
      obtain ⟨old, new, ops, -, -, hreplace⟩ := patchLocal_ok hadm (lockedCommit_ok h)
      rw [replaceDocument_eq_ok hreplace, put_files_other _ (hp.queue _), put_files_other _ hp.live]
      exact hp.preserved
  | delete =>
    simp only [hcmd, deleteCommitted] at h
    cases hadm : deleteAdmission e req with
    | error res => simp [hadm] at h
    | ok u =>
      rw [hadm] at h
      obtain ⟨operationId, n, -, hw'⟩ :=
        deleteLocal_ok (deleteAdmission_ok hadm) (lockedCommit_ok h)
      rw [hw', put_files_other _ (hp.queue _)]
      exact hp.deleted

theorem run_createCommitted_ready {schemaRaw : Json}
    (h : CreateReady e host faults req w schemaRaw doc) :
    (createCommitted e req).run (exec host faults) w =
      match (createLocal e req doc).run (exec host faults) (w.tick (req.operationIdDraws + 1)) with
      | (.error err, t) => (.error (req.fail err), t)
      | (.ok (), t) =>
        (.ok (createItem req (req.operationIdIn host w) (req.createVersion host w) doc,
          createResponse req (e.cfg.currentSchemaMarker req.target) (req.operationIdIn host w)
            (req.createVersion host w)), t) := by
  simp only [createCommitted, h.admitted, bind_eq, run_bind,
    run_operationIdOr_ok h.operationId, h.content, run_newId_ok h.version, tick_issued,
    h.encoded, tick_tick, run_locked]
  rcases (createLocal e req doc).run (exec host faults) _ with ⟨r, t⟩
  cases r <;> rfl

theorem createCommitted_refused (h : (createCommitted e req).run (exec host .none) w =
    (.error res, w')) : ∃ n, w' = w.tick n := by
  by_cases hready : ∃ schemaRaw doc, CreateReady e host .none req w schemaRaw doc
  · obtain ⟨schemaRaw, doc, hready⟩ := hready
    rw [run_createCommitted_ready hready] at h
    by_cases hr : CreateRefused e .none req (w.tick (req.operationIdDraws + 1))
    · rw [run_createLocal_refused hr] at h
      cases h
      exact ⟨_, rfl⟩
    · have hblocked : ¬ CreateBlocked .none := by simp [CreateBlocked]
      have hfinished : ¬ CreateUnfinished .none doc := by
        simp [CreateUnfinished, not_unverifiable_none, not_queueFails_none]
      rw [run_createLocal_ok hr hblocked hfinished] at h
      cases h
  · have hidle : Idle host .none (fun res : Result => res.ok = false) (create e req) w :=
      idle_create (by simpa using hready)
    obtain ⟨_, n, hrun, -⟩ := hidle.run
    rw [create_eq_committed, run_bind, h] at hrun
    cases hrun
    exact ⟨n, rfl⟩

theorem patchCommitted_refused (h : (patchCommitted e req).run (exec host .none) w =
    (.error res, w')) : ∃ n, w' = w.tick n := by
  by_cases hready : ∃ schemaRaw old new ops, PatchReady e host .none req w schemaRaw old new ops
  · obtain ⟨schemaRaw, old, new, ops, hready⟩ := hready
    obtain ⟨patchOps, patched, stamped, hres, hstamp, henc⟩ := hready.encoded
    have hread : w.readValue false (e.live req.target req.parameter) = .ok old :=
      readValue_eq_ok.mpr ⟨rfl, hready.stored⟩
    simp only [patchCommitted, hready.admitted, lockedCommit, bind_eq, run_bind,
      run_locked, patchLocal, run_readDocumentValue, hready.read, hread, patchStored,
      hready.guard, hres, run_newId_ok hready.version, hstamp,
      run_operationIdOr_ok hready.operationId, patchCommit, henc, tick_tick,
      hready.replaced] at h
    cases h
  · have hidle : Idle host .none (fun res : Result => res.ok = false) (patch e req) w :=
      idle_patch (by simpa using hready)
    obtain ⟨_, n, hrun, -⟩ := hidle.run
    rw [patch_eq_committed, run_bind, h] at hrun
    cases hrun
    exact ⟨n, rfl⟩

theorem deleteCommitted_refused (h : (deleteCommitted e req).run (exec host .none) w =
    (.error res, w')) : ∃ n, w' = w.tick n := by
  by_cases hready : ∃ old, DeleteReady e .none req w old
  · obtain ⟨old, hready⟩ := hready
    have hread : w.readFields false (e.live req.target req.parameter) = .ok old :=
      readFields_eq_ok.mpr ⟨rfl, hready.stored⟩
    have hfinished : ¬ DeleteUnfinished .none := by
      simp [DeleteUnfinished, not_queueFails_none]
    have hcommit : (deleteCommit e req (req.operationIdIn host w)).run (exec host .none)
        (w.tick req.operationIdDraws) = (.ok _, _) :=
      run_deleteCommit_ok rfl hready.stored hfinished
    simp only [deleteCommitted, hready.admitted, lockedCommit, bind_eq, run_bind,
      run_locked, deleteLocal, run_readDocumentJSON, hready.read, hread, hready.guard,
      run_operationIdOr_ok hready.operationId, hcommit] at h
    cases h
  · have hidle : Idle host .none (fun res : Result => res.ok = false) (delete e req) w :=
      idle_delete (by simpa using hready)
    obtain ⟨_, n, hrun, -⟩ := hidle.run
    rw [delete_eq_committed, run_bind, h] at hrun
    cases hrun
    exact ⟨n, rfl⟩

theorem commit_draws (hcmd : req.command ≠ .read)
    (h : (commit e req).run (exec host .none) w = (.error res, w')) : ∃ n, w' = w.tick n := by
  unfold commit at h
  cases hc : req.command with
  | create =>
    rw [hc] at h
    exact createCommitted_refused h
  | read => exact absurd hc hcmd
  | patch =>
    rw [hc] at h
    exact patchCommitted_refused h
  | delete =>
    rw [hc] at h
    exact deleteCommitted_refused h

theorem commit_refused (hcmd : req.command ≠ .read)
    (h : (commit e req).run (exec host .none) w = (.error res, w')) : w'.files = w.files := by
  obtain ⟨n, rfl⟩ := commit_draws hcmd h
  rfl

theorem vacate_previous {live prev : Path} (hne : prev ≠ live) :
    (w.vacate live prev false).files prev = (w.files prev).or (w.files live) := by
  unfold vacate
  cases hp : w.files prev with
  | none =>
    rw [if_neg (fun h => h.2 rfl), move, put_files_same, Option.none_or]
  | some file =>
    rw [if_pos ⟨rfl, Option.some_ne_none _⟩, put_files_other _ hne, hp, Option.some_or]

theorem preserved_previous : (w.preserved e coll docId).files (e.previous coll docId) =
      (w.files (e.previous coll docId)).or (w.files (e.live coll docId)) := by
  unfold preserved
  cases hp : w.files (e.previous coll docId) with
  | none => rw [if_pos rfl, move, put_files_same, Option.none_or]
  | some file => rw [if_neg (Option.some_ne_none _), hp, Option.some_or]

theorem commit_preserves (hc : e.cfg.Configured req.target)
    (h : (commit e req).run (exec host .none) w = (.ok (item, res), w')) :
    w'.files (e.previous req.target req.parameter) =
        (w.files (e.previous req.target req.parameter)).or
          (w.files (e.live req.target req.parameter)) ∧
      w'.files (queuePath e.dataDir req.command req.target req.parameter) ≠ none := by
  have hid := (commit_item h).valid
  have hqueue : ∀ change, e.previous req.target req.parameter ≠
      queuePath e.dataDir change req.target req.parameter := by
    intro change
    have hwatched : e.Watched req.target req.parameter
      (queuePath e.dataDir change req.target req.parameter) := .queue change
    exact hwatched.ne_previous hc hid hc hid
  have hlive : e.previous req.target req.parameter ≠ e.live req.target req.parameter :=
    e.previous_not_live hc hid ⟨_, _, hc, hid, rfl⟩
  unfold commit at h
  cases hcmd : req.command with
  | create =>
    rw [hcmd] at h
    obtain ⟨schemaRaw, doc, -, -, hlocal⟩ := createCommitted_ok h
    have hfresh : w.files (e.live req.target req.parameter) = none := by
      by_contra hexists
      have hrefused : CreateRefused e .none req (w.tick (req.operationIdDraws + 1)) :=
        ⟨rfl, hexists⟩
      rw [run_createLocal_refused hrefused] at hlocal
      cases hlocal
    rw [createLocal_eq_ok hlocal]
    refine ⟨?_, ?_⟩
    · rw [put_files_other _ (hqueue _), put_files_other _ hlive, hfresh, Option.or_none]
      rfl
    · rw [put_files_same]
      exact Option.some_ne_none _
  | read => simp [hcmd] at h
  | patch =>
    simp only [hcmd, patchCommitted] at h
    cases hadm : patchAdmission e req with
    | error res => simp [hadm] at h
    | ok schemaRaw =>
      rw [hadm] at h
      obtain ⟨old, new, ops, -, -, hreplace⟩ := patchLocal_ok hadm (lockedCommit_ok h)
      rw [replaceDocument_eq_ok hreplace]
      refine ⟨?_, ?_⟩
      · rw [put_files_other _ (hqueue _), put_files_other _ hlive, preserved_previous]
        rfl
      · rw [put_files_same]
        exact Option.some_ne_none _
  | delete =>
    simp only [hcmd, deleteCommitted] at h
    cases hadm : deleteAdmission e req with
    | error res => simp [hadm] at h
    | ok u =>
      rw [hadm] at h
      obtain ⟨operationId, n, -, hw'⟩ :=
        deleteLocal_ok (deleteAdmission_ok hadm) (lockedCommit_ok h)
      rw [hw']
      refine ⟨?_, ?_⟩
      · have hplain := e.cfg.plainNames _ hc
        have hmanifest : e.previous req.target req.parameter ≠
            filesManifestPath e.dataDir req.target req.parameter := by
          rw [e.previous_eq hc hid, filesManifestPath_eq hplain hid]
          intro heq
          simp only [List.append_cancel_left_eq, List.cons.injEq, and_true, true_and] at heq
          exact live_name_ne_manifest_name ("." ++ req.parameter) req.parameter heq
        rw [put_files_other _ (hqueue _), deleted_files hmanifest ?_ ?_]
        · exact vacate_previous hlive
        · rw [e.previous_eq hc hid, lfsDir_eq hplain hid]
          simp
        · rw [e.previous_eq hc hid, fileOpsDir_eq hplain hid]
          simp
      · rw [put_files_same]
        exact Option.some_ne_none _

theorem vacate_outside {live prev : Path} {keep : Bool} :
    (w.vacate live prev keep).outside = w.outside := by
  unfold vacate
  split <;> rfl

theorem commit_outside (h : (commit e req).run (exec host faults) w = (.ok (item, res), w')) :
    w'.outside = w.outside := by
  unfold commit at h
  cases hcmd : req.command with
  | create =>
    rw [hcmd] at h
    obtain ⟨schemaRaw, doc, -, -, hlocal⟩ := createCommitted_ok h
    rw [createLocal_eq_ok hlocal]
    rfl
  | read => simp [hcmd] at h
  | patch =>
    simp only [hcmd, patchCommitted] at h
    cases hadm : patchAdmission e req with
    | error res => simp [hadm] at h
    | ok schemaRaw =>
      rw [hadm] at h
      obtain ⟨old, new, ops, -, -, hreplace⟩ := patchLocal_ok hadm (lockedCommit_ok h)
      rw [replaceDocument_eq_ok hreplace, put_outside, put_outside, preserved_outside]
      rfl
  | delete =>
    simp only [hcmd, deleteCommitted] at h
    cases hadm : deleteAdmission e req with
    | error res => simp [hadm] at h
    | ok u =>
      rw [hadm] at h
      obtain ⟨operationId, n, -, hw'⟩ :=
        deleteLocal_ok (deleteAdmission_ok hadm) (lockedCommit_ok h)
      rw [hw', put_outside]
      simp only [deleted, prune_outside, put_outside, vacate_outside]
      rfl

theorem Engine.Watched.apart {coll' docId' : String} (hc : e.cfg.Configured coll)
    (hid : DocumentId docId) (hc' : e.cfg.Configured coll') (hid' : DocumentId docId')
    (h : e.Watched coll' docId' path) (hne : (coll', docId') ≠ (coll, docId)) :
    Apart e coll docId path := by
  obtain ⟨hlfs, hops⟩ := h.not_attachment hc hid hc' hid'
  exact ⟨(h.ne_live hc hid hc' hid' hne).symm, (h.ne_previous hc hid hc' hid').symm,
    (h.ne_manifest hc hid hc' hid').symm, hlfs, hops,
    fun change => (h.ne_queue hc hid hc' hid' hne change).symm⟩
end
end Datorium
