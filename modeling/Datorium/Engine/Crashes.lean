
import Datorium.Engine.Frames
/-!
# What a crash leaves behind

A process dies before the first change of a write, during its atomic write, between the change of
the live document and its queue entry, or in the delivery after it.
-/
namespace Datorium
open Framework Program
section
variable {ν : Type} {host : Host ν} {e : Engine} {req : Request} {w : World ν}
  {crash : Stage → World ν → Prop}
def atStage (crash : Stage → World ν → Prop) (op : Op) (t : World ν) : Prop :=
  crash op.site.stage t

def KeepsStage (place : Site → Site) : Prop := ∀ site, (place site).stage = site.stage

theorem keepsStage_id : KeepsStage id := fun _ => rfl

theorem keepsStage_migration : KeepsStage .migration := fun _ => rfl

variable {post : Except FsError Unit → World ν → Prop} {place : Site → Site} {doc : Json}
  {coll : String} {schemaRaw : Json} {old : JsonFields} {new : Json}
theorem ensures_writeFileAtomic {site : WriteStep → Site} {path : Path} {data : File}
    (hc : ∀ step, crash (site step).stage w) (hpost : post (.ok ()) (w.put path (some data))) :
    (writeFileAtomic site path data).Ensures (exec host .none) (atStage crash) post w := by
  simpa [writeFileAtomic, prepareSteps, prepareFile, atStage, hc] using hpost

theorem ensures_writeDocumentJSONVerified (hplace : KeepsStage place) {path : Path}
    (hw : crash .writing w) (hv : crash .committing (w.put path (some (.json doc))))
    (hpost : post (.ok ()) (w.put path (some (.json doc)))) :
    (writeDocumentJSONVerified place path doc).Ensures (exec host .none) (atStage crash) post w := by
  have hread : (w.put path (some (.json doc))).readValue false path = .ok doc :=
    readValue_eq_ok.mpr ⟨rfl, World.put_files_same _ _ _⟩
  simp only [writeDocumentJSONVerified, bind_eq, ensures_bind]
  refine ensures_writeFileAtomic (fun step => by rw [hplace]; exact hw) ?_
  by_cases hver : documentVersion doc = ""
  · simpa [hver] using hpost
  · have hsite : crash (place (.verify 0)).stage (w.put path (some (.json doc))) := by
      rw [hplace]
      exact hv
    have hdoc : Json.text (doc.get? "#") = documentVersion doc := rfl
    simp [hver, verifyCount, List.range_succ, verifyAttempts, verifyDocumentVersion, hread,
      atStage, hsite, hdoc, hpost]

theorem ensures_enqueueChange (hplace : KeepsStage place) {dataDir : Path} {id : String}
    {change : Command} (hc : crash .committing w)
    (hpost : post (.ok ()) (w.put (queuePath dataDir change coll id) (some .marker))) :
    (enqueueChange place dataDir coll id change).Ensures (exec host .none) (atStage crash)
      post w := by
  have hdir : crash (place .queueDir).stage w := by rwa [hplace]
  simpa [enqueueChange, atStage, hdir] using
    ensures_writeFileAtomic (fun step => by rwa [hplace]) hpost

theorem ensures_preserve (hplace : KeepsStage place) {id : String}
    (hlive : w.files (e.live coll id) ≠ none) (hc : crash .deciding w)
    (hpost : post (.ok ()) (w.preserved e coll id)) :
    (preservePreviousIfAbsent place e.dataDir coll id).Ensures (exec host .none)
      (atStage crash) post w := by
  have hstage : ∀ site, (place site).stage = site.stage := hplace
  obtain ⟨file, hfile⟩ := Option.ne_none_iff_exists'.mp hlive
  rw [Engine.live] at hfile
  unfold World.preserved Engine.previous Engine.live at hpost
  cases hp : w.files (previousDocumentPath e.dataDir coll id) with
  | none =>
    rw [if_pos hp] at hpost
    simp [preservePreviousIfAbsent, atStage, hstage, Site.stage, hc, hp, hfile, FsError.isNotExist, hpost]
  | some prev =>
    rw [if_neg (by simp [hp])] at hpost
    simp [preservePreviousIfAbsent, atStage, hstage, Site.stage, hc, hp, hpost]

theorem ensures_replaceDocument (hplace : KeepsStage place) {id : String}
    {post : Except CommitError Unit → World ν → Prop} (hlive : w.files (e.live coll id) ≠ none)
    (hdeciding : crash .deciding w) (hwriting : crash .writing (w.preserved e coll id))
    (hcommitting : crash .committing
      ((w.preserved e coll id).put (e.live coll id) (some (.json doc))))
    (hpost : post (.ok ()) (((w.preserved e coll id).put (e.live coll id)
      (some (.json doc))).put (queuePath e.dataDir .patch coll id) (some .marker))) :
    (replaceDocument place e coll id doc).Ensures (exec host .none) (atStage crash) post w := by
  simp only [replaceDocument, bind_eq, ensures_bind]
  refine ensures_preserve hplace hlive hdeciding ?_
  simp only [ensures_bind]
  refine ensures_writeDocumentJSONVerified hplace hwriting hcommitting ?_
  simp only [ensures_bind]
  exact ensures_enqueueChange hplace hcommitting (by simpa using hpost)

theorem ensures_create_ready {post : Result → World ν → Prop}
    (h : CreateReady e host .none req w schemaRaw doc) (hr : ¬ CreateRefused e .none req w)
    (hidle : ∀ stage t, stage ∈ [.deciding, .writing] → w.Drawn t → crash stage t)
    (hcommitting : crash .committing ((w.tick (req.operationIdDraws + 1)).put
      (e.live req.target req.parameter) (some (.json doc))))
    (hdelivering : ∀ w', w' = ((w.tick (req.operationIdDraws + 1)).put
        (e.live req.target req.parameter) (some (.json doc))).put
        (queuePath e.dataDir .create req.target req.parameter) (some .marker) →
      crash .delivering w' ∧
        (deliverOnce e (createItem req (req.operationIdIn host w) (req.createVersion host w) doc)
          (createResponse req (e.cfg.currentSchemaMarker req.target) (req.operationIdIn host w)
            (req.createVersion host w))).Ensures (exec host .none) (atStage crash) post w') :
    (create e req).Ensures (exec host .none) (atStage crash) post w := by
  have hdraw : ∀ t, w.Drawn t → crash .deciding t := fun t => hidle _ t (by simp)
  have hop : ∀ site t, site.stage = .deciding → w.Drawn t → ∀ call, atStage crash ⟨site, call⟩ t :=
    fun site t hsite ht _ => by rw [atStage, hsite]; exact hdraw t ht
  have hnone : w.files (e.live req.target req.parameter) = none := by
    simpa [CreateRefused] using hr
  simp only [create, h.admitted, bind_eq, ensures_bind, ensures_operationIdOr,
    run_operationIdOr_ok h.operationId, h.content, ensures_newId, run_newId_ok h.version,
    World.tick_issued, h.encoded, World.tick_tick, ensures_locked]
  refine ⟨fun _ => hop _ _ rfl (by simp) _, hop _ _ rfl (by simp) _, hop _ _ rfl (by simp) _, ?_⟩
  simp only [createLocal, createWrite, ensureCollectionDir, bind_eq, ensures_bind,
    ensures_stat, run_stat, World.tick_files, hnone, Faults.none_apply, Bool.false_eq_true,
    if_false, ensures_mkdirAll, run_mkdirAll]
  refine ⟨hop _ _ rfl (by simp) _, hop _ _ rfl (by simp) _, ?_⟩
  refine ensures_writeDocumentJSONVerified keepsStage_id (hidle _ _ (by simp) (by simp))
    hcommitting ?_
  simp only [ensures_bind]
  refine ensures_enqueueChange keepsStage_id hcommitting ?_
  simp only [ensures_done, pure_eq]
  exact hdelivering _ rfl

theorem idle_create_refused (h : CreateReady e host .none req w schemaRaw doc)
    (hr : CreateRefused e .none req w) :
    Idle host .none (fun res => res.ok = false) (create e req) w := by
  obtain ⟨file, hfile⟩ := Option.ne_none_iff_exists'.mp hr.2
  simp [Idle, create, h.admitted, run_operationIdOr_ok h.operationId, h.content,
    run_newId_ok h.version, h.encoded, createLocal, hfile]

theorem ensures_patch_ready {old : Json} {ops : List JsonFields} {post : Result → World ν → Prop}
    (h : PatchReady e host .none req w schemaRaw old new ops) {w₁ : World ν}
    (hw₁ : w₁ = w.tick (1 + req.operationIdDraws)) (hidle : ∀ t, w.Drawn t → crash .deciding t)
    (hwriting : crash .writing (w₁.preserved e req.target req.parameter))
    (hcommitting : crash .committing ((w₁.preserved e req.target req.parameter).put
      (e.live req.target req.parameter) (some (.json new))))
    (hdelivering : ∀ w', w' = ((w₁.preserved e req.target req.parameter).put
        (e.live req.target req.parameter) (some (.json new))).put
        (queuePath e.dataDir .patch req.target req.parameter) (some .marker) →
      crash .delivering w' ∧
        (deliverOnce e (patchItem req (req.patchOperationId host w) (host.ids w.issued) ops new)
          (patchResponse req (e.cfg.currentSchemaMarker req.target)
            (req.patchOperationId host w) (host.ids w.issued))).Ensures (exec host .none)
              (atStage crash) post w') :
    (patch e req).Ensures (exec host .none) (atStage crash) post w := by
  subst hw₁
  obtain ⟨patchOps, patched, stamped, hres, hstamp, henc⟩ := h.encoded
  have hread : w.readValue false (e.live req.target req.parameter) = .ok old :=
    readValue_eq_ok.mpr ⟨rfl, h.stored⟩
  have hop : ∀ site t, site.stage = .deciding → w.Drawn t → ∀ call, atStage crash ⟨site, call⟩ t :=
    fun site t hsite ht _ => by rw [atStage, hsite]; exact hidle t ht
  simp only [patch, h.admitted, bind_eq, ensures_bind, ensures_locked, patchLocal,
    ensures_readDocumentValue, Faults.none_apply, hread, patchStored, h.guard, hres, ensures_newId,
    run_newId_ok h.version, hstamp, ensures_operationIdOr, run_operationIdOr_ok h.operationId,
    patchCommit, henc, World.tick_tick]
  refine ⟨hop _ _ rfl (by simp) _, hop _ _ rfl (by simp) _, hop _ _ rfl (by simp) _,
    fun _ => hop _ _ rfl (by simp) _, ?_⟩
  refine ensures_replaceDocument keepsStage_id (by simp [h.stored]) (hidle _ (by simp)) hwriting
    hcommitting ?_
  simp only [ensures_done, pure_eq]
  exact hdelivering _ rfl

theorem mem_stops_patch {old : Json} {ops : List JsonFields}
    (h : PatchReady e host .none req w schemaRaw old new ops) {x : Op × World ν}
    (hx : x ∈ (replaceDocument id e req.target req.parameter new).stops (exec host .none)
      (w.tick (1 + req.operationIdDraws))) : x ∈ (patch e req).stops (exec host .none) w := by
  obtain ⟨patchOps, patched, stamped, hres, hstamp, henc⟩ := h.encoded
  have hread : w.readValue false (e.live req.target req.parameter) = .ok old :=
    readValue_eq_ok.mpr ⟨rfl, h.stored⟩
  simp only [patch, h.admitted, bind_eq, stops_bind, locked, run_lock, patchLocal,
    run_readDocumentValue, Faults.none_apply, hread, patchStored, h.guard, hres,
    run_newId_ok h.version, hstamp, run_operationIdOr_ok h.operationId, patchCommit, henc,
    World.tick_tick, List.mem_append, hx, true_or, or_true]

structure MigrationReady (e : Engine) (host : Host ν) (collection id : String) (w : World ν)
    (old : JsonFields) (new : Json) : Prop where
  stored : w.files (e.live collection id) = some (.json (.obj old))
  stale : needsMigration e.cfg collection old = true
  encoded : ∃ migrated, migrateToCurrent e collection old = .ok migrated ∧
    migratedDocument e collection migrated (host.ids w.issued) = .ok new

theorem idle_applyToStoredDocument {id : String}
    (h : ∀ old new, ¬ MigrationReady e host coll id w old new) :
    Idle host .none (fun r => r ≠ .ok true) (applyToStoredDocument e coll id) w := by
  cases hread : w.readFields false (e.live coll id) with
  | error err => by_cases hn : err.isNotExist <;> simp [Idle, applyToStoredDocument, hread, hn]
  | ok old =>
    obtain ⟨-, hstored⟩ := readFields_eq_ok.mp hread
    cases hs : needsMigration e.cfg coll old with
    | false => simp [Idle, applyToStoredDocument, hread, hs]
    | true =>
      cases hm : migrateToCurrent e coll old with
      | error err => simp [Idle, applyToStoredDocument, hread, hs, hm]
      | ok migrated =>
        cases henc : migratedDocument e coll migrated (host.ids w.issued) with
        | error err =>
          simp [Idle, applyToStoredDocument, hread, hs, hm,
            run_newId_none (.migration .version), henc]
        | ok new => exact absurd ⟨hstored, hs, migrated, hm, henc⟩ (h old new)

theorem ensures_applyToStoredDocument {id : String} {post : Except FsError Bool → World ν → Prop}
    (h : MigrationReady e host coll id w old new) {w₁ : World ν} (hw₁ : w₁ = w.tick 1)
    (hidle : ∀ t, w.Drawn t → crash .deciding t)
    (hwriting : crash .writing (w₁.preserved e coll id))
    (hcommitting : crash .committing
      ((w₁.preserved e coll id).put (e.live coll id) (some (.json new))))
    (hpost : post (.ok true) (((w₁.preserved e coll id).put (e.live coll id)
      (some (.json new))).put (queuePath e.dataDir .patch coll id) (some .marker))) :
    (applyToStoredDocument e coll id).Ensures (exec host .none) (atStage crash) post w := by
  subst hw₁
  obtain ⟨migrated, hm, henc⟩ := h.encoded
  have hread : w.readFields false (e.live coll id) = .ok old :=
    readFields_eq_ok.mpr ⟨rfl, h.stored⟩
  simp only [applyToStoredDocument, bind_eq, ensures_bind,
    ensures_readDocumentJSON, Faults.none_apply, hread, h.stale, Bool.true_eq_false, if_false, hm,
    ensures_newId, run_newId_none (.migration .version), henc]
  refine ⟨hidle _ (by simp), hidle _ (by simp), ?_⟩
  exact ensures_replaceDocument keepsStage_migration (by simp [h.stored]) (hidle _ (by simp))
    hwriting hcommitting (by simpa using hpost)

theorem mem_stops_applyToStoredDocument {id : String}
    (h : MigrationReady e host coll id w old new) {x : Op × World ν}
    (hx : x ∈ (replaceDocument .migration e coll id new).stops (exec host .none) (w.tick 1)) :
    x ∈ (applyToStoredDocument e coll id).stops (exec host .none) w := by
  obtain ⟨migrated, hm, henc⟩ := h.encoded
  have hread : w.readFields false (e.live coll id) = .ok old :=
    readFields_eq_ok.mpr ⟨rfl, h.stored⟩
  simp only [applyToStoredDocument, bind_eq, stops_bind, run_readDocumentJSON,
    Faults.none_apply, hread, h.stale, Bool.true_eq_false, if_false, hm,
    run_newId_none (.migration .version), henc, List.mem_append, hx, true_or, or_true]

def Committing {α : Type} (p : Prog α) : Prop := p.Only fun op => op.site.stage = .committing

theorem Committing.ensures {α : Type} {p : Prog α} (hp : Committing p)
    (hc : ∀ t, crash .committing t) :
    p.Ensures (exec host .none) (atStage crash) (fun _ _ => True) w := by
  have hstage : p.Ensures (exec host .none) (fun op _ => op.site.stage = .committing ∧ True)
      (fun _ _ => True) w := Only.ensures hp (fun _ _ _ _ => trivial) trivial
  refine hstage.mono (fun op t hop => ?_) fun _ _ h => h
  rw [atStage, hop.1]
  exact hc t

theorem committing_cascadeDeleteDocumentFiles (dataDir : Path) (coll id : String) :
    Committing (cascadeDeleteDocumentFiles dataDir coll id) := by
  refine .bind ⟨rfl, fun _ => trivial⟩ fun r => ?_
  have hsweep : Committing (sweepDocumentFiles dataDir coll id) := by
    refine .bindOk ⟨rfl, fun _ => trivial⟩ (fun _ => trivial) fun u => ?_
    exact ⟨rfl, fun _ => trivial⟩
  cases r with
  | error err =>
    dsimp only
    split
    · exact hsweep
    · trivial
  | ok u => exact hsweep

theorem ensures_deleteCommit {operationId : String} (hidle : crash .deciding w)
    (hcommitting : ∀ t, crash .committing t) :
    (deleteCommit e req operationId).Ensures (exec host .none) (atStage crash)
      (fun _ _ => True) w := by
  have hmoved : ∀ live prev : Path, (moveAway live prev).Ensures (exec host .none)
      (atStage crash) (fun _ _ => True) w := by
    intro live prev
    cases hp : w.files prev <;> simp [moveAway, atStage, Site.stage, hidle, hp]
  have hsoft : (softDeleteDocument e.dataDir req.target req.parameter).Ensures (exec host .none)
      (atStage crash) (fun _ _ => True) w := by
    refine .bind (hmoved _ _) fun r t _ => ?_
    cases r with
    | error err => simp
    | ok u => exact (committing_cascadeDeleteDocumentFiles _ _ _).ensures hcommitting
  refine .bind hsoft fun r t _ => ?_
  cases r with
  | error err => simp
  | ok u =>
    have hqueue : (enqueueChange id e.dataDir req.target req.parameter .delete).Ensures
        (exec host .none) (atStage crash) (fun _ _ => True) t :=
      ensures_enqueueChange keepsStage_id (hcommitting t) trivial
    refine .bind hqueue fun r _ _ => ?_
    cases r <;> simp

theorem ensures_delete_ready {post : Result → World ν → Prop} (h : DeleteReady e .none req w old)
    (hidle : ∀ t, w.Drawn t → crash .deciding t) (hcommitting : ∀ t, crash .committing t)
    (hdelivering : ∀ w', w' = ((w.tick req.operationIdDraws).deleted e .none req).put
        (queuePath e.dataDir .delete req.target req.parameter) (some .marker) →
      crash .delivering w' ∧ (deliverOnce e (deleteItem req (req.operationIdIn host w))
          (deleteResponse req (req.operationIdIn host w))).Ensures (exec host .none)
            (atStage crash) post w') :
    (delete e req).Ensures (exec host .none) (atStage crash) post w := by
  have hread : w.readFields false (e.live req.target req.parameter) = .ok old :=
    readFields_eq_ok.mpr ⟨rfl, h.stored⟩
  have hop : ∀ site t, site.stage = .deciding → w.Drawn t → ∀ call, atStage crash ⟨site, call⟩ t :=
    fun site t hsite ht _ => by rw [atStage, hsite]; exact hidle t ht
  simp only [delete, h.admitted, bind_eq, ensures_bind, ensures_locked,
    deleteLocal, ensures_readDocumentJSON, Faults.none_apply, hread, h.guard,
    ensures_operationIdOr, run_operationIdOr_ok h.operationId]
  refine ⟨hop _ _ rfl (by simp) _, hop _ _ rfl (by simp) _, fun _ => hop _ _ rfl (by simp) _, ?_⟩
  have hcommit : (deleteCommit e req (req.operationIdIn host w)).run (exec host .none)
      (w.tick req.operationIdDraws) = _ := run_deleteCommit_ok rfl h.stored (by
        simp [DeleteUnfinished, QueueFails])
  refine ⟨(ensures_deleteCommit (hidle _ (by simp)) hcommitting).1, ?_⟩
  rw [hcommit]
  exact hdelivering _ rfl
end
end Datorium
