
import Datorium.Engine.Outcomes
/-! # What delivery leaves alone -/
namespace Datorium
open Framework
inductive Stage where
  | deciding
  | writing
  | committing
  | delivering
  deriving DecidableEq, Repr

def Site.stage : Site → Stage
  | .operationId | .version | .lock | .readLive | .statLive | .ensureDir => .deciding
  | .preserveStatPrevious | .preserveStatLive | .preserveRename => .deciding
  | .softDeleteStat | .softDeleteMove => .deciding
  | .write _ => .writing
  | .verify _ | .cascadeManifest | .cascadeLFS | .cascadeFileOps => .committing
  | .queueDir | .queue _ => .committing
  | .migration inner => inner.stage
  | _ => .delivering

def Call.Passive : Call → Prop
  | .rename _ _ | .remove _ | .removeAll _ | .install _ _ | .lock | .unlock => False
  | .fanOut _ _ | .index _ _ _ _ => False
  | _ => True

def Permits (P : Op → Prop) (place : Site → Site) (stage : Stage) : Prop :=
  ∀ site call, site.stage = stage → call.Passive → P ⟨place site, call⟩

def Observes (P : Op → Prop) (place : Site → Site) (stage : Stage) : Prop :=
  ∀ site call, site.stage = stage → call.Passive → call.changed = [] → P ⟨place site, call⟩

variable {place : Site → Site}
theorem Permits.observes {P : Op → Prop} {stage : Stage} (h : Permits P place stage) :
    Observes P place stage :=
  fun site call hsite hcall _ => h site call hsite hcall

theorem permits_avoids (path : Path) (place : Site → Site) (stage : Stage) :
    Permits (fun op => op.call.Avoids path) place stage := by
  intro site call _ hcall
  cases call <;> trivial

variable {e : Engine} {path : Path} {P : Op → Prop}
variable {site : Site} {p : Path} {coll docId : String} {item : WorkItem}
theorem only_perform {call : Call} (h : P ⟨site, call⟩) : (perform site call).Only P := ⟨h, fun _ => trivial⟩

theorem only_readDocumentValue (h : P ⟨site, .readFile p⟩) : (readDocumentValue site p).Only P := by
  refine .bind (only_perform h) fun r => ?_
  rcases r with err | (doc | data) <;> trivial

theorem only_readDocumentJSON (h : P ⟨site, .readFile p⟩) : (readDocumentJSON site p).Only P := by
  refine .bindOk (only_readDocumentValue h) (fun _ => trivial) fun doc => ?_
  cases hm : doc.toMap? <;> simp only [hm] <;> trivial

theorem only_readOptionalDoc (h : P ⟨site, .readFile p⟩) : (readOptionalDoc site p).Only P := by
  refine .bind (only_readDocumentJSON h) fun r => ?_
  cases r <;> trivial

theorem only_prepareFile {site : WriteStep → Site} (h : ∀ step, P ⟨site step, .prepare step p⟩)
    (steps : List WriteStep) : (prepareFile site p steps).Only P := by
  induction steps with
  | nil => trivial
  | cons step steps ih =>
    refine .bindOk (only_perform (h step)) (fun _ => trivial) fun u => ?_
    exact ih

theorem only_writeFileAtomic {site : WriteStep → Site} {data : File}
    (hprepare : ∀ step, P ⟨site step, .prepare step p⟩)
    (hinstall : P ⟨site .rename, .install p data⟩) : (writeFileAtomic site p data).Only P := by
  refine .bindOk (only_prepareFile hprepare _) (fun _ => trivial) fun u => ?_
  refine .bind (only_perform hinstall) fun r => ?_
  cases r <;> trivial

theorem only_verifyReads (h : ∀ attempt, P ⟨place (.verify attempt), .readFile p⟩)
    (version : String) (attempts : List Nat) (last : FsError) :
    (verifyAttempts place p version attempts last).Only P := by
  induction attempts generalizing last with
  | nil => trivial
  | cons attempt attempts ih =>
    have hverify : (verifyDocumentVersion (place (.verify attempt)) p version).Only P := by
      refine .bindOk (only_readDocumentValue (h attempt)) (fun _ => trivial) fun doc => ?_
      dsimp only
      split <;> trivial
    refine .bind hverify fun r => ?_
    cases r with
    | error err => exact ih err
    | ok u => trivial

theorem only_verifyAttempts (hP : Permits P place .committing) (p : Path) (version : String)
    (attempts : List Nat) (last : FsError) :
    (verifyAttempts place p version attempts last).Only P :=
  only_verifyReads (fun attempt => hP (.verify attempt) _ rfl trivial) version attempts last

theorem only_writeDocumentJSONVerified {doc : Json}
    (hprepare : ∀ step, P ⟨place (.write step), .prepare step p⟩)
    (hinstall : P ⟨place (.write .rename), .install p (.json doc)⟩)
    (hread : ∀ attempt, P ⟨place (.verify attempt), .readFile p⟩) :
    (writeDocumentJSONVerified place p doc).Only P := by
  refine .bindOk (only_writeFileAtomic hprepare hinstall) (fun _ => trivial) fun u => ?_
  dsimp only
  split
  · trivial
  · exact only_verifyReads hread _ _ _

theorem only_preservePreviousIfAbsent {dataDir : Path}
    (hprevious : P ⟨place .preserveStatPrevious, .stat (previousDocumentPath dataDir coll docId)⟩)
    (hlive : P ⟨place .preserveStatLive, .stat (documentPath dataDir coll docId)⟩)
    (hrename : P ⟨place .preserveRename, .rename (documentPath dataDir coll docId)
      (previousDocumentPath dataDir coll docId)⟩) :
    (preservePreviousIfAbsent place dataDir coll docId).Only P := by
  refine .bind (only_perform hprevious) fun r => ?_
  cases r with
  | ok u => trivial
  | error err =>
    dsimp only
    split
    · refine .bindOk (only_perform hlive) (fun _ => trivial) fun u => ?_
      exact only_perform hrename
    · trivial

theorem only_enqueueChange {dataDir : Path} {change : Command}
    (hdir : P ⟨place .queueDir, .mkdirAll (changeQueueDir dataDir coll)⟩)
    (hprepare : ∀ step, P ⟨place (.queue step),
      .prepare step (queuePath dataDir change coll docId)⟩)
    (hinstall : P ⟨place (.queue .rename),
      .install (queuePath dataDir change coll docId) .marker⟩) :
    (enqueueChange place dataDir coll docId change).Only P := by
  refine .bindOk (only_perform hdir) (fun _ => trivial) fun u => ?_
  exact only_writeFileAtomic hprepare hinstall

theorem only_replaceDocument_of_parts {doc : Json}
    (hpreserve : (preservePreviousIfAbsent place e.dataDir coll docId).Only P)
    (hwrite : (writeDocumentJSONVerified place (e.live coll docId) doc).Only P)
    (hqueue : (enqueueChange place e.dataDir coll docId .patch).Only P) :
    (replaceDocument place e coll docId doc).Only P := by
  refine .bindOk hpreserve (fun _ => trivial) fun u => ?_
  refine .bindOk hwrite (fun _ => trivial) fun u => ?_
  refine .bind hqueue fun r => ?_
  cases r <;> trivial

theorem only_pushOne (hP : Observes P id .delivering) (target : String) (item : WorkItem) :
    (pushOne e.cfg target item).Only P := by
  unfold pushOne
  split
  · trivial
  · split
    · trivial
    · exact only_perform (hP .push _ rfl trivial rfl)

theorem only_writePendingWrite (hP : Permits P id .delivering) {target : String}
    (h : P ⟨.pending .rename,
      .install (pendingWritePath e.dataDir item.collection target item.id) (.json item.toJson)⟩) :
    (writePendingWrite e.dataDir item.collection target item).Only P :=
  only_writeFileAtomic (fun step => hP (.pending step) _ rfl trivial) h

theorem only_pushAll (hP : Observes P id .delivering) {targets : List String}
    (h : ∀ t ∈ targets, (writePendingWrite e.dataDir item.collection t item).Only P) :
    (pushAll e item targets).Only P := by
  induction targets with
  | nil => trivial
  | cons target targets ih =>
    have hrest := ih fun t ht => h t (List.mem_cons_of_mem _ ht)
    refine .bind (only_pushOne hP target item) fun acknowledged => ?_
    cases acknowledged with
    | true => exact .bind hrest fun _ => trivial
    | false => exact .bind (h target List.mem_cons_self) fun _ => .bind hrest fun _ => trivial

theorem only_deliverReplicas (hP : Observes P id .delivering) (h : e.replicates = true →
      ∀ t ∈ e.targets item.id, (writePendingWrite e.dataDir item.collection t item).Only P) :
    (deliverReplicas e item).Only P := by
  unfold deliverReplicas
  split
  · rename_i hreplicates
    exact .bind (.bind (only_pushAll hP (h hreplicates)) fun _ => trivial) fun _ => trivial
  · trivial

structure Processes (P : Op → Prop) (e : Engine) (change : Command) (collection docId : String) :
    Prop where
  passive : Observes P id .delivering
  fanOut : ∀ targets item, P ⟨.cacheFanOut, .fanOut targets item⟩
  index : ∀ prev current, P ⟨.searchIndex, .index collection docId prev current⟩
  claim : P ⟨.claim, .rename (queuePath e.dataDir change collection docId)
    (takenQueuePath e.dataDir change collection docId)⟩
  dropPrevious : P ⟨.dropPrevious, .remove (e.previous collection docId)⟩
  dropTaken : P ⟨.dropTaken, .remove (takenQueuePath e.dataDir change collection docId)⟩

section
variable {change : Command} {coll docId : String}
theorem only_distributeCache (hP : Processes P e change coll docId)
    (current prev : Option JsonFields) :
    (distributeCache e coll docId change current prev).Only P := by
  unfold distributeCache
  split
  · trivial
  · refine .bindOk (only_perform (hP.passive .cacheOperationId _ rfl trivial rfl))
      (fun _ => trivial) fun op => ?_
    dsimp only
    split
    · trivial
    · exact only_perform (hP.fanOut _ _)

section
variable {distribute : Distribution}
theorem only_processWith (hP : Processes P e change coll docId)
    (hdistribute : ∀ prev current, (distribute coll docId prev current).Only P) :
    (processWith distribute e change coll docId).Only P := by
  refine .bindOk (only_readOptionalDoc (hP.passive .readCurrent _ rfl trivial rfl))
    (fun _ => trivial) fun current => ?_
  refine .bindOk (only_readOptionalDoc (hP.passive .readPrevious _ rfl trivial rfl))
    (fun _ => trivial) fun prev => ?_
  refine .bindOk (only_distributeCache hP current prev) (fun _ => trivial) fun complete => ?_
  refine .bind (hdistribute _ _) fun r => ?_
  cases r <;> trivial

theorem only_removeIfPresent {site : Site} {p : Path} (h : P ⟨site, .remove p⟩) :
    (removeIfPresent site p).Only P := by
  refine .bind (only_perform h) fun r => ?_
  cases r <;> trivial

theorem only_runClaimedWith (hP : Processes P e change coll docId)
    (hdistribute : ∀ prev current, (distribute coll docId prev current).Only P) :
    (runClaimedWith distribute e change coll docId).Only P := by
  refine .bindOk (only_processWith hP hdistribute) (fun _ => trivial) fun complete => ?_
  refine .bindOk (only_removeIfPresent hP.dropPrevious) (fun _ => trivial) fun u => ?_
  refine .bind (only_removeIfPresent hP.dropTaken) fun r => ?_
  cases r <;> trivial

theorem only_runEntryResultWith (hP : Processes P e change coll docId)
    (hdistribute : ∀ prev current, (distribute coll docId prev current).Only P)
    (state : EntryState) :
    (runEntryResultWith distribute e change coll docId state).Only P := by
  cases state with
  | taken => exact only_runClaimedWith hP hdistribute
  | queue =>
    refine .bindOk (only_perform hP.claim) (fun _ => trivial) fun u => ?_
    exact only_runClaimedWith hP hdistribute
end

theorem only_runEntryResult (hP : Processes P e change coll docId) (state : EntryState) :
    (runEntryResult e change coll docId state).Only P :=
  only_runEntryResultWith hP (fun _ _ => only_perform (hP.index _ _)) state

theorem only_processNow (hP : Processes P e change coll docId) :
    (processNow e change coll docId).Only P := by
  have hrun : ∀ state, (entryComplete e change coll docId state).Only P := by
    intro state
    refine .bind (only_runEntryResult hP state) fun r => ?_
    cases r <;> trivial
  refine .bind (only_perform (hP.passive .statTaken _ rfl trivial rfl)) fun r => ?_
  cases r with
  | ok u => exact hrun .taken
  | error err =>
    refine .bindOk (only_perform (hP.passive .statQueue _ rfl trivial rfl))
      (fun _ => trivial) fun u => ?_
    exact hrun .queue
end

theorem only_deliverOnce (hP : Processes P e item.command item.collection item.id)
    (hw : e.replicates = true →
      ∀ t ∈ e.targets item.id, (writePendingWrite e.dataDir item.collection t item).Only P)
    (result : Result) : (deliverOnce e item result).Only P := by
  refine .bind (only_deliverReplicas hP.passive hw) fun note => .bind ?_ fun _ => trivial
  unfold deliverDerived
  split
  · exact only_processNow hP
  · trivial

section
variable {dataDir : Path}
structure Summarizes (P : Op → Prop) (dataDir : Path) (collection docId : String) : Prop where
  load : P ⟨.cacheLoad, .readFile (cachePath dataDir collection docId)⟩
  dir : P ⟨.cacheDir, .mkdirAll (cacheDir dataDir collection)⟩
  prepare : ∀ step, P ⟨.cacheStub step, .prepare step (cachePath dataDir collection docId)⟩
  install : P ⟨.cacheStub .rename, .install (cachePath dataDir collection docId)
    (.json (encodeMap [("!", .str docId), ("#", .null)]))⟩

variable {coll docId : String}
theorem Permits.summarizes (hP : Permits P id .delivering)
    (h : P ⟨.cacheStub .rename, .install (cachePath dataDir coll docId)
      (.json (encodeMap [("!", .str docId), ("#", .null)]))⟩) :
    Summarizes P dataDir coll docId where
  load := hP .cacheLoad _ rfl trivial
  dir := hP .cacheDir _ rfl trivial
  prepare step := hP (.cacheStub step) _ rfl trivial
  install := h

theorem only_loadCacheFile (h : P ⟨.cacheLoad, .readFile (cachePath dataDir coll docId)⟩) :
    (loadCacheFile dataDir coll docId).Only P := by
  refine .bind (only_readDocumentJSON h) fun r => ?_
  cases r <;> trivial

theorem only_ensureStub (hP : Summarizes P dataDir coll docId) :
    (ensureStub dataDir coll docId).Only P := by
  refine .bind (only_loadCacheFile hP.load) fun r => ?_
  rcases r with err | (_ | existing)
  · trivial
  · refine .bindOk (only_perform hP.dir) (fun _ => trivial) fun u => ?_
    refine .bind (only_writeFileAtomic hP.prepare hP.install) fun r => ?_
    cases r <;> trivial
  · trivial

theorem only_collectSummaries {refs : List RefField}
    (h : ∀ ref ∈ refs, Summarizes P dataDir ref.targetCollection ref.targetID) (out : JsonFields) :
    (collectSummaries dataDir refs out).Only P := by
  induction refs generalizing out with
  | nil => trivial
  | cons ref refs ih =>
    have hrest := ih fun r hr => h r (List.mem_cons_of_mem _ hr)
    have href := h ref List.mem_cons_self
    refine .bind (only_loadCacheFile href.load) fun r => ?_
    rcases r with err | (_ | cached)
    · exact hrest out
    · refine .bind (only_ensureStub href) fun r => ?_
      cases r with
      | error err => exact hrest out
      | ok stub => exact hrest _
    · exact hrest _

theorem keeps_collectSummaries {refs : List RefField}
    (h : ∀ ref ∈ refs, cachePath dataDir ref.targetCollection ref.targetID ≠ path)
    (out : JsonFields) : Keeps path (collectSummaries dataDir refs out) :=
  only_collectSummaries (fun ref href =>
    (permits_avoids path id .delivering).summarizes (h ref href)) out
end

def Engine.PlainTargets (e : Engine) : Prop :=
  ∀ id, ∀ t ∈ e.targets id, '/' ∉ t.toList

def Engine.LivePath (e : Engine) (p : Path) : Prop :=
  ∃ coll id, e.cfg.Configured coll ∧ DocumentId id ∧ p = e.live coll id

theorem Engine.live_eq {id : String} (hc : e.cfg.Configured coll) (h : DocumentId id) :
    e.live coll id = e.dataDir ++ [coll, id ++ ".json"] :=
  documentPath_eq (e.cfg.plainNames coll hc) h

theorem Engine.previous_eq {id : String} (hc : e.cfg.Configured coll) (h : DocumentId id) :
    e.previous coll id = e.dataDir ++ [coll, "." ++ id ++ ".json"] :=
  previousDocumentPath_eq (e.cfg.plainNames coll hc) h

theorem Engine.previous_not_live {id : String} (hc : e.cfg.Configured coll) (h : DocumentId id)
    (hp : e.LivePath path) : e.previous coll id ≠ path := by
  obtain ⟨coll', id', hc', h', rfl⟩ := hp
  rw [e.previous_eq hc h, e.live_eq hc' h']
  intro heq
  simp only [List.append_cancel_left_eq, List.cons.injEq, and_true] at heq
  exact live_name_ne_previous_name h' id heq.2.symm

theorem Engine.queuePath_not_live {id : String} (hc : e.cfg.Configured coll) (h : DocumentId id)
    (hp : e.LivePath path) (change : Command) : queuePath e.dataDir change coll id ≠ path := by
  obtain ⟨coll', id', hc', h', rfl⟩ := hp
  rw [queuePath_eq (e.cfg.plainNames _ hc) h, e.live_eq hc' h']
  simp

theorem Engine.takenQueuePath_not_live {id : String} (hc : e.cfg.Configured coll)
    (h : DocumentId id) (hp : e.LivePath path) (change : Command) :
    takenQueuePath e.dataDir change coll id ≠ path := by
  obtain ⟨coll', id', hc', h', rfl⟩ := hp
  rw [takenQueuePath_eq (e.cfg.plainNames _ hc) h, e.live_eq hc' h']
  simp

theorem Engine.pendingWritePath_not_live {id server : String} (hc : e.cfg.Configured coll)
    (h : DocumentId id) (hs : '/' ∉ server.toList) (hp : e.LivePath path) :
    pendingWritePath e.dataDir coll server id ≠ path := by
  obtain ⟨coll', id', hc', h', rfl⟩ := hp
  rw [pendingWritePath_eq (e.cfg.plainNames _ hc) h hs, e.live_eq hc' h']
  simp

theorem Engine.manifest_not_live {id : String} (hc : e.cfg.Configured coll) (h : DocumentId id)
    (hp : e.LivePath path) : filesManifestPath e.dataDir coll id ≠ path := by
  obtain ⟨coll', id', hc', h', rfl⟩ := hp
  rw [filesManifestPath_eq (e.cfg.plainNames _ hc) h, e.live_eq hc' h']
  intro heq
  simp only [List.append_cancel_left_eq, List.cons.injEq, and_true] at heq
  exact live_name_ne_manifest_name id' id heq.2.symm

theorem Engine.attachments_not_live {id : String} (hc : e.cfg.Configured coll) (h : DocumentId id)
    (hp : e.LivePath path) :
    ¬ lfsDir e.dataDir coll id <+: path ∧ ¬ fileOpsDir e.dataDir coll id <+: path := by
  obtain ⟨coll', id', hc', h', rfl⟩ := hp
  rw [lfsDir_eq (e.cfg.plainNames _ hc) h, fileOpsDir_eq (e.cfg.plainNames _ hc) h,
    e.live_eq hc' h']
  constructor
  · intro hpre
    simpa using hpre.length_le
  · intro hpre
    simpa using hpre.length_le

theorem Engine.cachePath_not_live {id : String} (hc : PlainName coll) (h : '/' ∉ id.toList)
    (hp : e.LivePath path) : cachePath e.dataDir coll id ≠ path := by
  obtain ⟨coll', id', hc', h', rfl⟩ := hp
  rw [cachePath_eq hc h, e.live_eq hc' h']
  simp

theorem processes_avoids_live {change : Command} (hc : e.cfg.Configured coll)
    (h : DocumentId docId) (hp : e.LivePath path) :
    Processes (fun op => op.call.Avoids path) e change coll docId where
  passive := (permits_avoids path id .delivering).observes
  fanOut _ _ := trivial
  index _ _ := trivial
  claim := ⟨e.queuePath_not_live hc h hp _, e.takenQueuePath_not_live hc h hp _⟩
  dropPrevious := e.previous_not_live hc h hp
  dropTaken := e.takenQueuePath_not_live hc h hp _

theorem keeps_deliverOnce_live (he : e.PlainTargets) (hc : e.cfg.Configured item.collection)
    (h : DocumentId item.id) (hp : e.LivePath path) (result : Result) :
    Keeps path (deliverOnce e item result) :=
  only_deliverOnce (processes_avoids_live hc h hp)
    (fun _ t ht => only_writePendingWrite (permits_avoids path id .delivering)
      (e.pendingWritePath_not_live hc h (he _ t ht) hp)) result
end Datorium
