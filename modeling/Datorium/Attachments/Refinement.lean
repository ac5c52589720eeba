
import Datorium.Attachments.Store
import Datorium.Engine.Commits
namespace Datorium
open Framework Program World
/-! ## Tracked paths -/

def Engine.Tracked (e : Engine) (p : Path) : Prop :=
  e.LivePath p ∨ ∃ k, e.ValidKey k ∧ e.AttachmentPath k p

section
variable {e : Engine} {k : Key} {p : Path}
variable {coll : String}
theorem Engine.dotted_not_tracked {dir : String} {rest : Path}
    (hdir : dir.toList.head? = some '.') (hrest : rest ≠ []) :
    ¬ e.Tracked (e.dataDir ++ (coll :: dir :: rest)) := by
  rintro (⟨coll', id', hc', hid', heq⟩ | ⟨k, hk, hp⟩)
  · rw [e.live_eq hc' hid'] at heq
    simp only [List.append_cancel_left_eq, List.cons.injEq] at heq
    exact hrest heq.2.2
  · exact hk.dotted_not_attachment hdir hrest hp

theorem Engine.ValidKey.fileOps_not_tracked (hk : e.ValidKey k) (name : String) :
    ¬ e.Tracked (collectionDir e.dataDir k.1 ++ [".fileOps", k.2, name]) := by
  rw [collectionDir_eq hk.plain, List.append_assoc]
  exact e.dotted_not_tracked (by decide) (by simp)

theorem Engine.ValidKey.stage_not_tracked (hk : e.ValidKey k) (name : StageName) :
    ¬ e.Tracked (stagePath e.dataDir k.1 k.2 name) := by
  rw [stagePath_eq_join hk.accepted.documentId]
  exact hk.fileOps_not_tracked _

theorem Engine.ValidKey.journal_not_tracked (hk : e.ValidKey k) {operationId : String}
    (hop : SafeName operationId) :
    ¬ e.Tracked (fileOpJournalPath e.dataDir k.1 k.2 operationId) := by
  rw [fileOpJournalPath_eq_join hk.accepted.documentId hop]
  exact hk.fileOps_not_tracked _

theorem Engine.ValidKey.pendingFile_not_tracked (hk : e.ValidKey k) {server filename : String}
    (hs : '/' ∉ server.toList) (hf : '/' ∉ filename.toList) :
    ¬ e.Tracked (pendingFileWritePath e.dataDir k.1 server k.2 filename) := by
  rw [pendingFileWritePath_eq hk.plain hk.accepted.documentId hs hf]
  exact e.dotted_not_tracked (by decide) (by simp)

theorem Engine.ValidKey.previous_ne (hk : e.ValidKey k) (hp : e.AttachmentPath k p) {id : String}
    (hc : e.cfg.Configured coll) (hid : DocumentId id) : e.previous coll id ≠ p := by
  rintro rfl
  rcases hk.attachmentPath hp with heq | ⟨rest, heq⟩ <;>
    rw [e.previous_eq hc hid] at heq <;>
      simp only [List.append_cancel_left_eq, List.cons.injEq, and_true] at heq
  · exact live_name_ne_manifest_name _ _ heq.2
  · exact absurd heq.2.2 (by simp)

theorem Engine.ValidKey.queuePath_ne (hk : e.ValidKey k) (hp : e.AttachmentPath k p) {id : String}
    (hc : e.cfg.Configured coll) (hid : DocumentId id) (change : Command) :
    queuePath e.dataDir change coll id ≠ p := by
  rintro rfl
  rw [queuePath_eq (e.cfg.plainNames _ hc) hid] at hp
  exact hk.dotted_not_attachment (by decide) (by simp) hp

theorem Engine.ValidKey.keeps_deliverOnce (hk : e.ValidKey k) (hp : e.AttachmentPath k p)
    (he : e.PlainTargets) {item : WorkItem} (hc : e.cfg.Configured item.collection)
    (hid : DocumentId item.id) (result : Result) : Keeps p (deliverOnce e item result) := by
  have hplain := e.cfg.plainNames _ hc
  have htaken : ∀ change, takenQueuePath e.dataDir change item.collection item.id ≠ p := by
    rintro change rfl
    rw [takenQueuePath_eq hplain hid] at hp
    exact hk.dotted_not_attachment (by decide) (by simp) hp
  refine only_deliverOnce ⟨(permits_avoids p id .delivering).observes, fun _ _ => trivial,
    fun _ _ => trivial, ⟨hk.queuePath_ne hp hc hid _, htaken _⟩, hk.previous_ne hp hc hid,
    htaken _⟩ (fun _ t ht => only_writePendingWrite (permits_avoids p id .delivering) ?_) result
  rintro rfl
  rw [pendingWritePath_eq hplain hid (he _ t ht)] at hp
  exact hk.dotted_not_attachment (by decide) (by simp) hp
end

/-! ## Delivery of attachment writes -/

section
variable {e : Engine} {path : Path} {item : FileWorkItem}
variable {P : Op → Prop}
theorem only_openBinary {site : Site} {dataDir : Path} {coll id filename : String}
    (h : P ⟨site, .readFile (binaryPath dataDir coll id filename)⟩) :
    (openBinary site dataDir coll id filename).Only P := by
  unfold openBinary
  split
  · trivial
  · refine .bind (only_perform h) fun r => ?_
    cases r <;> trivial

theorem only_writePendingFileWrite {target : String}
    (hdir : P ⟨.file .pendingDir, .mkdirAll (pendingFileWritesDir e.dataDir item.collection)⟩)
    (hprepare : ∀ step, P ⟨.file (.pending step), .prepare step
      (pendingFileWritePath e.dataDir item.collection target item.id item.filename)⟩)
    (hinstall : P ⟨.file (.pending .rename), .install
      (pendingFileWritePath e.dataDir item.collection target item.id item.filename)
      (.json item.toJson)⟩) :
    (writePendingFileWrite e.dataDir item.collection target item).Only P := by
  refine .bindOk (only_perform hdir) (fun _ => trivial) fun u => ?_
  exact only_writeFileAtomic hprepare hinstall

theorem only_deliverFileTo {target : String}
    (hpassive : ∀ place call, call.Passive → call.changed = [] → P ⟨.file place, call⟩)
    (hpending : (writePendingFileWrite e.dataDir item.collection target item).Only P)
    (hremove : P ⟨.file .pendingRemove, .remove
      (pendingFileWritePath e.dataDir item.collection target item.id item.filename)⟩) :
    (deliverFileTo e item target).Only P := by
  have hpush : (pushFileOne e target item).Only P := by
    unfold pushFileOne
    split
    · trivial
    · split
      · trivial
      · split
        · exact only_perform (hpassive _ _ trivial rfl)
        · refine .bindOk (only_openBinary (hpassive _ _ trivial rfl))
            (fun _ => trivial) fun data => ?_
          exact only_perform (hpassive _ _ trivial rfl)
  have hdelete : (deletePendingFileWrite e.dataDir item.collection target item.id
      item.filename).Only P := by
    refine .bindOk (only_perform (hpassive _ _ trivial rfl)) (fun _ => trivial) fun u => ?_
    refine .bind (only_perform hremove) fun r => ?_
    cases r <;> trivial
  refine .bind hpending fun _ => .bind hpush fun acknowledged => ?_
  cases acknowledged with
  | false => trivial
  | true => exact .bind hdelete fun _ => trivial

theorem only_deliverFileOnce
    (hpassive : ∀ place call, call.Passive → call.changed = [] → P ⟨.file place, call⟩)
    (hpending : e.replicates = true → ∀ t ∈ e.targets item.id,
      (writePendingFileWrite e.dataDir item.collection t item).Only P ∧
      P ⟨.file .pendingRemove, .remove
        (pendingFileWritePath e.dataDir item.collection t item.id item.filename)⟩)
    (result : FileResult) : (deliverFileOnce e item result).Only P := by
  have hall : e.replicates = true → ∀ targets : List String,
      (∀ t ∈ targets, t ∈ e.targets item.id) → (deliverFileAll e item targets).Only P := by
    intro hreplicates targets htargets
    induction targets with
    | nil => trivial
    | cons t targets ih =>
      obtain ⟨hwrite, hremove⟩ := hpending hreplicates t (htargets t List.mem_cons_self)
      refine .bind (only_deliverFileTo hpassive hwrite hremove) fun _ => ?_
      exact .bind (ih fun t ht => htargets t (List.mem_cons_of_mem _ ht)) fun _ => trivial
  unfold deliverFileOnce
  split
  · rename_i hreplicates
    exact .bind (.bind (hall hreplicates _ fun _ ht => ht) fun _ => trivial) fun _ => trivial
  · trivial

theorem keeps_deliverFileOnce (h : ∀ t ∈ e.targets item.id,
      pendingFileWritePath e.dataDir item.collection t item.id item.filename ≠ path)
    (result : FileResult) : Keeps path (deliverFileOnce e item result) := by
  have hpassive : ∀ place call, call.Passive → (Op.call ⟨.file place, call⟩).Avoids path := by
    intro place call hcall
    cases call <;> trivial
  refine only_deliverFileOnce (fun place call hcall _ => hpassive place call hcall)
    (fun _ t ht => ⟨?_, h t ht⟩) result
  exact only_writePendingFileWrite trivial (fun _ => trivial) (h t ht)

def FileResult.undelivered (res : FileResult) : FileResult :=
  { res with note := none, distributionComplete := none }

theorem run_deliverFileOnce {ν : Type} {host : Host ν} {faults : Faults} {w : World ν}
    (result : FileResult) :
    ((deliverFileOnce e item result).run (exec host faults) w).1.undelivered =
      result.undelivered := by
  unfold deliverFileOnce
  split
  · simp only [bind_eq, run_bind, pure_eq, run_done]
    rfl
  · rfl
end

/-! ## The server -/

structure SoleFileOwner (e : Engine) : Prop extends SoleOwner e where
  currentFiles : ∀ state, e.readState = some state → state.pendingFiles = []

def SafeIds {ν : Type} (host : Host ν) : Prop := ∀ n, SafeName (host.ids n)

def operationIdIn {ν : Type} (given : String) (host : Host ν) (w : World ν) : String :=
  if given = "" then host.ids w.issued else given

def operationIdDraws (given : String) : Nat := if given = "" then 1 else 0

def Upload.entryIn {ν : Type} (lib : FileLib) (host : Host ν) (w : World ν) (u : Upload) :
    FileEntry :=
  (AttachmentStore.uploaded u (operationIdIn u.operationId host w)
    (host.ids (w.issued + operationIdDraws u.operationId))).entry lib u.target.filename

/-- What is asked of a command. -/
def Admissible {ν : Type} (lib : FileLib) (e : Engine) (host : Host ν) (w : World ν) :
    StoreCommand → Prop
  | .document req => req.command = .create ∨ req.command = .delete ∧ e.cfg.Configured req.target
  | .put u => e.cfg.Configured u.target.collection ∧ SafeName u.operationId ∧
      (u.body.data.length : Int) < e.maxFileBytes ∧ lib.Fits (u.entryIn lib host w)
  | .delete target _ operationId => e.cfg.Configured target.collection ∧ SafeName operationId
  | .list collection _ => e.cfg.Configured collection
  | .read target => e.cfg.Configured target.collection

def serveFiles {ν : Type} (lib : FileLib) (e : Engine) (host : Host ν) (w : World ν) :
    StoreCommand → StoreAnswer × World ν
  | .document req =>
    let ran := (execute e req).run (exec host .none) w
    (.document ran.1.observe, ran.2)
  | .put u =>
    let ran := (putFile lib e u).run (exec host .none) w
    (.file ran.1.undelivered, ran.2)
  | .delete target ifMatch operationId =>
    let ran := (deleteFile lib e target ifMatch operationId).run (exec host .none) w
    (.file ran.1.undelivered, ran.2)
  | .list collection id =>
    let ran := (listFiles lib e collection id).run (exec host .none) w
    (.file ran.1, ran.2)
  | .read target =>
    let ran := (readFileCommand lib e target).run (exec host .none) w
    (match ran.1 with
      | .error res => .file res
      | .ok d => .download d, ran.2)

section
variable {ν : Type} {lib : FileLib} {host : Host ν} {e : Engine} {w w' : World ν}
  {s : AttachmentStore} {k : Key}
theorem Engine.maxFileBytes_pos (e : Engine) : 0 < e.maxFileBytes := by
  unfold Engine.maxFileBytes
  split
  · assumption
  · decide

theorem fileAdmission_owned (he : e.OwnsEverySlot) (target : FileTarget)
    (early command : FileCommand) (routing : Command) :
    fileAdmission e target early command routing =
      if ¬ AcceptedId target.id then .error (target.fail early invalidDocumentId)
      else if safeFileName target.filename = false then
        .error (target.fail early invalidFileName) else .ok () := by
  simp only [fileAdmission, checkRouting_owned he]
  rfl

theorem checkFileStaleness_owned (he : SoleFileOwner e) (command : FileCommand)
    (coll id filename : String) :
    checkFileStaleness e command coll id filename = none := by
  have hsot := (he.owns (slot id)).1
  unfold checkFileStaleness
  cases hstate : e.readState with
  | none => rfl
  | some state =>
    simp [hsot, he.currentFiles state hstate, ReadMemberState.isPendingFile,
      ReadMemberState.hasPendingFilesForDoc]

theorem run_fileOperationId (given : String) : (fileOperationId given).run (exec host .none) w =
      (.ok (operationIdIn given host w), w.tick (operationIdDraws given)) := by
  by_cases h : given = ""
  · simp [fileOperationId, operationIdIn, operationIdDraws, h]
    rfl
  · simp [fileOperationId, operationIdIn, operationIdDraws, h]

variable {given : String} {held : Attachments} {name : String} {rows : List FileEntry} {t : World ν}
  {out : FileResult × AttachmentStore} {target : FileTarget} {ifMatch : String} {req : Request}
theorem safeName_operationIdIn (hsafe : SafeIds host) (h : SafeName given) (w : World ν) :
    SafeName (operationIdIn given host w) := by
  unfold operationIdIn
  split
  · exact hsafe _
  · exact h

theorem operationIdFor_operationIdIn (given : String) (w : World ν) :
    AttachmentStore.OperationIdFor given (operationIdIn given host w) := by
  intro h
  simp [operationIdIn, h]

/-! ## Keeping the relation -/

theorem AttachmentSim.keep (h : AttachmentSim lib e host w s) (hissued : w.issued ≤ w'.issued)
    (hfiles : ∀ p, e.Tracked p → w'.files p = w.files p) : AttachmentSim lib e host w' s where
  documents := h.documents.keep hissued fun p hp => hfiles p (.inl hp)
  attached k hk := by
    obtain ⟨rows, hrows⟩ := h.attached k hk
    exact ⟨rows, hrows.congr fun p hp => hfiles p (.inr ⟨k, hk, hp⟩)⟩
  parents := h.parents
  versions := h.versions
  drawn v hv := by
    obtain ⟨n, hn, heq⟩ := h.drawn v hv
    exact ⟨n, by omega, heq⟩

theorem AttachmentSim.change (h : AttachmentSim lib e host w s) {used : Set String}
    (hk : e.ValidKey k) (hissued : w.issued ≤ w'.issued)
    (hfiles : ∀ p, e.Tracked p → ¬ e.AttachmentPath k p → w'.files p = w.files p)
    (hattached : ∃ rows, Attached lib e w' k held rows) (hparent : s.store.docs k ≠ none)
    (hused : s.used ⊆ used) (hversions : ∀ name a, held name = some a → a.version ∈ used)
    (hdrawn : ∀ v ∈ used, ∃ n < w'.issued, host.ids n = v) :
    AttachmentSim lib e host w' { s.setFiles k held with used } where
  documents := h.documents.keep hissued fun p hp =>
    hfiles p (.inl hp) fun hatt => hk.live_not_attachment hatt hp
  attached j hj := by
    by_cases hjk : j = k
    · subst hjk
      simpa [AttachmentStore.setFiles] using hattached
    · obtain ⟨rows, hrows⟩ := h.attached j hj
      refine ⟨rows, ?_⟩
      have hsame : (s.setFiles k held).files j = s.files j := by
        simp [AttachmentStore.setFiles, hjk]
      rw [hsame]
      refine hrows.congr fun p hp => hfiles p (.inr ⟨j, hj, hp⟩) fun hatt => ?_
      exact hjk (hj.attachment_inj hk hp hatt)
  parents j name a ha := by
    by_cases hjk : j = k
    · rw [hjk]
      exact hparent
    · refine h.parents j name a ?_
      simpa [AttachmentStore.setFiles, hjk] using ha
  versions j name a ha := by
    by_cases hjk : j = k
    · subst hjk
      exact hversions name a (by simpa [AttachmentStore.setFiles] using ha)
    · exact hused (h.versions j name a (by simpa [AttachmentStore.setFiles, hjk] using ha))
  drawn := hdrawn

theorem AttachmentSim.fresh (h : AttachmentSim lib e host w s) (hids : FreshIds host) {n : Nat}
    (hn : w.issued ≤ n) : host.ids n ∉ s.used := by
  intro hused
  obtain ⟨m, hm, heq⟩ := h.drawn _ hused
  have hmn := hids.injective heq
  omega

theorem AttachmentSim.version_ne_empty (h : AttachmentSim lib e host w s) (hids : FreshIds host)
    {a : Attachment} (ha : s.files k name = some a) : a.version ≠ "" := by
  obtain ⟨n, -, hn⟩ := h.drawn _ (h.versions k name a ha)
  rw [← hn]
  exact hids.nonempty n

theorem AttachmentSim.parent (h : AttachmentSim lib e host w s) (hk : e.ValidKey k) :
    w.files (e.live k.1 k.2) = none ↔ s.store.docs k = none := by
  rw [h.documents.file hk.configured hk.accepted]
  cases hdoc : s.store.docs (k.1, k.2) <;> simp_all

theorem lookup_held (h : AttachmentStore.Lists lib held rows) (name : String) :
    lookupFileEntry rows name = (held name).map (Attachment.entry lib name) := h.rows name

theorem AttachmentSim.delivered (h : AttachmentSim lib e host w s) {used : Set String}
    {item : FileWorkItem} {result : FileResult} (he : e.PlainTargets) (hk : e.ValidKey k)
    (hitem : (item.collection, item.id) = k) (hname : PlainName item.filename)
    (hissued : w.issued ≤ t.issued)
    (hfiles : ∀ p, e.Tracked p → ¬ e.AttachmentPath k p → t.files p = w.files p)
    (hattached : ∃ rows, Attached lib e t k held rows) (hparent : s.store.docs k ≠ none)
    (hused : s.used ⊆ used) (hversions : ∀ name a, held name = some a → a.version ∈ used)
    (hdrawn : ∀ v ∈ used, ∃ n < t.issued, host.ids n = v) :
    AttachmentSim lib e host ((deliverFileOnce e item result).run (exec host .none) t).2
      { s.setFiles k held with used } := by
  have hkeep : ∀ p, e.Tracked p →
      ((deliverFileOnce e item result).run (exec host .none) t).2.files p = t.files p := by
    intro p hp
    refine (keeps_deliverFileOnce ?_ result).run
    rintro server hserver rfl
    subst hitem
    exact hk.pendingFile_not_tracked (he _ server hserver) hname.noSlash hp
  have hmore : t.issued ≤
      ((deliverFileOnce e item result).run (exec host .none) t).2.issued := issued_le_run _ t
  refine h.change hk (Nat.le_trans hissued hmore) ?_ ?_ hparent hused hversions ?_
  · intro p hp hatt
    rw [hkeep p hp]
    exact hfiles p hp hatt
  · obtain ⟨rows, hrows⟩ := hattached
    exact ⟨rows, hrows.congr fun p hp => hkeep p (.inr ⟨k, hk, hp⟩)⟩
  · intro v hv
    obtain ⟨n, hn, heq⟩ := hdrawn v hv
    exact ⟨n, Nat.lt_of_lt_of_le hn hmore, heq⟩

def Engine.OneAttachment (e : Engine) (k : Key) (name : String) (w t : World ν) : Prop :=
  ∀ p, e.Tracked p → p ≠ binaryPath e.dataDir k.1 k.2 name →
    p ≠ filesManifestPath e.dataDir k.1 k.2 → t.files p = w.files p

theorem Engine.OneAttachment.outside (h : e.OneAttachment k name w w') (hname : PlainName name)
    {p : Path} (hp : e.Tracked p) (hatt : ¬ e.AttachmentPath k p) : w'.files p = w.files p := by
  refine h p hp ?_ ?_
  · rintro rfl
    exact hatt (.inr ⟨[name], (binaryPath_eq_append e.dataDir k.1 k.2 hname).symm⟩)
  · rintro rfl
    exact hatt (.inl rfl)

theorem Engine.OneAttachment.siblings (h : e.OneAttachment k name w w') (hk : e.ValidKey k)
    (hname : PlainName name) {rest : Path} (hrest : rest ≠ [name]) :
    w'.files (lfsDir e.dataDir k.1 k.2 ++ rest) = w.files (lfsDir e.dataDir k.1 k.2 ++ rest) := by
  refine h _ (.inr ⟨k, hk, .inr ⟨rest, rfl⟩⟩) ?_ ?_
  · rw [binaryPath_eq_append _ _ _ hname]
    exact fun heq => hrest (List.append_cancel_left heq)
  · exact lfsDir_append_ne_manifest hk.accepted.documentId rest

/-! ## Uploads and deletes -/

structure FileMatched (lib : FileLib) (e : Engine) (host : Host ν)
    (out : FileResult × AttachmentStore) (ran : FileResult × World ν) : Prop where
  answer : ran.1.undelivered = out.1
  sim : AttachmentSim lib e host ran.2 out.2

theorem FileMatched.refused (h : AttachmentSim lib e host w s) {ran : FileResult × World ν}
    {res : FileResult} (hout : out = (res, s)) (hran : ran.1 = res) (hres : res.undelivered = res)
    (hissued : w.issued ≤ ran.2.issued) (hfiles : ∀ p, e.Tracked p → ran.2.files p = w.files p) :
    FileMatched lib e host out ran := by
  subst hout
  exact ⟨by rw [hran, hres], h.keep hissued hfiles⟩

def Upload.staged (lib : FileLib) (e : Engine) (u : Upload) : StagedBinary :=
  ⟨stagePath e.dataDir u.target.collection u.target.id u.stage, u.body.data.length,
    lib.sha256 u.body.data⟩

def Upload.stagedIn (lib : FileLib) (e : Engine) (w : World ν) (u : Upload) : World ν :=
  w.put (u.staged lib e).stagedPath (some (.bytes u.body.data))

structure PutReady (lib : FileLib) (e : Engine) (u : Upload) : Prop where
  owns : e.OwnsEverySlot
  accepted : AcceptedId u.target.id
  named : safeFileName u.target.filename = true
  limit : (u.body.data.length : Int) < e.maxFileBytes

variable {u : Upload}
theorem PutReady.admitted (h : PutReady lib e u) :
    fileAdmission e u.target .fileCreate u.command .create = .ok () := by
  rw [fileAdmission_owned h.owns, if_neg (not_not.mpr h.accepted), h.named]
  rfl

theorem PutReady.run_stage (h : PutReady lib e u) :
    (stageWriteBinary lib e.dataDir u.target.collection u.target.id u.target.filename u.stage
        u.body e.maxFileBytes).run (exec host .none) w =
      (.ok (u.staged lib e), u.stagedIn lib e w) := by
  have hlimit : u.body.exceeds e.maxFileBytes = false := by
    have := h.limit
    simp only [Body.exceeds, decide_eq_false_iff_not]
    omega
  exact run_stageWriteBinary_ok h.named e.maxFileBytes_pos hlimit

theorem PutReady.run_refused (h : PutReady lib e u) {err : ApiError}
    (hlocal : (putLocal lib e u (u.staged lib e)).run (exec host .none) (u.stagedIn lib e w) =
      (.error err, t)) (ht : t.files (u.staged lib e).stagedPath ≠ none) :
    (putFile lib e u).run (exec host .none) w =
      (u.target.fail u.command err, t.put (u.staged lib e).stagedPath none) := by
  obtain ⟨file, hfile⟩ := Option.ne_none_iff_exists'.mp ht
  simp [putFile, h.admitted, h.run_stage, hlocal, hfile]

theorem PutReady.run_stored (h : PutReady lib e u) {entry : FileEntry}
    (hlocal : (putLocal lib e u (u.staged lib e)).run (exec host .none) (u.stagedIn lib e w) =
      (.ok entry, t)) :
    (putFile lib e u).run (exec host .none) w =
      (deliverFileOnce e (fileItem u.target u.command entry)
        (fileResponse u.target u.command entry)).run (exec host .none) t := by
  simp [putFile, h.admitted, h.run_stage, hlocal]

theorem Upload.admits_eq (u : Upload) (lib : FileLib) (name : String) (held : Option Attachment) :
    u.admits (held.map (Attachment.entry lib name)) = AttachmentStore.admits u held := by
  cases held with
  | none => rfl
  | some a =>
    simp only [Option.map_some, Upload.admits, AttachmentStore.admits, Attachment.entry]
    by_cases h : u.ifMatch = ""
    · rw [if_pos h, if_pos h]
    · rw [if_neg h, if_neg h]
      exact if_congr ne_comm rfl rfl

theorem PutReady.matched_refused (h : AttachmentSim lib e host w s) (hready : PutReady lib e u)
    (hk : e.ValidKey u.target.key) {err : ApiError}
    (hout : out = (u.target.fail u.command err, s))
    (hlocal : (putLocal lib e u (u.staged lib e)).run (exec host .none) (u.stagedIn lib e w) =
      (.error err, u.stagedIn lib e w)) :
    FileMatched lib e host out ((putFile lib e u).run (exec host .none) w) := by
  rw [hready.run_refused hlocal (by simp [Upload.stagedIn])]
  refine .refused h hout rfl rfl (Nat.le_refl _) fun p hp => ?_
  have hne : p ≠ (u.staged lib e).stagedPath := by
    rintro rfl
    exact hk.stage_not_tracked u.stage hp
  rw [put_files_other _ hne, Upload.stagedIn, put_files_other _ hne]

theorem run_putCommit {u : Upload} {t : World ν} {rows : List FileEntry} {file : File}
    (hnames : CommitNames u.target.id u.target.filename (operationIdIn u.operationId host t))
    (hfile : t.files (u.staged lib e).stagedPath = some file)
    (hread : t.manifest lib false (filesManifestPath e.dataDir u.target.collection u.target.id) =
      .ok rows) :
    ∃ command, (putCommit lib e u (u.staged lib e)).run (exec host .none) t =
      (.ok (u.entryIn lib host t), (uploadCommit e.dataDir u.target.collection u.target.id
        (t.tick (operationIdDraws u.operationId + 1)) rows (u.entryIn lib host t)
          (u.staged lib e) command).final) := by
  have hcommit : ∃ command, command ≠ .delete ∧ (commitStagedBinary lib e.dataDir
      u.target.collection u.target.id (u.entryIn lib host t) (u.staged lib e)).Ensures
        (exec host .none) (uploadCommit e.dataDir u.target.collection u.target.id
          (t.tick (operationIdDraws u.operationId + 1)) rows (u.entryIn lib host t)
            (u.staged lib e) command).Crash
        ((uploadCommit e.dataDir u.target.collection u.target.id
          (t.tick (operationIdDraws u.operationId + 1)) rows (u.entryIn lib host t)
            (u.staged lib e) command).Ends .none)
        (t.tick (operationIdDraws u.operationId + 1)) :=
    ensures_commitStagedBinary (hnames.paths _ _) ⟨u.stage, rfl⟩ hfile hread
  obtain ⟨command, -, hensures⟩ := hcommit
  have hrun := Commit.ends_ok hensures
  have hentry : u.entry (u.staged lib e) (operationIdIn u.operationId host t)
      (host.ids (t.issued + operationIdDraws u.operationId)) = u.entryIn lib host t := rfl
  refine ⟨command, ?_⟩
  simp only [putCommit, bind_eq, run_bind, run_fileOperationId, run_newId_none,
    tick_issued, tick_tick, hentry, hrun]
  rfl

theorem put_matched_stored (he : SoleFileOwner e) (h : AttachmentSim lib e host w s)
    (hready : PutReady lib e u) (hk : e.ValidKey u.target.key)
    (hnames : CommitNames u.target.id u.target.filename (operationIdIn u.operationId host w))
    (hfits : lib.Fits (u.entryIn lib host w)) (hparent : s.store.docs u.target.key ≠ none)
    (hout : out = (fileResponse u.target u.command (u.entryIn lib host w),
      { s.setFiles u.target.key (Function.update (s.files u.target.key) u.target.filename
          (some (AttachmentStore.uploaded u (operationIdIn u.operationId host w)
            (host.ids (w.issued + operationIdDraws u.operationId))))) with
        used := insert (host.ids (w.issued + operationIdDraws u.operationId)) s.used }))
    (hlocal : (putLocal lib e u (u.staged lib e)).run (exec host .none) (u.stagedIn lib e w) =
      (putCommit lib e u (u.staged lib e)).run (exec host .none) (u.stagedIn lib e w)) :
    FileMatched lib e host out ((putFile lib e u).run (exec host .none) w) := by
  obtain ⟨rows, hrows⟩ := h.attached _ hk
  have hstage : ∀ p, e.Tracked p → p ≠ (u.staged lib e).stagedPath := by
    rintro p hp rfl
    exact hk.stage_not_tracked u.stage hp
  have hkept : ∀ p, e.Tracked p → (u.stagedIn lib e w).files p = w.files p :=
    fun p hp => put_files_other _ (hstage p hp) _
  have hrows₁ : Attached lib e (u.stagedIn lib e w) u.target.key (s.files u.target.key) rows :=
    hrows.congr fun p hp => hkept p (.inr ⟨_, hk, hp⟩)
  have hpaths := hnames.paths e.dataDir u.target.collection
  obtain ⟨command, hcommit⟩ := @run_putCommit ν lib host e u (u.stagedIn lib e w) rows _ hnames
    (put_files_same _ _ _) hrows₁.read
  rw [hcommit] at hlocal
  rw [hready.run_stored hlocal, hout]
  obtain ⟨hblob, hmanifest, hother⟩ := @uploadCommit_final ν
    ((u.stagedIn lib e w).tick (operationIdDraws u.operationId + 1)) e.dataDir
    u.target.collection u.target.id (u.entryIn lib host (u.stagedIn lib e w)) rows
    (u.staged lib e) command hpaths
  have hone : e.OneAttachment u.target.key u.target.filename w (uploadCommit e.dataDir
      u.target.collection u.target.id ((u.stagedIn lib e w).tick
        (operationIdDraws u.operationId + 1)) rows (u.entryIn lib host (u.stagedIn lib e w))
          (u.staged lib e) command).final := by
    intro p hp hne hne'
    refine (hother p hne hne' ?_ (hstage p hp)).trans (hkept p hp)
    rintro rfl
    exact hk.journal_not_tracked hnames.operation hp
  have hunder := binaryPath_eq_append e.dataDir u.target.collection u.target.id hnames.filename
  refine ⟨run_deliverFileOnce _, h.delivered he.targets hk rfl hnames.filename ?_
    (fun p => hone.outside hnames.filename) ?_ hparent (Set.subset_insert _ _) ?_ ?_⟩
  · exact Nat.le_add_right _ _
  · refine ⟨_, hrows.put hfits hmanifest ?_ fun rest => hone.siblings hk hnames.filename⟩
    exact (congrArg _ hunder.symm).trans (hblob.trans (put_files_same _ _ _))
  · intro name a ha
    by_cases hname : name = u.target.filename
    · subst hname
      rw [Function.update_self] at ha
      cases ha
      exact Set.mem_insert _ _
    · rw [Function.update_of_ne hname] at ha
      exact Set.mem_insert_of_mem _ (h.versions _ _ _ ha)
  · intro v hv
    rcases Set.mem_insert_iff.mp hv with rfl | hv
    · exact ⟨_, Nat.lt_succ_self _, rfl⟩
    · obtain ⟨n, hn, heq⟩ := h.drawn v hv
      exact ⟨n, Nat.lt_of_lt_of_le hn (Nat.le_add_right _ _), heq⟩

theorem put_matched (he : SoleFileOwner e) (hsafe : SafeIds host)
    (h : AttachmentSim lib e host w s) (hadm : Admissible lib e host w (.put u)) :
    FileMatched lib e host (AttachmentStore.put lib (operationIdIn u.operationId host w)
        (host.ids (w.issued + operationIdDraws u.operationId)) s u)
      ((putFile lib e u).run (exec host .none) w) := by
  obtain ⟨hc, hop, hlimit, hfits⟩ := hadm
  have hadmission := fileAdmission_owned he.owns u.target .fileCreate u.command .create
  by_cases hid : AcceptedId u.target.id
  swap
  · rw [if_pos hid] at hadmission
    exact .refused h (by simp [AttachmentStore.put, hid]; rfl)
      (by simp [putFile, hadmission]) rfl (by simp [putFile, hadmission])
      fun p _ => by simp [putFile, hadmission]
  rw [if_neg (not_not.mpr hid)] at hadmission
  cases hname : safeFileName u.target.filename with
  | false =>
    rw [if_pos hname] at hadmission
    exact .refused h (by simp [AttachmentStore.put, hid, hname]; rfl)
      (by simp [putFile, hadmission]) rfl (by simp [putFile, hadmission])
      fun p _ => by simp [putFile, hadmission]
  | true =>
    have hready : PutReady lib e u := ⟨he.owns, hid, hname, hlimit⟩
    have hk : e.ValidKey u.target.key := ⟨hc, hid⟩
    have hlive : (u.stagedIn lib e w).files (e.live u.target.collection u.target.id) =
        w.files (e.live u.target.collection u.target.id) := by
      refine put_files_other _ ?_ _
      intro heq
      exact hk.stage_not_tracked u.stage (.inl ⟨_, _, hc, hid.documentId, heq.symm⟩)
    have hparent := h.parent hk
    cases hdoc : s.store.docs u.target.key with
    | none =>
      have habsent := hlive.trans (hparent.mpr hdoc)
      exact hready.matched_refused h hk
        (by simp [AttachmentStore.put, hid, hname, hdoc]; rfl) (by simp [putLocal, habsent])
    | some entry =>
      obtain ⟨file, hfile⟩ : ∃ file, w.files (e.live u.target.collection u.target.id) =
          some file := by
        refine Option.ne_none_iff_exists'.mp fun hnone => ?_
        rw [hparent.mp hnone] at hdoc
        cases hdoc
      rw [hfile] at hlive
      obtain ⟨rows, hrows⟩ := h.attached _ hk
      have hread : (u.stagedIn lib e w).manifest lib false
          (filesManifestPath e.dataDir u.target.collection u.target.id) = .ok rows := by
        refine (manifest_congr (put_files_other _ ?_ _) false).trans hrows.read
        intro heq
        exact hk.stage_not_tracked u.stage (.inr ⟨_, hk, .inl heq.symm⟩)
      have hdecision : u.admits (lookupFileEntry rows u.target.filename) =
          AttachmentStore.admits u (s.files u.target.key u.target.filename) := by
        rw [lookup_held hrows.lists, Upload.admits_eq]
      cases hadmits : AttachmentStore.admits u (s.files u.target.key u.target.filename) with
      | error err =>
        rw [hadmits] at hdecision
        exact hready.matched_refused h hk
          (by simp [AttachmentStore.put, hid, hname, hdoc, hadmits]; rfl)
          (by simp [putLocal, hlive, hread, hdecision])
      | ok granted =>
        rw [hadmits] at hdecision
        refine put_matched_stored he h hready hk ⟨hid.documentId, .of_safeFileName hname,
          safeName_operationIdIn hsafe hop w⟩ hfits (by simp [hdoc]) ?_ ?_
        · simp [AttachmentStore.put, hid, hname, hdoc, hadmits]
          rfl
        · simp [putLocal, hlive, hread, hdecision]

theorem run_deleteFileLocal {existing : FileEntry} {file : File}
    (hnames : CommitNames target.id existing.name (operationIdIn given host w))
    (hlive : w.files (e.live target.collection target.id) = some file)
    (hread : w.manifest lib false (filesManifestPath e.dataDir target.collection target.id) =
      .ok rows)
    (hguard : deleteFileGuard ifMatch (lookupFileEntry rows target.filename) = .ok existing) :
    (deleteFileLocal lib e target ifMatch given).run (exec host .none) w =
      (.ok { existing with operationId := operationIdIn given host w },
        (removalCommit e.dataDir target.collection target.id (w.tick (operationIdDraws given)) rows
          { existing with operationId := operationIdIn given host w }).final) := by
  have hrun : (commitFileDelete lib e.dataDir target.collection target.id
      { existing with operationId := operationIdIn given host w }).run (exec host .none)
        (w.tick (operationIdDraws given)) = (.ok (), _) :=
    Commit.ends_ok (ensures_commitFileDelete (hnames.paths _ _) hread)
  simp only [deleteFileLocal, bind_eq, run_bind, run_stat, Faults.none_apply,
    Bool.false_eq_true, if_false, hlive, run_readFilesManifest, hread, hguard,
    run_fileOperationId, hrun]
  rfl

theorem delete_matched_removed (he : SoleFileOwner e) (h : AttachmentSim lib e host w s)
    {a : Attachment} (hk : e.ValidKey target.key)
    (hnames : CommitNames target.id target.filename (operationIdIn given host w))
    (hadmission : fileAdmission e target .fileDelete .fileDelete .delete = .ok ())
    (hparent : s.store.docs target.key ≠ none)
    (hrows : Attached lib e w target.key (s.files target.key) rows)
    (hlocal : (deleteFileLocal lib e target ifMatch given).run (exec host .none) w =
      (.ok ({ a with operationId := operationIdIn given host w }.entry lib target.filename),
        (removalCommit e.dataDir target.collection target.id (w.tick (operationIdDraws given)) rows
          ({ a with operationId := operationIdIn given host w }.entry lib
            target.filename)).final)) :
    FileMatched lib e host (fileResponse target .fileDelete
        ({ a with operationId := operationIdIn given host w }.entry lib target.filename),
        s.setFiles target.key (Function.update (s.files target.key) target.filename none))
      ((deleteFile lib e target ifMatch given).run (exec host .none) w) := by
  generalize hentry : { a with operationId := operationIdIn given host w }.entry lib
    target.filename = entry at hlocal ⊢
  have hname : entry.name = target.filename := by rw [← hentry]; rfl
  have hop : entry.operationId = operationIdIn given host w := by rw [← hentry]; rfl
  have hpaths : CommitPaths e.dataDir target.collection target.id entry.name entry.operationId := by
    rw [hname, hop]
    exact hnames.paths _ _
  have hrun : (deleteFile lib e target ifMatch given).run (exec host .none) w =
      (deliverFileOnce e (fileItem target .fileDelete entry)
        (fileResponse target .fileDelete entry)).run (exec host .none) (removalCommit e.dataDir
          target.collection target.id (w.tick (operationIdDraws given)) rows entry).final := by
    simp only [deleteFile, hadmission, bind_eq, run_bind, run_locked, hlocal]
  obtain ⟨hblob, hmanifest, hother⟩ := @removalCommit_final ν
    (w.tick (operationIdDraws given)) e.dataDir target.collection target.id entry rows hpaths
  rw [hname] at hblob hmanifest hother
  rw [hop] at hother
  have hone : e.OneAttachment target.key target.filename w (removalCommit e.dataDir
      target.collection target.id (w.tick (operationIdDraws given)) rows entry).final := by
    intro p hp hne hne'
    refine hother p hne hne' ?_
    rintro rfl
    exact hk.journal_not_tracked hnames.operation hp
  have hunder := binaryPath_eq_append e.dataDir target.collection target.id hnames.filename
  rw [hrun]
  refine ⟨run_deliverFileOnce _, h.delivered he.targets hk rfl hnames.filename ?_
    (fun p => hone.outside hnames.filename) ?_ hparent (Set.Subset.refl _) ?_ ?_⟩
  · exact Nat.le_add_right _ _
  · refine ⟨_, hrows.drop hmanifest ?_ fun rest => hone.siblings hk hnames.filename⟩
    exact (congrArg _ hunder.symm).trans hblob
  · intro name b hb
    by_cases hother : name = target.filename
    · subst hother
      rw [Function.update_self] at hb
      cases hb
    · rw [Function.update_of_ne hother] at hb
      exact h.versions _ _ _ hb
  · intro v hv
    obtain ⟨n, hn, heq⟩ := h.drawn v hv
    exact ⟨n, Nat.lt_of_lt_of_le hn (Nat.le_add_right _ _), heq⟩

theorem deleteFile_matched (he : SoleFileOwner e) (hids : FreshIds host) (hsafe : SafeIds host)
    (h : AttachmentSim lib e host w s)
    (hadm : Admissible lib e host w (.delete target ifMatch given)) :
    FileMatched lib e host
      (AttachmentStore.delete lib (operationIdIn given host w) s target ifMatch)
      ((deleteFile lib e target ifMatch given).run (exec host .none) w) := by
  obtain ⟨hc, hop⟩ := hadm
  have hadmission := fileAdmission_owned he.owns target .fileDelete .fileDelete .delete
  have hrefused : ∀ err, fileAdmission e target .fileDelete .fileDelete .delete = .ok () →
      (deleteFileLocal lib e target ifMatch given).run (exec host .none) w = (.error err, w) →
      AttachmentStore.delete lib (operationIdIn given host w) s target ifMatch =
        (target.fail .fileDelete err, s) →
      FileMatched lib e host
        (AttachmentStore.delete lib (operationIdIn given host w) s target ifMatch)
        ((deleteFile lib e target ifMatch given).run (exec host .none) w) := by
    intro err hok hlocal hout
    exact .refused h hout (by simp [deleteFile, hok, hlocal]) rfl
      (by simp [deleteFile, hok, hlocal]) fun p _ => by simp [deleteFile, hok, hlocal]
  by_cases hid : AcceptedId target.id
  swap
  · rw [if_pos hid] at hadmission
    exact .refused h (by simp [AttachmentStore.delete, hid]; rfl)
      (by simp [deleteFile, hadmission]) rfl (by simp [deleteFile, hadmission])
      fun p _ => by simp [deleteFile, hadmission]
  rw [if_neg (not_not.mpr hid)] at hadmission
  cases hname : safeFileName target.filename with
  | false =>
    rw [if_pos hname] at hadmission
    exact .refused h (by simp [AttachmentStore.delete, hid, hname]; rfl)
      (by simp [deleteFile, hadmission]) rfl (by simp [deleteFile, hadmission])
      fun p _ => by simp [deleteFile, hadmission]
  | true =>
    rw [if_neg (by simp [hname])] at hadmission
    have hk : e.ValidKey target.key := ⟨hc, hid⟩
    have hparent := h.parent hk
    cases hdoc : s.store.docs target.key with
    | none =>
      have habsent : w.files (e.live target.collection target.id) = none := hparent.mpr hdoc
      exact hrefused parentNotFound hadmission (by simp [deleteFileLocal, habsent])
        (by simp [AttachmentStore.delete, hid, hname, hdoc])
    | some entry =>
      obtain ⟨file, hlive⟩ : ∃ file, w.files (e.live target.collection target.id) = some file := by
        refine Option.ne_none_iff_exists'.mp fun hnone => ?_
        rw [hparent.mp hnone] at hdoc
        cases hdoc
      obtain ⟨rows, hrows⟩ := h.attached _ hk
      have hread : w.manifest lib false
          (filesManifestPath e.dataDir target.collection target.id) = .ok rows := hrows.read
      have hfound := lookup_held hrows.lists target.filename
      cases hheld : s.files target.key target.filename with
      | none =>
        rw [hheld] at hfound
        exact hrefused fileNotFound hadmission
          (by simp [deleteFileLocal, hlive, hread, hfound, deleteFileGuard])
          (by simp [AttachmentStore.delete, hid, hname, hdoc, hheld])
      | some a =>
        rw [hheld] at hfound
        have hne := h.version_ne_empty hids hheld
        by_cases hversion : ifMatch = a.version
        · have hguard : deleteFileGuard ifMatch (lookupFileEntry rows target.filename) =
              .ok (a.entry lib target.filename) := by
            simp [hfound, deleteFileGuard, hversion, hne, Attachment.entry]
          have hnames : CommitNames target.id target.filename (operationIdIn given host w) :=
            ⟨hid.documentId, .of_safeFileName hname, safeName_operationIdIn hsafe hop w⟩
          have hout : AttachmentStore.delete lib (operationIdIn given host w) s target
              ifMatch = (fileResponse target .fileDelete
                ({ a with operationId := operationIdIn given host w }.entry lib
                  target.filename), s.setFiles target.key
                    (Function.update (s.files target.key) target.filename none)) := by
            simp [AttachmentStore.delete, hid, hname, hdoc, hheld, hversion]
          rw [hout]
          exact delete_matched_removed he h hk hnames hadmission (by simp [hdoc]) hrows
            (run_deleteFileLocal hnames hlive hread hguard)
        · exact hrefused (fileVersionMismatch ifMatch a.version) hadmission
            (by simp [deleteFileLocal, hlive, hread, hfound, deleteFileGuard, hversion,
              Attachment.entry])
            (by simp [AttachmentStore.delete, hid, hname, hdoc, hheld, hversion])

/-! ## Lists and reads -/

theorem list_answered (he : SoleFileOwner e) (h : AttachmentSim lib e host w s)
    {coll : String} (hc : e.cfg.Configured coll) (id : String) :
    ∃ res, AttachmentStore.Listed lib s coll id res ∧
      (listFiles lib e coll id).run (exec host .none) w = (res, w) := by
  have hrouting := checkRouting_owned he.owns (routed .read coll id)
  have hcurrent := checkFileStaleness_owned he .fileList coll id ""
  by_cases hid : AcceptedId id
  swap
  · refine ⟨_, by simp only [AttachmentStore.Listed, hid, not_false_eq_true, if_true]; rfl, ?_⟩
    have hinvalid : ¬ (validDocumentID id = true ∧ safeID id = true) := hid
    simp [listFiles, hinvalid]
  simp only [AttachmentStore.Listed, hid, not_true_eq_false, if_false]
  have hvalid : validDocumentID id = true ∧ safeID id = true := hid
  have hk : e.ValidKey (coll, id) := ⟨hc, hid⟩
  have hparent := h.parent hk
  cases hdoc : s.store.docs (coll, id) with
  | none =>
    have habsent : w.files (e.live coll id) = none := hparent.mpr hdoc
    exact ⟨_, rfl, by simp [listFiles, hvalid, hrouting, hcurrent, habsent]⟩
  | some entry =>
    obtain ⟨file, hlive⟩ : ∃ file, w.files (e.live coll id) = some file := by
      refine Option.ne_none_iff_exists'.mp fun hnone => ?_
      rw [hparent.mp hnone] at hdoc
      cases hdoc
    obtain ⟨rows, hrows⟩ := h.attached _ hk
    have hread : w.manifest lib false (filesManifestPath e.dataDir coll id) = .ok rows :=
      hrows.read
    exact ⟨_, ⟨rows, hrows.lists, rfl⟩,
      by simp [listFiles, hvalid, hrouting, hcurrent, hlive, hread]⟩

theorem read_answered (he : SoleFileOwner e) (h : AttachmentSim lib e host w s)
    (hc : e.cfg.Configured target.collection) :
    (serveFiles lib e host w (.read target)) = (AttachmentStore.read lib s target, w) := by
  have hadmission := fileAdmission_owned he.owns target .fileRead .fileRead .read
  have hcurrent := checkFileStaleness_owned he .fileRead target.collection target.id target.filename
  by_cases hid : AcceptedId target.id
  swap
  · rw [if_pos hid] at hadmission
    simp [serveFiles, readFileCommand, openFileForDownload, hadmission, AttachmentStore.read, hid]
  rw [if_neg (not_not.mpr hid)] at hadmission
  cases hname : safeFileName target.filename with
  | false =>
    rw [if_pos hname] at hadmission
    simp [serveFiles, readFileCommand, openFileForDownload, hadmission, AttachmentStore.read,
      hid, hname]
  | true =>
    rw [if_neg (by simp [hname])] at hadmission
    have hk : e.ValidKey target.key := ⟨hc, hid⟩
    have hparent := h.parent hk
    cases hdoc : s.store.docs target.key with
    | none =>
      have habsent : w.files (e.live target.collection target.id) = none := hparent.mpr hdoc
      simp [serveFiles, readFileCommand, openFileForDownload, hadmission, hcurrent, habsent,
        AttachmentStore.read, hid, hname, hdoc]
    | some entry =>
      obtain ⟨file, hlive⟩ : ∃ file, w.files (e.live target.collection target.id) = some file := by
        refine Option.ne_none_iff_exists'.mp fun hnone => ?_
        rw [hparent.mp hnone] at hdoc
        cases hdoc
      obtain ⟨rows, hrows⟩ := h.attached _ hk
      have hread : w.manifest lib false
          (filesManifestPath e.dataDir target.collection target.id) = .ok rows := hrows.read
      have hfound := lookup_held hrows.lists target.filename
      cases hheld : s.files target.key target.filename with
      | none =>
        rw [hheld] at hfound
        simp [serveFiles, readFileCommand, openFileForDownload, hadmission, hcurrent, hlive,
          hread, hfound, AttachmentStore.read, hid, hname, hdoc, hheld]
      | some a =>
        rw [hheld] at hfound
        have hblob : w.files (binaryPath e.dataDir target.collection target.id
            target.filename) = some (.bytes a.bytes) := by
          rw [binaryPath_eq_append _ _ _ (.of_safeFileName hname)]
          refine (hrows.blobs [target.filename]).trans ?_
          simp [Attachments.blob, hheld]
        simp [serveFiles, readFileCommand, openFileForDownload, hadmission, hcurrent, hlive,
          hread, hfound, openBinary, hname, hblob, File.data, download, Attachment.entry,
          AttachmentStore.read, hid, hdoc, hheld]

/-! ## Document commands -/

theorem create_attachments (he : e.PlainTargets) (hk : e.ValidKey k) {p : Path}
    (hp : e.AttachmentPath k p) : ((create e req).run (exec host .none) w).2.files p = w.files p := by
  rw [create_eq_committed, run_bind]
  rcases hcommit : (createCommitted e req).run (exec host .none) w with ⟨r, t⟩
  cases r with
  | error res =>
    obtain ⟨n, rfl⟩ := createCommitted_refused hcommit
    rfl
  | ok committed =>
    obtain ⟨item, res⟩ := committed
    obtain ⟨schemaRaw, doc, hready, rfl, hlocal⟩ := createCommitted_ok hcommit
    obtain ⟨hraw, hid⟩ := createAdmission_ok hready.admitted
    have hc := configured_of_schema hraw
    have hlive : p ≠ e.live req.target req.parameter := by
      rintro rfl
      exact hk.live_not_attachment hp ⟨_, _, hc, hid, rfl⟩
    refine ((hk.keeps_deliverOnce hp he hc hid res).run).trans ?_
    rw [createLocal_eq_ok hlocal, put_files_other _ (hk.queuePath_ne hp hc hid _).symm,
      put_files_other _ hlive, tick_files]

theorem delete_attachments (he : SoleFileOwner e) {req : Request}
    (hc : e.cfg.Configured req.target) :
    ((delete e req).run (exec host .none) w).1.ok = false ∧
        ((delete e req).run (exec host .none) w).2.files = w.files ∨
      ((delete e req).run (exec host .none) w).1.ok = true ∧
        ∀ k p, e.ValidKey k → e.AttachmentPath k p →
          ((delete e req).run (exec host .none) w).2.files p =
            if k = (req.target, req.parameter) then none else w.files p := by
  by_cases hready : ∃ old, DeleteReady e .none req w old
  swap
  · have hidle : Idle host .none (fun res : Result => res.ok = false) (delete e req) w :=
      idle_delete (by simpa using hready)
    obtain ⟨res, n, hrun, hres⟩ := hidle.run
    rw [hrun]
    exact .inl ⟨hres, rfl⟩
  obtain ⟨old, hready⟩ := hready
  have hid := deleteAdmission_ok hready.admitted
  have haccepted : AcceptedId req.parameter := by
    by_contra hrefused
    have hadm := hready.admitted
    rw [deleteAdmission_owned he.owns, if_pos hrefused] at hadm
    cases hadm
  have hown : e.ValidKey (req.target, req.parameter) := ⟨hc, haccepted⟩
  have hstored : (w.tick req.operationIdDraws).files (e.live req.target req.parameter) =
      some (.json (.obj old)) := hready.stored
  rw [run_delete_ready hready, run_deleteCommit_ok rfl hstored
    (by simp [DeleteUnfinished, QueueFails])]
  refine .inr ⟨?_, ?_⟩
  · exact congrArg Observation.ok (observe_deliverOnce _ _)
  · intro k p hk hp
    refine ((hk.keeps_deliverOnce hp he.targets hc hid _).run).trans ?_
    rw [put_files_other _ (hk.queuePath_ne hp hc hid _).symm]
    by_cases hsame : k = (req.target, req.parameter)
    · subst hsame
      rw [if_pos rfl, deleted, prune_files, prune_files]
      rcases hp with rfl | hp
      · simp
      · rw [if_pos hp]
        simp
    · have hother : ¬ e.AttachmentPath (req.target, req.parameter) p :=
        fun hatt => hsame (hk.attachment_inj hown hp hatt)
      have hops : ¬ fileOpsDir e.dataDir req.target req.parameter <+: p := by
        rintro ⟨rest, rfl⟩
        rw [fileOpsDir_eq hown.plain hid, List.append_assoc] at hp
        exact hk.dotted_not_attachment (by decide) (by simp) hp
      have hlive : p ≠ e.live req.target req.parameter := by
        rintro rfl
        exact hk.live_not_attachment hp ⟨_, _, hc, hid, rfl⟩
      rw [if_neg hsame, deleted_files (fun heq => hother (.inl heq)) (fun hlfs => hother (.inr hlfs))
        hops, vacate_files hlive (hk.previous_ne hp hc hid).symm, tick_files]

theorem Store.create_docs_ne_none {version : String} {store : Store} (h : store.docs k ≠ none) :
    (Store.create e version store req).2.docs k ≠ none := by
  by_cases hk : k = (req.target, req.parameter)
  · subst hk
    unfold Store.create
    split
    · exact h
    · split
      · exact h
      · simp [VersionedStore.docs_install]
  · rwa [Store.create_docs_other hk]

theorem Store.delete_cases (store : Store) (req : Request) :
    (Store.delete store req).1.ok = false ∧ (Store.delete store req).2 = store ∨
      (Store.delete store req).1.ok = true ∧
        (Store.delete store req).2 = store.remove (req.target, req.parameter) := by
  unfold Store.delete
  split
  · exact .inl ⟨rfl, rfl⟩
  · split
    · exact .inl ⟨rfl, rfl⟩
    · split
      · exact .inl ⟨rfl, rfl⟩
      · exact .inr ⟨rfl, rfl⟩

theorem document_created (he : SoleFileOwner e) (h : AttachmentSim lib e host w s)
    (hcmd : req.command = .create) :
    ((create e req).run (exec host .none) w).1.observe =
        (AttachmentStore.document e (req.createVersion host w) s req).1 ∧
      AttachmentSim lib e host ((create e req).run (exec host .none) w).2
        (AttachmentStore.document e (req.createVersion host w) s req).2 := by
  have hmatched : Matched e host (Store.create e (req.createVersion host w) s.store req)
      ((create e req).run (exec host .none) w) := create_matched he.toSoleOwner h.documents
  have hdocument : AttachmentStore.document e (req.createVersion host w) s req =
      ((Store.create e (req.createVersion host w) s.store req).1,
        { s with store := (Store.create e (req.createVersion host w) s.store req).2 }) := by
    simp [AttachmentStore.document, Store.execute, hcmd]
  rw [hdocument]
  refine ⟨hmatched.answer.symm, hmatched.sim, ?_, ?_, h.versions, ?_⟩
  · intro k hk
    obtain ⟨rows, hrows⟩ := h.attached k hk
    exact ⟨rows, hrows.congr fun p hp => create_attachments he.targets hk hp⟩
  · intro k name a ha
    exact Store.create_docs_ne_none (h.parents k name a ha)
  · intro v hv
    obtain ⟨n, hn, heq⟩ := h.drawn v hv
    exact ⟨n, Nat.lt_of_lt_of_le hn (issued_le_run _ _), heq⟩

theorem document_deleted (he : SoleFileOwner e) (hids : FreshIds host)
    (h : AttachmentSim lib e host w s) (hcmd : req.command = .delete)
    (hc : e.cfg.Configured req.target) (version : String) :
    ((delete e req).run (exec host .none) w).1.observe =
        (AttachmentStore.document e version s req).1 ∧
      AttachmentSim lib e host ((delete e req).run (exec host .none) w).2
        (AttachmentStore.document e version s req).2 := by
  have hmatched : Matched e host (Store.delete s.store req)
      ((delete e req).run (exec host .none) w) := delete_matched he.toSoleOwner hids h.documents hc
  have hok : (Store.delete s.store req).1.ok = ((delete e req).run (exec host .none) w).1.ok :=
    congrArg Observation.ok hmatched.answer
  have hissued : w.issued ≤ ((delete e req).run (exec host .none) w).2.issued := issued_le_run _ _
  have hdrawn : ∀ v ∈ s.used,
      ∃ n < ((delete e req).run (exec host .none) w).2.issued, host.ids n = v := by
    intro v hv
    obtain ⟨n, hn, heq⟩ := h.drawn v hv
    exact ⟨n, Nat.lt_of_lt_of_le hn hissued, heq⟩
  rcases Store.delete_cases s.store req with ⟨hrefused, hstore⟩ | ⟨hdone, hstore⟩
  · -- nothing is deleted, and nothing has changed
    have hdocument : AttachmentStore.document e version s req =
        ((Store.delete s.store req).1, s) := by
      simp [AttachmentStore.document, Store.execute, hcmd, hrefused, hstore]
    rw [hdocument]
    refine ⟨hmatched.answer.symm, h.keep hissued fun p _ => ?_⟩
    rcases @delete_attachments ν host e w he req hc with ⟨-, hfiles⟩ | ⟨hran, -⟩
    · rw [hfiles]
    · rw [← hok, hrefused] at hran
      cases hran
  · have hdocument : AttachmentStore.document e version s req =
        ((Store.delete s.store req).1, { s.setFiles (req.target, req.parameter) fun _ => none with
          store := s.store.remove (req.target, req.parameter) }) := by
      simp [AttachmentStore.document, Store.execute, hcmd, hdone, hstore, AttachmentStore.setFiles]
    have hsim := hmatched.sim
    rw [hstore] at hsim
    rw [hdocument]
    refine ⟨hmatched.answer.symm, hsim, ?_, ?_, ?_, hdrawn⟩
    · intro k hk
      rcases @delete_attachments ν host e w he req hc with ⟨hran, -⟩ | ⟨-, hfiles⟩
      · rw [← hok, hdone] at hran
        cases hran
      by_cases hsame : k = (req.target, req.parameter)
      · subst hsame
        refine ⟨[], ?_⟩
        have hheld : (s.setFiles (req.target, req.parameter) fun _ => none).files
            (req.target, req.parameter) = fun _ => none := by
          simp [AttachmentStore.setFiles]
        rw [hheld]
        refine .swept ?_ fun p hp => ?_
        · rw [hfiles _ _ hk (.inl rfl), if_pos rfl]
        · rw [hfiles _ _ hk (.inr hp), if_pos rfl]
      · obtain ⟨rows, hrows⟩ := h.attached k hk
        have hheld : (s.setFiles (req.target, req.parameter) fun _ => none).files k =
            s.files k := by
          simp [AttachmentStore.setFiles, hsame]
        rw [hheld]
        refine ⟨rows, hrows.congr fun p hp => ?_⟩
        rw [hfiles k p hk hp, if_neg hsame]
    · intro k name a ha
      by_cases hsame : k = (req.target, req.parameter)
      · simp [AttachmentStore.setFiles, hsame] at ha
      · rw [VersionedStore.docs_remove, if_neg hsame]
        exact h.parents k name a (by simpa [AttachmentStore.setFiles, hsame] using ha)
    · intro k name a ha
      by_cases hsame : k = (req.target, req.parameter)
      · simp [AttachmentStore.setFiles, hsame] at ha
      · exact h.versions k name a (by simpa [AttachmentStore.setFiles, hsame] using ha)

/-! ## Runs -/

theorem serveFiles_simulated (he : SoleFileOwner e) (hids : FreshIds host) (hsafe : SafeIds host)
    (h : AttachmentSim lib e host w s) {command : StoreCommand}
    (hadm : Admissible lib e host w command) :
    ∃ s', AttachmentStore.Answers lib e s command (serveFiles lib e host w command).1 s' ∧
      AttachmentSim lib e host (serveFiles lib e host w command).2 s' := by
  cases command with
  | document req =>
    rcases hadm with hcmd | ⟨hcmd, hc⟩
    · obtain ⟨hanswer, hsim⟩ := document_created he h hcmd
      refine ⟨_, ⟨req.createVersion host w, h.documents.fresh hids (Nat.le_add_right _ _), ?_,
        rfl⟩, ?_⟩
      · simp only [serveFiles, execute, hcmd, hanswer]
      · simpa only [serveFiles, execute, hcmd] using hsim
    · obtain ⟨hanswer, hsim⟩ := document_deleted he hids h hcmd hc (host.ids w.issued)
      refine ⟨_, ⟨host.ids w.issued, h.documents.fresh hids (Nat.le_refl _), ?_, rfl⟩, ?_⟩
      · simp only [serveFiles, execute, hcmd, hanswer]
      · simpa only [serveFiles, execute, hcmd] using hsim
  | put u =>
    have hmatched := put_matched he hsafe h hadm
    refine ⟨_, ⟨_, _, operationIdFor_operationIdIn u.operationId w,
      h.fresh hids (Nat.le_add_right _ _), ?_, rfl⟩, hmatched.sim⟩
    exact congrArg StoreAnswer.file hmatched.answer
  | delete target ifMatch given =>
    have hmatched := deleteFile_matched he hids hsafe h hadm
    refine ⟨_, ⟨_, operationIdFor_operationIdIn given w, ?_, rfl⟩, hmatched.sim⟩
    exact congrArg StoreAnswer.file hmatched.answer
  | list coll id =>
    obtain ⟨res, hlisted, hrun⟩ := list_answered he h hadm id
    refine ⟨s, ⟨⟨res, hlisted, ?_⟩, rfl⟩, ?_⟩
    · simp only [serveFiles, hrun]
    · simpa only [serveFiles, hrun] using h
  | read target =>
    have hrun := read_answered he h hadm
    refine ⟨s, ⟨?_, rfl⟩, ?_⟩
    · rw [hrun]
    · rw [hrun]
      exact h

theorem serveFiles_accepts (he : SoleFileOwner e) (hids : FreshIds host) (hsafe : SafeIds host)
    (h : AttachmentSim lib e host w s) (commands : List StoreCommand)
    (hadm : Guarded (serveFiles lib e host) (Admissible lib e host) w commands) :
    ∃ s', Accepts (AttachmentStore.Answers lib e) s commands
        (answers (serveFiles lib e host) w commands).1 s' ∧
      AttachmentSim lib e host (answers (serveFiles lib e host) w commands).2 s' := by
  have hstep : ∀ (w : World ν) (s : AttachmentStore) (command : StoreCommand),
      AttachmentSim lib e host w s → Admissible lib e host w command →
      ∃ s', AttachmentStore.Answers lib e s command (serveFiles lib e host w command).1 s' ∧
        AttachmentSim lib e host (serveFiles lib e host w command).2 s' := by
    intro w s command hsim hcommand
    exact serveFiles_simulated he hids hsafe hsim hcommand
  exact accepts_of_simulation hstep commands h hadm

/-- In every run the server answers like the attachment store, and after every command each
manifest has one entry for each blob, with its size and digest. -/
theorem attachment_store_refinement (he : SoleFileOwner e) (hids : FreshIds host)
    (hsafe : SafeIds host) (h : AttachmentSim lib e host w s) (commands : List StoreCommand)
    (hadm : Guarded (serveFiles lib e host) (Admissible lib e host) w commands) :
    (∃ s', Accepts (AttachmentStore.Answers lib e) s commands
        (answers (serveFiles lib e host) w commands).1 s' ∧
        AttachmentSim lib e host (answers (serveFiles lib e host) w commands).2 s') ∧
      ∀ n k, e.ValidKey k →
        ManifestMatches lib e (answers (serveFiles lib e host) w (commands.take n)).2 k := by
  refine ⟨serveFiles_accepts he hids hsafe h commands hadm, fun n k hk => ?_⟩
  obtain ⟨s', -, hsim⟩ := serveFiles_accepts he hids hsafe h (commands.take n) (hadm.take n)
  obtain ⟨rows, hrows⟩ := hsim.attached k hk
  exact hrows.matches
end

/-! ## A run -/

namespace Sample
def fileLib : FileLib := ⟨fun data => String.ofList (data.map fun b => Char.ofNat b.toNat), fun _ => 0⟩

def posterTarget : FileTarget := ⟨"Movies", "alien", "poster.png"⟩

def posterUpload (ifMatch : String) (data : List UInt8) : Upload :=
  { target := posterTarget, contentType := "image/png", ifMatch, operationId := "",
    body := ⟨data, true⟩, stage := ⟨"1", by decide⟩ }

theorem host_safe : SafeIds host := by
  intro n
  constructor
  · have hdigits : ∀ c ∈ Nat.toDigits 10 n, c ≠ '/' := by
      rintro c hc rfl
      exact absurd (Nat.isDigit_of_mem_toDigits (by decide) (by decide) hc) (by decide)
    simp only [host, String.toList_append, List.mem_append, not_or]
    refine ⟨by decide, fun hc => hdigits '/' ?_ rfl⟩
    simpa using hc
  · simp [host]

theorem server_soleFileOwner : SoleFileOwner server where
  toSoleOwner := server_soleOwner
  currentFiles state h := by cases h

theorem emptyWorld_attachmentSim : AttachmentSim fileLib server host emptyWorld .empty where
  documents := emptyWorld_sim
  attached k hk := ⟨[], .swept rfl fun p hp => rfl⟩
  parents k name a h := by cases h
  versions k name a h := by cases h
  drawn v h := by cases h

theorem posterUpload_admissible (w : World Unit) (ifMatch : String) (data : List UInt8)
    (h : (data.length : Int) < 10) :
    Admissible fileLib server host w (.put (posterUpload ifMatch data)) :=
  ⟨(by decide : server.cfg.Configured "Movies"), (by decide : SafeName ""), h.trans (by decide),
    (by decide : 0 < maxManifestLine)⟩

def posterCommands : List StoreCommand :=
  [.document createRequest, .put (posterUpload "" [1]), .put (posterUpload "v3" [1, 2]),
    .list "Movies" "alien", .read posterTarget, .delete posterTarget "v5" "",
    .put (posterUpload "" [3]), .document (deleteRequest "v1")]
end Sample
open Sample
theorem attachment_store_refinement_sample :
    (∃ s', Accepts (AttachmentStore.Answers fileLib server) .empty posterCommands
        (answers (serveFiles fileLib server host) emptyWorld posterCommands).1 s' ∧
        AttachmentSim fileLib server host (answers (serveFiles fileLib server host) emptyWorld
            posterCommands).2 s') ∧
      ∀ n k, server.ValidKey k → ManifestMatches fileLib server
        (answers (serveFiles fileLib server host) emptyWorld (posterCommands.take n)).2 k := by
  refine attachment_store_refinement server_soleFileOwner host_fresh
    host_safe emptyWorld_attachmentSim posterCommands ?_
  exact ⟨.inl rfl, posterUpload_admissible _ _ _ (by decide),
    posterUpload_admissible _ _ _ (by decide),
    (by decide : server.cfg.Configured "Movies"),
    (by decide : server.cfg.Configured "Movies"), ⟨by decide, by decide⟩,
    posterUpload_admissible _ _ _ (by decide), .inr ⟨rfl, by decide⟩, trivial⟩
end Datorium
