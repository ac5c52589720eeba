import Datorium.Attachments.Refinement
/-!
# Applying replicated attachment writes

What a member keeps of the writes that reach it, in any order and any number of times, is a map from
documents and file names to attachments.
-/
namespace Datorium
open Framework Program World Function
/-- A file write that reaches a member; `stage` is the name its temporary file gets. -/
structure FileDelivery where
  item : FileWorkItem
  stage : StageName
  body : Body

namespace FileWorkItem
def label (item : FileWorkItem) : String :=
  item.collection ++ "/" ++ item.id ++ "/" ++ item.filename

def removed (item : FileWorkItem) : FileEntry :=
  ⟨item.filename, item.contentType, item.byteSize, item.sha256, item.version, item.operationId⟩

def stored (item : FileWorkItem) (staged : StagedBinary) : FileEntry :=
  { name := item.filename
    contentType := if item.contentType = "" then "application/octet-stream" else item.contentType
    byteSize := staged.byteSize, sha256 := staged.sha256, version := item.version,
    operationId := item.operationId }

def mismatch (item : FileWorkItem) (staged : StagedBinary) : Option FsError :=
  if item.sha256 ≠ "" ∧ staged.sha256 ≠ item.sha256 then
    some (.other ("replication: sha256 mismatch for " ++ item.label ++ ": got " ++ staged.sha256 ++
      " want " ++ item.sha256))
  else if 0 < item.byteSize ∧ staged.byteSize ≠ item.byteSize then
    some (.other ("replication: byteSize mismatch for " ++ item.label ++ ": got " ++
      toString staged.byteSize ++ " want " ++ toString item.byteSize))
  else none

def known (item : FileWorkItem) (existing : Option FileEntry) : Bool :=
  existing.any fun entry => entry.version == item.version && entry.sha256 == item.sha256
/-- The entry is that of the item. -/
def Listed (item : FileWorkItem) (existing : Option FileEntry) : Prop :=
  ∃ entry, existing = some entry ∧ entry.version = item.version ∧
    (item.sha256 ≠ "" → entry.sha256 = item.sha256)

end FileWorkItem

def applyMetadataOnly (lib : FileLib) (dataDir : Path) (item : FileWorkItem) :
    Prog (Except FsError Bool) :=
  if item.command ≠ .fileDelete then
    pure (.error (.other ("replication: ApplyMetadataOnly expects fileDelete, got \"" ++
      item.command.text ++ "\"")))
  else do
    match ← readFilesManifest lib (.file .manifest) dataDir item.collection item.id with
    | .error err => pure (.error err)
    | .ok entries =>
      if (lookupFileEntry entries item.filename).isNone then pure (.ok true)
      else
        match ← commitFileDelete lib dataDir item.collection item.id item.removed with
        | .error err => pure (.error err)
        | .ok () => pure (.ok true)

def applyStaged (lib : FileLib) (dataDir : Path) (item : FileWorkItem) (staged : StagedBinary) :
    Prog (Except FsError Unit) :=
  match item.mismatch staged with
  | some err => pure (.error err)
  | none => commitStagedBinary lib dataDir item.collection item.id (item.stored staged) staged

/-- The part of `ApplyStream` after the manifest is read. -/
def applyUpload (lib : FileLib) (dataDir : Path) (d : FileDelivery) (maxBytes : Int) :
    Prog (Except FsError Bool) := do
  match ← stageWriteBinary lib dataDir d.item.collection d.item.id d.item.filename d.stage d.body
      maxBytes with
  | .error err => pure (.error err)
  | .ok staged =>
    match ← applyStaged lib dataDir d.item staged with
    | .error err => do
        let _ ← remove (.file .discard) staged.stagedPath
        pure (.error err)
    | .ok () => pure (.ok true)

def applyStream (lib : FileLib) (dataDir : Path) (d : FileDelivery) (maxBytes : Int) :
    Prog (Except FsError Bool) :=
  let item := d.item
  if item.command ≠ .fileCreate ∧ item.command ≠ .fileUpdate then
    pure (.error (.other ("replication: ApplyStream expects fileCreate/fileUpdate, got \"" ++
      item.command.text ++ "\"")))
  else do
    match ← readFilesManifest lib (.file .manifest) dataDir item.collection item.id with
    | .error err => pure (.error err)
    | .ok entries =>
      if item.known (lookupFileEntry entries item.filename) then pure (.ok true)
      else applyUpload lib dataDir d maxBytes

/-- How the push endpoint and the catch-up agent use `FileApplier`. -/
def applyFile (lib : FileLib) (m : Engine) (d : FileDelivery) : Prog (Except FsError Bool) :=
  if d.item.command = .fileDelete then applyMetadataOnly lib m.dataDir d.item
  else applyStream lib m.dataDir d m.maxFileBytes

/-! ## The map a member keeps -/

namespace FileDelivery
def key (d : FileDelivery) : Key := (d.item.collection, d.item.id)

def staged (lib : FileLib) (m : Engine) (d : FileDelivery) : StagedBinary :=
  ⟨stagePath m.dataDir d.item.collection d.item.id d.stage, d.body.data.length,
    lib.sha256 d.body.data⟩

def uploaded (d : FileDelivery) : Attachment where
  version := d.item.version
  contentType := if d.item.contentType = "" then "application/octet-stream" else d.item.contentType
  operationId := d.item.operationId
  bytes := d.body.data

def uploadOutcome (lib : FileLib) (m : Engine) (d : FileDelivery) (held : Option Attachment) :
    Option (Option Attachment) :=
  if d.item.known (held.map (Attachment.entry lib d.item.filename)) then some held
  else if d.body.exceeds m.maxFileBytes = false ∧ d.item.mismatch (d.staged lib m) = none then
    some (some d.uploaded)
  else none

/-- What the member holds of the file after an item it accepts; `none` if it refuses the item. -/
def outcome (lib : FileLib) (m : Engine) (d : FileDelivery) (held : Option Attachment) :
    Option (Option Attachment) :=
  match d.item.command with
  | .fileDelete => some none
  | .fileList | .fileRead => none
  | .fileCreate | .fileUpdate => d.uploadOutcome lib m held

def Settles (d : FileDelivery) (s : Key → Attachments) (ok : Bool) (s' : Key → Attachments) :
    Option (Option Attachment) → Prop
  | none => ok = false ∧ s' = s
  | some held => ok = true ∧ s' = update s d.key (update (s d.key) d.item.filename held)

def Answers (lib : FileLib) (m : Engine) (s : Key → Attachments) (d : FileDelivery) (ok : Bool)
    (s' : Key → Attachments) : Prop :=
  d.Settles s ok s' (d.outcome lib m (s d.key d.item.filename))

structure Admissible (lib : FileLib) (m : Engine) (d : FileDelivery) : Prop where
  key : m.ValidKey d.key
  safe : safeFileName d.item.filename = true
  operation : SafeName d.item.operationId
  fits : lib.Fits (d.uploaded.entry lib d.item.filename)
end FileDelivery

def ReplicaSim {ν : Type} (lib : FileLib) (m : Engine) (w : World ν) (s : Key → Attachments) :
    Prop :=
  ∀ k, m.ValidKey k → ∃ rows, Attached lib m w k (s k) rows

/-- The member answers like the map, and what it leaves is what the map holds. -/
def Reflects {ν : Type} (lib : FileLib) (m : Engine) (host : Host ν) (w : World ν)
    (s : Key → Attachments) (d : FileDelivery) (outcome : Option (Option Attachment))
    (p : Prog (Except FsError Bool)) : Prop :=
  ∃ s', d.Settles s (p.run (exec host .none) w).1.isOk s' outcome ∧
    ReplicaSim lib m (p.run (exec host .none) w).2 s'

def serveDelivery {ν : Type} (lib : FileLib) (m : Engine) (host : Host ν) (w : World ν)
    (d : FileDelivery) : Bool × World ν :=
  let ran := (applyFile lib m d).run (exec host .none) w
  (ran.1.isOk, ran.2)

section
variable {ν : Type} {lib : FileLib} {m : Engine} {host : Host ν} {w w' : World ν}
  {s : Key → Attachments} {d : FileDelivery} {rows : List FileEntry} {k : Key} {name : String}
  {outcome : Option (Option Attachment)} {p : Prog (Except FsError Bool)}
theorem Reflects.of_run (r : Except FsError Bool) (w' : World ν) {s' : Key → Attachments}
    (hrun : p.run (exec host .none) w = (r, w')) (hsettles : d.Settles s r.isOk s' outcome)
    (hsim : ReplicaSim lib m w' s') : Reflects lib m host w s d outcome p := by
  rw [Reflects, hrun]
  exact ⟨s', hsettles, hsim⟩

theorem ReplicaSim.keep (h : ReplicaSim lib m w s)
    (hfiles : ∀ p, m.Tracked p → w'.files p = w.files p) : ReplicaSim lib m w' s := by
  intro k hk
  obtain ⟨rows, hrows⟩ := h k hk
  exact ⟨rows, hrows.congr fun p hp => hfiles p (.inr ⟨k, hk, hp⟩)⟩

theorem ReplicaSim.change (h : ReplicaSim lib m w s) (hk : m.ValidKey k) (hname : PlainName name)
    (hone : m.OneAttachment k name w w') {held : Attachments}
    (hrows : Attached lib m w' k held rows) : ReplicaSim lib m w' (update s k held) := by
  intro k' hk'
  by_cases heq : k' = k
  · subst heq
    rw [update_self]
    exact ⟨rows, hrows⟩
  · rw [update_of_ne heq]
    obtain ⟨rows', hrows'⟩ := h k' hk'
    refine ⟨rows', hrows'.congr fun p hp => ?_⟩
    exact hone.outside hname (.inr ⟨k', hk', hp⟩) fun hp' => heq (hk'.attachment_inj hk hp hp')

theorem run_stage_delivery (hsafe : safeFileName d.item.filename = true) :
    (stageWriteBinary lib m.dataDir d.item.collection d.item.id d.item.filename d.stage d.body
      m.maxFileBytes).run (exec host .none) w = if d.body.exceeds m.maxFileBytes then
        (.error fileTooLarge, w.put (d.staged lib m).stagedPath none)
      else (.ok (d.staged lib m), w.put (d.staged lib m).stagedPath (some (.bytes d.body.data))) := by
  cases hlimit : d.body.exceeds m.maxFileBytes with
  | true =>
    simp [stageWriteBinary, hsafe, not_le.mpr m.maxFileBytes_pos, fillStage, hlimit, put_put,
      FileDelivery.staged]
  | false => exact run_stageWriteBinary_ok hsafe m.maxFileBytes_pos hlimit

theorem applyMetadataOnly_reflects (h : ReplicaSim lib m w s) (hd : d.Admissible lib m)
    (hcommand : d.item.command = .fileDelete) :
    Reflects lib m host w s d (some none) (applyMetadataOnly lib m.dataDir d.item) := by
  have hname := PlainName.of_safeFileName hd.safe
  obtain ⟨rows, hrows⟩ := h _ hd.key
  have hread : w.manifest lib false (filesManifestPath m.dataDir d.item.collection d.item.id) =
      .ok rows := hrows.read
  have hlookup := lookup_held hrows.lists d.item.filename
  cases hheld : s d.key d.item.filename with
  | none =>
    rw [hheld] at hlookup
    refine .of_run (.ok true) w ?_ ⟨rfl, rfl⟩ ?_
    · simp [applyMetadataOnly, hcommand, hread, hlookup]
    · rwa [← hheld, update_eq_self, update_eq_self]
  | some a =>
    rw [hheld] at hlookup
    have hnames : CommitNames d.item.id d.item.removed.name d.item.removed.operationId :=
      ⟨hd.key.accepted.documentId, hname, hd.operation⟩
    have hpaths := hnames.paths m.dataDir d.item.collection
    have hrun : (commitFileDelete lib m.dataDir d.item.collection d.item.id d.item.removed).run
        (exec host .none) w = (.ok (), _) := Commit.ends_ok (ensures_commitFileDelete hpaths hread)
    obtain ⟨hblob, hmanifest, hother⟩ := @removalCommit_final ν w _ _ _ _ rows hpaths
    generalize (removalCommit _ _ _ w rows _).final = t at hrun hblob hmanifest hother
    have hone : m.OneAttachment d.key d.item.filename w t := fun p hp hne hne' =>
      hother p hne hne' fun heq => hd.key.journal_not_tracked hd.operation (heq ▸ hp)
    refine .of_run (.ok true) t ?_ ⟨rfl, rfl⟩
      (h.change hd.key hname hone (hrows.drop hmanifest ?_ fun rest => hone.siblings hd.key hname))
    · simp [applyMetadataOnly, hcommand, hread, hlookup, hrun]
    · exact (congrArg _ (binaryPath_eq_append _ _ _ hname).symm).trans hblob

theorem commit_upload_reflects (h : ReplicaSim lib m w s) (hd : d.Admissible lib m)
    (hfile : w.files (d.staged lib m).stagedPath = some (.bytes d.body.data)) :
    ∃ t, (commitStagedBinary lib m.dataDir d.item.collection d.item.id
        (d.item.stored (d.staged lib m)) (d.staged lib m)).run (exec host .none) w = (.ok (), t) ∧
      ReplicaSim lib m t
        (update s d.key (update (s d.key) d.item.filename (some d.uploaded))) := by
  have hname := PlainName.of_safeFileName hd.safe
  obtain ⟨rows, hrows⟩ := h _ hd.key
  have hnames : CommitNames d.item.id (d.item.stored (d.staged lib m)).name
      (d.item.stored (d.staged lib m)).operationId :=
    ⟨hd.key.accepted.documentId, hname, hd.operation⟩
  have hpaths := hnames.paths m.dataDir d.item.collection
  obtain ⟨command, -, hensures⟩ := @ensures_commitStagedBinary ν host .none w lib _ _ _ _ rows _ _
    hpaths ⟨d.stage, rfl⟩ hfile hrows.read
  have hrun := Commit.ends_ok hensures
  obtain ⟨hblob, hmanifest, hother⟩ := @uploadCommit_final ν w _ _ _ _ rows (d.staged lib m)
    command hpaths
  generalize (uploadCommit _ _ _ w rows _ _ command).final = t at hrun hblob hmanifest hother
  have hone : m.OneAttachment d.key d.item.filename w t := fun p hp hne hne' =>
    hother p hne hne' (fun heq => hd.key.journal_not_tracked hd.operation (heq ▸ hp)) (by
      rintro rfl
      exact hd.key.stage_not_tracked d.stage hp)
  refine ⟨t, hrun, h.change hd.key hname hone (hrows.put hd.fits hmanifest ?_ fun rest =>
    hone.siblings hd.key hname)⟩
  exact (congrArg _ (binaryPath_eq_append _ _ _ hname).symm).trans (hblob.trans hfile)

theorem applyUpload_reflects (h : ReplicaSim lib m w s) (hd : d.Admissible lib m) :
    Reflects lib m host w s d (if d.body.exceeds m.maxFileBytes = false ∧
        d.item.mismatch (d.staged lib m) = none then some (some d.uploaded) else none)
      (applyUpload lib m.dataDir d m.maxFileBytes) := by
  have hkeep : ∀ file, ReplicaSim lib m (w.put (d.staged lib m).stagedPath file) s := by
    intro file
    refine h.keep fun p hp => put_files_other _ ?_ _
    rintro rfl
    exact hd.key.stage_not_tracked d.stage hp
  have hstage := @run_stage_delivery ν lib m host w d hd.safe
  cases hlimit : d.body.exceeds m.maxFileBytes with
  | true =>
    rw [hlimit] at hstage
    exact .of_run (.error fileTooLarge) _ (by simp [applyUpload, hstage]) ⟨rfl, rfl⟩ (hkeep none)
  | false =>
    rw [hlimit] at hstage
    cases hmatch : d.item.mismatch (d.staged lib m) with
    | some err =>
      exact .of_run (.error err) _ (by simp [applyUpload, hstage, applyStaged, hmatch, put_put])
        ⟨rfl, rfl⟩ (hkeep none)
    | none =>
      obtain ⟨t, hrun, hsim⟩ := @commit_upload_reflects ν lib m host _ s d (hkeep _) hd
        (put_files_same _ _ _)
      exact .of_run (.ok true) t (by simp [applyUpload, hstage, applyStaged, hmatch, hrun])
        ⟨rfl, rfl⟩ hsim

theorem applyStream_reflects (h : ReplicaSim lib m w s) (hd : d.Admissible lib m)
    (hcommand : d.item.command = .fileCreate ∨ d.item.command = .fileUpdate) :
    Reflects lib m host w s d (d.uploadOutcome lib m (s d.key d.item.filename))
      (applyStream lib m.dataDir d m.maxFileBytes) := by
  obtain ⟨rows, hrows⟩ := h _ hd.key
  have hread : w.manifest lib false (filesManifestPath m.dataDir d.item.collection d.item.id) =
      .ok rows := hrows.read
  have hrun : (applyStream lib m.dataDir d m.maxFileBytes).run (exec host .none) w =
      if d.item.known (lookupFileEntry rows d.item.filename) then (.ok true, w)
      else (applyUpload lib m.dataDir d m.maxFileBytes).run (exec host .none) w := by
    cases hknown : d.item.known (lookupFileEntry rows d.item.filename) <;>
      rcases hcommand with hcommand | hcommand <;> simp [applyStream, hcommand, hread, hknown]
  rw [Reflects, hrun, FileDelivery.uploadOutcome, ← lookup_held hrows.lists d.item.filename]
  split
  · exact ⟨s, ⟨rfl, by rw [update_eq_self, update_eq_self]⟩, h⟩
  · exact applyUpload_reflects h hd

theorem applyFile_reflects (h : ReplicaSim lib m w s) (hd : d.Admissible lib m) :
    Reflects lib m host w s d (d.outcome lib m (s d.key d.item.filename)) (applyFile lib m d) := by
  have hstream := @applyStream_reflects ν lib m host w s d h hd
  unfold FileDelivery.outcome applyFile
  cases hcommand : d.item.command with
  | fileDelete => exact applyMetadataOnly_reflects h hd hcommand
  | fileCreate => exact hstream (.inl hcommand)
  | fileUpdate => exact hstream (.inr hcommand)
  | fileList | fileRead =>
    simp only [applyStream, hcommand, reduceCtorEq, if_false, ne_eq, not_false_eq_true, and_self,
      if_true]
    exact ⟨s, ⟨rfl, rfl⟩, h⟩

theorem FileDelivery.uploadOutcome_reflected {held after : Option Attachment}
    (h : d.uploadOutcome lib m held = some after) :
    d.item.Listed (after.map (Attachment.entry lib d.item.filename)) := by
  unfold FileDelivery.uploadOutcome at h
  split at h
  · rename_i hknown
    cases h
    cases hentry : held.map (Attachment.entry lib d.item.filename) with
    | none =>
      rw [hentry] at hknown
      cases hknown
    | some entry =>
      rw [hentry, FileWorkItem.known, Option.any_some, Bool.and_eq_true] at hknown
      exact ⟨entry, rfl, eq_of_beq hknown.1, fun _ => eq_of_beq hknown.2⟩
  · split at h
    · rename_i hfits
      cases h
      refine ⟨_, rfl, rfl, fun hne => ?_⟩
      by_contra hsha
      have hmismatch := hfits.2
      rw [FileWorkItem.mismatch, if_pos ⟨hne, hsha⟩] at hmismatch
      cases hmismatch
    · cases h

/-- An acknowledged write is listed under its version and digest, an acknowledged removal is not. -/
theorem file_acknowledgement_sound (h : ReplicaSim lib m w s) (hd : d.Admissible lib m)
    (hok : (serveDelivery lib m host w d).1 = true) :
    ∃ rows, (serveDelivery lib m host w d).2.manifest lib false
        (filesManifestPath m.dataDir d.item.collection d.item.id) = .ok rows ∧
      if d.item.command = .fileDelete then lookupFileEntry rows d.item.filename = none
      else d.item.Listed (lookupFileEntry rows d.item.filename) := by
  obtain ⟨s', hsettles, hsim⟩ := @applyFile_reflects ν lib m host w s d h hd
  obtain ⟨rows, hrows⟩ := hsim _ hd.key
  have hlookup := lookup_held hrows.lists d.item.filename
  refine ⟨rows, hrows.read, ?_⟩
  cases houtcome : d.outcome lib m (s d.key d.item.filename) with
  | none =>
    rw [houtcome] at hsettles
    cases hok.symm.trans hsettles.1
  | some held =>
    rw [houtcome] at hsettles
    rw [hsettles.2, update_self, update_self] at hlookup
    unfold FileDelivery.outcome at houtcome
    cases hcommand : d.item.command with
    | fileDelete =>
      rw [hcommand] at houtcome
      cases houtcome
      rw [if_pos rfl, hlookup]
      rfl
    | fileList | fileRead =>
      rw [hcommand] at houtcome
      cases houtcome
    | fileCreate | fileUpdate =>
      rw [hcommand] at houtcome
      rw [if_neg (by decide), hlookup]
      exact FileDelivery.uploadOutcome_reflected houtcome

/-- In every run the member answers like the map, and after every item each manifest has one entry
for each blob, with its size and digest. -/
theorem file_replica_refinement (h : ReplicaSim lib m w s) (ds : List FileDelivery)
    (hds : Guarded (serveDelivery lib m host) (fun _ d => d.Admissible lib m) w ds) :
    (∃ s', Accepts (FileDelivery.Answers lib m) s ds (answers (serveDelivery lib m host) w ds).1 s' ∧
        ReplicaSim lib m (answers (serveDelivery lib m host) w ds).2 s') ∧
      ∀ n k, m.ValidKey k →
        ManifestMatches lib m (answers (serveDelivery lib m host) w (ds.take n)).2 k := by
  have hruns := @accepts_of_simulation _ _ _ _ (serveDelivery lib m host) (FileDelivery.Answers lib m)
    _ (ReplicaSim lib m) fun w s d => @applyFile_reflects ν lib m host w s d
  refine ⟨hruns ds h hds, fun n k hk => ?_⟩
  obtain ⟨s', -, hsim⟩ := hruns (ds.take n) h (hds.take n)
  obtain ⟨rows, hrows⟩ := hsim k hk
  exact hrows.matches
end
namespace Sample
def posterArrival (command : FileCommand) (data : List UInt8) : FileDelivery where
  item := ⟨"Movies", "alien", "poster.png", "image/png", 1, fileLib.sha256 [1], "v1", "", command⟩
  stage := (posterUpload "" data).stage
  body := ⟨data, true⟩

/-- A body that does not match the digest, an upload that comes twice, and its removal. -/
def posterArrivals : List FileDelivery :=
  [posterArrival .fileCreate [2], posterArrival .fileCreate [1], posterArrival .fileCreate [1],
    posterArrival .fileDelete []]

theorem posterArrival_admissible (command : FileCommand) (data : List UInt8) :
    (posterArrival command data).Admissible fileLib server :=
  ⟨⟨(by decide : server.cfg.Configured "Movies"), (by decide +kernel : AcceptedId "alien")⟩,
    (by decide +kernel : safeFileName "poster.png" = true), (by decide : SafeName ""),
    (by decide : 0 < maxManifestLine)⟩
end Sample
open Sample
theorem file_replica_poster : ManifestMatches fileLib server
    (answers (serveDelivery fileLib server host) emptyWorld posterArrivals).2 ("Movies", "alien") := by
  have h := posterArrival_admissible
  exact (file_replica_refinement emptyWorld_attachmentSim.attached posterArrivals
    ⟨h _ _, h _ _, h _ _, h _ _, trivial⟩).2 4 _ (h .fileDelete []).key

theorem file_acknowledged_poster :
    ∃ rows, (serveDelivery fileLib server host emptyWorld (posterArrival .fileCreate [1])).2.manifest
        fileLib false (filesManifestPath server.dataDir "Movies" "alien") = .ok rows ∧
      (posterArrival .fileCreate [1]).item.Listed (lookupFileEntry rows "poster.png") :=
  file_acknowledgement_sound emptyWorld_attachmentSim.attached (posterArrival_admissible _ _)
    (by decide +kernel)
end Datorium
