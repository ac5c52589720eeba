
import Datorium.Attachments.Blobs
/-!
# The course of a commit

The triples here say of every step what a process that dies there leaves behind, and of every error
which step it comes from and what it leaves.
-/
namespace Datorium
open Framework Program World
structure SafeName (name : String) : Prop where
  noSlash : '/' ∉ name.toList
  visible : name.toList.head? ≠ some '.'

instance (name : String) : Decidable (SafeName name) :=
  decidable_of_iff ('/' ∉ name.toList ∧ name.toList.head? ≠ some '.')
    ⟨fun ⟨a, b⟩ => ⟨a, b⟩, fun ⟨a, b⟩ => ⟨a, b⟩⟩

structure CommitNames (id filename operationId : String) : Prop where
  document : DocumentId id
  filename : PlainName filename
  operation : SafeName operationId

theorem journal_name_ne_stage_name {operationId : String} (h : SafeName operationId)
    (name : StageName) : operationId ++ ".json" ≠ name.text := by
  intro heq
  have hlist := congrArg String.toList heq
  rw [StageName.text, String.toList_append, String.toList_append] at hlist
  cases hop : operationId.toList with
  | nil =>
    rw [hop] at hlist
    simp at hlist
  | cons c cs =>
    rw [hop] at hlist
    have hdot : c = '.' := by simpa using congrArg List.head? hlist
    exact h.visible (by rw [hop, hdot]; rfl)

section
variable {dataDir : Path} {coll id filename operationId : String}
theorem fileOpJournalPath_eq_join (hid : DocumentId id) (h : SafeName operationId) :
    fileOpJournalPath dataDir coll id operationId =
      collectionDir dataDir coll ++ [".fileOps", id, operationId ++ ".json"] := by
  rw [fileOpJournalPath, fileOpsDir_eq_join hid, Path.join_plain (plainName_json h.noSlash),
    List.append_assoc]
  rfl

theorem StageName.plain (name : StageName) : PlainName name.text :=
  .of_length (by simp [StageName.text, name.noSlash])
    (by rw [StageName.text, String.length_append]; exact Nat.lt_add_right _ (by decide))

theorem stagePath_eq_join (hid : DocumentId id) (name : StageName) :
    stagePath dataDir coll id name = collectionDir dataDir coll ++ [".fileOps", id, name.text] := by
  rw [stagePath, fileOpsDir_eq_join hid, Path.join_plain name.plain, List.append_assoc]
  rfl

theorem binaryPath_eq_join (hid : DocumentId id) (hf : PlainName filename) :
    binaryPath dataDir coll id filename = collectionDir dataDir coll ++ ["lfs", id, filename] := by
  rw [binaryPath, lfsDir_eq_join hid, Path.join_plain hf, List.append_assoc]
  rfl

theorem lfsDir_append_ne_manifest (h : DocumentId id) (rest : Path) :
    lfsDir dataDir coll id ++ rest ≠ filesManifestPath dataDir coll id := by
  rw [lfsDir_eq_join h, filesManifestPath_eq_join h, List.append_assoc]
  intro heq
  have hlast := List.append_cancel_left heq
  simp at hlast

structure CommitPaths (dataDir : Path) (collection id filename operationId : String) : Prop where
  blob_manifest : binaryPath dataDir collection id filename ≠ filesManifestPath dataDir collection id
  journal_blob : fileOpJournalPath dataDir collection id operationId ≠
    binaryPath dataDir collection id filename
  journal_manifest : fileOpJournalPath dataDir collection id operationId ≠
    filesManifestPath dataDir collection id
  journal_stage : ∀ name, fileOpJournalPath dataDir collection id operationId ≠
    stagePath dataDir collection id name
  stage_blob : ∀ name, stagePath dataDir collection id name ≠
    binaryPath dataDir collection id filename
  stage_manifest : ∀ name, stagePath dataDir collection id name ≠
    filesManifestPath dataDir collection id

theorem CommitNames.paths (h : CommitNames id filename operationId) (dataDir : Path)
    (coll : String) : CommitPaths dataDir coll id filename operationId where
  blob_manifest := by
    rw [binaryPath_eq_join h.document h.filename, filesManifestPath_eq_join h.document]
    simp
  journal_blob := by
    rw [binaryPath_eq_join h.document h.filename, fileOpJournalPath_eq_join h.document h.operation]
    simp
  journal_manifest := by
    rw [filesManifestPath_eq_join h.document, fileOpJournalPath_eq_join h.document h.operation]
    simp
  journal_stage name := by
    rw [stagePath_eq_join h.document, fileOpJournalPath_eq_join h.document h.operation]
    intro heq
    exact journal_name_ne_stage_name h.operation name (by simpa using heq)
  stage_blob name := by
    rw [binaryPath_eq_join h.document h.filename, stagePath_eq_join h.document]
    simp
  stage_manifest name := by
    rw [filesManifestPath_eq_join h.document, stagePath_eq_join h.document]
    simp
end

/-- How far a commit has come. -/
inductive Progress where
  | begun
  | moved
  | noted
  | listed
  | closing
  deriving DecidableEq, Repr

def FilePlace.progress : FilePlace → Progress
  | .journalDir .blobCommitted | .journal .blobCommitted _ => .moved
  | .manifestRead | .manifestWrite _ | .manifestRemove => .noted
  | .journalDir .done | .journal .done _ => .listed
  | .clearJournal => .closing
  | _ => .begun

def Site.progress : Site → Progress
  | .file place => place.progress
  | _ => .begun

theorem FilePlace.progress_journal (phase : JournalPhase) (step : WriteStep) :
    (FilePlace.journal phase step).progress = (FilePlace.journalDir phase).progress := by
  cases phase <;> rfl

section
variable {ν : Type} {host : Host ν} {faults : Faults} {w : World ν} {lib : FileLib}
  {dataDir : Path} {coll id : String} {crash : Op → World ν → Prop}
  {post : Except FsError Unit → World ν → Prop}
theorem ensures_prepareFile {site : WriteStep → Site} {path : Path}
    (hc : ∀ step call, crash ⟨site step, call⟩ w) (hok : post (.ok ()) w)
    (herr : ∀ err step, faults (site step) = true → post (.error err) w)
    (steps : List WriteStep) :
    (prepareFile site path steps).Ensures (exec host faults) crash post w := by
  induction steps with
  | nil => simpa [prepareFile] using hok
  | cons step steps ih =>
    simp only [prepareFile, bind_eq, ensures_bind, ensures_prepare, run_prepare]
    refine ⟨hc _ _, ?_⟩
    cases hf : faults (site step) with
    | true => simpa using herr .io step hf
    | false => simpa using ih

theorem ensures_writeFileAtomic_faulty {site : WriteStep → Site} {path : Path} {data : File}
    (hc : ∀ step call, crash ⟨site step, call⟩ w)
    (hok : post (.ok ()) (w.put path (some data)))
    (herr : ∀ err step, faults (site step) = true → post (.error err) w) :
    (writeFileAtomic site path data).Ensures (exec host faults) crash post w := by
  simp only [writeFileAtomic, bind_eq, ensures_bind]
  refine ensures_prepareFile hc ?_ (fun err step hf => by simpa using herr err step hf) _
  simp only [ensures_bind, ensures_install, run_install]
  refine ⟨hc _ _, ?_⟩
  cases hf : faults (site .rename) with
  | true => simpa using herr _ .rename hf
  | false => simpa using hok

theorem ensures_removeIfPresent_faulty {site : Site} {path : Path}
    (hc : crash ⟨site, .remove path⟩ w) (hok : post (.ok ()) (w.put path none))
    (herr : faults site = true → post (.error .io) w) :
    (removeIfPresent site path).Ensures (exec host faults) crash post w := by
  simp only [removeIfPresent, bind_eq, ensures_bind, ensures_remove, run_remove]
  refine ⟨hc, ?_⟩
  cases hf : faults site with
  | true => simpa [FsError.isNotExist] using herr hf
  | false =>
    cases hp : w.files path with
    | none =>
      rw [put_none_of_absent hp] at hok
      simpa [FsError.isNotExist] using hok
    | some file => simpa using hok

theorem ensures_writeFileOpJournal {j : FileOpJournal}
    (hc : ∀ place call, place.progress = (FilePlace.journalDir j.phase).progress →
      crash ⟨.file place, call⟩ w)
    (hok : post (.ok ()) (w.put (fileOpJournalPath dataDir coll id j.operationId)
      (some (.json j.toJson))))
    (herr : ∀ err place, place.progress = (FilePlace.journalDir j.phase).progress →
      faults (.file place) = true → post (.error err) w) :
    (writeFileOpJournal dataDir coll id j).Ensures (exec host faults) crash post w := by
  simp only [writeFileOpJournal, bind_eq, ensures_bind, ensures_mkdirAll, run_mkdirAll]
  refine ⟨hc _ _ rfl, ?_⟩
  cases hf : faults (.file (.journalDir j.phase)) with
  | true => simpa using herr .io _ rfl hf
  | false =>
    refine ensures_writeFileAtomic_faulty (fun step call => hc _ _ ?_) hok fun err step =>
      herr err _ ?_
    · exact FilePlace.progress_journal j.phase step
    · exact FilePlace.progress_journal j.phase step

theorem ensures_rewriteManifest {place : FilePlace → Site} {entries : List FileEntry}
    {change : List FileEntry → List FileEntry}
    (hentries : w.manifest lib false (filesManifestPath dataDir coll id) = .ok entries)
    (hc : ∀ p call, p.progress = .noted → crash ⟨place p, call⟩ w)
    (hok : post (.ok ()) (w.put (filesManifestPath dataDir coll id)
      (manifestFile (Keyed.sort FileEntry.name (change entries)))))
    (herr : ∀ err p, p.progress = .noted → faults (place p) = true → post (.error err) w) :
    (rewriteManifest lib place dataDir coll id change).Ensures (exec host faults) crash post w := by
  simp only [rewriteManifest, bind_eq, ensures_bind, ensures_readFilesManifest]
  refine ⟨hc .manifestRead _ rfl, ?_⟩
  cases hf : faults (place .manifestRead) with
  | true => simpa [manifest] using herr .io .manifestRead rfl hf
  | false =>
    rw [hentries]
    unfold writeFilesManifest
    unfold manifestFile at hok
    dsimp only
    split
    · rename_i hnil
      rw [if_pos hnil] at hok
      exact ensures_removeIfPresent_faulty (hc .manifestRemove _ rfl) hok
        (herr _ .manifestRemove rfl)
    · rename_i hnil
      rw [if_neg hnil] at hok
      exact ensures_writeFileAtomic_faulty (fun step call => hc (.manifestWrite step) call rfl)
        hok fun err step => herr err (.manifestWrite step) rfl
end

theorem World.manifest_congr {ν : Type} {lib : FileLib} {w t : World ν} {path : Path} (h : t.files path = w.files path)
    (fails : Bool) : t.manifest lib fails path = w.manifest lib fails path := by
  unfold manifest
  rw [h]

def FileOpJournal.inPhase (j : FileOpJournal) : JournalPhase → FileOpJournal
  | .staged => j
  | .blobCommitted => { j with phase := .blobCommitted, stagedPath := none }
  | .done => { j with phase := .done, stagedPath := none }

/-- A commit from the world `before`: the blob changes as in `after`, and the manifest becomes
`manifest`. -/
structure Commit (ν : Type) where
  journalPath : Path
  manifestPath : Path
  journal : FileOpJournal
  before : World ν
  after : World ν
  manifest : Option File

namespace Commit
variable {ν : Type}
def noted (c : Commit ν) (phase : JournalPhase) : Option File :=
  some (.json (c.journal.inPhase phase).toJson)

def State (c : Commit ν) : Progress → World ν → Prop
  | .begun, t => t = c.before ∨ t = c.before.put c.journalPath (c.noted .staged)
  | .moved, t => t = c.after.put c.journalPath (c.noted .staged)
  | .noted, t => t = c.after.put c.journalPath (c.noted .blobCommitted)
  | .listed, t =>
    t = (c.after.put c.manifestPath c.manifest).put c.journalPath (c.noted .blobCommitted)
  | .closing, t => ∃ phase, phase ≠ .staged ∧
      t = (c.after.put c.manifestPath c.manifest).put c.journalPath (c.noted phase)

def final (c : Commit ν) : World ν :=
  (c.after.put c.manifestPath c.manifest).put c.journalPath none

def Crash (c : Commit ν) (op : Op) (t : World ν) : Prop := c.State op.site.progress t

def Stuck (c : Commit ν) (faults : Faults) (t : World ν) : Prop :=
  ∃ place, faults (.file place) = true ∧ place.progress ≠ .listed ∧ c.State place.progress t

def Ends (c : Commit ν) (faults : Faults) : Except FsError Unit → World ν → Prop
  | .ok (), t => t = c.final
  | .error _, t => c.Stuck faults t

def Reaches (c : Commit ν) (faults : Faults) (next : Progress) :
    Except FsError Unit → World ν → Prop
  | .ok (), t => c.State next t
  | .error _, t => c.Stuck faults t

variable {host : Host ν} {faults : Faults} {lib : FileLib} {dataDir : Path}
  {coll id : String} {entries : List FileEntry} {c : Commit ν} {t : World ν}
theorem ensures_begin (hpath : c.journalPath =
      fileOpJournalPath dataDir coll id c.journal.operationId)
    (hphase : c.journal.phase = .staged) :
    (writeFileOpJournal dataDir coll id c.journal).Ensures (exec host faults) c.Crash
      (fun r t => r = .ok () ∧ t = c.before.put c.journalPath (c.noted .staged) ∨
        (∃ err, r = .error err) ∧ c.Stuck faults t) c.before := by
  have hbegun : c.State .begun c.before := .inl rfl
  have hplace : (FilePlace.journalDir c.journal.phase).progress = .begun := by rw [hphase]; rfl
  refine ensures_writeFileOpJournal ?_ ?_ ?_
  · intro place call hprogress
    change c.State place.progress _
    rwa [hprogress, hplace]
  · rw [← hpath]
    exact .inl ⟨rfl, rfl⟩
  · intro err place hprogress hf
    rw [hplace] at hprogress
    refine .inr ⟨⟨err, rfl⟩, place, hf, ?_, ?_⟩
    · rw [hprogress]
      decide
    · rwa [hprogress]

theorem ensures_note (hpath : c.journalPath =
      fileOpJournalPath dataDir coll id c.journal.operationId) (ht : c.State .moved t) :
    (writeFileOpJournal dataDir coll id (c.journal.inPhase .blobCommitted)).Ensures
      (exec host faults) c.Crash (c.Reaches faults .noted) t := by
  refine ensures_writeFileOpJournal ?_ ?_ ?_
  · intro place call hplace
    change c.State place.progress t
    rw [hplace]
    exact ht
  · change t.put (fileOpJournalPath dataDir coll id c.journal.operationId)
      (c.noted .blobCommitted) = c.after.put c.journalPath (c.noted .blobCommitted)
    rw [ht, ← hpath, put_put]
  · intro err place hplace hf
    have hmoved : place.progress = .moved := hplace
    refine ⟨place, hf, ?_, ?_⟩
    · rw [hmoved]
      decide
    · rw [hmoved]
      exact ht

theorem ensures_list {change : List FileEntry → List FileEntry}
    (hpath : c.manifestPath = filesManifestPath dataDir coll id)
    (hne : c.journalPath ≠ c.manifestPath)
    (hentries : c.after.manifest lib false c.manifestPath = .ok entries)
    (hchange : c.manifest = manifestFile (Keyed.sort FileEntry.name (change entries)))
    (ht : c.State .noted t) :
    (rewriteManifest lib .file dataDir coll id change).Ensures (exec host faults) c.Crash
      (c.Reaches faults .listed) t := by
  have hread : t.manifest lib false (filesManifestPath dataDir coll id) = .ok entries := by
    rw [← hentries, ht, ← hpath]
    exact manifest_congr (put_files_other _ hne.symm _) false
  refine ensures_rewriteManifest hread ?_ ?_ ?_
  · intro place call hplace
    change c.State place.progress t
    rw [hplace]
    exact ht
  · rw [← hchange, ← hpath]
    change t.put c.manifestPath c.manifest =
      (c.after.put c.manifestPath c.manifest).put c.journalPath (c.noted .blobCommitted)
    rw [ht, put_comm _ hne]
  · intro err place hplace hf
    refine ⟨place, hf, ?_, ?_⟩
    · rw [hplace]
      decide
    · rw [hplace]
      exact ht

theorem ensures_finish (hpath : c.journalPath =
      fileOpJournalPath dataDir coll id c.journal.operationId) (ht : c.State .listed t) :
    (writeFileOpJournal dataDir coll id (c.journal.inPhase .done)).Ensures
      (exec host faults) c.Crash (fun _ t => c.State .closing t) t := by
  refine ensures_writeFileOpJournal ?_ ?_ ?_
  · intro place call hplace
    change c.State place.progress t
    rw [hplace]
    exact ht
  · refine ⟨.done, by decide, ?_⟩
    change t.put (fileOpJournalPath dataDir coll id c.journal.operationId) (c.noted .done) = _
    rw [ht, ← hpath, put_put]
  · intro err place _ _
    exact ⟨.blobCommitted, by decide, ht⟩

theorem ensures_clear (hpath : c.journalPath =
      fileOpJournalPath dataDir coll id c.journal.operationId) (ht : c.State .closing t) :
    (clearFileOpJournal .file dataDir coll id c.journal.operationId).Ensures
      (exec host faults) c.Crash (c.Ends faults) t := by
  refine ensures_removeIfPresent_faulty ht ?_ fun hf => ⟨.clearJournal, hf, by decide, ht⟩
  obtain ⟨phase, -, rfl⟩ := ht
  rw [← hpath, put_put]
  rfl
end Commit
section
variable {ν : Type} {host : Host ν} {faults : Faults} {w : World ν} {lib : FileLib}
  {dataDir : Path} {coll id : String} {entry : FileEntry} {entries : List FileEntry}
def uploadCommit (dataDir : Path) (collection id : String) (w : World ν)
    (entries : List FileEntry) (entry : FileEntry) (staged : StagedBinary)
    (command : JournalCommand) : Commit ν where
  journalPath := fileOpJournalPath dataDir collection id entry.operationId
  manifestPath := filesManifestPath dataDir collection id
  journal := uploadJournal command entry staged
  before := w
  after := w.move staged.stagedPath (binaryPath dataDir collection id entry.name)
  manifest := manifestFile (Keyed.sort FileEntry.name (Keyed.upsert FileEntry.name entry entries))

def removalCommit (dataDir : Path) (collection id : String) (w : World ν)
    (entries : List FileEntry) (entry : FileEntry) : Commit ν where
  journalPath := fileOpJournalPath dataDir collection id entry.operationId
  manifestPath := filesManifestPath dataDir collection id
  journal := removalJournal entry
  before := w
  after := w.put (binaryPath dataDir collection id entry.name) none
  manifest := manifestFile (Keyed.sort FileEntry.name (Keyed.erase FileEntry.name entry.name entries))

theorem ensures_journalCommand (filename : String) :
    ∃ command, command ≠ .delete ∧ ∀ crash : Op → World ν → Prop,
      crash ⟨.file .commitManifest, .readFile (filesManifestPath dataDir coll id)⟩ w →
      (journalCommand lib dataDir coll id filename).Ensures (exec host faults) crash
        (fun r t => r = command ∧ t = w) w := by
  cases hm : w.manifest lib (faults (.file .commitManifest))
      (filesManifestPath dataDir coll id) with
  | error err =>
    refine ⟨.create, by decide, fun crash hcrash => ?_⟩
    simpa [journalCommand, hm] using hcrash
  | ok entries =>
    refine ⟨if (lookupFileEntry entries filename).isSome then .update else .create, ?_,
      fun crash hcrash => ?_⟩
    · split <;> decide
    · simpa [journalCommand, hm] using hcrash

theorem ensures_finishUpload {staged : StagedBinary} {command : JournalCommand} {t : World ν}
    (hpaths : CommitPaths dataDir coll id entry.name entry.operationId)
    (hstaged : ∃ name, staged.stagedPath = stagePath dataDir coll id name)
    (hentries : w.manifest lib false (filesManifestPath dataDir coll id) = .ok entries)
    (ht : (uploadCommit dataDir coll id w entries entry staged command).State .moved t) :
    (finishUpload lib dataDir coll id entry (uploadJournal command entry staged)).Ensures
      (exec host faults) (uploadCommit dataDir coll id w entries entry staged command).Crash
      ((uploadCommit dataDir coll id w entries entry staged command).Ends faults) t := by
  have hread : (w.move staged.stagedPath (binaryPath dataDir coll id entry.name)).manifest
      lib false (filesManifestPath dataDir coll id) = .ok entries := by
    obtain ⟨name, hname⟩ := hstaged
    rw [← hentries, hname]
    exact manifest_congr (move_files_other _ (hpaths.stage_manifest name).symm
      hpaths.blob_manifest.symm) false
  refine (Commit.ensures_note rfl ht).bind fun r t ht => ?_
  cases r with
  | error err => exact (ensures_done _ _).mpr ht
  | ok u =>
    refine (Commit.ensures_list rfl hpaths.journal_manifest hread rfl ht).bind fun r t ht => ?_
    cases r with
    | error err => exact (ensures_done _ _).mpr ht
    | ok u => exact (Commit.ensures_finish rfl ht).bind fun _ t ht => Commit.ensures_clear rfl ht

theorem ensures_commitStagedBinary {staged : StagedBinary} {file : File}
    (hpaths : CommitPaths dataDir coll id entry.name entry.operationId)
    (hstaged : ∃ name, staged.stagedPath = stagePath dataDir coll id name)
    (hfile : w.files staged.stagedPath = some file)
    (hentries : w.manifest lib false (filesManifestPath dataDir coll id) = .ok entries) :
    ∃ command, command ≠ .delete ∧
      (commitStagedBinary lib dataDir coll id entry staged).Ensures (exec host faults)
        (uploadCommit dataDir coll id w entries entry staged command).Crash
        ((uploadCommit dataDir coll id w entries entry staged command).Ends faults) w := by
  obtain ⟨command, hdelete, hcommand⟩ :=
    @ensures_journalCommand ν host faults w lib dataDir coll id entry.name
  refine ⟨command, hdelete, (hcommand _ (.inl rfl)).bind ?_⟩
  rintro r t ⟨rfl, rfl⟩
  refine (Commit.ensures_begin rfl rfl).bind ?_
  rintro r t' (⟨rfl, rfl⟩ | ⟨⟨err, rfl⟩, hstuck⟩)
  swap
  · exact (ensures_done _ _).mpr hstuck
  generalize hc : uploadCommit dataDir coll id t entries entry staged r = c
  have hjournal : c.State .begun (c.before.put c.journalPath (c.noted .staged)) := .inr rfl
  simp only [bind_eq, ensures_bind, ensures_mkdirAll, run_mkdirAll]
  refine ⟨hjournal, ?_⟩
  cases hdir : faults (.file .blobDir) with
  | true => exact (ensures_done _ _).mpr ⟨.blobDir, hdir, by decide, hjournal⟩
  | false =>
    obtain ⟨name, hname⟩ := hstaged
    have hpresent : (c.before.put c.journalPath (c.noted .staged)).files staged.stagedPath =
        some file := by
      subst hc
      rw [put_files_other, ← hfile]
      · rfl
      · rw [hname]
        exact (hpaths.journal_stage name).symm
    simp only [Bool.false_eq_true, if_false, ensures_bind, ensures_rename, run_rename, hpresent]
    refine ⟨hjournal, ?_⟩
    cases hmove : faults (.file .blobRename) with
    | true => exact (ensures_done _ _).mpr ⟨.blobRename, hmove, by decide, hjournal⟩
    | false =>
      subst hc
      refine ensures_finishUpload hpaths ⟨name, hname⟩ hentries ?_
      refine put_move _ ?_ hpaths.journal_blob _
      rw [hname]
      exact hpaths.journal_stage name

theorem ensures_commitFileDelete (hpaths : CommitPaths dataDir coll id entry.name entry.operationId)
    (hentries : w.manifest lib false (filesManifestPath dataDir coll id) = .ok entries) :
    (commitFileDelete lib dataDir coll id entry).Ensures (exec host faults)
      (removalCommit dataDir coll id w entries entry).Crash
      ((removalCommit dataDir coll id w entries entry).Ends faults) w := by
  refine (Commit.ensures_begin rfl rfl).bind ?_
  rintro r t (⟨rfl, rfl⟩ | ⟨⟨err, rfl⟩, hstuck⟩)
  swap
  · exact (ensures_done _ _).mpr hstuck
  generalize hc : removalCommit dataDir coll id w entries entry = c
  have hjournal : c.State .begun (c.before.put c.journalPath (c.noted .staged)) := .inr rfl
  simp only [bind_eq, ensures_bind]
  refine ensures_removeIfPresent_faulty hjournal ?_ fun hf => ?_
  swap
  · exact (ensures_done _ _).mpr ⟨.blobRemove, hf, by decide, hjournal⟩
  have hmoved : c.State .moved ((c.before.put c.journalPath (c.noted .staged)).put
      (binaryPath dataDir coll id entry.name) none) := by
    subst hc
    exact put_comm _ hpaths.journal_blob _ _
  have hread : c.after.manifest lib false c.manifestPath = .ok entries := by
    subst hc
    rw [← hentries]
    exact manifest_congr (put_files_other _ hpaths.blob_manifest.symm _) false
  subst hc
  refine (Commit.ensures_note rfl hmoved).bind fun r t ht => ?_
  cases r with
  | error err => exact (ensures_done _ _).mpr ht
  | ok u =>
    refine (Commit.ensures_list rfl hpaths.journal_manifest hread rfl ht).bind fun r t ht => ?_
    cases r with
    | error err => exact (ensures_done _ _).mpr ht
    | ok u => exact Commit.ensures_clear rfl ⟨.blobCommitted, by decide, ht⟩

theorem uploadCommit_final {staged : StagedBinary} {command : JournalCommand}
    (hpaths : CommitPaths dataDir coll id entry.name entry.operationId) :
    let final := (uploadCommit dataDir coll id w entries entry staged command).final
    final.files (binaryPath dataDir coll id entry.name) = w.files staged.stagedPath ∧
      final.files (filesManifestPath dataDir coll id) = manifestFile
        (Keyed.sort FileEntry.name (Keyed.upsert FileEntry.name entry entries)) ∧
      ∀ p, p ≠ binaryPath dataDir coll id entry.name → p ≠ filesManifestPath dataDir coll id →
        p ≠ fileOpJournalPath dataDir coll id entry.operationId →
        p ≠ staged.stagedPath → final.files p = w.files p := by
  dsimp only [Commit.final, uploadCommit]
  refine ⟨?_, ?_, fun p hblob hmanifest hjournal hstage => ?_⟩
  · rw [put_files_other _ hpaths.journal_blob.symm,
      put_files_other _ hpaths.blob_manifest, move_files_target]
  · rw [put_files_other _ hpaths.journal_manifest.symm, put_files_same]
  · rw [put_files_other _ hjournal, put_files_other _ hmanifest, move_files_other _ hstage hblob]

theorem removalCommit_final (hpaths : CommitPaths dataDir coll id entry.name entry.operationId) :
    let final := (removalCommit dataDir coll id w entries entry).final
    final.files (binaryPath dataDir coll id entry.name) = none ∧
      final.files (filesManifestPath dataDir coll id) = manifestFile
        (Keyed.sort FileEntry.name (Keyed.erase FileEntry.name entry.name entries)) ∧
      ∀ p, p ≠ binaryPath dataDir coll id entry.name → p ≠ filesManifestPath dataDir coll id →
        p ≠ fileOpJournalPath dataDir coll id entry.operationId →
        final.files p = w.files p := by
  dsimp only [Commit.final, removalCommit]
  refine ⟨?_, ?_, fun p hblob hmanifest hjournal => ?_⟩
  · rw [put_files_other _ hpaths.journal_blob.symm,
      put_files_other _ hpaths.blob_manifest, put_files_same]
  · rw [put_files_other _ hpaths.journal_manifest.symm, put_files_same]
  · rw [put_files_other _ hjournal, put_files_other _ hmanifest, put_files_other _ hblob]

theorem Commit.ends_ok {c : Commit ν} {p : Prog (Except FsError Unit)}
    (h : p.Ensures (exec host .none) c.Crash (c.Ends .none) w) :
    p.run (exec host .none) w = (.ok (), c.final) := by
  have hpost := h.2
  rcases hrun : p.run (exec host .none) w with ⟨r, t⟩
  rw [hrun] at hpost
  cases r with
  | error err =>
    obtain ⟨place, hf, -⟩ := hpost
    cases hf
  | ok u => exact Prod.ext rfl hpost
end
end Datorium
