
import Datorium.Attachments.Refinement
import Datorium.Replication.Slots
namespace Datorium
open Framework
def handleListPending (list : String → Int → Except FsError (List String × Nat)) (claims : Claims)
    (serverName : String) (limit : Int) : ListAnswer :=
  if serverName = "" then { ok := false, errors := [serverNameRequired] }
  else
    match requireMachine claims serverName with
    | some err => { ok := false, serverName := some serverName, errors := [err] }
    | none => listAnswer serverName (list serverName limit)

def handleListPendingCacheUpdates (dirs : Except FsError (List String))
    (names : String → Except FsError (List String)) :
    Claims → String → Int → ListAnswer :=
  handleListPending (listWorkItemIDs dirs names)

def handleListPendingFileWrites (dirs : Except FsError (List String))
    (names : String → Except FsError (List String)) :
    Claims → String → Int → ListAnswer :=
  handleListPending (listPendingFileWorkItemIDs dirs names)

def noContentBody : SysError :=
  { code := .invalidRequest, message := "delete pending file writes have no content body" }

def pendingDownload (item : FileWorkItem) (data : List UInt8) : Download :=
  { contentType := if item.contentType = "" then "application/octet-stream" else item.contentType,
    contentLength := item.byteSize, sha256 := item.sha256, version := item.version,
    operationId := item.operationId, body := data.take item.byteSize.toNat }

def handleFetchPendingFileContent (e : Engine) (dirs : Except FsError (List String))
    (claims : Claims) (itemID : String) : Prog (Except (FetchAnswer FileWorkItem) Download) :=
  match resolveFileWorkItem claims itemID with
  | .error err => pure (.error (.fail itemID err))
  | .ok parts => do
      match ← findPendingFileWrite e.dataDir dirs claims.serverName parts.1 parts.2 with
      | .error _ => pure (.error (.fail itemID pendingFileWriteMissing))
      | .ok found =>
        if found.2.command = .fileDelete then pure (.error (.fail itemID noContentBody))
        else
          match ← openBinary (.file .openBlob) e.dataDir found.2.collection found.2.id
              found.2.filename with
          | .error err => pure (.error (.fail itemID (sysFilesystemError err)))
          | .ok data => pure (.ok (pendingDownload found.2 data))

def completeFileAnswer (itemID : String) : Except FsError Bool → CompleteAnswer
  | .error err => .fail itemID (sysFilesystemError err)
  | .ok false => { ok := true, completed := some true, existing := some false }
  | .ok true => { ok := true, completed := some true }

def handleCompletePendingFileWrite (e : Engine) (dirs : Except FsError (List String))
    (claims : Claims) (itemID : String) : Prog CompleteAnswer :=
  match resolveFileWorkItem claims itemID with
  | .error err => pure (.fail itemID err)
  | .ok parts => do
      match ← findPendingFileWrite e.dataDir dirs claims.serverName parts.1 parts.2 with
      | .error _ => pure { ok := true, completed := some true, existing := some false }
      | .ok found =>
        let deleted ← deletePendingFileWrite e.dataDir found.1 claims.serverName parts.1 parts.2
        pure (completeFileAnswer itemID deleted)

def pendingDirs (dataDir : Path) (collection : String) : List Path :=
  [pendingWritesDir dataDir collection, pendingCacheUpdatesDir dataDir collection,
    pendingFileWritesDir dataDir collection]

def PendingFile (dataDir p : Path) : Prop :=
  ∃ c, CollectionName c ∧ ∃ dir ∈ pendingDirs dataDir c, dir <+: p ∧ dir ≠ p

inductive StoredFor (dataDir : Path) (server : String) : Path → Prop
  | document {c id : String} (hc : CollectionName c) (hid : validDocumentID id = true) :
      StoredFor dataDir server (pendingWritePath dataDir c server id)
  | cache {c id : String} (hc : CollectionName c) (hid : validDocumentID id = true) :
      StoredFor dataDir server (pendingCacheUpdatePath dataDir c server id)
  | file {c id filename : String} (hc : CollectionName c) (hid : validDocumentID id = true)
      (hf : safeFileName filename = true) :
      StoredFor dataDir server (pendingFileWritePath dataDir c server id filename)

structure Spares (dataDir : Path) (other : String) (p : Path) : Prop where
  pending : PendingFile dataDir p
  free : ¬ StoredFor dataDir other p

def Op.Spares (dataDir : Path) (other : String) (op : Op) : Prop :=
  ∀ p ∈ op.call.paths, Datorium.Spares dataDir other p

def machineClaims (serverName : String) : Claims := ⟨.machine, serverName⟩

def ListsNone (dataDir : Path) (dir : String → Path) (dirs : List String) (other : String)
    (list : (String → Except FsError (List String)) → ListAnswer) : Prop :=
  ∀ entries : String → List String,
    (∀ c ∈ dirs, ∀ name ∈ entries c, StoredFor dataDir other (dir c ++ [name])) →
      (list fun c => .ok (entries c)).items = [] ∧ (list fun c => .ok (entries c)).totalItems = 0

/-- The endpoints, called by the machine `server` with an item id, keep away from the work of
another server and from everything that is no pending work. -/
structure Isolated (e : Engine) (dirs : List String) (server other itemID : String) : Prop where
  fetchDocument : (handleFetchPendingDocumentWrite e (.ok dirs) (machineClaims server) itemID).Only
    (Op.Spares e.dataDir other)
  completeDocument :
    (handleCompletePendingDocumentWrite e (.ok dirs) (machineClaims server) itemID).Only
      (Op.Spares e.dataDir other)
  fetchCache : (handleFetchPendingCacheUpdate e (.ok dirs) (machineClaims server) itemID).Only
    (Op.Spares e.dataDir other)
  completeCache : (handleCompletePendingCacheUpdate e (.ok dirs) (machineClaims server) itemID).Only
    (Op.Spares e.dataDir other)
  fetchFile : (handleFetchPendingFileWrite e (.ok dirs) (machineClaims server) itemID).Only
    (Op.Spares e.dataDir other)
  completeFile : (handleCompletePendingFileWrite e (.ok dirs) (machineClaims server) itemID).Only
    (Op.Spares e.dataDir other)
  content : (handleFetchPendingFileContent e (.ok dirs) (machineClaims server) itemID).Only
    fun op => op.site = .file .openBlob ∨ op.Spares e.dataDir other
  listDocuments : ∀ serverName limit, ListsNone e.dataDir (pendingWritesDir e.dataDir) dirs other
    fun names =>
      handleListPendingDocumentWrites (.ok dirs) names (machineClaims server) serverName limit
  listCaches : ∀ serverName limit, ListsNone e.dataDir (pendingCacheUpdatesDir e.dataDir) dirs other
    fun names =>
      handleListPendingCacheUpdates (.ok dirs) names (machineClaims server) serverName limit
  listFiles : ∀ serverName limit, ListsNone e.dataDir (pendingFileWritesDir e.dataDir) dirs other
    fun names =>
      handleListPendingFileWrites (.ok dirs) names (machineClaims server) serverName limit

/-- The directories a server name leads to, and the entries there, without `.json`, that are taken
by its work. -/
inductive Takes (dataDir : Path) (server : String) : Path → String → Prop
  | document {c id : String} (hc : CollectionName c) (hid : validDocumentID id = true) :
      Takes dataDir server ((pendingWritesDir dataDir c).climb server)
        (lastComponent server ++ "." ++ id)
  | cache {c id : String} (hc : CollectionName c) (hid : validDocumentID id = true) :
      Takes dataDir server ((pendingCacheUpdatesDir dataDir c).climb server)
        (lastComponent server ++ "." ++ id)
  | file {c id filename : String} (hc : CollectionName c) (hid : validDocumentID id = true)
      (hf : safeFileName filename = true) :
      Takes dataDir server ((pendingFileWritesDir dataDir c).climb server)
        (lastComponent server ++ "." ++ (id ++ "." ++ filename))

/-- The name, put together from a server and what the item id says, leads to a place among the
pending work that the other server does not take. -/
structure Clear (dataDir : Path) (other : String) (dir : Path) (name : String) : Prop where
  inside : ∃ c, CollectionName c ∧ ∃ d ∈ pendingDirs dataDir c, d <+: dir.climb name
  free : ¬ Takes dataDir other (dir.climb name) (lastComponent name)

/-- An item id of one server that leads to nothing of another, and a server name that does not begin
the entries of the other. -/
structure ItemApart (dataDir : Path) (dirs : List String) (server other itemID : String) :
    Prop where
  document : ∀ id, docIDFromWorkItemID itemID server = some id → ∀ c ∈ dirs,
    Clear dataDir other (pendingWritesDir dataDir c) (server ++ "." ++ id)
  cache : ∀ id, docIDFromWorkItemID itemID server = some id → ∀ c ∈ dirs,
    Clear dataDir other (pendingCacheUpdatesDir dataDir c) (server ++ "." ++ id)
  file : ∀ parts, parseFileWorkItemID itemID server = some parts → ∀ c ∈ dirs,
    Clear dataDir other (pendingFileWritesDir dataDir c)
      (server ++ "." ++ parts.1 ++ "." ++ parts.2)
  documentListing : ∀ c ∈ dirs, ∀ entry, Takes dataDir other (pendingWritesDir dataDir c) entry →
      (∀ a, server ++ "." ++ a ≠ entry) ∧ server ≠ entry
  cacheListing : ∀ c ∈ dirs, ∀ entry, Takes dataDir other (pendingCacheUpdatesDir dataDir c) entry →
      (∀ a, server ++ "." ++ a ≠ entry) ∧ server ≠ entry
  fileListing : ∀ c ∈ dirs, ∀ entry,
    Takes dataDir other (pendingFileWritesDir dataDir c) entry → ∀ a b,
      server ++ "." ++ a ++ "." ++ b = entry → ¬ (safeID a = true ∧ safeFileName b = true)

section
variable {dataDir : Path} {other : String}
theorem storedFor_iff {p : Path} : StoredFor dataDir other p ↔
      ∃ dir entry, Takes dataDir other dir entry ∧ p = dir ++ [entry ++ ".json"] := by
  constructor
  · intro h
    cases h with
    | document hc hid =>
      exact ⟨_, _, .document hc hid, join_dotted _ _ (DocumentId.of_valid hid).noSlash⟩
    | cache hc hid =>
      exact ⟨_, _, .cache hc hid, join_dotted _ _ (DocumentId.of_valid hid).noSlash⟩
    | @file c id filename hc hid hf =>
      refine ⟨_, _, .file hc hid hf, ?_⟩
      rw [pendingFileWritePath_eq_dotted dataDir c ⟨other, id, filename⟩]
      exact join_dotted _ _ (rest_noSlash hid hf)
  · rintro ⟨dir, entry, h, rfl⟩
    cases h with
    | document hc hid =>
      rw [← join_dotted _ _ (DocumentId.of_valid hid).noSlash]
      exact .document hc hid
    | cache hc hid =>
      rw [← join_dotted _ _ (DocumentId.of_valid hid).noSlash]
      exact .cache hc hid
    | @file c id filename hc hid hf =>
      rw [← join_dotted _ _ (rest_noSlash hid hf),
        ← pendingFileWritePath_eq_dotted dataDir c ⟨other, id, filename⟩]
      exact .file hc hid hf

variable {dir : Path}
theorem storedFor_entry_iff {entry : String} :
    StoredFor dataDir other (dir ++ [entry ++ ".json"]) ↔ Takes dataDir other dir entry := by
  rw [storedFor_iff]
  constructor
  · rintro ⟨dir', entry', h, heq⟩
    obtain ⟨rfl, hlast⟩ := List.append_singleton_inj.mp heq
    rw [String.append_left_inj] at hlast
    rwa [hlast]
  · exact fun h => ⟨dir, entry, h, rfl⟩

theorem pendingFile_snoc_iff {name : String} : PendingFile dataDir (dir ++ [name]) ↔
      ∃ c, CollectionName c ∧ ∃ d ∈ pendingDirs dataDir c, d <+: dir := by
  have hbelow : ∀ d : Path, (d <+: dir ++ [name] ∧ d ≠ dir ++ [name]) ↔ d <+: dir := by
    intro d
    rw [List.prefix_concat_iff]
    constructor
    · rintro ⟨heq | hpre, hne⟩
      · exact absurd heq hne
      · exact hpre
    · intro hpre
      refine ⟨.inr hpre, ?_⟩
      rintro rfl
      simpa using hpre.length_le
  simp only [PendingFile, hbelow]

theorem spares_join_iff {name : String} :
    Spares dataDir other (dir.join (name ++ ".json")) ↔ Clear dataDir other dir name := by
  rw [Path.join_append dir name (by decide) (by decide)]
  constructor
  · rintro ⟨hpending, hfree⟩
    exact ⟨pendingFile_snoc_iff.mp hpending, fun h => hfree (storedFor_entry_iff.mpr h)⟩
  · rintro ⟨hinside, hfree⟩
    exact ⟨pendingFile_snoc_iff.mpr hinside, fun h => hfree (storedFor_entry_iff.mp h)⟩
end
section
variable {P : Op → Prop} {lane : Lane} {dataDir : Path} {server docID : String} {α : Type}
  {k : Except FsError (String × lane.Item) → Prog α}
theorem only_readSlot_bind {c : String} {k : Except FsError lane.Item → Prog α}
    (hread : P ⟨.pendingRead, .readFile (lane.slot dataDir c server docID)⟩)
    (hk : ∀ r, (k r).Only P) : ((readSlot lane dataDir c server docID).bind k).Only P := by
  refine .bind (.bind (only_perform hread) fun r => ?_) hk
  cases r with
  | error err => trivial
  | ok file =>
    cases file with
    | bytes data => trivial
    | json v => cases hv : lane.decode v <;> simp [hv]

theorem only_scanSlots_bind {dirs : List String}
    (hread : ∀ c ∈ dirs, P ⟨.pendingRead, .readFile (lane.slot dataDir c server docID)⟩)
    (hok : ∀ c ∈ dirs, ∀ item, (k (.ok (c, item))).Only P)
    (herror : ∀ err, (k (.error err)).Only P) :
    ((scanSlots lane dataDir server docID dirs).bind k).Only P := by
  induction dirs with
  | nil => exact herror _
  | cons c cs ih =>
    have hrest := ih (fun d hd => hread d (by simp [hd])) fun d hd => hok d (by simp [hd])
    rw [scanSlots, Program.bind_eq, Program.bind_assoc]
    refine only_readSlot_bind (hread c (by simp)) fun r => ?_
    cases r with
    | error err => cases err <;> first | exact hrest | exact herror _
    | ok item => exact hok c (by simp) item

theorem reads_of_only_scanSlots_bind {dirs : List String}
    (h : ((scanSlots lane dataDir server docID dirs).bind k).Only P) :
    ∀ c ∈ dirs, P ⟨.pendingRead, .readFile (lane.slot dataDir c server docID)⟩ := by
  induction dirs with
  | nil => simp
  | cons c cs ih =>
    intro d hd
    rcases List.mem_cons.mp hd with rfl | hd
    · exact h.1
    · exact ih (h.2 (.error .notExist)) d hd
end
section
variable {dataDir : Path} {dirs : List String} {server other itemID : String}
theorem resolveWorkItemDocID_machine : resolveWorkItemDocID (machineClaims server) itemID =
      (docIDFromWorkItemID itemID server).elim (.error workItemForeign) .ok := by
  cases h : docIDFromWorkItemID itemID server <;>
    simp [resolveWorkItemDocID, requireMachine, machineClaims, h]

theorem resolveFileWorkItem_machine : resolveFileWorkItem (machineClaims server) itemID =
      (parseFileWorkItemID itemID server).elim (.error workItemForeign) .ok := by
  cases h : parseFileWorkItemID itemID server <;>
    simp [resolveFileWorkItem, requireMachine, machineClaims, h]

variable {site : Site} {lane : Lane} {e : Engine}
theorem spares_read_iff {p : Path} :
    Op.Spares dataDir other ⟨site, .readFile p⟩ ↔ Spares dataDir other p := by
  simp [Op.Spares, Call.paths]

theorem spares_stat {p : Path} (h : Spares dataDir other p) :
    Op.Spares dataDir other ⟨site, .stat p⟩ := by
  simpa [Op.Spares, Call.paths] using h

theorem spares_remove {p : Path} (h : Spares dataDir other p) :
    Op.Spares dataDir other ⟨site, .remove p⟩ := by
  simpa [Op.Spares, Call.paths, Call.changed] using h

theorem only_scan_iff {P : Op → Prop} {id : String} {α : Type}
    {k : Except FsError (String × lane.Item) → Prog α}
    (hP : ∀ p, P ⟨.pendingRead, .readFile p⟩ ↔ Spares dataDir other p)
    (hok : ∀ c item, Spares dataDir other (lane.slot dataDir c server id) →
      (k (.ok (c, item))).Only P) (herror : ∀ err, (k (.error err)).Only P) :
    ((scanSlots lane dataDir server id dirs).bind k).Only P ↔
      ∀ c ∈ dirs, Spares dataDir other (lane.slot dataDir c server id) := by
  constructor
  · exact fun h c hc => (hP _).mp (reads_of_only_scanSlots_bind h c hc)
  · exact fun h => only_scanSlots_bind (fun c hc => (hP _).mpr (h c hc))
      (fun c hc item => hok c item (h c hc)) herror

theorem only_handleFetchPending_iff :
    (handleFetchPending lane dataDir (.ok dirs) (machineClaims server) itemID).Only
        (Op.Spares dataDir other) ↔
      ∀ id, docIDFromWorkItemID itemID server = some id → ∀ c ∈ dirs,
        Spares dataDir other (lane.slot dataDir c server id) := by
  rw [handleFetchPending, resolveWorkItemDocID_machine]
  cases docIDFromWorkItemID itemID server with
  | none => simp
  | some id =>
    simp only [Option.elim_some, Option.some.injEq, forall_eq']
    exact only_scan_iff (fun _ => spares_read_iff) (fun _ _ _ => trivial) fun _ => trivial

theorem only_handleCompletePending_iff :
    (handleCompletePending lane dataDir (.ok dirs) (machineClaims server) itemID).Only
        (Op.Spares dataDir other) ↔
      ∀ id, docIDFromWorkItemID itemID server = some id → ∀ c ∈ dirs,
        Spares dataDir other (lane.slot dataDir c server id) := by
  have hdelete : ∀ {c id : String}, Spares dataDir other (lane.slot dataDir c server id) →
      (deleteSlot lane dataDir c server id).Only (Op.Spares dataDir other) := by
    intro c id h
    refine .bindOk (only_perform (spares_stat h)) (fun _ => trivial) fun u => ?_
    exact .bind (only_perform (spares_remove h)) fun r => by cases r <;> trivial
  rw [handleCompletePending, resolveWorkItemDocID_machine]
  cases docIDFromWorkItemID itemID server with
  | none => simp
  | some id =>
    simp only [Option.elim_some, Option.some.injEq, forall_eq']
    exact only_scan_iff (fun _ => spares_read_iff)
      (fun _ _ h => .bind (hdelete h) fun _ => trivial) fun _ => trivial

theorem only_handleFetchPendingFileWrite_iff :
    (handleFetchPendingFileWrite e (.ok dirs) (machineClaims server) itemID).Only
        (Op.Spares e.dataDir other) ↔
      ∀ parts, parseFileWorkItemID itemID server = some parts → ∀ c ∈ dirs,
        Spares e.dataDir other (pendingFileWritePath e.dataDir c server parts.1 parts.2) := by
  rw [handleFetchPendingFileWrite, resolveFileWorkItem_machine]
  cases parseFileWorkItemID itemID server with
  | none => simp
  | some parts =>
    simp only [Option.elim_some, Option.some.injEq, forall_eq']
    exact only_scan_iff (fun _ => spares_read_iff) (fun _ _ _ => trivial) fun _ => trivial

theorem only_handleCompletePendingFileWrite_iff :
    (handleCompletePendingFileWrite e (.ok dirs) (machineClaims server) itemID).Only
        (Op.Spares e.dataDir other) ↔
      ∀ parts, parseFileWorkItemID itemID server = some parts → ∀ c ∈ dirs,
        Spares e.dataDir other (pendingFileWritePath e.dataDir c server parts.1 parts.2) := by
  have hdelete : ∀ {c id filename : String},
      Spares e.dataDir other (pendingFileWritePath e.dataDir c server id filename) →
      (deletePendingFileWrite e.dataDir c server id filename).Only (Op.Spares e.dataDir other) := by
    intro c id filename h
    refine .bindOk (only_perform (spares_stat h)) (fun _ => trivial) fun u => ?_
    exact .bind (only_perform (spares_remove h)) fun r => by cases r <;> trivial
  rw [handleCompletePendingFileWrite, resolveFileWorkItem_machine]
  cases parseFileWorkItemID itemID server with
  | none => simp
  | some parts =>
    simp only [Option.elim_some, Option.some.injEq, forall_eq']
    exact only_scan_iff (fun _ => spares_read_iff)
      (fun _ _ h => .bind (hdelete h) fun _ => trivial) fun _ => trivial

theorem only_handleFetchPendingFileContent_iff :
    (handleFetchPendingFileContent e (.ok dirs) (machineClaims server) itemID).Only
        (fun op => op.site = .file .openBlob ∨ op.Spares e.dataDir other) ↔
      ∀ parts, parseFileWorkItemID itemID server = some parts → ∀ c ∈ dirs,
        Spares e.dataDir other (pendingFileWritePath e.dataDir c server parts.1 parts.2) := by
  rw [handleFetchPendingFileContent, resolveFileWorkItem_machine]
  cases parseFileWorkItemID itemID server with
  | none => simp
  | some parts =>
    simp only [Option.elim_some, Option.some.injEq, forall_eq']
    refine only_scan_iff (fun _ => by simp [spares_read_iff]) (fun c item _ => ?_) fun _ => trivial
    change Program.Only _ (if item.command = .fileDelete then _ else _)
    split
    · trivial
    · refine .bind (only_openBinary (.inl rfl)) fun r => ?_
      cases r <;> trivial

theorem collectRefsBy_ok (ref : String → Option String) (entries : String → List String)
    (dirs : List String) :
    collectRefsBy ref (fun c => .ok (entries c)) dirs =
      .ok (dirs.flatMap fun c => (entries c).filterMap ref) := by
  induction dirs with
  | nil => rfl
  | cons c cs ih => simp [collectRefsBy, ih]

theorem listAnswer_listRefs_empty_iff {ref : String → Option String}
    {entries : String → List String} {serverName : String} {limit : Int} :
    ((listAnswer serverName (listRefs ref (.ok dirs) (fun c => .ok (entries c)) limit)).items = [] ∧
      (listAnswer serverName (listRefs ref (.ok dirs) (fun c => .ok (entries c)) limit)).totalItems =
        0) ↔ ∀ c ∈ dirs, ∀ name ∈ entries c, ref name = none := by
  have hnone : (dirs.flatMap fun c => (entries c).filterMap ref) = [] ↔
      ∀ c ∈ dirs, ∀ name ∈ entries c, ref name = none := by
    simp [List.flatMap_eq_nil_iff, List.filterMap_eq_nil_iff]
  rw [listRefs, collectRefsBy_ok, ← hnone]
  generalize (dirs.flatMap fun c => (entries c).filterMap ref) = refs
  simp only [listAnswer, List.length_insertionSort, List.length_eq_zero_iff]
  constructor
  · exact fun h => h.2
  · rintro rfl
    simp [truncate]

theorem listsNone_iff {dir : String → Path} {ref : String → String → Option String}
    (hserver : server ≠ "") :
    (∀ serverName limit, ListsNone dataDir dir dirs other fun names =>
        handleListPending (fun s l => listRefs (ref s) (.ok dirs) names l) (machineClaims server)
          serverName limit) ↔
      ∀ c ∈ dirs, ∀ entry, Takes dataDir other (dir c) entry →
        ref server (entry ++ ".json") = none := by
  have hown : requireMachine (machineClaims server) server = none := by
    simp [requireMachine, machineClaims]
  constructor
  · intro h c hc entry htakes
    -- the listing of a directory with this entry alone
    have hsingle := h server 0 (fun d => if d = c then [entry ++ ".json"] else []) ?_
    · simp only [handleListPending, hserver, if_false, hown, listAnswer_listRefs_empty_iff] at hsingle
      exact hsingle c hc _ (by simp)
    · intro d _ name hname
      split at hname
      · subst d
        rw [List.mem_singleton.mp hname]
        exact storedFor_entry_iff.mpr htakes
      · cases hname
  · intro h serverName limit entries hentries
    by_cases hempty : serverName = ""
    · simp [handleListPending, hempty]
    · by_cases hsame : server = serverName
      · subst hsame
        simp only [handleListPending, hserver, if_false, hown, listAnswer_listRefs_empty_iff]
        intro c hc name hname
        obtain ⟨d, entry, htakes, heq⟩ := storedFor_iff.mp (hentries c hc name hname)
        obtain ⟨rfl, rfl⟩ := List.append_singleton_inj.mp heq
        exact h c hc entry htakes
      · simp [handleListPending, hempty, requireMachine, machineClaims, hsame]
end

/-- The endpoints keep a machine to its own work exactly if the item id and the server name lead to
nothing of the other server and to nothing outside the pending work. -/
theorem isolated_iff_item_apart (e : Engine) (dirs : List String) {server : String}
    (hserver : validServerName server = true) (other itemID : String) :
    Isolated e dirs server other itemID ↔ ItemApart e.dataDir dirs server other itemID := by
  have hne : server ≠ "" := by
    rintro rfl
    exact absurd hserver (by decide)
  -- what a listing of document writes or cache updates makes of an entry
  have href : ∀ entry : String,
      (entryDocID server (entry ++ ".json")).map (workItemID server) = none ↔
        (∀ a, server ++ "." ++ a ≠ entry) ∧ server ≠ entry := fun entry => by
    rw [Option.map_eq_none_iff, entryDocID_json_eq_none_iff]
  constructor
  · intro h
    exact
      { document := fun id hid c hc =>
          spares_join_iff.mp (only_handleFetchPending_iff.mp h.fetchDocument id hid c hc)
        cache := fun id hid c hc =>
          spares_join_iff.mp (only_handleFetchPending_iff.mp h.fetchCache id hid c hc)
        file := fun parts hparts c hc => spares_join_iff.mp
          (only_handleFetchPendingFileWrite_iff.mp h.fetchFile parts hparts c hc)
        documentListing := fun c hc entry htakes =>
          (href entry).mp ((listsNone_iff hne).mp h.listDocuments c hc entry htakes)
        cacheListing := fun c hc entry htakes =>
          (href entry).mp ((listsNone_iff hne).mp h.listCaches c hc entry htakes)
        fileListing := fun c hc entry htakes => entryFileRef_json_eq_none_iff.mp
          ((listsNone_iff hne).mp h.listFiles c hc entry htakes) }
  · intro h
    have hdocument := fun id hid c hc => spares_join_iff.mpr (h.document id hid c hc)
    have hcache := fun id hid c hc => spares_join_iff.mpr (h.cache id hid c hc)
    have hfile := fun parts hparts c hc => spares_join_iff.mpr (h.file parts hparts c hc)
    exact
      { fetchDocument := only_handleFetchPending_iff.mpr hdocument
        completeDocument := only_handleCompletePending_iff.mpr hdocument
        fetchCache := only_handleFetchPending_iff.mpr hcache
        completeCache := only_handleCompletePending_iff.mpr hcache
        fetchFile := only_handleFetchPendingFileWrite_iff.mpr hfile
        completeFile := only_handleCompletePendingFileWrite_iff.mpr hfile
        content := only_handleFetchPendingFileContent_iff.mpr hfile
        listDocuments := (listsNone_iff hne).mpr fun c hc entry htakes =>
          (href entry).mpr (h.documentListing c hc entry htakes)
        listCaches := (listsNone_iff hne).mpr fun c hc entry htakes =>
          (href entry).mpr (h.cacheListing c hc entry htakes)
        listFiles := (listsNone_iff hne).mpr fun c hc entry htakes =>
          entryFileRef_json_eq_none_iff.mpr (h.fileListing c hc entry htakes) }

section
variable {dataDir : Path} {server other : String}
theorem Takes.entry {dir : Path} {entry : String} (h : Takes dataDir other dir entry) :
    ∃ rest, entry = lastComponent other ++ "." ++ rest := by
  cases h <;> exact ⟨_, rfl⟩

theorem not_takes_of_dotless (hother : MemberName other) (hdot : '.' ∉ server.toList)
    (hne : server ≠ other) (dir : Path) (rest : String) :
    ¬ Takes dataDir other dir (server ++ "." ++ rest) := by
  intro h
  obtain ⟨rest', heq⟩ := h.entry
  rw [lastComponent_eq_self_iff.mpr hother.noSlash] at heq
  exact dotless_ne hne hdot hother.dotless rest rest' heq

theorem clear_of_dotless (hserver : MemberName server) (hother : MemberName other)
    (hne : server ≠ other) {c : String} (hc : CollectionName c) {dir : Path}
    (hdir : dir ∈ pendingDirs dataDir c) {rest : String} (hrest : '/' ∉ rest.toList) :
    Clear dataDir other dir (server ++ "." ++ rest) := by
  have hslash : '/' ∉ (server ++ "." ++ rest).toList := by simp [hserver.noSlash, hrest]
  constructor
  · rw [Path.climb_of_noSlash _ hslash]
    exact ⟨c, hc, dir, hdir, List.prefix_refl _⟩
  · rw [Path.climb_of_noSlash _ hslash, lastComponent_eq_self_iff.mpr hslash]
    exact not_takes_of_dotless hother hserver.dotless hne dir rest

theorem ItemApart.of_dotless {dirs : List String} {itemID : String} (hserver : MemberName server)
    (hother : MemberName other) (hne : server ≠ other) (hdirs : ∀ c ∈ dirs, CollectionName c)
    (hitem : '/' ∉ itemID.toList) : ItemApart dataDir dirs server other itemID := by
  have hrest : ∀ {rest}, docIDFromWorkItemID itemID server = some rest → '/' ∉ rest.toList := by
    intro rest h
    unfold docIDFromWorkItemID at h
    split at h
    · obtain rfl := Option.some.inj h
      rw [String.toList_ofList]
      exact fun hmem => hitem (List.mem_of_mem_drop hmem)
    · cases h
  have hlisted : ∀ {dir entry}, Takes dataDir other dir entry →
      (∀ a, server ++ "." ++ a ≠ entry) ∧ server ≠ entry := by
    intro dir entry htakes
    refine ⟨?_, ?_⟩
    · rintro a rfl
      exact not_takes_of_dotless hother hserver.dotless hne dir a htakes
    · rintro rfl
      obtain ⟨rest, heq⟩ := htakes.entry
      exact hserver.dotless (by rw [heq]; simp)
  exact
    { document := fun id hid c hc =>
        clear_of_dotless hserver hother hne (hdirs c hc) (by simp [pendingDirs]) (hrest hid)
      cache := fun id hid c hc =>
        clear_of_dotless hserver hother hne (hdirs c hc) (by simp [pendingDirs]) (hrest hid)
      file := fun parts hparts c hc => by
        have hsafe := parseFileWorkItemID_safe hparts
        have h := @clear_of_dotless dataDir _ _ hserver hother hne _ (hdirs c hc)
          (pendingFileWritesDir dataDir c) (by simp [pendingDirs]) _
          (rest_noSlash (valid_of_safeID hsafe.1) hsafe.2)
        simpa only [String.append_assoc] using h
      documentListing := fun c hc entry htakes => hlisted htakes
      cacheListing := fun c hc entry htakes => hlisted htakes
      fileListing := fun c hc entry htakes a b heq _ => by
        refine (hlisted htakes).1 (a ++ "." ++ b) ?_
        rw [← heq]
        simp only [String.append_assoc] }
end
namespace Sample
theorem alpha_isolated_from_beta : Isolated server ["Movies"] "alpha" "beta" "alpha-alien" :=
  (isolated_iff_item_apart server ["Movies"] (by decide) "beta" "alpha-alien").mpr
    (.of_dotless ⟨by decide, by decide, by decide⟩ ⟨by decide, by decide, by decide⟩ (by decide)
      (fun c hc => by rw [List.mem_singleton.mp hc]; exact ⟨by decide, by decide⟩) (by decide))

def betaItem : WorkItem :=
  { collection := "Movies", id := "alien", beforeVersion := "v1", afterVersion := "v2",
    operationId := "op", command := .delete, patch := [], payload := none }

def betaPending : World Unit :=
  emptyWorld.put (pendingWritePath server.dataDir "Movies" "beta" "alien")
    (some (.json betaItem.toJson))

/-- An item id that climbs into the slot of `beta`; with a further step up, to the live document.
And `eu` is given the work of `eu.west`. -/
theorem alpha_reaches_beta : (validServerName "alpha" = true ∧ validServerName "beta" = true ∧
      (((handleFetchPendingDocumentWrite server (.ok ["Movies"]) (machineClaims "alpha")
          "alpha-/../beta.alien").run (exec host .none) betaPending).1.item.map
        fun item => (item.operationId, item.command)) = some ("op", .delete) ∧
      ((((handleCompletePendingDocumentWrite server (.ok ["Movies"]) (machineClaims "alpha")
          "alpha-/../beta.alien").run (exec host .none) betaPending).2.files
        (pendingWritePath server.dataDir "Movies" "beta" "alien")).isNone = true) ∧
      documentLane.slot server.dataDir "Movies" "alpha" "/../../alien" =
        documentPath server.dataDir "Movies" "alien") ∧
    validServerName "eu" = true ∧ validServerName "eu.west" = true ∧
      (handleListPendingDocumentWrites (.ok ["Movies"]) (fun _ => .ok ["eu.west.alien.json"])
        (machineClaims "eu") "eu" 0).items = ["eu-west.alien"] ∧
      docIDFromWorkItemID "eu-west.alien" "eu" = some "west.alien" ∧
      documentLane.slot server.dataDir "Movies" "eu" "west.alien" =
        pendingWritePath server.dataDir "Movies" "eu.west" "alien" := by
  decide +kernel
end Sample
end Datorium
