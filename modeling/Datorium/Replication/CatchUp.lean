
import Datorium.Framework.Rely
import Datorium.Replication.Backlog
namespace Datorium
open Framework List
structure Lane where
  Item : Type
  slot : Path → String → String → String → Path
  decode : Json → Option Item

def documentLane : Lane where
  Item := WorkItem
  slot := pendingWritePath
  decode := WorkItem.ofJson

def pendingCacheUpdatesDir (dataDir : Path) (sourceCollection : String) : Path :=
  (collectionDir dataDir sourceCollection).join ".pendingCacheUpdates"

def pendingCacheUpdatePath (dataDir : Path) (sourceCollection readServerName docID : String) :
    Path :=
  (pendingCacheUpdatesDir dataDir sourceCollection).join (readServerName ++ "." ++ docID ++ ".json")

namespace CacheItem
def toJson (item : CacheItem) : Json :=
  .obj ([("sourceCollection", .str item.sourceCollection),
      ("sourceDocumentId", .str item.sourceDocumentID)] ++
    WorkItem.omitEmpty "beforeVersion" item.beforeVersion ++
    WorkItem.omitEmpty "afterVersion" item.afterVersion ++
    [("operationId", .str item.operationId), ("command", .str item.command.text),
      ("payload", sortKeys (.obj item.payload))])

def payloadOf : Option Json → Option JsonFields
  | none => some []
  | some .null => some []
  | some (.obj fields) => some fields
  | some _ => none

def ofJson (v : Json) : Option CacheItem := do
  let fields ← v.toMap?
  let sourceCollection ← WorkItem.stringOf (Fields.get? "sourceCollection" fields)
  let sourceDocumentID ← WorkItem.stringOf (Fields.get? "sourceDocumentId" fields)
  let beforeVersion ← WorkItem.stringOf (Fields.get? "beforeVersion" fields)
  let afterVersion ← WorkItem.stringOf (Fields.get? "afterVersion" fields)
  let operationId ← WorkItem.stringOf (Fields.get? "operationId" fields)
  let command ← (WorkItem.stringOf (Fields.get? "command" fields)).bind Command.ofText
  let payload ← payloadOf (Fields.get? "payload" fields)
  return { sourceCollection, sourceDocumentID, beforeVersion, afterVersion, operationId, command,
           payload }
end CacheItem

def cacheLane : Lane where
  Item := CacheItem
  slot := pendingCacheUpdatePath
  decode := CacheItem.ofJson

def writeWorkItem (dataDir : Path) (readServerName : String) (item : CacheItem) :
    Prog (Except FsError Unit) :=
  writeFileAtomic .pending
    (pendingCacheUpdatePath dataDir item.sourceCollection readServerName item.sourceDocumentID)
    (.json item.toJson)

/-- The error of `encoding/json` on a file that is no work item. -/
def unmarshalError : FsError := .other "json: cannot unmarshal work item"

def readSlot (lane : Lane) (dataDir : Path) (collection server docID : String) :
    Prog (Except FsError lane.Item) := do
  match ← readFile .pendingRead (lane.slot dataDir collection server docID) with
  | .error err => pure (.error err)
  | .ok (.bytes _) => pure (.error unmarshalError)
  | .ok (.json v) =>
    match lane.decode v with
    | none => pure (.error unmarshalError)
    | some item => pure (.ok item)

def deleteSlot (lane : Lane) (dataDir : Path) (collection server docID : String) :
    Prog (Except FsError Bool) := do
  match ← stat .pendingStat (lane.slot dataDir collection server docID) with
  | .error err => pure (if err.isNotExist then .ok false else .error err)
  | .ok () =>
    match ← remove .pendingRemove (lane.slot dataDir collection server docID) with
    | .error err => pure (.error err)
    | .ok () => pure (.ok true)

def scanSlots (lane : Lane) (dataDir : Path) (server docID : String) :
    List String → Prog (Except FsError (String × lane.Item))
  | [] => pure (.error .notExist)
  | c :: cs => do
      match ← readSlot lane dataDir c server docID with
      | .ok item => pure (.ok (c, item))
      | .error err =>
        if err.isNotExist then scanSlots lane dataDir server docID cs else pure (.error err)

/-- The scan over the collections that `os.ReadDir` lists. -/
def findSlot (lane : Lane) (dataDir : Path) (dirs : Except FsError (List String))
    (server docID : String) : Prog (Except FsError (String × lane.Item)) :=
  match dirs with
  | .error err => pure (.error err)
  | .ok dirs => scanSlots lane dataDir server docID dirs

def readPendingWrite := readSlot documentLane

def deletePendingWrite := deleteSlot documentLane

def findPendingWrite := findSlot documentLane

def readWorkItem := readSlot cacheLane

def deleteWorkItem := deleteSlot cacheLane

def findWorkItem := findSlot cacheLane

def workItemID (serverName docID : String) : String := serverName ++ "-" ++ docID

def docIDFromWorkItemID (itemID serverName : String) : Option String :=
  if (serverName ++ "-").toList.isPrefixOf itemID.toList then
    some (String.ofList (itemID.toList.drop (serverName ++ "-").toList.length))
  else none

theorem docIDFromWorkItemID_workItemID (serverName docID : String) :
    docIDFromWorkItemID (workItemID serverName docID) serverName = some docID := by
  simp [docIDFromWorkItemID, workItemID]

def workItemForeign : SysError :=
  { code := .workItemNotFound,
    message := "work item ID does not belong to the authenticated server" }

def workItemMissing : SysError :=
  { code := .workItemNotFound, message := "no pending work item exists for that ID" }

def sysFilesystemError (err : FsError) : SysError :=
  { code := .filesystemError, message := err.message }

def resolveWorkItemDocID (claims : Claims) (itemID : String) : Except SysError String :=
  match requireMachine claims "" with
  | some err => .error err
  | none =>
    match docIDFromWorkItemID itemID claims.serverName with
    | none => .error workItemForeign
    | some docID => .ok docID

structure FetchAnswer (ι : Type) where
  ok : Bool
  item : Option ι := none
  itemId : Option String := none
  errors : List SysError := []

structure CompleteAnswer where
  ok : Bool
  completed : Option Bool := none
  existing : Option Bool := none
  itemId : Option String := none
  errors : List SysError := []

def FetchAnswer.fail {ι : Type} (itemID : String) (err : SysError) : FetchAnswer ι :=
  { ok := false, itemId := some itemID, errors := [err] }

def CompleteAnswer.fail (itemID : String) (err : SysError) : CompleteAnswer :=
  { ok := false, itemId := some itemID, errors := [err] }

def fetchAnswer {ι : Type} (itemID : String) : Except FsError (String × ι) → FetchAnswer ι
  | .ok found => { ok := true, item := some found.2 }
  | .error err =>
    .fail itemID (if err.isNotExist then workItemMissing else sysFilesystemError err)

def handleFetchPending (lane : Lane) (dataDir : Path) (dirs : Except FsError (List String))
    (claims : Claims) (itemID : String) : Prog (FetchAnswer lane.Item) :=
  match resolveWorkItemDocID claims itemID with
  | .error err => pure (.fail itemID err)
  | .ok docID => do
      let found ← findSlot lane dataDir dirs claims.serverName docID
      pure (fetchAnswer itemID found)

def completeAnswer (itemID : String) : Except FsError Bool → CompleteAnswer
  | .error err => .fail itemID (sysFilesystemError err)
  | .ok _ => { ok := true, completed := some true }

def handleCompletePending (lane : Lane) (dataDir : Path) (dirs : Except FsError (List String))
    (claims : Claims) (itemID : String) : Prog CompleteAnswer :=
  match resolveWorkItemDocID claims itemID with
  | .error err => pure (.fail itemID err)
  | .ok docID => do
      match ← findSlot lane dataDir dirs claims.serverName docID with
      | .error err =>
        pure (if err.isNotExist then { ok := true, completed := some true, existing := some false }
          else .fail itemID (sysFilesystemError err))
      | .ok found =>
        let deleted ← deleteSlot lane dataDir found.1 claims.serverName docID
        pure (completeAnswer itemID deleted)

def handleFetchPendingDocumentWrite (e : Engine) (dirs : Except FsError (List String))
    (claims : Claims) (itemID : String) : Prog (FetchAnswer WorkItem) :=
  handleFetchPending documentLane e.dataDir dirs claims itemID

def handleCompletePendingDocumentWrite (e : Engine) (dirs : Except FsError (List String))
    (claims : Claims) (itemID : String) : Prog CompleteAnswer :=
  handleCompletePending documentLane e.dataDir dirs claims itemID

def handleFetchPendingCacheUpdate (e : Engine) (dirs : Except FsError (List String))
    (claims : Claims) (itemID : String) : Prog (FetchAnswer CacheItem) :=
  handleFetchPending cacheLane e.dataDir dirs claims itemID

def handleCompletePendingCacheUpdate (e : Engine) (dirs : Except FsError (List String))
    (claims : Claims) (itemID : String) : Prog CompleteAnswer :=
  handleCompletePending cacheLane e.dataDir dirs claims itemID

def Lane.slots {ν : Type} (lane : Lane) (dataDir : Path) (server docID : String) (w : World ν)
    (collection : String) : Option File :=
  w.files (lane.slot dataDir collection server docID)

def Lane.First (lane : Lane) (slots : String → Option File) (dirs : List String)
    (collection : String) (item : lane.Item) : Prop :=
  (∃ before after, dirs = before ++ collection :: after ∧ ∀ c ∈ before, slots c = none) ∧
    ∃ v, slots collection = some (.json v) ∧ lane.decode v = some item

variable {lane : Lane} {slots : String → Option File} {dirs : List String} {c : String}
  {item : lane.Item}
theorem Lane.first_cons_iff {d : String} : lane.First slots (d :: dirs) c item ↔
      (d = c ∧ ∃ v, slots d = some (.json v) ∧ lane.decode v = some item) ∨
        (slots d = none ∧ lane.First slots dirs c item) := by
  constructor
  · rintro ⟨⟨before, after, hdirs, hbefore⟩, v, hv, hitem⟩
    cases before with
    | nil =>
      obtain ⟨rfl, rfl⟩ := cons.inj hdirs
      exact .inl ⟨rfl, v, hv, hitem⟩
    | cons b before =>
      obtain ⟨rfl, rfl⟩ := cons.inj hdirs
      exact .inr ⟨hbefore d (by simp), ⟨before, after, rfl, fun c hc => hbefore c (by simp [hc])⟩,
        v, hv, hitem⟩
  · rintro (⟨rfl, v, hv, hitem⟩ | ⟨hd, ⟨before, after, rfl, hbefore⟩, hitem⟩)
    · exact ⟨⟨[], dirs, rfl, by simp⟩, v, hv, hitem⟩
    · refine ⟨⟨d :: before, after, rfl, fun c hc => ?_⟩, hitem⟩
      rcases mem_cons.mp hc with rfl | hc
      · exact hd
      · exact hbefore c hc

theorem run_scanSlots_eq_ok {ν : Type} {host : Host ν} {w : World ν} {dataDir : Path}
    {server docID : String} (dirs : List String) :
    ((scanSlots lane dataDir server docID dirs).run (exec host .none) w).1 = .ok (c, item) ↔
      lane.First (lane.slots dataDir server docID w) dirs c item := by
  induction dirs with
  | nil => simp [scanSlots, Lane.First]
  | cons d dirs ih =>
    rw [Lane.first_cons_iff, ← ih]
    cases hs : w.files (lane.slot dataDir d server docID) with
    | none => simp [scanSlots, readSlot, Lane.slots, hs, FsError.isNotExist]
    | some file =>
      cases file with
      | bytes b =>
        simp [scanSlots, readSlot, Lane.slots, hs, unmarshalError, FsError.isNotExist]
      | json v =>
        cases hd : lane.decode v with
        | none =>
          simp [scanSlots, readSlot, Lane.slots, hs, hd, unmarshalError, FsError.isNotExist]
        | some found => simp [scanSlots, readSlot, Lane.slots, hs, hd]

structure CollectionName (c : String) : Prop where
  plain : PlainName c
  visible : c.toList.head? ≠ some '.'

/-- `collectionDirs` lists every collection that has something in its slot, in the order of the
names. -/
structure Lists (slots : String → Option File) (dirs : List String) : Prop where
  sorted : dirs.Pairwise (· < ·)
  named : ∀ c ∈ dirs, CollectionName c
  complete : ∀ c, CollectionName c → slots c ≠ none → c ∈ dirs

theorem Lists.first_iff (hdirs : Lists slots dirs) (hc : CollectionName c) {v : Json}
    (hv : slots c = some (.json v)) (hitem : lane.decode v = some item) :
    lane.First slots dirs c item ↔ ∀ c', CollectionName c' → c' < c → slots c' = none := by
  constructor
  · rintro ⟨⟨before, after, rfl, hbefore⟩, -⟩ c' hc' hlt
    by_contra hne
    rcases mem_append.mp (hdirs.complete c' hc' hne) with hb | hmem
    · exact hne (hbefore c' hb)
    rcases mem_cons.mp hmem with rfl | hafter
    · exact String.lt_irrefl _ hlt
    · have hgt : c < c' :=
        (pairwise_cons.mp (pairwise_append.mp hdirs.sorted).2.1).1 c' hafter
      exact String.lt_irrefl _ (String.lt_trans hlt hgt)
  · intro hsmaller
    obtain ⟨before, after, rfl⟩ := append_of_mem (hdirs.complete c hc (by simp [hv]))
    refine ⟨⟨before, after, rfl, fun c' hc' => ?_⟩, v, hv, hitem⟩
    exact hsmaller c' (hdirs.named c' (by simp [hc']))
      ((pairwise_append.mp hdirs.sorted).2.2 c' hc' c (by simp))

theorem Lane.First.unique {dirs' : List String} (hdirs : Lists slots dirs)
    (hdirs' : Lists slots dirs') {c' : String} {item' : lane.Item}
    (h : lane.First slots dirs c item) (h' : lane.First slots dirs' c' item') :
    c = c' ∧ item = item' := by
  obtain ⟨⟨before, after, rfl, hbefore⟩, v, hv, hitem⟩ := h
  obtain ⟨⟨before', after', rfl, hbefore'⟩, v', hv', hitem'⟩ := h'
  have hc : c = c' := by
    have hmem : c' ∈ before ++ c :: after :=
      hdirs.complete c' (hdirs'.named c' (by simp)) (by simp [hv'])
    have hmem' : c ∈ before' ++ c' :: after' :=
      hdirs'.complete c (hdirs.named c (by simp)) (by simp [hv])
    rcases mem_append.mp hmem with hb | hmem
    · rw [hbefore c' hb] at hv'
      cases hv'
    rcases mem_append.mp hmem' with hb | hmem'
    · rw [hbefore' c hb] at hv
      cases hv
    rcases mem_cons.mp hmem with heq | hafter
    · exact heq.symm
    rcases mem_cons.mp hmem' with heq | hafter'
    · exact heq
    have hlt : c < c' :=
      (pairwise_cons.mp (pairwise_append.mp hdirs.sorted).2.1).1 c' hafter
    have hlt' : c' < c :=
      (pairwise_cons.mp (pairwise_append.mp hdirs'.sorted).2.1).1 c hafter'
    exact absurd (String.lt_trans hlt hlt') (String.lt_irrefl c)
  subst hc
  rw [hv] at hv'
  cases hv'
  rw [hitem] at hitem'
  exact ⟨rfl, Option.some.inj hitem'⟩

section
variable {ν : Type} {host : Host ν} {faults : Faults} {rely : World ν → World ν → Prop}
  {check : Op → World ν → Prop} {lane : Lane} {dataDir : Path} {server docID : String}
  {slots : String → Option File} {s : World ν}
structure Quiet (rely : World ν → World ν → Prop) (lane : Lane) (dataDir : Path)
    (server docID : String) : Prop where
  refl : ∀ s, rely s s
  slots : ∀ s t, rely s t → lane.slots dataDir server docID t = lane.slots dataDir server docID s

theorem amid_readFile (hquiet : Quiet rely lane dataDir server docID) (coll : String)
    (hslots : lane.slots dataDir server docID s = slots)
    (hcheck : ∀ path t, check ⟨.pendingRead, .readFile path⟩ t) :
    (readFile .pendingRead (lane.slot dataDir coll server docID)).Amid (exec host faults)
      rely check (fun r t => lane.slots dataDir server docID t = slots ∧
        (∀ err, r = .error err → err.isNotExist = true → slots coll = none) ∧
        ∀ file, r = .ok file → slots coll = some file) s := by
  intro t ht
  have htslots : lane.slots dataDir server docID t = slots := (hquiet.slots s t ht).trans hslots
  have hfile : t.files (lane.slot dataDir coll server docID) = slots coll :=
    congrFun htslots coll
  have hrun : (exec host faults ⟨.pendingRead,
      .readFile (lane.slot dataDir coll server docID)⟩ t) = _ :=
    run_readFile (lane.slot dataDir coll server docID)
  refine ⟨hcheck _ t, fun u hu => ?_⟩
  rw [hrun] at hu ⊢
  refine ⟨(hquiet.slots t u hu).trans htslots, fun err herr hmissing => ?_, fun file hok => ?_⟩
  · cases hf : faults .pendingRead with
    | true =>
      simp only [hf, if_true] at herr
      cases herr
      cases hmissing
    | false =>
      cases hslot : slots coll with
      | none => rfl
      | some file =>
        simp only [hf, Bool.false_eq_true, if_false, hfile, hslot] at herr
        cases herr
  · cases hf : faults .pendingRead with
    | true =>
      simp only [hf, if_true] at hok
      cases hok
    | false =>
      cases hslot : slots coll with
      | none =>
        simp only [hf, Bool.false_eq_true, if_false, hfile, hslot] at hok
        cases hok
      | some file' =>
        simp only [hf, Bool.false_eq_true, if_false, hfile, hslot] at hok
        cases hok
        rfl

theorem amid_done {α : Type} (hquiet : Quiet rely lane dataDir server docID)
    (hslots : lane.slots dataDir server docID s = slots) {a : α} {good : α → Prop} (ha : good a) :
    (Program.done a : Prog α).Amid (exec host faults) rely check
      (fun r t => lane.slots dataDir server docID t = slots ∧ good r) s :=
  fun t ht => ⟨(hquiet.slots s t ht).trans hslots, ha⟩

def ReadsSlot (lane : Lane) (slots : String → Option File) (collection : String) :
    Except FsError lane.Item → Prop
  | .error err => err.isNotExist = true → slots collection = none
  | .ok item => ∃ v, slots collection = some (.json v) ∧ lane.decode v = some item

theorem amid_readSlot (hquiet : Quiet rely lane dataDir server docID) (coll : String)
    (hslots : lane.slots dataDir server docID s = slots)
    (hcheck : ∀ path t, check ⟨.pendingRead, .readFile path⟩ t) :
    (readSlot lane dataDir coll server docID).Amid (exec host faults) rely check
      (fun r t => lane.slots dataDir server docID t = slots ∧ ReadsSlot lane slots coll r) s := by
  refine (amid_readFile hquiet coll hslots hcheck).bind hquiet.refl ?_
  rintro r t ⟨htslots, hmissing, hread⟩
  rcases r with err | (v | data)
  · exact amid_done hquiet htslots (hmissing err rfl)
  · dsimp only
    cases hdecode : lane.decode v with
    | none => exact amid_done hquiet htslots (by intro h; cases h)
    | some item => exact amid_done hquiet htslots ⟨v, hread _ rfl, hdecode⟩
  · exact amid_done hquiet htslots (by intro h; cases h)

def FindsSlot (lane : Lane) (slots : String → Option File) (dirs : List String) :
    Except FsError (String × lane.Item) → Prop
  | .error _ => True
  | .ok found => lane.First slots dirs found.1 found.2

theorem amid_scanSlots (hquiet : Quiet rely lane dataDir server docID) (dirs : List String)
    (hslots : lane.slots dataDir server docID s = slots)
    (hcheck : ∀ path t, check ⟨.pendingRead, .readFile path⟩ t) :
    (scanSlots lane dataDir server docID dirs).Amid (exec host faults) rely check
      (fun r t => lane.slots dataDir server docID t = slots ∧ FindsSlot lane slots dirs r) s := by
  induction dirs generalizing s with
  | nil => exact amid_done hquiet hslots trivial
  | cons c cs ih =>
    refine (amid_readSlot hquiet c hslots hcheck).bind hquiet.refl ?_
    rintro r t ⟨htslots, hread⟩
    cases r with
    | ok item => exact amid_done hquiet htslots ⟨⟨[], cs, rfl, by simp⟩, hread⟩
    | error err =>
      dsimp only
      split
      · rename_i hmissing
        refine (ih htslots).mono (fun _ _ h => h) ?_
        rintro r u ⟨huslots, hfound⟩
        refine ⟨huslots, ?_⟩
        cases r with
        | error err => trivial
        | ok found =>
          obtain ⟨⟨before, after, hsplit, hbefore⟩, hitem⟩ := hfound
          refine ⟨⟨c :: before, after, by rw [hsplit]; rfl, ?_⟩, hitem⟩
          intro c' hc'
          rcases mem_cons.mp hc' with rfl | hc'
          · exact hread hmissing
          · exact hbefore c' hc'
      · exact amid_done hquiet htslots trivial

theorem amid_deleteSlot (hquiet : Quiet rely lane dataDir server docID) (coll : String)
    (hslots : lane.slots dataDir server docID s = slots)
    (hstat : ∀ path t, check ⟨.pendingStat, .stat path⟩ t)
    (hremove : ∀ t, lane.slots dataDir server docID t = slots →
      check ⟨.pendingRemove, .remove (lane.slot dataDir coll server docID)⟩ t) :
    (deleteSlot lane dataDir coll server docID).Amid (exec host faults) rely check
      (fun _ _ => True) s := by
  intro t ht
  have htslots : lane.slots dataDir server docID t = slots := (hquiet.slots s t ht).trans hslots
  have hsame : (exec host faults ⟨.pendingStat,
      .stat (lane.slot dataDir coll server docID)⟩ t).2 = t :=
    congrArg Prod.snd (run_stat (lane.slot dataDir coll server docID))
  refine ⟨hstat _ t, ?_⟩
  rw [hsame]
  cases (exec host faults ⟨.pendingStat,
      .stat (lane.slot dataDir coll server docID)⟩ t).1 with
  | error err => exact fun _ _ => trivial
  | ok u =>
    intro u hu
    refine ⟨hremove u ((hquiet.slots t u hu).trans htslots), ?_⟩
    cases (exec host faults ⟨.pendingRemove,
        .remove (lane.slot dataDir coll server docID)⟩ u).1 with
    | error err => exact fun _ _ => trivial
    | ok v => exact fun _ _ => trivial

def RemovesOnly (lane : Lane) (item : lane.Item) (op : Op) (w : World ν) : Prop :=
  ∀ path, op.call = .remove path → ∃ v, w.files path = some (.json v) ∧ lane.decode v = some item

/-- If from the fetch on nobody else writes a slot of the member and the document, whatever the
complete call removes is the item that was fetched. -/
theorem completion_removes_fetched {itemID : String} {claims : Claims} {fetchFaults : Faults}
    (hdoc : docIDFromWorkItemID itemID claims.serverName = some docID)
    (hquiet : Quiet rely lane dataDir claims.serverName docID) {dirs dirs' : List String}
    (hdirs : Lists (lane.slots dataDir claims.serverName docID s) dirs)
    (hdirs' : Lists (lane.slots dataDir claims.serverName docID s) dirs') :
    (handleFetchPending lane dataDir (.ok dirs) claims itemID).Amid (exec host fetchFaults) rely
      (fun _ _ => True)
      (fun answer t => ∀ item, answer.item = some item →
        (handleCompletePending lane dataDir (.ok dirs') claims itemID).Amid (exec host faults) rely
          (RemovesOnly lane item) (fun _ _ => True) t) s := by
  unfold handleFetchPending
  cases hresolve : resolveWorkItemDocID claims itemID with
  | error err => exact fun _ _ item hitem => by cases hitem
  | ok docID' =>
    obtain rfl : docID' = docID := by
      unfold resolveWorkItemDocID at hresolve
      rw [hdoc] at hresolve
      split at hresolve
      · cases hresolve
      · exact (Except.ok.inj hresolve).symm
    refine (amid_scanSlots hquiet dirs rfl fun _ _ => trivial).bind hquiet.refl ?_
    rintro r t ⟨htslots, hfound⟩ u hu item hitem
    have huslots := (hquiet.slots t u hu).trans htslots
    cases r with
    | error err => cases hitem
    | ok found =>
      obtain rfl : found.2 = item := Option.some.inj hitem
      unfold handleCompletePending
      rw [hresolve]
      have hread : ∀ path t, RemovesOnly lane found.2 ⟨.pendingRead, .readFile path⟩
          (t : World ν) := fun _ _ _ h => by cases h
      refine (amid_scanSlots hquiet dirs' huslots hread).bind hquiet.refl ?_
      rintro r v ⟨hvslots, hfound'⟩
      cases r with
      | error err => exact fun _ _ => trivial
      | ok found' =>
        obtain ⟨hcollection, hitem'⟩ := hfound.unique hdirs hdirs' hfound'
        refine (amid_deleteSlot hquiet found'.1 hvslots (fun _ _ _ h => by cases h) ?_).bind
          hquiet.refl fun _ _ _ _ _ => trivial
        -- The slot still holds what the scan of the complete call found there.
        intro x hxslots path hpath
        cases hpath
        obtain ⟨value, hvalue, hdecode⟩ := hfound'.2
        exact ⟨value, (congrFun hxslots found'.1).trans hvalue, by rw [hdecode, hitem']⟩
end
namespace Sample
def slotItem (command : Command) (version : String) : WorkItem :=
  { collection := "Movies", id := "alien", beforeVersion := "", afterVersion := version,
    operationId := "op", command, patch := [], payload := some (.obj [("#", .str version)]) }

def cacheUpdate (version : String) : CacheItem :=
  { sourceCollection := "Movies", sourceDocumentID := "alien", beforeVersion := "",
    afterVersion := version, operationId := "op", command := .patch,
    payload := [("#", .str version)] }

def beta : Claims := ⟨.machine, "beta"⟩

def oneSlot : World Unit :=
  emptyWorld.put (documentLane.slot server.dataDir "Movies" "beta" "alien")
    (some (.json (slotItem .create "v1").toJson))

theorem oneSlot_lists : Lists (documentLane.slots server.dataDir "beta" "alien" oneSlot)
    ["Movies"] where
  sorted := pairwise_singleton _ _
  named c hc := by
    rw [mem_singleton.mp hc]
    exact ⟨by decide, by decide⟩
  complete c hc hslot := by
    by_contra hne
    apply hslot
    have hpath : documentLane.slot server.dataDir c "beta" "alien" ≠
        documentLane.slot server.dataDir "Movies" "beta" "alien" := by
      have hid : DocumentId "alien" := Sample.alien_id
      have hleft : documentLane.slot server.dataDir c "beta" "alien" = _ :=
        pendingWritePath_eq hc.plain hid (by decide)
      have hright : documentLane.slot server.dataDir "Movies" "beta" "alien" = _ :=
        pendingWritePath_eq (by decide) hid (by decide)
      rw [hleft, hright]
      simpa using hne
    exact World.put_files_other _ hpath _

def others (s t : World Unit) : Prop :=
  documentLane.slots server.dataDir "beta" "alien" t =
    documentLane.slots server.dataDir "beta" "alien" s

theorem others_quiet : Quiet others documentLane server.dataDir "beta" "alien" :=
  ⟨fun _ => rfl, fun _ _ h => h⟩

def fetchedVersion (lane : Lane) (version : lane.Item → String) (w : World Unit) : Option String :=
  ((handleFetchPending lane server.dataDir (.ok ["Movies"]) beta (workItemID "beta" "alien")).run
    (exec host .none) w).1.item.map version

def completed (lane : Lane) (w : World Unit) : World Unit :=
  ((handleCompletePending lane server.dataDir (.ok ["Movies"]) beta
    (workItemID "beta" "alien")).run (exec host .none) w).2

def cacheWritten (version : String) (w : World Unit) : World Unit :=
  ((writeWorkItem server.dataDir "beta" (cacheUpdate version)).run (exec host .none) w).2
end Sample
open Sample
theorem completion_removes_fetched_alone :
    (handleFetchPending documentLane server.dataDir (.ok ["Movies"]) beta
        (workItemID "beta" "alien")).Amid (exec host .none) others
      (fun _ _ => True)
      (fun answer t => ∀ item, answer.item = some item →
        (handleCompletePending documentLane server.dataDir (.ok ["Movies"]) beta
          (workItemID "beta" "alien")).Amid (exec host .none) others
            (RemovesOnly documentLane item) (fun _ _ => True) t) oneSlot :=
  completion_removes_fetched (docIDFromWorkItemID_workItemID "beta" "alien") others_quiet
    oneSlot_lists oneSlot_lists

/-- A further write stores `v2` in the slot, and the complete call for `v1` deletes it, in both
lanes. -/
theorem completion_removes_newer : (fetchedVersion documentLane WorkItem.afterVersion
        (after createRequest emptyWorld) = some "v1" ∧
      fetchedVersion documentLane WorkItem.afterVersion (after (patchRequest "v1")
          (after createRequest emptyWorld)) = some "v2" ∧
      fetchedVersion documentLane WorkItem.afterVersion
        (completed documentLane (after (patchRequest "v1")
          (after createRequest emptyWorld))) = none) ∧
      fetchedVersion cacheLane CacheItem.afterVersion (cacheWritten "v1" emptyWorld) = some "v1" ∧
      fetchedVersion cacheLane CacheItem.afterVersion
        (cacheWritten "v2" (cacheWritten "v1" emptyWorld)) = some "v2" ∧
      fetchedVersion cacheLane CacheItem.afterVersion (completed cacheLane
          (cacheWritten "v2" (cacheWritten "v1" emptyWorld))) = none := by
  refine ⟨⟨?_, ?_, ?_⟩, ?_, ?_, ?_⟩ <;> decide +kernel
end Datorium
