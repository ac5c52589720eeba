
import Mathlib.Data.List.Sort
import Datorium.Framework.Splits
import Datorium.Replication.CatchUp
namespace Datorium
open Framework Program List
def trimSuffix (cs tail : List Char) : List Char :=
  if tail.isSuffixOf cs then cs.take (cs.length - tail.length) else cs

def entryDocID (targetServer name : String) : Option String :=
  if ".json".toList.isSuffixOf name.toList &&
      (targetServer ++ ".").toList.isPrefixOf name.toList then
    some (String.ofList (trimSuffix (name.toList.drop (targetServer ++ ".").toList.length)
      ".json".toList))
  else none

def collectRefsBy (ref : String → Option String) (names : String → Except FsError (List String)) :
    List String → Except FsError (List String)
  | [] => .ok []
  | c :: cs =>
    match names c with
    | .error err => if err.isNotExist then collectRefsBy ref names cs else .error err
    | .ok entries =>
      match collectRefsBy ref names cs with
      | .error err => .error err
      | .ok rest => .ok (entries.filterMap ref ++ rest)

def collectRefs (names : String → Except FsError (List String)) (targetServer : String) :
    List String → Except FsError (List String) :=
  collectRefsBy (fun name => (entryDocID targetServer name).map (workItemID targetServer)) names

/-- At most `limit` of them, if there is a limit. -/
def truncate (limit : Int) (refs : List String) : List String :=
  if 0 < limit ∧ limit < refs.length then refs.take limit.toNat else refs

/-- The listing over the collections that `os.ReadDir` lists, with the total. -/
def listRefs (ref : String → Option String) (dirs : Except FsError (List String))
    (names : String → Except FsError (List String)) (limit : Int) :
    Except FsError (List String × Nat) :=
  match dirs with
  | .error err => .error err
  | .ok dirs =>
    match collectRefsBy ref names dirs with
    | .error err => .error err
    | .ok all =>
      .ok (truncate limit (all.insertionSort (· ≤ ·)), (all.insertionSort (· ≤ ·)).length)

def listPendingWorkItemIDs (dirs : Except FsError (List String))
    (names : String → Except FsError (List String)) (targetServer : String) (limit : Int) :
    Except FsError (List String × Nat) :=
  listRefs (fun name => (entryDocID targetServer name).map (workItemID targetServer)) dirs names
    limit

def listWorkItemIDs (dirs : Except FsError (List String))
    (names : String → Except FsError (List String)) (readServerName : String) (limit : Int) :
    Except FsError (List String × Nat) :=
  listRefs (fun name => (entryDocID readServerName name).map (workItemID readServerName)) dirs
    names limit

structure ListAnswer where
  ok : Bool
  totalItems : Nat := 0
  items : List String := []
  serverName : Option String := none
  errors : List SysError := []

def serverNameRequired : SysError :=
  { code := .invalidRequest, path := "/serverName", message := "serverName is required" }

def listAnswer (serverName : String) : Except FsError (List String × Nat) → ListAnswer
  | .error err =>
    { ok := false, serverName := some serverName, errors := [sysFilesystemError err] }
  | .ok found => { ok := true, totalItems := found.2, items := found.1 }

def handleListPendingDocumentWrites (dirs : Except FsError (List String))
    (names : String → Except FsError (List String)) (claims : Claims) (serverName : String)
    (limit : Int) : ListAnswer :=
  if serverName = "" then { ok := false, errors := [serverNameRequired] }
  else
    match requireMachine claims serverName with
    | some err => { ok := false, serverName := some serverName, errors := [err] }
    | none => listAnswer serverName (listPendingWorkItemIDs dirs names serverName limit)

structure CheckedIn (ν μ : Type) where
  source : World ν
  member : μ
  log : List (String × Option WorkItem × Bool)

def applyOne {ν μ : Type} (e : Engine) (dirs : Except FsError (List String)) (host : Host ν)
    (apply : WorkItem → μ → Bool × μ) (claims : Claims) (s : CheckedIn ν μ) (itemID : String) :
    CheckedIn ν μ :=
  let fetched := (handleFetchPendingDocumentWrite e dirs claims itemID).run (exec host .none)
    s.source
  match fetched.1.item with
  | none => ⟨fetched.2, s.member, s.log ++ [(itemID, none, false)]⟩
  | some item =>
    let applied := apply item s.member
    if applied.1 then
      ⟨((handleCompletePendingDocumentWrite e dirs claims itemID).run (exec host .none)
          fetched.2).2, applied.2, s.log ++ [(itemID, some item, true)]⟩
    else ⟨fetched.2, applied.2, s.log ++ [(itemID, some item, false)]⟩

/-- The loop of `CheckIn`, which goes on after an error. -/
def checkIn {ν μ : Type} (e : Engine) (dirs : Except FsError (List String)) (host : Host ν)
    (apply : WorkItem → μ → Bool × μ) (claims : Claims) (ids : List String)
    (s : CheckedIn ν μ) : CheckedIn ν μ :=
  ids.foldl (applyOne e dirs host apply claims) s

theorem dotless_unique {s t r r' : List Char} (hs : '.' ∉ s) (ht : '.' ∉ t)
    (h : s ++ '.' :: r = t ++ '.' :: r') : s = t := by
  rcases append_sep_eq_iff.mp h with ⟨heq, -⟩ | hshift | hshift
  · exact heq
  · exact absurd hshift (not_shifted_of_not_mem ht)
  · exact absurd hshift (not_shifted_of_not_mem hs)

theorem entryDocID_own (server id : String) :
    entryDocID server (server ++ "." ++ id ++ ".json") = some id := by
  have hname : (server ++ "." ++ id ++ ".json").toList =
      (server ++ ".").toList ++ (id.toList ++ ".json".toList) := by simp
  have hsuffix : ".json".toList.isSuffixOf (server ++ "." ++ id ++ ".json").toList = true := by
    rw [isSuffixOf_iff_suffix, hname, ← append_assoc]
    exact suffix_append _ _
  have hlead : (server ++ ".").toList.isPrefixOf (server ++ "." ++ id ++ ".json").toList =
      true := by
    rw [List.isPrefixOf_iff_prefix, hname]
    exact prefix_append _ _
  have htail : ".json".toList.isSuffixOf (id.toList ++ ".json".toList) = true := by
    rw [isSuffixOf_iff_suffix]
    exact suffix_append _ _
  rw [entryDocID, hsuffix, hlead, Bool.and_self, if_pos rfl, hname, drop_left, trimSuffix,
    htail, if_pos rfl]
  simp

theorem entryDocID_eq_some {server other id docID : String} (hs : '.' ∉ server.toList)
    (ho : '.' ∉ other.toList)
    (h : entryDocID server (other ++ "." ++ id ++ ".json") = some docID) :
    other = server ∧ id = docID := by
  have hsame : other = server := by
    unfold entryDocID at h
    split at h
    · rename_i hcond
      obtain ⟨rest, hrest⟩ := List.isPrefixOf_iff_prefix.mp (Bool.and_eq_true _ _ ▸ hcond).2
      apply String.toList_inj.mp
      have hsplit : server.toList ++ '.' :: rest =
          other.toList ++ '.' :: (id.toList ++ ".json".toList) := by simpa using hrest
      exact (dotless_unique hs ho hsplit).symm
    · cases h
  subst hsame
  rw [entryDocID_own] at h
  exact ⟨rfl, Option.some.inj h⟩

def entriesOf : Except FsError (List String) → List String
  | .ok entries => entries
  | .error _ => []

structure MemberName (server : String) : Prop where
  nonempty : server ≠ ""
  dotless : '.' ∉ server.toList
  noSlash : '/' ∉ server.toList

/-- Every file in a `.pendingWrites` directory is the item of one member and one document, and the
directories are listed as they are. -/
structure PendingSet {ν : Type} (e : Engine) (w : World ν) (dirs : List String)
    (names : String → Except FsError (List String)) : Prop where
  sorted : dirs.Pairwise (· < ·)
  named : ∀ c ∈ dirs, CollectionName c
  complete : ∀ c, CollectionName c → ∀ name,
    w.files (e.dataDir ++ [c, ".pendingWrites", name]) ≠ none → c ∈ dirs
  readable : ∀ c ∈ dirs, ∀ err, names c = .error err → err.isNotExist = true
  nodup : ∀ c ∈ dirs, (entriesOf (names c)).Nodup
  listed : ∀ c ∈ dirs, ∀ name, name ∈ entriesOf (names c) ↔
    w.files (e.dataDir ++ [c, ".pendingWrites", name]) ≠ none
  stored : ∀ c ∈ dirs, ∀ name ∈ entriesOf (names c), ∃ server id item,
    MemberName server ∧ DocumentId id ∧ name = server ++ "." ++ id ++ ".json" ∧
      w.files (e.dataDir ++ [c, ".pendingWrites", name]) = some (.json (WorkItem.toJson item))

def pendingOf (names : String → Except FsError (List String)) (server : String)
    (dirs : List String) : List (String × String) :=
  dirs.flatMap fun c => (entriesOf (names c)).filterMap fun name =>
    (entryDocID server name).map fun id => (c, id)

theorem collectRefs_eq {names : String → Except FsError (List String)} {dirs : List String}
    (h : ∀ c ∈ dirs, ∀ err, names c = .error err → err.isNotExist = true) (server : String) :
    collectRefs names server dirs =
      .ok ((pendingOf names server dirs).map fun p => workItemID server p.2) := by
  induction dirs with
  | nil => rfl
  | cons c cs ih =>
    have ih := ih fun c' hc' => h c' (mem_cons_of_mem _ hc')
    cases hn : names c with
    | error err =>
      have hmissing := h c mem_cons_self err hn
      rw [collectRefs] at ih ⊢
      simp [collectRefsBy, hn, hmissing, ih, pendingOf, entriesOf]
    | ok entries =>
      rw [collectRefs] at ih ⊢
      simp only [collectRefsBy, hn, ih, pendingOf, flatMap_cons, entriesOf,
        map_append, map_filterMap, Option.map_map]
      rfl

section
variable {ν μ : Type} {e : Engine} {host : Host ν} {w v : World ν} {dirs : List String}
  {names : String → Except FsError (List String)} {server id c : String} {item : WorkItem}
  {claims : Claims}
theorem PendingSet.mem (h : PendingSet e w dirs names) (hdot : '.' ∉ server.toList)
    (hmem : (c, id) ∈ pendingOf names server dirs) :
    c ∈ dirs ∧ MemberName server ∧ DocumentId id ∧ ∃ item,
      w.files (pendingWritePath e.dataDir c server id) = some (.json (WorkItem.toJson item)) := by
  obtain ⟨c', hc', hmem⟩ := mem_flatMap.mp hmem
  obtain ⟨name, hname, hdoc⟩ := mem_filterMap.mp hmem
  obtain ⟨id', hid', heq⟩ := Option.map_eq_some_iff.mp hdoc
  obtain ⟨rfl, rfl⟩ := Prod.mk.inj heq
  obtain ⟨other, id'', item, hother, hvalid, rfl, hfile⟩ := h.stored c' hc' name hname
  obtain ⟨rfl, rfl⟩ := entryDocID_eq_some hdot hother.dotless hid'
  refine ⟨hc', hother, hvalid, item, ?_⟩
  rwa [pendingWritePath_eq (h.named c' hc').plain hvalid hother.noSlash]

theorem PendingSet.mem_of_slot (h : PendingSet e w dirs names) (hserver : MemberName server)
    (hc : CollectionName c) (hid : DocumentId id)
    (hslot : w.files (pendingWritePath e.dataDir c server id) ≠ none) :
    (c, id) ∈ pendingOf names server dirs := by
  rw [pendingWritePath_eq hc.plain hid hserver.noSlash] at hslot
  have hdir := h.complete c hc _ hslot
  have hname := (h.listed c hdir _).mpr hslot
  exact mem_flatMap.mpr ⟨c, hdir, mem_filterMap.mpr ⟨_, hname, by
    rw [entryDocID_own]; rfl⟩⟩

structure Sole (e : Engine) (dirs : List String) (server id c : String) (item : WorkItem)
    (w : World ν) : Prop where
  mem : c ∈ dirs
  slot : w.files (pendingWritePath e.dataDir c server id) = some (.json item.toJson)
  others : ∀ c' ∈ dirs, c' ≠ c → w.files (pendingWritePath e.dataDir c' server id) = none

theorem PendingSet.sole (h : PendingSet e w dirs names) (hserver : MemberName server)
    (hdistinct : ((pendingOf names server dirs).map Prod.snd).Nodup)
    (hc : CollectionName c) (hid : DocumentId id)
    (hitem : w.files (pendingWritePath e.dataDir c server id) = some (.json item.toJson)) :
    Sole e dirs server id c item w := by
  have hmem := h.mem_of_slot hserver hc hid (by rw [hitem]; exact Option.some_ne_none _)
  refine ⟨(h.mem hserver.dotless hmem).1, hitem, fun c' hc' hne => ?_⟩
  by_contra hslot
  have hmem' := h.mem_of_slot hserver (h.named c' hc') hid hslot
  exact hne (congrArg Prod.fst (inj_on_of_nodup_map hdistinct hmem' hmem rfl))

theorem Sole.unique {c' : String} {item' : WorkItem} (h : Sole e dirs server id c item w)
    (h' : Sole e dirs server id c' item' w) : c' = c ∧ item' = item := by
  obtain rfl : c' = c := by
    by_contra hne
    have hnone := h.others c' h'.mem hne
    rw [h'.slot] at hnone
    cases hnone
  have hsame := h'.slot.symm.trans h.slot
  exact ⟨rfl, WorkItem.toJson_injective (File.json.inj (Option.some.inj hsame))⟩

theorem Sole.run_scan (h : Sole e dirs server id c item w) :
    (scanSlots documentLane e.dataDir server id dirs).run (exec host .none) w =
      (.ok (c, item), w) := by
  have hscan : ∀ cs : List String, c ∈ cs → (∀ c' ∈ cs, c' ∈ dirs) →
      (scanSlots documentLane e.dataDir server id cs).run (exec host .none) w =
        (.ok (c, item), w) := by
    intro cs
    induction cs with
    | nil => intro hc; cases hc
    | cons c' cs ih =>
      intro hc hsub
      by_cases heq : c' = c
      · subst heq
        have hslot : w.files (documentLane.slot e.dataDir c' server id) =
            some (.json item.toJson) := h.slot
        have hdecode : documentLane.decode item.toJson = some item := item.ofJson_toJson
        simp [scanSlots, readSlot, hslot, hdecode]
      · have hslot : w.files (documentLane.slot e.dataDir c' server id) = none :=
          h.others c' (hsub c' mem_cons_self) heq
        have hrest := ih ((mem_cons.mp hc).resolve_left (Ne.symm heq))
          fun d hd => hsub d (mem_cons_of_mem _ hd)
        simpa [scanSlots, readSlot, hslot, FsError.isNotExist] using hrest
  exact hscan dirs h.mem fun _ hc => hc

theorem resolve_workItemID (hmachine : claims.kind = .machine) (id : String) :
    resolveWorkItemDocID claims (workItemID claims.serverName id) = .ok id := by
  simp [resolveWorkItemDocID, requireMachine_any.mpr hmachine, docIDFromWorkItemID_workItemID]

theorem Sole.run_fetch (hmachine : claims.kind = .machine)
    (h : Sole e dirs claims.serverName id c item w) :
    (handleFetchPendingDocumentWrite e (.ok dirs) claims (workItemID claims.serverName id)).run
      (exec host .none) w = ({ ok := true, item := some item }, w) := by
  have hscan : (findSlot documentLane e.dataDir (.ok dirs) claims.serverName id).run
      (exec host .none) w = (.ok (c, item), w) := h.run_scan
  have hfetch : (handleFetchPending documentLane e.dataDir (.ok dirs) claims
      (workItemID claims.serverName id)).run (exec host .none) w =
        (fetchAnswer (workItemID claims.serverName id) (.ok (c, item)), w) := by
    simp only [handleFetchPending, resolve_workItemID hmachine, bind_eq, run_bind,
      hscan, pure_eq, run_done]
    rfl
  exact hfetch

theorem Sole.run_complete (hmachine : claims.kind = .machine)
    (h : Sole e dirs claims.serverName id c item w) :
    ((handleCompletePendingDocumentWrite e (.ok dirs) claims
        (workItemID claims.serverName id)).run (exec host .none) w).2 =
      w.put (pendingWritePath e.dataDir c claims.serverName id) none := by
  have hscan : (findSlot documentLane e.dataDir (.ok dirs) claims.serverName id).run
      (exec host .none) w = (.ok (c, item), w) := h.run_scan
  have hslot : w.files (documentLane.slot e.dataDir c claims.serverName id) =
      some (.json item.toJson) := h.slot
  have hdelete : (deleteSlot documentLane e.dataDir c claims.serverName id).run (exec host .none)
      w = (.ok true, w.put (documentLane.slot e.dataDir c claims.serverName id) none) := by
    simp [deleteSlot, hslot]
  simp only [handleCompletePendingDocumentWrite, handleCompletePending,
    resolve_workItemID hmachine, bind_eq, run_bind, hscan, hdelete,
    pure_eq, run_done]
  rfl

variable {apply : WorkItem → μ → Bool × μ} {s : CheckedIn ν μ}
theorem Sole.applyOne (hmachine : claims.kind = .machine)
    (h : Sole e dirs claims.serverName id c item s.source) :
    applyOne e (.ok dirs) host apply claims s (workItemID claims.serverName id) =
      ⟨if (apply item s.member).1 then
          s.source.put (pendingWritePath e.dataDir c claims.serverName id) none else s.source,
        (apply item s.member).2,
        s.log ++ [(workItemID claims.serverName id, some item, (apply item s.member).1)]⟩ := by
  simp only [Datorium.applyOne, h.run_fetch hmachine]
  cases happly : (apply item s.member).1 with
  | true => simp only [if_true, h.run_complete hmachine]
  | false => simp only [Bool.false_eq_true, if_false]

theorem slot_ne_of_id (hc : CollectionName c) {c' id' : String} (hc' : CollectionName c')
    (hslash : '/' ∉ server.toList) (hid : DocumentId id) (hid' : DocumentId id') (hne : id' ≠ id) :
    pendingWritePath e.dataDir c' server id' ≠ pendingWritePath e.dataDir c server id := by
  rw [pendingWritePath_eq hc.plain hid hslash, pendingWritePath_eq hc'.plain hid' hslash]
  intro heq
  simp only [append_cancel_left_eq, cons.injEq, and_true, true_and] at heq
  have hlist := congrArg String.toList heq.2
  simp only [String.toList_append, append_assoc, append_cancel_left_eq,
    append_cancel_right_eq] at hlist
  exact hne (String.toList_inj.mp hlist)

theorem Sole.put (h : Sole e dirs server id c item w) (hnames : ∀ d ∈ dirs, CollectionName d)
    (hslash : '/' ∉ server.toList) (hid : DocumentId id) {c' id' : String} (hc' : c' ∈ dirs)
    (hid' : DocumentId id') (hne : id ≠ id') :
    Sole e dirs server id c item (w.put (pendingWritePath e.dataDir c' server id') none) := by
  refine ⟨h.mem, ?_, fun d hd hdc => ?_⟩
  · rw [World.put_files_other _ (slot_ne_of_id (hnames c' hc') (hnames c h.mem) hslash hid' hid hne)]
    exact h.slot
  · rw [World.put_files_other _ (slot_ne_of_id (hnames c' hc') (hnames d hd) hslash hid' hid hne)]
    exact h.others d hd hdc

/-- The loop empties slots and fills none, leads every reference to its item, and removes what was
applied. -/
structure LeadsToItems (e : Engine) (dirs : List String) (server : String) (ids : List String)
    (s s' : CheckedIn ν μ) : Prop where
  removes : ∀ p, s.source.files p = none → s'.source.files p = none
  extends_log : ∀ entry ∈ s.log, entry ∈ s'.log
  leads : ∀ ref ∈ ids, ∀ id c item, ref = workItemID server id →
    Sole e dirs server id c item s.source →
    ∃ applied, (ref, some item, applied) ∈ s'.log ∧
      (applied = true → s'.source.files (pendingWritePath e.dataDir c server id) = none)

theorem workItemID_injective (server : String) : Function.Injective (workItemID server) := by
  intro id id' h
  have hdoc := congrArg (docIDFromWorkItemID · server) h
  simpa only [docIDFromWorkItemID_workItemID, Option.some.injEq] using hdoc

theorem checkIn_leads {ids : List String} (hmachine : claims.kind = .machine)
    (hnames : ∀ d ∈ dirs, CollectionName d) (hserver : MemberName claims.serverName)
    (hsole : ∀ ref ∈ ids, ∃ id c item, ref = workItemID claims.serverName id ∧ DocumentId id ∧
      Sole e dirs claims.serverName id c item s.source)
    (hnodup : ids.Nodup) :
    LeadsToItems e dirs claims.serverName ids s (checkIn e (.ok dirs) host apply claims ids s) := by
  induction ids generalizing s with
  | nil => exact ⟨fun _ h => h, fun _ h => h, fun _ h => by cases h⟩
  | cons ref ids ih =>
    obtain ⟨hfirst, hrest⟩ := nodup_cons.mp hnodup
    obtain ⟨id, c, item, rfl, hid, hone⟩ := hsole ref mem_cons_self
    have hstep := @Sole.applyOne _ _ _ host _ _ _ _ _ apply _ hmachine hone
    have hkept : ∀ id' c' item', workItemID claims.serverName id' ∈ ids → DocumentId id' →
        Sole e dirs claims.serverName id' c' item' s.source →
        Sole e dirs claims.serverName id' c' item' (applyOne e (.ok dirs) host apply claims s
          (workItemID claims.serverName id)).source := by
      intro id' c' item' href hid' hother
      have hne : id' ≠ id := fun heq => hfirst (heq ▸ href)
      rw [hstep]
      dsimp only
      split
      · exact hother.put hnames hserver.noSlash hid' hone.mem hid hne
      · exact hother
    have ih := ih (fun ref href => by
      obtain ⟨id', c', item', rfl, hid', hother⟩ := hsole ref (mem_cons_of_mem _ href)
      exact ⟨id', c', item', rfl, hid', hkept id' c' item' href hid' hother⟩) hrest
    constructor
    · intro p hp
      apply ih.removes
      rw [hstep]
      dsimp only
      split
      · rw [World.put_files]
        split
        · rfl
        · exact hp
      · exact hp
    · intro entry hentry
      apply ih.extends_log
      rw [hstep]
      exact mem_append_left _ hentry
    · intro ref href id' c' item' hid' hsole'
      rcases mem_cons.mp href with heq | hmem
      · -- The first reference: logged now, and an emptied slot stays empty.
        obtain rfl : id' = id := workItemID_injective _ (hid'.symm.trans heq)
        obtain ⟨rfl, rfl⟩ := hone.unique hsole'
        subst hid'
        refine ⟨(apply item' s.member).1, ih.extends_log _ ?_, fun happlied => ih.removes _ ?_⟩
        · rw [hstep]
          exact mem_append_right _ (mem_singleton_self _)
        · rw [hstep]
          dsimp only
          rw [if_pos happlied, World.put_files_same]
      · subst hid'
        obtain ⟨id'', _, _, heq, hvalid, _⟩ := hsole _ (mem_cons_of_mem _ hmem)
        obtain rfl := workItemID_injective _ heq
        exact ih.leads _ hmem _ _ _ rfl (hkept _ _ _ hmem hvalid hsole')

theorem PendingSet.listed_items (h : PendingSet e w dirs names) (hmachine : claims.kind = .machine)
    (hdot : '.' ∉ claims.serverName.toList) (limit : Int) :
    (handleListPendingDocumentWrites (.ok dirs) names claims claims.serverName limit).items =
      truncate limit (((pendingOf names claims.serverName dirs).map fun p =>
        workItemID claims.serverName p.2).insertionSort (· ≤ ·)) := by
  by_cases hnamed : claims.serverName = ""
  · have hnone : pendingOf names claims.serverName dirs = [] := by
      apply eq_nil_iff_forall_not_mem.mpr
      rintro ⟨c, id⟩ hmem
      exact (h.mem hdot hmem).2.1.nonempty hnamed
    have hempty : truncate limit [] = [] := by simp [truncate]
    rw [hnone]
    simp [handleListPendingDocumentWrites, hnamed, hempty]
  · have hrefs := collectRefs_eq h.readable claims.serverName
    rw [collectRefs] at hrefs
    simp [handleListPendingDocumentWrites, hnamed, requireMachine, hmachine, listAnswer,
      listPendingWorkItemIDs, listRefs, hrefs]

theorem length_truncate (limit : Int) (refs : List String) :
    (truncate limit refs).length = refs.length ↔ limit ≤ 0 ∨ refs.length ≤ limit := by
  unfold truncate
  split
  · rw [length_take]
    omega
  · omega

theorem truncate_of_length {limit : Int} {refs : List String}
    (h : limit ≤ 0 ∨ refs.length ≤ limit) : truncate limit refs = refs :=
  if_neg (by omega)

/-- The references of a list stand for the pending writes of the member: each leads to its item,
whatever the member makes of the others. -/
structure ReferencesIdentify (e : Engine) (host : Host ν) (w : World ν) (dirs : List String)
    (names : String → Except FsError (List String)) (claims : Claims) (refs : List String) :
    Prop where
  distinct : refs.Nodup
  one_each : refs.Perm ((pendingOf names claims.serverName dirs).map fun p =>
    workItemID claims.serverName p.2)
  fetched : ∀ c id item, (c, id) ∈ pendingOf names claims.serverName dirs →
    w.files (pendingWritePath e.dataDir c claims.serverName id) = some (.json item.toJson) →
    ((handleFetchPendingDocumentWrite e (.ok dirs) claims (workItemID claims.serverName id)).run
      (exec host .none) w).1.item = some item
  independent : ∀ (μ : Type) (apply : WorkItem → μ → Bool × μ) (member : μ) c id item,
    (c, id) ∈ pendingOf names claims.serverName dirs →
    w.files (pendingWritePath e.dataDir c claims.serverName id) = some (.json item.toJson) →
    ∃ applied, (workItemID claims.serverName id, some item, applied) ∈
        (checkIn e (.ok dirs) host apply claims refs ⟨w, member, []⟩).log ∧
      (applied = true → (checkIn e (.ok dirs) host apply claims refs ⟨w, member, []⟩).source.files
        (pendingWritePath e.dataDir c claims.serverName id) = none)

/-- References identify the pending writes of a member just when the document ids pending for it
are distinct across collections and fit in the limit of the list. -/
theorem references_identify_iff (h : PendingSet e w dirs names) (hmachine : claims.kind = .machine)
    (hdot : '.' ∉ claims.serverName.toList) (limit : Int) :
    ReferencesIdentify e host w dirs names claims
        (handleListPendingDocumentWrites (.ok dirs) names claims claims.serverName limit).items ↔
      ((pendingOf names claims.serverName dirs).map Prod.snd).Nodup ∧
        (limit ≤ 0 ∨ (pendingOf names claims.serverName dirs).length ≤ limit) := by
  rw [h.listed_items hmachine hdot]
  have hlength := length_truncate limit (((pendingOf names claims.serverName dirs).map fun p =>
    workItemID claims.serverName p.2).insertionSort (· ≤ ·))
  rw [length_insertionSort, length_map] at hlength
  have hperm := perm_insertionSort (· ≤ ·) ((pendingOf names claims.serverName dirs).map
    fun p => workItemID claims.serverName p.2)
  constructor
  · rintro ⟨hnodup, hall, -, -⟩
    constructor
    · have hrefs := hall.nodup_iff.mp hnodup
      apply Nodup.of_map (workItemID claims.serverName)
      rwa [map_map]
    · apply hlength.mp
      rw [hall.length_eq, length_map]
  · rintro ⟨hdistinct, hlimit⟩
    rw [truncate_of_length (by rwa [length_insertionSort, length_map])]
    have hnodup : ((pendingOf names claims.serverName dirs).map fun p =>
        workItemID claims.serverName p.2).Nodup := by
      have hmapped := hdistinct.map (workItemID_injective claims.serverName)
      rwa [map_map] at hmapped
    have hrefs := hperm.nodup_iff.mpr hnodup
    have hsole : ∀ c id item, (c, id) ∈ pendingOf names claims.serverName dirs →
        w.files (pendingWritePath e.dataDir c claims.serverName id) = some (.json item.toJson) →
        Sole e dirs claims.serverName id c item w := by
      intro c id item hmem hitem
      obtain ⟨hc, hserver, hid, -⟩ := h.mem hdot hmem
      exact h.sole hserver hdistinct (h.named c hc) hid hitem
    refine ⟨hrefs, hperm, ?_, ?_⟩
    · intro c id item hmem hitem
      rw [(hsole c id item hmem hitem).run_fetch hmachine]
    · intro μ apply member c id item hmem hitem
      obtain ⟨-, hserver, -, -⟩ := h.mem hdot hmem
      have hleads := @checkIn_leads _ _ _ host dirs claims apply ⟨w, member, []⟩ _ hmachine h.named
        hserver (fun ref href => by
          obtain ⟨⟨c', id'⟩, hmem', rfl⟩ := mem_map.mp (hperm.mem_iff.mp href)
          obtain ⟨-, -, hid', item', hitem'⟩ := h.mem hdot hmem'
          exact ⟨id', c', item', rfl, hid', hsole c' id' item' hmem' hitem'⟩) hrefs
      exact hleads.leads _ (hperm.mem_iff.mpr (mem_map_of_mem hmem)) id c item rfl
        (hsole c id item hmem hitem)
end
namespace Sample
def itemIn (c : String) : WorkItem := { slotItem .create "v1" with collection := c }

def slotsIn (dirs : List String) : World Unit :=
  ⟨fun p => (dirs.find? fun c =>
      p = server.dataDir ++ [c, ".pendingWrites", "beta.alien.json"]).map fun c =>
        .json (itemIn c).toJson, 0, ()⟩

def entry : String → Except FsError (List String) := fun _ => .ok ["beta.alien.json"]

theorem slotsIn_files (dirs : List String) (c name : String) :
    (slotsIn dirs).files (server.dataDir ++ [c, ".pendingWrites", name]) =
      if c ∈ dirs ∧ name = "beta.alien.json" then some (.json (itemIn c).toJson) else none := by
  induction dirs with
  | nil => rfl
  | cons c' cs ih =>
    simp only [slotsIn, append_cancel_left_eq, cons.injEq, true_and, and_true,
      find?_cons, mem_cons] at ih ⊢
    by_cases hhead : c = c' ∧ name = "beta.alien.json"
    · simp [hhead.1, hhead.2]
    · simp only [hhead, decide_false, ih]
      congr 1
      simp only [eq_iff_iff]
      tauto

theorem slotsIn_pending {dirs : List String} (hsorted : dirs.Pairwise (· < ·))
    (hnamed : ∀ c ∈ dirs, CollectionName c) : PendingSet server (slotsIn dirs) dirs entry where
  sorted := hsorted
  named := hnamed
  complete c _ name hfile := by
    by_contra hout
    exact hfile (by rw [slotsIn_files, if_neg fun h => hout h.1])
  readable c _ err h := by cases h
  nodup c _ := nodup_singleton _
  listed c hc name := by
    rw [slotsIn_files]
    simp [entriesOf, entry, hc]
  stored c hc name hname := by
    obtain rfl := mem_singleton.mp hname
    refine ⟨"beta", "alien", itemIn c, ⟨by decide, by decide, by decide⟩,
      Sample.alien_id, by decide, ?_⟩
    rw [slotsIn_files, if_pos ⟨hc, rfl⟩]

theorem books_movies : ∀ c ∈ ["Books", "Movies"], CollectionName c := by
  intro c hc
  rcases mem_cons.mp hc with rfl | hc
  · exact ⟨by decide, by decide⟩
  · obtain rfl := mem_singleton.mp hc
    exact ⟨by decide, by decide⟩

def listedRefs (dirs : List String) : List String :=
  (handleListPendingDocumentWrites (.ok dirs) entry beta "beta" 200).items

def refuses (c : String) (item : WorkItem) (_ : Unit) : Bool × Unit := (item.collection != c, ())

def fetchedFrom (dirs : List String) : List (Option String) :=
  (checkIn server (.ok dirs) host (refuses "Books") beta (listedRefs dirs)
    ⟨slotsIn dirs, (), []⟩).log.map fun entry => entry.2.1.map WorkItem.collection
end Sample
open Sample
theorem references_identify_movies : ReferencesIdentify server host (slotsIn ["Movies"]) ["Movies"]
      entry beta (listedRefs ["Movies"]) := by
  have hset := slotsIn_pending (pairwise_singleton (· < ·) "Movies")
    fun c hc => books_movies c (mem_cons_of_mem _ hc)
  exact (references_identify_iff hset rfl (by decide) 200).mpr ⟨by decide +kernel, by decide +kernel⟩

/-- A document id pending in two collections is listed twice under one reference. -/
theorem references_ambiguous : PendingSet server (slotsIn ["Books", "Movies"]) ["Books", "Movies"]
        entry ∧
      listedRefs ["Books", "Movies"] = ["beta-alien", "beta-alien"] ∧
      fetchedFrom ["Books", "Movies"] = [some "Books", some "Books"] ∧
      ¬ ReferencesIdentify server host (slotsIn ["Books", "Movies"])
        ["Books", "Movies"] entry beta (listedRefs ["Books", "Movies"]) := by
  have hrefs : listedRefs ["Books", "Movies"] = ["beta-alien", "beta-alien"] := by
    decide +kernel
  refine ⟨slotsIn_pending (by decide) books_movies, hrefs, by decide +kernel, ?_⟩
  intro h
  have hnodup := h.distinct
  rw [hrefs] at hnodup
  exact absurd hnodup (by decide)
end Datorium
