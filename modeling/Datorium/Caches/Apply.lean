
import Datorium.Agents.Cache
import Datorium.Agents.Change
/-! # Applying cache updates -/
namespace Datorium
open Framework List
def missingRecord (id : String) : JsonFields := [("!", .str id), ("#", .null)]

/-- The record that `Apply` writes for an item. -/
def CacheItem.record (item : CacheItem) : Except FsError JsonFields :=
  match item.command with
  | .delete => .ok (missingRecord item.sourceDocumentID)
  | .read => .error (.other "cache-agent: unknown command \"read\"")
  | command =>
    if item.payload.isEmpty then
      .error (.other ("cache-agent: " ++ command.text ++ " work item for " ++
        item.sourceCollection ++ "/" ++ item.sourceDocumentID ++ " is missing payload"))
    else .ok item.payload

def CacheItem.AlreadyApplied (item : CacheItem) (existing : JsonFields) : Prop :=
  item.afterVersion ≠ "" ∧ Json.asString (Fields.get? "#" existing) = item.afterVersion

instance (item : CacheItem) (existing : JsonFields) : Decidable (item.AlreadyApplied existing) :=
  inferInstanceAs (Decidable (_ ∧ _))

def applyCacheItem (dataDir : Path) (item : CacheItem) : Prog (Except FsError Bool) := do
  match ← loadCacheFile dataDir item.sourceCollection item.sourceDocumentID with
  | .error err => pure (.error err)
  | .ok none => pure (.ok true)
  | .ok (some existing) =>
    if item.AlreadyApplied existing then pure (.ok true)
    else
      match item.record with
      | .error err => pure (.error err)
      | .ok record =>
        match ← writeFileAtomic .cacheStub
            (cachePath dataDir item.sourceCollection item.sourceDocumentID)
            (.json (encodeMap record)) with
        | .error err => pure (.error err)
        | .ok () => pure (.ok true)

section
variable {ν : Type} {host : Host ν} {w : World ν} {dataDir : Path} {item : CacheItem}
def storedFields (record : JsonFields) : JsonFields := Fields.sortByKey (sortFields record)

theorem encodeMap_eq (record : JsonFields) : encodeMap record = .obj (storedFields record) := by
  rw [encodeMap, sortKeys, storedFields]

theorem asString_map_sortKeys (v : Option Json) :
    Json.asString (v.map sortKeys) = Json.asString v := by
  cases v with
  | none => rfl
  | some v => cases v <;> simp [sortKeys, Json.asString]

theorem asString_storedFields (key : String) (record : JsonFields) :
    Json.asString (Fields.get? key (storedFields record)) =
      Json.asString (Fields.get? key record) := by
  rw [storedFields, Fields.get?_sortByKey (fun a => String.le_refl a), get?_sortFields,
    asString_map_sortKeys]

theorem alreadyApplied_storedFields {record : JsonFields} :
    item.AlreadyApplied (storedFields record) ↔ item.AlreadyApplied record := by
  rw [CacheItem.AlreadyApplied, CacheItem.AlreadyApplied, asString_storedFields]

theorem run_applyCacheItem {record new : JsonFields}
    (hfile : w.files (cachePath dataDir item.sourceCollection item.sourceDocumentID) =
      some (.json (encodeMap record))) (hnew : item.record = .ok new) :
    (applyCacheItem dataDir item).run (exec host .none) w =
      (.ok true, if item.AlreadyApplied record then w
        else w.put (cachePath dataDir item.sourceCollection item.sourceDocumentID)
          (some (.json (encodeMap new)))) := by
  have hload : w.readFields false (cachePath dataDir item.sourceCollection item.sourceDocumentID) =
      .ok (storedFields record) := readFields_eq_ok.mpr ⟨rfl, by rw [hfile, encodeMap_eq]⟩
  have hwrite : (writeFileAtomic .cacheStub
      (cachePath dataDir item.sourceCollection item.sourceDocumentID)
      (.json (encodeMap new))).run (exec host .none) w =
        (.ok (), w.put (cachePath dataDir item.sourceCollection item.sourceDocumentID)
          (some (.json (encodeMap new)))) :=
    run_writeFileAtomic_ok (fun _ => rfl) _ _
  by_cases h : item.AlreadyApplied record
  · simp [applyCacheItem, loadCacheFile, hload, alreadyApplied_storedFields, h]
  · simp [applyCacheItem, loadCacheFile, hload, alreadyApplied_storedFields, h, hnew, hwrite]
end

inductive SourceEvent where
  | saved (doc : JsonFields)
  | deleted

namespace SourceEvent
def record (id : String) : SourceEvent → JsonFields
  | saved doc => doc
  | deleted => missingRecord id

def Makes (collection id : String) (item : CacheItem) : SourceEvent → Prop
  | saved doc => ∃ change operationId prev, (change = .create ∨ change = .patch) ∧
      cacheItem collection id change operationId (some doc) prev = some item
  | deleted => ∃ operationId current prev,
      cacheItem collection id .delete operationId current prev = some item
end SourceEvent

structure SourceHistory where
  events : List SourceEvent
  versioned : ∀ doc, .saved doc ∈ events → Json.asString (Fields.get? "#" doc) ≠ ""
  distinct : ∀ (i j : Nat) (doc doc' : JsonFields), events[i]? = some (SourceEvent.saved doc) →
    events[j]? = some (SourceEvent.saved doc') →
    Json.asString (Fields.get? "#" doc) = Json.asString (Fields.get? "#" doc') → i = j

structure CacheDelivery where
  event : Nat
  item : CacheItem

section
variable {ν : Type} (host : Host ν) (dataDir : Path) (coll id : String)
def applyAll : List CacheDelivery → World ν → World ν
  | [], w => w
  | d :: ds, w => applyAll ds ((applyCacheItem dataDir d.item).run (exec host .none) w).2

def World.cached (w : World ν) : Option File := w.files (cachePath dataDir coll id)
end
namespace SourceHistory
variable (h : SourceHistory) {ν : Type} (host : Host ν) (dataDir : Path) (coll id : String)
def Offers (d : CacheDelivery) : Prop :=
  ∃ event, h.events[d.event]? = some event ∧ event.Makes coll id d.item

def versionAt (k : Nat) : Option Nat :=
  match h.events[k]? with
  | some (.saved _) => some k
  | _ => none

def Caches (w : World ν) : Option Nat → Prop
  | none => w.cached dataDir coll id = some (.json (encodeMap (missingRecord id)))
  | some j => ∃ doc, h.events[j]? = some (.saved doc) ∧
      w.cached dataDir coll id = some (.json (encodeMap doc))

/-- The item replaces the record of a later version. -/
def GoesBack (d : CacheDelivery) (w : World ν) : Prop :=
  ∃ j doc, h.events[j]? = some (.saved doc) ∧ d.event < j ∧
    w.cached dataDir coll id = some (.json (encodeMap doc)) ∧
      (applyAll host dataDir [d] w).cached dataDir coll id ≠ some (.json (encodeMap doc))

/-- No item is applied right after the item of a later version. -/
def InOrder : Option Nat → List CacheDelivery → Prop
  | _, [] => True
  | cur, d :: ds => (∀ j, cur = some j → j ≤ d.event) ∧ InOrder (h.versionAt d.event) ds

section
variable {h host dataDir coll id} {w : World ν} {cur : Option Nat} {d : CacheDelivery}
theorem offers_item (hd : h.Offers coll id d) :
    ∃ event, h.events[d.event]? = some event ∧ d.item.sourceCollection = coll ∧
      d.item.sourceDocumentID = id ∧ d.item.record = .ok (event.record id) ∧
      d.item.afterVersion = Json.asString (Fields.get? "#" (event.record id)) := by
  obtain ⟨k, item⟩ := d
  obtain ⟨event, hevent, hmakes⟩ := hd
  refine ⟨event, hevent, ?_⟩
  cases event with
  | deleted =>
    obtain ⟨operationId, current, prev, hitem⟩ := hmakes
    cases hitem
    exact ⟨rfl, rfl, rfl, rfl⟩
  | saved doc =>
    obtain ⟨change, operationId, prev, hchange, hitem⟩ := hmakes
    have hversion := h.versioned doc (mem_of_getElem? hevent)
    have hne : doc.isEmpty = false := by
      cases doc with
      | nil => exact absurd rfl hversion
      | cons f fs => rfl
    rcases hchange with rfl | rfl <;> cases hitem <;>
      exact ⟨rfl, rfl, by simp [CacheItem.record, hne, SourceEvent.record], rfl⟩

theorem version_of_encodeMap_eq {record record' : JsonFields}
    (heq : encodeMap record = encodeMap record') :
    Json.asString (Fields.get? "#" record) = Json.asString (Fields.get? "#" record') := by
  rw [encodeMap_eq, encodeMap_eq, Json.obj.injEq] at heq
  rw [← asString_storedFields, heq, asString_storedFields]

theorem Caches.unique {j : Nat} {doc : JsonFields} (hw : h.Caches dataDir coll id w cur)
    (hj : h.events[j]? = some (.saved doc))
    (hfile : w.cached dataDir coll id = some (.json (encodeMap doc))) : cur = some j := by
  cases cur with
  | none =>
    rw [Caches, hfile] at hw
    have hversion := version_of_encodeMap_eq (File.json.inj (Option.some.inj hw))
    exact absurd hversion (h.versioned doc (mem_of_getElem? hj))
  | some i =>
    obtain ⟨doc', hi, hfile'⟩ := hw
    rw [hfile] at hfile'
    have hversion := version_of_encodeMap_eq (File.json.inj (Option.some.inj hfile'))
    rw [h.distinct j i doc doc' hj hi hversion]

theorem caches_of_record {k : Nat} {event : SourceEvent} (hk : h.events[k]? = some event)
    (hfile : w.cached dataDir coll id = some (.json (encodeMap (event.record id)))) :
    h.Caches dataDir coll id w (h.versionAt k) := by
  rw [versionAt, hk]
  cases event with
  | saved doc => exact ⟨doc, hk, hfile⟩
  | deleted => exact hfile

theorem Caches.apply (hw : h.Caches dataDir coll id w cur) (hd : h.Offers coll id d) :
    h.Caches dataDir coll id (applyAll host dataDir [d] w) (h.versionAt d.event) := by
  obtain ⟨event, hevent, hcollection, hid, hrecord, hafter⟩ := offers_item hd
  obtain ⟨record, hfile⟩ : ∃ record,
      w.cached dataDir coll id = some (.json (encodeMap record)) := by
    cases cur with
    | none => exact ⟨_, hw⟩
    | some j => exact ⟨_, hw.choose_spec.2⟩
  have hrun := @run_applyCacheItem ν host w dataDir d.item record (event.record id)
    (by rw [hcollection, hid]; exact hfile) hrecord
  have hworld : applyAll host dataDir [d] w = if d.item.AlreadyApplied record then w
        else w.put (cachePath dataDir coll id) (some (.json (encodeMap (event.record id)))) := by
    rw [applyAll, applyAll, hrun, hcollection, hid]
  rw [hworld]
  by_cases happlied : d.item.AlreadyApplied record
  · -- the version of the item is the cached one, and no other event has it
    rw [if_pos happlied]
    have hversion : Json.asString (Fields.get? "#" record) =
        Json.asString (Fields.get? "#" (event.record id)) := happlied.2.trans hafter
    cases event with
    | deleted => exact absurd hafter happlied.1
    | saved doc =>
      cases cur with
      | none =>
        rw [Caches, hfile] at hw
        have hnull := version_of_encodeMap_eq (File.json.inj (Option.some.inj hw))
        exact absurd (happlied.2.symm.trans hnull) happlied.1
      | some j =>
        have hw' := hw
        obtain ⟨doc', hj, hfile'⟩ := hw'
        rw [hfile] at hfile'
        have hsame := version_of_encodeMap_eq (File.json.inj (Option.some.inj hfile'))
        have hjk := h.distinct j d.event doc' doc hj hevent (hsame.symm.trans hversion)
        rw [versionAt, hevent, ← hjk]
        exact hw
  · rw [if_neg happlied]
    exact caches_of_record hevent (World.put_files_same _ _ _)

theorem goesBack_iff (hw : h.Caches dataDir coll id w cur) (hd : h.Offers coll id d) :
    h.GoesBack host dataDir coll id d w ↔ ∃ j, cur = some j ∧ d.event < j := by
  constructor
  · rintro ⟨j, doc, hj, hlt, hfile, -⟩
    exact ⟨j, hw.unique hj hfile, hlt⟩
  · rintro ⟨j, rfl, hlt⟩
    have hafter : h.Caches dataDir coll id (applyAll host dataDir [d] w)
      (h.versionAt d.event) := hw.apply hd
    obtain ⟨doc, hj, hfile⟩ := hw
    refine ⟨j, doc, hj, hlt, hfile, fun hsame => ?_⟩
    have hversion := hafter.unique hj hsame
    unfold versionAt at hversion
    split at hversion
    · cases hversion
      exact absurd hlt (Nat.lt_irrefl _)
    · cases hversion
end

/-- No application replaces the record of a later version exactly when no item comes right after the
item of a later version. -/
theorem never_back_iff_inOrder {w : World ν} {cur : Option Nat}
    (hw : h.Caches dataDir coll id w cur) (ds : List CacheDelivery)
    (hds : ∀ d ∈ ds, h.Offers coll id d) :
    (∀ before d after, ds = before ++ d :: after →
        ¬ h.GoesBack host dataDir coll id d (applyAll host dataDir before w)) ↔
      h.InOrder cur ds := by
  induction ds generalizing w cur with
  | nil =>
    refine ⟨fun _ => trivial, fun _ before d after hds => ?_⟩
    exact absurd hds (by simp)
  | cons d ds ih =>
    have hd := hds d mem_cons_self
    have hafter : h.Caches dataDir coll id (applyAll host dataDir [d] w)
      (h.versionAt d.event) := hw.apply hd
    have hrest := ih hafter fun d' hd' => hds d' (mem_cons_of_mem _ hd')
    rw [InOrder, ← hrest]
    constructor
    · intro hback
      refine ⟨fun j hj => ?_, fun before d' after hsplit => ?_⟩
      · by_contra hlt
        exact hback [] d ds rfl ((goesBack_iff hw hd).mpr ⟨j, hj, Nat.not_le.mp hlt⟩)
      · exact hback (d :: before) d' after (by rw [hsplit, cons_append])
    · rintro ⟨hfirst, hlater⟩ before d' after hsplit
      cases before with
      | nil =>
        obtain ⟨rfl, rfl⟩ := cons.inj hsplit
        intro hback
        obtain ⟨j, hj, hlt⟩ := (goesBack_iff hw hd).mp hback
        exact absurd hlt (Nat.not_lt.mpr (hfirst j hj))
      | cons b before =>
        obtain ⟨rfl, hds'⟩ := cons.inj hsplit
        exact hlater before d' after hds'
end SourceHistory
namespace Sample
def filmVersion (version : String) : JsonFields :=
  [("!", .str "alien"), ("#", .str version), ("title", .str "Alien")]

def filmHistory : SourceHistory where
  events := [.saved (filmVersion "v1"), .saved (filmVersion "v2"), .deleted]
  versioned doc h := by
    simp only [mem_cons, SourceEvent.saved.injEq, not_mem_nil, or_false, reduceCtorEq] at h
    rcases h with rfl | rfl
    · decide
    · decide
  distinct i j doc doc' hi hj hversion := by
    rcases i with _ | _ | _ | i <;> rcases j with _ | _ | _ | j <;>
      simp only [getElem?_cons_zero, getElem?_cons_succ, getElem?_nil,
        Option.some.injEq, SourceEvent.saved.injEq, reduceCtorEq] at hi hj
    · rfl
    · subst hi hj
      exact absurd hversion (by decide)
    · subst hi hj
      exact absurd hversion (by decide)
    · rfl

def filmDelivery (event : Nat) (version : String) : CacheDelivery :=
  ⟨event, "Movies", "alien", "", version, "op", .patch, filmVersion version⟩

theorem filmDelivery_offered {event : Nat} {version : String}
    (h : filmHistory.events[event]? = some (.saved (filmVersion version))) :
    filmHistory.Offers "Movies" "alien" (filmDelivery event version) :=
  ⟨_, h, .patch, "op", none, .inr rfl, rfl⟩

def stubWorld : World Unit :=
  ⟨fun path => if path = cachePath ["data"] "Movies" "alien" then
    some (.json (encodeMap (missingRecord "alien"))) else none, 0, ()⟩

def quietHost : Host Unit where
  ids n := toString n
  push _ _ s := (false, s)
  fanOut _ _ s := (.ok true, s)
  index _ _ _ _ s := (.ok (), s)

theorem stubWorld_caches : filmHistory.Caches ["data"] "Movies" "alien" stubWorld none := by
  simp [SourceHistory.Caches, World.cached, stubWorld]
end Sample
open Sample
theorem never_back_film : ¬ ∃ before d after,
    [filmDelivery 0 "v1", filmDelivery 0 "v1", filmDelivery 1 "v2",
      filmDelivery 1 "v2"] = before ++ d :: after ∧
    filmHistory.GoesBack quietHost ["data"] "Movies" "alien" d
      (applyAll quietHost ["data"] before stubWorld) := by
  rintro ⟨before, d, after, hlist, hback⟩
  refine (SourceHistory.never_back_iff_inOrder filmHistory quietHost ["data"] "Movies"
    "alien" stubWorld_caches _ fun d hd => ?_).mpr ?_ before d after hlist hback
  · simp only [mem_cons, not_mem_nil, or_false] at hd
    rcases hd with rfl | rfl | rfl | rfl
    · exact filmDelivery_offered rfl
    · exact filmDelivery_offered rfl
    · exact filmDelivery_offered rfl
    · exact filmDelivery_offered rfl
  · refine ⟨fun j h => ?_, fun j h => ?_, fun j h => ?_, fun j h => ?_, trivial⟩
    · cases h
    · cases h
      exact Nat.le_refl _
    · cases h
      exact Nat.zero_le _
    · cases h
      exact Nat.le_refl _

theorem goes_back_film : (∀ d ∈ [filmDelivery 1 "v2", filmDelivery 0 "v1"],
        filmHistory.Offers "Movies" "alien" d) ∧
      filmHistory.GoesBack quietHost ["data"] "Movies" "alien" (filmDelivery 0 "v1")
        (applyAll quietHost ["data"] [filmDelivery 1 "v2"] stubWorld) := by
  have hfirst : filmHistory.Offers "Movies" "alien" (filmDelivery 0 "v1") :=
    filmDelivery_offered rfl
  have hsecond : filmHistory.Offers "Movies" "alien" (filmDelivery 1 "v2") :=
    filmDelivery_offered rfl
  refine ⟨fun d hd => ?_, ?_⟩
  · simp only [mem_cons, not_mem_nil, or_false] at hd
    rcases hd with rfl | rfl
    · exact hsecond
    · exact hfirst
  · exact (SourceHistory.goesBack_iff (stubWorld_caches.apply hsecond) hfirst).mpr
      ⟨1, rfl, Nat.zero_lt_one⟩
end Datorium
