
import Datorium.Agents.Coverage
import Datorium.Engine.Crashes
import Datorium.Engine.StoredDocument
import Mathlib.Logic.Relation
namespace Datorium
open Framework Program World
section
variable {e : Engine} {ν : Type}
inductive Engine.Watched (e : Engine) (collection docId : String) : Path → Prop where
  | live : Watched e collection docId (e.live collection docId)
  | queue (change : Command) :
      Watched e collection docId (queuePath e.dataDir change collection docId)
  | taken (change : Command) :
      Watched e collection docId (takenQueuePath e.dataDir change collection docId)

variable {coll docId coll' docId' : String} {path : Path}
theorem queue_name_ne_taken_name (base base' : String) : base ++ ".queue" ≠ base' ++ ".taken" := by
  intro heq
  have hlast := congrArg (fun s : String => s.toList.getLast?) heq
  simp at hlast

variable {change : Command}
theorem Engine.queuePath_inj (hc : e.cfg.Configured coll) (hid : DocumentId docId)
    (hc' : e.cfg.Configured coll') (hid' : DocumentId docId') {change' : Command}
    (h : queuePath e.dataDir change coll docId = queuePath e.dataDir change' coll' docId') :
    change = change' ∧ coll = coll' ∧ docId = docId' := by
  rw [queuePath_eq (e.cfg.plainNames _ hc) hid, queuePath_eq (e.cfg.plainNames _ hc') hid'] at h
  simp only [List.append_cancel_left_eq, List.cons.injEq, and_true, true_and,
    String.append_left_inj] at h
  obtain ⟨rfl, hname⟩ := h
  obtain ⟨hchange, hdoc⟩ := queueBaseName_inj hname
  exact ⟨hchange, rfl, hdoc⟩

theorem Engine.takenQueuePath_inj (hc : e.cfg.Configured coll) (hid : DocumentId docId)
    (hc' : e.cfg.Configured coll') (hid' : DocumentId docId') {change' : Command}
    (h : takenQueuePath e.dataDir change coll docId =
      takenQueuePath e.dataDir change' coll' docId') :
    change = change' ∧ coll = coll' ∧ docId = docId' := by
  rw [takenQueuePath_eq (e.cfg.plainNames _ hc) hid,
    takenQueuePath_eq (e.cfg.plainNames _ hc') hid'] at h
  simp only [List.append_cancel_left_eq, List.cons.injEq, and_true, true_and,
    String.append_left_inj] at h
  obtain ⟨rfl, hname⟩ := h
  obtain ⟨hchange, hdoc⟩ := queueBaseName_inj hname
  exact ⟨hchange, rfl, hdoc⟩

theorem Engine.queuePath_ne_takenQueuePath (hc : e.cfg.Configured coll)
    (hid : DocumentId docId) (hc' : e.cfg.Configured coll') (hid' : DocumentId docId')
    (change change' : Command) :
    queuePath e.dataDir change coll docId ≠ takenQueuePath e.dataDir change' coll' docId' := by
  rw [queuePath_eq (e.cfg.plainNames _ hc) hid, takenQueuePath_eq (e.cfg.plainNames _ hc') hid']
  intro heq
  simp only [List.append_cancel_left_eq, List.cons.injEq, and_true, true_and] at heq
  exact queue_name_ne_taken_name _ _ heq.2

theorem Engine.live_inj (hc : e.cfg.Configured coll) (hid : DocumentId docId)
    (hc' : e.cfg.Configured coll') (hid' : DocumentId docId')
    (h : e.live coll docId = e.live coll' docId') :
    coll = coll' ∧ docId = docId' := by
  rw [e.live_eq hc hid, e.live_eq hc' hid'] at h
  simpa using h

namespace Engine.Watched
section
variable (hc : e.cfg.Configured coll) (hid : DocumentId docId)
  (hc' : e.cfg.Configured coll') (hid' : DocumentId docId')
include hc hid hc' hid'

theorem ne_previous (h : e.Watched coll' docId' path) : e.previous coll docId ≠ path := by
  cases h with
  | live => exact e.previous_not_live hc hid ⟨_, _, hc', hid', rfl⟩
  | queue change =>
    rw [e.previous_eq hc hid, queuePath_eq (e.cfg.plainNames _ hc') hid']
    simp
  | taken change =>
    rw [e.previous_eq hc hid, takenQueuePath_eq (e.cfg.plainNames _ hc') hid']
    simp

theorem ne_manifest (h : e.Watched coll' docId' path) :
    filesManifestPath e.dataDir coll docId ≠ path := by
  have hmanifest : filesManifestPath e.dataDir coll docId =
      e.dataDir ++ [coll, docId ++ "__files.jsonl"] :=
    filesManifestPath_eq (e.cfg.plainNames _ hc) hid
  cases h with
  | live => exact e.manifest_not_live hc hid ⟨_, _, hc', hid', rfl⟩
  | queue change =>
    rw [hmanifest, queuePath_eq (e.cfg.plainNames _ hc') hid']
    simp
  | taken change =>
    rw [hmanifest, takenQueuePath_eq (e.cfg.plainNames _ hc') hid']
    simp

theorem not_attachment (h : e.Watched coll' docId' path) :
    ¬ lfsDir e.dataDir coll docId <+: path ∧ ¬ fileOpsDir e.dataDir coll docId <+: path := by
  cases h with
  | live => exact e.attachments_not_live hc hid ⟨_, _, hc', hid', rfl⟩
  | queue change =>
    rw [lfsDir_eq (e.cfg.plainNames _ hc) hid, fileOpsDir_eq (e.cfg.plainNames _ hc) hid,
      queuePath_eq (e.cfg.plainNames _ hc') hid']
    simp [List.prefix_append_right_inj]
  | taken change =>
    rw [lfsDir_eq (e.cfg.plainNames _ hc) hid, fileOpsDir_eq (e.cfg.plainNames _ hc) hid,
      takenQueuePath_eq (e.cfg.plainNames _ hc') hid']
    simp [List.prefix_append_right_inj]

theorem ne_pending (h : e.Watched coll' docId' path) {server : String}
    (hs : '/' ∉ server.toList) : pendingWritePath e.dataDir coll server docId ≠ path := by
  cases h with
  | live => exact e.pendingWritePath_not_live hc hid hs ⟨_, _, hc', hid', rfl⟩
  | queue change =>
    rw [pendingWritePath_eq (e.cfg.plainNames _ hc) hid hs,
      queuePath_eq (e.cfg.plainNames _ hc') hid']
    simp
  | taken change =>
    rw [pendingWritePath_eq (e.cfg.plainNames _ hc) hid hs,
      takenQueuePath_eq (e.cfg.plainNames _ hc') hid']
    simp

theorem ne_live (h : e.Watched coll' docId' path)
    (hne : (coll', docId') ≠ (coll, docId)) : e.live coll docId ≠ path := by
  cases h with
  | live =>
    intro heq
    obtain ⟨rfl, rfl⟩ := e.live_inj hc hid hc' hid' heq
    exact hne rfl
  | queue change => exact (e.queuePath_not_live hc' hid' ⟨_, _, hc, hid, rfl⟩ change).symm
  | taken change => exact (e.takenQueuePath_not_live hc' hid' ⟨_, _, hc, hid, rfl⟩ change).symm

theorem ne_queue (h : e.Watched coll' docId' path)
    (hne : (coll', docId') ≠ (coll, docId)) (change : Command) :
    queuePath e.dataDir change coll docId ≠ path := by
  cases h with
  | live => exact e.queuePath_not_live hc hid ⟨_, _, hc', hid', rfl⟩ change
  | queue change' =>
    intro heq
    obtain ⟨-, rfl, rfl⟩ := e.queuePath_inj hc hid hc' hid' heq
    exact hne rfl
  | taken change' => exact e.queuePath_ne_takenQueuePath hc hid hc' hid' change change'

theorem ne_taken (h : e.Watched coll' docId' path)
    (hne : (coll', docId') ≠ (coll, docId)) (change : Command) :
    takenQueuePath e.dataDir change coll docId ≠ path := by
  cases h with
  | live => exact e.takenQueuePath_not_live hc hid ⟨_, _, hc', hid', rfl⟩ change
  | queue change' => exact (e.queuePath_ne_takenQueuePath hc' hid' hc hid change' change).symm
  | taken change' =>
    intro heq
    obtain ⟨-, rfl, rfl⟩ := e.takenQueuePath_inj hc hid hc' hid' heq
    exact hne rfl
end
end Engine.Watched

def World.Queued (e : Engine) (w : World ν) (collection docId : String) (change : Command) : Prop :=
  w.files (queuePath e.dataDir change collection docId) ≠ none ∨
    w.files (takenQueuePath e.dataDir change collection docId) ≠ none

def World.Present (e : Engine) (collection docId : String) (change : Command) (w : World ν) :
    EntryState → Prop
  | .queue => w.files (queuePath e.dataDir change collection docId) ≠ none
  | .taken => w.files (takenQueuePath e.dataDir change collection docId) ≠ none

def Config.FansOut (cfg : Config) (collection : String) : Prop :=
  ¬ (anySchemaReferencesCollection cfg collection = false ∨ cfg.allReadMembers = [])

instance (cfg : Config) (collection : String) : Decidable (cfg.FansOut collection) :=
  inferInstanceAs (Decidable (¬ _))

def World.Covers (e : Engine) (w : World (Derived × ν)) (collection docId : String) : Prop :=
  Covered (e.cfg.FansOut collection) (w.Queued e collection docId)
    (w.files (e.live collection docId)) (w.outside.1.search collection docId)
    (w.outside.1.cache collection docId)

def World.Prepared (e : Engine) (w : World (Derived × ν)) : Prop :=
  ∀ coll docId, e.cfg.Configured coll → DocumentId docId → w.Covers e coll docId

structure World.Same (e : Engine) (collection docId : String) (w t : World (Derived × ν)) : Prop where
  files : ∀ path, e.Watched collection docId path → t.files path = w.files path
  search : t.outside.1.search collection docId = w.outside.1.search collection docId
  cache : t.outside.1.cache collection docId = w.outside.1.cache collection docId

variable {w t : World (Derived × ν)}
theorem World.Same.queued (h : w.Same e coll docId t) (change : Command) :
    t.Queued e coll docId change ↔ w.Queued e coll docId change := by
  rw [Queued, Queued, h.files _ (.queue change), h.files _ (.taken change)]

theorem World.Same.covers (h : w.Same e coll docId t) (hw : w.Covers e coll docId) :
    t.Covers e coll docId := by
  have hcovered := Covered.mono hw fun change => (h.queued change).mpr
  rw [Covers, h.files _ .live, h.search, h.cache]
  exact hcovered

def World.Still (e : Engine) (w t : World (Derived × ν)) : Prop :=
  ∀ coll docId, e.cfg.Configured coll → DocumentId docId → w.Same e coll docId t

theorem World.Still.refl (w : World (Derived × ν)) : w.Still e w :=
  fun _ _ _ _ => ⟨fun _ _ => rfl, rfl, rfl⟩

theorem World.Still.prepared (h : w.Still e t) (hw : w.Prepared e) : t.Prepared e :=
  fun coll docId hc hid => (h coll docId hc hid).covers (hw coll docId hc hid)

theorem World.Drawn.still (h : w.Drawn t) : w.Still e t := by
  obtain ⟨n, rfl⟩ := h
  exact fun _ _ _ _ => ⟨fun _ _ => rfl, rfl, rfl⟩

theorem World.Prepared.update (hw : w.Prepared e) (coll docId : String)
    (hothers : ∀ coll' docId', e.cfg.Configured coll' → DocumentId docId' →
      (coll', docId') ≠ (coll, docId) → w.Same e coll' docId' t)
    (hdoc : t.Covers e coll docId) : t.Prepared e := by
  intro coll' docId' hc' hid'
  by_cases heq : (coll', docId') = (coll, docId)
  · cases heq
    exact hdoc
  · exact (hothers coll' docId' hc' hid' heq).covers (hw coll' docId' hc' hid')

def Call.distributes : Call → Bool
  | .fanOut _ _ | .index _ _ _ _ => true
  | _ => false

structure Neutral (e : Engine) (op : Op) : Prop where
  avoids : ∀ coll docId path, e.cfg.Configured coll → DocumentId docId →
    e.Watched coll docId path → op.call.Avoids path
  keeps : op.call.distributes = false

variable {host : Host ν}
theorem exec_derived {op : Op} (h : op.call.distributes = false) :
    (exec host.recording .none op w).2.outside.1 = w.outside.1 := by
  obtain ⟨site, call⟩ := op
  cases call with
  | fanOut targets item => cases h
  | index c i previous current => cases h
  | stat p => cases hp : w.files p <;> simp [exec, Call.apply, hp]
  | readFile p => cases hp : w.files p <;> simp [exec, Call.apply, hp]
  | rename source target => cases hp : w.files source <;> simp [exec, Call.apply, hp]
  | remove p => cases hp : w.files p <;> simp [exec, Call.apply, hp]
  | _ => rfl

theorem World.Still.step (h : w.Still e t) {op : Op} (hop : Neutral e op) :
    w.Still e (exec host.recording .none op t).2 := by
  intro coll docId hc hid
  have hsame := h coll docId hc hid
  refine ⟨fun path hpath => ?_, ?_, ?_⟩
  · rw [(hop.avoids coll docId path hc hid hpath).exec t]
    exact hsame.files path hpath
  · rw [exec_derived hop.keeps]
    exact hsame.search
  · rw [exec_derived hop.keeps]
    exact hsame.cache

theorem ensures_still {α : Type} {p : Prog α} (hp : p.Only (Neutral e)) :
    p.Ensures (exec host.recording .none) (fun _ t => w.Still e t) (fun _ t => w.Still e t) w :=
  (Only.ensures hp (fun _ _ hop hs => hs.step hop) (.refl w)).mono (fun _ _ h => h.2) fun _ _ h => h

theorem permits_neutral (place : Site → Site) (stage : Stage) :
    Permits (Neutral e) place stage := by
  intro site call hsite hcall
  refine ⟨fun _ _ path _ _ _ => permits_avoids path place stage site call hsite hcall, ?_⟩
  cases call <;> trivial

variable {item : WorkItem} {current : Option JsonFields}
theorem neutral_deliverReplicas (he : e.PlainTargets) (hc : e.cfg.Configured item.collection)
    (hid : DocumentId item.id) : (deliverReplicas e item).Only (Neutral e) :=
  only_deliverReplicas (permits_neutral id .delivering).observes fun _ target ht =>
    only_writePendingWrite (permits_neutral id .delivering)
      ⟨fun _ _ _ hc' hid' hpath => hpath.ne_pending hc hid hc' hid' (he _ target ht), rfl⟩

/-- A delete entry may be distributed: its document is gone, or will be distributed as well. -/
def World.Ripe (e : Engine) (w : World (Derived × ν)) (collection docId : String)
    (change : Command) : Prop :=
  change = .delete → e.cfg.FansOut collection → w.files (e.live collection docId) = none ∨
    w.Queued e collection docId .create ∨ w.Queued e collection docId .patch

theorem ensures_fanOut {crash : Op → World (Derived × ν) → Prop}
    {post : Except FsError Bool → World (Derived × ν) → Prop} {targets : List String}
    {item : CacheItem} (hcrash : crash ⟨.cacheFanOut, .fanOut targets item⟩ w)
    (hok : ∀ complete outside, post (.ok complete)
      { w with outside := (w.outside.1.fanned item, outside) })
    (herror : ∀ err outside, post (.error err) { w with outside := (w.outside.1, outside) }) :
    (fanOut targets item).Ensures (exec host.recording .none) crash post w := by
  refine ensures_perform.mpr ⟨hcrash, ?_⟩
  change post (exec host.recording .none ⟨.cacheFanOut, .fanOut targets item⟩ w).1
    (exec host.recording .none ⟨.cacheFanOut, .fanOut targets item⟩ w).2
  rcases hf : host.fanOut targets item w.outside.2 with ⟨_ | complete, outside⟩
  · rename_i err
    have hexec : exec host.recording .none ⟨.cacheFanOut, .fanOut targets item⟩ w =
        ((.error err : Except FsError Bool), { w with outside := (w.outside.1, outside) }) := by
      simp [exec, Call.apply, Host.recording, hf]
      rfl
    rw [hexec]
    exact herror err outside
  · have hexec : exec host.recording .none ⟨.cacheFanOut, .fanOut targets item⟩ w =
        ((.ok complete : Except FsError Bool),
          { w with outside := (w.outside.1.fanned item, outside) }) := by
      simp [exec, Call.apply, Host.recording, hf]
      rfl
    rw [hexec]
    exact hok complete outside

theorem ensures_index {crash : Op → World (Derived × ν) → Prop}
    {post : Except FsError Unit → World (Derived × ν) → Prop} {previous : Option JsonFields}
    (hcrash : crash ⟨.searchIndex, .index coll docId previous current⟩ w)
    (hok : ∀ outside, post (.ok ())
      { w with outside := (w.outside.1.indexed coll docId current, outside) })
    (herror : ∀ err outside, post (.error err) { w with outside := (w.outside.1, outside) }) :
    (index coll docId previous current).Ensures (exec host.recording .none) crash post w := by
  refine ensures_perform.mpr ⟨hcrash, ?_⟩
  change post (exec host.recording .none ⟨.searchIndex, .index coll docId previous current⟩ w).1
    (exec host.recording .none ⟨.searchIndex, .index coll docId previous current⟩ w).2
  rcases hf : host.index coll docId previous current w.outside.2 with ⟨_ | done, outside⟩
  · rename_i err
    have hexec : exec host.recording .none ⟨.searchIndex, .index coll docId previous current⟩ w =
          ((.error err : Except FsError Unit), { w with outside := (w.outside.1, outside) }) := by
      simp [exec, Call.apply, Host.recording, hf]
      rfl
    rw [hexec]
    exact herror err outside
  · have hexec : exec host.recording .none ⟨.searchIndex, .index coll docId previous current⟩ w =
          ((.ok () : Except FsError Unit),
            { w with outside := (w.outside.1.indexed coll docId current, outside) }) := by
      simp [exec, Call.apply, Host.recording, hf]
      rfl
    rw [hexec]
    exact hok outside

theorem World.Prepared.fanned (hw : w.Prepared e) (hc : e.cfg.Configured coll)
    (hid : DocumentId docId) (hripe : w.Ripe e coll docId change) {operationId : String}
    {prev : Option JsonFields} {item : CacheItem} (hfans : e.cfg.FansOut coll)
    (hcurrent : w.files (e.live coll docId) = current.map File.ofFields)
    (hitem : cacheItem coll docId change operationId current prev = some item) (outside : ν) :
    Prepared e { w with outside := (w.outside.1.fanned item, outside) } := by
  obtain ⟨rfl, rfl, hcontent⟩ := cacheItem_some hitem
  refine hw.update item.sourceCollection item.sourceDocumentID (fun c' id' _ _ hne =>
    ⟨fun _ _ => rfl, rfl, ?_⟩) ?_
  · exact if_neg fun heq => hne (by rw [heq.1, heq.2])
  · have hcovered := hw _ _ hc hid
    have hcache : (w.outside.1.fanned item).cache item.sourceCollection item.sourceDocumentID =
        Derived.itemContent item := if_pos ⟨rfl, rfl⟩
    rw [Covers]
    rcases hcontent with ⟨hdelete, hnone⟩ | ⟨-, fields, rfl, hsome⟩
    · rw [hcache, hnone]
      exact hcovered.retracted (hripe hdelete hfans)
    · rw [hcache, hsome]
      exact hcovered.fanned hcurrent

structure World.Fanned (e : Engine) (collection docId : String) (change : Command)
    (w : World (Derived × ν)) : Prop where
  prepared : w.Prepared e
  cached : e.cfg.FansOut collection → change ≠ .delete → w.files (e.live collection docId) ≠ none →
    w.files (e.live collection docId) = (w.outside.1.cache collection docId).map File.ofFields
  gone : e.cfg.FansOut collection → change = .delete → w.outside.1.cache collection docId = none

theorem ensures_distributeCache (hw : w.Prepared e) (hc : e.cfg.Configured coll)
    (hid : DocumentId docId) (hripe : w.Ripe e coll docId change) {prev : Option JsonFields}
    (hcurrent : w.files (e.live coll docId) = current.map File.ofFields) :
    (distributeCache e coll docId change current prev).Ensures (exec host.recording .none)
      (fun _ t => t.Prepared e)
      (fun r t => t.Prepared e ∧ t.files = w.files ∧
        ∀ complete, r = .ok complete → t.Fanned e coll docId change) w := by
  unfold distributeCache
  split
  · rename_i hno
    exact (ensures_done _ _).mpr ⟨hw, rfl, fun _ _ => ⟨hw, fun hfans => absurd hno hfans, fun hfans => absurd hno hfans⟩⟩
  · rename_i hfans
    have htick : (w.tick 1).Prepared e := (drawn_tick w 1).still.prepared hw
    simp only [bind_eq, ensures_bind, ensures_newId, run_newId_none]
    refine ⟨hw, ?_⟩
    cases hitem : cacheItem coll docId change (host.recording.ids w.issued) current prev with
    | none =>
      obtain ⟨hchange, rfl⟩ := cacheItem_none hitem
      exact (ensures_done _ _).mpr ⟨htick, rfl, fun _ _ => ⟨htick, fun _ _ hlive => absurd hcurrent hlive,
        fun _ hdelete => absurd hdelete hchange⟩⟩
    | some item =>
      have hfanned := htick.fanned hc hid hripe hfans hcurrent hitem
      refine ensures_fanOut htick (fun complete outside => ?_) fun err outside => ?_
      · obtain ⟨rfl, rfl, hcontent⟩ := cacheItem_some hitem
        have hcache : (w.outside.1.fanned item).cache item.sourceCollection
            item.sourceDocumentID = Derived.itemContent item := if_pos ⟨rfl, rfl⟩
        refine ⟨hfanned outside, rfl, fun _ _ => ⟨hfanned outside, fun _ hne hlive => ?_,
          fun _ hdelete => ?_⟩⟩
        · obtain ⟨-, fields, rfl, hsome⟩ := hcontent.resolve_left fun h => hne h.1
          exact hcurrent.trans (congrArg _ (hcache.trans hsome).symm)
        · obtain ⟨-, hnone⟩ := hcontent.resolve_right fun h => h.1 hdelete
          exact hcache.trans hnone
      · have hstill : (w.tick 1).Still e { w.tick 1 with outside := (w.outside.1, outside) } :=
          fun _ _ _ _ => ⟨fun _ _ => rfl, rfl, rfl⟩
        exact ⟨hstill.prepared htick, rfl, fun _ h => by cases h⟩

theorem World.Prepared.indexed (hw : w.Prepared e) (hc : e.cfg.Configured coll)
    (hid : DocumentId docId) (hcurrent : w.files (e.live coll docId) = current.map File.ofFields)
    (outside : ν) :
    Prepared e { w with outside := (w.outside.1.indexed coll docId current, outside) } := by
  refine hw.update coll docId (fun c' id' _ _ hne => ⟨fun _ _ => rfl, ?_, rfl⟩) ?_
  · exact if_neg fun heq => hne (by rw [heq.1, heq.2])
  · have hsearch : (w.outside.1.indexed coll docId current).search coll docId =
        current := if_pos ⟨rfl, rfl⟩
    rw [Covers, hsearch]
    exact (hw _ _ hc hid).indexed hcurrent

structure World.Distributed (e : Engine) (collection docId : String) (change : Command)
    (w : World (Derived × ν)) : Prop extends Fanned e collection docId change w where
  searched : w.files (e.live collection docId) =
    (w.outside.1.search collection docId).map File.ofFields

theorem World.Distributed.still (h : w.Distributed e coll docId change) (hs : w.Still e t)
    (hc : e.cfg.Configured coll) (hid : DocumentId docId) : t.Distributed e coll docId change := by
  have hsame := hs coll docId hc hid
  have hlive := hsame.files _ .live
  refine ⟨⟨hs.prepared h.prepared, fun hfans hne hsome => ?_, fun hfans hdelete => ?_⟩, ?_⟩
  · rw [hlive] at hsome ⊢
    rw [hsame.cache]
    exact h.cached hfans hne hsome
  · rw [hsame.cache]
    exact h.gone hfans hdelete
  · rw [hlive, hsame.search]
    exact h.searched

theorem ensures_process (hw : w.Prepared e) (hc : e.cfg.Configured coll) (hid : DocumentId docId)
    (hripe : w.Ripe e coll docId change) :
    (process e change coll docId).Ensures (exec host.recording .none) (fun _ t => t.Prepared e)
      (fun r t => t.Prepared e ∧
        ∀ complete, r = .ok complete → t.Distributed e coll docId change) w := by
  simp only [process, processWith, bind_eq, ensures_bind, ensures_readOptionalDoc,
    Faults.none_apply]
  refine ⟨hw, ?_⟩
  cases hcurrent : w.readOptional false (e.live coll docId) with
  | error err => exact (ensures_done _ _).mpr ⟨hw, fun _ h => by cases h⟩
  | ok current =>
    simp only [ensures_bind, ensures_readOptionalDoc, Faults.none_apply]
    refine ⟨hw, ?_⟩
    cases w.readOptional false (e.previous coll docId) with
    | error err => exact (ensures_done _ _).mpr ⟨hw, fun _ h => by cases h⟩
    | ok prev =>
      have hlive := readOptional_ok hcurrent
      refine .bind (ensures_distributeCache hw hc hid hripe hlive) fun r t hr => ?_
      obtain ⟨ht, hfiles, hfanned⟩ := hr
      cases r with
      | error err => exact (ensures_done _ _).mpr ⟨ht, fun _ h => by cases h⟩
      | ok complete =>
        have hf := hfanned complete rfl
        have hlive' : t.files (e.live coll docId) = current.map File.ofFields := by
          rw [hfiles]
          exact hlive
        refine .bind (ensures_index ht (fun outside => ?_) fun err outside => ?_) fun r t' hr => hr
        · have hsearch : (t.outside.1.indexed coll docId current).search coll
              docId = current := if_pos ⟨rfl, rfl⟩
          have hprepared := ht.indexed hc hid hlive' outside
          exact (ensures_done _ _).mpr ⟨hprepared, fun _ _ =>
            ⟨⟨hprepared, hf.cached, hf.gone⟩, hlive'.trans (congrArg _ hsearch.symm)⟩⟩
        · have hstill : t.Still e { t with outside := (t.outside.1, outside) } :=
            fun _ _ _ _ => ⟨fun _ _ => rfl, rfl, rfl⟩
          exact (ensures_done _ _).mpr ⟨hstill.prepared ht, fun _ h => by cases h⟩

theorem World.still_put {file : Option File}
    (h : ∀ coll docId path', e.cfg.Configured coll → DocumentId docId →
      e.Watched coll docId path' → path ≠ path') : w.Still e (w.put path file) :=
  fun coll docId hc hid => ⟨fun path' hpath' =>
    put_files_other w (h coll docId path' hc hid hpath').symm file, rfl, rfl⟩

theorem World.Distributed.dropped (h : w.Distributed e coll docId change)
    (hc : e.cfg.Configured coll) (hid : DocumentId docId) :
    (w.put (takenQueuePath e.dataDir change coll docId) none).Prepared e := by
  have hput : ∀ path, takenQueuePath e.dataDir change coll docId ≠ path →
      (w.put (takenQueuePath e.dataDir change coll docId) none).files path = w.files path :=
    fun path hne => put_files_other w hne.symm none
  have hlive := e.takenQueuePath_not_live hc hid ⟨_, _, hc, hid, rfl⟩ change
  refine h.prepared.update coll docId (fun c' id' hc' hid' hne =>
    ⟨fun path hpath => hput path (hpath.ne_taken hc hid hc' hid' hne change), rfl, rfl⟩) ?_
  rw [Covers, hput _ hlive]
  refine (h.prepared coll docId hc hid).dropped h.searched h.cached h.gone fun other hother hq => ?_
  rw [Queued, hput _ (e.queuePath_ne_takenQueuePath hc hid hc hid other change).symm, hput]
  · exact hq
  · intro heq
    exact hother (e.takenQueuePath_inj hc hid hc hid heq).1.symm

theorem ensures_runClaimed (hw : w.Prepared e) (hc : e.cfg.Configured coll)
    (hid : DocumentId docId) (hripe : w.Ripe e coll docId change) :
    (runClaimed e change coll docId).Ensures (exec host.recording .none)
      (fun _ t => t.Prepared e) (fun _ t => t.Prepared e) w := by
  refine .bind (ensures_process hw hc hid hripe) fun r t hr => ?_
  obtain ⟨ht, hdone⟩ := hr
  cases r with
  | error err => exact (ensures_done _ _).mpr ht
  | ok complete =>
    have hstill : t.Still e (t.put (e.previous coll docId) none) :=
      still_put fun c' id' path hc' hid' hpath => hpath.ne_previous hc hid hc' hid'
    have hd := (hdone complete rfl).still hstill hc hid
    have hprevious : (removeIfPresent .dropPrevious (e.previous coll docId)).Ensures
        (exec host.recording .none) (fun _ t => t.Prepared e)
        (fun _ t => t.Distributed e coll docId change) t := ensures_removeIfPresent ht hd
    refine .bind hprevious fun r t' ht' => ?_
    cases r with
    | error err => exact (ensures_done _ _).mpr ht'.prepared
    | ok u =>
      have htaken : (removeIfPresent .dropTaken
          (takenQueuePath e.dataDir change coll docId)).Ensures
          (exec host.recording .none) (fun _ t => t.Prepared e) (fun _ t => t.Prepared e) t' :=
        ensures_removeIfPresent ht'.prepared (ht'.dropped hc hid)
      refine .bind htaken fun r t'' ht'' => ?_
      cases r <;> exact (ensures_done _ _).mpr ht''

def World.claimed (e : Engine) (collection docId : String) (change : Command) (w : World ν) :
    World ν :=
  w.move (queuePath e.dataDir change collection docId)
    (takenQueuePath e.dataDir change collection docId)

section
variable {change : Command} (hc : e.cfg.Configured coll) (hid : DocumentId docId)
include hc hid

theorem claimed_live {w : World ν} :
    (w.claimed e coll docId change).files (e.live coll docId) = w.files (e.live coll docId) := by
  have hlive : e.LivePath (e.live coll docId) := ⟨_, _, hc, hid, rfl⟩
  exact move_files_other w (e.queuePath_not_live hc hid hlive change).symm
    (e.takenQueuePath_not_live hc hid hlive change).symm

theorem claimed_queued {w : World ν}
    (hq : w.files (queuePath e.dataDir change coll docId) ≠ none) {other : Command}
    (hother : w.Queued e coll docId other) :
    (w.claimed e coll docId change).Queued e coll docId other := by
  by_cases heq : other = change
  · subst heq
    exact .inr (by rw [claimed, move_files_target]; exact hq)
  · have hqueue : queuePath e.dataDir other coll docId ≠ queuePath e.dataDir change coll docId :=
      fun h => heq (e.queuePath_inj hc hid hc hid h).1
    have htaken : takenQueuePath e.dataDir other coll docId ≠
        takenQueuePath e.dataDir change coll docId :=
      fun h => heq (e.takenQueuePath_inj hc hid hc hid h).1
    rw [Queued, claimed, move_files_other w hqueue
      (e.queuePath_ne_takenQueuePath hc hid hc hid other change),
      move_files_other w (e.queuePath_ne_takenQueuePath hc hid hc hid change other).symm htaken]
    exact hother

theorem World.Prepared.claimed (hw : w.Prepared e)
    (hq : w.files (queuePath e.dataDir change coll docId) ≠ none) :
    (w.claimed e coll docId change).Prepared e := by
  refine hw.update coll docId (fun c' id' hc' hid' hne => ⟨fun path hpath => ?_, rfl, rfl⟩) ?_
  · exact move_files_other w (hpath.ne_queue hc hid hc' hid' hne change).symm
      (hpath.ne_taken hc hid hc' hid' hne change).symm
  · rw [Covers, claimed_live hc hid]
    exact (hw coll docId hc hid).mono fun other hother => claimed_queued hc hid hq hother

theorem ensures_runEntryResult (hw : w.Prepared e) (hripe : w.Ripe e coll docId change)
    (state : EntryState) :
    (runEntryResult e change coll docId state).Ensures (exec host.recording .none)
      (fun _ t => t.Prepared e) (fun _ t => t.Prepared e) w := by
  cases state with
  | taken => exact ensures_runClaimed hw hc hid hripe
  | queue =>
    simp only [runEntryResult, runEntryResultWith, bind_eq, ensures_bind, ensures_rename]
    refine ⟨hw, ?_⟩
    cases hq : w.files (queuePath e.dataDir change coll docId) with
    | none =>
      simp only [run_rename, Faults.none_apply, hq]
      exact (ensures_done _ _).mpr hw
    | some file =>
      simp only [run_rename, Faults.none_apply, hq]
      have hsome : w.files (queuePath e.dataDir change coll docId) ≠ none := by
        simp [hq]
      refine ensures_runClaimed (hw.claimed hc hid hsome) hc hid fun hdelete hfans => ?_
      refine (hripe hdelete hfans).imp (fun hnone => ?_)
        (.imp (claimed_queued hc hid hsome) (claimed_queued hc hid hsome))
      exact (claimed_live hc hid).trans hnone

theorem ensures_processNow (hw : w.Prepared e) (hripe : w.Ripe e coll docId change) :
    (processNow e change coll docId).Ensures (exec host.recording .none)
      (fun _ t => t.Prepared e) (fun _ t => t.Prepared e) w := by
  have hrun : ∀ state, (entryComplete e change coll docId state).Ensures
      (exec host.recording .none) (fun _ t => t.Prepared e) (fun _ t => t.Prepared e) w := by
    intro state
    refine .bind (ensures_runEntryResult hc hid hw hripe state) fun r t ht => ?_
    cases r <;> exact (ensures_done _ _).mpr ht
  have hstat : ∀ site path, (stat site path).Ensures (exec host.recording .none)
      (fun _ t => t.Prepared e) (fun _ t => t = w) w := by
    intro site path
    simp [hw]
  refine .bind (hstat _ _) fun r t ht => ?_
  subst ht
  cases r with
  | ok u => exact hrun .taken
  | error err =>
    refine .bind (hstat _ _) fun r t ht => ?_
    subst ht
    cases r with
    | error err => exact (ensures_done _ _).mpr hw
    | ok u => exact hrun .queue
end

theorem ensures_deliverOnce (he : e.PlainTargets) {res : Result}
    (hc : e.cfg.Configured item.collection) (hid : DocumentId item.id) (hw : w.Prepared e)
    (hripe : w.Ripe e item.collection item.id item.command) :
    (deliverOnce e item res).Ensures (exec host.recording .none) (fun _ t => t.Prepared e)
      (fun _ t => t.Prepared e) w := by
  have hreplicas : (deliverReplicas e item).Ensures (exec host.recording .none)
      (fun _ t => t.Prepared e) (fun _ t => w.Still e t) w :=
    (ensures_still (neutral_deliverReplicas he hc hid)).mono (fun _ _ h => h.prepared hw)
      fun _ _ h => h
  refine .bind hreplicas fun note t ht => ?_
  have hripe' : t.Ripe e item.collection item.id item.command := by
    have hsame := ht item.collection item.id hc hid
    intro hdelete hfans
    rw [hsame.files _ .live, hsame.queued, hsame.queued]
    exact hripe hdelete hfans
  have hderived : (deliverDerived e item).Ensures (exec host.recording .none)
      (fun _ t => t.Prepared e) (fun _ t => t.Prepared e) t := by
    unfold deliverDerived
    split
    · exact ensures_processNow hc hid (ht.prepared hw) hripe'
    · exact (ensures_done _ _).mpr (ht.prepared hw)
  refine .bind hderived fun derived t' ht' => ?_
  exact (ensures_done _ _).mpr ht'

theorem World.Prepared.written (hw : w.Prepared e) (hc : e.cfg.Configured coll)
    (hid : DocumentId docId)
    (hfiles : ∀ path, path ≠ e.live coll docId → path ≠ e.previous coll docId →
      t.files path = w.files path) (houtside : t.outside = w.outside) {file : File}
    (hchange : change = .create ∨ change = .patch) :
    ((t.put (e.live coll docId) (some file)).put
      (queuePath e.dataDir change coll docId) (some .marker)).Prepared e := by
  refine hw.update coll docId (fun c' id' hc' hid' hne => ⟨fun path hpath => ?_, ?_, ?_⟩) ?_
  · rw [put_files_other _ (hpath.ne_queue hc hid hc' hid' hne change).symm,
      put_files_other _ (hpath.ne_live hc hid hc' hid' hne).symm]
    exact hfiles path (hpath.ne_live hc hid hc' hid' hne).symm
      (hpath.ne_previous hc hid hc' hid').symm
  · rw [put_outside, put_outside, houtside]
  · rw [put_outside, put_outside, houtside]
  · refine Covered.written hchange (.inl (by simp)) ?_
    rw [put_files_other _ (e.queuePath_not_live hc hid ⟨_, _, hc, hid, rfl⟩ change).symm]
    simp

theorem preserved_files {w : World ν} {path : Path} (hlive : path ≠ e.live coll docId)
    (hprevious : path ≠ e.previous coll docId) :
    (w.preserved e coll docId).files path = w.files path := by
  unfold preserved
  split
  · exact move_files_other w hlive hprevious
  · rfl

theorem preserved_outside {w : World ν} : (w.preserved e coll docId).outside = w.outside := by
  unfold preserved
  split <;> rfl

theorem preserved_of_previous {w : World ν} (h : w.files (e.previous coll docId) ≠ none) :
    w.preserved e coll docId = w := if_neg h

section
variable {req : Request} (hc : e.cfg.Configured req.target) (hid : DocumentId req.parameter)
include hc hid

theorem deleted_live {w : World ν} :
    ((w.deleted e .none req).put (queuePath e.dataDir .delete req.target req.parameter)
      (some .marker)).files (e.live req.target req.parameter) = none := by
  rw [put_files_other _ (e.queuePath_not_live hc hid ⟨_, _, hc, hid, rfl⟩ .delete).symm]
  exact deleted_own_live hid

theorem World.Prepared.deleted (hw : w.Prepared e) :
    ((w.deleted e .none req).put (queuePath e.dataDir .delete req.target req.parameter)
      (some .marker)).Prepared e := by
  have houtside : (w.deleted e .none req).outside = w.outside := by
    simp only [World.deleted, prune_outside, put_outside, vacate]
    split <;> rfl
  refine hw.update req.target req.parameter (fun c' id' hc' hid' hne =>
    ⟨fun path hpath => ?_, ?_, ?_⟩) ?_
  · obtain ⟨hl, ho⟩ := hpath.not_attachment hc hid hc' hid'
    rw [put_files_other _ (hpath.ne_queue hc hid hc' hid' hne .delete).symm,
      deleted_files (hpath.ne_manifest hc hid hc' hid').symm hl ho]
    exact vacate_files (hpath.ne_live hc hid hc' hid' hne).symm
      (hpath.ne_previous hc hid hc' hid').symm _
  · rw [put_outside, houtside]
  · rw [put_outside, houtside]
  · rw [Covers, deleted_live hc hid]
    exact Covered.removed (.inl (by simp))
end

/-- The places where a process may die. -/
def SafeStage (kept : Prop) : Stage → Prop
  | .deciding => True
  | .writing => kept
  | .committing => False
  | .delivering => True

def LeavesPrepared (e : Engine) (kept : Prop) (stage : Stage) (t : World (Derived × ν)) : Prop :=
  SafeStage kept stage → t.Prepared e

def Hands {α : Type} (e : Engine) (host : Host ν) (kept : Prop) (p : Prog α)
    (w : World (Derived × ν)) : Prop :=
  p.Ensures (exec host.recording .none) (atStage (LeavesPrepared e kept)) (fun _ t => t.Prepared e) w

variable {req : Request}
theorem Idle.hands {α : Type} {kept : Prop} {good : α → Prop} {p : Prog α} (hw : w.Prepared e)
    (h : Idle host.recording .none good p w) : Hands e host kept p w :=
  h.mono (fun _ _ hdrawn _ => hdrawn.still.prepared hw) fun _ _ hpost =>
    hpost.2.still.prepared hw

theorem hands_deliverOnce (he : e.PlainTargets) {kept : Prop} {res : Result}
    (hc : e.cfg.Configured item.collection) (hid : DocumentId item.id) (hw : w.Prepared e)
    (hripe : w.Ripe e item.collection item.id item.command) :
    Hands e host kept (deliverOnce e item res) w :=
  (ensures_deliverOnce he hc hid hw hripe).mono (fun _ _ h _ => h) fun _ _ h => h

theorem hands_create (he : e.PlainTargets) (hw : w.Prepared e) :
    Hands e host True (create e req) w := by
  by_cases hready : ∃ schemaRaw doc, CreateReady e host.recording .none req w schemaRaw doc
  swap
  · exact (idle_create fun schemaRaw doc h => hready ⟨schemaRaw, doc, h⟩).hands hw
  obtain ⟨schemaRaw, doc, hready⟩ := hready
  obtain ⟨hraw, hid⟩ := createAdmission_ok hready.admitted
  have hc := configured_of_schema hraw
  by_cases hrefused : CreateRefused e .none req w
  · exact (idle_create_refused hready hrefused).hands hw
  refine ensures_create_ready hready hrefused (fun stage t _ hdrawn _ => hdrawn.still.prepared hw)
    (fun hsafe => hsafe.elim) fun w' hw' => ?_
  have hprepared : w'.Prepared e := by
    rw [hw']
    exact hw.written hc hid (fun _ _ _ => rfl) rfl (.inl rfl)
  exact ⟨fun _ => hprepared, hands_deliverOnce he hc hid hprepared fun h => by cases h⟩

theorem hands_patch (he : e.PlainTargets) (hw : w.Prepared e) :
    Hands e host (w.files (e.previous req.target req.parameter) ≠ none) (patch e req) w := by
  by_cases hready : ∃ schemaRaw old new ops,
      PatchReady e host.recording .none req w schemaRaw old new ops
  swap
  · exact (idle_patch fun schemaRaw old new ops h => hready ⟨schemaRaw, old, new, ops, h⟩).hands hw
  obtain ⟨schemaRaw, old, new, ops, hready⟩ := hready
  obtain ⟨hraw, hid⟩ := patchAdmission_ok hready.admitted
  have hc := configured_of_schema hraw
  have htick : (w.tick (1 + req.operationIdDraws)).Prepared e :=
    (drawn_tick w _).still.prepared hw
  refine ensures_patch_ready hready rfl (fun t hdrawn _ => hdrawn.still.prepared hw)
    (fun hkept => ?_) (fun hsafe => hsafe.elim) fun w' hw' => ?_
  · have hprevious : (w.tick (1 + req.operationIdDraws)).files
        (e.previous req.target req.parameter) ≠ none := hkept
    rw [preserved_of_previous hprevious]
    exact htick
  · have hprepared : w'.Prepared e := by
      rw [hw']
      exact htick.written hc hid (fun _ => preserved_files) preserved_outside (.inr rfl)
    exact ⟨fun _ => hprepared, hands_deliverOnce he hc hid hprepared fun h => by cases h⟩

theorem hands_delete (he : e.PlainTargets) (hc : e.cfg.Configured req.target)
    (hw : w.Prepared e) : Hands e host True (delete e req) w := by
  by_cases hready : ∃ old, DeleteReady e .none req w old
  swap
  · exact (idle_delete fun old h => hready ⟨old, h⟩).hands hw
  obtain ⟨old, hready⟩ := hready
  have hid := deleteAdmission_ok hready.admitted
  have htick : (w.tick req.operationIdDraws).Prepared e := (drawn_tick w _).still.prepared hw
  refine ensures_delete_ready hready (fun t hdrawn _ => hdrawn.still.prepared hw)
    (fun _ hsafe => hsafe.elim) fun w' hw' => ?_
  have hprepared : w'.Prepared e := by
    rw [hw']
    exact Prepared.deleted hc hid htick
  refine ⟨fun _ => hprepared, hands_deliverOnce he hc hid hprepared fun _ _ => .inl ?_⟩
  rw [hw']
  exact deleted_live hc hid

theorem hands_migration (hc : e.cfg.Configured coll) (hid : DocumentId docId) (hw : w.Prepared e) :
    Hands e host (w.files (e.previous coll docId) ≠ none)
      (applyToStoredDocument e coll docId) w := by
  by_cases hready : ∃ old new, MigrationReady e host.recording coll docId w old new
  swap
  · exact (idle_applyToStoredDocument fun old new h => hready ⟨old, new, h⟩).hands hw
  obtain ⟨old, new, hready⟩ := hready
  have htick : (w.tick 1).Prepared e := (drawn_tick w _).still.prepared hw
  refine ensures_applyToStoredDocument hready rfl (fun t hdrawn _ => hdrawn.still.prepared hw)
    (fun hkept => ?_) (fun hsafe => hsafe.elim) ?_
  · have hprevious : (w.tick 1).files (e.previous coll docId) ≠ none := hkept
    rw [preserved_of_previous hprevious]
    exact htick
  · exact htick.written hc hid (fun _ => preserved_files) preserved_outside (.inr rfl)

theorem hands_entry (hc : e.cfg.Configured coll) (hid : DocumentId docId) (hw : w.Prepared e)
    (hripe : w.Ripe e coll docId change) (state : EntryState) :
    Hands e host True (runEntryResult e change coll docId state) w :=
  (ensures_runEntryResult hc hid hw hripe state).mono (fun _ _ h _ => h) fun _ _ h => h

inductive Activity where
  | create (req : Request)
  | patch (req : Request)
  | delete (req : Request)
  | migration (collection docId : String)
  | entry (change : Command) (collection docId : String) (state : EntryState)

namespace Activity
def prog (e : Engine) : Activity → Prog Unit
  | create req => (Datorium.create e req).bind fun _ => pure ()
  | patch req => (Datorium.patch e req).bind fun _ => pure ()
  | delete req => (Datorium.delete e req).bind fun _ => pure ()
  | migration coll docId => (applyToStoredDocument e coll docId).bind fun _ => pure ()
  | entry change coll docId state =>
    (runEntryResult e change coll docId state).bind fun _ => pure ()

def kept (e : Engine) (w : World (Derived × ν)) : Activity → Prop
  | patch req => w.files (e.previous req.target req.parameter) ≠ none
  | migration coll docId => w.files (e.previous coll docId) ≠ none
  | _ => True

def Timely (e : Engine) (w : World (Derived × ν)) : Activity → Prop
  | create _ => True
  | patch _ => True
  | delete req => e.cfg.Configured req.target
  | migration coll docId => e.cfg.Configured coll ∧ DocumentId docId
  | entry change coll docId _ =>
    e.cfg.Configured coll ∧ DocumentId docId ∧ w.Ripe e coll docId change
end Activity

/-- One activity runs to its end, or the process dies before one of its calls. -/
inductive HandStep (e : Engine) (host : Host ν)
    (guard : World (Derived × ν) → Activity → Option Op → Prop) :
    World (Derived × ν) → World (Derived × ν) → Prop where
  | finished {w : World (Derived × ν)} (a : Activity) (guarded : guard w a none) :
      HandStep e host guard w ((a.prog e).run (exec host.recording .none) w).2
  | crashed {w t : World (Derived × ν)} (a : Activity) {op : Op}
      (stop : (op, t) ∈ (a.prog e).stops (exec host.recording .none) w)
      (guarded : guard w a (some op)) : HandStep e host guard w t

def Careful (e : Engine) (w : World (Derived × ν)) (a : Activity) (stop : Option Op) : Prop :=
  a.Timely e w ∧ ∀ op, stop = some op → SafeStage (a.kept e w) op.site.stage

def World.DurableHandOff (e : Engine) (w : World (Derived × ν)) : Prop :=
  ∀ coll docId, e.cfg.Configured coll → DocumentId docId → w.files (e.live coll docId) ≠
        (w.outside.1.search coll docId).map File.ofFields ∨
      e.cfg.FansOut coll ∧ w.files (e.live coll docId) ≠
        (w.outside.1.cache coll docId).map File.ofFields →
    ∃ change, w.Queued e coll docId change

theorem World.Prepared.durableHandOff (hw : w.Prepared e) : w.DurableHandOff e := by
  intro coll docId hc hid hdiffers
  have hcovered := hw coll docId hc hid
  rcases hdiffers with hsearch | ⟨hfans, hcache⟩
  · exact hcovered.searched hsearch
  · by_cases hlive : w.files (e.live coll docId) = none
    · have hsome : w.outside.1.cache coll docId ≠ none := by
        intro hnone
        rw [hlive, hnone] at hcache
        exact hcache rfl
      exact ⟨.delete, hcovered.gone hfans hlive hsome⟩
    · rcases hcovered.cached hfans hlive hcache with hq | hq
      · exact ⟨.create, hq⟩
      · exact ⟨.patch, hq⟩

theorem prepared_of_empty (hfiles : ∀ path, w.files path = none) (hderived : w.outside.1 = .empty) :
    w.Prepared e := by
  intro coll docId hc hid
  rw [Covers, hfiles, hderived]
  exact ⟨fun hne => absurd rfl hne, fun _ hne => absurd rfl hne, fun _ _ hne => absurd rfl hne⟩

theorem Activity.hands (he : e.PlainTargets) (hw : w.Prepared e) {a : Activity}
    (ha : a.Timely e w) : Hands e host (a.kept e w) (a.prog e) w := by
  have hend : ∀ {α : Type} {kept : Prop} {p : Prog α}, Hands e host kept p w →
      Hands e host kept (p.bind fun _ => pure ()) w := by
    intro α kept p hp
    exact .bind hp fun _ t ht => (ensures_done _ _).mpr ht
  cases a with
  | create req => exact hend (hands_create he hw)
  | patch req => exact hend (hands_patch he hw)
  | delete req => exact hend (hands_delete he ha hw)
  | migration coll docId => exact hend (hands_migration ha.1 ha.2 hw)
  | entry change coll docId state => exact hend (hands_entry ha.1 ha.2.1 hw ha.2.2 state)

theorem HandStep.prepared (he : e.PlainTargets) (h : HandStep e host (Careful e) w t)
    (hw : w.Prepared e) : t.Prepared e := by
  cases h with
  | finished a hguard => exact (Activity.hands he hw hguard.1).2
  | crashed a hstop hguard =>
    exact (Activity.hands he hw hguard.1).1 _ hstop (hguard.2 _ rfl)

/-- In every state a careful run leads to, what was not distributed has a queue entry. -/
theorem durable_handoff_careful (he : e.PlainTargets) (hw : w.Prepared e)
    (hreach : Relation.ReflTransGen (HandStep e host (Careful e)) w t) : t.DurableHandOff e := by
  have hprepared : t.Prepared e := by
    induction hreach with
    | refl => exact hw
    | tail _ hstep ih => exact hstep.prepared he ih
  exact hprepared.durableHandOff
end
namespace Sample
def freshWorld : World (Derived × Unit) := ⟨fun _ => none, 0, .empty, ()⟩

def done (e : Engine) (a : Activity) (w : World (Derived × Unit)) : World (Derived × Unit) :=
  ((a.prog e).run (exec host.recording .none) w).2

def referringConfig : Config where
  version := 1
  baseURLs := []
  shardMap := [("00-FF", ⟨"alpha", ["alpha"], []⟩)]
  schemas := [("Movies", .obj [("format", .str "DatoriumCachedRef"),
    ("custom", .obj [("collections", .arr [.str "Movies"])])])]
  schemaVersions := [("Movies", 1)]
  schemaUpdateHistory := []
  plainNames coll h := by
    by_cases hc : "Movies" = coll
    · subst hc
      decide
    · simp [Fields.get?_cons, hc] at h

def referringServer : Engine := { server with cfg := referringConfig }

def recreated : World (Derived × Unit) :=
  [.create createRequest, .delete (deleteRequest "v1"), .create createRequest,
    .entry .create "Movies" "alien" .queue, .entry .delete "Movies" "alien" .queue].foldl
      (fun w a => done referringServer a w) freshWorld
end Sample
open Sample
theorem durable_handoff_careful_create :
    (done server (.create createRequest) freshWorld).DurableHandOff
      server :=
  durable_handoff_careful server_plainTargets (prepared_of_empty (fun _ => rfl) rfl)
    (.single (.finished _ ⟨trivial, fun _ h => by cases h⟩))

/-- A create that dies before it writes the entry, and a delete entry that is distributed after the
create entry of the next document of that name. -/
theorem durable_handoff_fails : (∃ t, Relation.ReflTransGen (HandStep server host fun _ _ _ => True)
        freshWorld t ∧ ¬ t.DurableHandOff server) ∧
      Relation.ReflTransGen (HandStep referringServer host fun _ _ stop =>
        stop = none) freshWorld recreated ∧
      ¬ recreated.DurableHandOff referringServer := by
  refine ⟨?_, ?_, ?_⟩
  · have hlost : ((Activity.prog server (.create createRequest)).stops
        (exec host.recording .none) freshWorld).any (fun stop =>
          (stop.2.files (server.live "Movies" "alien")).isSome &&
          (stop.2.outside.1.search "Movies" "alien").isNone &&
          [Command.create, .read, .patch, .delete].all fun change =>
            (stop.2.files (queuePath ["data"] change "Movies" "alien")).isNone &&
            (stop.2.files (takenQueuePath ["data"] change "Movies" "alien")).isNone) = true := by
      decide +kernel
    obtain ⟨⟨op, t⟩, hstop, hfacts⟩ := List.any_eq_true.mp hlost
    simp only [Bool.and_eq_true, List.all_eq_true, Option.isNone_iff_eq_none] at hfacts
    obtain ⟨⟨hlive, hsearch⟩, hqueue⟩ := hfacts
    refine ⟨t, .single (.crashed _ hstop trivial), fun h => ?_⟩
    obtain ⟨change, hq | hq⟩ := h "Movies" "alien" (by decide) alien_id
      (.inl (by rw [hsearch]; exact fun hnone => by rw [hnone] at hlive; cases hlive))
    · exact hq (hqueue change (by cases change <;> simp)).1
    · exact hq (hqueue change (by cases change <;> simp)).2
  · have hstep : ∀ a w, HandStep referringServer host (fun _ _ stop => stop = none) w
        (done referringServer a w) := fun a w => .finished a rfl
    exact .tail (.tail (.tail (.tail (.single (hstep _ _)) (hstep _ _)) (hstep _ _)) (hstep _ _))
      (hstep _ _)
  · have hfacts : ((recreated.files (referringServer.live "Movies" "alien")).isSome &&
        (recreated.outside.1.cache "Movies" "alien").isNone &&
        [Command.create, .read, .patch, .delete].all fun change =>
          (recreated.files (queuePath ["data"] change "Movies" "alien")).isNone &&
          (recreated.files (takenQueuePath ["data"] change "Movies" "alien")).isNone) =
        true := by
      decide +kernel
    simp only [Bool.and_eq_true, List.all_eq_true, Option.isNone_iff_eq_none] at hfacts
    obtain ⟨⟨hlive, hcache⟩, hqueue⟩ := hfacts
    intro h
    obtain ⟨change, hq | hq⟩ := h "Movies" "alien" (by decide) alien_id (.inr ⟨by decide +kernel, by
        rw [hcache]; exact fun hnone => by rw [hnone] at hlive; cases hlive⟩)
    · exact hq (hqueue change (by cases change <;> simp)).1
    · exact hq (hqueue change (by cases change <;> simp)).2
end Datorium
