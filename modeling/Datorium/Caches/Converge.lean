
import Datorium.Caches.Net
namespace Datorium
open Framework
structure CacheSource where
  e : Engine
  ids : Nat → String
  distinct : Function.Injective ids
  named : ∀ n, ids n ≠ ""

inductive CacheMove where
  | command (req : Request)
  | agent (change : Command) (collection docId : String) (state : EntryState) (faults : Faults)
      (outcomes : String → CacheOutcome)
  | fetch (member : String) (item : CacheItem)
  | pull (member : String) (item : CacheItem) (cleared : Bool)
  | stub (member collection docId : String)

def CacheNet.stub (member : String) (key : SourceKey) (net : CacheNet) : CacheNet :=
  net.setCache member key (some ((net.cache member key).getD (missingRecord key.2)))

namespace CacheSource
variable (x : CacheSource)
def host (outcomes : String → CacheOutcome) : Host CacheNet where
  ids := x.ids
  push _ _ net := (false, net)
  fanOut members item net := net.fanOut outcomes item members true
  index _ _ _ _ net := (.ok (), net)

def Enabled (w : World CacheNet) : CacheMove → Prop
  | .command req => req.command ≠ .read ∧ x.e.cfg.Configured req.target
  | .agent change coll docId state _ _ => change ≠ .read ∧ x.e.cfg.Configured coll ∧
      DocumentId docId ∧ w.Present x.e coll docId change state
  | .fetch member item => w.outside.pending member item.key = some item
  | .pull member item _ => w.outside.fetched member item.key = some item
  | .stub _ _ _ => True

def after (w : World CacheNet) : CacheMove → World CacheNet
  | .command req => ((commit x.e req).run (exec (x.host fun _ => .cleared) .none) w).2
  | .agent change coll docId state faults outcomes =>
    ((runEntryResult x.e change coll docId state).run (exec (x.host outcomes) faults) w).2
  | .fetch member item => { w with outside := w.outside.setFetched member item.key (some item) }
  | .pull member item cleared => { w with outside := (w.outside.deliver member item cleared).2 }
  | .stub member coll docId => { w with outside := w.outside.stub member (coll, docId) }

def Rewrites (w : World CacheNet) (collection docId : String) : Prop :=
  w.Queued x.e collection docId .create ∨ w.Queued x.e collection docId .patch

/-- The step does not leave a member behind. -/
def Careful (w : World CacheNet) : CacheMove → Prop
  | .command _ => True
  | .agent change coll docId _ _ _ => change = .delete →
      w.files (x.e.live coll docId) = none ∨ x.Rewrites w coll docId
  | .fetch _ _ => True
  | .pull member item _ => w.outside.pending member item.key = some item
  | .stub member coll docId => w.outside.cache member (coll, docId) ≠ none ∨
      w.files (x.e.live coll docId) = none ∨ x.Rewrites w coll docId ∨
      w.outside.pending member (coll, docId) ≠ none

def Step (w t : World CacheNet) : Prop := ∃ move, x.Enabled w move ∧ x.after w move = t

def CarefulStep (w t : World CacheNet) : Prop :=
  ∃ move, x.Enabled w move ∧ x.Careful w move ∧ x.after w move = t

structure Blank (collection docId : String) (w : World CacheNet) : Prop where
  live : w.files (x.e.live collection docId) = none
  pending : ∀ member, w.outside.pending member (collection, docId) = none
  cache : ∀ member, w.outside.cache member (collection, docId) = none

/-! ## The invariant -/

def versionOf (record : JsonFields) : String := Json.asString (Fields.get? "#" record)

def InPlay (collection docId : String) (w : World CacheNet) (record : JsonFields) : Prop :=
  w.files (x.e.live collection docId) = some (File.ofFields record) ∨
    (∃ member, w.outside.cache member (collection, docId) = some record) ∨
    ∃ member item, w.outside.pending member (collection, docId) = some item ∧
      item.record = .ok record

structure Sound (collection docId : String) (w : World CacheNet) : Prop where
  objects : ∀ file, w.files (x.e.live collection docId) = some file →
    ∃ doc, file = File.ofFields doc ∧ doc ≠ missingRecord docId
  items : ∀ member item, w.outside.pending member (collection, docId) = some item →
    item.key = (collection, docId) ∧
      ∃ record, item.record = .ok record ∧ item.afterVersion = versionOf record
  versions : ∀ record, x.InPlay collection docId w record → record = missingRecord docId ∨
    ∃ n, n < w.issued ∧ Fields.get? "#" record = some (.str (x.ids n))
  agree : ∀ record record', x.InPlay collection docId w record →
    x.InPlay collection docId w record' → versionOf record = versionOf record' → record = record'

def Shown (collection docId : String) (w : World CacheNet) (record : JsonFields) : Prop :=
  w.files (x.e.live collection docId) = none ∧ record = missingRecord docId ∨
    w.files (x.e.live collection docId) = some (File.ofFields record)

def Fixes (collection docId : String) (w : World CacheNet) : Prop :=
  w.files (x.e.live collection docId) ≠ none ∧ x.Rewrites w collection docId ∨
    w.files (x.e.live collection docId) = none ∧ w.Queued x.e collection docId .delete

/-- What is staged for a member shows the current state, and so does a member for which nothing is
staged. -/
structure Settles (collection docId : String) (w : World CacheNet) : Prop where
  staged : ∀ member ∈ x.e.cfg.allReadMembers, ∀ item,
    w.outside.pending member (collection, docId) = some item →
      ∃ record, item.record = .ok record ∧ x.Shown collection docId w record
  cached : ∀ member ∈ x.e.cfg.allReadMembers, w.outside.pending member (collection, docId) = none →
      ∀ record, w.outside.cache member (collection, docId) = some record →
        x.Shown collection docId w record

structure Tracks (collection docId : String) (w : World CacheNet) : Prop where
  sound : x.Sound collection docId w
  told : x.Fixes collection docId w ∨ x.Settles collection docId w

variable {x} {coll docId : String} {w t : World CacheNet}
def Drawn (x : CacheSource) (w t : World CacheNet) (record : JsonFields) : Prop :=
  ∃ n, w.issued ≤ n ∧ n < t.issued ∧ Fields.get? "#" record = some (.str (x.ids n))

theorem versionOf_missing : versionOf (missingRecord docId) = "" := rfl

variable {record : JsonFields} {req : Request} {item : CacheItem} {member : String}
  {change : Command} {operationId : String} {current prev : Option JsonFields}
  {outcomes : String → CacheOutcome} {coll' docId' : String}
theorem versionOf_str {version : String} (h : Fields.get? "#" record = some (.str version)) :
    versionOf record = version := by
  rw [versionOf, h]
  rfl

theorem Sound.extend (hw : x.Sound coll docId w) (hissued : w.issued ≤ t.issued)
    (hobjects : ∀ file, t.files (x.e.live coll docId) = some file →
      ∃ doc, file = File.ofFields doc ∧ doc ≠ missingRecord docId)
    (hitems : ∀ member item, t.outside.pending member (coll, docId) = some item →
      item.key = (coll, docId) ∧
        ∃ record, item.record = .ok record ∧ item.afterVersion = versionOf record)
    (new : Option JsonFields)
    (hplay : ∀ record, x.InPlay coll docId t record → x.InPlay coll docId w record ∨
      record = missingRecord docId ∨ new = some record ∧ x.Drawn w t record) :
    x.Sound coll docId t := by
  -- whatever is in play has no version, an old one or the new one
  have hcases : ∀ record, x.InPlay coll docId t record → record = missingRecord docId ∨
      (x.InPlay coll docId w record ∧
        ∃ n, n < w.issued ∧ Fields.get? "#" record = some (.str (x.ids n))) ∨
      new = some record ∧ x.Drawn w t record := by
    intro record hrecord
    rcases hplay record hrecord with hold | hmissing | hnew
    · exact (hw.versions record hold).imp_right fun h => .inl ⟨hold, h⟩
    · exact .inl hmissing
    · exact .inr (.inr hnew)
  refine ⟨hobjects, hitems, fun record hrecord => ?_, fun record record' hr hr' hversion => ?_⟩
  · rcases hcases record hrecord with hmissing | ⟨-, n, hn, hversion⟩ | ⟨-, n, -, hn, hversion⟩
    · exact .inl hmissing
    · exact .inr ⟨n, Nat.lt_of_lt_of_le hn hissued, hversion⟩
    · exact .inr ⟨n, hn, hversion⟩
  · rcases hcases record hr with rfl | ⟨hold, n, hn, hv⟩ | ⟨hnew, n, hn, -, hv⟩ <;>
      rcases hcases record' hr' with rfl | ⟨hold', n', hn', hv'⟩ | ⟨hnew', n', hn', -, hv'⟩
    · rfl
    · rw [versionOf_missing, versionOf_str hv'] at hversion
      exact absurd hversion.symm (x.named n')
    · rw [versionOf_missing, versionOf_str hv'] at hversion
      exact absurd hversion.symm (x.named n')
    · rw [versionOf_missing, versionOf_str hv] at hversion
      exact absurd hversion (x.named n)
    · exact hw.agree record record' hold hold' hversion
    · rw [versionOf_str hv, versionOf_str hv'] at hversion
      have := x.distinct hversion
      omega
    · rw [versionOf_missing, versionOf_str hv] at hversion
      exact absurd hversion (x.named n)
    · rw [versionOf_str hv, versionOf_str hv'] at hversion
      have := x.distinct hversion
      omega
    · exact Option.some.inj (hnew.symm.trans hnew')

structure Untouched (x : CacheSource) (collection docId : String) (w t : World CacheNet) : Prop where
  files : ∀ path, x.e.Watched collection docId path → t.files path = w.files path
  pending : ∀ member, t.outside.pending member (collection, docId) =
    w.outside.pending member (collection, docId)
  cache : ∀ member, t.outside.cache member (collection, docId) =
    w.outside.cache member (collection, docId)
  issued : w.issued ≤ t.issued

theorem Untouched.inPlay (h : x.Untouched coll docId w t) :
    x.InPlay coll docId t record ↔ x.InPlay coll docId w record := by
  simp only [InPlay, h.files _ .live, h.pending, h.cache]

theorem Untouched.shown (h : x.Untouched coll docId w t) :
    x.Shown coll docId t record ↔ x.Shown coll docId w record := by
  rw [Shown, Shown, h.files _ .live]

theorem queued_same (h : ∀ path, x.e.Watched coll docId path → t.files path = w.files path)
    (change : Command) :
    t.Queued x.e coll docId change ↔ w.Queued x.e coll docId change := by
  rw [World.Queued, World.Queued, h _ (.queue change), h _ (.taken change)]

theorem fixes_same (h : ∀ path, x.e.Watched coll docId path → t.files path = w.files path) :
    x.Fixes coll docId t ↔ x.Fixes coll docId w := by
  rw [Fixes, Fixes, Rewrites, Rewrites, queued_same h, queued_same h, queued_same h, h _ .live]

theorem Untouched.tracks (h : x.Untouched coll docId w t) (hw : x.Tracks coll docId w) :
    x.Tracks coll docId t := by
  refine ⟨hw.sound.extend h.issued (fun file hfile => ?_) (fun member item hitem => ?_) none
    (fun record hrecord => .inl (h.inPlay.mp hrecord)), hw.told.imp (fixes_same h.files).mpr
      fun hsettles => ⟨fun member hmember item hitem => ?_, fun member hmember hnone record hcache => ?_⟩⟩
  · rw [h.files _ .live] at hfile
    exact hw.sound.objects file hfile
  · rw [h.pending] at hitem
    exact hw.sound.items member item hitem
  · rw [h.pending] at hitem
    obtain ⟨record, hrecord, hshown⟩ := hsettles.staged member hmember item hitem
    exact ⟨record, hrecord, h.shown.mpr hshown⟩
  · rw [h.pending] at hnone
    rw [h.cache] at hcache
    exact h.shown.mpr (hsettles.cached member hmember hnone record hcache)

/-! ## The steps -/

theorem Tracks.committed {host : Host CacheNet} {item : WorkItem}
    (hw : x.Tracks req.target req.parameter w) (hids : host.ids = x.ids)
    (hissued : w.issued ≤ t.issued) (houtside : t.outside = w.outside)
    (hitem : CommittedItem x.e host req item w t)
    (hqueue : t.files (queuePath x.e.dataDir req.command req.target req.parameter) ≠ none) :
    x.Tracks req.target req.parameter t := by
  have hqueued : t.Queued x.e req.target req.parameter req.command := .inl hqueue
  -- what was in play before still is, apart from the document itself
  have hold : ∀ record, x.InPlay req.target req.parameter t record →
      t.files (x.e.live req.target req.parameter) = some (File.ofFields record) ∨
        x.InPlay req.target req.parameter w record := by
    rintro record (hlive | hrest)
    · exact .inl hlive
    · rw [houtside] at hrest
      exact .inr (.inr hrest)
  have hitems : ∀ member item, t.outside.pending member (req.target, req.parameter) = some item →
      item.key = (req.target, req.parameter) ∧
        ∃ record, item.record = .ok record ∧ item.afterVersion = versionOf record := by
    rw [houtside]
    exact hw.sound.items
  cases hpayload : item.payload with
  | none =>
    have hnone : t.files (x.e.live req.target req.parameter) = none := by
      rw [hitem.live, hpayload]
      rfl
    have hdelete := hitem.gone.mp hpayload
    rw [hdelete] at hqueued
    refine ⟨hw.sound.extend hissued (fun file hfile => ?_) hitems none fun record hrecord => ?_,
      .inl (.inr ⟨hnone, hqueued⟩)⟩
    · rw [hnone] at hfile
      cases hfile
    · rcases hold record hrecord with hlive | hrecord
      · rw [hnone] at hlive
        cases hlive
      · exact .inl hrecord
  | some doc =>
    have hversion := hitem.version doc hpayload
    obtain ⟨fields, rfl⟩ : ∃ fields, doc = .obj fields := by
      cases doc with
      | obj fields => exact ⟨fields, rfl⟩
      | _ => cases hversion
    have hdelete : req.command ≠ .delete := fun h => by
      rw [hitem.gone.mpr h] at hpayload
      cases hpayload
    obtain ⟨n, hn, hn', hdrawn⟩ := hitem.drawn hdelete
    have hlive : t.files (x.e.live req.target req.parameter) = some (File.ofFields fields) := by
      rw [hitem.live, hpayload]
      rfl
    have hfresh : x.Drawn w t fields := by
      refine ⟨n, hn, hn', ?_⟩
      rw [← hids, ← hdrawn]
      exact hversion
    refine ⟨hw.sound.extend hissued (fun file hfile => ?_) hitems (some fields)
      fun record hrecord => ?_, .inl (.inl ⟨?_, ?_⟩)⟩
    · rw [hlive] at hfile
      refine ⟨fields, (Option.some.inj hfile).symm, fun h => ?_⟩
      obtain ⟨_, -, -, hstr⟩ := hfresh
      rw [h] at hstr
      cases hstr
    · rcases hold record hrecord with hrecord | hrecord
      · rw [hlive] at hrecord
        cases hrecord
        exact .inr (.inr ⟨rfl, hfresh⟩)
      · exact .inl hrecord
    · rw [hlive]
      exact Option.some_ne_none _
    · cases hcmd : req.command with
      | create => exact .inl (hcmd ▸ hqueued)
      | patch => exact .inr (hcmd ▸ hqueued)
      | read => exact absurd hcmd hitem.written
      | delete => exact absurd hcmd hdelete

theorem Tracks.command (hc : x.e.cfg.Configured coll) (hid : DocumentId docId)
    (hw : x.Tracks coll docId w) (hwrite : req.command ≠ .read)
    (hct : x.e.cfg.Configured req.target) : x.Tracks coll docId (x.after w (.command req)) := by
  have hissued : w.issued ≤ (x.after w (.command req)).issued := issued_le_run _ _
  rcases hrun : (commit x.e req).run (exec (x.host fun _ => .cleared) .none) w with ⟨answer, t⟩
  have ht : x.after w (.command req) = t := by rw [CacheSource.after, hrun]
  rw [ht] at hissued ⊢
  cases answer with
  | error res =>
    obtain ⟨n, rfl⟩ := commit_draws hwrite hrun
    have hsame : x.Untouched coll docId w (w.tick n) :=
      ⟨fun _ _ => rfl, fun _ => rfl, fun _ => rfl, hissued⟩
    exact hsame.tracks hw
  | ok committed =>
    obtain ⟨item, res⟩ := committed
    have houtside := commit_outside hrun
    have hitem := commit_item hrun
    by_cases hkey : (coll, docId) = (req.target, req.parameter)
    · obtain ⟨rfl, rfl⟩ := Prod.mk.inj hkey
      exact hw.committed rfl hissued houtside hitem (commit_preserves hct hrun).2
    · have hsame : x.Untouched coll docId w t :=
        ⟨fun path hpath => commit_frame (hpath.apart hct hitem.valid hc hid hkey) hrun,
          fun _ => by rw [houtside], fun _ => by rw [houtside], hissued⟩
      exact hsame.tracks hw

theorem Sound.spread (hw : x.Sound coll docId w)
    (hlive : t.files (x.e.live coll docId) = w.files (x.e.live coll docId))
    (hissued : w.issued ≤ t.issued) (hkey : item.key = (coll, docId))
    (hrecord : item.record = .ok record) (hafter : item.afterVersion = versionOf record)
    (hplay : x.InPlay coll docId w record ∨ record = missingRecord docId)
    (hspread : CacheNet.Spread item w.outside t.outside) : x.Sound coll docId t := by
  obtain ⟨-, hpending, hcache, -⟩ := hspread
  rw [hkey] at hpending hcache
  have hitem : ∀ record', item.record = .ok record' → x.InPlay coll docId w record' ∨
      record' = missingRecord docId := by
    intro record' h
    rw [hrecord] at h
    cases h
    exact hplay
  refine hw.extend hissued (fun file hfile => ?_) (fun member i hi => ?_) none
    fun record' hrecord' => ?_
  · rw [hlive] at hfile
    exact hw.objects file hfile
  · rcases hpending member i hi with hi | rfl
    · exact hw.items member i hi
    · exact ⟨hkey, record, hrecord, hafter⟩
  · rcases hrecord' with hdoc | ⟨member, hcached⟩ | ⟨member, i, hi, hmade⟩
    · rw [hlive] at hdoc
      exact .inl (.inl hdoc)
    · rcases hcache member record' hcached with hcached | hmade
      · exact .inl (.inr (.inl ⟨member, hcached⟩))
      · exact (hitem record' hmade).imp_right .inl
    · rcases hpending member i hi with hi | rfl
      · exact .inl (.inr (.inr ⟨member, i, hi, hmade⟩))
      · exact (hitem record' hmade).imp_right .inl

theorem Sound.settled (ht : x.Sound coll docId t) (hkey : item.key = (coll, docId))
    (hrecord : item.record = .ok record) (hafter : item.afterVersion = versionOf record)
    (hshown : x.Shown coll docId t record) (htold : t.outside.Told item member) :
    (∀ i, t.outside.pending member (coll, docId) = some i →
        ∃ r, i.record = .ok r ∧ x.Shown coll docId t r) ∧
      (t.outside.pending member (coll, docId) = none →
        ∀ r, t.outside.cache member (coll, docId) = some r → x.Shown coll docId t r) := by
  rw [CacheNet.Told, hkey] at htold
  refine ⟨fun i hi => ?_, fun hnone r hr => ?_⟩
  · rcases htold with hstaged | ⟨hnone, -⟩
    · rw [hi] at hstaged
      cases hstaged
      exact ⟨record, hrecord, hshown⟩
    · rw [hi] at hnone
      cases hnone
  · rcases htold with hstaged | ⟨-, hshows⟩
    · rw [hnone] at hstaged
      cases hstaged
    · rcases hshows r hr with ⟨hversioned, hversion⟩ | hmade
      · -- the cached version is that of the item, so it is the same record
        rcases hshown with ⟨-, rfl⟩ | hlive
        · exact absurd hafter hversioned
        · have hsame := ht.agree r record (.inr (.inl ⟨member, hr⟩)) (.inl hlive)
            (hversion.trans hafter)
          rw [hsame]
          exact .inr hlive
      · rw [hrecord] at hmade
        cases hmade
        exact hshown

theorem Sound.distributed (hw : x.Sound coll docId w) (hread : change ≠ .read)
    (hlive : w.files (x.e.live coll docId) = current.map File.ofFields)
    (hmade : cacheItem coll docId change operationId current prev = some item) :
    ∃ record, item.record = .ok record ∧ item.afterVersion = versionOf record ∧
      (change = .delete ∧ record = missingRecord docId ∨
        change ≠ .delete ∧ w.files (x.e.live coll docId) = some (File.ofFields record)) := by
  by_cases hdelete : change = .delete
  · subst hdelete
    cases hmade
    exact ⟨_, rfl, rfl, .inl ⟨rfl, rfl⟩⟩
  · cases current with
    | none =>
      cases change with
      | delete => exact absurd rfl hdelete
      | _ => cases hmade
    | some doc =>
      have hempty : doc.isEmpty = false := by
        obtain ⟨doc', hdoc, hne⟩ := hw.objects _ hlive
        cases hdoc
        rcases hw.versions doc (.inl hlive) with hmissing | ⟨n, -, hversion⟩
        · exact absurd hmissing hne
        · cases doc with
          | nil => cases hversion
          | cons field fields => rfl
      cases change with
      | delete => exact absurd rfl hdelete
      | read => exact absurd rfl hread
      | create =>
        cases hmade
        exact ⟨doc, by simp [CacheItem.record, hempty], rfl, .inr ⟨hdelete, hlive⟩⟩
      | patch =>
        cases hmade
        exact ⟨doc, by simp [CacheItem.record, hempty], rfl, .inr ⟨hdelete, hlive⟩⟩

theorem cacheItem_key (h : cacheItem coll docId change operationId current prev = some item) :
    item.key = (coll, docId) := by
  cases change <;> cases current <;> cases h <;> rfl

theorem host_searchesApart (outcomes : String → CacheOutcome) : (x.host outcomes).SearchesApart :=
  fun _ _ _ _ _ => rfl

theorem Tracks.quiet (hw : x.Tracks coll docId w)
    (hlive : t.files (x.e.live coll docId) = w.files (x.e.live coll docId))
    (hissued : w.issued ≤ t.issued) (houtside : t.outside = w.outside) :
    x.Sound coll docId t ∧ (x.Settles coll docId w → x.Settles coll docId t) := by
  have hplay : ∀ record, x.InPlay coll docId t record ↔ x.InPlay coll docId w record := by
    intro record
    rw [InPlay, InPlay, hlive, houtside]
  have hshown : ∀ record, x.Shown coll docId t record ↔ x.Shown coll docId w record := by
    intro record
    rw [Shown, Shown, hlive]
  refine ⟨hw.sound.extend hissued (hlive ▸ hw.sound.objects) (houtside ▸ hw.sound.items) none
    fun record hrecord => .inl ((hplay record).mp hrecord), fun hsettles => ⟨?_, ?_⟩⟩
  · simp only [houtside, hshown]
    exact hsettles.staged
  · simp only [houtside, hshown]
    exact hsettles.cached

theorem Tracks.ran (hfans : x.e.cfg.FansOut coll) (hw : x.Tracks coll docId w)
    {res : Except FsError Bool} (hread : change ≠ .read) (hissued : w.issued ≤ t.issued)
    (hcareful : change = .delete → w.files (x.e.live coll docId) = none ∨ x.Rewrites w coll docId)
    (hran : CacheRun x.e (x.host outcomes) coll docId change w res t) : x.Tracks coll docId t := by
  -- an entry that is queued stays queued, but for the one of a run that ends well
  have hkept : ∀ other, other ≠ change ∨ (∃ err, res = .error err) →
      w.Queued x.e coll docId other → t.Queued x.e coll docId other := by
    intro other hother hqueued
    by_cases heq : other = change
    · subst heq
      obtain ⟨err, herr⟩ := hother.resolve_left fun h => h rfl
      exact hran.kept err herr
    · exact (hran.entries other heq).mpr hqueued
  have hrewrites : change = .delete → x.Rewrites w coll docId → x.Rewrites t coll docId := by
    rintro rfl h
    exact h.imp (hkept _ (.inl (by decide))) (hkept _ (.inl (by decide)))
  have hshown : ∀ record, x.Shown coll docId w record → x.Shown coll docId t record := by
    intro record h
    rwa [Shown, hran.live]
  have hdistributed : ∀ {record item}, item.key = (coll, docId) → item.record = .ok record →
      item.afterVersion = versionOf record →
      (change = .delete ∧ record = missingRecord docId ∨ change ≠ .delete ∧
        w.files (x.e.live coll docId) = some (File.ofFields record)) →
      CacheNet.Spread item w.outside t.outside → x.Sound coll docId t := by
    intro record item hkey hrecord hafter hplay hspread
    refine hw.sound.spread hran.live hissued hkey hrecord hafter ?_ hspread
    exact hplay.elim (fun h => .inr h.2) fun h => .inl (.inl h.2)
  -- a delete entry of a document that is there leaves the work to the other entries
  have hfollowed : change = .delete → w.files (x.e.live coll docId) ≠ none →
      x.Fixes coll docId t := by
    intro hdelete hlive
    refine .inl ⟨hran.live ▸ hlive, hrewrites hdelete ?_⟩
    exact (hcareful hdelete).resolve_left hlive
  have heffect := hran.effect
  generalize hnet : t.outside = net at heffect
  cases heffect with
  | stopped err =>
    obtain ⟨hsound, hsettles⟩ := hw.quiet hran.live hissued hnet
    refine ⟨hsound, hw.told.imp (fun hfixes => ?_) hsettles⟩
    rw [Fixes, hran.live]
    exact hfixes.imp
      (fun h => ⟨h.1, h.2.imp (hkept _ (.inr ⟨err, rfl⟩)) (hkept _ (.inr ⟨err, rfl⟩))⟩)
      fun h => ⟨h.1, hkept _ (.inr ⟨err, rfl⟩) h.2⟩
  | idle _ hidle =>
    obtain ⟨hne, hgone⟩ := hidle.resolve_left (not_not.mpr hfans)
    obtain ⟨hsound, hsettles⟩ := hw.quiet hran.live hissued hnet
    refine ⟨hsound, hw.told.imp (fun hfixes => ?_) hsettles⟩
    rcases hfixes with ⟨hlive, -⟩ | ⟨-, hqueued⟩
    · exact absurd hgone hlive
    · exact .inr ⟨hran.live.trans hgone, hkept _ (.inl hne.symm) hqueued⟩
  | failed current prev operationId item hlive hmade err err' _ hloop =>
    obtain ⟨record, hrecord, hafter, hplay⟩ := hw.sound.distributed hread hlive hmade
    have hspread := @CacheNet.fanOut_spread item w.outside outcomes x.e.cfg.allReadMembers true
    have hend : (w.outside.fanOut outcomes item x.e.cfg.allReadMembers true).2 = t.outside := by
      rw [hnet]
      exact congrArg Prod.snd hloop
    rw [hend] at hspread
    refine ⟨hdistributed (cacheItem_key hmade) hrecord hafter hplay hspread, .inl ?_⟩
    have hqueued := hran.kept err' rfl
    rcases hplay with ⟨hdelete, -⟩ | ⟨hne, hdoc⟩
    · by_cases hgone : w.files (x.e.live coll docId) = none
      · exact .inr ⟨hran.live.trans hgone, hdelete ▸ hqueued⟩
      · exact hfollowed hdelete hgone
    · refine .inl ⟨by rw [hran.live, hdoc]; exact Option.some_ne_none _, ?_⟩
      cases change with
      | create => exact .inl hqueued
      | patch => exact .inr hqueued
      | read => exact absurd rfl hread
      | delete => exact absurd rfl hne
  | spread current prev operationId item hlive hmade complete _ hloop _ =>
    obtain ⟨record, hrecord, hafter, hplay⟩ := hw.sound.distributed hread hlive hmade
    have hspread := @CacheNet.fanOut_spread item w.outside outcomes x.e.cfg.allReadMembers true
    have hend : (w.outside.fanOut outcomes item x.e.cfg.allReadMembers true).2 = t.outside := by
      rw [hnet]
      exact congrArg Prod.snd hloop
    rw [hend] at hspread
    have hsound := hdistributed (cacheItem_key hmade) hrecord hafter hplay hspread
    have htold : ∀ m ∈ x.e.cfg.allReadMembers, t.outside.Told item m := by
      rw [hnet]
      exact CacheNet.fanOut_told hloop
    have hsettles : x.Shown coll docId w record → x.Settles coll docId t := by
      intro h
      have hmember := fun m hm =>
        hsound.settled (cacheItem_key hmade) hrecord hafter (hshown record h) (htold m hm)
      exact ⟨fun m hm => (hmember m hm).1, fun m hm => (hmember m hm).2⟩
    refine ⟨hsound, ?_⟩
    rcases hplay with ⟨hdelete, hmissing⟩ | ⟨-, hdoc⟩
    · by_cases hgone : w.files (x.e.live coll docId) = none
      · exact .inr (hsettles (.inl ⟨hgone, hmissing⟩))
      · exact .inl (hfollowed hdelete hgone)
    · exact .inr (hsettles (.inr hdoc))

theorem others_of_fanOut {net net' : CacheNet} {members : List String} {res : Except FsError Bool}
    (hmade : cacheItem coll' docId' change operationId current prev = some item)
    (hkey : (coll, docId) ≠ (coll', docId'))
    (hloop : net.fanOut outcomes item members true = (res, net')) (member : String) :
    net'.pending member (coll, docId) = net.pending member (coll, docId) ∧
      net'.cache member (coll, docId) = net.cache member (coll, docId) := by
  have hspread := @CacheNet.fanOut_spread item net outcomes members true
  rw [hloop] at hspread
  exact hspread.others member _ (by rw [cacheItem_key hmade]; exact hkey)

theorem Tracks.agent (hc : x.e.cfg.Configured coll) (hid : DocumentId docId)
    (hfans : x.e.cfg.FansOut coll) (hw : x.Tracks coll docId w) {state : EntryState}
    {faults : Faults} (henabled : x.Enabled w (.agent change coll' docId' state faults outcomes))
    (hcareful : x.Careful w (.agent change coll' docId' state faults outcomes)) :
    x.Tracks coll docId (x.after w (.agent change coll' docId' state faults outcomes)) := by
  obtain ⟨hread, hc', hid', hpresent⟩ := henabled
  have hissued : w.issued ≤
      (x.after w (.agent change coll' docId' state faults outcomes)).issued := issued_le_run _ _
  rcases hrun : (runEntryResult x.e change coll' docId' state).run
    (exec (x.host outcomes) faults) w with ⟨res, t⟩
  have ht : x.after w (.agent change coll' docId' state faults outcomes) = t := by
    rw [CacheSource.after, hrun]
  rw [ht] at hissued ⊢
  have hran := run_runEntryResult hc' hid' (host_searchesApart outcomes) hpresent hrun
  by_cases hkey : (coll, docId) = (coll', docId')
  · obtain ⟨rfl, rfl⟩ := Prod.mk.inj hkey
    exact hw.ran hfans hread hissued hcareful hran
  · have hsame : x.Untouched coll docId w t := by
      have hothers : ∀ m, t.outside.pending m (coll, docId) = w.outside.pending m (coll, docId) ∧
          t.outside.cache m (coll, docId) = w.outside.cache m (coll, docId) := by
        intro m
        have heffect := hran.effect
        generalize t.outside = net at heffect
        cases heffect with
        | stopped err => exact ⟨rfl, rfl⟩
        | idle _ _ => exact ⟨rfl, rfl⟩
        | failed current prev operationId item _ hmade err err' _ hloop =>
          exact others_of_fanOut hmade hkey hloop m
        | spread current prev operationId item _ hmade complete _ hloop _ =>
          exact others_of_fanOut hmade hkey hloop m
      exact ⟨fun path hpath => hran.others _ _ path hc hid hkey hpath, fun m => (hothers m).1,
        fun m => (hothers m).2, hissued⟩
    exact hsame.tracks hw

theorem Tracks.pull (hw : x.Tracks coll docId w) {cleared : Bool}
    (hpending : w.outside.pending member item.key = some item) :
    x.Tracks coll docId (x.after w (.pull member item cleared)) := by
  obtain ⟨htold, hspread, hbeside⟩ := CacheNet.deliver_told hpending cleared
  by_cases hkey : item.key = (coll, docId)
  swap
  · have hsame : x.Untouched coll docId w (x.after w (.pull member item cleared)) :=
      ⟨fun _ _ => rfl, fun m => (hspread.others m _ (Ne.symm hkey)).1,
        fun m => (hspread.others m _ (Ne.symm hkey)).2, Nat.le_refl _⟩
    exact hsame.tracks hw
  rw [hkey] at hpending
  obtain ⟨-, record, hrecord, hafter⟩ := hw.sound.items member item hpending
  have hsound : x.Sound coll docId (x.after w (.pull member item cleared)) :=
    hw.sound.spread rfl (Nat.le_refl _) hkey hrecord hafter
      (.inl (.inr (.inr ⟨member, item, hpending, hrecord⟩))) hspread
  refine ⟨hsound, hw.told.imp id fun hsettles => ?_⟩
  -- the member itself shows what was staged for it, the other members are as before
  have hmember : ∀ m ∈ x.e.cfg.allReadMembers,
      (∀ i, (x.after w (.pull member item cleared)).outside.pending m (coll, docId) = some i →
        ∃ r, i.record = .ok r ∧ x.Shown coll docId w r) ∧
      ((x.after w (.pull member item cleared)).outside.pending m (coll, docId) = none →
        ∀ r, (x.after w (.pull member item cleared)).outside.cache m (coll, docId) = some r →
          x.Shown coll docId w r) := by
    intro m hm
    by_cases hself : m = member
    · subst hself
      obtain ⟨r, hr, hshown⟩ := hsettles.staged m hm item hpending
      rw [hrecord] at hr
      cases hr
      exact hsound.settled hkey hrecord hafter hshown htold
    · obtain ⟨hp, hcache⟩ := hbeside m (coll, docId) hself
      refine ⟨fun i hi => hsettles.staged m hm i (hp.symm.trans hi), fun hnone r hr => ?_⟩
      exact hsettles.cached m hm (hp.symm.trans hnone) r (hcache.symm.trans hr)
  exact ⟨fun m hm => (hmember m hm).1, fun m hm => (hmember m hm).2⟩

theorem Tracks.stub (hw : x.Tracks coll docId w)
    (hcareful : x.Careful w (.stub member coll' docId')) :
    x.Tracks coll docId (x.after w (.stub member coll' docId')) := by
  -- nothing happens to another document, and nothing to one that is cached already
  by_cases hsame : (coll, docId) ≠ (coll', docId') ∨
      ∃ record, w.outside.cache member (coll, docId) = some record
  · have huntouched : x.Untouched coll docId w (x.after w (.stub member coll' docId')) := by
      refine ⟨fun _ _ => rfl, fun _ => rfl, fun m => ?_, Nat.le_refl _⟩
      refine (CacheNet.setCache_cache _ _ _ _ _ _).trans ?_
      split
      next heq =>
        obtain ⟨rfl, hkey⟩ := heq
        rw [← hkey]
        obtain ⟨record, hrecord⟩ := hsame.resolve_left fun h => h hkey
        rw [hrecord]
        rfl
      · rfl
    exact huntouched.tracks hw
  obtain ⟨hkey, hnone⟩ := not_or.mp hsame
  obtain ⟨rfl, rfl⟩ := Prod.mk.inj (not_not.mp hkey)
  have hempty : w.outside.cache member (coll, docId) = none := by
    rw [Option.eq_none_iff_forall_ne_some]
    exact fun record h => hnone ⟨record, h⟩
  have hcache : ∀ m record,
      (x.after w (.stub member coll docId)).outside.cache m (coll, docId) = some record →
      m = member ∧ record = missingRecord docId ∨
        w.outside.cache m (coll, docId) = some record := by
    intro m record h
    have h' := (CacheNet.setCache_cache _ _ _ _ _ _).symm.trans h
    split at h'
    next heq =>
      rw [hempty] at h'
      exact .inl ⟨heq.1, (Option.some.inj h').symm⟩
    · exact .inr h'
  have hsound : x.Sound coll docId (x.after w (.stub member coll docId)) := by
    refine hw.sound.extend (Nat.le_refl _) hw.sound.objects hw.sound.items none
      fun record hrecord => ?_
    rcases hrecord with hlive | ⟨m, hcached⟩ | hpending
    · exact .inl (.inl hlive)
    · rcases hcache m record hcached with ⟨-, hmissing⟩ | hcached
      · exact .inr (.inl hmissing)
      · exact .inl (.inr (.inl ⟨m, hcached⟩))
    · exact .inl (.inr (.inr hpending))
  refine ⟨hsound, ?_⟩
  rcases hw.told with hfixes | hsettles
  · exact .inl hfixes
  · by_cases hlive : w.files (x.e.live coll docId) = none
    · refine .inr ⟨hsettles.staged, fun m hm hp record hcached => ?_⟩
      rcases hcache m record hcached with ⟨-, hmissing⟩ | hcached
      · exact .inl ⟨hlive, hmissing⟩
      · exact hsettles.cached m hm hp record hcached
    · rcases (hcareful.resolve_left fun h => h hempty).resolve_left hlive with
        hrewrites | hpending
      · exact .inl (.inl ⟨hlive, hrewrites⟩)
      · refine .inr ⟨hsettles.staged, fun m hm hp record hcached => ?_⟩
        rcases hcache m record hcached with ⟨rfl, -⟩ | hcached
        · exact absurd hp hpending
        · exact hsettles.cached m hm hp record hcached

theorem Tracks.after (hc : x.e.cfg.Configured coll) (hid : DocumentId docId)
    (hfans : x.e.cfg.FansOut coll) (hw : x.Tracks coll docId w)
    (hstep : x.CarefulStep w t) : x.Tracks coll docId t := by
  obtain ⟨move, henabled, hcareful, rfl⟩ := hstep
  cases move with
  | command req => exact hw.command hc hid henabled.1 henabled.2
  | agent change coll' docId' state faults outcomes =>
    exact hw.agent hc hid hfans henabled hcareful
  | fetch member item =>
    have hsame : x.Untouched coll docId w (x.after w (.fetch member item)) :=
      ⟨fun _ _ => rfl, fun _ => rfl, fun _ => rfl, Nat.le_refl _⟩
    exact hsame.tracks hw
  | pull member item cleared => exact hw.pull hcareful
  | stub member coll' docId' => exact hw.stub hcareful

def Possible (x : CacheSource) : World CacheNet → List CacheMove → Prop
  | _, [] => True
  | w, move :: moves => x.Enabled w move ∧ Possible x (x.after w move) moves

theorem Possible.reach {moves : List CacheMove} (h : x.Possible w moves) :
    Relation.ReflTransGen x.Step w (moves.foldl x.after w) := by
  induction moves generalizing w with
  | nil => exact .refl
  | cons move moves ih => exact .head ⟨move, h.1, rfl⟩ (ih h.2)

theorem Blank.tracks (h : x.Blank coll docId w) : x.Tracks coll docId w := by
  have hplay : ∀ record, ¬ x.InPlay coll docId w record := by
    rintro record (hlive | ⟨member, hcache⟩ | ⟨member, item, hpending, -⟩)
    · rw [h.live] at hlive
      cases hlive
    · rw [h.cache] at hcache
      cases hcache
    · rw [h.pending] at hpending
      cases hpending
  refine ⟨⟨fun file hfile => ?_, fun member item hpending => ?_, fun record hrecord => ?_,
    fun record _ hrecord => ?_⟩, .inr ⟨fun member _ item hpending => ?_,
      fun member _ _ record hcache => ?_⟩⟩
  · rw [h.live] at hfile
    cases hfile
  · rw [h.pending] at hpending
    cases hpending
  · exact absurd hrecord (hplay record)
  · exact absurd hrecord (hplay record)
  · rw [h.pending] at hpending
    cases hpending
  · rw [h.cache] at hcache
    cases hcache

theorem Blank.reach (hc : x.e.cfg.Configured coll) (hid : DocumentId docId)
    (hfans : x.e.cfg.FansOut coll) (hstart : x.Blank coll docId w)
    (hrun : Relation.ReflTransGen x.CarefulStep w t) : x.Tracks coll docId t := by
  induction hrun with
  | refl => exact hstart.tracks
  | tail _ hstep ih => exact ih.after hc hid hfans hstep
end CacheSource

namespace Sample
def created : CacheMove := .command createRequest

def liveVersion (w : World CacheNet) : Option String :=
  match w.files (referringServer.live "Movies" "alien") with
  | some (.json (.obj fields)) => some (CacheSource.versionOf fields)
  | _ => none

def cachedVersion (w : World CacheNet) : Option String :=
  (w.outside.cache "alpha" ("Movies", "alien")).map CacheSource.versionOf

def drained (w : World CacheNet) : Bool :=
  ([Command.create, .read, .patch, .delete].all fun change =>
    (w.files (queuePath ["data"] change "Movies" "alien")).isNone &&
      (w.files (takenQueuePath ["data"] change "Movies" "alien")).isNone) &&
    (w.outside.pending "alpha" ("Movies", "alien")).isNone

def shows (version : String) (test : String → Bool) (w : World CacheNet) : Bool :=
  drained w && decide (liveVersion w = some version) && (cachedVersion w).any test

variable {w : World CacheNet}
end Sample
open Sample
end Datorium
