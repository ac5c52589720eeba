
import Datorium.Caches.Apply
import Datorium.Engine.Commits
namespace Datorium
open Framework World
abbrev SourceKey := String × String

namespace CacheItem
def key (item : CacheItem) : SourceKey := (item.sourceCollection, item.sourceDocumentID)

/-- What `Apply` makes of the cached record; a member without a record stays without one. -/
def apply (item : CacheItem) : Option JsonFields → Except FsError (Option JsonFields)
  | none => .ok none
  | some existing =>
    if item.AlreadyApplied existing then .ok (some existing) else item.record.map some

def Shows (item : CacheItem) (record : JsonFields) : Prop :=
  item.AlreadyApplied record ∨ item.record = .ok record

theorem apply_ok {item : CacheItem} {record new : Option JsonFields} (h : item.apply record = .ok new)
    {r : JsonFields} (hnew : new = some r) :
    item.Shows r ∧ (record = some r ∨ item.record = .ok r) := by
  subst hnew
  cases record with
  | none => cases h
  | some existing =>
    simp only [apply] at h
    by_cases happlied : item.AlreadyApplied existing
    · rw [if_pos happlied] at h
      cases h
      exact ⟨.inl happlied, .inl rfl⟩
    · rw [if_neg happlied] at h
      cases hrecord : item.record with
      | error err =>
        rw [hrecord] at h
        cases h
      | ok new =>
        rw [hrecord] at h
        cases h
        exact ⟨.inr hrecord, .inr rfl⟩
end CacheItem
section
variable {ν : Type} {host : Host ν} {w : World ν} {dataDir : Path} {item : CacheItem}
  {record : Option JsonFields}
end

/-- How far the loop of `distributeCache` gets with one member. -/
inductive CacheOutcome where
  | unwritten
  | unapplied
  | uncleared
  | cleared
  deriving DecidableEq, Repr

/-- Pending items on the server and, by member, the items its pull agent has fetched and the cached
records. -/
structure CacheNet where
  pending : String → SourceKey → Option CacheItem
  fetched : String → SourceKey → Option CacheItem
  cache : String → SourceKey → Option JsonFields

namespace CacheNet
def setPending (server : String) (key : SourceKey) (item : Option CacheItem) (net : CacheNet) :
    CacheNet :=
  { net with pending := fun s k => if s = server ∧ k = key then item else net.pending s k }

def setFetched (server : String) (key : SourceKey) (item : Option CacheItem) (net : CacheNet) :
    CacheNet :=
  { net with fetched := fun s k => if s = server ∧ k = key then item else net.fetched s k }

def setCache (server : String) (key : SourceKey) (record : Option JsonFields) (net : CacheNet) :
    CacheNet :=
  { net with cache := fun s k => if s = server ∧ k = key then record else net.cache s k }

section
variable (net : CacheNet) (server s : String) (key k : SourceKey)
theorem setPending_pending (item : Option CacheItem) : (net.setPending server key item).pending s k =
    if s = server ∧ k = key then item else net.pending s k := rfl

theorem setPending_cache (item : Option CacheItem) :
    (net.setPending server key item).cache = net.cache := rfl

theorem setCache_cache (record : Option JsonFields) : (net.setCache server key record).cache s k =
    if s = server ∧ k = key then record else net.cache s k := rfl
end

def deliver (server : String) (item : CacheItem) (cleared : Bool) (net : CacheNet) :
    Bool × CacheNet :=
  match item.apply (net.cache server item.key) with
  | .error _ => (false, net)
  | .ok record =>
    let applied := net.setCache server item.key record
    if cleared then (true, applied.setPending server item.key none) else (false, applied)

/-- One member in the loop of `distributeCache`; `none` when the item cannot be staged. -/
def target (server : String) (item : CacheItem) (net : CacheNet) :
    CacheOutcome → Option (Bool × CacheNet)
  | .unwritten => none
  | .unapplied => some (false, net.setPending server item.key (some item))
  | .uncleared => some ((net.setPending server item.key (some item)).deliver server item false)
  | .cleared => some ((net.setPending server item.key (some item)).deliver server item true)

/-- The loop of `distributeCache` over the members. -/
def fanOut (outcomes : String → CacheOutcome) (item : CacheItem) :
    List String → Bool → CacheNet → Except FsError Bool × CacheNet
  | [], complete, net => (.ok complete, net)
  | server :: servers, complete, net =>
    match net.target server item (outcomes server) with
    | none => (.error (.other ("write pending cache update for " ++ server)), net)
    | some (done, net') => fanOut outcomes item servers (complete && done) net'

/-! ### What the loop leaves behind -/

def Told (item : CacheItem) (server : String) (net : CacheNet) : Prop :=
  net.pending server item.key = some item ∨
    net.pending server item.key = none ∧ ∀ r, net.cache server item.key = some r → item.Shows r

structure Spread (item : CacheItem) (net net' : CacheNet) : Prop where
  others : ∀ server key, key ≠ item.key → net'.pending server key = net.pending server key ∧
    net'.cache server key = net.cache server key
  pending : ∀ server i, net'.pending server item.key = some i →
    net.pending server item.key = some i ∨ i = item
  cache : ∀ server r, net'.cache server item.key = some r →
    net.cache server item.key = some r ∨ item.record = .ok r
  fetched : net'.fetched = net.fetched

variable {item : CacheItem} {net net' net'' : CacheNet} {server : String}
theorem Spread.refl : Spread item net net :=
  ⟨fun _ _ _ => ⟨rfl, rfl⟩, fun _ _ h => .inl h, fun _ _ h => .inl h, rfl⟩

theorem Spread.trans (h : Spread item net net') (h' : Spread item net' net'') :
    Spread item net net'' := by
  refine ⟨fun server key hkey => ?_, fun server i hi => ?_, fun server r hr => ?_,
    h'.fetched.trans h.fetched⟩
  · obtain ⟨hp, hc⟩ := h.others server key hkey
    obtain ⟨hp', hc'⟩ := h'.others server key hkey
    exact ⟨hp'.trans hp, hc'.trans hc⟩
  · rcases h'.pending server i hi with hi | rfl
    · exact h.pending server i hi
    · exact .inr rfl
  · rcases h'.cache server r hr with hr | hr
    · exact h.cache server r hr
    · exact .inr hr

def Beside (server : String) (net net' : CacheNet) : Prop :=
  ∀ s key, s ≠ server → net'.pending s key = net.pending s key ∧ net'.cache s key = net.cache s key

theorem setPending_spread {i : Option CacheItem} (hi : ∀ j, i = some j → j = item) :
    Spread item net (net.setPending server item.key i) ∧
      Beside server net (net.setPending server item.key i) := by
  refine ⟨⟨fun s key hkey => ⟨if_neg fun h => hkey h.2, rfl⟩, fun s j hj => ?_,
    fun s r hr => .inl hr, rfl⟩, fun s key hs => ⟨if_neg fun h => hs h.1, rfl⟩⟩
  rw [setPending_pending] at hj
  split at hj
  · exact .inr (hi j hj)
  · exact .inl hj

theorem setCache_spread {record : Option JsonFields}
    (h : item.apply (net.cache server item.key) = .ok record) :
    Spread item net (net.setCache server item.key record) ∧
      Beside server net (net.setCache server item.key record) := by
  refine ⟨⟨fun s key hkey => ⟨rfl, if_neg fun h => hkey h.2⟩, fun s i hi => .inl hi,
    fun s r hr => ?_, rfl⟩, fun s key hs => ⟨rfl, if_neg fun h => hs h.1⟩⟩
  rw [setCache_cache] at hr
  split at hr
  next heq =>
    obtain ⟨rfl, -⟩ := heq
    exact (CacheItem.apply_ok h hr).2
  · exact .inl hr

theorem Beside.trans (h : Beside server net net') (h' : Beside server net' net'') :
    Beside server net net'' := fun s key hs =>
  ⟨(h' s key hs).1.trans (h s key hs).1, (h' s key hs).2.trans (h s key hs).2⟩

theorem deliver_told (hstaged : net.pending server item.key = some item) (cleared : Bool) :
    (net.deliver server item cleared).2.Told item server ∧
      Spread item net (net.deliver server item cleared).2 ∧
      Beside server net (net.deliver server item cleared).2 := by
  unfold deliver
  cases happly : item.apply (net.cache server item.key) with
  | error err => exact ⟨.inl hstaged, .refl, fun _ _ _ => ⟨rfl, rfl⟩⟩
  | ok record =>
    obtain ⟨hspread, hbeside⟩ := setCache_spread happly
    cases cleared with
    | false => exact ⟨.inl hstaged, hspread, hbeside⟩
    | true =>
      have hclear := @setPending_spread item (net.setCache server item.key record) server none
        (fun j hj => by cases hj)
      refine ⟨.inr ⟨if_pos ⟨rfl, rfl⟩, fun r hr => ?_⟩, hspread.trans hclear.1,
        hbeside.trans hclear.2⟩
      have hcache : record = some r := by
        simpa [setPending_cache, setCache_cache] using hr
      exact (CacheItem.apply_ok happly hcache).1

theorem target_uncleared {done : Bool} (h : net.target server item .uncleared = some (done, net')) :
    net' = ((net.setPending server item.key (some item)).deliver server item false).2 :=
  (congrArg Prod.snd (Option.some.inj h)).symm

theorem target_cleared {done : Bool} (h : net.target server item .cleared = some (done, net')) :
    net' = ((net.setPending server item.key (some item)).deliver server item true).2 :=
  (congrArg Prod.snd (Option.some.inj h)).symm

theorem target_told {outcome : CacheOutcome} {done : Bool}
    (h : net.target server item outcome = some (done, net')) :
    net'.Told item server ∧ Spread item net net' ∧ Beside server net net' := by
  have hstage := @setPending_spread item net server (some item) (fun j hj => (Option.some.inj hj).symm)
  have hstaged : (net.setPending server item.key (some item)).pending server item.key = some item :=
    if_pos ⟨rfl, rfl⟩
  have hdelivered : ∀ cleared,
      ((net.setPending server item.key (some item)).deliver server item cleared).2.Told item server ∧
        Spread item net ((net.setPending server item.key (some item)).deliver server item cleared).2 ∧
        Beside server net
          ((net.setPending server item.key (some item)).deliver server item cleared).2 := by
    intro cleared
    obtain ⟨htold, hspread, hbeside⟩ := deliver_told hstaged cleared
    exact ⟨htold, hstage.1.trans hspread, hstage.2.trans hbeside⟩
  cases outcome with
  | unwritten => cases h
  | unapplied =>
    cases h
    exact ⟨.inl hstaged, hstage⟩
  | uncleared =>
    rw [target_uncleared h]
    exact hdelivered false
  | cleared =>
    rw [target_cleared h]
    exact hdelivered true

theorem fanOut_spread (outcomes : String → CacheOutcome) (servers : List String) (complete : Bool) :
    Spread item net (net.fanOut outcomes item servers complete).2 := by
  induction servers generalizing net complete with
  | nil => exact .refl
  | cons server servers ih =>
    rw [fanOut]
    cases htarget : net.target server item (outcomes server) with
    | none => exact .refl
    | some told =>
      obtain ⟨done, net'⟩ := told
      exact (target_told htarget).2.1.trans (ih _)

theorem fanOut_beside {outcomes : String → CacheOutcome} {servers : List String} {complete : Bool}
    (hs : server ∉ servers) (key : SourceKey) :
    (net.fanOut outcomes item servers complete).2.pending server key = net.pending server key ∧
      (net.fanOut outcomes item servers complete).2.cache server key = net.cache server key := by
  induction servers generalizing net complete with
  | nil => exact ⟨rfl, rfl⟩
  | cons first servers ih =>
    rw [fanOut]
    cases htarget : net.target first item (outcomes first) with
    | none => exact ⟨rfl, rfl⟩
    | some told =>
      obtain ⟨done, net'⟩ := told
      have hbeside := (target_told htarget).2.2 server key fun h => hs (h ▸ List.mem_cons_self)
      have hrest := @ih net' (complete && done) fun h => hs (List.mem_cons_of_mem _ h)
      exact ⟨hrest.1.trans hbeside.1, hrest.2.trans hbeside.2⟩

theorem fanOut_told {outcomes : String → CacheOutcome} {servers : List String} {complete done : Bool}
    (h : net.fanOut outcomes item servers complete = (.ok done, net')) :
    ∀ s ∈ servers, net'.Told item s := by
  induction servers generalizing net complete with
  | nil => simp
  | cons server servers ih =>
    rw [fanOut] at h
    cases htarget : net.target server item (outcomes server) with
    | none =>
      rw [htarget] at h
      cases h
    | some told =>
      obtain ⟨done', told⟩ := told
      rw [htarget] at h
      intro s hs
      by_cases hlater : s ∈ servers
      · exact ih h s hlater
      · -- the member comes once more in no later round, so it stays as it was told
        obtain rfl : s = server := by simpa [hlater] using hs
        have hbeside := @fanOut_beside item told s outcomes servers (complete && done') hlater
          item.key
        have hnet : (told.fanOut outcomes item servers (complete && done')).2 = net' :=
          congrArg Prod.snd h
        rw [hnet] at hbeside
        have htold := (target_told htarget).1
        rw [Told, ← hbeside.1, ← hbeside.2] at htold
        exact htold
end CacheNet
section
variable {ν : Type}
/-- What a run on an entry does outside the server, by its result. -/
inductive CacheEffect (e : Engine) (host : Host ν) (collection docId : String) (change : Command)
    (w : World ν) : Except FsError Bool → ν → Prop where
  | stopped (err : FsError) : CacheEffect e host collection docId change w (.error err) w.outside
  | idle (res : Except FsError Bool) (none : ¬ e.cfg.FansOut collection ∨
      change ≠ .delete ∧ w.files (e.live collection docId) = none) :
      CacheEffect e host collection docId change w res w.outside
  | failed (current prev : Option JsonFields) (operationId : String) (item : CacheItem)
      (live : w.files (e.live collection docId) = current.map File.ofFields)
      (made : cacheItem collection docId change operationId current prev = some item)
      (err err' : FsError) (outside : ν)
      (loop : host.fanOut e.cfg.allReadMembers item w.outside = (.error err, outside)) :
      CacheEffect e host collection docId change w (.error err') outside
  | spread (current prev : Option JsonFields) (operationId : String) (item : CacheItem)
      (live : w.files (e.live collection docId) = current.map File.ofFields)
      (made : cacheItem collection docId change operationId current prev = some item)
      (complete : Bool) (outside : ν)
      (loop : host.fanOut e.cfg.allReadMembers item w.outside = (.ok complete, outside))
      (res : Except FsError Bool) :
      CacheEffect e host collection docId change w res outside

variable {e : Engine} {host : Host ν} {faults : Faults} {coll docId : String}
  {change : Command} {w t : World ν} {res : Except FsError Bool}
theorem run_fanOut {targets : List String} {item : CacheItem} :
    (fanOut targets item).run (exec host faults) w = if faults .cacheFanOut then (.error .io, w)
      else ((host.fanOut targets item w.outside).1,
        { w with outside := (host.fanOut targets item w.outside).2 }) := rfl

theorem run_index {previous current : Option JsonFields} :
    (index coll docId previous current).run (exec host faults) w =
      if faults .searchIndex then (.error .io, w)
      else ((host.index coll docId previous current w.outside).1,
        { w with outside := (host.index coll docId previous current w.outside).2 }) := rfl

theorem cacheItem_eq_none {operationId : String} {current prev : Option JsonFields}
    (h : cacheItem coll docId change operationId current prev = none) :
    change ≠ .delete ∧ current = none := by
  cases change <;> cases current <;> simp_all [cacheItem]

theorem run_distributeCache {current prev : Option JsonFields}
    (hlive : w.files (e.live coll docId) = current.map File.ofFields)
    (h : (distributeCache e coll docId change current prev).run (exec host faults) w = (res, t)) :
    t.files = w.files ∧ CacheEffect e host coll docId change w res t.outside := by
  unfold distributeCache at h
  by_cases hfans : anySchemaReferencesCollection e.cfg coll = false ∨ e.cfg.allReadMembers = []
  · rw [if_pos hfans] at h
    cases h
    exact ⟨rfl, .idle _ (.inl (not_not.mpr hfans))⟩
  rw [if_neg hfans] at h
  simp only [Program.bind_eq, Program.run_bind, run_newId] at h
  cases hid : faults .cacheOperationId with
  | true =>
    rw [hid] at h
    cases h
    exact ⟨rfl, .stopped _⟩
  | false =>
    simp only [hid, Bool.false_eq_true, if_false] at h
    cases hitem : cacheItem coll docId change (host.ids w.issued) current prev with
    | none =>
      rw [hitem] at h
      cases h
      refine ⟨rfl, .idle _ (.inr (cacheItem_eq_none hitem |>.imp_right ?_))⟩
      rintro rfl
      exact hlive
    | some item =>
      simp only [hitem, run_fanOut] at h
      cases hfan : faults .cacheFanOut with
      | true =>
        rw [hfan] at h
        cases h
        exact ⟨rfl, .stopped _⟩
      | false =>
        rw [hfan] at h
        rcases hloop : host.fanOut e.cfg.allReadMembers item w.outside with ⟨answer, outside⟩
        simp only [hloop, Bool.false_eq_true, if_false] at h
        cases h
        refine ⟨rfl, ?_⟩
        cases res with
        | error err => exact .failed current prev _ item hlive hitem err err outside hloop
        | ok complete => exact .spread current prev _ item hlive hitem complete outside hloop _

def Host.SearchesApart (host : Host ν) : Prop :=
  ∀ coll docId previous current outside,
    (host.index coll docId previous current outside).2 = outside

theorem CacheEffect.error {err : FsError} {outside : ν}
    (h : CacheEffect e host coll docId change w (.error err) outside) (err' : FsError) :
    CacheEffect e host coll docId change w (.error err') outside := by
  cases h with
  | stopped => exact .stopped err'
  | idle _ none => exact .idle _ none
  | failed current prev operationId item live made err _ _ loop =>
    exact .failed current prev operationId item live made err err' _ loop
  | spread current prev operationId item live made complete _ loop _ =>
    exact .spread current prev operationId item live made complete _ loop _

theorem CacheEffect.result {complete : Bool} {outside : ν}
    (h : CacheEffect e host coll docId change w (.ok complete) outside)
    (res : Except FsError Bool) : CacheEffect e host coll docId change w res outside := by
  cases h with
  | idle _ none => exact .idle _ none
  | spread current prev operationId item live made complete _ loop _ =>
    exact .spread current prev operationId item live made complete _ loop _

theorem run_process (hindex : host.SearchesApart)
    (h : (process e change coll docId).run (exec host faults) w = (res, t)) :
    t.files = w.files ∧ CacheEffect e host coll docId change w res t.outside := by
  simp only [process, processWith, Program.bind_eq, Program.run_bind, run_readOptionalDoc] at h
  cases hcurrent : w.readOptional (faults .readCurrent) (e.live coll docId) with
  | error err =>
    rw [hcurrent] at h
    cases h
    exact ⟨rfl, .stopped _⟩
  | ok current =>
    simp only [hcurrent, Program.run_bind, run_readOptionalDoc] at h
    cases hprev : w.readOptional (faults .readPrevious) (e.previous coll docId) with
    | error err =>
      rw [hprev] at h
      cases h
      exact ⟨rfl, .stopped _⟩
    | ok prev =>
      simp only [hprev, Program.run_bind] at h
      rcases hcache : (distributeCache e coll docId change current prev).run
        (exec host faults) w with ⟨cached, u⟩
      obtain ⟨hfiles, heffect⟩ :=
        run_distributeCache (files_of_readOptional hcurrent) hcache
      rw [hcache] at h
      cases cached with
      | error err =>
        cases h
        exact ⟨hfiles, heffect.error _⟩
      | ok complete =>
        simp only [Program.run_bind, run_index] at h
        -- whatever the searches answer, the caches have been told
        cases hsearch : faults .searchIndex with
        | true =>
          rw [hsearch] at h
          cases h
          exact ⟨hfiles, heffect.result _⟩
        | false =>
          have hapart := hindex coll docId prev current u.outside
          rcases hanswer : host.index coll docId prev current u.outside with
            ⟨answer, outside⟩
          rw [hanswer] at hapart
          obtain rfl : outside = u.outside := hapart
          simp only [hsearch, hanswer, Bool.false_eq_true, if_false] at h
          cases answer with
          | error err =>
            cases h
            exact ⟨hfiles, heffect.result _⟩
          | ok v =>
            cases h
            exact ⟨hfiles, heffect⟩

/-- The files after a run on a claimed entry. -/
def World.Dropped (e : Engine) (collection docId : String) (change : Command) (w : World ν)
    (res : Except FsError Bool) (t : World ν) : Prop :=
  (∃ err, res = .error err) ∧ (t.files = w.files ∨
      t.files = (w.put (e.previous collection docId) none).files) ∨
    (∃ complete, res = .ok complete) ∧ t.files = ((w.put (e.previous collection docId) none).put
        (takenQueuePath e.dataDir change collection docId) none).files

theorem run_runClaimed (hindex : host.SearchesApart)
    (h : (runClaimed e change coll docId).run (exec host faults) w = (res, t)) :
    w.Dropped e coll docId change res t ∧ CacheEffect e host coll docId change w res t.outside := by
  simp only [runClaimed, runClaimedWith, Program.bind_eq, Program.run_bind] at h
  rcases hprocess : (processWith index e change coll docId).run (exec host faults) w with
    ⟨processed, u⟩
  obtain ⟨hfiles, heffect⟩ := run_process hindex hprocess
  rw [hprocess] at h
  cases processed with
  | error err =>
    cases h
    exact ⟨.inl ⟨⟨_, rfl⟩, .inl hfiles⟩, heffect⟩
  | ok complete =>
    simp only [Program.run_bind] at h
    rcases @run_removeIfPresent ν host faults u .dropPrevious (e.previous coll docId) with
      hprev | hprev
    · rw [hprev] at h
      cases h
      exact ⟨.inl ⟨⟨_, rfl⟩, .inl hfiles⟩, heffect.result _⟩
    · simp only [hprev, Program.run_bind] at h
      rcases @run_removeIfPresent ν host faults (u.put (e.previous coll docId) none)
        .dropTaken (takenQueuePath e.dataDir change coll docId) with htaken | htaken
      · rw [htaken] at h
        cases h
        refine ⟨.inl ⟨⟨_, rfl⟩, .inr ?_⟩, heffect.result _⟩
        simp only [put, hfiles]
      · rw [htaken] at h
        cases h
        refine ⟨.inr ⟨⟨_, rfl⟩, ?_⟩, heffect⟩
        simp only [put, hfiles]

/-- What a run on an entry leaves of the files, and what it tells the caches. -/
structure CacheRun (e : Engine) (host : Host ν) (collection docId : String) (change : Command)
    (w : World ν) (res : Except FsError Bool) (t : World ν) : Prop where
  live : t.files (e.live collection docId) = w.files (e.live collection docId)
  entries : ∀ other, other ≠ change →
    (t.Queued e collection docId other ↔ w.Queued e collection docId other)
  kept : ∀ err, res = .error err → t.Queued e collection docId change
  others : ∀ collection' docId' path, e.cfg.Configured collection' → DocumentId docId' →
    (collection', docId') ≠ (collection, docId) → e.Watched collection' docId' path →
      t.files path = w.files path
  effect : CacheEffect e host collection docId change w res t.outside

section
variable (hc : e.cfg.Configured coll) (hid : DocumentId docId)
include hc hid

theorem dropped_files (h : w.Dropped e coll docId change res t) {path : Path}
    {coll' docId' : String} (hc' : e.cfg.Configured coll') (hid' : DocumentId docId')
    (hpath : e.Watched coll' docId' path)
    (hne : path ≠ takenQueuePath e.dataDir change coll docId) :
    t.files path = w.files path := by
  have hprevious : path ≠ e.previous coll docId := (hpath.ne_previous hc hid hc' hid').symm
  rcases h with ⟨-, h | h⟩ | ⟨-, h⟩
  · rw [h]
  · rw [h, put_files_other _ hprevious]
  · rw [h, put_files_other _ hne, put_files_other _ hprevious]

theorem dropped_kept {err : FsError} (h : w.Dropped e coll docId change (.error err) t) :
    t.files (takenQueuePath e.dataDir change coll docId) =
      w.files (takenQueuePath e.dataDir change coll docId) := by
  have hwatched : e.Watched coll docId (takenQueuePath e.dataDir change coll docId) :=
    .taken change
  rcases h with ⟨-, h | h⟩ | ⟨⟨complete, hres⟩, -⟩
  · rw [h]
  · rw [h, put_files_other _ (hwatched.ne_previous hc hid hc hid).symm]
  · cases hres

omit hc hid in
theorem CacheEffect.before {v : World ν} {outside : ν}
    (h : CacheEffect e host coll docId change v res outside)
    (hlive : v.files (e.live coll docId) = w.files (e.live coll docId))
    (houtside : v.outside = w.outside) :
    CacheEffect e host coll docId change w res outside := by
  cases h with
  | stopped err => exact houtside ▸ .stopped err
  | idle _ none => exact houtside ▸ .idle _ (none.imp_right fun h => ⟨h.1, hlive ▸ h.2⟩)
  | failed current prev operationId item live made err err' _ loop =>
    exact .failed current prev operationId item (hlive ▸ live) made err err' _ (houtside ▸ loop)
  | spread current prev operationId item live made complete _ loop _ =>
    exact .spread current prev operationId item (hlive ▸ live) made complete _ (houtside ▸ loop) _

theorem cacheRun_of_claimed (hindex : host.SearchesApart) {v : World ν}
    (hfiles : ∀ path, path ≠ queuePath e.dataDir change coll docId →
      path ≠ takenQueuePath e.dataDir change coll docId → v.files path = w.files path)
    (houtside : v.outside = w.outside)
    (hclaim : v.files (takenQueuePath e.dataDir change coll docId) ≠ none)
    (h : (runClaimed e change coll docId).run (exec host faults) v = (res, t)) :
    CacheRun e host coll docId change w res t := by
  obtain ⟨hdropped, heffect⟩ := run_runClaimed hindex h
  have hwatched : ∀ {coll' docId' path}, e.cfg.Configured coll' → DocumentId docId' →
      e.Watched coll' docId' path → path ≠ queuePath e.dataDir change coll docId →
      path ≠ takenQueuePath e.dataDir change coll docId → t.files path = w.files path :=
    fun hc' hid' hpath hq ht =>
      (dropped_files hc hid hdropped hc' hid' hpath ht).trans (hfiles _ hq ht)
  have hlive : v.files (e.live coll docId) = w.files (e.live coll docId) :=
    hfiles _ (e.queuePath_not_live hc hid ⟨_, _, hc, hid, rfl⟩ change).symm
      (e.takenQueuePath_not_live hc hid ⟨_, _, hc, hid, rfl⟩ change).symm
  refine ⟨?_, fun other hother => ?_, fun err hres => ?_, fun c' id' path hc' hid' hne hpath => ?_,
    heffect.before hlive houtside⟩
  · exact hwatched hc hid .live (e.queuePath_not_live hc hid ⟨_, _, hc, hid, rfl⟩ change).symm
      (e.takenQueuePath_not_live hc hid ⟨_, _, hc, hid, rfl⟩ change).symm
  · rw [Queued, Queued, hwatched hc hid (.queue other)
        (fun heq => hother (e.queuePath_inj hc hid hc hid heq).1)
        (e.queuePath_ne_takenQueuePath hc hid hc hid other change),
      hwatched hc hid (.taken other) (e.queuePath_ne_takenQueuePath hc hid hc hid change other).symm
        (fun heq => hother (e.takenQueuePath_inj hc hid hc hid heq).1)]
  · subst hres
    refine .inr ?_
    rw [dropped_kept hc hid hdropped]
    exact hclaim
  · exact hwatched hc' hid' hpath (hpath.ne_queue hc hid hc' hid' hne change).symm
      (hpath.ne_taken hc hid hc' hid' hne change).symm

theorem run_runEntryResult (hindex : host.SearchesApart) {state : EntryState}
    (hpresent : w.Present e coll docId change state)
    (h : (runEntryResult e change coll docId state).run (exec host faults) w = (res, t)) :
    CacheRun e host coll docId change w res t := by
  cases state with
  | taken => exact cacheRun_of_claimed hc hid hindex (fun _ _ _ => rfl) rfl hpresent h
  | queue =>
    simp only [runEntryResult, runEntryResultWith, Program.bind_eq, Program.run_bind,
      run_rename] at h
    cases hclaim : faults .claim with
    | true =>
      rw [hclaim] at h
      cases h
      exact ⟨rfl, fun _ _ => Iff.rfl, fun _ _ => .inl hpresent, fun _ _ _ _ _ _ _ => rfl,
        .stopped _⟩
    | false =>
      obtain ⟨file, hfile⟩ := Option.ne_none_iff_exists'.mp hpresent
      simp only [hclaim, hfile, Bool.false_eq_true, if_false] at h
      refine cacheRun_of_claimed hc hid hindex (fun path hq ht => move_files_other w hq ht)
        (move_outside _ _ _) ?_ h
      rw [move_files_target]
      exact hpresent
end
end
end Datorium
