
import Datorium.Caches.Net
import Datorium.Engine.ShardMap
/-! # Who pulls a pending cache update -/
namespace Datorium
open Framework Function List
namespace Config
def allSOTMembers (cfg : Config) : List String :=
  (((cfg.shardMap.map fun entry => entry.2.shardSOTMember).filter (· ≠ "")).eraseDups).mergeSort
    fun a b => decide (a ≤ b)

/-- The servers with which `RunOnce` of the pull agent of a member checks in. -/
def pullTargets (cfg : Config) (member : String) : List String :=
  cfg.allSOTMembers.filter fun sot =>
    sot ≠ member ∧ (Fields.get? sot cfg.baseURLs).any (· ≠ "") = true

theorem mem_allSOTMembers {cfg : Config} {name : String} : name ∈ cfg.allSOTMembers ↔
      name ≠ "" ∧ ∃ entry ∈ cfg.shardMap, entry.2.shardSOTMember = name := by
  simp only [allSOTMembers, mem_mergeSort, mem_eraseDups, mem_filter, mem_map, decide_eq_true_eq]
  exact and_comm

def ValidServers (cfg : Config) : Prop :=
  ∀ name url, Fields.get? name cfg.baseURLs = some url → url ≠ ""

theorem mem_pullTargets {cfg : Config} {quote : String → String} {sot member : String}
    (hmap : cfg.validateShardMap quote = []) (hservers : cfg.ValidServers)
    (hsot : sot ∈ cfg.allSOTMembers) (hne : sot ≠ member) : sot ∈ cfg.pullTargets member := by
  obtain ⟨hnamed, entry, hmem, rfl⟩ := mem_allSOTMembers.mp hsot
  obtain ⟨hentries, -⟩ := validateShardMapBody_eq_nil.mp hmap
  obtain ⟨url, hurl⟩ : ∃ url, Fields.get? entry.2.shardSOTMember cfg.baseURLs = some url := by
    rw [← Option.ne_none_iff_exists']
    intro hnone
    exact (Fields.get?_eq_none_iff _ _).mp hnone (hentries entry hmem).sot
  refine mem_filter.mpr ⟨hsot, decide_eq_true ⟨hne, ?_⟩⟩
  rw [hurl]
  exact decide_eq_true (hservers _ url hurl)
end Config

structure CacheServers where
  cfg : Config
  engine : String → Engine
  ids : String → Nat → String
  named : ∀ name, (engine name).serverName = name
  config : ∀ name, (engine name).cfg = cfg

/-- The servers with their files and the items pending on them. -/
abbrev CacheServers.State := String → World CacheNet

inductive PullMove where
  /-- A document command or a read, with the catch-up marks of the server at that time. -/
  | command (server : String) (req : Request) (marks : Option ReadMemberState) (faults : Faults)
      (outcomes : String → CacheOutcome)
  | agent (server : String) (change : Command) (collection docId : String) (state : EntryState)
      (faults : Faults) (outcomes : String → CacheOutcome)
  | pull (member server : String) (key : SourceKey)

namespace CacheServers
variable (x : CacheServers)
def serving (server : String) (marks : Option ReadMemberState) : Engine :=
  { x.engine server with readState := marks }

def host (server : String) (outcomes : String → CacheOutcome) : Host CacheNet where
  ids := x.ids server
  push _ _ net := (true, net)
  fanOut members item net := net.fanOut outcomes item members true
  index _ _ _ _ net := (.ok (), net)

def Enabled (s : State) : PullMove → Prop
  | .command _ _ _ _ _ => True
  | .agent server change collection docId state _ _ => x.cfg.Configured collection ∧
      DocumentId docId ∧ (s server).Present (x.engine server) collection docId change state
  | .pull member server _ => server ∈ x.cfg.pullTargets member

def after (s : State) : PullMove → State
  | .command server req marks faults outcomes => update s server
      ((execute (x.serving server marks) req).run (exec (x.host server outcomes) faults) (s server)).2
  | .agent server change collection docId state faults outcomes => update s server
      ((runEntryResult (x.engine server) change collection docId state).run
        (exec (x.host server outcomes) faults) (s server)).2
  | .pull member server key => update s server
      { s server with outside := (s server).outside.setPending member key none }

def Reads (s : State) (server : String) (req : Request) : Prop :=
  req.command = .read → ∀ doc, (s server).files ((x.engine server).live req.target req.parameter) =
    some (File.ofFields doc) → needsMigration x.cfg req.target doc = false

/-- A server that is no source of truth has a name and migrates no document, and a server applies
its own updates. -/
def Careful (s : State) : PullMove → Prop
  | .command server req _ _ outcomes =>
    (server ∈ x.cfg.allSOTMembers ∨ server ≠ "" ∧ x.Reads s server req) ∧ outcomes server = .cleared
  | .agent server _ _ _ _ _ outcomes => outcomes server = .cleared
  | .pull _ _ _ => True

def Step (s t : State) : Prop := ∃ move, x.Enabled s move ∧ x.after s move = t

def CarefulStep (s t : State) : Prop :=
  ∃ move, x.Enabled s move ∧ x.Careful s move ∧ x.after s move = t

structure OwnClear (server : String) (net : CacheNet) : Prop where
  pending : ∀ key, net.pending server key = none
  cache : ∀ member key, net.cache member key = none

structure Vacant (server : String) (w : World CacheNet) : Prop where
  pending : ∀ member key, w.outside.pending member key = none
  queue : ∀ collection docId change, x.cfg.Configured collection → DocumentId docId →
    ¬ w.Queued (x.engine server) collection docId change

structure Sound (s : State) : Prop where
  own : ∀ server, OwnClear server (s server).outside
  vacant : ∀ server, server ∉ x.cfg.allSOTMembers → x.Vacant server (s server)

variable {x} {s t : State} {server : String}
theorem deliver_uncached {net : CacheNet} {item : CacheItem} (h : ∀ m key, net.cache m key = none)
    (member : String) (cleared : Bool) :
    (∀ m key, (net.deliver member item cleared).2.cache m key = none) ∧
      (net.deliver member item cleared).2.pending =
        if cleared then (net.setPending member item.key none).pending else net.pending := by
  have happly : item.apply (net.cache member item.key) = .ok none := by
    rw [h]
    rfl
  have hcache : ∀ m key, (net.setCache member item.key none).cache m key = none := by
    intro m key
    rw [CacheNet.setCache_cache]
    split
    · rfl
    · exact h m key
  rw [CacheNet.deliver, happly]
  cases cleared with
  | false => exact ⟨hcache, rfl⟩
  | true => exact ⟨hcache, rfl⟩

theorem OwnClear.target {net net' : CacheNet} {item : CacheItem} {member : String} {done : Bool}
    {outcome : CacheOutcome} (h : OwnClear server net)
    (hown : member = server → outcome = .cleared)
    (htarget : net.target member item outcome = some (done, net')) : OwnClear server net' := by
  obtain ⟨hdelivered, hleft⟩ :=
    @deliver_uncached (net.setPending member item.key (some item)) item h.cache member true
  refine ⟨fun key => ?_, ?_⟩
  · by_cases heq : member = server
    · -- staged and removed again
      subst heq
      rw [hown rfl] at htarget
      rw [CacheNet.target_cleared htarget, hleft, if_pos rfl, CacheNet.setPending_pending, CacheNet.setPending_pending]
      split
      · rfl
      · exact h.pending key
    · exact (((CacheNet.target_told htarget).2.2 server key (Ne.symm heq)).1).trans (h.pending key)
  · cases outcome with
    | unwritten => cases htarget
    | unapplied =>
      cases htarget
      exact h.cache
    | uncleared =>
      rw [CacheNet.target_uncleared htarget]
      have hcache : ∀ m key, (net.setPending member item.key (some item)).cache m key = none :=
        h.cache
      exact (deliver_uncached hcache member false).1
    | cleared =>
      rw [CacheNet.target_cleared htarget]
      exact hdelivered

variable {outcomes : String → CacheOutcome} {e : Engine}
theorem OwnClear.fanOut {net : CacheNet} {item : CacheItem} {members : List String}
    {complete : Bool} (h : OwnClear server net) (hown : outcomes server = .cleared) :
    OwnClear server (net.fanOut outcomes item members complete).2 := by
  induction members generalizing net complete with
  | nil => exact h
  | cons member members ih =>
    rw [CacheNet.fanOut]
    cases htarget : net.target member item (outcomes member) with
    | none => exact h
    | some told =>
      obtain ⟨done, net'⟩ := told
      exact ih (h.target (fun heq => heq ▸ hown) htarget)

theorem exec_outside {faults : Faults} (op : Op) (w : World CacheNet) :
    (exec (x.host server outcomes) faults op w).2.outside = w.outside ∨
      ∃ members item, op.call = .fanOut members item ∧
        (exec (x.host server outcomes) faults op w).2.outside =
          (w.outside.fanOut outcomes item members true).2 := by
  obtain ⟨site, call⟩ := op
  cases hf : faults site with
  | true => exact .inl (by simp [exec, hf])
  | false =>
    cases call with
    | fanOut members item => exact .inr ⟨members, item, rfl, by simp [exec, hf, Call.apply, host]⟩
    | stat p => cases hp : w.files p <;> exact .inl (by simp [exec, hf, Call.apply, hp])
    | readFile p => cases hp : w.files p <;> exact .inl (by simp [exec, hf, Call.apply, hp])
    | rename source target =>
      cases hp : w.files source <;> exact .inl (by simp [exec, hf, Call.apply, hp])
    | remove p => cases hp : w.files p <;> exact .inl (by simp [exec, hf, Call.apply, hp])
    | _ => exact .inl (by simp [exec, hf, Call.apply, host])

theorem OwnClear.run {α : Type} {p : Prog α} {outcomes : String → CacheOutcome} {faults : Faults}
    {w : World CacheNet} (hown : outcomes server = .cleared) (h : OwnClear server w.outside) :
    OwnClear server (p.run (exec (x.host server outcomes) faults) w).2.outside := by
  induction p generalizing w with
  | done a => exact h
  | call op next ih =>
    refine ih _ ?_
    rcases exec_outside op w with hsame | ⟨members, item, -, hloop⟩
    · rw [hsame]
      exact h
    · rw [hloop]
      exact h.fanOut hown

structure OffQueue (e : Engine) (op : Op) : Prop where
  queue : ∀ collection docId change, e.cfg.Configured collection → DocumentId docId →
    op.call.Avoids (queuePath e.dataDir change collection docId) ∧
      op.call.Avoids (takenQueuePath e.dataDir change collection docId)
  keeps : op.call.distributes = false

theorem permits_offQueue (e : Engine) (place : Site → Site) (stage : Stage) :
    Permits (OffQueue e) place stage := by
  intro site call hsite hcall
  refine ⟨fun _ _ _ _ _ => ⟨permits_avoids _ place stage site call hsite hcall,
    permits_avoids _ place stage site call hsite hcall⟩, ?_⟩
  cases call <;> trivial

theorem cachePath_ne_entry {coll docId : String} (hc : e.cfg.Configured coll)
    (hid : DocumentId docId) (change : Command) (target targetId : String) :
    cachePath e.dataDir target targetId ≠ queuePath e.dataDir change coll docId ∧
      cachePath e.dataDir target targetId ≠ takenQueuePath e.dataDir change coll docId := by
  obtain ⟨dir, name, hpath⟩ :=
    (cacheDir e.dataDir target).join_append_last targetId (t := ".json") (by decide) (by decide)
  have hplain := e.cfg.plainNames _ hc
  rw [cachePath, hpath, queuePath_eq hplain hid, takenQueuePath_eq hplain hid]
  have hends : ∀ base ending, ".json".toList.reverse.take 2 ≠ ending.toList.reverse.take 2 →
      2 ≤ ending.toList.length → dir ++ [name ++ ".json"] ≠
        e.dataDir ++ [coll, ".changeQueue", base ++ ending] := by
    intro base ending hne hlong heq
    have hlast := congrArg getLast? heq
    simp only [getLast?_append, getLast?_cons_cons, getLast?_singleton,
      Option.some_or, Option.some.injEq] at hlast
    have htail := congrArg (fun text : String => text.toList.reverse.take 2) hlast
    have hlong' : 2 ≤ ending.toList.reverse.length := by
      rw [length_reverse]
      exact hlong
    simp only [String.toList_append, reverse_append] at htail
    rw [take_append_of_le_length (by decide), take_append_of_le_length hlong'] at htail
    exact hne htail
  exact ⟨hends _ ".queue" (by decide) (by decide), hends _ ".taken" (by decide) (by decide)⟩

theorem only_readDocument (req : Request) (doc : JsonFields) :
    (readDocument e req doc).Only (OffQueue e) := by
  unfold readDocument
  split
  · have hsummaries : (buildCacheSummaries e.ojson e.dataDir doc
        (Fields.get? req.target e.cfg.schemas)).Only (OffQueue e) := by
      unfold buildCacheSummaries
      split
      · trivial
      · split
        · trivial
        · exact only_collectSummaries (fun ref _ =>
            (permits_offQueue e id .delivering).summarizes
              ⟨fun _ _ change hc hid => cachePath_ne_entry hc hid change _ _, rfl⟩) _
    exact .bind hsummaries fun _ => trivial
  · trivial

theorem Vacant.run {α : Type} {p : Prog α} {outcomes : String → CacheOutcome} {faults : Faults}
    {w : World CacheNet} {e : Engine} (he : e.cfg = x.cfg)
    (hdir : e.dataDir = (x.engine server).dataDir) (hp : p.Only (OffQueue e))
    (h : x.Vacant server w) :
    x.Vacant server (p.run (exec (x.host server outcomes) faults) w).2 := by
  refine hp.run (fun op w' hop hw => ⟨?_, fun coll docId change hc hid => ?_⟩) h
  · rcases exec_outside op w' with hsame | ⟨members, item, hcall, -⟩
    · rw [hsame]
      exact hw.pending
    · have hkeeps := hop.keeps
      rw [hcall] at hkeeps
      cases hkeeps
  · obtain ⟨hqueue, htaken⟩ := hop.queue coll docId change (he ▸ hc) hid
    rw [hdir] at hqueue htaken
    rw [World.Queued, hqueue.exec, htaken.exec]
    exact hw.queue coll docId change hc hid

theorem refused_of_notMember {req : Request} {marks : Option ReadMemberState} (hnamed : server ≠ "")
    (hmember : server ∉ x.cfg.allSOTMembers) (hwrite : req.command ≠ .read) :
    ∃ wrong, checkRouting (x.serving server marks) req = some wrong := by
  rw [← Option.ne_none_iff_exists']
  intro hpass
  have hname : (x.serving server marks).serverName = server := x.named server
  have hcfg : (x.serving server marks).cfg = x.cfg := x.config server
  have hsot := (checkRouting_write hwrite (by rw [hname]; exact hnamed)).mp hpass
  rw [hname, hcfg, Config.assignmentForSlot_eq, Config.slotAssignment] at hsot
  refine hmember (Config.mem_allSOTMembers.mpr ⟨hnamed, ?_⟩)
  split at hsot
  · exact absurd hsot.symm hnamed
  next entry hfind => exact ⟨entry, mem_of_find?_eq_some hfind, hsot⟩

theorem execute_refused {req : Request} {wrong : Result} (hwrite : req.command ≠ .read)
    (h : checkRouting e req = some wrong) : ∃ res, execute e req = pure res := by
  unfold execute
  cases hcmd : req.command with
  | read => exact absurd hcmd hwrite
  | create =>
    cases hadm : createAdmission e req with
    | error res => exact ⟨res, by simp only [create, hadm]⟩
    | ok schemaRaw =>
      unfold createAdmission at hadm
      split at hadm
      · cases hadm
      · split at hadm
        · cases hadm
        · split at hadm
          · cases hadm
          · rw [h] at hadm
            cases hadm
  | patch =>
    cases hadm : patchAdmission e req with
    | error res => exact ⟨res, by simp only [patch, hadm]⟩
    | ok schemaRaw =>
      unfold patchAdmission at hadm
      split at hadm
      · cases hadm
      · rw [h] at hadm
        cases hadm
  | delete =>
    cases hadm : deleteAdmission e req with
    | error res => exact ⟨res, by simp only [delete, hadm]⟩
    | ok u =>
      unfold deleteAdmission at hadm
      split at hadm
      · cases hadm
      · rw [h] at hadm
        cases hadm

theorem Vacant.serve {req : Request} {marks : Option ReadMemberState} {faults : Faults}
    (hnamed : server ≠ "") (hmember : server ∉ x.cfg.allSOTMembers)
    (hreads : x.Reads s server req) (h : x.Vacant server (s server)) :
    x.Vacant server ((execute (x.serving server marks) req).run
      (exec (x.host server outcomes) faults) (s server)).2 := by
  have hcfg : (x.serving server marks).cfg = x.cfg := x.config server
  by_cases hread : req.command = .read
  · have hexecute : execute (x.serving server marks) req = read (x.serving server marks) req := by
      rw [execute, hread]
    rw [hexecute, read]
    cases readAdmission (x.serving server marks) req with
    | error res => exact h
    | ok u =>
      simp only [Program.bind_eq, Program.run_bind, run_readDocumentJSON]
      cases hdoc : (s server).readFields (faults .readLive)
          ((x.serving server marks).live req.target req.parameter) with
      | error err => exact h
      | ok doc =>
        have hcurrent : needsMigration (x.serving server marks).cfg req.target doc = false := by
          rw [hcfg]
          exact hreads hread doc (readFields_eq_ok.mp hdoc).2
        have hmigrate : migrateOnAccess (x.serving server marks) req.target req.parameter doc =
            pure (.ok doc) := if_pos hcurrent
        simp only [hmigrate, Program.run_bind]
        exact h.run hcfg rfl (only_readDocument req doc)
  · obtain ⟨wrong, hwrong⟩ := @refused_of_notMember x server req marks hnamed hmember hread
    obtain ⟨res, hres⟩ := execute_refused hread hwrong
    rw [hres]
    exact h

theorem Sound.update (hs : x.Sound s) {w : World CacheNet} (hown : OwnClear server w.outside)
    (hvacant : server ∉ x.cfg.allSOTMembers → x.Vacant server w) :
    x.Sound (update s server w) := by
  refine ⟨fun other => ?_, fun other hother => ?_⟩
  · by_cases heq : other = server
    · subst heq
      rw [update_self]
      exact hown
    · rw [update_of_ne heq]
      exact hs.own other
  · by_cases heq : other = server
    · subst heq
      rw [update_self]
      exact hvacant hother
    · rw [update_of_ne heq]
      exact hs.vacant other hother

theorem Sound.after (hs : x.Sound s) (hstep : x.CarefulStep s t) : x.Sound t := by
  obtain ⟨move, henabled, hcareful, rfl⟩ := hstep
  cases move with
  | command server req marks faults outcomes =>
    refine hs.update ((hs.own server).run hcareful.2) fun hmember => ?_
    obtain ⟨hnamed, hreads⟩ := hcareful.1.resolve_left hmember
    exact (hs.vacant server hmember).serve hnamed hmember hreads
  | agent server change coll docId state faults outcomes =>
    obtain ⟨hc, hid, hpresent⟩ := henabled
    refine hs.update ((hs.own server).run hcareful) fun hmember => ?_
    -- a server without entries has nothing to run on
    refine absurd ?_ ((hs.vacant server hmember).queue coll docId change hc hid)
    cases state with
    | queue => exact .inl hpresent
    | taken => exact .inr hpresent
  | pull member server key =>
    have hkept : ∀ m k, (s server).outside.pending m k = none →
        ((s server).outside.setPending member key none).pending m k = none := by
      intro m k hnone
      rw [CacheNet.setPending_pending]
      split
      · rfl
      · exact hnone
    exact hs.update ⟨fun k => hkept server k ((hs.own server).pending k), (hs.own server).cache⟩
      fun hmember => ⟨fun m k => hkept m k ((hs.vacant server hmember).pending m k),
        (hs.vacant server hmember).queue⟩

structure Quiet (x : CacheServers) (s : State) : Prop where
  cache : ∀ server member key, (s server).outside.cache member key = none
  vacant : ∀ server, x.Vacant server (s server)

theorem Quiet.reach (hs : x.Quiet s) (hrun : Relation.ReflTransGen x.CarefulStep s t) :
    x.Sound t := by
  induction hrun with
  | refl =>
    exact ⟨fun server => ⟨(hs.vacant server).pending server, hs.cache server⟩,
      fun server _ => hs.vacant server⟩
  | tail _ hstep ih => exact ih.after hstep
end CacheServers

def CacheServers.Reachable (x : CacheServers) (s : State) : Prop :=
  x.cfg.validateShardMap id = [] ∧ x.cfg.ValidServers ∧
    ∃ start, x.Quiet start ∧ Relation.ReflTransGen x.Step start s

/-- In a valid config and after any careful steps, an item that is pending on a server is for another
member, and that member pulls from the server. -/
theorem CacheServers.pending_has_puller (x : CacheServers) {quote : String → String}
    (hmap : x.cfg.validateShardMap quote = []) (hservers : x.cfg.ValidServers) {start s : State}
    (hstart : x.Quiet start) (hrun : Relation.ReflTransGen x.CarefulStep start s)
    {server member : String} {key : SourceKey} {item : CacheItem}
    (hpending : (s server).outside.pending member key = some item) :
    member ≠ server ∧ server ∈ x.cfg.pullTargets member := by
  have hsound := hstart.reach hrun
  have hother : member ≠ server := by
    rintro rfl
    rw [(hsound.own member).pending key] at hpending
    cases hpending
  have hmember : server ∈ x.cfg.allSOTMembers := by
    by_contra hnot
    rw [(hsound.vacant server hnot).pending member key] at hpending
    cases hpending
  exact ⟨hother, Config.mem_pullTargets hmap hservers hmember hother.symm⟩

namespace Sample
def cachedConfig (members : List String) (version : Nat) : Config where
  version := 1
  baseURLs := ("alpha", "http://alpha") :: members.map fun name => (name, "http://" ++ name)
  shardMap := [("00-FF", ⟨"alpha", members, []⟩)]
  schemas := referringConfig.schemas
  schemaVersions := [("Movies", version)]
  schemaUpdateHistory := [("Movies", [(2, upgrade "1" [addYear])])]
  plainNames := referringConfig.plainNames

theorem cachedConfig_valid (members : List String) (version : Nat) :
    (cachedConfig members version).validateShardMap id = [] ∧
      (cachedConfig members version).ValidServers := by
  have hmembers : ∀ name ∈ members,
      name ∈ ((cachedConfig members version).baseURLs.map Prod.fst : List String) := by
    intro name hname
    simp only [cachedConfig, map_cons, map_map]
    exact mem_cons_of_mem _ (mem_map.mpr ⟨name, hname, rfl⟩)
  refine ⟨@wholeMap_accepted ⟨"alpha", members, []⟩ _ (show "alpha" ≠ "" by decide)
    mem_cons_self hmembers (fun name hname => by cases hname), fun name url hurl => ?_⟩
  have hmem := Fields.mem_of_get? hurl
  simp only [cachedConfig, mem_cons, Prod.mk.injEq, mem_map] at hmem
  rcases hmem with ⟨-, rfl⟩ | ⟨other, -, -, rfl⟩
  · decide
  · intro hempty
    have htext := congrArg String.toList hempty
    simp at htext

def cachingServers (members : List String) (version : Nat) : CacheServers where
  cfg := cachedConfig members version
  engine name := { server with serverName := name, cfg := cachedConfig members version }
  ids _ := host.ids
  named _ := rfl
  config _ := rfl

def copies (doc : Option JsonFields) : CacheServers.State := fun name =>
  ⟨fun path => if name ≠ "alpha" ∧ path = server.live "Movies" "alien" then
      doc.map File.ofFields else none, 0,
    ⟨fun _ _ => none, fun _ _ => none, fun _ _ => none⟩⟩

theorem copies_quiet (members : List String) (version : Nat) (doc : Option JsonFields) :
    (cachingServers members version).Quiet (copies doc) := by
  refine ⟨fun _ _ _ => rfl, fun name => ⟨fun _ _ => rfl, fun coll docId change hc hid => ?_⟩⟩
  have hlive : ((cachingServers members version).engine name).LivePath
      (server.live "Movies" "alien") :=
    ⟨"Movies", "alien", rfl, Sample.alien_id, rfl⟩
  have hqueue := Engine.queuePath_not_live hc hid hlive change
  have htaken := Engine.takenQueuePath_not_live hc hid hlive change
  rintro (hq | ht)
  · exact hq (if_neg fun h => hqueue h.2)
  · exact ht (if_neg fun h => htaken h.2)

def oldMovie : JsonFields :=
  [("!", .str "alien"), ("#", .str "old"), ("$", .str "Movies:1"), ("title", .str "Alien")]

def onlyOn (name : String) : String → CacheOutcome :=
  fun member => if member = name then .cleared else .unapplied

def betaReads : PullMove := .command "beta" readRequest none .none fun _ => .cleared

def alphaCreates : PullMove := .command "alpha" createRequest none .none fun _ => .cleared

def entryRunOn (name : String) (change : Command) (outcomes : String → CacheOutcome) : PullMove :=
  .agent name change "Movies" "alien" .queue .none outcomes

theorem twoMembers (version : Nat) :
    (cachedConfig ["beta", "gamma"] version).allReadMembers = ["beta", "gamma"] := by
  have hsorted : ["beta", "gamma"].Pairwise fun a b => decide (a ≤ b) = true := by decide
  exact mergeSort_of_pairwise hsorted
end Sample
open Sample
theorem pending_has_puller_beta :
    ∃ s item, Relation.ReflTransGen (cachingServers ["beta"] 1).CarefulStep (copies none) s ∧
      (s "alpha").outside.pending "beta" ("Movies", "alien") = some item ∧
      "beta" ≠ "alpha" ∧ "alpha" ∈ (cachedConfig ["beta"] 1).pullTargets "beta" := by
  have hpresent : ((cachingServers ["beta"] 1).after (copies none)
      alphaCreates "alpha").Present ((cachingServers ["beta"] 1).engine "alpha")
        "Movies" "alien" .create .queue := by
    rw [World.Present, ← Option.isSome_iff_ne_none]
    decide +kernel
  have hpending : (((cachingServers ["beta"] 1).after
      ((cachingServers ["beta"] 1).after (copies none) alphaCreates)
        (entryRunOn "alpha" .create (onlyOn "alpha")) "alpha").outside.pending "beta"
          ("Movies", "alien")).isSome = true := by decide +kernel
  obtain ⟨item, hitem⟩ := Option.isSome_iff_exists.mp hpending
  have hrun : Relation.ReflTransGen (cachingServers ["beta"] 1).CarefulStep (copies none) _ :=
    .tail (.single ⟨alphaCreates, trivial, ⟨.inl (by decide +kernel), rfl⟩, rfl⟩)
      ⟨entryRunOn "alpha" .create (onlyOn "alpha"), ⟨by decide, alien_id, hpresent⟩, rfl, rfl⟩
  obtain ⟨hmap, hservers⟩ := cachedConfig_valid ["beta"] 1
  exact ⟨_, item, hrun, hitem, CacheServers.pending_has_puller (cachingServers ["beta"] 1)
    hmap hservers (copies_quiet _ _ _) hrun hitem⟩

/-- Beta migrates its copy of a movie and distributes that; nobody pulls from beta. And alpha does
not pull from itself. -/
theorem pending_without_puller : (∃ s item, (cachingServers ["beta", "gamma"] 2).Reachable s ∧
      (s "beta").outside.pending "gamma" ("Movies", "alien") = some item ∧
      "beta" ∉ (cachedConfig ["beta", "gamma"] 2).pullTargets "gamma") ∧
    ∃ s item, (cachingServers ["alpha"] 1).Reachable s ∧
      (s "alpha").outside.pending "alpha" ("Movies", "alien") = some item := by
  refine ⟨?_, ?_⟩
  · have hpresent : ((cachingServers ["beta", "gamma"] 2).after
        (copies (some oldMovie)) betaReads "beta").Present
          ((cachingServers ["beta", "gamma"] 2).engine "beta") "Movies" "alien" .patch .queue := by
      rw [World.Present, ← Option.isSome_iff_ne_none]
      decide +kernel
    have hpending : (((cachingServers ["beta", "gamma"] 2).after
        ((cachingServers ["beta", "gamma"] 2).after (copies (some oldMovie))
          betaReads) (entryRunOn "beta" .patch (onlyOn "beta"))
            "beta").outside.pending "gamma" ("Movies", "alien")).isSome = true := by
      -- the sorted list of members is rewritten first: sorting does not evaluate
      simp only [CacheServers.after, entryRunOn, runEntryResult, runEntryResultWith,
        runClaimedWith, processWith, distributeCache, cachingServers, twoMembers]
      decide +kernel
    obtain ⟨item, hitem⟩ := Option.isSome_iff_exists.mp hpending
    obtain ⟨hmap, hservers⟩ := cachedConfig_valid ["beta", "gamma"] 2
    refine ⟨_, item, ⟨hmap, hservers, _, copies_quiet _ _ (some oldMovie),
      .tail (.single ⟨betaReads, trivial, rfl⟩) ⟨entryRunOn "beta" .patch (onlyOn "beta"),
          ⟨by decide, alien_id, hpresent⟩, rfl⟩⟩, hitem, by decide +kernel⟩
  · have hpresent : ((cachingServers ["alpha"] 1).after (copies none)
        alphaCreates "alpha").Present ((cachingServers ["alpha"] 1).engine "alpha")
          "Movies" "alien" .create .queue := by
      rw [World.Present, ← Option.isSome_iff_ne_none]
      decide +kernel
    have hpending : (((cachingServers ["alpha"] 1).after
        ((cachingServers ["alpha"] 1).after (copies none) alphaCreates)
          (entryRunOn "alpha" .create fun _ => .unapplied) "alpha").outside.pending "alpha"
            ("Movies", "alien")).isSome = true := by decide +kernel
    obtain ⟨item, hitem⟩ := Option.isSome_iff_exists.mp hpending
    obtain ⟨hmap, hservers⟩ := cachedConfig_valid ["alpha"] 1
    exact ⟨_, item, ⟨hmap, hservers, _, copies_quiet _ _ none,
      .tail (.single ⟨alphaCreates, trivial, rfl⟩) ⟨entryRunOn "alpha" .create fun _ => .unapplied,
          ⟨by decide, alien_id, hpresent⟩, rfl⟩⟩, hitem⟩
end Datorium
