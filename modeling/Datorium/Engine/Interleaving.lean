
import Datorium.Engine.ErrorAtomicity
import Datorium.Engine.Ledger
namespace Datorium
open Framework Function
section
variable {P ν : Type} [DecidableEq P] {host : Host ν} {live : Path} {s s' : Shared P ν}
  {views : P → Option View} {p : P} {u u' : View}
variable {op : Op}
theorem replacement_of_avoids (h : op.call.Avoids live) (w : World ν) :
    op.replacement live w = none := by
  obtain ⟨site, call⟩ := op
  cases call with
  | install path file => exact if_neg h
  | remove path =>
    have hpath : path ≠ live := h
    simp [Op.replacement, hpath]
  | rename path target =>
    have hpath : path ≠ live := h.1
    simp [Op.replacement, hpath]
  | _ => rfl

theorem step_read_other {q : P} (hq : q ≠ p) : (Shared.step host live p op s).2.read q = s.read q := by
  simp only [Shared.step]
  split
  · exact update_of_ne hq _ _
  · rfl

theorem step_read_blind (hsite : op.site.looks = false) :
    (Shared.step host live p op s).2.read = s.read := by
  simp [Shared.step, hsite]

theorem step_unrecorded (h : op.replacement live s.world = none) :
    (Shared.step host live p op s).2.current = s.current ∧
      (Shared.step host live p op s).2.history = s.history := by
  simp [Shared.step, h, Shared.record]

theorem step_issued (op : Op) :
    s.world.issued ≤ (Shared.step host live p op s).2.world.issued := exec_issued op s.world

theorem Inv.aside (h : Inv host live s views) (hp : views p = some u) (haside : Aside live op)
    (hforeign : op.site.foreign = true → op.call.Avoids live)
    (hu : u' = u ∧ op.site.looks = false ∨ u' = { u with base := none }) :
    Inv host live (Shared.step host live p op s).2 (update views p (some u')) := by
  have havoids : op.call.Avoids live := haside.avoids.elim (fun h => h) hforeign
  have hholder : (Shared.step host live p op s).2.holder = s.holder := by
    obtain ⟨site, call⟩ := op
    cases call with
    | lock => exact absurd rfl haside.notLock
    | unlock => exact absurd rfl haside.notUnlock
    | _ => rfl
  have hfile : (Shared.step host live p op s).2.world.files live = s.world.files live :=
    havoids.exec s.world
  obtain ⟨hcurrent, hhistory⟩ : (Shared.step host live p op s).2.current = s.current ∧
      (Shared.step host live p op s).2.history = s.history :=
    step_unrecorded (replacement_of_avoids havoids s.world)
  have hview : u'.holding = u.holding ∧ u'.moved = u.moved ∧ u'.fresh = u.fresh ∧
      u'.wrote = u.wrote := by
    rcases hu with ⟨rfl, -⟩ | rfl <;> exact ⟨rfl, rfl, rfl, rfl⟩
  refine ⟨?_, ?_, ?_⟩
  · rw [hholder]
    exact h.owners.keep hp hview.1 fun hm => h.owners.moved p u hp (hview.2.1 ▸ hm)
  · exact h.ledger.keep hp hcurrent hhistory (step_issued op) hview.2.2.1 hview.2.2.2
  · refine h.content.keep hp hfile hcurrent (fun q hq => step_read_other hq) hview.2.1
      fun base hne hw hb => ?_
    rcases hu with ⟨rfl, hsite⟩ | rfl
    · rw [step_read_blind hsite]
      exact h.content.based p _ base hp hne hw hb
    · cases hb

theorem Inv.replaced (h : Inv host live s views) (hp : views p = some u)
    (hu : u.holding ≠ .nothing) (hw : u.wrote = none) {base version : Option String}
    (hb : u.base = some base) (hfresh : ∀ v, version = some v → u.fresh = some v)
    (hsite : op.site.looks = false) (hholder : op.call.holder p s.holder = s.holder)
    (hreplaces : op.replacement live s.world = some version)
    (hissued : (exec host .none op s.world).2.issued = s.world.issued)
    (hfile : ((exec host .none op s.world).2.files live).map File.version = version) :
    Inv host live (Shared.step host live p op s).2
      (update views p (some (u.written base version))) := by
  obtain ⟨hcurrent, hread⟩ := h.content.based p u base hp hu hw hb
  have hread' : (Shared.step host live p op s).2.read = s.read := step_read_blind hsite
  have hcurrent' : (Shared.step host live p op s).2.current = version := by
    simp [Shared.step, Shared.record, hreplaces]
  have hhistory : (Shared.step host live p op s).2.history =
      s.history ++ [⟨p, s.read p, s.current, version⟩] := by
    simp [Shared.step, Shared.record, hreplaces]
  have hholder' : (Shared.step host live p op s).2.holder = s.holder := hholder
  subst hcurrent
  refine ⟨?_, ?_, ?_⟩
  · rw [hholder']
    exact h.owners.keep hp rfl fun _ => hu
  · exact h.ledger.write hp hfresh hread hcurrent' hhistory hissued
  · refine h.content.update (fun _ _ => hfile.trans hcurrent'.symm)
      (fun base _ hnone _ => by cases hnone) fun q v hq hv hne => ?_
    exact absurd (h.owners.sole q p v u hv hp hne hu) hq

theorem Inv.refused (h : Inv host live s views) (hp : views p = some u)
    (hsite : op.site.looks = false) (hholder : op.call.holder p s.holder = s.holder)
    (hreplaces : op.replacement live s.world = none)
    (hworld : (exec host .none op s.world).2 = s.world) :
    Inv host live (Shared.step host live p op s).2 (update views p (some u)) := by
  obtain ⟨hcurrent, hhistory⟩ : (Shared.step host live p op s).2.current = s.current ∧
      (Shared.step host live p op s).2.history = s.history := step_unrecorded hreplaces
  have hworld' : (Shared.step host live p op s).2.world = s.world := hworld
  have hholder' : (Shared.step host live p op s).2.holder = s.holder := hholder
  refine ⟨?_, ?_, ?_⟩
  · rw [hholder']
    exact h.owners.keep hp rfl (h.owners.moved p u hp)
  · exact h.ledger.keep hp hcurrent hhistory (step_issued op) rfl rfl
  · refine h.content.keep hp (by rw [hworld']) hcurrent (fun q hq => step_read_other hq) rfl
      fun base hne hw hb => ?_
    rw [step_read_blind hsite]
    exact h.content.based p u base hp hne hw hb

theorem Inv.looked (h : Inv host live s views) (hp : views p = some u) (hcall : op.call.Passive)
    (hsite : op.site.looks = true) (hown : u.holding ≠ .nothing ∨ Free views)
    (hm : u.moved = false) (hmutex : u'.holding = .mutex ↔ s.holder = some p)
    (hmoved : u'.moved = false) (hfresh : u'.fresh = u.fresh) (hwrote : u'.wrote = u.wrote)
    (hbase : ∀ base, u'.base = some base → (s.world.files live).map File.version = base) :
    Inv host live (Shared.step host live p op s).2 (update views p (some u')) := by
  have havoids : op.call.Avoids live := permits_avoids live id op.site.stage op.site op.call rfl hcall
  have hholder : (Shared.step host live p op s).2.holder = s.holder := by
    obtain ⟨site, call⟩ := op
    cases call with
    | lock => exact hcall.elim
    | unlock => exact hcall.elim
    | _ => rfl
  have hfile : (Shared.step host live p op s).2.world.files live = s.world.files live :=
    havoids.exec s.world
  have hread : (Shared.step host live p op s).2.read p = (s.world.files live).map File.version := by
    simp [Shared.step, hsite]
  obtain ⟨hcurrent, hhistory⟩ : (Shared.step host live p op s).2.current = s.current ∧
      (Shared.step host live p op s).2.history = s.history :=
    step_unrecorded (replacement_of_avoids havoids s.world)
  refine ⟨?_, ?_, ?_⟩
  · rw [hholder]
    refine h.owners.update hp hmutex (fun _ _ => Iff.rfl) (fun _ => hown) fun hmoved' => ?_
    cases hmoved.symm.trans hmoved'
  · exact h.ledger.keep hp hcurrent hhistory (step_issued op) hfresh hwrote
  · refine h.content.keep hp hfile hcurrent (fun q hq => step_read_other hq)
      (hmoved.trans hm.symm) fun base _ _ hb => ?_
    have hversion := h.file hp hm hown
    exact ⟨hversion.symm.trans (hbase base hb), hread.trans (hbase base hb)⟩

theorem Inv.draw (hids : Injective host.ids) (h : Inv host live s views)
    (hp : views p = some u) {site : Site} (hsite : site.looks = false) :
    Inv host live (Shared.step host live p ⟨site, .newId⟩ s).2
      (update views p (some { u with fresh := some (host.ids s.world.issued) })) := by
  have hread : (Shared.step host live p ⟨site, .newId⟩ s).2.read = s.read := step_read_blind hsite
  refine ⟨h.owners.keep hp rfl (h.owners.moved p u hp), h.ledger.draw hids hp rfl rfl rfl, ?_⟩
  refine h.content.keep hp rfl rfl (fun q hq => step_read_other hq) rfl fun base hne hw hb => ?_
  rw [hread]
  exact h.content.based p u base hp hne hw hb

theorem Inv.lock (h : Inv host live s views) (hp : views p = some u) (hnone : s.holder = none)
    (hfree : Free views) :
    Inv host live (Shared.step host live p ⟨.lock, .lock⟩ s).2
      (update views p (some { u with holding := .mutex, base := none })) := by
  refine ⟨?_, h.ledger.keep hp rfl rfl (Nat.le_refl _) rfl rfl, ?_⟩
  · refine h.owners.update hp ⟨fun _ => rfl, fun _ => rfl⟩ (fun q hq => ?_) (fun _ => .inr hfree)
      fun _ => by simp
    change some p = some q ↔ s.holder = some q
    simp [hnone, Ne.symm hq]
  · exact h.content.keep hp rfl rfl (fun q hq => step_read_other hq) rfl
      fun base _ _ hb => by cases hb

theorem Inv.unlock (h : Inv host live s views) (hp : views p = some u) (hu : u.holding = .mutex)
    (hm : u.moved = false) :
    Inv host live (Shared.step host live p ⟨.unlock, .unlock⟩ s).2
      (update views p (some { u with holding := .nothing, base := none })) := by
  have hholder : s.holder = some p := (h.owners.mutex p u hp).mp hu
  refine ⟨?_, h.ledger.keep hp rfl rfl (Nat.le_refl _) rfl rfl, ?_⟩
  · refine h.owners.update hp ⟨fun hne => (by cases hne), fun hne => by cases hne⟩ (fun q hq => ?_)
      (fun hne => absurd rfl hne) fun hmoved => ?_
    · change none = some q ↔ s.holder = some q
      simp [hholder, Ne.symm hq]
    · cases hm.symm.trans hmoved
  · exact h.content.keep hp rfl rfl (fun q hq => step_read_other hq) rfl
      fun base _ _ hb => by cases hb

theorem Inv.kept (h : Inv host live s views) (hp : views p = some u) (hu : u.holding ≠ .nothing)
    {site : Site} (hsite : site.looks = false) (hmove : site ≠ .softDeleteMove) (prev : Path) :
    Inv host live (Shared.step host live p ⟨site, .rename live prev⟩ s).2
      (update views p (some u.kept)) := by
  have hreplaces : Op.replacement live s.world ⟨site, .rename live prev⟩ = none := by
    simp [Op.replacement, hmove]
  obtain ⟨hcurrent, hhistory⟩ :
      (Shared.step host live p ⟨site, .rename live prev⟩ s).2.current = s.current ∧
        (Shared.step host live p ⟨site, .rename live prev⟩ s).2.history = s.history :=
    step_unrecorded hreplaces
  have hread : (Shared.step host live p ⟨site, .rename live prev⟩ s).2.read = s.read :=
    step_read_blind hsite
  refine ⟨h.owners.keep hp rfl fun _ => hu,
    h.ledger.keep hp hcurrent hhistory (step_issued _) rfl rfl, ?_⟩
  refine h.content.update (fun hm => by cases hm) (fun base hne hw hb => ?_) fun q v hq _ _ => ?_
  · rw [hcurrent, hread]
    exact h.content.based p u base hp hne hw hb
  · exact ⟨hcurrent, congrFun hread q⟩

theorem Inv.move {e : Engine} {coll docId : String} (hids : Injective host.ids)
    (h : Inv host (e.live coll docId) s views) (hp : views p = some u) {r : op.Answer}
    (hr : (Shared.step host (e.live coll docId) p op s).1 = r) (henabled : Enabled op s)
    (hlock : op.call = .lock → Free views)
    (hmigration : op.site = .migration .readLive → s.world.Stale e coll docId →
      s.holder = none ∧ Free views)
    (hforeign : op.site.foreign = true → op.call.Avoids (e.live coll docId)) {v' : Option View}
    (hmove : Move e coll (e.live coll docId) (some u) op r v') :
    ∃ u', v' = some u' ∧ Inv host (e.live coll docId)
      (Shared.step host (e.live coll docId) p op s).2 (update views p (some u')) := by
  cases hmove with
  | faulty hf => exact absurd hr (hf ν host s.world)
  | quiet haside hsite => exact ⟨_, rfl, h.aside hp haside hforeign (.inl ⟨rfl, hsite⟩)⟩
  | glance haside => exact ⟨_, rfl, h.aside hp haside hforeign (.inr rfl)⟩
  | draw hsite version =>
    cases hr
    exact ⟨_, rfl, h.draw hids hp hsite⟩
  | lock => exact ⟨_, rfl, h.lock hp (henabled rfl) (hlock rfl)⟩
  | unlock hu hm => exact ⟨_, rfl, h.unlock hp hu hm⟩
  | found hu hm file =>
    have hfile := exec_readFile_ok hr
    refine ⟨_, rfl, h.looked hp trivial rfl (.inl (by simp [hu])) hm
      (h.owners.mutex p u hp) hm rfl rfl fun base hb => ?_⟩
    cases hb
    rw [hfile]
    rfl
  | absent hu hm err =>
    have hfile := exec_stat_error hr
    refine ⟨_, rfl, h.looked hp trivial rfl (.inl (by simp [hu])) hm
      (h.owners.mutex p u hp) hm rfl rfl fun base hb => ?_⟩
    cases hb
    rw [hfile]
    rfl
  | @migrate _ hu doc hstale =>
    have hfile := exec_readFile_ok hr
    obtain ⟨hnone, hfree⟩ := hmigration rfl ⟨doc, hfile, hstale⟩
    have hm : u.moved = false := by
      cases hmoved : u.moved with
      | false => rfl
      | true => exact absurd hu (h.owners.moved p u hp hmoved)
    refine ⟨_, rfl, h.looked hp trivial rfl (.inr hfree) hm ?_ hm rfl rfl fun base hb => ?_⟩
    · simp [View.migrating, hnone]
    · cases hb
      rw [hfile]
      rfl
  | keep hu hsite hmove => exact ⟨_, rfl, h.kept hp hu hsite hmove _⟩
  | @unkept _ site hsite prev err =>
    obtain ⟨hfile, hworld⟩ := exec_rename_error hr
    exact ⟨_, rfl, h.refused hp hsite rfl (by simp [Op.replacement, hfile]) hworld⟩
  | @install _ base doc hu hw hb hf site hsite =>
    refine ⟨_, rfl, h.replaced hp hu hw hb (fun v hv => ?_) hsite rfl ?_ rfl ?_⟩
    · rw [hf, hv]
    · simp [Op.replacement, File.version]
    · simp [exec, Call.apply, File.version]
  | remove hu hw hb =>
    obtain ⟨hfile, hworld⟩ := exec_remove_ok hr
    refine ⟨_, rfl, h.replaced hp hu hw hb (by simp) rfl rfl ?_ ?_ ?_⟩
    · simp [Op.replacement, Option.isSome_iff_ne_none, hfile]
    · rw [hworld]
      rfl
    · rw [hworld]
      simp
  | unremoved =>
    obtain ⟨hfile, hworld⟩ := exec_remove_error hr
    exact ⟨_, rfl, h.refused hp rfl rfl (by simp [Op.replacement, hfile]) hworld⟩
  | moveAway hu hw hb hprev =>
    obtain ⟨hfile, hworld⟩ := exec_rename_ok hr
    refine ⟨_, rfl, h.replaced hp hu hw hb (by simp) rfl rfl ?_ ?_ ?_⟩
    · simp [Op.replacement, Option.isSome_iff_ne_none, hfile]
    · rw [hworld]
      rfl
    · rw [hworld, World.move_files_source _ hprev.symm]
      rfl
end
section
variable {P ν : Type} {e : Engine} {host : Host ν} {coll docId : String}
variable {pool : Writers P ν} {views : P → Option View}
theorem inFlight_of_migration (hfollow : pool.Follow Allowed (Advances e coll (e.live coll docId))
      (fun v a => ∀ u, v = some u → Finished u a) views) {q : P} {u : View}
    (hq : views q = some u) (hu : u.holding = .migration) : pool.InFlight q := by
  have hprog := hfollow q
  cases hcall : pool.procs q with
  | done a =>
    rw [hcall] at hprog
    have hfinished : Finished u a := hprog u hq
    have hnothing : u.holding = .nothing := by
      cases a with
      | none => exact hfinished
      | some res => exact hfinished.1
    cases hu.symm.trans hnothing
  | call op next =>
    rw [hcall, hq] at hprog
    exact ⟨op, next, hcall, hprog.1 hu⟩

theorem free_of_exclusive (hfollow : pool.Follow Allowed (Advances e coll (e.live coll docId))
      (fun v a => ∀ u, v = some u → Finished u a) views)
    (howners : Owners pool.shared.holder views) (hnone : pool.shared.holder = none)
    (hflight : ∀ q, ¬ pool.InFlight q) : Free views := by
  intro q u hq
  cases hu : u.holding with
  | nothing => rfl
  | mutex =>
    have hholder := (howners.mutex q u hq).mp hu
    cases hnone.symm.trans hholder
  | migration => exact absurd (inFlight_of_migration hfollow hq hu) (hflight q)

theorem inv_start (jobs : P → Job) {w : World ν}
    (hfirst : ∀ file, w.files (e.live coll docId) = some file →
      Unissued host w.issued file.version) :
    Inv host (e.live coll docId) (Writers.start e coll docId jobs w).shared
      (fun _ => some View.start) := by
  refine ⟨?_, ?_, ?_⟩
  · refine ⟨fun p => ⟨_, rfl⟩, fun p u hu => ?_, fun p q u v hu _ hne => ?_, fun p u hu hm => ?_⟩
    · cases hu
      exact ⟨fun h => (by cases h), fun h => by cases h⟩
    · cases hu
      exact absurd rfl hne
    · cases hu
      cases hm
  · refine ⟨fun p u v hu hf => ?_, fun p q u v x hu _ hf => ?_, fun p u b a hu hw => ?_,
      fun write hmem => ?_, ?_, fun v _ hmem => ?_, fun v hv => ?_⟩
    · cases hu
      cases hf
    · cases hu
      cases hf
    · cases hu
      cases hw
    · cases hmem
    · exact List.nodup_nil
    · cases hmem
    · rcases hv with hmem | hcurrent
      · cases hmem
      · obtain ⟨file, hfile, rfl⟩ := Option.map_eq_some_iff.mp hcurrent
        exact hfirst file hfile
  · refine ⟨fun _ => rfl, fun p u b hu hne => ?_⟩
    cases hu
    exact absurd rfl hne

variable [DecidableEq P]
theorem inv_step (hids : Injective host.ids) {p : P} {op : Op} {v' : Option View}
    (hfollow : pool.Follow Allowed (Advances e coll (e.live coll docId))
      (fun v a => ∀ u, v = some u → Finished u a) views)
    (hinv : Inv host (e.live coll docId) pool.shared views) (henabled : Enabled op pool.shared)
    (hguard : Serialized e coll docId pool p op)
    (hnext : Advances e coll (e.live coll docId) (views p) op
      (Shared.step host (e.live coll docId) p op pool.shared).1 v') :
    Inv host (e.live coll docId)
      (Shared.step host (e.live coll docId) p op pool.shared).2 (update views p v') := by
  obtain ⟨u, hu⟩ := hinv.owners.alive p
  have hfree : pool.shared.holder = none → (∀ q, ¬ pool.InFlight q) → Free views :=
    free_of_exclusive hfollow hinv.owners
  have hmoves : ∀ v', Move e coll (e.live coll docId) (views p) op
      (Shared.step host (e.live coll docId) p op pool.shared).1 v' →
      ∃ u', v' = some u' ∧ Inv host (e.live coll docId)
        (Shared.step host (e.live coll docId) p op pool.shared).2
        (update views p (some u')) := by
    intro v' hmove
    rw [hu] at hmove
    refine hinv.move hids hu rfl henabled (fun hl => hfree (henabled hl) (hguard.lock hl))
      (fun hsite hstale => ?_) hguard.foreign hmove
    obtain ⟨hnone, hflight⟩ := hguard.migration hsite hstale
    exact ⟨hnone, hfree hnone hflight⟩
  rcases hnext with hmove | ⟨u', hmove, hmoved, rfl⟩
  · obtain ⟨u', rfl, hinv'⟩ := hmoves v' hmove
    exact hinv'
  · obtain ⟨u'', heq, hinv'⟩ := hmoves (some u') hmove
    cases heq
    exact hinv'.released hmoved

/-- In every interleaving of requests and migrations of one document in which no migration is in
flight next to a holder of the mutex or another migration, no update is lost. -/
theorem no_lost_update_serialized (hc : e.cfg.Configured coll) (hid : DocumentId docId)
    (hids : Injective host.ids) (jobs : P → Job) {w : World ν}
    (hfirst : ∀ file, w.files (e.live coll docId) = some file →
      Unissued host w.issued file.version) {pool : Writers P ν}
    (hreach : Pool.Reach (Shared.step host (e.live coll docId)) Enabled
      (Serialized e coll docId) (Writers.start e coll docId jobs w) pool) :
    NoLostUpdate pool := by
  have hstart : (Writers.start e coll docId jobs w).Follow Allowed
      (Advances e coll (e.live coll docId))
      (fun v a => ∀ u, v = some u → Finished u a) (fun _ => some View.start) :=
    fun p => runs_job hc hid (jobs p)
  obtain ⟨views, hfollow, hinv⟩ := Pool.reach_invariant
    (fun _ _ _ _ _ _ hfollow hinv _ henabled hguard _ hnext =>
      inv_step hids hfollow hinv henabled hguard hnext) hreach hstart (inv_start jobs hfirst)
  have hwrote : ∀ p before after, pool.Acknowledged p before after →
      ∃ write ∈ pool.shared.history, write.writer = p ∧ write.replaced = some before ∧
        write.version = some after := by
    rintro p before after ⟨res, hdone, hok, hversions⟩
    obtain ⟨u, hu⟩ := hinv.owners.alive p
    have hend := hfollow p
    rw [hdone] at hend
    have hfinished : Settled u res := hend u hu
    exact hinv.ledger.reported p u _ _ hu (hfinished.2 before after hok hversions)
  refine ⟨hinv.ledger.once, hwrote, fun p before after _ write hmem hreplaced => ?_⟩
  rw [hinv.ledger.seen write hmem, hreplaced]
end
namespace Sample
def upgradingServer : Engine :=
  { server with cfg := { config with schemaUpdateHistory := [("Movies", [(1, upgrade "0" [addYear])])] } }

def laggingWorld : World Unit :=
  emptyWorld.put (upgradingServer.live "Movies" "alien") (some (.json (.obj
    [("!", .str "alien"), ("$", .str "Movies:0"), ("#", .str "old"), ("title", .str "Alien")])))

def jobs : Bool → Job
  | true => .request .patch (patchRequest "old").detail true
  | false => .migration

def writers : Writers Bool Unit := Writers.start upgradingServer "Movies" "alien" jobs laggingWorld

def writerStep : Bool → Handler Op Op.Answer (Shared Bool Unit) :=
  Shared.step host (upgradingServer.live "Movies" "alien")

theorem laggingWorld_unissued (file : File)
    (h : laggingWorld.files (upgradingServer.live "Movies" "alien") = some file) :
    Unissued host laggingWorld.issued file.version := by
  rw [laggingWorld, World.put_files_same, Option.some.injEq] at h
  subst h
  intro k _ heq
  have hlist := congrArg String.toList heq
  have hold : (File.version (.json (.obj [("!", .str "alien"), ("$", .str "Movies:0"),
      ("#", .str "old"), ("title", .str "Alien")]))).toList = ['o', 'l', 'd'] := rfl
  rw [hold] at hlist
  simp [host] at hlist

def overtaken : Writers Bool Unit :=
  ((writers.turn writerStep false).alone writerStep true).alone writerStep false

def runsFreely (pool : Writers Bool Unit) (p : Bool) : Bool :=
  ((pool.procs p).stops (writerStep p) pool.shared).all fun stop =>
    decide (Enabled stop.1 stop.2)

def patchApart (stop : Op × Shared Bool Unit) : Bool :=
  decide (Enabled stop.1 stop.2 ∧ stop.1.site.inMigration = false ∧
    stop.1.site ≠ .migration .readLive ∧ (stop.1.site.foreign = true →
      stop.1.call.Avoids (upgradingServer.live "Movies" "alien")))

theorem writers_run : runsFreely (writers.turn writerStep false) true = true ∧
      runsFreely ((writers.turn writerStep false).alone writerStep true) false = true ∧
      (((writers.turn writerStep false).procs true).run (writerStep true)
        (writers.turn writerStep false).shared).1.map (fun res => (res.ok, res.versions)) =
          some (true, some ("old", "v0")) ∧
      (overtaken.shared.history.any fun write =>
        decide (write.replaced = some "v0" ∧ write.base ≠ some "v0")) = true ∧
      ((writers.procs true).stops (writerStep true) writers.shared).all patchApart = true := by
  decide +kernel

theorem reach_overtaken : Pool.Reach writerStep Enabled (fun _ _ _ => True) writers overtaken := by
  have hfirst : Pool.Reach writerStep Enabled (fun _ _ _ => True) writers
      (writers.turn writerStep false) := by
    refine Pool.reach_turn fun op next hcall => ⟨?_, trivial⟩
    cases hcall
    exact fun h => by cases h
  have halone : ∀ (pool : Writers Bool Unit) p, runsFreely pool p = true →
      Pool.Reach writerStep Enabled (fun _ _ _ => True) pool (pool.alone writerStep p) := by
    intro pool p hall
    refine Pool.reach_alone fun op next t hstop => ⟨?_, trivial⟩
    exact of_decide_eq_true (List.all_eq_true.mp hall (op, t) hstop)
  obtain ⟨hpatch, hmigration, -⟩ := writers_run
  exact (hfirst.trans (halone _ true hpatch)).trans (halone _ false hmigration)

theorem overtaken_acknowledged : overtaken.Acknowledged true "old" "v0" := by
  obtain ⟨-, -, hanswer, -⟩ := writers_run
  obtain ⟨res, hres, hfields⟩ := Option.map_eq_some_iff.mp hanswer
  obtain ⟨hok, hversions⟩ := Prod.mk.injEq _ _ _ _ ▸ hfields
  refine ⟨res, ?_, hok, hversions⟩
  rw [overtaken, Pool.alone_procs_other _ (by decide), Pool.alone_procs_self, hres]

theorem patch_serialized {op : Op} {next : op.Answer → Prog (Option Result)} {t : Shared Bool Unit}
    (hstop : (op, t) ∈ (writers.procs true).stops (writerStep true) writers.shared) :
    Enabled op t ∧ Serialized upgradingServer "Movies" "alien"
      ⟨update writers.procs true (.call op next), t⟩ true op := by
  obtain ⟨-, -, -, -, hall⟩ := writers_run
  obtain ⟨henabled, hsite, hread, hforeign⟩ :=
    of_decide_eq_true (List.all_eq_true.mp hall (op, t) hstop)
  refine ⟨henabled, fun _ q hflight => ?_, fun heq => absurd heq hread, hforeign⟩
  obtain ⟨op', next', hcall, hin⟩ := hflight
  cases q with
  | true =>
    have hself : update writers.procs true (.call op next) true = .call op next :=
      update_self _ _ _
    cases hself.symm.trans hcall
    cases hsite.symm.trans hin
  | false =>
    have hother : update writers.procs true (.call op next) false =
        writers.procs false := update_of_ne (by decide : false ≠ true) _ _
    cases hother.symm.trans hcall
    cases hin
end Sample
open Sample
theorem no_lost_update_serialized_patch : NoLostUpdate (writers.alone writerStep true) :=
  no_lost_update_serialized (by decide) alien_id host_injective jobs laggingWorld_unissued
    (Pool.reach_alone fun _ _ _ hstop => patch_serialized hstop)

/-- A patch replaces the document a migration has read, and the migration replaces the patched one.
-/
theorem no_lost_update_fails : Injective host.ids ∧
      (∀ file, laggingWorld.files (upgradingServer.live "Movies" "alien") = some file →
        Unissued host laggingWorld.issued file.version) ∧
      ∃ pool, Pool.Reach writerStep Enabled (fun _ _ _ => True) writers pool ∧
        ¬ NoLostUpdate pool := by
  refine ⟨host_injective, laggingWorld_unissued, overtaken, reach_overtaken, fun h => ?_⟩
  have hseen := h.seen true "old" "v0" overtaken_acknowledged
  obtain ⟨-, -, -, hlost, -⟩ := writers_run
  obtain ⟨write, hmem, hwrite⟩ := List.any_eq_true.mp hlost
  obtain ⟨hreplaced, hbase⟩ := of_decide_eq_true hwrite
  exact hbase (hseen write hmem hreplaced)

/-! ## Patches of a document that is behind -/

section
variable {ν : Type} {e : Engine} {w : World ν} {schemaRaw : Json} {doc : JsonFields}
end
namespace Sample
def addGenre : JsonFields :=
  [("op", .str "add"), ("path", .str "/genre"), ("schema", .obj [("kind", .str "string")]),
    ("failover", .str "horror")]

def genreServer : Engine :=
  { server with
      cfg := { config with schemaUpdateHistory := [("Movies", [(1, upgrade "0" [addGenre])])] } }

def retitleLagging : Request :=
  ⟨.patch, "Movies", "alien", [("#", .str "old"), ("$", .str "Movies:1"),
      ("RFC6902", .arr [.obj [("op", .str "replace"), ("path", .str "/title"),
        ("value", .str "Aliens")]])], true⟩

def patchedLagging (req : Request) : Result × World Unit :=
  (patch genreServer req).run (exec host .none) laggingWorld

def retitled (key : String) : String :=
  match (patchedLagging retitleLagging).2.files (genreServer.live "Movies" "alien") with
  | some (.json doc) => Json.asString (doc.get? key)
  | _ => ""
end Sample

end Datorium
