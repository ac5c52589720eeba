
import Datorium.Engine.Writers
import Datorium.Framework.Pool
/-! # The ledger of the writers -/
namespace Datorium
open Framework
structure Write (P : Type) where
  writer : P
  base : Option String
  replaced : Option String
  version : Option String

structure Shared (P ν : Type) where
  world : World ν
  holder : Option P
  read : P → Option String
  current : Option String
  history : List (Write P)

def Call.holder {P : Type} (p : P) (before : Option P) : Call → Option P
  | .lock => some p
  | .unlock => none
  | _ => before

def Op.replacement {ν : Type} (live : Path) (w : World ν) (op : Op) : Option (Option String) :=
  let deletes (path : Path) : Bool :=
    op.site = .softDeleteMove ∧ path = live ∧ (w.files live).isSome
  match op.call with
  | .install path file => if path = live then some (some file.version) else none
  | .remove path => if deletes path then some none else none
  | .rename path _ => if deletes path then some none else none
  | _ => none

namespace Shared
variable {P ν : Type}
def start (live : Path) (w : World ν) : Shared P ν :=
  ⟨w, none, fun _ => none, (w.files live).map File.version, []⟩

def Spent (s : Shared P ν) (version : String) : Prop :=
  version ∈ s.history.filterMap Write.replaced ∨ s.current = some version

variable [DecidableEq P]
/-- Enter a write of `p` in the ledger. -/
def record (s : Shared P ν) (p : P) : Option (Option String) → Shared P ν
  | none => s
  | some version =>
    { s with current := version,
             history := s.history ++ [⟨p, s.read p, s.current, version⟩] }

def step (host : Host ν) (live : Path) (p : P) : Handler Op Op.Answer (Shared P ν) := fun op s =>
  let out := exec host .none op s.world
  (out.1, { s.record p (op.replacement live s.world) with
    world := out.2,
    holder := op.call.holder p s.holder,
    read := if op.site.looks then
        Function.update s.read p ((s.world.files live).map File.version)
      else s.read })
end Shared

def Enabled {P ν : Type} (op : Op) (s : Shared P ν) : Prop := op.call = .lock → s.holder = none

def Call.isLock : Call → Bool
  | .lock => true
  | _ => false

theorem Call.isLock_iff (call : Call) : call.isLock = true ↔ call = .lock := by
  cases call <;> simp [Call.isLock]

instance (call : Call) : Decidable (call = .lock) := decidable_of_iff _ call.isLock_iff

instance {P ν : Type} (op : Op) (s : Shared P ν) : Decidable (Enabled op s) :=
  inferInstanceAs (Decidable (_ → _))

abbrev Writers (P ν : Type) := Pool P Op Op.Answer (Shared P ν) (Option Result)

def Writers.start {P ν : Type} (e : Engine) (collection docId : String) (jobs : P → Job)
    (w : World ν) : Writers P ν :=
  ⟨fun p => (jobs p).prog e collection docId, .start (e.live collection docId) w⟩

def Writers.InFlight {P ν : Type} (pool : Writers P ν) (p : P) : Prop :=
  ∃ op next, pool.procs p = .call op next ∧ op.site.inMigration = true

def World.Stale {ν : Type} (e : Engine) (collection docId : String) (w : World ν) : Prop :=
  ∃ doc, w.files (e.live collection docId) = some (.json (.obj doc)) ∧
    needsMigration e.cfg collection doc = true

/-- A migration is in flight only while nobody holds the mutex and no other migration is. -/
structure Serialized {P ν : Type} (e : Engine) (collection docId : String) (pool : Writers P ν)
    (_p : P) (op : Op) : Prop where
  lock : op.call = .lock → ∀ q, ¬ pool.InFlight q
  migration : op.site = .migration .readLive → pool.shared.world.Stale e collection docId →
    pool.shared.holder = none ∧ ∀ q, ¬ pool.InFlight q
  foreign : op.site.foreign = true → op.call.Avoids (e.live collection docId)

/-- The process has answered a patch that replaced `before` by `after`. -/
def Writers.Acknowledged {P ν : Type} (pool : Writers P ν) (p : P) (before after : String) : Prop :=
  ∃ res, pool.procs p = .done (some res) ∧ res.ok = true ∧ res.versions = some (before, after)

/-- A version is replaced at most once, an acknowledged patch replaced the version it reports, and
whoever replaces the version it left had read it. -/
structure NoLostUpdate {P ν : Type} (pool : Writers P ν) : Prop where
  once : (pool.shared.history.filterMap Write.replaced).Nodup
  reported : ∀ p before after, pool.Acknowledged p before after →
    ∃ write ∈ pool.shared.history, write.writer = p ∧ write.replaced = some before ∧
      write.version = some after
  seen : ∀ p before after, pool.Acknowledged p before after →
    ∀ write ∈ pool.shared.history, write.replaced = some after → write.base = some after

section
variable {P ν : Type} [DecidableEq P] {host : Host ν} {live : Path} {s s' : Shared P ν}
  {views : P → Option View} {p : P} {u u' : View}
theorem update_cases {q : P} {v : View} (h : Function.update views p (some u') q = some v) :
    q = p ∧ v = u' ∨ q ≠ p ∧ views q = some v := by
  by_cases hq : q = p
  · subst hq
    rw [Function.update_self, Option.some.injEq] at h
    exact .inl ⟨rfl, h.symm⟩
  · rw [Function.update_of_ne hq] at h
    exact .inr ⟨hq, h⟩

structure Owners (holder : Option P) (views : P → Option View) : Prop where
  alive : ∀ p, ∃ u, views p = some u
  mutex : ∀ p u, views p = some u → (u.holding = .mutex ↔ holder = some p)
  sole : ∀ p q u v, views p = some u → views q = some v → u.holding ≠ .nothing →
    v.holding ≠ .nothing → p = q
  moved : ∀ p u, views p = some u → u.moved = true → u.holding ≠ .nothing

def Free (views : P → Option View) : Prop := ∀ p u, views p = some u → u.holding = .nothing

theorem Owners.update {holder holder' : Option P} (h : Owners holder views) (hp : views p = some u)
    (hmutex : u'.holding = .mutex ↔ holder' = some p)
    (hothers : ∀ q, q ≠ p → (holder' = some q ↔ holder = some q))
    (hsole : u'.holding ≠ .nothing → u.holding ≠ .nothing ∨ Free views)
    (hmoved : u'.moved = true → u'.holding ≠ .nothing) :
    Owners holder' (Function.update views p (some u')) := by
  have hfirst : ∀ q v, q ≠ p → views q = some v → u'.holding ≠ .nothing → v.holding = .nothing := by
    intro q v hq hv hu'
    rcases hsole hu' with hu | hfree
    · by_contra hne
      exact hq (h.sole q p v u hv hp hne hu)
    · exact hfree q v hv
  constructor
  · intro q
    by_cases hq : q = p
    · exact ⟨u', by rw [hq, Function.update_self]⟩
    · rw [Function.update_of_ne hq]
      exact h.alive q
  · intro q v hv
    rcases update_cases hv with ⟨rfl, rfl⟩ | ⟨hq, hv⟩
    · exact hmutex
    · exact (h.mutex q v hv).trans (hothers q hq).symm
  · intro q r v v' hv hv' hne hne'
    rcases update_cases hv with ⟨rfl, rfl⟩ | ⟨hq, hvq⟩
    · rcases update_cases hv' with ⟨rfl, rfl⟩ | ⟨hr, hv'⟩
      · rfl
      · exact absurd (hfirst r v' hr hv' hne) hne'
    · rcases update_cases hv' with ⟨rfl, rfl⟩ | ⟨hr, hv'⟩
      · exact absurd (hfirst q v hq hvq hne') hne
      · exact h.sole q r v v' hvq hv' hne hne'
  · intro q v hv
    rcases update_cases hv with ⟨rfl, rfl⟩ | ⟨-, hv⟩
    · exact hmoved
    · exact h.moved q v hv

theorem Owners.keep {holder : Option P} (h : Owners holder views) (hp : views p = some u)
    (hu : u'.holding = u.holding) (hmoved : u'.moved = true → u.holding ≠ .nothing) :
    Owners holder (Function.update views p (some u')) := by
  refine h.update hp ?_ (fun _ _ => Iff.rfl) (fun hne => .inl (hu ▸ hne)) (fun hm => hu ▸ hmoved hm)
  rw [hu]
  exact h.mutex p u hp

def Unissued (host : Host ν) (issued : Nat) (version : String) : Prop :=
  ∀ k, issued ≤ k → host.ids k ≠ version

theorem Unissued.mono {n m : Nat} {version : String} (h : Unissued host n version) (hnm : n ≤ m) :
    Unissued host m version := fun k hk => h k (Nat.le_trans hnm hk)

structure Ledger (host : Host ν) (s : Shared P ν) (views : P → Option View) : Prop where
  fresh : ∀ p u version, views p = some u → u.fresh = some version →
    ¬ s.Spent version ∧ Unissued host s.world.issued version
  apart : ∀ p q u v version, views p = some u → views q = some v → u.fresh = some version →
    v.fresh = some version → p = q
  reported : ∀ p u base after, views p = some u → u.wrote = some (base, after) →
    ∃ write ∈ s.history, write.writer = p ∧ write.replaced = base ∧ write.version = after
  seen : ∀ write ∈ s.history, write.base = write.replaced
  once : (s.history.filterMap Write.replaced).Nodup
  last : ∀ version, s.current = some version → version ∉ s.history.filterMap Write.replaced
  spent : ∀ version, s.Spent version → Unissued host s.world.issued version

theorem Ledger.keep (h : Ledger host s views) (hp : views p = some u)
    (hcurrent : s'.current = s.current) (hhistory : s'.history = s.history)
    (hissued : s.world.issued ≤ s'.world.issued) (hfresh : u'.fresh = u.fresh)
    (hwrote : u'.wrote = u.wrote) : Ledger host s' (Function.update views p (some u')) := by
  have hspent : ∀ version, s'.Spent version ↔ s.Spent version := by
    intro version
    rw [Shared.Spent, Shared.Spent, hcurrent, hhistory]
  have hview : ∀ q v, Function.update views p (some u') q = some v →
      ∃ v', views q = some v' ∧ v.fresh = v'.fresh ∧ v.wrote = v'.wrote := by
    intro q v hv
    rcases update_cases hv with ⟨rfl, rfl⟩ | ⟨-, hv⟩
    · exact ⟨u, hp, hfresh, hwrote⟩
    · exact ⟨v, hv, rfl, rfl⟩
  constructor
  · intro q v version hv hf
    obtain ⟨v', hv', hf', -⟩ := hview q v hv
    obtain ⟨hnew, hun⟩ := h.fresh q v' version hv' (hf' ▸ hf)
    exact ⟨mt (hspent version).mp hnew, hun.mono hissued⟩
  · intro q r v w version hv hw hf hg
    obtain ⟨v', hv', hf', -⟩ := hview q v hv
    obtain ⟨w', hw', hg', -⟩ := hview r w hw
    exact h.apart q r v' w' version hv' hw' (hf' ▸ hf) (hg' ▸ hg)
  · intro q v base after hv hwr
    obtain ⟨v', hv', -, hwr'⟩ := hview q v hv
    rw [hhistory]
    exact h.reported q v' base after hv' (hwr' ▸ hwr)
  · rw [hhistory]
    exact h.seen
  · rw [hhistory]
    exact h.once
  · rw [hhistory, hcurrent]
    exact h.last
  · intro version hv
    exact (h.spent version ((hspent version).mp hv)).mono hissued

theorem Ledger.draw (hids : Function.Injective host.ids) (h : Ledger host s views)
    (hp : views p = some u) (hcurrent : s'.current = s.current) (hhistory : s'.history = s.history)
    (hissued : s'.world.issued = s.world.issued + 1) :
    Ledger host s' (Function.update views p
      (some { u with fresh := some (host.ids s.world.issued) })) := by
  have hkeep : Ledger host s' (Function.update views p (some u)) :=
    h.keep hp hcurrent hhistory (by omega) rfl rfl
  have hself : Function.update views p (some u) = views := by
    rw [← hp, Function.update_eq_self]
  rw [hself] at hkeep
  have hnew : ∀ q v version, views q = some v → v.fresh = some version →
      host.ids s.world.issued ≠ version :=
    fun q v version hv hf => (h.fresh q v version hv hf).2 _ (Nat.le_refl _)
  refine ⟨?_, ?_, ?_, hkeep.seen, hkeep.once, hkeep.last, hkeep.spent⟩
  · intro q v version hv hf
    rcases update_cases hv with ⟨rfl, rfl⟩ | ⟨-, hv⟩
    · cases hf
      refine ⟨fun hspent => ?_, fun k hk heq => ?_⟩
      · have hold : s.Spent (host.ids s.world.issued) := by
          rwa [Shared.Spent, hcurrent, hhistory] at hspent
        exact h.spent _ hold _ (Nat.le_refl _) rfl
      · have := hids heq
        omega
    · exact hkeep.fresh q v version hv hf
  · intro q r v w version hv hw hf hg
    rcases update_cases hv with ⟨rfl, rfl⟩ | ⟨-, hvq⟩
    · rcases update_cases hw with ⟨rfl, rfl⟩ | ⟨-, hw⟩
      · rfl
      · cases hf
        exact absurd rfl (hnew r w _ hw hg)
    · rcases update_cases hw with ⟨rfl, rfl⟩ | ⟨-, hw⟩
      · cases hg
        exact absurd rfl (hnew q v _ hvq hf)
      · exact h.apart q r v w version hvq hw hf hg
  · intro q v base after hv hwr
    rcases update_cases hv with ⟨rfl, rfl⟩ | ⟨-, hv⟩
    · exact hkeep.reported q u base after hp hwr
    · exact hkeep.reported q v base after hv hwr

theorem Ledger.write (h : Ledger host s views) (hp : views p = some u) {version : Option String}
    (hfresh : ∀ v, version = some v → u.fresh = some v) (hread : s.read p = s.current)
    (hcurrent : s'.current = version)
    (hhistory : s'.history = s.history ++ [⟨p, s.read p, s.current, version⟩])
    (hissued : s'.world.issued = s.world.issued) :
    Ledger host s' (Function.update views p (some (u.written s.current version))) := by
  have hreplaced : ∀ v, v ∈ s'.history.filterMap Write.replaced ↔ s.Spent v := by
    intro v
    rw [hhistory, List.filterMap_append, List.mem_append, Shared.Spent]
    cases hc : s.current with
    | none => simp
    | some c => simp [eq_comm]
  have hspent : ∀ v, s'.Spent v ↔ s.Spent v ∨ version = some v := by
    intro v
    rw [Shared.Spent, hreplaced, hcurrent]
  constructor
  · intro q v version' hv hf
    rcases update_cases hv with ⟨rfl, rfl⟩ | ⟨hq, hv⟩
    · cases hf
    · obtain ⟨hnew, hun⟩ := h.fresh q v version' hv hf
      refine ⟨fun hs => ?_, hissued ▸ hun⟩
      rcases (hspent version').mp hs with hs | hs
      · exact hnew hs
      · exact hq (h.apart q p v u version' hv hp hf (hfresh version' hs))
  · intro q r v w version' hv hw hf hg
    rcases update_cases hv with ⟨rfl, rfl⟩ | ⟨-, hv⟩
    · cases hf
    · rcases update_cases hw with ⟨rfl, rfl⟩ | ⟨-, hw⟩
      · cases hg
      · exact h.apart q r v w version' hv hw hf hg
  · intro q v base after hv hwr
    rw [hhistory]
    rcases update_cases hv with ⟨rfl, rfl⟩ | ⟨-, hv⟩
    · cases hwr
      exact ⟨_, List.mem_append_right _ (List.mem_singleton.mpr rfl), rfl, rfl, rfl⟩
    · obtain ⟨write, hmem, hwrite⟩ := h.reported q v base after hv hwr
      exact ⟨write, List.mem_append_left _ hmem, hwrite⟩
  · intro write hmem
    rw [hhistory] at hmem
    rcases List.mem_append.mp hmem with hmem | hmem
    · exact h.seen write hmem
    · rw [List.mem_singleton.mp hmem]
      exact hread
  · rw [hhistory, List.filterMap_append]
    cases hc : s.current with
    | none => simpa using h.once
    | some c =>
      refine List.nodup_append.mpr ⟨h.once, by simp, ?_⟩
      intro v hv c' hc'
      rw [List.mem_singleton.mp hc']
      rintro rfl
      exact h.last v hc hv
  · intro v hv hmem
    rw [hcurrent] at hv
    exact (h.fresh p u v hp (hfresh v hv)).1 ((hreplaced v).mp hmem)
  · intro v hv
    rw [hissued]
    rcases (hspent v).mp hv with hold | hnew
    · exact h.spent v hold
    · exact (h.fresh p u v hp (hfresh v hnew)).2

/-- The live file has the current version unless it has been moved away. -/
structure Content (live : Path) (s : Shared P ν) (views : P → Option View) : Prop where
  settled : (∀ p u, views p = some u → u.moved = false) →
    (s.world.files live).map File.version = s.current
  based : ∀ p u base, views p = some u → u.holding ≠ .nothing → u.wrote = none →
    u.base = some base → s.current = base ∧ s.read p = base

theorem Content.update (h : Content live s views)
    (hsettled : u'.moved = false → (∀ q v, q ≠ p → views q = some v → v.moved = false) →
      (s'.world.files live).map File.version = s'.current)
    (hbased : ∀ base, u'.holding ≠ .nothing → u'.wrote = none → u'.base = some base →
      s'.current = base ∧ s'.read p = base)
    (hothers : ∀ q v, q ≠ p → views q = some v → v.holding ≠ .nothing →
      s'.current = s.current ∧ s'.read q = s.read q) :
    Content live s' (Function.update views p (some u')) := by
  constructor
  · intro hmoved
    refine hsettled (hmoved p u' (Function.update_self _ _ _)) fun q v hq hv => ?_
    exact hmoved q v (by rw [Function.update_of_ne hq]; exact hv)
  · intro q v base hv hne hw hb
    rcases update_cases hv with ⟨rfl, rfl⟩ | ⟨hq, hvq⟩
    · exact hbased base hne hw hb
    · obtain ⟨hcurrent, hread⟩ := hothers q v hq hvq hne
      rw [hcurrent, hread]
      exact h.based q v base hvq hne hw hb

theorem Content.keep (h : Content live s views) (hp : views p = some u)
    (hfile : s'.world.files live = s.world.files live) (hcurrent : s'.current = s.current)
    (hread : ∀ q, q ≠ p → s'.read q = s.read q) (hmoved : u'.moved = u.moved)
    (hbased : ∀ base, u'.holding ≠ .nothing → u'.wrote = none → u'.base = some base →
      s.current = base ∧ s'.read p = base) :
    Content live s' (Function.update views p (some u')) := by
  refine h.update (fun hm hothers => ?_) (fun base hne hw hb => ?_) fun q v hq _ _ =>
    ⟨hcurrent, hread q hq⟩
  · rw [hfile, hcurrent]
    refine h.settled fun q v hv => ?_
    by_cases hq : q = p
    · subst hq
      cases hp.symm.trans hv
      exact hmoved ▸ hm
    · exact hothers q v hq hv
  · rw [hcurrent]
    exact hbased base hne hw hb

structure Inv (host : Host ν) (live : Path) (s : Shared P ν) (views : P → Option View) : Prop where
  owners : Owners s.holder views
  ledger : Ledger host s views
  content : Content live s views

omit [DecidableEq P] in
theorem Inv.file (h : Inv host live s views) (hp : views p = some u) (hm : u.moved = false)
    (hown : u.holding ≠ .nothing ∨ Free views) :
    (s.world.files live).map File.version = s.current := by
  refine h.content.settled fun q v hv => ?_
  cases hmoved : v.moved with
  | false => rfl
  | true =>
    have hne := h.owners.moved q v hv hmoved
    rcases hown with hu | hfree
    · have hq : q = p := h.owners.sole q p v u hv hp hne hu
      subst hq
      cases hp.symm.trans hv
      rw [hm] at hmoved
      cases hmoved
    · exact absurd (hfree q v hv) hne

theorem Inv.released (h : Inv host live s (Function.update views p (some u)))
    (hm : u.moved = false) : Inv host live s (Function.update views p (some u.release)) := by
  have hp : Function.update views p (some u) p = some u := Function.update_self _ _ _
  have hidem : Function.update (Function.update views p (some u)) p (some u.release) =
      Function.update views p (some u.release) := Function.update_idem _ _ _
  have hne : u.release.holding ≠ .nothing → u.holding ≠ .nothing := by
    intro hne hu
    exact hne (by simp [View.release, hu])
  have hmutex : u.release.holding = .mutex ↔ u.holding = .mutex := by
    cases hu : u.holding <;> simp [View.release, hu]
  rw [← hidem]
  refine ⟨?_, ?_, ?_⟩
  · refine h.owners.update hp (hmutex.trans (h.owners.mutex p u hp)) (fun _ _ => Iff.rfl)
      (fun hr => .inl (hne hr)) fun hmoved => ?_
    cases hm.symm.trans hmoved
  · exact h.ledger.keep hp rfl rfl (Nat.le_refl _) rfl rfl
  · exact h.content.keep hp rfl rfl (fun _ _ => rfl) rfl fun base hr hw hb =>
      h.content.based p u base hp (hne hr) hw hb
end
end Datorium
