
import Datorium.Engine.StoredDocument
/-! # The protocol of the writers -/
namespace Datorium
open Framework
def File.version : File → String
  | .json doc => documentVersion doc
  | .bytes _ => ""

namespace Site
def inMigration : Site → Bool
  | .migration .readLive => false
  | .migration _ => true
  | _ => false

def looks : Site → Bool
  | .readLive | .statLive | .migration .readLive => true
  | _ => false

def foreign : Site → Bool
  | .pending _ | .cacheStub _ => true
  | _ => false

variable {site : Site}
theorem looks_eq_false (h : site.stage ≠ .deciding) : site.looks = false := by
  cases site with
  | readLive => exact absurd rfl h
  | statLive => exact absurd rfl h
  | migration inner =>
    cases inner with
    | readLive => exact absurd rfl h
    | _ => rfl
  | _ => rfl

theorem ne_readLive (h : site.looks = false) : site ≠ .readLive := by
  rintro rfl
  cases h

theorem inMigration_migration (h : site.looks = false) : (Site.migration site).inMigration = true := by
  cases site with
  | readLive => exact absurd rfl (ne_readLive h)
  | _ => rfl

theorem looks_migration (h : site.looks = false) : (Site.migration site).looks = false := by
  cases site with
  | readLive => exact absurd rfl (ne_readLive h)
  | _ => rfl
end Site

inductive Holding where
  | nothing
  | mutex
  | migration
  deriving DecidableEq

/-- How far a process has come. -/
structure View where
  holding : Holding
  base : Option (Option String)
  fresh : Option String
  moved : Bool
  wrote : Option (Option String × Option String)

namespace View
def start : View := ⟨.nothing, none, none, false, none⟩

def written (u : View) (base after : Option String) : View :=
  { u with fresh := none, moved := false, wrote := some (base, after) }

def kept (u : View) : View := { u with moved := true }

def migrating (u : View) (version : String) : View :=
  { u with holding := .migration, base := some (some version) }

def release (u : View) : View :=
  { u with holding := if u.holding = .migration then .nothing else u.holding }
end View

def Faulty (op : Op) (r : op.Answer) : Prop :=
  ∀ (ν : Type) (host : Host ν) (w : World ν), (exec host .none op w).1 ≠ r

structure Aside (live : Path) (op : Op) : Prop where
  avoids : op.call.Avoids live ∨ op.site.foreign = true
  notLock : op.call ≠ .lock
  notUnlock : op.call ≠ .unlock

inductive Move (e : Engine) (collection : String) (live : Path) :
    Option View → (op : Op) → op.Answer → Option View → Prop where
  | over (op : Op) (r : op.Answer) : Move e collection live none op r none
  | faulty {v : Option View} {op : Op} {r : op.Answer} (h : Faulty op r) :
      Move e collection live v op r none
  | quiet {u : View} {op : Op} {r : op.Answer} (h : Aside live op) (hsite : op.site.looks = false) :
      Move e collection live (some u) op r (some u)
  | glance {u : View} {op : Op} {r : op.Answer} (h : Aside live op) :
      Move e collection live (some u) op r (some { u with base := none })
  | draw {u : View} {site : Site} (hsite : site.looks = false) (version : String) :
      Move e collection live (some u) ⟨site, .newId⟩ (Except.ok version : Except FsError String)
        (some { u with fresh := some version })
  | lock {u : View} : Move e collection live (some u) ⟨.lock, .lock⟩ ()
        (some { u with holding := .mutex, base := none })
  | unlock {u : View} (hu : u.holding = .mutex) (hm : u.moved = false) :
      Move e collection live (some u) ⟨.unlock, .unlock⟩ ()
        (some { u with holding := .nothing, base := none })
  | found {u : View} (hu : u.holding = .mutex) (hm : u.moved = false) (file : File) :
      Move e collection live (some u) ⟨.readLive, .readFile live⟩
        (Except.ok file : Except FsError File) (some { u with base := some (some file.version) })
  | absent {u : View} (hu : u.holding = .mutex) (hm : u.moved = false) (err : FsError) :
      Move e collection live (some u) ⟨.statLive, .stat live⟩
        (Except.error err : Except FsError Unit) (some { u with base := some none })
  | migrate {u : View} (hu : u.holding = .nothing) {doc : JsonFields}
      (hstale : needsMigration e.cfg collection doc = true) :
      Move e collection live (some u) ⟨.migration .readLive, .readFile live⟩
        (Except.ok (.json (.obj doc)) : Except FsError File)
        (some (u.migrating (documentVersion (.obj doc))))
  | keep {u : View} (hu : u.holding ≠ .nothing) {site : Site} (hsite : site.looks = false)
      (hmove : site ≠ .softDeleteMove) {prev : Path} :
      Move e collection live (some u) ⟨site, .rename live prev⟩
        (Except.ok () : Except FsError Unit) (some u.kept)
  | unkept {u : View} {site : Site} (hsite : site.looks = false) {prev : Path} {err : FsError} :
      Move e collection live (some u) ⟨site, .rename live prev⟩
        (Except.error err : Except FsError Unit) (some u)
  | install {u : View} {base : Option String} {doc : Json} (hu : u.holding ≠ .nothing)
      (hw : u.wrote = none) (hb : u.base = some base) (hf : u.fresh = some (documentVersion doc))
      {site : Site} (hsite : site.looks = false) :
      Move e collection live (some u) ⟨site, .install live (.json doc)⟩
        (Except.ok () : Except FsError Unit) (some (u.written base (some (documentVersion doc))))
  | remove {u : View} {base : Option String} (hu : u.holding ≠ .nothing) (hw : u.wrote = none)
      (hb : u.base = some base) :
      Move e collection live (some u) ⟨.softDeleteMove, .remove live⟩
        (Except.ok () : Except FsError Unit) (some (u.written base none))
  | unremoved {u : View} {err : FsError} :
      Move e collection live (some u) ⟨.softDeleteMove, .remove live⟩
        (Except.error err : Except FsError Unit) (some u)
  | moveAway {u : View} {base : Option String} (hu : u.holding ≠ .nothing) (hw : u.wrote = none)
      (hb : u.base = some base) {prev : Path} (hprev : prev ≠ live) :
      Move e collection live (some u) ⟨.softDeleteMove, .rename live prev⟩
        (Except.ok () : Except FsError Unit) (some (u.written base none))

def Advances (e : Engine) (collection : String) (live : Path) (v : Option View) (op : Op)
    (r : op.Answer) (v' : Option View) : Prop :=
  Move e collection live v op r v' ∨
    ∃ u, Move e collection live v op r (some u) ∧ u.moved = false ∧ v' = some u.release

def Allowed : Option View → Op → Prop
  | none, _ => True
  | some u, op => u.holding = .migration → op.site.inMigration = true

section
variable {e : Engine} {coll : String} {live : Path} {α β : Type}
/-- The program follows the protocol from the view and ends as `Q` says. -/
def Runs (e : Engine) (collection : String) (live : Path) (Q : View → α → Prop) (p : Prog α)
    (u : View) : Prop :=
  p.Follows Allowed (Advances e collection live) (fun v a => ∀ u', v = some u' → Q u' a) (some u)

variable {Q : View → α → Prop} {u : View} {p : Prog α}
theorem follows_over (p : Prog α) :
    p.Follows Allowed (Advances e coll live) (fun v a => ∀ u', v = some u' → Q u' a) none := by
  induction p with
  | done a => exact fun u' hu' => by cases hu'
  | call op next ih => exact ⟨trivial, fun r => ⟨none, .inl (.over op r), ih r⟩⟩

theorem Runs.pure {a : α} (h : Q u a) : Runs e coll live Q (.done a) u := by
  intro u' hu'
  cases hu'
  exact h

theorem Runs.mono {R : View → α → Prop} (h : Runs e coll live Q p u)
    (hQR : ∀ u' a, Q u' a → R u' a) : Runs e coll live R p u :=
  Program.Follows.mono h fun a _ hv u' hu' => hQR u' a (hv u' hu')

theorem Runs.bind {R : View → β → Prop} {f : α → Prog β} (hp : Runs e coll live Q p u)
    (hf : ∀ a u', Q u' a → Runs e coll live R (f a) u') : Runs e coll live R (Program.bind p f) u := by
  refine Program.Follows.bind hp fun a v hv => ?_
  cases v with
  | none => exact follows_over _
  | some u' => exact hf a u' (hv u' rfl)

theorem Runs.call {Q : View → α → Prop} {op : Op} {next : op.Answer → Prog α} {u : View}
    (hallowed : u.holding = .migration → op.site.inMigration = true)
    (hnext : ∀ r, Faulty op r ∨ ∃ u', Move e coll live (some u) op r (some u') ∧
      Runs e coll live Q (next r) u') :
    Runs e coll live Q (.call op next) u := by
  refine ⟨hallowed, fun r => ?_⟩
  rcases hnext r with hfaulty | ⟨u', hmove, hrest⟩
  · exact ⟨none, .inl (.faulty hfaulty), follows_over _⟩
  · exact ⟨some u', .inl hmove, hrest⟩

theorem Runs.perform {site : Site} {call : Call} {Q : View → call.Answer → Prop}
    (hallowed : u.holding = .migration → site.inMigration = true)
    (hnext : ∀ r, Faulty ⟨site, call⟩ r ∨
      ∃ u', Move e coll live (some u) ⟨site, call⟩ r (some u') ∧ Q u' r) :
    Runs e coll live Q (Datorium.perform site call) u :=
  .call hallowed fun r => (hnext r).imp_right fun ⟨u', hmove, hQ⟩ => ⟨u', hmove, .pure hQ⟩

def QuietIn (live : Path) (u : View) (op : Op) : Prop :=
  Aside live op ∧ op.site.looks = false ∧ (u.holding = .migration → op.site.inMigration = true)

theorem Runs.quiet (hp : p.Only (QuietIn live u)) : Runs e coll live (fun u' _ => u' = u) p u := by
  induction p with
  | done a => exact .pure rfl
  | call op next ih =>
    obtain ⟨⟨haside, hlooks, hallowed⟩, hnext⟩ := hp
    exact .call hallowed fun r => .inr ⟨u, .quiet haside hlooks, ih r (hnext r)⟩

theorem Runs.released {R : View → α → Prop} (hp : Runs e coll live Q p u)
    (hcall : ∀ a, p ≠ .done a) (hQR : ∀ u' a, Q u' a → u'.moved = false ∧ R u'.release a) :
    Runs e coll live R p u := by
  induction p generalizing u with
  | done a => exact absurd rfl (hcall a)
  | call op next ih =>
    obtain ⟨hallowed, hnext⟩ := hp
    refine ⟨hallowed, fun r => ?_⟩
    obtain ⟨v', hadvance, hrest⟩ := hnext r
    cases v' with
    | none => exact ⟨none, hadvance, follows_over _⟩
    | some u' =>
      cases hr : next r with
      | call op' next' =>
        refine ⟨some u', hadvance, ?_⟩
        rw [← hr]
        exact ih r hrest (by simp [hr])
      | done a =>
        rw [hr] at hrest
        obtain ⟨hmoved, hR⟩ := hQR u' a (hrest u' rfl)
        rcases hadvance with hmove | ⟨u'', hmove, hmoved'', heq⟩
        · exact ⟨some u'.release, .inr ⟨u', hmove, hmoved, rfl⟩, Runs.pure hR⟩
        · -- Released already: releasing twice is releasing once.
          have htwice : u'.release = u' := by
            cases heq
            cases hh : u''.holding <;> simp [View.release, hh]
          rw [htwice] at hR
          exact ⟨some u', .inr ⟨u'', hmove, hmoved'', heq⟩, Runs.pure hR⟩
end

theorem faulty_prepare (site : Site) (step : WriteStep) (path : Path) (err : FsError) :
    Faulty ⟨site, .prepare step path⟩ (Except.error err : Except FsError Unit) := by
  intro ν host w h
  simp [exec, Call.apply] at h

theorem faulty_install (site : Site) (path : Path) (file : File) (err : FsError) :
    Faulty ⟨site, .install path file⟩ (Except.error err : Except FsError Unit) := by
  intro ν host w h
  simp [exec, Call.apply] at h

theorem faulty_newId (site : Site) (err : FsError) :
    Faulty ⟨site, .newId⟩ (Except.error err : Except FsError String) := by
  intro ν host w h
  simp [exec, Call.apply] at h

def Situated (place : Site → Site) (u : View) : Prop :=
  place = id ∧ u.holding = .mutex ∨ place = .migration ∧ u.holding = .migration

section
variable {e : Engine} {coll docId : String} {live : Path} {place : Site → Site} {u : View}
theorem Call.Passive.aside {site : Site} {call : Call} (h : call.Passive) :
    Aside live ⟨site, call⟩ where
  avoids := .inl (permits_avoids live id site.stage site call rfl h)
  notLock := by
    rintro rfl
    exact h
  notUnlock := by
    rintro rfl
    exact h

theorem quietIn_of_passive {site : Site} {call : Call} (h : call.Passive)
    (hsite : site.looks = false) (hu : u.holding ≠ .migration) : QuietIn live u ⟨site, call⟩ :=
  ⟨h.aside, hsite, fun hm => absurd hm hu⟩

theorem permits_quietIn (hu : u.holding ≠ .migration) {stage : Stage} (hstage : stage ≠ .deciding) :
    Permits (QuietIn live u) id stage := by
  intro site call hsite hcall
  exact quietIn_of_passive hcall (Site.looks_eq_false (hsite ▸ hstage)) hu

namespace Situated
theorem holding (h : Situated place u) : u.holding ≠ .nothing := by
  rcases h with ⟨_, hu⟩ | ⟨_, hu⟩ <;> rw [hu] <;> decide

variable {site : Site}
theorem looks (h : Situated place u) (hsite : site.looks = false) : (place site).looks = false := by
  rcases h with ⟨rfl, _⟩ | ⟨rfl, _⟩
  · exact hsite
  · exact Site.looks_migration hsite

theorem allowed (h : Situated place u) (hsite : site.looks = false) :
    u.holding = .migration → (place site).inMigration = true := by
  rcases h with ⟨rfl, hu⟩ | ⟨rfl, hu⟩
  · intro hm
    rw [hu] at hm
    cases hm
  · exact fun _ => Site.inMigration_migration hsite

theorem permits (h : Situated place u) {stage : Stage} (hstage : stage ≠ .deciding) :
    Permits (QuietIn live u) place stage := by
  intro site call hsite hcall
  have hlooks : site.looks = false := Site.looks_eq_false (hsite ▸ hstage)
  exact ⟨hcall.aside, h.looks hlooks, h.allowed hlooks⟩

theorem notMove (h : Situated place u) (hsite : site ≠ .softDeleteMove) :
    place site ≠ .softDeleteMove := by
  rcases h with ⟨rfl, _⟩ | ⟨rfl, _⟩
  · exact hsite
  · simp

theorem kept (h : Situated place u) : Situated place u.kept := h

theorem written (h : Situated place u) (base after : Option String) :
    Situated place (u.written base after) := h
end Situated

theorem runs_prepareFile (h : Situated place u) {site : WriteStep → Site}
    (hsite : ∀ step, (site step).looks = false) (path : Path) (steps : List WriteStep) :
    Runs e coll live (fun u' r => u' = u ∧ r = .ok ())
      (prepareFile (fun step => place (site step)) path steps) u := by
  induction steps with
  | nil => exact .pure ⟨rfl, rfl⟩
  | cons step steps ih =>
    have hstep : Runs e coll live (fun u' r => u' = u ∧ r = .ok ())
        (prepare (place (site step)) step path) u := by
      refine .perform (h.allowed (hsite step)) fun r => ?_
      cases r with
      | error err => exact .inl (faulty_prepare _ _ _ err)
      | ok a =>
        have haside : Aside live ⟨place (site step), .prepare step path⟩ :=
          Call.Passive.aside trivial
        exact .inr ⟨u, .quiet haside (h.looks (hsite step)), rfl, rfl⟩
    refine .bind hstep fun r u' hr => ?_
    obtain ⟨rfl, rfl⟩ := hr
    exact ih

theorem runs_writeDocumentJSONVerified (h : Situated place u) {base : Option String} {doc : Json}
    (hw : u.wrote = none) (hb : u.base = some base) (hf : u.fresh = some (documentVersion doc)) :
    Runs e coll live (fun u' _ => u' = u.written base (some (documentVersion doc)))
      (writeDocumentJSONVerified place live doc) u := by
  have hprepare : Runs e coll live (fun u' r => u' = u ∧ r = .ok ())
      (prepareFile (fun step => place (.write step)) live prepareSteps) u :=
    runs_prepareFile h (fun _ => rfl) live _
  have hinstall : Runs e coll live
      (fun u' r => u' = u.written base (some (documentVersion doc)) ∧ r = .ok ())
      (install (place (.write .rename)) live (.json doc)) u := by
    refine .perform (h.allowed rfl) fun r => ?_
    cases r with
    | error err => exact .inl (faulty_install _ _ _ err)
    | ok a => exact .inr ⟨_, .install h.holding hw hb hf (h.looks rfl), rfl, rfl⟩
  have hatomic : Runs e coll live
      (fun u' r => u' = u.written base (some (documentVersion doc)) ∧ r = .ok ())
      (writeFileAtomic (fun step => place (.write step)) live (.json doc)) u := by
    refine .bind hprepare fun r u' hr => ?_
    obtain ⟨rfl, rfl⟩ := hr
    refine .bind hinstall fun r u'' hr => ?_
    obtain ⟨rfl, rfl⟩ := hr
    exact .pure ⟨rfl, rfl⟩
  refine .bind hatomic fun r u' hr => ?_
  obtain ⟨rfl, rfl⟩ := hr
  dsimp only
  split
  · exact .pure rfl
  · exact .quiet (only_verifyAttempts ((h.written _ _).permits (by decide)) _ _ _ _)

theorem runs_preservePreviousIfAbsent (h : Situated place u) : Runs e coll (e.live coll docId)
      (fun u' r => u' = u ∨ u' = u.kept ∧ r = .ok ())
      (preservePreviousIfAbsent place e.dataDir coll docId) u := by
  have hstat : ∀ site path, site.looks = false →
      Runs e coll (e.live coll docId) (fun u' _ => u' = u) (stat (place site) path) u := by
    intro site path hsite
    have haside : Aside (e.live coll docId) ⟨place site, .stat path⟩ :=
      Call.Passive.aside trivial
    exact .quiet (only_perform ⟨haside, h.looks hsite, h.allowed hsite⟩)
  refine .bind (hstat .preserveStatPrevious _ rfl) fun r u' hu' => ?_
  subst hu'
  cases r with
  | ok a => exact .pure (.inl rfl)
  | error err =>
    dsimp only
    split
    · refine .bind (hstat .preserveStatLive _ rfl) fun r u' hu' => ?_
      subst hu'
      cases r with
      | error err => exact .pure (.inl rfl)
      | ok a =>
        refine .perform (h.allowed rfl) fun r => ?_
        cases r with
        | error err => exact .inr ⟨_, .unkept (h.looks rfl), .inl rfl⟩
        | ok a =>
          have hmove : place .preserveRename ≠ .softDeleteMove := h.notMove (by decide)
          exact .inr ⟨_, .keep h.holding (h.looks rfl) hmove, .inr ⟨rfl, rfl⟩⟩
    · exact .pure (.inl rfl)

theorem runs_enqueueChange (h : Situated place u) {change : Command}
    (hq : queuePath e.dataDir change coll docId ≠ live) :
    Runs e coll live (fun u' _ => u' = u) (enqueueChange place e.dataDir coll docId change) u := by
  have haside : Aside live ⟨place (.queue .rename),
      .install (queuePath e.dataDir change coll docId) .marker⟩ :=
    ⟨.inl hq, by simp, by simp⟩
  have hpermits := @Situated.permits live _ _ h .committing (by decide)
  exact .quiet (only_enqueueChange (hpermits .queueDir _ rfl trivial)
    (fun step => hpermits (.queue step) _ rfl trivial) ⟨haside, h.looks rfl, h.allowed rfl⟩)

theorem runs_replaceDocument (h : Situated place u) {base : Option String} {doc : Json}
    (hq : queuePath e.dataDir .patch coll docId ≠ e.live coll docId)
    (hw : u.wrote = none) (hb : u.base = some base) (hf : u.fresh = some (documentVersion doc)) :
    Runs e coll (e.live coll docId)
      (fun u' r => u' = u.written base (some (documentVersion doc)) ∨ u' = u ∧ r ≠ .ok ())
      (replaceDocument place e coll docId doc) u := by
  refine .bind (runs_preservePreviousIfAbsent h) fun r u' hr => ?_
  have hwrite : ∀ u', u' = u ∨ u' = u.kept → Runs e coll (e.live coll docId)
      (fun u'' _ => u'' = u.written base (some (documentVersion doc)))
      (writeDocumentJSONVerified place (e.live coll docId) doc) u' := by
    intro u' hu'
    rcases hu' with rfl | rfl
    · exact runs_writeDocumentJSONVerified h hw hb hf
    · exact runs_writeDocumentJSONVerified h.kept hw hb hf
  cases r with
  | error err =>
    have hu' : u' = u := hr.resolve_right fun hkept => by cases hkept.2
    exact .pure (.inr ⟨hu', by simp⟩)
  | ok a =>
    refine .bind (hwrite u' (hr.imp_right And.left)) fun r u' hu' => ?_
    subst hu'
    cases r with
    | error err => exact .pure (.inl rfl)
    | ok a =>
      refine .bind (runs_enqueueChange (h.written _ _) hq) fun r u' hu' => ?_
      subst hu'
      cases r <;> exact .pure (.inl rfl)

end
end Datorium
