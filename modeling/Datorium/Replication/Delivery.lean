
import Datorium.Replication.References
/-!
# The goroutines of a delivery

`ReplicateDocumentWrite` starts one goroutine per target, which pushes the item and adds its target
to one of two lists under a mutex.
-/
namespace Datorium
open Framework Function List
inductive DeliveryOp where
  | call (op : Op)
  | lock
  | unlock
  | load (acknowledged : Bool)
  | store (acknowledged : Bool) (names : List String)

def DeliveryOp.Answer : DeliveryOp → Type
  | call op => op.Answer
  | lock => Unit
  | unlock => Unit
  | load _ => List String
  | store _ _ => Unit

abbrev Goroutine := Program DeliveryOp DeliveryOp.Answer

def inGoroutine {α : Type} : Prog α → Goroutine α
  | .done a => .done a
  | .call op next => .call (.call op) fun r => inGoroutine (next r)

def lockOutcome : Goroutine Unit := .call .lock .done

def unlockOutcome : Goroutine Unit := .call .unlock .done

/-- `outcome.Acknowledged` or `outcome.Unacknowledged`. -/
def loadNames (acknowledged : Bool) : Goroutine (List String) := .call (.load acknowledged) .done

def storeNames (acknowledged : Bool) (names : List String) : Goroutine Unit :=
  .call (.store acknowledged names) .done

def deliverTo (e : Engine) (item : WorkItem) (target : String) : Goroutine Unit := do
  let ok ← inGoroutine (pushOne e.cfg target item)
  lockOutcome
  let names ← loadNames ok
  storeNames ok (names ++ [target])
  if ok then unlockOutcome
  else
    let _ ← inGoroutine (writePendingWrite e.dataDir item.collection target item)
    unlockOutcome

/-- The world, the mutex, and the targets that are acknowledged (`true`) and unacknowledged
(`false`). -/
structure Delivery (ν : Type) where
  world : World ν
  locked : Bool
  lists : Bool → List String

namespace Delivery
variable {ν : Type}
def step (host : Host ν) (faults : Faults) : Handler DeliveryOp DeliveryOp.Answer (Delivery ν)
  | .call op, d =>
    ((exec host faults op d.world).1, { d with world := (exec host faults op d.world).2 })
  | .lock, d => ((), { d with locked := true })
  | .unlock, d => ((), { d with locked := false })
  | .load ok, d => (d.lists ok, d)
  | .store ok names, d => ((), { d with lists := update d.lists ok names })

def Enabled : DeliveryOp → Delivery ν → Prop
  | .lock, d => d.locked = false
  | _, _ => True

def outcome (targets : List String) (d : Delivery ν) : PushOutcome :=
  { required := targets, acknowledged := d.lists true, unacknowledged := d.lists false,
    timeoutMs := defaultTimeoutMs }
end Delivery

abbrev Deliveries (ν : Type) := Pool String DeliveryOp DeliveryOp.Answer (Delivery ν) Unit

def Deliveries.start {ν : Type} (e : Engine) (item : WorkItem) (targets : List String)
    (w : World ν) : Deliveries ν :=
  ⟨fun t => if t ∈ targets then deliverTo e item t else .done (), ⟨w, false, fun _ => []⟩⟩

/-- `faults t` are the failures of the goroutine of `t`. -/
abbrev Deliveries.Reach {ν : Type} (host : Host ν) (faults : String → Faults) :
    Deliveries ν → Deliveries ν → Prop :=
  Pool.Reach (fun t => Delivery.step host (faults t)) Delivery.Enabled fun _ _ _ => True

def Deliveries.Returned {ν : Type} (pool : Deliveries ν) : Prop := ∀ t, pool.procs t = .done ()

inductive PushStage where
  | idle
  | pushing
  | answered (ok : Bool)
  | holding (ok : Bool)
  | loaded (ok : Bool) (names : List String)
  | preparing (steps : List WriteStep)
  | leaving (ok : Bool)
  | gone (ok : Bool)

namespace PushStage
def active : PushStage → Bool
  | idle => false
  | _ => true

def calls : PushStage → Bool
  | pushing => true
  | _ => false

def loadedNames : PushStage → Option (Bool × List String)
  | loaded ok names => some (ok, names)
  | _ => none

def remaining : PushStage → Option (List WriteStep)
  | preparing steps => some steps
  | _ => none

def critical : PushStage → Bool
  | holding _ => true
  | loaded _ _ => true
  | preparing _ => true
  | leaving _ => true
  | _ => false

def answer : PushStage → Option Bool
  | idle => none
  | pushing => none
  | answered ok => some ok
  | holding ok => some ok
  | loaded ok _ => some ok
  | preparing _ => some false
  | leaving ok => some ok
  | gone ok => some ok

def recorded : PushStage → Option Bool
  | preparing _ => some false
  | leaving ok => some ok
  | gone ok => some ok
  | _ => none

def settled : PushStage → Bool
  | leaving ok => !ok
  | gone ok => !ok
  | _ => false
end PushStage
section
variable (e : Engine) (item : WorkItem)
def pendingSlot (target : String) : Path :=
  pendingWritePath e.dataDir item.collection target item.id

def PushStage.Allows : String × PushStage → DeliveryOp → Prop
  | (_, .idle), _ => False
  | (t, .pushing), op => op = .call ⟨.push, .push t item⟩
  | (_, .answered _), op => op = .lock
  | (_, .holding ok), op => op = .load ok
  | (t, .loaded ok names), op => op = .store ok (names ++ [t])
  | (t, .preparing []), op =>
    op = .call ⟨.pending .rename, .install (pendingSlot e item t) (.json item.toJson)⟩
  | (t, .preparing (s :: _)), op =>
    op = .call ⟨.pending s, .prepare s (pendingSlot e item t)⟩
  | (_, .leaving _), op => op = .unlock
  | (_, .gone _), _ => False
end

def PushStage.Next : String × PushStage → (op : DeliveryOp) → op.Answer → String × PushStage → Prop
  | (t, .pushing), .call ⟨_, .push _ _⟩, ok, v => v = (t, .answered ok)
  | (t, .answered ok), .lock, _, v => v = (t, .holding ok)
  | (t, .holding ok), .load _, names, v => v = (t, .loaded ok names)
  | (t, .loaded ok _), .store _ _, _, v =>
    v = (t, if ok then .leaving true else .preparing prepareSteps)
  | (t, .preparing (_ :: _)), .call ⟨_, .prepare _ _⟩, .error _, v => v = (t, .leaving false)
  | (t, .preparing (_ :: steps)), .call ⟨_, .prepare _ _⟩, .ok (), v => v = (t, .preparing steps)
  | (t, .preparing []), .call ⟨_, .install _ _⟩, _, v => v = (t, .leaving false)
  | (t, .leaving ok), .unlock, _, v => v = (t, .gone ok)
  | _, _, _, _ => False

def PushStage.Ends : String × PushStage → Unit → Prop
  | (_, .idle), _ => True
  | (_, .gone _), _ => True
  | _, _ => False

def HasURL (cfg : Config) (target : String) : Prop :=
  ∃ url, Fields.get? target cfg.baseURLs = some url ∧ url ≠ ""

instance (cfg : Config) (target : String) : Decidable (HasURL cfg target) := by
  unfold HasURL
  exact decidable_of_iff ((Fields.get? target cfg.baseURLs).any fun url => url ≠ "") (by
    rw [Option.any_eq_true]
    simp)

def firstStage (cfg : Config) (target : String) : PushStage :=
  if HasURL cfg target then .pushing else .answered false

def preparedStage : Except FsError Unit → PushStage
  | .ok () => .preparing []
  | .error _ => .leaving false

section
variable {e : Engine} {item : WorkItem} {t : String}
theorem follows_prepare (steps : List WriteStep) :
    (inGoroutine (prepareFile .pending (pendingSlot e item t) steps)).Follows
      (PushStage.Allows e item) PushStage.Next
      (fun v r => v = (t, preparedStage r)) (t, .preparing steps) := by
  induction steps with
  | nil => rfl
  | cons s steps ih =>
    refine ⟨rfl, fun r => ?_⟩
    cases r with
    | error err => exact ⟨_, rfl, rfl⟩
    | ok r => exact ⟨_, rfl, ih⟩

theorem inGoroutine_bind {α β : Type} (p : Prog α) (f : α → Prog β) :
    inGoroutine (p.bind f) = (inGoroutine p).bind fun a => inGoroutine (f a) := by
  induction p with
  | done a => rfl
  | call op next ih => exact congrArg (Program.call _) (funext ih)

theorem follows_pendingWrite :
    (inGoroutine (writePendingWrite e.dataDir item.collection t item)).Follows
      (PushStage.Allows e item) PushStage.Next (fun v _ => v = (t, .leaving false))
      (t, .preparing prepareSteps) := by
  rw [writePendingWrite, writeFileAtomic, Program.bind_eq, inGoroutine_bind]
  refine (follows_prepare prepareSteps).bind fun r v hv => ?_
  subst hv
  cases r with
  | error err => rfl
  | ok r =>
    refine ⟨rfl, fun r => ⟨_, rfl, ?_⟩⟩
    cases r <;> rfl

theorem follows_push :
    (inGoroutine (pushOne e.cfg t item)).Follows (PushStage.Allows e item) PushStage.Next
      (fun v ok => v = (t, .answered ok)) (t, firstStage e.cfg t) := by
  unfold pushOne firstStage
  cases hurl : Fields.get? t e.cfg.baseURLs with
  | none =>
    rw [if_neg (by rintro ⟨url, h, -⟩; rw [hurl] at h; cases h)]
    rfl
  | some url =>
    by_cases hempty : url = ""
    · rw [if_neg (by rintro ⟨_, h, hne⟩; rw [hurl] at h; cases h; exact hne hempty)]
      simp only [hempty, if_true]
      rfl
    · rw [if_pos ⟨url, hurl, hempty⟩]
      simp only [hempty, if_false]
      exact ⟨rfl, fun ok => ⟨_, rfl, rfl⟩⟩

theorem follows_deliverTo :
    (deliverTo e item t).Follows (PushStage.Allows e item) PushStage.Next PushStage.Ends
      (t, firstStage e.cfg t) := by
  refine follows_push.bind fun ok v hv => ?_
  subst hv
  refine ⟨rfl, fun _ => ⟨_, rfl, rfl, fun names => ⟨_, rfl, rfl, fun _ => ⟨_, rfl, ?_⟩⟩⟩⟩
  cases ok with
  | true => exact ⟨rfl, fun _ => ⟨_, rfl, trivial⟩⟩
  | false =>
    change (Program.bind (inGoroutine (writePendingWrite e.dataDir item.collection t item))
      fun _ => unlockOutcome).Follows _ _ _ (t, PushStage.preparing prepareSteps)
    refine follows_pendingWrite.bind fun _ v hv => ?_
    subst hv
    exact ⟨rfl, fun _ => ⟨_, rfl, trivial⟩⟩
end

def Acks (cfg : Config) (answers : String → Bool) (faults : String → Faults) (t : String) : Bool :=
  decide (HasURL cfg t) && !faults t .push && answers t

def Writes (faults : String → Faults) (t : String) : Prop :=
  ∀ step, faults t (.pending step) = false

section
variable {ν : Type} (e : Engine) (item : WorkItem) (targets : List String)
  (answers : String → Bool) (faults : String → Faults) (w : World ν)
structure Answered (views : String → String × PushStage) : Prop where
  own : ∀ t, (views t).1 = t
  member : ∀ t, (views t).2.active = true ↔ t ∈ targets
  called : ∀ t, (views t).2.calls = true → HasURL e.cfg t
  answer : ∀ t ok, (views t).2.answer = some ok → ok = Acks e.cfg answers faults t

structure Accounted (d : Delivery ν) (views : String → String × PushStage) : Prop where
  locked : ∀ t, (views t).2.critical = true → d.locked = true
  sole : ∀ t u, (views t).2.critical = true → (views u).2.critical = true → t = u
  loaded : ∀ t names, (views t).2.loadedNames = some names → d.lists names.1 = names.2
  recorded : ∀ ok t, t ∈ d.lists ok ↔ (views t).2.recorded = some ok
  nodup : ∀ ok, (d.lists ok).Nodup

structure Stored (d : Delivery ν) (views : String → String × PushStage) : Prop where
  prepared : ∀ t steps, (views t).2.remaining = some steps →
    ∃ before, prepareSteps = before ++ steps ∧ ∀ s ∈ before, faults t (.pending s) = false
  stored : ∀ t, (views t).2.settled = true → Writes faults t →
    d.world.files (pendingSlot e item t) = some (.json item.toJson)
  kept : ∀ path, (∀ t, (views t).2.settled = true → Writes faults t →
    pendingSlot e item t ≠ path) → d.world.files path = w.files path

structure DeliveryInv (d : Delivery ν) (views : String → String × PushStage) : Prop where
  answered : Answered e targets answers faults views
  accounted : Accounted d views
  stored : Stored e item faults w d views
end
section
variable {ν : Type} {e : Engine} {item : WorkItem} {targets : List String}
  {answers : String → Bool} {faults : String → Faults} {w : World ν} {host : Host ν}
  {d : Delivery ν} {views : String → String × PushStage} {t : String}
theorem deliveryInv_start (e : Engine) (item : WorkItem) (targets : List String)
    (answers : String → Bool) (faults : String → Faults) (w : World ν) :
    DeliveryInv e item targets answers faults w ⟨w, false, fun _ => []⟩
      fun t => (t, if t ∈ targets then firstStage e.cfg t else .idle) := by
  have hfirst : ∀ t, firstStage e.cfg t = .pushing ∧ HasURL e.cfg t ∨
      firstStage e.cfg t = .answered false ∧ ¬ HasURL e.cfg t := by
    intro t
    by_cases h : HasURL e.cfg t
    · exact .inl ⟨if_pos h, h⟩
    · exact .inr ⟨if_neg h, h⟩
  have hquiet : ∀ t, let stage := if t ∈ targets then firstStage e.cfg t else .idle
      stage.critical = false ∧ stage.recorded = none ∧ stage.settled = false ∧
        stage.loadedNames = none ∧ stage.remaining = none := by
    intro t
    rcases hfirst t with ⟨h, -⟩ | ⟨h, -⟩ <;> by_cases hmem : t ∈ targets <;>
      simp [h, hmem, PushStage.critical, PushStage.recorded, PushStage.settled,
        PushStage.loadedNames, PushStage.remaining]
  constructor
  · constructor <;> grind [PushStage.answer, PushStage.active, PushStage.calls, Acks]
  · constructor <;> grind
  · constructor <;> grind

variable {stage stage' : PushStage} {d' : Delivery ν}
theorem PushStage.critical_of_loaded {names : Bool × List String}
    (h : stage.loadedNames = some names) : stage.critical = true := by
  cases stage with
  | loaded ok names => rfl
  | _ => cases h

theorem Answered.update (h : Answered e targets answers faults views) (hv : views t = (t, stage))
    (hactive : stage.active = true) (hactive' : stage'.active = true)
    (hcalls : stage'.calls = false)
    (hanswer : ∀ ok, stage'.answer = some ok → ok = Acks e.cfg answers faults t) :
    Answered e targets answers faults (update views t (t, stage')) := by
  constructor
  · intro u
    by_cases hu : u = t
    · rw [hu, update_self]
    · rw [update_of_ne hu, h.own]
  · intro u
    by_cases hu : u = t
    · have hmem := (h.member t).mp (by rwa [hv])
      simp [hu, hactive', hmem]
    · rw [update_of_ne hu, h.member]
  · intro u hstage
    by_cases hu : u = t
    · rw [hu, update_self, hcalls] at hstage
      cases hstage
    · exact h.called u (by rwa [update_of_ne hu] at hstage)
  · intro u ok hok
    by_cases hu : u = t
    · rw [hu, update_self] at hok
      exact hu ▸ hanswer ok hok
    · exact h.answer u ok (by rwa [update_of_ne hu] at hok)

theorem Accounted.keep (h : Accounted d views) (hv : views t = (t, stage))
    (hlocked : d'.locked = d.locked) (hlists : d'.lists = d.lists)
    (hcritical : stage'.critical = stage.critical) (hrecorded : stage'.recorded = stage.recorded)
    (hloaded : stage'.loadedNames = none ∨ ∃ ok, stage'.loadedNames = some (ok, d.lists ok)) :
    Accounted d' (update views t (t, stage')) := by
  have hsame : ∀ u, (update views t (t, stage') u).2.critical = (views u).2.critical ∧
      (update views t (t, stage') u).2.recorded = (views u).2.recorded := by
    intro u
    by_cases hu : u = t
    · rw [hu, update_self, hv]
      exact ⟨hcritical, hrecorded⟩
    · rw [update_of_ne hu]
      exact ⟨rfl, rfl⟩
  constructor
  · intro u hu
    rw [hlocked]
    exact h.locked u ((hsame u).1 ▸ hu)
  · intro u u' hu hu'
    exact h.sole u u' ((hsame u).1 ▸ hu) ((hsame u').1 ▸ hu')
  · intro u names hu
    rw [hlists]
    by_cases hut : u = t
    · rw [hut, update_self] at hu
      rcases hloaded with hnone | ⟨ok, hsome⟩
      · rw [hnone] at hu
        cases hu
      · rw [hsome] at hu
        cases hu
        rfl
    · rw [update_of_ne hut] at hu
      exact h.loaded u names hu
  · intro ok u
    rw [hlists, (hsame u).2]
    exact h.recorded ok u
  · rw [hlists]
    exact h.nodup

theorem Accounted.lock (h : Accounted d views) {ok : Bool} (hv : views t = (t, .answered ok))
    (hfree : d.locked = false) :
    Accounted { d with locked := true } (update views t (t, .holding ok)) := by
  have hnone : ∀ u, (views u).2.critical = false := by
    intro u
    by_contra hu
    exact absurd (h.locked u (by simpa using hu)) (by simp [hfree])
  refine ⟨fun _ _ => rfl, fun u u' hu hu' => ?_, fun u names hu => ?_, fun ok' u => ?_, h.nodup⟩
  · have heq : ∀ u, (update views t (t, PushStage.holding ok) u).2.critical = true → u = t := by
      intro u hu
      by_contra hne
      rw [update_of_ne hne, hnone u] at hu
      cases hu
    rw [heq u hu, heq u' hu']
  · by_cases hut : u = t
    · rw [hut, update_self] at hu
      cases hu
    · rw [update_of_ne hut] at hu
      exact h.loaded u names hu
  · by_cases hut : u = t
    · have hout := h.recorded ok' t
      rw [hv] at hout
      rw [hut, update_self]
      exact hout
    · rw [update_of_ne hut]
      exact h.recorded ok' u

theorem Accounted.unlock (h : Accounted d views) {ok : Bool} (hv : views t = (t, .leaving ok)) :
    Accounted { d with locked := false } (update views t (t, .gone ok)) := by
  have hothers : ∀ u, u ≠ t → (views u).2.critical = false := by
    intro u hu
    by_contra hcritical
    exact hu (h.sole u t (by simpa using hcritical) (by rw [hv]; rfl))
  have hnone : ∀ u, (update views t (t, PushStage.gone ok) u).2.critical = false := by
    intro u
    by_cases hu : u = t
    · rw [hu, update_self]
      rfl
    · rw [update_of_ne hu, hothers u hu]
  refine ⟨fun u hu => ?_, fun u _ hu => ?_, fun u names hu => ?_, fun ok' u => ?_, h.nodup⟩
  · rw [hnone u] at hu
    cases hu
  · rw [hnone u] at hu
    cases hu
  · by_cases hut : u = t
    · rw [hut, update_self] at hu
      cases hu
    · rw [update_of_ne hut] at hu
      exact h.loaded u names hu
  · by_cases hut : u = t
    · have hin := h.recorded ok' t
      rw [hv] at hin
      rw [hut, update_self]
      exact hin
    · rw [update_of_ne hut]
      exact h.recorded ok' u

theorem Accounted.record (h : Accounted d views) {ok : Bool} {names : List String}
    (hv : views t = (t, .loaded ok names)) (hcritical : stage'.critical = true)
    (hrecorded : stage'.recorded = some ok) (hloaded : stage'.loadedNames = none) :
    Accounted { d with lists := update d.lists ok (names ++ [t]) }
      (update views t (t, stage')) := by
  obtain rfl : d.lists ok = names := h.loaded t (ok, names) (by rw [hv]; rfl)
  have hnew : ∀ ok', t ∉ d.lists ok' := by
    intro ok' hmem
    have := (h.recorded ok' t).mp hmem
    rw [hv] at this
    cases this
  have hsame : ∀ u, (update views t (t, stage') u).2.critical = (views u).2.critical := by
    intro u
    by_cases hu : u = t
    · rw [hu, update_self, hv]
      exact hcritical
    · rw [update_of_ne hu]
  refine ⟨fun u hu => h.locked u (hsame u ▸ hu),
    fun u u' hu hu' => h.sole u u' (hsame u ▸ hu) (hsame u' ▸ hu'), fun u names hu => ?_,
    fun ok' u => ?_, fun ok' => ?_⟩
  · -- Nobody else is between loading and storing.
    by_cases hut : u = t
    · rw [hut, update_self, hloaded] at hu
      cases hu
    · rw [update_of_ne hut] at hu
      exact absurd (h.sole u t (PushStage.critical_of_loaded hu) (by rw [hv]; rfl)) hut
  · have hu := h.recorded ok' u
    by_cases hok : ok' = ok
    · subst hok
      by_cases hut : u = t
      · simp [hut, hrecorded]
      · simpa [update_of_ne hut, hut] using hu
    · by_cases hut : u = t
      · subst hut
        simp only [update_of_ne hok, update_self, hrecorded, hnew ok', false_iff, Option.some.injEq]
        exact Ne.symm hok
      · simpa [update_of_ne hok, update_of_ne hut] using hu
  · dsimp only
    by_cases hok : ok' = ok
    · subst hok
      rw [update_self]
      refine nodup_append.mpr ⟨h.nodup ok', pairwise_singleton _ t, fun u hu u' hu' => ?_⟩
      rw [mem_singleton.mp hu']
      exact fun heq => hnew ok' (heq ▸ hu)
    · rw [update_of_ne hok]
      exact h.nodup ok'

theorem Stored.keep (h : Stored e item faults w d views) (hv : views t = (t, stage))
    (hfiles : d'.world.files = d.world.files)
    (hsettled : stage'.settled = stage.settled ∨ ¬ Writes faults t ∧ stage.settled = false)
    (hremaining : stage'.remaining = none ∨ ∃ before steps, stage'.remaining = some steps ∧
      prepareSteps = before ++ steps ∧ ∀ s ∈ before, faults t (.pending s) = false) :
    Stored e item faults w d' (update views t (t, stage')) := by
  refine ⟨fun u steps hu => ?_, fun u hu hwrites => ?_, fun path hpath => ?_⟩
  · by_cases hut : u = t
    · rw [hut, update_self] at hu
      rcases hremaining with hnone | ⟨before, steps', hsome, hbefore, hgood⟩
      · rw [hnone] at hu
        cases hu
      · rw [hsome] at hu
        cases hu
        exact ⟨before, hbefore, hut ▸ hgood⟩
    · rw [update_of_ne hut] at hu
      exact h.prepared u steps hu
  · rw [hfiles]
    by_cases hut : u = t
    · subst hut
      rw [update_self] at hu
      rcases hsettled with hsame | ⟨hfails, -⟩
      · exact h.stored u (by rw [hv]; exact hsame ▸ hu) hwrites
      · exact absurd hwrites hfails
    · rw [update_of_ne hut] at hu
      exact h.stored u hu hwrites
  · rw [hfiles]
    refine h.kept path fun u hu => hpath u ?_
    by_cases hut : u = t
    · subst hut
      rw [hv] at hu
      rw [update_self]
      rcases hsettled with hsame | ⟨-, hunsettled⟩
      · exact hsame.trans hu
      · exact absurd (hunsettled.symm.trans hu) Bool.false_ne_true
    · rwa [update_of_ne hut]

theorem Stored.install (h : Stored e item faults w d views) (hv : views t = (t, .preparing []))
    (hwrites : Writes faults t) :
    Stored e item faults w
      { d with world := d.world.put (pendingSlot e item t) (some (.json item.toJson)) }
      (update views t (t, .leaving false)) := by
  refine ⟨fun u steps hu => ?_, fun u hu hwrites' => ?_, fun path hpath => ?_⟩
  · by_cases hut : u = t
    · rw [hut, update_self] at hu
      cases hu
    · rw [update_of_ne hut] at hu
      exact h.prepared u steps hu
  · dsimp only
    rw [World.put_files]
    split
    · rfl
    · rename_i hne
      have hut : u ≠ t := fun heq => hne (by rw [heq])
      rw [update_of_ne hut] at hu
      exact h.stored u hu hwrites'
  · have hself : path ≠ pendingSlot e item t :=
      (hpath t (by rw [update_self]; rfl) hwrites).symm
    dsimp only
    rw [World.put_files_other _ hself]
    refine h.kept path fun u hu => hpath u ?_
    have hut : u ≠ t := fun heq => by
      rw [heq, hv] at hu
      cases hu
    rwa [update_of_ne hut]

section
variable (h : DeliveryInv e item targets answers faults w d views)
include h

theorem DeliveryInv.fail {steps : List WriteStep} (hv : views t = (t, .preparing steps))
    (hfails : ¬ Writes faults t) :
    DeliveryInv e item targets answers faults w d (update views t (t, .leaving false)) := by
  have hanswer := h.answered.answer t
  rw [hv] at hanswer
  exact ⟨h.answered.update hv rfl rfl rfl hanswer, h.accounted.keep hv rfl rfl rfl rfl (.inl rfl),
    h.stored.keep hv rfl (.inr ⟨hfails, rfl⟩) (.inl rfl)⟩

theorem DeliveryInv.prepare {s : WriteStep} {steps : List WriteStep}
    (hv : views t = (t, .preparing (s :: steps))) (hfault : faults t (.pending s) = false) :
    DeliveryInv e item targets answers faults w d (update views t (t, .preparing steps)) := by
  have hanswer := h.answered.answer t
  rw [hv] at hanswer
  refine ⟨h.answered.update hv rfl rfl rfl hanswer,
    h.accounted.keep hv rfl rfl rfl rfl (.inl rfl), h.stored.keep hv rfl (.inl rfl) (.inr ?_)⟩
  obtain ⟨before, hbefore, hgood⟩ := h.stored.prepared t (s :: steps) (by rw [hv]; rfl)
  refine ⟨before ++ [s], steps, rfl, by simpa using hbefore, fun s' hs' => ?_⟩
  rcases mem_append.mp hs' with hs' | hs'
  · exact hgood s' hs'
  · rw [mem_singleton.mp hs', hfault]

theorem DeliveryInv.install (hv : views t = (t, .preparing []))
    (hfault : faults t (.pending .rename) = false) :
    DeliveryInv e item targets answers faults w
      ⟨d.world.put (pendingSlot e item t) (some (.json item.toJson)), d.locked, d.lists⟩
      (update views t (t, .leaving false)) := by
  have hanswer := h.answered.answer t
  rw [hv] at hanswer
  obtain ⟨before, hbefore, hgood⟩ := h.stored.prepared t [] (by rw [hv]; rfl)
  rw [append_nil] at hbefore
  have hwrites : Writes faults t := by
    intro step
    cases step with
    | rename => exact hfault
    | _ => exact hgood _ (by rw [← hbefore]; decide)
  exact ⟨h.answered.update hv rfl rfl rfl hanswer,
    h.accounted.keep hv rfl rfl rfl rfl (.inl rfl), h.stored.install hv hwrites⟩
end

theorem DeliveryInv.step (h : DeliveryInv e item targets answers faults w d views)
    (hpush : ∀ t i s, (host.push t i s).1 = answers t) {op : DeliveryOp} {v : String × PushStage}
    (henabled : Delivery.Enabled op d) (hallowed : PushStage.Allows e item (views t) op)
    (hnext : PushStage.Next (views t) op (Delivery.step host (faults t) op d).1 v) :
    DeliveryInv e item targets answers faults w (Delivery.step host (faults t) op d).2
      (update views t v) := by
  have hown := h.answered.own t
  have hanswer := h.answered.answer t
  rcases hv : views t with ⟨owner, stage⟩
  rw [hv] at hallowed hnext hown hanswer
  obtain rfl : owner = t := hown
  cases stage with
  | idle => exact hallowed.elim
  | gone ok => exact hallowed.elim
  | pushing =>
    obtain rfl : op = _ := hallowed
    obtain rfl : v = _ := hnext
    have hurl := h.answered.called owner (by rw [hv]; rfl)
    refine ⟨h.answered.update hv rfl rfl rfl fun ok hok => ?_,
      h.accounted.keep hv rfl rfl rfl rfl (.inl rfl), h.stored.keep hv ?_ (.inl rfl) (.inl rfl)⟩
    · obtain rfl := Option.some.inj hok
      cases hfault : faults owner .push <;>
        simp [Delivery.step, exec, hfault, Call.failed, Call.apply, hpush, Acks, hurl]
    · cases hfault : faults owner .push <;> simp [Delivery.step, exec, hfault, Call.apply]
  | answered ok =>
    obtain rfl : op = .lock := hallowed
    obtain rfl : v = _ := hnext
    exact ⟨h.answered.update hv rfl rfl rfl hanswer, h.accounted.lock hv henabled,
      h.stored.keep hv rfl (.inl rfl) (.inl rfl)⟩
  | holding ok =>
    obtain rfl : op = .load ok := hallowed
    obtain rfl : v = _ := hnext
    exact ⟨h.answered.update hv rfl rfl rfl hanswer,
      h.accounted.keep hv rfl rfl rfl rfl (.inr ⟨ok, rfl⟩),
      h.stored.keep hv rfl (.inl rfl) (.inl rfl)⟩
  | loaded ok names =>
    obtain rfl : op = .store ok (names ++ [owner]) := hallowed
    obtain rfl : v = _ := hnext
    cases ok with
    | true =>
      exact ⟨h.answered.update hv rfl rfl rfl hanswer,
        h.accounted.record hv rfl rfl rfl, h.stored.keep hv rfl (.inl rfl) (.inl rfl)⟩
    | false =>
      exact ⟨h.answered.update hv rfl rfl rfl hanswer, h.accounted.record hv rfl rfl rfl,
        h.stored.keep hv rfl (.inl rfl) (.inr ⟨[], prepareSteps, rfl, rfl, by simp⟩)⟩
  | preparing steps =>
    cases steps with
    | nil =>
      obtain rfl : op = _ := hallowed
      obtain rfl : v = _ := hnext
      cases hfault : faults owner (.pending .rename) with
      | true =>
        simp only [Delivery.step, exec, hfault, if_true]
        exact h.fail hv fun hwrites => by simp [hwrites .rename] at hfault
      | false =>
        simp only [Delivery.step, exec, hfault, Bool.false_eq_true, if_false, Call.apply]
        exact h.install hv hfault
    | cons s steps =>
      obtain rfl : op = _ := hallowed
      cases hfault : faults owner (.pending s) with
      | true =>
        simp only [Delivery.step, exec, hfault, if_true, Call.failed] at hnext ⊢
        obtain rfl : v = _ := hnext
        exact h.fail hv fun hwrites => by simp [hwrites s] at hfault
      | false =>
        simp only [Delivery.step, exec, hfault, Bool.false_eq_true, if_false, Call.apply] at hnext ⊢
        obtain rfl : v = _ := hnext
        exact h.prepare hv hfault
  | leaving ok =>
    obtain rfl : op = .unlock := hallowed
    obtain rfl : v = _ := hnext
    exact ⟨h.answered.update hv rfl rfl rfl hanswer, h.accounted.unlock hv,
      h.stored.keep hv rfl (.inl rfl) (.inl rfl)⟩

structure DeliverySettled (e : Engine) (item : WorkItem) (targets : List String) (answers : String → Bool)
    (faults : String → Faults) (w : World ν) (d : Delivery ν) : Prop where
  lists : ∀ ok t, t ∈ d.lists ok ↔ t ∈ targets ∧ Acks e.cfg answers faults t = ok
  nodup : ∀ ok, (d.lists ok).Nodup
  stored : ∀ t ∈ targets, Acks e.cfg answers faults t = false → Writes faults t →
    d.world.files (pendingSlot e item t) = some (.json item.toJson)
  kept : ∀ path, (∀ t ∈ targets, Acks e.cfg answers faults t = false → Writes faults t →
    pendingSlot e item t ≠ path) → d.world.files path = w.files path

variable {pool : Deliveries ν}
theorem settled_of_returned (hpush : ∀ t i s, (host.push t i s).1 = answers t)
    (hreach : Deliveries.Reach host faults (.start e item targets w) pool)
    (hreturned : pool.Returned) : DeliverySettled e item targets answers faults w pool.shared := by
  have hfollow : Pool.Follow (PushStage.Allows e item) PushStage.Next PushStage.Ends
      (Deliveries.start e item targets w)
      fun t => (t, if t ∈ targets then firstStage e.cfg t else .idle) := by
    intro t
    simp only [Deliveries.start]
    split
    · exact follows_deliverTo
    · trivial
  obtain ⟨views, hviews, hinv⟩ := Pool.reach_invariant
    (fun _ _ _ _ _ _ _ hinv _ henabled _ hallowed hnext => hinv.step hpush henabled hallowed hnext)
    hreach hfollow (deliveryInv_start e item targets answers faults w)
  -- Every goroutine has gone, with the answer it was given.
  have hgone : ∀ t, t ∈ targets ∧ (views t).2 = .gone (Acks e.cfg answers faults t) ∨
      t ∉ targets ∧ (views t).2 = .idle := by
    intro t
    have hends := hviews t
    rw [hreturned t] at hends
    have hmember := hinv.answered.member t
    have hanswer := hinv.answered.answer t
    rcases hv : views t with ⟨owner, stage⟩
    rw [hv] at hends hmember hanswer
    cases stage with
    | idle => exact .inr ⟨fun hmem => Bool.false_ne_true (hmember.mpr hmem), rfl⟩
    | gone ok => exact .inl ⟨hmember.mp rfl, by rw [← hanswer ok rfl]⟩
    | _ => exact hends.elim
  refine ⟨fun ok t => ?_, hinv.accounted.nodup, fun t ht hack hwrites => ?_, fun path hpath => ?_⟩
  · rw [hinv.accounted.recorded]
    rcases hgone t with ⟨hmem, hstage⟩ | ⟨hout, hstage⟩
    · simp [hstage, hmem, PushStage.recorded]
    · simp [hstage, hout, PushStage.recorded]
  · rcases hgone t with ⟨-, hstage⟩ | ⟨hout, -⟩
    · exact hinv.stored.stored t (by rw [hstage, hack]; rfl) hwrites
    · exact absurd ht hout
  · refine hinv.stored.kept path fun t hsettled hwrites => ?_
    rcases hgone t with ⟨hmem, hstage⟩ | ⟨-, hstage⟩
    · rw [hstage] at hsettled
      exact hpath t hmem (by simpa [PushStage.settled] using hsettled) hwrites
    · rw [hstage] at hsettled
      cases hsettled

theorem ensures_inGoroutine {α : Type} {f : Faults} (p : Prog α) (d : Delivery ν) :
    (inGoroutine p).Ensures (Delivery.step host f) Delivery.Enabled
      (fun a d' => (a, d'.world) = p.run (exec host f) d.world ∧ d'.locked = d.locked ∧
        d'.lists = d.lists) d := by
  induction p generalizing d with
  | done a => exact (Program.ensures_done _ _).mpr ⟨rfl, rfl, rfl⟩
  | call op next ih => exact (Program.ensures_call _ _ _).mpr ⟨trivial, ih _ _⟩

theorem run_pushOne_answer (hpush : ∀ t i s, (host.push t i s).1 = answers t) (v : World ν) :
    ((pushOne e.cfg t item).run (exec host (faults t)) v).1 = Acks e.cfg answers faults t := by
  have hcall : ((pushItem t item).run (exec host (faults t)) v).1 =
      (!faults t .push && answers t) := by
    change (exec host (faults t) ⟨.push, .push t item⟩ v).1 = _
    cases hfault : faults t .push with
    | true =>
      simp only [exec, hfault, if_true]
      rfl
    | false =>
      simp only [exec, hfault, Bool.false_eq_true, if_false, Call.apply]
      exact hpush t item v.outside
  by_cases hhas : HasURL e.cfg t
  · obtain ⟨url, hurl, hne⟩ := hhas
    have hhas : HasURL e.cfg t := ⟨url, hurl, hne⟩
    simp [pushOne, hurl, hne, hcall, Acks, hhas]
  · rw [Acks, decide_eq_false hhas, pushOne]
    split
    · rfl
    · rename_i url hurl
      by_cases hempty : url = ""
      · rw [if_pos hempty]
        rfl
      · exact absurd ⟨url, hurl, hempty⟩ hhas

theorem ensures_deliverTo (hpush : ∀ t i s, (host.push t i s).1 = answers t)
    (hfree : d.locked = false) :
    (deliverTo e item t).Ensures (Delivery.step host (faults t)) Delivery.Enabled
      (fun _ d' => d'.locked = false ∧ ∀ ok, d'.lists ok =
        d.lists ok ++ if Acks e.cfg answers faults t = ok then [t] else []) d := by
  refine (ensures_inGoroutine _ d).bind fun ok d₁ h₁ => ?_
  obtain ⟨hrun, hlocked, hlists⟩ := h₁
  obtain rfl : ok = Acks e.cfg answers faults t := by
    rw [← run_pushOne_answer hpush d.world, ← hrun]
  have hstore : ∀ ok, update d₁.lists (Acks e.cfg answers faults t)
      (d₁.lists (Acks e.cfg answers faults t) ++ [t]) ok =
        d.lists ok ++ if Acks e.cfg answers faults t = ok then [t] else [] := by
    intro ok
    rw [hlists]
    by_cases hok : Acks e.cfg answers faults t = ok
    · subst hok
      simp
    · simp [update_of_ne (Ne.symm hok), hok]
  refine (Program.ensures_call DeliveryOp.lock _ d₁).mpr ⟨hlocked.trans hfree, ?_⟩
  refine (Program.ensures_call _ _ _).mpr ⟨trivial, ?_⟩
  refine (Program.ensures_call _ _ _).mpr ⟨trivial, ?_⟩
  cases hack : Acks e.cfg answers faults t with
  | true =>
    rw [hack] at hstore
    exact (Program.ensures_call _ _ _).mpr ⟨trivial, (Program.ensures_done _ _).mpr ⟨rfl, hstore⟩⟩
  | false =>
    rw [hack] at hstore
    refine (ensures_inGoroutine _ _).bind fun _ d₂ h₂ => ?_
    refine (Program.ensures_call _ _ _).mpr ⟨trivial, (Program.ensures_done _ _).mpr ⟨rfl, ?_⟩⟩
    intro ok
    exact (congrFun h₂.2.2 ok).trans (hstore ok)

theorem reach_in_order (hpush : ∀ t i s, (host.push t i s).1 = answers t) (order : List String)
    (hnodup : order.Nodup) (pool : Deliveries ν) (hfree : pool.shared.locked = false)
    (hprocs : ∀ t, pool.procs t = if t ∈ order then deliverTo e item t else .done ()) :
    ∃ pool', Deliveries.Reach host faults pool pool' ∧ pool'.Returned ∧
      ∀ ok, pool'.shared.lists ok = pool.shared.lists ok ++
        order.filter fun t => Acks e.cfg answers faults t = ok := by
  induction order generalizing pool with
  | nil => exact ⟨pool, .refl, fun t => by simp [hprocs], fun ok => by simp⟩
  | cons t order ih =>
    obtain ⟨hfirst, hrest⟩ := nodup_cons.mp hnodup
    have hproc : pool.procs t = deliverTo e item t := by simp [hprocs]
    obtain ⟨hstops, hunlocked, hlists⟩ :=
      @ensures_deliverTo _ e item answers faults host pool.shared t hpush hfree
    have halone := @Pool.reach_alone String DeliveryOp DeliveryOp.Answer (Delivery ν) Unit _
      (fun t => Delivery.step host (faults t)) Delivery.Enabled (fun _ _ _ => True) pool t
      (by rw [hproc]; exact fun op _ t ht => ⟨hstops (op, t) ht, trivial⟩)
    obtain ⟨pool', hreach, hreturned, hfinal⟩ := ih hrest
      (pool.alone (fun t => Delivery.step host (faults t)) t)
      (by simpa [Pool.alone, hproc] using hunlocked) fun u => by
        by_cases hu : u = t
        · subst hu
          rw [Pool.alone_procs_self, if_neg hfirst]
        · rw [Pool.alone_procs_other _ hu, hprocs]
          simp [hu]
    refine ⟨pool', halone.trans hreach, hreturned, fun ok => ?_⟩
    have hshared : (pool.alone (fun t => Delivery.step host (faults t)) t).shared.lists ok =
        pool.shared.lists ok ++ if Acks e.cfg answers faults t = ok then [t] else [] := by
      simpa [Pool.alone, hproc] using hlists ok
    rw [hfinal, hshared, append_assoc, filter_cons]
    split <;> simp_all

/-- A report of failed pending writes that could be read off the outcome never names a target whose
item was stored. -/
def Truthful (e : Engine) (item : WorkItem) (targets : List String) (host : Host ν)
    (report : PushOutcome → String → Prop) : Prop :=
  ∀ (faults : String → Faults) (w : World ν) (pool : Deliveries ν),
    Deliveries.Reach host faults (.start e item targets w) pool → pool.Returned →
    ∀ t, report (pool.shared.outcome targets) t →
      pool.shared.world.files (pendingSlot e item t) ≠ some (.json item.toJson)

/-- The targets are the disjoint union of the two lists, and the item of every unacknowledged target
is stored or its failure is reported. -/
structure AccountsFor (e : Engine) (item : WorkItem) (targets : List String)
    (report : PushOutcome → String → Prop) (d : Delivery ν) : Prop where
  union : ∀ t, t ∈ targets ↔
    t ∈ (d.outcome targets).acknowledged ∨ t ∈ (d.outcome targets).unacknowledged
  nodup : ((d.outcome targets).acknowledged ++ (d.outcome targets).unacknowledged).Nodup
  pending : ∀ t ∈ (d.outcome targets).unacknowledged,
    d.world.files (pendingSlot e item t) = some (.json item.toJson) ∨ report (d.outcome targets) t

def withoutWriteFaults (faults : String → Faults) (t : String) : Faults
  | .pending _ => false
  | site => faults t site

theorem DeliverySettled.order_nodup (h : DeliverySettled e item targets answers faults w d) :
    (d.lists true ++ d.lists false).Nodup := by
  refine nodup_append.mpr ⟨h.nodup true, h.nodup false, fun t ht u hu heq => ?_⟩
  subst heq
  have htrue := ((h.lists true t).mp ht).2
  rw [((h.lists false t).mp hu).2] at htrue
  cases htrue

theorem DeliverySettled.mem_order (h : DeliverySettled e item targets answers faults w d)
    (t : String) : t ∈ d.lists true ++ d.lists false ↔ t ∈ targets := by
  rw [mem_append, h.lists, h.lists]
  cases Acks e.cfg answers faults t <;> simp

theorem unreported {report : PushOutcome → String → Prop}
    (hpush : ∀ t i s, (host.push t i s).1 = answers t)
    (htruthful : Truthful e item targets host report)
    (hsettled : DeliverySettled e item targets answers faults w d) (ht : t ∈ d.lists false) :
    ¬ report (d.outcome targets) t := by
  have hacks : Acks e.cfg answers (withoutWriteFaults faults) = Acks e.cfg answers faults := rfl
  -- A run with the same answers in which every pending write succeeds.
  obtain ⟨pool, hreach, hreturned, hlists⟩ := @reach_in_order ν e item answers
    (withoutWriteFaults faults) host hpush (d.lists true ++ d.lists false) hsettled.order_nodup
    (.start e item targets w) rfl fun t => by
      simp only [Deliveries.start, hsettled.mem_order]
  have hsame : pool.shared.lists = d.lists := by
    funext ok
    rw [hlists, hacks, filter_append]
    have hall : ∀ ok', (d.lists ok').filter (fun t => Acks e.cfg answers faults t = ok) =
        if ok' = ok then d.lists ok' else [] := by
      intro ok'
      split
      · rename_i heq
        subst heq
        exact filter_eq_self.mpr fun t ht => by simpa using ((hsettled.lists _ t).mp ht).2
      · rename_i hne
        refine filter_eq_nil_iff.mpr fun t ht => ?_
        rw [((hsettled.lists _ t).mp ht).2]
        simpa using hne
    rw [hall, hall]
    cases ok <;> simp [Deliveries.start]
  have houtcome : pool.shared.outcome targets = d.outcome targets := by
    simp only [Delivery.outcome, hsame]
  obtain ⟨hmem, hack⟩ := (hsettled.lists false t).mp ht
  have hstored := (settled_of_returned hpush hreach hreturned).stored t hmem hack fun _ => rfl
  intro hreport
  exact htruthful _ _ pool hreach hreturned t (houtcome ▸ hreport) hstored

/-- A delivery accounts for every target just when for each the push is acknowledged, or its pending
file is written, or the item was in its slot before. -/
theorem delivery_accounts_iff {report : PushOutcome → String → Prop}
    (hpush : ∀ t i s, (host.push t i s).1 = answers t)
    (htruthful : Truthful e item targets host report)
    (hreach : Deliveries.Reach host faults (.start e item targets w) pool)
    (hreturned : pool.Returned) :
    AccountsFor e item targets report pool.shared ↔
      ∀ t ∈ targets, Acks e.cfg answers faults t = true ∨
        (∃ u ∈ targets, Acks e.cfg answers faults u = false ∧ Writes faults u ∧
          pendingSlot e item u = pendingSlot e item t) ∨
        w.files (pendingSlot e item t) = some (.json item.toJson) := by
  have hsettled := settled_of_returned hpush hreach hreturned
  constructor
  · intro haccounts t ht
    cases hack : Acks e.cfg answers faults t with
    | true => exact .inl rfl
    | false =>
      have hlist : t ∈ pool.shared.lists false := (hsettled.lists false t).mpr ⟨ht, hack⟩
      have hstored := (haccounts.pending t hlist).resolve_right
        (unreported hpush htruthful hsettled hlist)
      by_cases hwritten : ∃ u ∈ targets, Acks e.cfg answers faults u = false ∧ Writes faults u ∧
          pendingSlot e item u = pendingSlot e item t
      · exact .inr (.inl hwritten)
      · refine .inr (.inr ?_)
        rw [← hsettled.kept _ fun u hu hack hwrites heq => hwritten ⟨u, hu, hack, hwrites, heq⟩]
        exact hstored
  · intro hcond
    refine ⟨fun t => by rw [← hsettled.mem_order, mem_append]; rfl, hsettled.order_nodup,
      fun t ht => .inl ?_⟩
    obtain ⟨hmem, hack⟩ := (hsettled.lists false t).mp ht
    by_cases hwritten : ∃ u ∈ targets, Acks e.cfg answers faults u = false ∧ Writes faults u ∧
        pendingSlot e item u = pendingSlot e item t
    · obtain ⟨u, hu, hack, hwrites, heq⟩ := hwritten
      rw [← heq]
      exact hsettled.stored u hu hack hwrites
    · rw [hsettled.kept _ fun u hu hack hwrites heq => hwritten ⟨u, hu, hack, hwrites, heq⟩]
      rcases hcond t hmem with hacked | hwrote | hbefore
      · rw [hack] at hacked
        cases hacked
      · exact absurd hwrote hwritten
      · exact hbefore
end
namespace Sample
def fullDisk (t : String) : Faults := fun site => t = "beta" ∧ site = .pending .createTemp

theorem host_push (t : String) (i : WorkItem) (s : Unit) : (host.push t i s).1 = false := rfl
end Sample
open Sample
theorem delivery_accounts_alone : ∃ pool, Deliveries.Reach host (fun _ => .none)
        (.start server (itemIn "Movies") ["beta"] emptyWorld) pool ∧
      pool.Returned ∧
      AccountsFor server (itemIn "Movies") ["beta"] (fun _ _ => False) pool.shared := by
  obtain ⟨pool, hreach, hreturned, -⟩ := @reach_in_order Unit server
    (itemIn "Movies") (fun _ => false) (fun _ => .none) host host_push ["beta"]
    (pairwise_singleton _ _)
    (.start server (itemIn "Movies") ["beta"] emptyWorld) rfl fun _ => rfl
  refine ⟨pool, hreach, hreturned, (delivery_accounts_iff host_push
    (fun _ _ _ _ _ _ h => h.elim) hreach hreturned).mpr fun t ht => ?_⟩
  obtain rfl := mem_singleton.mp ht
  exact .inr (.inl ⟨_, ht, by simp [Acks], fun _ => rfl, rfl⟩)

/-- The pending write fails: no item is in the slot, and no truthful report can be read off the
outcome. -/
theorem delivery_unaccounted : ∃ pool, Deliveries.Reach host fullDisk
        (.start server (itemIn "Movies") ["beta"] emptyWorld) pool ∧
      pool.Returned ∧ (pool.shared.outcome ["beta"]).unacknowledged = ["beta"] ∧
      pool.shared.world.files (pendingSlot server (itemIn "Movies") "beta") = none ∧
      ∀ report, Truthful server (itemIn "Movies") ["beta"] host report →
        ¬ AccountsFor server (itemIn "Movies") ["beta"] report pool.shared := by
  obtain ⟨pool, hreach, hreturned, hlists⟩ := @reach_in_order Unit server
    (itemIn "Movies") (fun _ => false) fullDisk host host_push ["beta"]
    (pairwise_singleton _ _)
    (.start server (itemIn "Movies") ["beta"] emptyWorld) rfl fun _ => rfl
  have hsettled := settled_of_returned host_push hreach hreturned
  have hlist : pool.shared.lists false = ["beta"] := by
    rw [hlists]
    simp [Acks, Deliveries.start]
  have hnone : pool.shared.world.files (pendingSlot server (itemIn "Movies") "beta") = none := by
    refine hsettled.kept _ fun t ht _ hwrites => ?_
    obtain rfl := mem_singleton.mp ht
    exact absurd (hwrites .createTemp) (by decide)
  refine ⟨pool, hreach, hreturned, hlist, hnone, fun report htruthful haccounts => ?_⟩
  have hbeta : "beta" ∈ pool.shared.lists false := by
    rw [hlist]
    exact mem_singleton_self _
  rcases haccounts.pending "beta" hbeta with hstored | hreport
  · rw [hnone] at hstored
    cases hstored
  · exact unreported host_push htruthful hsettled hbeta hreport
end Datorium
