import Datorium.Attachments.Commands
import Datorium.Engine.StoredDocument
import Datorium.Framework.Pool
/-!
# Deliveries of one file side by side

The writes of a file are delivered outside the engine mutex, and all of them use one slot per member.
-/
namespace Datorium
open Framework
structure SlotDesk (ν : Type) where
  world : World ν
  last : Option Bool

abbrev SlotPool (ν : Type) := Pool Bool Op Op.Answer (SlotDesk ν) Bool

inductive SlotStage where
  | writing
  | stored
  | acknowledged
  | lost

section
variable {ν : Type} (host : Host ν) (slot : Path)
def SlotDesk.step (p : Bool) : Handler Op Op.Answer (SlotDesk ν) := fun op s =>
  ((exec host .none op s.world).1,
    ⟨(exec host .none op s.world).2, if op.call.Avoids slot then s.last else some p⟩)

/-- What a delivery does with the slot, call by call. It is lost with an answer that is never
given. -/
inductive SlotStage.Next :
    Json × SlotStage → (op : Op) → op.Answer → Json × SlotStage → Prop
  | quiet {v op r} (h : op.call.Avoids slot) : Next v op r v
  | store {item site} :
      Next (item, .writing) ⟨site, .install slot (.json item)⟩ (.ok ()) (item, .stored)
  | push {item site target file body} :
      Next (item, .stored) ⟨site, .pushFile target file body⟩ true (item, .acknowledged)
  | clear {item site r} : Next (item, .acknowledged) ⟨site, .remove slot⟩ r (item, .acknowledged)
  | never {item stage op r} (h : ∀ w, (op.call.apply host w).1 ≠ r) :
      Next (item, stage) op r (item, .lost)
  | lost {item op r} : Next (item, .lost) op r (item, .lost)

variable {host slot}
def Delivers {α : Type} (host : Host ν) (slot : Path) (p : Prog α)
    (good : Json × SlotStage → α → Prop) (v : Json × SlotStage) : Prop :=
  p.Follows (fun _ _ => True) (SlotStage.Next host slot) good v

variable {item : Json} {α : Type} {good : Json × SlotStage → α → Prop}
theorem delivers_lost (h : ∀ a, good (item, .lost) a) (p : Prog α) :
    Delivers host slot p good (item, .lost) := by
  induction p with
  | done a => exact h a
  | call op next ih => exact ⟨trivial, fun r => ⟨_, .lost, ih r⟩⟩

theorem delivers_call {op : Op} {next : op.Answer → Prog α} {stage : SlotStage}
    (havoids : op.call.Avoids slot) (hlost : ∀ a, good (item, .lost) a) (answer : op.Answer)
    (hanswer : ∀ w, (op.call.apply host w).1 = answer)
    (hnext : Delivers host slot (next answer) good (item, stage)) :
    Delivers host slot (.call op next) good (item, stage) := by
  refine ⟨trivial, fun r => ?_⟩
  by_cases hr : r = answer
  · exact ⟨_, .quiet havoids, hr ▸ hnext⟩
  · exact ⟨_, .never fun w hw => hr (hw.symm.trans (hanswer w)), delivers_lost hlost _⟩

theorem delivers_prepareFile (site : WriteStep → Site) (path : Path) (steps : List WriteStep) :
    Delivers host slot (prepareFile site path steps)
      (fun v r => v = (item, .writing) ∧ r = .ok () ∨ v = (item, .lost)) (item, .writing) := by
  induction steps with
  | nil => exact .inl ⟨rfl, rfl⟩
  | cons step steps ih =>
    exact delivers_call trivial (fun _ => .inr rfl) (.ok ()) (fun _ => rfl) ih

variable {e : Engine} {target : String} {write : FileWorkItem}
theorem delivers_writeFileAtomic (site : WriteStep → Site) :
    Delivers host slot (writeFileAtomic site slot (.json item))
      (fun v _ => v = (item, .stored) ∨ v = (item, .lost)) (item, .writing) := by
  refine (delivers_prepareFile site slot prepareSteps).bind fun r v hv => ?_
  rcases hv with ⟨rfl, rfl⟩ | rfl
  · refine ⟨trivial, fun r => ?_⟩
    cases r with
    | ok u => exact ⟨_, .store, .inl rfl⟩
    | error err => exact ⟨_, .never fun w hw => (by cases hw), .inr rfl⟩
  · exact delivers_lost (fun _ => .inr rfl) _

theorem delivers_pushFileOne : Delivers host slot (pushFileOne e target write)
      (fun v ok => v = (item, if ok then .acknowledged else .stored)) (item, .stored) := by
  have hpush : ∀ body, Delivers host slot (pushFileItem target write body)
      (fun v ok => v = (item, if ok then .acknowledged else .stored)) (item, .stored) := by
    refine fun body => ⟨trivial, fun r => ?_⟩
    cases r with
    | true => exact ⟨_, .push, rfl⟩
    | false => exact ⟨_, .quiet trivial, rfl⟩
  unfold pushFileOne
  split
  · rfl
  · split
    · rfl
    · split
      · exact hpush none
      · unfold openBinary
        split
        · rfl
        · refine ⟨trivial, fun r => ⟨_, .quiet trivial, ?_⟩⟩
          cases r with
          | ok file => exact hpush _
          | error err => rfl

theorem delivers_deliverFileTo
    (hslot : pendingFileWritePath e.dataDir write.collection target write.id write.filename = slot) :
    Delivers host slot (deliverFileTo e write target)
      (fun v ok => v.2 = .lost ∨ (ok = false → v.2 = .stored)) (write.toJson, .writing) := by
  subst hslot
  have hwrite : Delivers host _ (writePendingFileWrite e.dataDir write.collection target write)
      _ (write.toJson, .writing) := delivers_call trivial (fun _ => .inr rfl) (.ok ()) (fun _ => rfl)
    (delivers_writeFileAtomic _)
  refine hwrite.bind fun _ v hv => ?_
  rcases hv with rfl | rfl
  · refine delivers_pushFileOne.bind fun ok v hv => ?_
    subst hv
    cases ok with
    | false => exact .inr fun _ => rfl
    | true =>
      refine ⟨trivial, fun r => ⟨_, .quiet trivial, ?_⟩⟩
      cases r with
      | error err => exact .inr fun h => (by cases h)
      | ok u =>
        refine ⟨trivial, fun r => ⟨_, .clear, ?_⟩⟩
        cases r <;> exact .inr fun h => (by cases h)
  · exact delivers_lost (fun _ => .inl rfl) _

structure SlotInv (slot : Path) (items : Bool → Json) (s : SlotDesk ν)
    (views : Bool → Json × SlotStage) : Prop where
  own : ∀ p, (views p).1 = items p
  sound : ∀ p, (views p).2 ≠ .lost
  touched : ∀ p, (views p).2 = .stored → s.last ≠ none
  holds : ∀ p, s.last = some p → s.world.files slot = some (.json (items p)) ∨
    (views p).2 ≠ .stored ∧ s.world.files slot = none

variable {items : Bool → Json} {s : SlotDesk ν} {views : Bool → Json × SlotStage}
section
variable {t : SlotDesk ν} {p : Bool} {stage : SlotStage} (h : SlotInv slot items s views)
  (hlost : stage ≠ .lost)
include h hlost

theorem SlotInv.unmoved (hlast : t.last = s.last) (hfile : t.world.files slot = s.world.files slot)
    (hstored : stage = .stored → (views p).2 = .stored) :
    SlotInv slot items t (Function.update views p (items p, stage)) := by
  constructor <;> intro q <;> by_cases hq : q = p
  · simp [hq]
  · simpa [hq] using h.own q
  · simpa [hq] using hlost
  · simpa [hq] using h.sound q
  · subst hq
    simpa [hlast] using fun hs => h.touched q (hstored hs)
  · simpa [hq, hlast] using h.touched q
  · subst hq
    simpa [hlast, hfile] using fun hq => (h.holds q hq).imp_right (.imp_left (mt hstored))
  · simpa [hq, hlast, hfile] using h.holds q

theorem SlotInv.moved (hlast : t.last = some p)
    (hfile : t.world.files slot = some (.json (items p)) ∨
      stage ≠ .stored ∧ t.world.files slot = none) :
    SlotInv slot items t (Function.update views p (items p, stage)) := by
  constructor <;> intro q <;> by_cases hq : q = p
  · simp [hq]
  · simpa [hq] using h.own q
  · simpa [hq] using hlost
  · simpa [hq] using h.sound q
  · simp [hlast]
  · simp [hlast]
  · subst hq
    simpa using fun _ => hfile
  · simp [hlast, Ne.symm hq]
end

theorem SlotInv.step (h : SlotInv slot items s views) {p : Bool} {op : Op} {v' : Json × SlotStage}
    (hnext : SlotStage.Next host slot (views p) op (SlotDesk.step host slot p op s).1 v') :
    SlotInv slot items (SlotDesk.step host slot p op s).2 (Function.update views p v') := by
  have hv : views p = (items p, (views p).2) := Prod.ext (h.own p) rfl
  rw [hv] at hnext
  have hsound := h.sound p
  generalize hstage : (views p).2 = stage at hnext hsound
  generalize hr : (SlotDesk.step host slot p op s).1 = r at hnext
  have hrun : exec host .none op s.world = op.call.apply host s.world := rfl
  cases hnext with
  | quiet hav =>
    exact h.unmoved hsound (by simp [SlotDesk.step, hav]) (by
      rw [SlotDesk.step, hrun]
      exact hav.apply s.world) fun hs => hstage.trans hs
  | store =>
    exact h.moved (by simp) (by simp [SlotDesk.step, Call.Avoids])
      (.inl (World.put_files_same _ _ _))
  | push => exact h.unmoved (by simp) rfl rfl (by simp)
  | clear =>
    refine h.moved (by simp) (by simp [SlotDesk.step, Call.Avoids]) (.inr ⟨by simp, ?_⟩)
    simp only [SlotDesk.step, hrun, Call.apply]
    split
    · assumption
    · exact World.put_files_same _ _ _
  | never hnever => exact absurd hr (hnever _)
  | lost => exact absurd rfl hsound

def deliveries (e : Engine) (write : Bool → FileWorkItem) (target : String) (w : World ν) :
    SlotPool ν :=
  ⟨fun p => deliverFileTo e (write p) target, ⟨w, none⟩⟩

def ReachDeliveries (host : Host ν) (slot : Path) : SlotPool ν → SlotPool ν → Prop :=
  Pool.Reach (SlotDesk.step host slot) (fun _ _ => True) fun _ _ _ => True

/-- Once the delivery of the later write has returned, it was acknowledged or its pending write is
there, exactly when it was acknowledged or the earlier delivery has not written or removed the slot
since. -/
theorem latest_pending_iff {write : Bool → FileWorkItem} {w : World ν} {acknowledged : Bool}
    {pool : SlotPool ν}
    (hslot : ∀ p, pendingFileWritePath e.dataDir (write p).collection target (write p).id
      (write p).filename = slot)
    (hversion : (write false).version ≠ (write true).version)
    (hreach : ReachDeliveries host slot (deliveries e write target w) pool)
    (hdone : pool.procs true = .done acknowledged) :
    (acknowledged = true ∨ pool.shared.world.files slot = some (.json (write true).toJson)) ↔
      acknowledged = true ∨ pool.shared.last = some true := by
  have hstart : SlotInv slot (fun p => (write p).toJson) ⟨w, none⟩
      fun p => ((write p).toJson, .writing) := by
    constructor <;> simp
  have hend : ∃ views, Pool.Follow (fun _ _ => True) (SlotStage.Next host slot)
      (fun v ok => v.2 = .lost ∨ (ok = false → v.2 = .stored)) pool views ∧
      SlotInv slot (fun p => (write p).toJson) pool.shared views :=
    Pool.reach_invariant (fun _ _ _ _ _ _ _ hinv _ _ _ _ hnext => hinv.step hnext) hreach
      (fun p => delivers_deliverFileTo (hslot p)) hstart
  obtain ⟨views, hfollow, hinv⟩ := hend
  cases acknowledged with
  | true => simp
  | false =>
    have hgood := hfollow true
    rw [hdone] at hgood
    have hstored : (views true).2 = .stored := hgood.resolve_left (hinv.sound true) rfl
    simp only [Bool.false_eq_true, false_or]
    constructor
    · intro hfile
      cases hlast : pool.shared.last with
      | none => exact absurd hlast (hinv.touched true hstored)
      | some q =>
        cases q with
        | true => rfl
        | false =>
          rcases hinv.holds false hlast with hother | ⟨-, hnone⟩
          · have hjson : (write false).toJson = (write true).toJson := by
              simpa using hother.symm.trans hfile
            have hsame := congrArg FileWorkItem.ofJson hjson
            rw [FileWorkItem.ofJson_toJson, FileWorkItem.ofJson_toJson, Option.some.injEq] at hsame
            exact absurd (congrArg FileWorkItem.version hsame) hversion
          · cases hnone.symm.trans hfile
    · intro hlast
      exact (hinv.holds true hlast).resolve_right fun hright => hright.1 hstored
end
namespace Sample
def firstOnly : Host Unit := { host with pushFile := fun _ item _ s => (item.version == "v1", s) }

def posterWrite (p : Bool) : FileWorkItem :=
  { collection := "Movies", id := "alien", filename := "poster.png", contentType := "image/png",
    byteSize := 1, sha256 := "A", version := if p then "v2" else "v1", operationId := "op",
    command := .fileUpdate }

def posterSlot : Path := pendingFileWritePath server.dataDir "Movies" "beta" "alien" "poster.png"

def posterDeliveries : SlotPool Unit :=
  deliveries server posterWrite "beta" (emptyWorld.put
    (binaryPath server.dataDir "Movies" "alien" "poster.png") (some (.bytes [65])))

def posterStep : Bool → Handler Op Op.Answer (SlotDesk Unit) := SlotDesk.step firstOnly posterSlot

def afterTurns : Nat → SlotPool Unit
  | 0 => posterDeliveries
  | n + 1 => (afterTurns n).turn posterStep false

def laterEnd (n : Nat) : Bool × SlotDesk Unit :=
  ((afterTurns n).procs true).run (posterStep true) (afterTurns n).shared

def earlierEnd (n : Nat) : Bool × SlotDesk Unit :=
  ((afterTurns n).procs false).run (posterStep false) (laterEnd n).2

theorem reach_ends (n : Nat) : ReachDeliveries firstOnly posterSlot posterDeliveries
    ⟨fun p => .done (if p then (laterEnd n).1 else (earlierEnd n).1), (earlierEnd n).2⟩ := by
  have hturns : ReachDeliveries firstOnly posterSlot posterDeliveries (afterTurns n) := by
    induction n with
    | zero => exact .refl
    | succ n ih => exact ih.trans (Pool.reach_turn fun _ _ _ => ⟨trivial, trivial⟩)
  have hlater : ReachDeliveries firstOnly posterSlot posterDeliveries
      (((afterTurns n).alone posterStep true).alone posterStep false) :=
    (hturns.trans (Pool.reach_alone fun _ _ _ _ => ⟨trivial, trivial⟩)).trans
      (Pool.reach_alone fun _ _ _ _ => ⟨trivial, trivial⟩)
  convert hlater using 2
  · funext p
    cases p <;> rfl
  · rfl
end Sample
open Sample
theorem latest_pending_in_turn : (laterEnd 12).1 = false ∧
    (earlierEnd 12).2.world.files posterSlot = some (.json (posterWrite true).toJson) := by
  obtain ⟨hanswer, hlast⟩ : (laterEnd 12).1 = false ∧ (earlierEnd 12).2.last = some true := by
    decide +kernel
  have hslot : ∀ p, pendingFileWritePath server.dataDir (posterWrite p).collection "beta"
      (posterWrite p).id (posterWrite p).filename = posterSlot := fun _ => rfl
  have hversion : (posterWrite false).version ≠ (posterWrite true).version := by decide
  have hiff := latest_pending_iff hslot hversion (reach_ends 12) rfl
  exact ⟨hanswer, (hiff.mpr (.inr hlast)).resolve_left (by simp [hanswer])⟩

/-- The acknowledged delivery of the earlier write removes the pending write of the later one. -/
theorem latest_pending_removed : ReachDeliveries firstOnly posterSlot posterDeliveries
        ⟨fun p => .done (if p then (laterEnd 10).1 else (earlierEnd 10).1), (earlierEnd 10).2⟩ ∧
      (earlierEnd 10).1 = true ∧ (laterEnd 10).1 = false ∧
      ((earlierEnd 10).2.world.files posterSlot).isNone = true :=
  ⟨reach_ends 10, by decide +kernel⟩
end Datorium
