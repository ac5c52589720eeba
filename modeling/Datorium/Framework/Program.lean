
import Mathlib.Data.List.Basic
namespace Datorium.Framework
/-- A program over the calls `Op`, where the call `op` is answered by a `Res op`. -/
inductive Program (Op : Type) (Res : Op → Type) (α : Type) where
  | done (result : α)
  | call (op : Op) (next : Res op → Program Op Res α)

abbrev Handler (Op : Type) (Res : Op → Type) (σ : Type) := (op : Op) → σ → Res op × σ

namespace Program
variable {Op : Type} {Res : Op → Type} {σ α β γ V : Type}
def bind : Program Op Res α → (α → Program Op Res β) → Program Op Res β
  | done a, f => f a
  | call op next, f => call op fun r => bind (next r) f

instance : Monad (Program Op Res) where
  pure := done
  bind := bind

@[simp] theorem pure_eq (a : α) : (pure a : Program Op Res α) = done a := rfl

@[simp] theorem bind_eq (p : Program Op Res α) (f : α → Program Op Res β) :
    (p >>= f) = bind p f := rfl

@[simp] theorem done_bind (a : α) (f : α → Program Op Res β) : bind (done a) f = f a := rfl

@[simp] theorem call_bind (op : Op) (next : Res op → Program Op Res α) (f : α → Program Op Res β) :
    bind (call op next) f = call op fun r => bind (next r) f := rfl

theorem bind_assoc (p : Program Op Res α) (f : α → Program Op Res β) (g : β → Program Op Res γ) :
    bind (bind p f) g = bind p fun a => bind (f a) g := by
  induction p with
  | done a => rfl
  | call op next ih => simp [ih]

def run (h : Handler Op Res σ) : Program Op Res α → σ → α × σ
  | done a, s => (a, s)
  | call op next, s => run h (next (h op s).1) (h op s).2

@[simp] theorem run_done (h : Handler Op Res σ) (a : α) (s : σ) : run h (done a) s = (a, s) := rfl

@[simp] theorem run_call (h : Handler Op Res σ) (op : Op) (next : Res op → Program Op Res α)
    (s : σ) : run h (call op next) s = run h (next (h op s).1) (h op s).2 := rfl

@[simp] theorem run_bind (h : Handler Op Res σ) (p : Program Op Res α)
    (f : α → Program Op Res β) (s : σ) :
    run h (bind p f) s = run h (f (run h p s).1) (run h p s).2 := by
  induction p generalizing s with
  | done a => rfl
  | call op next ih => simpa using ih (h op s).1 (h op s).2

def visited (h : Handler Op Res σ) : Program Op Res α → σ → List σ
  | done _, s => [s]
  | call op next, s => s :: visited h (next (h op s).1) (h op s).2

@[simp] theorem visited_done (h : Handler Op Res σ) (a : α) (s : σ) :
    visited h (done a) s = [s] := rfl

@[simp] theorem visited_call (h : Handler Op Res σ) (op : Op)
    (next : Res op → Program Op Res α) (s : σ) :
    visited h (call op next) s = s :: visited h (next (h op s).1) (h op s).2 := rfl

theorem final_mem_visited (h : Handler Op Res σ) (p : Program Op Res α) (s : σ) :
    (run h p s).2 ∈ visited h p s := by
  induction p generalizing s with
  | done a => simp
  | call op next ih => simpa using Or.inr (ih (h op s).1 (h op s).2)

def stops (h : Handler Op Res σ) : Program Op Res α → σ → List (Op × σ)
  | done _, _ => []
  | call op next, s => (op, s) :: stops h (next (h op s).1) (h op s).2

@[simp] theorem stops_done (h : Handler Op Res σ) (a : α) (s : σ) : stops h (done a) s = [] := rfl

@[simp] theorem stops_call (h : Handler Op Res σ) (op : Op) (next : Res op → Program Op Res α)
    (s : σ) : stops h (call op next) s = (op, s) :: stops h (next (h op s).1) (h op s).2 := rfl

@[simp] theorem stops_bind (h : Handler Op Res σ) (p : Program Op Res α)
    (f : α → Program Op Res β) (s : σ) :
    stops h (bind p f) s = stops h p s ++ stops h (f (run h p s).1) (run h p s).2 := by
  induction p generalizing s with
  | done a => rfl
  | call op next ih => simp [ih]

/-- Every call the program can make, whatever the answers, satisfies `P`. -/
def Only (P : Op → Prop) : Program Op Res α → Prop
  | done _ => True
  | call op next => P op ∧ ∀ r, Only P (next r)

@[simp] theorem only_done (P : Op → Prop) (a : α) : Only P (done a : Program Op Res α) := trivial

@[simp] theorem only_call (P : Op → Prop) (op : Op) (next : Res op → Program Op Res α) :
    Only P (call op next) ↔ P op ∧ ∀ r, Only P (next r) := Iff.rfl

variable {P : Op → Prop} {p : Program Op Res α}
theorem Only.bind {f : α → Program Op Res β} (hp : Only P p) (hf : ∀ a, Only P (f a)) :
    Only P (bind p f) := by
  induction p with
  | done a => exact hf a
  | call op next ih => exact ⟨hp.1, fun r => ih r (hp.2 r)⟩

theorem Only.bindOk {ε : Type} {p : Program Op Res (Except ε α)}
    {f : Except ε α → Program Op Res β} (hp : Only P p) (herror : ∀ err, Only P (f (.error err)))
    (hok : ∀ a, Only P (f (.ok a))) : Only P (p.bind f) := by
  refine .bind hp fun r => ?_
  cases r with
  | error err => exact herror err
  | ok a => exact hok a

theorem Only.mono {Q : Op → Prop} (hp : Only P p) (h : ∀ op, P op → Q op) : Only Q p := by
  induction p with
  | done a => trivial
  | call op next ih => exact ⟨h op hp.1, fun r => ih r (hp.2 r)⟩

theorem Only.visited {h : Handler Op Res σ} {Inv : σ → Prop} (hp : Only P p)
    (hstep : ∀ op s, P op → Inv s → Inv (h op s).2) {s t : σ} (hs : Inv s)
    (ht : t ∈ visited h p s) : Inv t := by
  induction p generalizing s with
  | done a =>
    rw [visited_done, List.mem_singleton] at ht
    exact ht ▸ hs
  | call op next ih =>
    rw [visited_call, List.mem_cons] at ht
    rcases ht with rfl | ht
    · exact hs
    · exact ih _ (hp.2 _) (hstep op s hp.1 hs) ht

theorem Only.run {P : Op → Prop} {p : Program Op Res α} {h : Handler Op Res σ} {Inv : σ → Prop}
    (hp : Only P p) (hstep : ∀ op s, P op → Inv s → Inv (h op s).2) {s : σ} (hs : Inv s) :
    Inv (run h p s).2 :=
  hp.visited hstep hs (final_mem_visited h p s)

def answered (h : Handler Op Res σ) : Program Op Res α → σ → Program Op Res α
  | done a, _ => done a
  | call op next, s => next (h op s).1

def Ends (good : α → Prop) : Program Op Res α → Prop
  | done a => good a
  | call _ next => ∀ r, Ends good (next r)

@[simp] theorem ends_done (good : α → Prop) (a : α) :
    Ends good (done a : Program Op Res α) ↔ good a := Iff.rfl

theorem ends_of_forall {good : α → Prop} (h : ∀ a, good a) (p : Program Op Res α) :
    Ends good p := by
  induction p with
  | done a => exact h a
  | call op next ih => exact ih

theorem Ends.bind {mid : α → Prop} {good : β → Prop} {f : α → Program Op Res β} (hp : Ends mid p)
    (hf : ∀ a, mid a → Ends good (f a)) : Ends good (Program.bind p f) := by
  induction p with
  | done a => exact hf a hp
  | call op next ih => exact fun r => ih r (hp r)

/-- A local protocol: in view `v` the program makes only calls allowed there, every answer leads to
some view `next` permits, and every result satisfies `good`. -/
def Follows (allowed : V → Op → Prop) (next : V → (op : Op) → Res op → V → Prop)
    (good : V → α → Prop) : Program Op Res α → V → Prop
  | done a, v => good v a
  | call op rest, v =>
    allowed v op ∧ ∀ r, ∃ v', next v op r v' ∧ Follows allowed next good (rest r) v'

section
variable {allowed : V → Op → Prop} {next : V → (op : Op) → Res op → V → Prop}
theorem Follows.bind {mid : V → α → Prop} {good : V → β → Prop} {p : Program Op Res α}
    {f : α → Program Op Res β} {v : V} (hp : Follows allowed next mid p v)
    (hf : ∀ a v', mid v' a → Follows allowed next good (f a) v') :
    Follows allowed next good (Program.bind p f) v := by
  induction p generalizing v with
  | done a => exact hf a v hp
  | call op rest ih =>
    refine ⟨hp.1, fun r => ?_⟩
    obtain ⟨v', hv, hrest⟩ := hp.2 r
    exact ⟨v', hv, ih r hrest⟩

theorem Follows.mono {good good' : V → α → Prop} {p : Program Op Res α} {v : V}
    (hp : Follows allowed next good p v) (h : ∀ a v', good v' a → good' v' a) :
    Follows allowed next good' p v := by
  induction p generalizing v with
  | done a => exact h a v hp
  | call op rest ih =>
    refine ⟨hp.1, fun r => ?_⟩
    obtain ⟨v', hv, hrest⟩ := hp.2 r
    exact ⟨v', hv, ih r hrest⟩
end
end Program
end Datorium.Framework
