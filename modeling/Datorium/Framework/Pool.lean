
import Datorium.Framework.Program
import Mathlib.Logic.Relation
import Mathlib.Logic.Function.Basic
/-!
# Interleavings

Every program follows a local protocol; a view is where in the protocol it stands.
-/
namespace Datorium.Framework
open Program
structure Pool (P Op : Type) (Res : Op → Type) (σ α : Type) where
  procs : P → Program Op Res α
  shared : σ

namespace Pool
variable {P Op : Type} {Res : Op → Type} {σ α V : Type} [DecidableEq P]
/-- One process makes its next call. `enabled` says when a call can be made, `guard` restricts the
interleavings. -/
inductive Step (h : P → Handler Op Res σ) (enabled : Op → σ → Prop)
    (guard : Pool P Op Res σ α → P → Op → Prop) :
    Pool P Op Res σ α → Pool P Op Res σ α → Prop where
  | call {pool : Pool P Op Res σ α} {p : P} {op : Op} {next : Res op → Program Op Res α}
      (at_call : pool.procs p = .call op next) (is_enabled : enabled op pool.shared)
      (guarded : guard pool p op) :
      Step h enabled guard pool
        ⟨Function.update pool.procs p (next (h p op pool.shared).1), (h p op pool.shared).2⟩

abbrev Reach (h : P → Handler Op Res σ) (enabled : Op → σ → Prop)
    (guard : Pool P Op Res σ α → P → Op → Prop) :
    Pool P Op Res σ α → Pool P Op Res σ α → Prop :=
  Relation.ReflTransGen (Step h enabled guard)

def Follow (allowed : V → Op → Prop) (next : V → (op : Op) → Res op → V → Prop)
    (good : V → α → Prop) (pool : Pool P Op Res σ α) (views : P → V) : Prop :=
  ∀ p, Follows allowed next good (pool.procs p) (views p)

variable {h : P → Handler Op Res σ} {enabled : Op → σ → Prop}
  {guard : Pool P Op Res σ α → P → Op → Prop} {allowed : V → Op → Prop}
  {next : V → (op : Op) → Res op → V → Prop} {good : V → α → Prop}
  {Inv : σ → (P → V) → Prop}
theorem reach_invariant (hstep : ∀ (pool : Pool P Op Res σ α) views p op rest v',
      Follow allowed next good pool views → Inv pool.shared views →
      pool.procs p = .call op rest → enabled op pool.shared → guard pool p op →
      allowed (views p) op → next (views p) op (h p op pool.shared).1 v' →
      Inv (h p op pool.shared).2 (Function.update views p v'))
    {pool pool' : Pool P Op Res σ α} (hreach : Reach h enabled guard pool pool') {views : P → V}
    (hfollow : Follow allowed next good pool views) (hinv : Inv pool.shared views) :
    ∃ views', Follow allowed next good pool' views' ∧ Inv pool'.shared views' := by
  induction hreach with
  | refl => exact ⟨views, hfollow, hinv⟩
  | @tail pool _ _ hlast ih =>
    obtain ⟨views, hfollow, hinv⟩ := ih
    cases hlast with
    | @call p op rest hcall henabled hguard =>
      have hp := hfollow p
      rw [hcall] at hp
      obtain ⟨hallowed, hnext⟩ := hp
      obtain ⟨v', hv', hrest⟩ := hnext (h p op pool.shared).1
      refine ⟨Function.update views p v', ?_, ?_⟩
      · intro q
        by_cases hq : q = p
        · subst hq
          simpa using hrest
        · simpa [Function.update_of_ne hq] using hfollow q
      · exact hstep pool views p op rest v' hfollow hinv hcall henabled hguard hallowed hv'

/-- The pool after process `p` has made its next call. -/
def turn (h : P → Handler Op Res σ) (p : P) (pool : Pool P Op Res σ α) : Pool P Op Res σ α :=
  match pool.procs p with
  | .done _ => pool
  | .call op next =>
    ⟨Function.update pool.procs p (next (h p op pool.shared).1), (h p op pool.shared).2⟩

theorem reach_turn {pool : Pool P Op Res σ α} {p : P}
    (hstep : ∀ op next, pool.procs p = .call op next → enabled op pool.shared ∧ guard pool p op) :
    Reach h enabled guard pool (pool.turn h p) := by
  unfold turn
  split
  · exact .refl
  · rename_i op next hcall
    obtain ⟨henabled, hguard⟩ := hstep op next hcall
    exact .single (.call hcall henabled hguard)

/-- The pool after process `p` has run to its end with nobody in between. -/
def alone (h : P → Handler Op Res σ) (p : P) (pool : Pool P Op Res σ α) : Pool P Op Res σ α :=
  ⟨Function.update pool.procs p (.done ((pool.procs p).run (h p) pool.shared).1),
    ((pool.procs p).run (h p) pool.shared).2⟩

theorem alone_procs_self (h : P → Handler Op Res σ) (p : P) (pool : Pool P Op Res σ α) :
    (pool.alone h p).procs p = .done ((pool.procs p).run (h p) pool.shared).1 :=
  Function.update_self _ _ _

theorem alone_procs_other (h : P → Handler Op Res σ) {p q : P} (hq : q ≠ p)
    (pool : Pool P Op Res σ α) : (pool.alone h p).procs q = pool.procs q :=
  Function.update_of_ne hq _ _

theorem reach_alone {pool : Pool P Op Res σ α} {p : P}
    (hsteps : ∀ op next t, (op, t) ∈ (pool.procs p).stops (h p) pool.shared →
      enabled op t ∧ guard ⟨Function.update pool.procs p (.call op next), t⟩ p op) :
    Reach h enabled guard pool (pool.alone h p) := by
  have hrun : ∀ prog s, (∀ op next t, (op, t) ∈ prog.stops (h p) s →
      enabled op t ∧ guard ⟨Function.update pool.procs p (.call op next), t⟩ p op) →
      Reach h enabled guard ⟨Function.update pool.procs p prog, s⟩
        ⟨Function.update pool.procs p (.done (prog.run (h p) s).1), (prog.run (h p) s).2⟩ := by
    intro prog
    induction prog with
    | done a => exact fun s _ => .refl
    | call op next ih =>
      intro s hsteps
      obtain ⟨henabled, hguard⟩ := hsteps op next s List.mem_cons_self
      have hstep : Step h enabled guard ⟨Function.update pool.procs p (.call op next), s⟩
          ⟨Function.update pool.procs p (next (h p op s).1), (h p op s).2⟩ := by
        have hcall := Step.call (h := h) (Function.update_self p (.call op next) pool.procs)
          henabled hguard
        rwa [Function.update_idem] at hcall
      exact .head hstep (ih _ _ fun op' next' t ht =>
        hsteps op' next' t (List.mem_cons_of_mem _ ht))
  have hself := hrun (pool.procs p) pool.shared hsteps
  rwa [Function.update_eq_self] at hself
end Pool
end Datorium.Framework
