
import Datorium.Framework.Program
/-!
# Triples with a crash condition

`Ensures h crash post p s` says of the execution of `p` from `s` that every call is made in a state
that satisfies `crash`, and that the execution ends as `post` says.
-/
namespace Datorium.Framework.Program
variable {Op : Type} {Res : Op → Type} {σ α β : Type} {h : Handler Op Res σ}
  {crash crash' : Op → σ → Prop}
def Ensures (h : Handler Op Res σ) (crash : Op → σ → Prop) (post : α → σ → Prop)
    (p : Program Op Res α) (s : σ) : Prop :=
  (∀ x ∈ stops h p s, crash x.1 x.2) ∧ post (run h p s).1 (run h p s).2

variable {post : α → σ → Prop} {p : Program Op Res α} {s : σ}
@[simp] theorem ensures_done (a : α) (s : σ) : Ensures h crash post (done a) s ↔ post a s := by simp [Ensures]

@[simp] theorem ensures_call (op : Op) (next : Res op → Program Op Res α) (s : σ) :
    Ensures h crash post (call op next) s ↔
      crash op s ∧ Ensures h crash post (next (h op s).1) (h op s).2 := by
  simp [Ensures, and_assoc]

@[simp] theorem ensures_bind {post : β → σ → Prop} (p : Program Op Res α)
    (f : α → Program Op Res β) (s : σ) :
    Ensures h crash post (bind p f) s ↔
      Ensures h crash (fun a t => Ensures h crash post (f a) t) p s := by
  simp only [Ensures, stops_bind, List.mem_append, run_bind]
  constructor
  · rintro ⟨hstops, hpost⟩
    exact ⟨fun x hx => hstops x (.inl hx), fun x hx => hstops x (.inr hx), hpost⟩
  · rintro ⟨hp, hf, hpost⟩
    exact ⟨fun x hx => hx.elim (hp x) (hf x), hpost⟩

theorem Ensures.mono {post' : α → σ → Prop} (hp : Ensures h crash post p s)
    (hcrash : ∀ op t, crash op t → crash' op t) (hpost : ∀ a t, post a t → post' a t) :
    Ensures h crash' post' p s :=
  ⟨fun x hx => hcrash _ _ (hp.1 x hx), hpost _ _ hp.2⟩

theorem Ensures.bind {mid : α → σ → Prop} {post : β → σ → Prop} {f : α → Program Op Res β}
    (hp : Ensures h crash mid p s) (hf : ∀ a t, mid a t → Ensures h crash post (f a) t) :
    Ensures h crash post (bind p f) s :=
  (ensures_bind p f s).mpr (hp.mono (fun _ _ hc => hc) hf)

theorem Only.ensures {P : Op → Prop} {Inv : σ → Prop} (hp : Only P p)
    (hstep : ∀ op s, P op → Inv s → Inv (h op s).2) (hs : Inv s) :
    Ensures h (fun op t => P op ∧ Inv t) (fun _ t => Inv t) p s := by
  induction p generalizing s with
  | done a => simpa using hs
  | call op next ih =>
    rw [ensures_call]
    exact ⟨⟨hp.1, hs⟩, ih _ (hp.2 _) (hstep op s hp.1 hs)⟩

theorem mem_visited_iff (p : Program Op Res α) (s t : σ) :
    t ∈ visited h p s ↔ (∃ op, (op, t) ∈ stops h p s) ∨ t = (run h p s).2 := by
  induction p generalizing s with
  | done a => simp
  | call op next ih =>
    simp only [visited_call, List.mem_cons, ih, stops_call, run_call, Prod.mk.injEq]
    constructor
    · rintro (rfl | ⟨op', hop⟩ | rfl)
      · exact .inl ⟨op, .inl ⟨rfl, rfl⟩⟩
      · exact .inl ⟨op', .inr hop⟩
      · exact .inr rfl
    · rintro (⟨op', ⟨-, rfl⟩ | hop⟩ | rfl)
      · exact .inl rfl
      · exact .inr (.inl ⟨op', hop⟩)
      · exact .inr (.inr rfl)

theorem Ensures.visited {Inv : σ → Prop} {t : σ} (hp : Ensures h crash post p s)
    (hcrash : ∀ op t, crash op t → Inv t) (hpost : ∀ a t, post a t → Inv t)
    (ht : t ∈ visited h p s) : Inv t := by
  rcases (mem_visited_iff p s t).mp ht with ⟨op, hop⟩ | rfl
  · exact hcrash op t (hp.1 _ hop)
  · exact hpost _ _ hp.2
end Datorium.Framework.Program
