
import Datorium.Framework.Pool
/-! # Programs among others -/
namespace Datorium.Framework.Program
variable {Op : Type} {Res : Op → Type} {σ α β : Type} {h : Handler Op Res σ}
  {rely : σ → σ → Prop} {check check' : Op → σ → Prop}
def Amid (h : Handler Op Res σ) (rely : σ → σ → Prop) (check : Op → σ → Prop)
    (post : α → σ → Prop) : Program Op Res α → σ → Prop
  | done a, s => ∀ t, rely s t → post a t
  | call op next, s =>
    ∀ t, rely s t → check op t ∧ Amid h rely check post (next (h op t).1) (h op t).2

theorem Amid.mono {post post' : α → σ → Prop} {p : Program Op Res α} {s : σ}
    (hp : Amid h rely check post p s) (hcheck : ∀ op t, check op t → check' op t)
    (hpost : ∀ a t, post a t → post' a t) : Amid h rely check' post' p s := by
  induction p generalizing s with
  | done a => exact fun t ht => hpost a t (hp t ht)
  | call op next ih =>
    intro t ht
    obtain ⟨hop, hnext⟩ := hp t ht
    exact ⟨hcheck op t hop, ih _ hnext⟩

theorem Amid.bind (hrefl : ∀ s, rely s s) {mid : α → σ → Prop} {post : β → σ → Prop}
    {p : Program Op Res α} {f : α → Program Op Res β} {s : σ}
    (hp : Amid h rely check mid p s)
    (hf : ∀ a t, mid a t → Amid h rely check post (f a) t) :
    Amid h rely check post (p.bind f) s := by
  induction p generalizing s with
  | done a => exact hf a s (hp s (hrefl s))
  | call op next ih =>
    intro t ht
    obtain ⟨hop, hnext⟩ := hp t ht
    exact ⟨hop, ih _ hnext⟩

/-- Like `Amid`, for a program whose calls are made only where `may` permits them. -/
def Among (h : Handler Op Res σ) (may : Op → σ → Prop) (rely : σ → σ → Prop)
    (check : Op → σ → Prop) (post : α → σ → Prop) : Program Op Res α → σ → Prop
  | done a, s => ∀ t, rely s t → post a t
  | call op next, s =>
    ∀ t, rely s t → may op t → check op t ∧ Among h may rely check post (next (h op t).1) (h op t).2

section
variable {may : Op → σ → Prop} {A : σ → Prop} {post : α → σ → Prop} {s : σ}
variable {p : Program Op Res α}
theorem Among.shift (htrans : ∀ a b c, rely a b → rely b c → rely a c) {t : σ}
    (hp : Among h may rely check post p s) (hst : rely s t) : Among h may rely check post p t := by
  cases p with
  | done a => exact fun u hu => hp u (htrans _ _ _ hst hu)
  | call op next => exact fun u hu hmay => hp u (htrans _ _ _ hst hu) hmay

theorem Among.mono {post' : α → σ → Prop} (hp : Among h may rely check post p s)
    (hpost : ∀ a t, post a t → post' a t) : Among h may rely check post' p s := by
  induction p generalizing s with
  | done a => exact fun t ht => hpost a t (hp t ht)
  | call op next ih =>
    intro t ht hmay
    obtain ⟨hop, hnext⟩ := hp t ht hmay
    exact ⟨hop, ih _ hnext⟩

theorem Among.bind (hrefl : ∀ s, rely s s) {mid : α → σ → Prop} {post : β → σ → Prop}
    {f : α → Program Op Res β} (hp : Among h may rely check mid p s)
    (hf : ∀ a t, mid a t → Among h may rely check post (f a) t) :
    Among h may rely check post (p.bind f) s := by
  induction p generalizing s with
  | done a => exact hf a s (hp s (hrefl s))
  | call op next ih =>
    intro t ht hmay
    obtain ⟨hop, hnext⟩ := hp t ht hmay
    exact ⟨hop, ih _ hnext⟩

theorem Among.and {post' : α → σ → Prop} (hp : Among h may rely check post p s)
    (hp' : Among h may rely check' post' p s) :
    Among h may rely check (fun a t => post a t ∧ post' a t) p s := by
  induction p generalizing s with
  | done a => exact fun t ht => ⟨hp t ht, hp' t ht⟩
  | call op next ih =>
    intro t ht hmay
    obtain ⟨hop, hnext⟩ := hp t ht hmay
    exact ⟨hop, ih _ hnext (hp' t ht hmay).2⟩

theorem Among.call {op : Op} {post : Res op → σ → Prop} (hs : A s)
    (hstable : ∀ s t, A s → rely s t → A t)
    (hcall : ∀ t, A t → may op t → check op t ∧ post (h op t).1 (h op t).2)
    (hpost : ∀ r s t, post r s → rely s t → post r t) :
    Among h may rely check post (Program.call op done) s := by
  intro t ht hmay
  obtain ⟨hop, hdone⟩ := hcall t (hstable s t hs ht) hmay
  exact ⟨hop, fun u hu => hpost _ _ u hdone hu⟩

theorem Among.only {P : Op → Prop} {p : Program Op Res α} (hp : p.Only P) (hs : A s)
    (hstable : ∀ s t, A s → rely s t → A t)
    (hcall : ∀ op t, P op → A t → may op t → check op t ∧ A (h op t).2) :
    Among h may rely check (fun _ t => A t) p s := by
  induction p generalizing s with
  | done a => exact fun t ht => hstable s t hs ht
  | call op next ih =>
    intro t ht hmay
    obtain ⟨hop, hnext⟩ := hcall op t hp.1 (hstable s t hs ht) hmay
    exact ⟨hop, ih _ (hp.2 _) hnext⟩

def Once (p : Program Op Res α) : Prop :=
  ∃ op next, p = Program.call op next ∧ ∀ r, ∃ a, next r = done a

theorem Among.once (honce : Once p) (hcheck : ∀ op t, check op t)
    (hp : ∀ t u, rely s t → rely (p.run h t).2 u → post (p.run h t).1 u) :
    Among h may rely check post p s := by
  obtain ⟨op, next, rfl, hnext⟩ := honce
  intro t ht _
  refine ⟨hcheck op t, ?_⟩
  obtain ⟨a, ha⟩ := hnext (h op t).1
  have hrun : (Program.call op next).run h t = (a, (h op t).2) := by
    rw [run_call, ha, run_done]
  rw [ha]
  intro u hu
  have hpost := hp t u ht
  rw [hrun] at hpost
  exact hpost hu

theorem Among.run {p : Program Op Res α} (hrefl : ∀ s, rely s s) (hmay : ∀ op s, may op s)
    (hp : Among h may rely check post p s) : post (p.run h s).1 (p.run h s).2 := by
  induction p generalizing s with
  | done a => exact hp s (hrefl s)
  | call op next ih => exact ih _ (hp s (hrefl s) (hmay op s)).2
end

theorem reach_among {P : Type} [DecidableEq P] {h : P → Handler Op Res σ}
    {enabled : Op → σ → Prop} {guard : Pool P Op Res σ α → P → Op → Prop}
    {may : P → Op → σ → Prop} {rely : P → σ → σ → Prop} {check : P → Op → σ → Prop}
    {post : P → α → σ → Prop} (htrans : ∀ p a b c, rely p a b → rely p b c → rely p a c)
    (hrefl : ∀ p s, rely p s s)
    (hmay : ∀ (pool : Pool P Op Res σ α) p op, enabled op pool.shared → guard pool p op →
      may p op pool.shared)
    (hcheck : ∀ p q op s, q ≠ p → may p op s → check p op s → rely q s (h p op s).2)
    {pool pool' : Pool P Op Res σ α} (hreach : Pool.Reach h enabled guard pool pool')
    (hpool : ∀ p, Among (h p) (may p) (rely p) (check p) (post p) (pool.procs p) pool.shared) :
    ∀ p, Among (h p) (may p) (rely p) (check p) (post p) (pool'.procs p) pool'.shared := by
  induction hreach with
  | refl => exact hpool
  | @tail pool _ _ hlast ih =>
    cases hlast with
    | @call p op next hcall henabled hguard =>
      have hp := ih p
      rw [hcall] at hp
      have hpmay := hmay pool p op henabled hguard
      obtain ⟨hop, hnext⟩ := hp pool.shared (hrefl p _) hpmay
      intro q
      by_cases hq : q = p
      · subst hq
        simpa using hnext
      · have hstand := (ih q).shift (htrans q) (hcheck p q op pool.shared hq hpmay hop)
        simpa [Function.update_of_ne hq] using hstand
end Datorium.Framework.Program
