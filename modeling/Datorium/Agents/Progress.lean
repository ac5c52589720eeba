
import Datorium.Storage.Documents
import Mathlib.Data.Finset.Max
import Mathlib.Data.Prod.Lex
import Mathlib.Data.String.Basic
namespace Datorium.ChangeAgent
structure QueueEntry where
  change : Command
  collection : String
  id : String
  deriving DecidableEq

/-- A file of the change queue: `.taken` or `.queue`. -/
structure QueueFile where
  entry : QueueEntry
  taken : Bool
  deriving DecidableEq

def QueueFile.claimed (f : QueueFile) : QueueFile := ⟨f.entry, true⟩

/-- `runEntry` without another worker: the claim is removed unless the entry fails. -/
def runEntry (fails : QueueEntry → Bool) (f : QueueFile) (dir : Finset QueueFile) :
    Finset QueueFile :=
  let claimed := if f.taken then dir else insert f.claimed (dir.erase f)
  if fails f.entry then claimed else claimed.erase f.claimed

section
variable [LinearOrder QueueFile] (fails : QueueEntry → Bool)
/-- `RunOnce`, with the order in which files are listed: the first one can be claimed. -/
def runOnce (dir : Finset QueueFile) : Finset QueueFile :=
  if h : dir.Nonempty then runEntry fails (dir.min' h) dir else dir

def Drained (dir : Finset QueueFile) : Prop := ∀ f ∈ dir, fails f.entry = true

def Progresses (dir : Finset QueueFile) : Prop :=
  ∃ n ≤ dir.card, Drained fails ((runOnce fails)^[n] dir)

/-- Every file of an entry that does not fail is listed before each file that fails, or before the
name that one gets by being claimed. -/
def Unblocked (dir : Finset QueueFile) : Prop :=
  ∀ f ∈ dir, ∀ g ∈ dir, fails f.entry = true → fails g.entry = false →
    (g.taken = true → ⟨g.entry, false⟩ ∉ dir) → g < f ∨ g < f.claimed

variable {fails} {dir : Finset QueueFile} {f g m : QueueFile}
omit [LinearOrder QueueFile] in
theorem mem_runEntry (hm : m ∈ dir) : f ∈ runEntry fails m dir ↔
    if fails m.entry then f = m.claimed ∨ f ∈ dir ∧ f ≠ m else f ∈ dir ∧ f ≠ m ∧ f ≠ m.claimed := by
  obtain ⟨entry, taken⟩ := m
  cases taken <;> cases hf : fails entry <;>
    simp [runEntry, QueueFile.claimed, hf] <;> grind

theorem runOnce_eq (hm : m ∈ dir) (hmin : ∀ x ∈ dir, m ≤ x) :
    runOnce fails dir = runEntry fails m dir := by
  have hne : dir.Nonempty := ⟨m, hm⟩
  have heq : dir.min' hne = m :=
    le_antisymm (dir.min'_le m hm) (hmin _ (dir.min'_mem hne))
  rw [runOnce, dif_pos hne, heq]

theorem Unblocked.run (h : Unblocked fails dir) (hm : m ∈ dir) (hmin : ∀ x ∈ dir, m ≤ x) :
    Unblocked fails (runEntry fails m dir) := by
  intro f hf g hg hfails hgood hsingle
  rw [mem_runEntry hm] at hf hg
  have hdir : g ∈ dir ∧ g ≠ m := by
    split at hg
    · rename_i hm'
      rcases hg with rfl | hg
      · rw [QueueFile.claimed, hm'] at hgood
        cases hgood
      · exact hg
    · exact ⟨hg.1, hg.2.1⟩
  have hkept : g.taken = true → ⟨g.entry, false⟩ ∉ dir := by
    intro htaken htwin
    refine hsingle htaken ((mem_runEntry hm).mpr ?_)
    cases g
    grind [QueueFile.claimed]
  have hnew : f ∈ dir ∨ fails m.entry = true ∧ f = m.claimed := by grind
  rcases hnew with hf | ⟨hm', rfl⟩
  · exact h f hf g hdir.1 hfails hgood hkept
  · rcases h m hm g hdir.1 hm' hgood hkept with hlt | hlt
    · exact absurd (hmin g hdir.1) (not_le.mpr hlt)
    · exact .inl hlt

/-- The file `g` waits behind `f`, which fails. -/
structure Blocks (dir : Finset QueueFile) (f g : QueueFile) : Prop where
  waits : g ∈ dir
  single : g.taken = true → ⟨g.entry, false⟩ ∉ dir
  stays : f ∈ dir ∨ f.claimed ∈ dir

theorem Blocks.run (h : Blocks dir f g) (hf : fails f.entry = true) (hg : fails g.entry = false)
    (hfirst : f < g ∧ f.claimed < g) : Blocks (runOnce fails dir) f g := by
  have hm := dir.min'_mem ⟨g, h.waits⟩
  have hmin : ∀ x ∈ dir, dir.min' ⟨g, h.waits⟩ ≤ x := fun x => dir.min'_le x
  generalize dir.min' ⟨g, h.waits⟩ = m at hm hmin
  rw [runOnce_eq hm hmin]
  have hne : g ≠ m := by
    rintro rfl
    rcases h.stays with hf | hf
    · exact absurd (hmin _ hf) (not_le.mpr hfirst.1)
    · exact absurd (hmin _ hf) (not_le.mpr hfirst.2)
  obtain ⟨hwaits, hsingle, hstays⟩ := h
  refine ⟨(mem_runEntry hm).mpr ?_, fun htaken htwin => ?_, ?_⟩
  · split
    · exact .inr ⟨hwaits, hne⟩
    · -- `g` is not the claimed name of `m`: `m` would be the entry queued again, or `g` itself
      refine ⟨hwaits, hne, ?_⟩
      rintro rfl
      obtain ⟨entry, taken⟩ := m
      cases taken
      · exact hsingle rfl hm
      · exact hne rfl
  · rw [mem_runEntry hm] at htwin
    grind [QueueFile.claimed]
  · rw [mem_runEntry hm, mem_runEntry hm]
    grind [QueueFile.claimed]

theorem Progresses.unblocked (h : Progresses fails dir) : Unblocked fails dir := by
  obtain ⟨n, -, hdone⟩ := h
  intro f hf g hg hfails hgood hsingle
  by_contra hfirst
  have hlt : f < g ∧ f.claimed < g := by
    rw [not_or, not_lt, not_lt] at hfirst
    refine ⟨lt_of_le_of_ne hfirst.1 ?_, lt_of_le_of_ne hfirst.2 ?_⟩ <;> rintro rfl <;>
      simp_all [QueueFile.claimed]
  have hblocks : Blocks ((runOnce fails)^[n] dir) f g := by
    clear hdone
    induction n with
    | zero => exact ⟨hg, hsingle, .inl hf⟩
    | succ n ih =>
      rw [Function.iterate_succ_apply']
      exact ih.run hfails hgood hlt
  rw [hdone g hblocks.waits] at hgood
  cases hgood

end

def QueueFile.name (f : QueueFile) : String :=
  queueBaseName f.entry.change f.entry.collection f.entry.id ++ if f.taken then ".taken" else ".queue"

instance directoryOrder : LinearOrder QueueFile :=
  LinearOrder.lift' (fun f => toLex (f.entry.collection, f.name)) fun f g h => by
    obtain ⟨⟨change, collection, id⟩, taken⟩ := f
    obtain ⟨⟨change', collection', id'⟩, taken'⟩ := g
    obtain ⟨rfl, hname⟩ := Prod.mk.inj (toLex.injective h)
    have hext : taken = taken' := by
      have hlist := congrArg String.toList hname
      cases taken <;> cases taken' <;> simp [QueueFile.name] at hlist ⊢ <;>
        exact absurd (List.append_inj_right' hlist rfl) (by decide)
    subst hext
    obtain ⟨rfl, rfl⟩ := queueBaseName_inj ((String.append_left_inj _).mp hname)
    rfl

namespace Sample
def create (id : String) : QueueFile := ⟨⟨.create, "Movies", id⟩, false⟩

end Sample

end Datorium.ChangeAgent
