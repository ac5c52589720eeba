
import Mathlib.Data.Set.Insert
namespace Datorium.Framework
structure Entry (V D : Type) where
  version : V
  content : D

structure VersionedStore (K V D : Type) where
  docs : K → Option (Entry V D)
  used : Set V

namespace VersionedStore
variable {K V D : Type}
def empty : VersionedStore K V D := ⟨fun _ => none, ∅⟩

variable [DecidableEq K]
def install (s : VersionedStore K V D) (k : K) (v : V) (d : D) : VersionedStore K V D where
  docs j := if j = k then some ⟨v, d⟩ else s.docs j
  used := insert v s.used

def remove (s : VersionedStore K V D) (k : K) : VersionedStore K V D where
  docs j := if j = k then none else s.docs j
  used := s.used

theorem docs_install (s : VersionedStore K V D) (k j : K) (v : V) (d : D) :
    (s.install k v d).docs j = if j = k then some ⟨v, d⟩ else s.docs j := rfl

theorem docs_remove (s : VersionedStore K V D) (k j : K) :
    (s.remove k).docs j = if j = k then none else s.docs j := rfl

theorem mem_used_install (s : VersionedStore K V D) (k : K) (v u : V) (d : D) :
    u ∈ (s.install k v d).used ↔ u = v ∨ u ∈ s.used := Set.mem_insert_iff
end VersionedStore
end Datorium.Framework
