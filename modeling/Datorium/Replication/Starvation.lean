import Datorium.Replication.References
/-!
# Items that keep failing

After an item that fails a check-in goes on in the document lane and stops in the file lane.
-/
namespace Datorium.CatchUp
open List
def defaultCheckinLimit : Int := 200

def limitOf (limit : Int) : Int := if 0 < limit then limit else defaultCheckinLimit

section
variable {Item : Type} (ref : Item → String) (fails : Item → Bool)
/-- `applyOne` on what is pending: an item that fails stays, any other is completed. -/
def applyOne (itemID : String) : List Item → Option (List Item)
  | [] => none
  | x :: items =>
    if ref x = itemID then if fails x then none else some items
    else (applyOne itemID items).map (x :: ·)

def listWorkItems (limit : Int) (items : List Item) : List String :=
  truncate (limitOf limit) ((items.map ref).insertionSort (· ≤ ·))

def applyListed (stops : Bool) : List String → List Item → List Item
  | [], items => items
  | itemID :: ids, items =>
    match applyOne ref fails itemID items with
    | none => if stops then items else applyListed stops ids items
    | some rest => applyListed stops ids rest

def checkIn (limit : Int) (items : List Item) : List Item :=
  applyListed ref fails false (listWorkItems ref limit items) items

def Listed (items : List Item) : Prop := items.Pairwise fun x y => ref x ≤ ref y

/-- Before an item that does not fail there is no failing one with its reference, and fewer failing
ones than are listed. -/
structure Unblocked (limit : Int) (items : List Item) : Prop where
  apart : items.Pairwise fun y x => ref y = ref x → fails y = true → fails x = true
  room : ∀ before x after, items = before ++ x :: after → fails x = false →
    (before.countP fails : Int) < limitOf limit

end
section
variable {Item : Type} {ref : Item → String} {fails : Item → Bool} {stops : Bool}
  {itemID : String} {ids : List String} {limit : Int} {items rest before after : List Item}
  {x y : Item} {next : List Item → List Item}
theorem Unblocked.sublist (h : Unblocked ref fails limit items) (hsub : rest <+ items) :
    Unblocked ref fails limit rest where
  apart := h.apart.sublist hsub
  room before x after hrest hx := by
    rw [hrest] at hsub
    obtain ⟨l, r, rfl, hl, hr⟩ := append_sublist_iff.mp hsub
    obtain ⟨r₁, r₂, rfl, hmem, -⟩ := cons_sublist_iff.mp hr
    obtain ⟨p, q, rfl⟩ := append_of_mem hmem
    have hroom := h.room (l ++ p) x (q ++ r₂) (by simp) hx
    have hcount := (hl.trans (sublist_append_left l p)).countP_le (p := fails)
    omega

end

namespace Sample
def refs : List String := ["beta-alien", "beta-brazil"]

end Sample

end Datorium.CatchUp
