import Datorium.SchemaPatch.Frame
/-! # The value of an added field -/
namespace Datorium
open Framework
namespace Any
variable {F : Type} {segs : List String}
theorem walk_nil (v : Any F) : v.walk [] = some v := by cases v <;> rfl

theorem walk_setAt_same (value : Any F) (doc : Fields String (Any F)) (h : segs ≠ []) :
    (Any.obj (setAt segs value doc)).walk segs = some value := by
  induction segs generalizing doc with
  | nil => exact absurd rfl h
  | cons seg segs ih =>
    rw [walk_cons]
    cases segs with
    | nil => rw [setAt, Fields.get?_set_same, Option.bind_some, walk_nil]
    | cons next segs =>
      rw [setAt_cons, Fields.get?_set_same, Option.bind_some]
      exact ih _ (List.cons_ne_nil _ _)

theorem walk_removeAt_same (doc : Fields String (Any F)) (h : segs ≠ []) :
    (Any.obj (removeAt segs doc)).walk segs = none := by
  induction segs generalizing doc with
  | nil => exact absurd rfl h
  | cons seg segs ih =>
    cases segs with
    | nil => rw [removeAt, walk_cons, Fields.get?_remove_same, Option.bind_none]
    | cons next segs =>
      rw [removeAt_cons]
      split
      · rw [walk_cons, Fields.get?_set_same, Option.bind_some]
        exact ih _ (List.cons_ne_nil _ _)
      · rename_i hnone
        rw [walk_cons]
        cases hseg : Fields.get? seg doc with
        | none => rfl
        | some v =>
          cases v with
          | obj fields => exact absurd hseg (hnone fields)
          | _ => rfl
end Any
section
variable (fl : Floats) (fits : JsonFields → Any fl.F → Bool)
def extraAt (doc : Fields String (Any fl.F)) (op : UpdateOp fl.F) : Option (Any fl.F) :=
  if op.kind = some .importField then docPointerGet doc op.path else none

variable {fl fits} {doc doc' : Fields String (Any fl.F)} {raw : JsonFields}
theorem splitPath_ne_nil {path : String} (h : validatePathTarget path = none) :
    splitPath path ≠ [] := by
  intro hroot
  rw [validatePathTarget, if_pos hroot] at h
  split at h <;> cases h

theorem get_applyDocAdd (op : UpdateOp fl.F) (hpath : splitPath op.path ≠ []) :
    docPointerGet ((applyDocAdd fl doc op).result op.path) op.path =
      ((extraAt fl doc op).filter (schemaKindMatches (op.schema.getD []))).or
        (selectFillValue fl op) := by
  have hset : ∀ (d : Fields String (Any fl.F)) v,
      docPointerGet (docPointerSet d op.path v) op.path = some v :=
    fun d v => Any.walk_setAt_same v d hpath
  have hremove : ∀ d : Fields String (Any fl.F),
      docPointerGet (docPointerRemove d op.path) op.path = none :=
    fun d => Any.walk_removeAt_same d hpath
  cases hextra : extraAt fl doc op with
  | none =>
    rw [extraAt] at hextra
    cases hfill : selectFillValue fl op <;>
      simp [applyDocAdd, hextra, DocChange.result, hfill, hset, hremove]
  | some v =>
    rw [extraAt] at hextra
    have hthere : docPointerGet doc op.path = some v := by
      split at hextra
      · exact hextra
      · cases hextra
    simp only [applyDocAdd, hextra]
    cases hmatch : schemaKindMatches (op.schema.getD []) v <;>
      cases hfill : selectFillValue fl op <;>
      simp [DocChange.result, hset, hremove, hmatch, hthere, Option.filter]

theorem presentFailover_toPlainValue {v : Json} (h : v ≠ .null) :
    presentFailover fl (toPlainValue fl v) = some (toPlainValue fl v) := by
  cases v with
  | null => exact absurd rfl h
  | _ => rfl

end
namespace Sample
end Sample
open Sample
end Datorium
