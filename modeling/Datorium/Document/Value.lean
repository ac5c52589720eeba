
import Datorium.Framework.Fields
/-!
# JSON values

An object keeps its fields in the order they were written, as ojson does; numbers keep their text.
-/
namespace Datorium
open Framework
inductive Json where
  | null
  | bool (b : Bool)
  | num (text : String)
  | str (s : String)
  | arr (items : List Json)
  | obj (fields : List (String × Json))

abbrev JsonFields := Fields String Json

namespace Json
/-- `Get`: a field of an object; a missing field and a non-object give nothing. -/
def get? (key : String) : Json → Option Json
  | obj fields => Fields.get? key fields
  | _ => none

def remove (key : String) : Json → Json
  | obj fields => obj (Fields.remove key fields)
  | v => v

def setTry (v : Json) (key : String) (value : Json) : Except String Json :=
  match v with
  | obj fields => .ok (obj (Fields.set key value fields))
  | _ => .error ("cannot set field \"" ++ key ++ "\"")

def toMap? : Json → Option JsonFields
  | obj fields => some fields
  | _ => none

/-- A Go type assertion `v.(string)` on an optional value, with `""` when it fails. -/
def asString : Option Json → String
  | some (str s) => s
  | _ => ""

/-- A Go type assertion `v.(bool)`, with `false` when it fails. -/
def asBool : Option Json → Bool
  | some (bool b) => b
  | _ => false

/-- The text `String()` gives for a possibly missing value. -/
def text : Option Json → String
  | some (str s) => s
  | some (num t) => t
  | some (bool b) => if b then "true" else "false"
  | some null => "null"
  | some (obj _) => "[object]"
  | some (arr _) => "[array]"
  | none => ""

@[simp] theorem get?_obj (key : String) (fields : JsonFields) :
    (obj fields).get? key = Fields.get? key fields := rfl

@[simp] theorem toMap?_obj (fields : JsonFields) : (obj fields).toMap? = some fields := rfl

theorem text_of_asString {v : Option Json} (h : asString v ≠ "") : text v = asString v := by
  cases v with
  | none => exact absurd rfl h
  | some json =>
    cases json with
    | str s => rfl
    | _ => exact absurd rfl h

@[simp] theorem asString_str (s : String) : asString (some (str s)) = s := rfl

@[simp] theorem text_str (s : String) : text (some (str s)) = s := rfl

mutual

/-- The text `fmt.Sprint` gives for a decoded value; map keys are printed in order. -/
def sprint : Json → String
  | null => "<nil>"
  | bool b => if b then "true" else "false"
  | num t => t
  | str s => s
  | arr items => "[" ++ " ".intercalate (sprintItems items) ++ "]"
  | obj fields =>
    "map[" ++ " ".intercalate
      ((Fields.sortByKey (sprintFields fields)).map fun f => f.1 ++ ":" ++ f.2) ++ "]"

def sprintItems : List Json → List String
  | [] => []
  | v :: vs => sprint v :: sprintItems vs

def sprintFields : List (String × Json) → List (String × String)
  | [] => []
  | f :: fs => (f.1, sprintField f) :: sprintFields fs

def sprintField : String × Json → String
  | (_, v) => sprint v
end

def stringField (detail : JsonFields) (key : String) : String :=
  match Fields.get? key detail with
  | none => ""
  | some null => ""
  | some v => sprint v

inductive Same : Json → Json → Prop
  | null : Same null null
  | bool (b : Bool) : Same (bool b) (bool b)
  | num (t : String) : Same (num t) (num t)
  | str (s : String) : Same (str s) (str s)
  | arr {vs ws : List Json} (hlen : vs.length = ws.length)
      (hitem : ∀ (i : Nat) v w, vs[i]? = some v → ws[i]? = some w → Same v w) : Same (arr vs) (arr ws)
  | obj {fs gs : JsonFields} (hkey : ∀ k, Fields.get? k fs = none ↔ Fields.get? k gs = none)
      (hfield : ∀ k v w, Fields.get? k fs = some v → Fields.get? k gs = some w → Same v w) :
      Same (obj fs) (obj gs)

theorem Same.refl : ∀ v, Same v v
  | .null => .null
  | .bool b => .bool b
  | .num t => .num t
  | .str s => .str s
  | .arr vs => by
      refine .arr rfl fun i v w hv hw => ?_
      have hvw : v = w := by rw [hv] at hw; exact Option.some.inj hw
      have hmem : v ∈ vs := List.mem_of_getElem? hv
      subst w
      exact Same.refl v
  | .obj fs => by
      refine .obj (fun k => Iff.rfl) fun k v w hv hw => ?_
      have hvw : v = w := by rw [hv] at hw; exact Option.some.inj hw
      have hmem : (k, v) ∈ fs := Fields.mem_of_get? hv
      subst w
      exact Same.refl v
termination_by v => sizeOf v
decreasing_by
  · simp only [arr.sizeOf_spec]
    have := List.sizeOf_lt_of_mem hmem
    omega
  · have h := List.sizeOf_lt_of_mem hmem
    simp only [Prod.mk.sizeOf_spec, obj.sizeOf_spec] at h ⊢
    omega

theorem Same.of_get? {fs gs : JsonFields} (h : ∀ k, Fields.get? k fs = Fields.get? k gs) :
    Same (.obj fs) (.obj gs) := by
  refine .obj (fun k => by rw [h k]) fun k v w hv hw => ?_
  rw [h k, hw] at hv
  cases hv
  exact Same.refl _

theorem Same.symm {v w : Json} (h : Same v w) : Same w v := by
  induction h with
  | null => exact .null
  | bool b => exact .bool b
  | num t => exact .num t
  | str s => exact .str s
  | arr hlen _ ih => exact .arr hlen.symm fun i v w hv hw => ih i w v hw hv
  | obj hkey _ ih => exact .obj (fun k => (hkey k).symm) fun k v w hv hw => ih k w v hw hv

theorem Same.trans {u v w : Json} (h : Same u v) (h' : Same v w) : Same u w := by
  induction h generalizing w with
  | null => exact h'
  | bool b => exact h'
  | num t => exact h'
  | str s => exact h'
  | @arr us vs hlen _ ih =>
    cases h' with
    | @arr _ ws hlen' hitem' =>
      refine .arr (hlen.trans hlen') fun i u w hu hw => ?_
      have hi : i < vs.length := hlen ▸ (List.getElem?_eq_some_iff.mp hu).1
      have hv : vs[i]? = some vs[i] := List.getElem?_eq_getElem hi
      exact ih i u vs[i] hu hv (hitem' i vs[i] w hv hw)
  | @obj fs gs hkey _ ih =>
    cases h' with
    | @obj _ hs hkey' hfield' =>
      refine .obj (fun k => (hkey k).trans (hkey' k)) fun k u w hu hw => ?_
      obtain ⟨v, hv⟩ : ∃ v, Fields.get? k gs = some v := by
        apply Option.ne_none_iff_exists'.mp
        intro hn
        rw [(hkey k).mpr hn] at hu
        cases hu
      exact ih k u v hu hv (hfield' k v w hv hw)
end Json
end Datorium
