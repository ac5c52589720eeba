import Mathlib.Algebra.Order.Field.Rat
import Datorium.SchemaPatch.Selection
namespace Datorium
open Framework
def signedDigits : List Char → ℤ
  | '-' :: digits => -(Nat.ofDigitChars 10 digits 0 : ℕ)
  | '+' :: digits => (Nat.ofDigitChars 10 digits 0 : ℕ)
  | digits => (Nat.ofDigitChars 10 digits 0 : ℕ)

def numericValue (text : String) : ℚ :=
  let mantissa := text.toList.takeWhile fun c => c ≠ 'e' ∧ c ≠ 'E'
  let exponent := text.toList.drop (mantissa.length + 1)
  let whole := mantissa.takeWhile (· ≠ '.')
  let fraction := mantissa.drop (whole.length + 1)
  signedDigits (whole ++ fraction) * 10 ^ (signedDigits exponent - fraction.length)

structure Floats.ZeroText (fl : Floats) : Prop where
  zero : numericValue (fl.marshal fl.zero) = 0
  eq_zero : ∀ f, fl.eq f fl.zero = true ↔ numericValue (fl.marshal f) = 0

namespace Json
def number? : Json → Option ℚ
  | .num text => some (numericValue text)
  | _ => none

mutual

def numberTexts : Json → List String
  | .num text => [text]
  | .arr items => itemTexts items
  | .obj fields => fieldTexts fields
  | _ => []

def itemTexts : List Json → List String
  | [] => []
  | item :: items => item.numberTexts ++ itemTexts items

def fieldTexts : List (String × Json) → List String
  | [] => []
  | field :: fields => textsOfField field ++ fieldTexts fields

def textsOfField : String × Json → List String
  | (_, value) => value.numberTexts
end
end Json
section
variable (fl : Floats)
def writtenNumber (text : String) : String := fl.marshal ((fl.parse text).getD fl.zero)

mutual

theorem numberTexts_toPlainValue (v : Json) :
    ((toPlainValue fl v).written fl).numberTexts = v.numberTexts.map (writtenNumber fl) := by
  cases v with
  | arr items =>
    simpa [toPlainValue, Any.written, Json.numberTexts] using itemTexts_toPlainItems items
  | obj fields =>
    simpa [toPlainValue, Any.written, Json.numberTexts] using fieldTexts_toPlainFields fields
  | _ => simp [toPlainValue, Any.written, Json.numberTexts, writtenNumber]

theorem itemTexts_toPlainItems (items : List Json) :
    Json.itemTexts (writtenList fl (toPlainItems fl items)) =
      (Json.itemTexts items).map (writtenNumber fl) := by
  cases items with
  | nil => simp [toPlainItems, writtenList, Json.itemTexts]
  | cons item items =>
    simp [toPlainItems, writtenList, Json.itemTexts, numberTexts_toPlainValue item,
      itemTexts_toPlainItems items]

theorem fieldTexts_toPlainFields (fields : List (String × Json)) :
    Json.fieldTexts (writtenFields fl (toPlainFields fl fields)) =
      (Json.fieldTexts fields).map (writtenNumber fl) := by
  cases fields with
  | nil => simp [toPlainFields, writtenFields, Json.fieldTexts]
  | cons field fields =>
    obtain ⟨key, value⟩ := field
    simp [toPlainFields, toPlainField, writtenFields, writtenField, Json.fieldTexts,
      Json.textsOfField, numberTexts_toPlainValue value, fieldTexts_toPlainFields fields]
end
end
section
variable (fl : Floats)
def fillLiteral (raw : JsonFields) : Option Json :=
  match Fields.get? "value" raw, (readUpdate fl raw).schema with
  | some value, _ => some value
  | none, none => none
  | none, some schema =>
    match Fields.get? "default" schema, Fields.get? "failover" raw with
    | some value, _ => some value
    | none, some .null => none
    | none, failover => failover

def literal (doc : Fields String (Any fl.F)) (raw : JsonFields) : Option Json :=
  let op := readUpdate fl raw
  match op.kind with
  | some .add => fillLiteral fl raw
  | some .importField =>
    if (docPointerGet doc op.path).any (schemaKindMatches (op.schema.getD [])) then none
    else fillLiteral fl raw
  | some .replace => Fields.get? "value" raw
  | some .convert =>
    if op.value.isNone && (docPointerGet doc op.path).isSome then none else fillLiteral fl raw
  | _ => none

def Converts (raw : JsonFields) (kind : Kind) : Prop :=
  (readUpdate fl raw).kind = some .convert ∧ (readUpdate fl raw).value = none ∧
    schemaKind ((readUpdate fl raw).schema.getD []) = some kind

def Imports (raw : JsonFields) (kind : Kind) : Prop :=
  (readUpdate fl raw).kind = some .importField ∧
    schemaKind ((readUpdate fl raw).schema.getD []) = some kind

variable {fl}
def valueAt (doc : Fields String (Any fl.F)) (raw : JsonFields) : Option (Any fl.F) :=
  docPointerGet doc (readUpdate fl raw).path

def numberAt (doc : Fields String (Any fl.F)) (raw : JsonFields) : Option ℚ :=
  (valueAt doc raw).bind fun v => (v.written fl).number?

structure KeepsNumbers (doc : Fields String (Any fl.F)) (raw : JsonFields)
    (doc' : Fields String (Any fl.F)) : Prop where
  converted : Converts fl raw .number → ∀ q, numberAt doc raw = some q → numberAt doc' raw = some q
  imported : Imports fl raw .number → ∀ q, numberAt doc raw = some q → numberAt doc' raw = some q
  truth : Converts fl raw .boolean → ∀ q, numberAt doc raw = some q →
    valueAt doc' raw = some (.bool (decide (q ≠ 0)))
  given : ∀ lit, literal fl doc raw = some lit →
    (valueAt doc' raw).map (fun v => (v.written fl).numberTexts.map numericValue) =
      some (lit.numberTexts.map numericValue)

/-- A number text that is converted to a number is zero, one that is converted to a boolean is not;
one that is imported fills the field; the floats of the list are written as given. -/
structure NumbersFit (doc : Fields String (Any fl.F)) (raw : JsonFields) : Prop where
  converted : Converts fl raw .number → ∀ text, valueAt doc raw = some (.number text) →
    numericValue text = 0
  imported : Imports fl raw .number → ∀ text, valueAt doc raw = some (.number text) →
    ((selectFillValue fl (readUpdate fl raw)).bind fun v => (v.written fl).number?) =
      some (numericValue text)
  truth : Converts fl raw .boolean → ∀ text, valueAt doc raw = some (.number text) →
    numericValue text ≠ 0
  given : ∀ lit, literal fl doc raw = some lit →
    ∀ text ∈ lit.numberTexts, numericValue (writtenNumber fl text) = numericValue text

variable {doc doc' : Fields String (Any fl.F)} {raw : JsonFields}
theorem selectFillValue_of_literal {lit : Json} (h : fillLiteral fl raw = some lit) :
    selectFillValue fl (readUpdate fl raw) = some (toPlainValue fl lit) := by
  have hvalue : (readUpdate fl raw).value = (Fields.get? "value" raw).map (toPlainValue fl) := rfl
  have hfailover : (readUpdate fl raw).failover =
      ((Fields.get? "failover" raw).map (toPlainValue fl)).getD .null := rfl
  unfold fillLiteral at h
  unfold selectFillValue
  rw [hvalue, hfailover]
  split at h
  · rename_i value hv
    cases h
    rw [hv]
    rfl
  · cases h
  · rename_i schema hv hs
    rw [hv, hs]
    split at h
    · rename_i hd
      cases h
      simp [hd]
    · cases h
    · rename_i hd hnull
      have hlit : lit ≠ .null := by
        rintro rfl
        exact hnull h
      rw [h]
      simp [hd, presentFailover_toPlainValue hlit]

section
variable (hpath : splitPath (readUpdate fl raw).path ≠ [])
  (h : applyDocOp fl doc (readUpdate fl raw) = .ok doc')
include hpath h

omit h in
theorem valueAt_set (v : Any fl.F) :
    valueAt (docPointerSet doc (readUpdate fl raw).path v) raw = some v :=
  Any.walk_setAt_same v doc hpath

theorem valueAt_converted {kind : Kind} {v : Any fl.F} (hc : Converts fl raw kind)
    (hv : valueAt doc raw = some v) :
    valueAt doc' raw = some (convertKind fl v (some kind)) := by
  obtain ⟨hkind, hvalue, hschema⟩ := hc
  rw [valueAt] at hv
  simp only [applyDocOp, docChange, hkind, applyDocConvert, hvalue, hv, hschema, Except.map,
    DocChange.result] at h
  rw [← Except.ok.inj h, valueAt_set hpath]

theorem valueAt_imported (hkind : (readUpdate fl raw).kind = some .importField) : valueAt doc' raw =
      ((valueAt doc raw).filter (schemaKindMatches ((readUpdate fl raw).schema.getD []))).or
        (selectFillValue fl (readUpdate fl raw)) := by
  simp only [applyDocOp, docChange, hkind, Except.map] at h
  rw [← Except.ok.inj h, valueAt, get_applyDocAdd _ hpath, extraAt, if_pos hkind, valueAt]

theorem valueAt_literal {lit : Json} (hlit : literal fl doc raw = some lit) :
    valueAt doc' raw = some (toPlainValue fl lit) := by
  simp only [literal] at hlit
  split at hlit
  · rename_i hkind
    simp only [applyDocOp, docChange, hkind, Except.map] at h
    rw [← Except.ok.inj h, valueAt, get_applyDocAdd _ hpath, extraAt, if_neg (by simp [hkind]),
      selectFillValue_of_literal hlit]
    rfl
  · rename_i hkind
    split at hlit
    · cases hlit
    · rename_i hnone
      rw [valueAt_imported hpath h hkind, selectFillValue_of_literal hlit]
      cases hget : valueAt doc raw with
      | none => rfl
      | some v => simp_all [valueAt, Option.filter]
  · rename_i hkind
    have hvalue : (readUpdate fl raw).value = some (toPlainValue fl lit) := by
      simp [readUpdate, hlit]
    simp only [applyDocOp, docChange, hkind, hvalue, Except.map, DocChange.result] at h
    rw [← Except.ok.inj h, valueAt_set hpath]
  · rename_i hkind
    split at hlit
    · cases hlit
    · rename_i hmissing
      have hfill := selectFillValue_of_literal hlit
      simp only [applyDocOp, docChange, hkind, applyDocConvert, Except.map] at h
      cases hvalue : (readUpdate fl raw).value with
      | some value =>
        rw [hvalue] at h
        rw [selectFillValue, hvalue] at hfill
        rw [← Except.ok.inj h, DocChange.result, valueAt_set hpath]
        exact hfill
      | none =>
        cases hget : docPointerGet doc (readUpdate fl raw).path with
        | some v => simp [hvalue, hget] at hmissing
        | none =>
          rw [hvalue, hget, hfill] at h
          rw [← Except.ok.inj h, DocChange.result, valueAt_set hpath]
  · cases hlit

theorem given_iff {lit : Json} (hlit : literal fl doc raw = some lit) :
    (valueAt doc' raw).map (fun v => (v.written fl).numberTexts.map numericValue) =
        some (lit.numberTexts.map numericValue) ↔
      ∀ text ∈ lit.numberTexts, numericValue (writtenNumber fl text) = numericValue text := by
  rw [valueAt_literal hpath h hlit, Option.map_some, numberTexts_toPlainValue, List.map_map,
    Option.some_inj, List.map_inj_left]
  rfl

theorem keepsNumbers_iff (hfl : fl.ZeroText) : KeepsNumbers doc raw doc' ↔ NumbersFit doc raw := by
  constructor
  · intro hkeeps
    refine ⟨fun hc text htext => ?_, fun hi text htext => ?_, fun hc text htext => ?_,
      fun lit hlit => (given_iff hpath h hlit).mp (hkeeps.given lit hlit)⟩
    · have hq := hkeeps.converted hc _ (by rw [numberAt, htext]; rfl)
      rw [numberAt, valueAt_converted hpath h hc htext] at hq
      exact (Option.some.inj hq).symm.trans hfl.zero
    · have hq := hkeeps.imported hi _ (by rw [numberAt, htext]; rfl)
      rw [numberAt, valueAt_imported hpath h hi.1, htext] at hq
      simpa [Option.filter, schemaKindMatches, hi.2] using hq
    · have hq := hkeeps.truth hc _ (by rw [numberAt, htext]; rfl)
      rw [valueAt_converted hpath h hc htext] at hq
      simpa [convertKind, isEmptyOrNilValue] using hq
  · intro hfit
    refine ⟨fun hc q hq => ?_, fun hi q hq => ?_, fun hc q hq => ?_,
      fun lit hlit => (given_iff hpath h hlit).mpr (hfit.given lit hlit)⟩
    all_goals
      obtain ⟨v, hv, hnum⟩ := Option.bind_eq_some_iff.mp hq
      cases v <;> try cases hnum
    · -- zero is the only number text that survives
      rw [numberAt, valueAt_converted hpath h hc hv, hfit.converted hc _ hv, ← hfl.zero]
      rfl
    · rw [numberAt, valueAt_converted hpath h hc hv]
      rfl
    · rw [numberAt, valueAt_imported hpath h hi.1, hv, ← hfit.imported hi _ hv]
      simp [Option.filter, schemaKindMatches, hi.2]
    · rw [numberAt, valueAt_imported hpath h hi.1, hv]
      simp [Option.filter, schemaKindMatches, hi.2, Any.written, Json.number?]
    · rw [valueAt_converted hpath h hc hv]
      simp [convertKind, isEmptyOrNilValue, hfit.truth hc _ hv]
    · rename_i f
      rw [valueAt_converted hpath h hc hv]
      have heq := hfl.eq_zero f
      by_cases hz : numericValue (fl.marshal f) = 0 <;> simp_all [convertKind, isEmptyOrNilValue]
end

variable (fl) in
def AtEveryUpdate (rule : Fields String (Any fl.F) → JsonFields → Fields String (Any fl.F) → Prop)
    (doc : Fields String (Any fl.F)) (raws : List JsonFields) : Prop :=
  ∀ before raw after mid out, raws = before ++ raw :: after →
    applyDocOps fl 0 (before.map (readUpdate fl)) doc = .ok mid →
    applyDocOp fl mid (readUpdate fl raw) = .ok out → rule mid raw out

/-- A migration of a document from disk keeps the rules for numbers exactly if the numbers fit at
every update. -/
theorem migration_numbers_iff (hfl : fl.ZeroText) {spec : UpdateSpec fl.F} {raws : List JsonFields} {version : Int}
    (hraws : spec.updates = raws.map (readUpdate fl)) (hvalid : spec.validate version = [])
    (content : JsonFields) :
    AtEveryUpdate fl KeepsNumbers (Any.ofJsonFields content) raws ↔
      AtEveryUpdate fl (fun mid raw _ => NumbersFit mid raw) (Any.ofJsonFields content) raws := by
  have hstep : ∀ before raw after mid out, raws = before ++ raw :: after →
      applyDocOp fl mid (readUpdate fl raw) = .ok out →
      (KeepsNumbers mid raw out ↔ NumbersFit mid raw) := by
    intro before raw after mid out hsplit hop
    have hmem : readUpdate fl raw ∈ spec.updates := by
      rw [hraws, hsplit]
      exact List.mem_map_of_mem (List.mem_append_right _ List.mem_cons_self)
    obtain ⟨i, hi⟩ := UpdateOp.errors_of_validate hvalid hmem
    exact keepsNumbers_iff (splitPath_ne_nil (UpdateOp.valid_of_errors hi).1) hop hfl
  constructor
  · intro hkeeps before raw after mid out hsplit hbefore hop
    exact (hstep before raw after mid out hsplit hop).mp
      (hkeeps before raw after mid out hsplit hbefore hop)
  · intro hfit before raw after mid out hsplit hbefore hop
    exact (hstep before raw after mid out hsplit hop).mpr
      (hfit before raw after mid out hsplit hbefore hop)
end
namespace Sample
theorem zeroText : floats.ZeroText where
  zero := by decide +kernel
  eq_zero := (by decide +kernel : ∀ f : Fin 3,
    floats.eq f floats.zero = true ↔ numericValue (floats.marshal f) = 0)

def addCount : JsonFields :=
  [("op", .str "add"), ("path", .str "/count"), ("value", .num "31"),
    ("schema", .obj [("kind", .str "number")])]

def convertCount : JsonFields :=
  [("op", .str "convert"), ("path", .str "/count"), ("schema", .obj [("kind", .str "number")])]
end Sample
open Sample
theorem added_count_kept : AtEveryUpdate floats KeepsNumbers (Any.ofJsonFields []) [addCount] := by
  have hvalid : (UpdateSpec.mk 1 none "01ARZ3NDEKTSV4RRFFQ69G5FAV"
      ([addCount].map (readUpdate floats))).validate 1 = [] := by decide +kernel
  refine (migration_numbers_iff zeroText rfl hvalid []).mpr ?_
  intro before raw after mid out hsplit hbefore hop
  obtain ⟨rfl, hraw, -⟩ : before = [] ∧ raw = addCount ∧ after = [] := by
    cases before with
    | nil => simpa [eq_comm] using hsplit
    | cons head tail => simp at hsplit
  subst hraw
  refine ⟨fun hc => ?_, fun hi => ?_, fun hc => ?_, fun lit hlit text htext => ?_⟩
  · exact absurd hc.1 (by decide)
  · exact absurd hi.1 (by decide)
  · exact absurd hc.1 (by decide)
  · cases hlit
    rw [List.mem_singleton.mp htext]
    decide +kernel

theorem converted_count_lost :
    ¬ AtEveryUpdate floats KeepsNumbers (Any.ofJsonFields [("count", .num "31")])
      [convertCount] := by
  have hvalue : numericValue "31" = 31 := by decide +kernel
  intro h
  have hkeeps := h [] _ [] _ _ rfl rfl rfl
  have hq := hkeeps.converted ⟨rfl, rfl, rfl⟩ 31 (congrArg some hvalue)
  exact absurd hq (by decide +kernel)
end Datorium
