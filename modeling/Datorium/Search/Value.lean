
import Datorium.Agents.Upgrade
namespace Datorium
open Framework
/-- The walk of `PointerGet`; nothing where the path is missing. -/
def pointerWalk : Json → List String → Option Json
  | v, [] => some v
  | .obj fields, seg :: segs =>
    match Fields.get? seg fields with
    | none => none
    | some v => pointerWalk v segs
  | .arr items, seg :: segs =>
    match atoi seg.toList with
    | none => none
    | some idx =>
      if 0 ≤ idx then
        match items[idx.toNat]? with
        | none => none
        | some v => pointerWalk v segs
      else none
  | _, _ :: _ => none

def pointerGet (doc : JsonFields) (path : String) : Option Json :=
  pointerWalk (.obj doc) (splitFieldPath path)

def hexUpper (n : Nat) : Char := if n < 10 then Char.ofNat (48 + n) else Char.ofNat (55 + n)

def hexByte (b : UInt8) : List Char := [hexUpper (b.toNat / 16), hexUpper (b.toNat % 16)]

def encodeStringValue (s : String) : String :=
  if s = "" then "empty" else String.ofList (s.toUTF8.data.toList.flatMap hexByte)

def encodeTruth (b : Bool) : String := if b then "true" else "false"

def encodeNull : String := "null"

/-- The scalar kinds of `ojson.JSONKind`. -/
inductive ScalarKind where
  | string
  | boolean
  | null
  | number
  deriving DecidableEq, Repr

section
variable (fl : Floats)
def parseFloatError (text : String) : String := "strconv.ParseFloat: parsing \"" ++ text ++ "\""

def asFloat64 : Any fl.F → Except String fl.F
  | .float f => .ok f
  | .number text => (fl.parse text).elim (.error (parseFloatError text)) .ok
  | .str text => (fl.parse text).elim (.error (parseFloatError text)) .ok
  | .null => .error "not a number: <nil>"
  | .bool _ => .error "not a number: bool"
  | .arr _ => .error "not a number: []interface \x7b\x7d"
  | .obj _ => .error "not a number: map[string]interface \x7b\x7d"

def isJSONNumber (v : Any fl.F) : Bool := (asFloat64 fl v).toBool

def encodeScalarNumber (v : Any fl.F) : Except String String := (asFloat64 fl v).map fl.format

def encodeScalarByKind : ScalarKind → Any fl.F → Except String String
  | .string, .str s => .ok (encodeStringValue s)
  | .string, _ => .error "expected string value"
  | .boolean, .bool b => .ok (encodeTruth b)
  | .boolean, _ => .error "expected boolean value"
  | .null, .null => .ok encodeNull
  | .null, _ => .error "expected null value"
  | .number, v => encodeScalarNumber fl v

def scalarsEqual : ScalarKind → Any fl.F → Any fl.F → Bool
  | .string, .str a, .str b => a == b
  | .boolean, .bool a, .bool b => a == b
  | .null, .null, .null => true
  | .number, a, b =>
    match asFloat64 fl a, asFloat64 fl b with
    | .ok x, .ok y => fl.eq x y
    | _, _ => false
  | _, _, _ => false

def inferScalarKind : Any fl.F → Option ScalarKind
  | .str _ => some .string
  | .bool _ => some .boolean
  | .null => some .null
  | v => if isJSONNumber fl v then some .number else none

def maxSegmentRunes : Nat := 63

def tooLong : Any fl.F → Bool
  | .str s => decide (maxSegmentRunes < s.length)
  | _ => false

/-- The segment of an array item; an item that is no scalar, a long string and a number out of range
have none. -/
def itemSegment (item : Any fl.F) : Option String :=
  match inferScalarKind fl item with
  | none => none
  | some kind =>
    if kind = .string ∧ tooLong fl item then none
    else (encodeScalarByKind fl kind item).toOption

/-- The segment of a variable, in `resolveContainsQuery`. -/
def variableSegment (varName : String) (v : Any fl.F) : Except String String :=
  match inferScalarKind fl v with
  | none => .error ("variable " ++ varName ++ " must be a string, number, boolean, or null")
  | some kind =>
    if kind = .string ∧ tooLong fl v then
      .error ("variable " ++ varName ++ " exceeds the 63-rune limit for contains")
    else encodeScalarByKind fl kind v
end

theorem hexUpper_injOn {m n : Nat} (hm : m < 16) (hn : n < 16) (h : hexUpper m = hexUpper n) :
    m = n := by
  have hall : ∀ m < 16, ∀ n < 16, hexUpper m = hexUpper n → m = n := by decide
  exact hall m hm n hn h

theorem hexByte_injective : Function.Injective hexByte := by
  intro a b h
  simp only [hexByte, List.cons.injEq, and_true] at h
  have ha := a.toNat_lt
  have hb := b.toNat_lt
  have hhigh := hexUpper_injOn (by omega) (by omega) h.1
  have hlow := hexUpper_injOn (by omega) (by omega) h.2
  apply UInt8.toNat_inj.mp
  omega

theorem flatMap_hexByte_injective : Function.Injective fun bytes : List UInt8 =>
    bytes.flatMap hexByte := by
  intro xs
  induction xs with
  | nil =>
    intro ys h
    cases ys with
    | nil => rfl
    | cons y ys => simp [hexByte] at h
  | cons x xs ih =>
    intro ys h
    cases ys with
    | nil => simp [hexByte] at h
    | cons y ys =>
      simp only [List.flatMap_cons] at h
      obtain ⟨hhead, htail⟩ := List.append_inj h rfl
      rw [hexByte_injective hhead, ih htail]

theorem hexUpper_not_lower {n : Nat} (hn : n < 16) : (hexUpper n).isLower = false := by
  revert n
  decide

theorem toList_encodeStringValue {s : String} (h : s ≠ "") :
    (encodeStringValue s).toList = s.toUTF8.data.toList.flatMap hexByte := by
  rw [encodeStringValue, if_neg h, String.toList_ofList]

theorem encodeStringValue_not_lower {s : String} (h : s ≠ "") {c : Char}
    (hc : c ∈ (encodeStringValue s).toList) : c.isLower = false := by
  rw [toList_encodeStringValue h, List.mem_flatMap] at hc
  obtain ⟨b, -, hb⟩ := hc
  have hlt := b.toNat_lt
  simp only [hexByte, List.mem_cons, List.not_mem_nil, or_false] at hb
  rcases hb with rfl | rfl <;> exact hexUpper_not_lower (by omega)

theorem encodeStringValue_ne {s lit : String} {c : Char} (hlit : lit ≠ "empty")
    (hc : c ∈ lit.toList) (hlower : c.isLower = true) : encodeStringValue s ≠ lit := by
  intro h
  by_cases hs : s = ""
  · exact hlit (by rw [← h, encodeStringValue, if_pos hs])
  · rw [← h] at hc
    rw [encodeStringValue_not_lower hs hc] at hlower
    cases hlower

theorem encodeStringValue_injective : Function.Injective encodeStringValue := by
  intro s t h
  by_cases hs : s = ""
  · by_cases ht : t = ""
    · rw [hs, ht]
    · rw [encodeStringValue, if_pos hs] at h
      have hlower := encodeStringValue_not_lower ht (c := 'e') (by rw [← h]; decide)
      exact absurd hlower (by decide)
  · by_cases ht : t = ""
    · rw [eq_comm, encodeStringValue, if_pos ht] at h
      have hlower := encodeStringValue_not_lower hs (c := 'e') (by rw [← h]; decide)
      exact absurd hlower (by decide)
    · have hlist := congrArg String.toList h
      rw [toList_encodeStringValue hs, toList_encodeStringValue ht] at hlist
      have hbytes := flatMap_hexByte_injective hlist
      apply String.toByteArray_inj.mp
      exact ByteArray.ext (Array.toList_inj.mp hbytes)

theorem encodeTruth_injective : Function.Injective encodeTruth := by
  intro a b
  revert a b
  decide

section
variable {fl : Floats} {x y : Json}
def Scalar (fl : Floats) : Json → Prop
  | .null => True
  | .bool _ => True
  | .num text => (fl.parse text).isSome = true
  | .str s => s.length ≤ maxSegmentRunes
  | _ => False

inductive Encoded (fl : Floats) : Json → ScalarKind → String → Prop where
  | null : Encoded fl .null .null encodeNull
  | bool (b : Bool) : Encoded fl (.bool b) .boolean (encodeTruth b)
  | num {text : String} {f : fl.F} (parsed : fl.parse text = some f) :
      Encoded fl (.num text) .number (fl.format f)
  | str {s : String} (short : s.length ≤ maxSegmentRunes) :
      Encoded fl (.str s) .string (encodeStringValue s)

theorem Scalar.encoded (h : Scalar fl x) : ∃ kind seg, Encoded fl x kind seg := by
  cases x with
  | null => exact ⟨_, _, .null⟩
  | bool b => exact ⟨_, _, .bool b⟩
  | num text =>
    obtain ⟨f, hf⟩ := Option.isSome_iff_exists.mp h
    exact ⟨_, _, .num hf⟩
  | str s => exact ⟨_, _, .str h⟩
  | arr items => exact h.elim
  | obj fields => exact h.elim

namespace Encoded
variable {kind kind' : ScalarKind} {seg seg' : String}
theorem inferred (h : Encoded fl x kind seg) : inferScalarKind fl (.ofJson x) = some kind := by
  cases h with
  | num parsed => simp [inferScalarKind, Any.ofJson, isJSONNumber, asFloat64, parsed, Except.toBool]
  | _ => simp [inferScalarKind, Any.ofJson]

theorem encoded (h : Encoded fl x kind seg) : encodeScalarByKind fl kind (.ofJson x) = .ok seg := by
  cases h with
  | num parsed =>
    simp [encodeScalarByKind, encodeScalarNumber, Any.ofJson, asFloat64, parsed, Except.map]
  | _ => simp [encodeScalarByKind, Any.ofJson]

theorem short (h : Encoded fl x kind seg) : ¬ (kind = .string ∧ tooLong fl (.ofJson x) = true) := by
  cases h with
  | str hs => simpa [tooLong, Any.ofJson] using hs
  | _ => simp

theorem itemSegment_eq (h : Encoded fl x kind seg) : itemSegment fl (.ofJson x) = some seg := by
  simp only [itemSegment, h.inferred, if_neg h.short, h.encoded]
  rfl

theorem variableSegment_eq (h : Encoded fl x kind seg) (varName : String) :
    variableSegment fl varName (.ofJson x) = .ok seg := by
  simp only [variableSegment, h.inferred, if_neg h.short, h.encoded]

theorem equal_iff (hfl : fl.Decimal) (hx : Encoded fl x kind seg) (hy : Encoded fl y kind seg') :
    (seg = seg' ↔ scalarsEqual fl kind (.ofJson x) (.ofJson y) = true) ↔
      ∀ t t' f f', x = .num t → y = .num t' → fl.parse t = some f → fl.parse t' = some f' →
        fl.eq f f' = true → f = f' := by
  cases hx with
  | null =>
    cases hy
    simp [scalarsEqual, Any.ofJson]
  | bool b =>
    cases hy with
    | bool b' => simp [scalarsEqual, Any.ofJson, encodeTruth_injective.eq_iff]
  | str hs =>
    cases hy with
    | str hs' => simp [scalarsEqual, Any.ofJson, encodeStringValue_injective.eq_iff]
  | @num t f parsed =>
    cases hy with
    | @num t' f' parsed' =>
      have hequal : scalarsEqual fl .number (.ofJson (.num t)) (.ofJson (.num t')) =
          fl.eq f f' := by
        simp [scalarsEqual, Any.ofJson, asFloat64, parsed, parsed']
      rw [hequal, hfl.injective.eq_iff]
      constructor
      · rintro h _ _ g g' ⟨⟩ ⟨⟩ hg hg' heq
        rw [parsed] at hg
        rw [parsed'] at hg'
        cases hg
        cases hg'
        exact h.mpr heq
      · intro h
        refine ⟨fun heq => ?_, h t t' f f' rfl rfl parsed parsed'⟩
        rw [heq]
        exact hfl.eq_self f'
end Encoded

theorem encoded_of_itemSegment {seg : String} (h : itemSegment fl (.ofJson x) = some seg) :
    ∃ kind, Encoded fl x kind seg := by
  have hscalar : Scalar fl x := by
    cases x with
    | null => trivial
    | bool b => trivial
    | num text =>
      cases hf : fl.parse text with
      | none =>
        simp [itemSegment, inferScalarKind, Any.ofJson, isJSONNumber, asFloat64, hf,
          Except.toBool] at h
      | some f => simp [Scalar, hf]
    | str s =>
      by_cases hlong : maxSegmentRunes < s.length
      · simp [itemSegment, inferScalarKind, Any.ofJson, tooLong, hlong] at h
      · exact Nat.le_of_not_lt hlong
    | arr items =>
      simp [itemSegment, inferScalarKind, Any.ofJson, isJSONNumber, asFloat64, Except.toBool] at h
    | obj fields =>
      simp [itemSegment, inferScalarKind, Any.ofJson, isJSONNumber, asFloat64, Except.toBool] at h
  obtain ⟨kind, seg', hseg'⟩ := hscalar.encoded
  rw [hseg'.itemSegment_eq] at h
  cases h
  exact ⟨kind, hseg'⟩


theorem Floats.Decimal.format_ne (hfl : fl.Decimal) (f : fl.F) {lit : String}
    (hlit : ∃ c cs, lit.toList = c :: cs ∧ c ≠ '-' ∧ c.isDigit = false) : fl.format f ≠ lit := by
  obtain ⟨c, cs, hc, hsign, hdigit⟩ := hlit
  obtain ⟨d, ds, hd, hlead⟩ := hfl.leading f
  intro h
  rw [h, hc] at hd
  obtain ⟨rfl, -⟩ := List.cons.inj hd
  rcases hlead with rfl | hlead
  · exact hsign rfl
  · rw [hdigit] at hlead
    cases hlead

theorem Encoded.kinds_of_eq (hfl : fl.Decimal) {kind kind' : ScalarKind} {seg : String}
    (hx : Encoded fl x kind seg) (hy : Encoded fl y kind' seg) (hne : kind ≠ kind') :
    (kind = .string ∧ kind' = .number) ∨ (kind = .number ∧ kind' = .string) := by
  have hnull : ∃ c cs, encodeNull.toList = c :: cs ∧ c ≠ '-' ∧ c.isDigit = false :=
    ⟨'n', ['u', 'l', 'l'], by decide⟩
  have htruth : ∀ b, ∃ c cs, (encodeTruth b).toList = c :: cs ∧ c ≠ '-' ∧ c.isDigit = false := by
    intro b
    cases b
    · exact ⟨'f', ['a', 'l', 's', 'e'], by decide⟩
    · exact ⟨'t', ['r', 'u', 'e'], by decide⟩
  have hstringNull : ∀ s, encodeStringValue s ≠ encodeNull := fun s =>
    encodeStringValue_ne (c := 'n') (by decide) (by decide) (by decide)
  have hstringTruth : ∀ s b, encodeStringValue s ≠ encodeTruth b := by
    intro s b
    cases b <;> exact encodeStringValue_ne (c := 'e') (by decide) (by decide) (by decide)
  have hnullTruth : ∀ b, encodeNull ≠ encodeTruth b := by decide
  generalize hseg : seg = seg' at hy
  cases hx <;> cases hy
  all_goals first
    | exact absurd rfl hne
    | exact .inl ⟨rfl, rfl⟩
    | exact .inr ⟨rfl, rfl⟩
    | exact absurd hseg (hnullTruth _)
    | exact absurd hseg.symm (hnullTruth _)
    | exact absurd hseg (hstringNull _)
    | exact absurd hseg.symm (hstringNull _)
    | exact absurd hseg (hstringTruth _ _)
    | exact absurd hseg.symm (hstringTruth _ _)
    | exact absurd hseg (hfl.format_ne _ hnull)
    | exact absurd hseg.symm (hfl.format_ne _ hnull)
    | exact absurd hseg (hfl.format_ne _ (htruth _))
    | exact absurd hseg.symm (hfl.format_ne _ (htruth _))

def SameSegment (fl : Floats) (varName : String) (x y : Json) : Prop :=
  ∃ seg, itemSegment fl (.ofJson x) = some seg ∧ variableSegment fl varName (.ofJson y) = .ok seg

def SameScalar (fl : Floats) (x y : Json) : Prop :=
  ∃ kind, inferScalarKind fl (.ofJson x) = some kind ∧ inferScalarKind fl (.ofJson y) = some kind ∧
    scalarsEqual fl kind (.ofJson x) (.ofJson y) = true

/-- No string has the decimal text of a number as its hexadecimal digits, and equal numbers are the
same. -/
structure ClearlyEncoded (fl : Floats) (x y : Json) : Prop where
  stringNumber : ∀ s t f, x = .str s → y = .num t → fl.parse t = some f →
    encodeStringValue s ≠ fl.format f
  numberString : ∀ s t f, x = .num t → y = .str s → fl.parse t = some f →
    encodeStringValue s ≠ fl.format f
  numbers : ∀ t t' f f', x = .num t → y = .num t' → fl.parse t = some f → fl.parse t' = some f' →
    fl.eq f f' = true → f = f'

/-- Segments tell scalars apart by kind and value exactly if they are clearly encoded. -/
theorem segments_separate_iff (hfl : fl.Decimal) (varName : String) (hx : Scalar fl x)
    (hy : Scalar fl y) :
    (SameSegment fl varName x y ↔ SameScalar fl x y) ↔ ClearlyEncoded fl x y := by
  obtain ⟨kind, seg, ex⟩ := hx.encoded
  obtain ⟨kind', seg', ey⟩ := hy.encoded
  have hsegment : SameSegment fl varName x y ↔ seg = seg' := by
    simp [SameSegment, ex.itemSegment_eq, ey.variableSegment_eq, eq_comm]
  have hscalar : SameScalar fl x y ↔
      kind = kind' ∧ scalarsEqual fl kind (.ofJson x) (.ofJson y) = true := by
    rw [SameScalar, ex.inferred, ey.inferred]
    constructor
    · rintro ⟨k, hk, hk', heq⟩
      cases hk
      cases hk'
      exact ⟨rfl, heq⟩
    · rintro ⟨rfl, heq⟩
      exact ⟨kind, rfl, rfl, heq⟩
  rw [hsegment, hscalar]
  by_cases hkind : kind = kind'
  · subst hkind
    rw [and_iff_right rfl, ex.equal_iff hfl ey]
    constructor
    · intro hnumbers
      refine ⟨?_, ?_, hnumbers⟩
      · rintro s t f rfl rfl -
        cases ex
        cases ey
      · rintro s t f rfl rfl -
        cases ex
        cases ey
    · exact fun h => h.numbers
  · have hother : ¬ (kind = kind' ∧ scalarsEqual fl kind (.ofJson x) (.ofJson y) = true) :=
      fun h => hkind h.1
    rw [iff_false_right hother]
    constructor
    · intro hne
      refine ⟨?_, ?_, ?_⟩
      · rintro s t f rfl rfl hf heq
        cases ex
        cases ey with
        | num parsed =>
          rw [parsed] at hf
          cases hf
          exact hne heq
      · rintro s t f rfl rfl hf heq
        cases ey
        cases ex with
        | num parsed =>
          rw [parsed] at hf
          cases hf
          exact hne heq.symm
      · rintro t t' f f' rfl rfl - - -
        cases ex
        cases ey
        exact absurd rfl hkind
    · rintro hclear rfl
      rcases ex.kinds_of_eq hfl ey hkind with ⟨rfl, rfl⟩ | ⟨rfl, rfl⟩
      · generalize hseg : seg = seg' at ey
        cases ex
        cases ey with
        | num parsed => exact hclear.stringNumber _ _ _ rfl rfl parsed hseg
      · generalize hseg : seg = seg' at ey
        cases ey
        cases ex with
        | num parsed => exact hclear.numberString _ _ _ rfl rfl parsed hseg.symm
end
namespace Sample
theorem floats_decimal : floats.Decimal where
  injective := by
    have hall : ∀ a b : Fin 3, numberText a = numberText b → a = b := by decide
    exact hall
  leading := by
    have hall : ∀ f : Fin 3, numberText f = "0" ∨ numberText f = "-0" ∨ numberText f = "31" := by
      intro f
      unfold numberText
      split
      · exact .inl rfl
      · split
        · exact .inr (.inl rfl)
        · exact .inr (.inr rfl)
    intro f
    change ∃ c cs, (numberText f).toList = c :: cs ∧ (c = '-' ∨ c.isDigit = true)
    rcases hall f with h | h | h <;> rw [h]
    · exact ⟨'0', [], rfl, .inr rfl⟩
    · exact ⟨'-', ['0'], rfl, .inl rfl⟩
    · exact ⟨'3', ['1'], rfl, .inr rfl⟩
  eq_self := by
    have hall : ∀ f : Fin 3, floats.eq f f = true := by decide
    exact hall

theorem segments_separate_strings :
    SameSegment floats "$tag" (.str "a") (.str "b") ↔ SameScalar floats (.str "a") (.str "b") := by
  refine (segments_separate_iff floats_decimal "$tag" (by change 1 ≤ 63; decide)
    (by change 1 ≤ 63; decide)).mpr ⟨?_, ?_, ?_⟩
  · intro s t f _ h
    cases h
  · intro s t f h
    cases h
  · intro t t' f f' h
    cases h

/-- The string `1` and the number `31` have one segment; `0` and `-0` are equal and have two. -/
theorem segments_not_separate : (itemSegment floats (.ofJson (.str "1")) = some "31" ∧
      variableSegment floats "$tag" (.ofJson (.num "31")) = .ok "31" ∧
      ¬ SameScalar floats (.str "1") (.num "31")) ∧
    (SameScalar floats (.num "0") (.num "-0") ∧ itemSegment floats (.ofJson (.num "0")) = some "0" ∧
      variableSegment floats "$tag" (.ofJson (.num "-0")) = .ok "-0") := by
  refine ⟨⟨by decide +kernel, by decide +kernel, ?_⟩,
    ⟨.number, by decide +kernel, by decide +kernel, by decide +kernel⟩, by decide +kernel,
    by decide +kernel⟩
  rintro ⟨kind, hx, hy, -⟩
  have hstring : inferScalarKind floats (.ofJson (.str "1")) = some .string := rfl
  have hnumber : inferScalarKind floats (.ofJson (.num "31")) = some .number := by decide +kernel
  rw [hstring] at hx
  rw [hnumber] at hy
  cases hx
  cases hy
end Sample
end Datorium
