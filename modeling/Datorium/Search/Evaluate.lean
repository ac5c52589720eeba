
import Datorium.Search.Bucket
/-! # Clauses, buckets and queries -/
namespace Datorium
open Framework List
inductive SearchOp where
  | opEquals
  | opIn
  | opExists
  | opContains
  | other (name : String)
  deriving DecidableEq, Repr

def SearchOp.text : SearchOp → String
  | opEquals => "equals"
  | opIn => "in"
  | opExists => "exists"
  | opContains => "contains"
  | other name => name

structure Clause (F : Type) where
  field : String
  op : SearchOp
  value : Any F := .null
  truth : String := ""
  select : String := ""
  hideNulls : Bool := false

structure Definition (F : Type) where
  clauses : List (Clause F)
  sort : List SortSpec

section
variable {F : Type}
def isVariable : Any F → Option String
  | .str s => if s.toList.head? = some '$' ∧ 2 ≤ s.utf8ByteSize then some s else none
  | _ => none

/-- The Go type of a decoded value, as `%T` prints it. -/
def Any.goType : Any F → String
  | .null => "<nil>"
  | .bool _ => "bool"
  | .number _ => "json.Number"
  | .float _ => "float64"
  | .str _ => "string"
  | .arr _ => "[]interface \x7b\x7d"
  | .obj _ => "map[string]interface \x7b\x7d"

structure SegmentOption (F : Type) where
  seg : String
  key : Any F

structure ClauseOutcome (F : Type) where
  included : Bool
  contributes : Bool := false
  options : List (SegmentOption F) := []

def ClauseOutcome.excluded : ClauseOutcome F := { included := false }

def singleSegment (seg : String) (key : Any F) (contributes included : Bool) : ClauseOutcome F :=
  { included, contributes, options := if contributes && included then [⟨seg, key⟩] else [] }

def truthSegment (b : Bool) : ClauseOutcome F := singleSegment (encodeTruth b) (.bool b) true true

def isNullValue : Option Json → Bool
  | some .null => true
  | _ => false

def isStringValue (cv : String) : Option Json → Bool
  | some (.str s) => s == cv
  | _ => false

def isBoolValue (cv : Bool) : Option Json → Bool
  | some (.bool b) => b == cv
  | _ => false

/-- There is a value; with `hideNulls` a null is none. -/
def existsValue (hideNulls : Bool) : Option Json → Bool
  | none => false
  | some .null => !hideNulls
  | some _ => true

def evaluateEquals (c : Clause F) (doc : JsonFields) : Except String (ClauseOutcome F) :=
  match isVariable c.value with
  | some _ =>
    match pointerGet doc c.field with
    | none => .ok .excluded
    | some (.str v) =>
      if maxSegmentRunes < v.length then .ok .excluded
      else .ok (singleSegment (encodeStringValue v) (.str v) true true)
    | some (.bool v) => .ok (truthSegment v)
    | some .null => .ok .excluded
    | some _ => .error "equals variable clause requires a string or boolean field value"
  | none =>
    let constant (isEqual : Bool) : ClauseOutcome F :=
      if c.truth ≠ "" then truthSegment isEqual else singleSegment "" .null false isEqual
    match c.value with
    | .null => .ok (truthSegment (isNullValue (pointerGet doc c.field)))
    | .str cv => .ok (constant (isStringValue cv (pointerGet doc c.field)))
    | .bool cv => .ok (constant (isBoolValue cv (pointerGet doc c.field)))
    | v => .error ("unsupported equals constant kind " ++ v.goType)

def listsString (values : List (Any F)) (s : String) : Bool :=
  values.any fun
    | .str v => v == s
    | _ => false

def evaluateIn (c : Clause F) (doc : JsonFields) : Except String (ClauseOutcome F) :=
  match c.value with
  | .arr values =>
    match pointerGet doc c.field with
    | some (.str s) =>
      .ok (if listsString values s then singleSegment (encodeStringValue s) (.str s) true true
        else .excluded)
    | _ => .ok .excluded
  | _ => .error "in clause requires a constant value array"

def evaluateExists (c : Clause F) (doc : JsonFields) : Except String (ClauseOutcome F) :=
  .ok (truthSegment (existsValue c.hideNulls (pointerGet doc c.field)))
end
section
variable (fl : Floats)
def normalizeKey (kind : ScalarKind) (v : Any fl.F) : Any fl.F :=
  match kind with
  | .number => (asFloat64 fl v).toOption.elim v .float
  | _ => v

/-- The segments of an array, each once; `seen` are those of the items before. -/
def arrayOptions : List Json → List String → List (SegmentOption fl.F)
  | [], _ => []
  | item :: items, seen =>
    match itemSegment fl (.ofJson item) with
    | none => arrayOptions items seen
    | some seg =>
      if seg ∈ seen then arrayOptions items seen
      else
        ⟨seg, (inferScalarKind fl (.ofJson item)).elim (.ofJson item) fun kind =>
          normalizeKey fl kind (.ofJson item)⟩ :: arrayOptions items (seg :: seen)

def evaluateContains (c : Clause fl.F) (doc : JsonFields) : Except String (ClauseOutcome fl.F) :=
  match pointerGet doc c.field with
  | some (.arr items) =>
    match isVariable c.value with
    | some _ =>
      let options := arrayOptions fl items []
      .ok (if options.isEmpty then .excluded else ⟨true, true, options⟩)
    | none =>
      match inferScalarKind fl c.value with
      | none => .error ("unsupported contains constant kind " ++ c.value.goType)
      | some kind =>
        if c.truth = "" then .error "contains constant clause requires truth"
        else .ok (truthSegment (items.any fun item => scalarsEqual fl kind (.ofJson item) c.value))
  | _ => .ok .excluded

def evaluateClause (c : Clause fl.F) (doc : JsonFields) : Except String (ClauseOutcome fl.F) :=
  match c.op with
  | .opEquals => evaluateEquals c doc
  | .opIn => evaluateIn c doc
  | .opExists => evaluateExists c doc
  | .opContains => evaluateContains fl c doc
  | .other name => .error ("unsupported op \"" ++ name ++ "\"")

def clauseError (i : Nat) (c : Clause fl.F) (message : String) : String :=
  "clause " ++ toString i ++ " (" ++ c.op.text ++ " " ++ c.field ++ "): " ++ message

structure EvalResult where
  isMatch : Bool
  segments : List String
  key : List (Any fl.F)

variable {fl}
def expandBuckets : List (ClauseOutcome fl.F) → List (List String × List (Any fl.F)) →
    List (EvalResult fl)
  | [], cur => cur.map fun (segs, keys) => ⟨true, segs, keys⟩
  | out :: outs, cur =>
    if !out.contributes then expandBuckets outs cur
    else if out.options.isEmpty then []
    else expandBuckets outs (cur.flatMap fun (segs, keys) =>
      out.options.map fun o => (segs ++ [o.seg], keys ++ [o.key]))

variable (fl)
/-- The clause loop of `EvaluateDocument`; no outcomes where a clause leaves the document out. -/
def evaluateClauses (doc : JsonFields) :
    Nat → List (Clause fl.F) → Except String (Option (List (ClauseOutcome fl.F)))
  | _, [] => .ok (some [])
  | i, c :: cs =>
    match evaluateClause fl c doc with
    | .error message => .error (clauseError fl i c message)
    | .ok out =>
      if !out.included then .ok none
      else
        match evaluateClauses doc (i + 1) cs with
        | .error message => .error message
        | .ok none => .ok none
        | .ok (some outs) => .ok (some (out :: outs))

def evaluateDocument (d : Definition fl.F) (doc : Option JsonFields) :
    Except String (List (EvalResult fl)) :=
  match doc with
  | none => .ok []
  | some doc =>
    match evaluateClauses fl doc 0 d.clauses with
    | .error message => .error message
    | .ok none => .ok []
    | .ok (some outs) => .ok (expandBuckets outs [([], [])])

def lookupVar (vars : JsonFields) (name : String) : Option Json :=
  Fields.get? (if name.toList.head? = some '$' then String.ofList name.toList.tail else name) vars

def lookupBoolVar (vars : JsonFields) (name : String) : Except String Bool :=
  match lookupVar vars name with
  | none => .error ("missing required variable " ++ name)
  | some (.bool b) => .ok b
  | some _ => .error ("variable " ++ name ++ " must be a boolean")

def truthQuery (vars : JsonFields) (name : String) : Except String (Option String) :=
  (lookupBoolVar vars name).map fun b => some (encodeTruth b)

variable {fl}
def resolveEqualsQuery (c : Clause fl.F) (vars : JsonFields) : Except String (Option String) :=
  match isVariable c.value with
  | some varName =>
    match lookupVar vars varName with
    | none => .error ("missing required variable " ++ varName)
    | some (.str tv) =>
      if maxSegmentRunes < tv.length then
        .error ("variable " ++ varName ++ " exceeds the 63-rune limit for equals")
      else .ok (some (encodeStringValue tv))
    | some (.bool tv) => .ok (some (encodeTruth tv))
    | some _ => .error ("variable " ++ varName ++ " must be a string or boolean")
  | none =>
    match c.value with
    | .null =>
      if c.truth = "" then .error "equals value:null requires a truth variable"
      else truthQuery vars c.truth
    | _ => if c.truth = "" then .ok none else truthQuery vars c.truth

def resolveInQuery (c : Clause fl.F) (vars : JsonFields) : Except String (Option String) :=
  if c.select = "" then .error "in clause requires a select variable"
  else
    match lookupVar vars c.select with
    | none => .error ("missing required variable " ++ c.select)
    | some (.str s) =>
      let values := match c.value with
        | .arr values => values
        | _ => []
      if listsString values s then .ok (some (encodeStringValue s))
      else .error ("variable " ++ c.select ++ " value \"" ++ s ++
        "\" is not one of the search definition's allowed constants")
    | some _ => .error ("variable " ++ c.select ++ " must be a string")

def resolveExistsQuery (c : Clause fl.F) (vars : JsonFields) : Except String (Option String) :=
  match isVariable c.value with
  | none => .error "exists clause requires a truth variable"
  | some varName => truthQuery vars varName

variable (fl)
def resolveContainsQuery (c : Clause fl.F) (vars : JsonFields) : Except String (Option String) :=
  match isVariable c.value with
  | some varName =>
    match lookupVar vars varName with
    | none => .error ("missing required variable " ++ varName)
    | some v => (variableSegment fl varName (.ofJson v)).map some
  | none =>
    if c.truth = "" then .error "contains constant clause requires a truth variable"
    else truthQuery vars c.truth

def resolveClauseQuery (c : Clause fl.F) (vars : JsonFields) : Except String (Option String) :=
  match c.op with
  | .opEquals => resolveEqualsQuery c vars
  | .opIn => resolveInQuery c vars
  | .opExists => resolveExistsQuery c vars
  | .opContains => resolveContainsQuery fl c vars
  | .other name => .error ("unsupported op \"" ++ name ++ "\"")

/-- The clause loop of `ResolveQueryPath`. -/
def resolveClauses (vars : JsonFields) : Nat → List (Clause fl.F) → Except String (List String)
  | _, [] => .ok []
  | i, c :: cs =>
    match resolveClauseQuery fl c vars with
    | .error message => .error (clauseError fl i c message)
    | .ok seg => (resolveClauses vars (i + 1) cs).map fun segs => seg.toList ++ segs

def resolveQueryPath (d : Definition fl.F) (vars : JsonFields) : Except String (List String) :=
  resolveClauses fl vars 0 d.clauses
end
section
variable {F : Type}
def Any.IsJson : Any F → Json → Prop
  | .null, v => v = .null
  | .bool b, v => v = .bool b
  | .str s, v => v = .str s
  | _, _ => False

def Clause.Holds (c : Clause F) (doc : JsonFields) (P : Json → Prop) : Prop :=
  ∃ v, pointerGet doc c.field = some v ∧ P v

/-- A variable is bound to a truth value, which says whether `P` holds. -/
def Decides (vars : JsonFields) (name : String) (P : Prop) : Prop :=
  ∃ b, lookupVar vars name = some (.bool b) ∧ (b = true ↔ P)

def Clause.Satisfied (c : Clause F) (vars doc : JsonFields) : Prop :=
  match c.op with
  | .opEquals =>
    match isVariable c.value with
    | some name => ∃ v, lookupVar vars name = some v ∧ c.Holds doc fun w => w = v
    | none =>
      if c.truth = "" then c.Holds doc c.value.IsJson
      else Decides vars c.truth (c.Holds doc c.value.IsJson)
  | .opIn =>
    ∃ s values, c.value = .arr values ∧ lookupVar vars c.select = some (.str s) ∧
      .str s ∈ values ∧ c.Holds doc fun w => w = .str s
  | .opExists =>
    ∃ name, isVariable c.value = some name ∧
      Decides vars name (c.Holds doc fun w => c.hideNulls = true → w ≠ .null)
  | .opContains =>
    ∃ items, pointerGet doc c.field = some (.arr items) ∧ match isVariable c.value with
      | some name => ∃ v, lookupVar vars name = some v ∧ v ∈ items
      | none => Decides vars c.truth (∃ v ∈ items, c.value.IsJson v)
  | .other _ => False

def Json.Plain : Json → Prop
  | .null => True
  | .bool _ => True
  | .str _ => True
  | _ => False

def Any.PlainConstant : Any F → Prop
  | .null => True
  | .bool _ => True
  | .str _ => True
  | _ => False

/-- A `contains` clause ranges over arrays of strings, booleans and nulls, and so does its
constant. -/
structure Clause.Ranges (c : Clause F) (doc : JsonFields) : Prop where
  items : c.op = .opContains → ∀ items, pointerGet doc c.field = some (.arr items) →
    ∀ v ∈ items, v.Plain
  constant : c.op = .opContains → isVariable c.value = none → c.value.PlainConstant
end

/-- The outcome of a clause fits a resolved clause: it takes part in the path with this segment, or
in neither. -/
def ClauseOutcome.Offers {F : Type} (out : ClauseOutcome F) : Option String → Prop
  | none => out.contributes = false
  | some seg => out.contributes = true ∧ ∃ o ∈ out.options, o.seg = seg

theorem truthQuery_ok {vars : JsonFields} {name : String} {r : Option String}
    (h : truthQuery vars name = .ok r) :
    ∃ b, lookupVar vars name = some (.bool b) ∧ r = some (encodeTruth b) := by
  unfold truthQuery lookupBoolVar at h
  cases hv : lookupVar vars name with
  | none => simp [hv, Except.map] at h
  | some v =>
    cases v with
    | bool b =>
      simp only [hv, Except.map, Except.ok.injEq] at h
      exact ⟨b, rfl, h.symm⟩
    | _ => simp [hv, Except.map] at h

section
variable {F : Type} {vars doc : JsonFields} {c : Clause F}
theorem singleSegment_offers {seg seg' : String} {key : Any F} :
    (singleSegment seg key true true).Offers (some seg') ↔ seg = seg' := by
  simp [ClauseOutcome.Offers, singleSegment]

theorem truthSegment_offers {m b : Bool} :
    (truthSegment m : ClauseOutcome F).Offers (some (encodeTruth b)) ↔ m = b :=
  singleSegment_offers.trans encodeTruth_injective.eq_iff

theorem encodeStringValue_ne_truth (s : String) (b : Bool) : encodeStringValue s ≠ encodeTruth b := by
  cases b with
  | true => exact encodeStringValue_ne (c := 't') (by decide) (by decide) (by decide)
  | false => exact encodeStringValue_ne (c := 'f') (by decide) (by decide) (by decide)

theorem encodeStringValue_ne_null (s : String) : encodeStringValue s ≠ encodeNull :=
  encodeStringValue_ne (c := 'n') (by decide) (by decide) (by decide)

theorem decides_iff {name : String} {P : Prop} {m : Bool} (hm : m = true ↔ P) {r : Option String}
    (hr : truthQuery vars name = .ok r) :
    Decides vars name P ↔
      (truthSegment m : ClauseOutcome F).included = true ∧ (truthSegment m : ClauseOutcome F).Offers r := by
  obtain ⟨b, hb, rfl⟩ := truthQuery_ok hr
  rw [truthSegment_offers]
  constructor
  · rintro ⟨b', hb', hP⟩
    rw [hb] at hb'
    cases hb'
    refine ⟨rfl, Bool.eq_iff_iff.mpr (hm.trans hP.symm)⟩
  · rintro ⟨-, rfl⟩
    exact ⟨m, hb, hm⟩

theorem holds_iff_of_some {P : Json → Prop} {v : Json} (h : pointerGet doc c.field = some v) :
    c.Holds doc P ↔ P v := by
  simp [Clause.Holds, h]

theorem not_holds_of_none {P : Json → Prop} (h : pointerGet doc c.field = none) :
    ¬ c.Holds doc P := by
  simp [Clause.Holds, h]
end
section
variable {fl : Floats} {vars doc : JsonFields} {c : Clause fl.F} {out : ClauseOutcome fl.F}
  {r : Option String}
theorem equals_variable_agrees {name : String} (hvar : isVariable c.value = some name)
    (hout : evaluateEquals c doc = .ok out) (hr : resolveEqualsQuery c vars = .ok r) :
    (∃ v, lookupVar vars name = some v ∧ c.Holds doc fun w => w = v) ↔
      out.included = true ∧ out.Offers r := by
  simp only [resolveEqualsQuery, hvar] at hr
  simp only [evaluateEquals, hvar] at hout
  cases hv : lookupVar vars name with
  | none => simp [hv] at hr
  | some v =>
    have hone : (∃ u, some v = some u ∧ c.Holds doc fun w => w = u) ↔
        c.Holds doc fun w => w = v := by simp
    rw [hone]
    rw [hv] at hr
    -- the variable is a short string or a boolean, or the path does not resolve
    have hkind : (∃ s, v = .str s ∧ s.length ≤ maxSegmentRunes ∧ r = some (encodeStringValue s)) ∨
        ∃ b, v = .bool b ∧ r = some (encodeTruth b) := by
      cases v with
      | str s =>
        simp only at hr
        split at hr
        · cases hr
        · rename_i hshort
          exact .inl ⟨s, rfl, Nat.not_lt.mp hshort, (Except.ok.inj hr).symm⟩
      | bool b => exact .inr ⟨b, rfl, (Except.ok.inj hr).symm⟩
      | _ => cases hr
    cases hp : pointerGet doc c.field with
    | none =>
      rw [hp] at hout
      cases hout
      simp [not_holds_of_none hp, ClauseOutcome.excluded]
    | some w =>
      rw [holds_iff_of_some hp]
      rw [hp] at hout
      cases w with
      | str t =>
        simp only at hout
        split at hout
        · rename_i hlong
          cases hout
          rcases hkind with ⟨s, rfl, hshort, rfl⟩ | ⟨b, rfl, rfl⟩
          · have hne : t ≠ s := by
              rintro rfl
              omega
            simp [ClauseOutcome.excluded, hne]
          · simp [ClauseOutcome.excluded]
        · cases hout
          rcases hkind with ⟨s, rfl, hshort, rfl⟩ | ⟨b, rfl, rfl⟩
          · rw [singleSegment_offers, encodeStringValue_injective.eq_iff]
            simp [singleSegment]
          · rw [singleSegment_offers]
            simp [encodeStringValue_ne_truth]
      | bool m =>
        cases hout
        rcases hkind with ⟨s, rfl, hshort, rfl⟩ | ⟨b, rfl, rfl⟩
        · rw [truthSegment, singleSegment_offers]
          simp [(encodeStringValue_ne_truth s m).symm]
        · rw [truthSegment_offers]
          simp [truthSegment, singleSegment]
      | null =>
        cases hout
        rcases hkind with ⟨s, rfl, hshort, rfl⟩ | ⟨b, rfl, rfl⟩ <;>
          simp [ClauseOutcome.excluded]
      | _ => cases hout

theorem isNullValue_iff : isNullValue (pointerGet doc c.field) = true ↔
    c.Holds doc fun v => v = .null := by
  unfold Clause.Holds
  cases pointerGet doc c.field with
  | none => simp [isNullValue]
  | some v => cases v <;> simp [isNullValue]

theorem isStringValue_iff (s : String) : isStringValue s (pointerGet doc c.field) = true ↔
    c.Holds doc fun v => v = .str s := by
  unfold Clause.Holds
  cases pointerGet doc c.field with
  | none => simp [isStringValue]
  | some v => cases v <;> simp [isStringValue]

theorem isBoolValue_iff (b : Bool) : isBoolValue b (pointerGet doc c.field) = true ↔
    c.Holds doc fun v => v = .bool b := by
  unfold Clause.Holds
  cases pointerGet doc c.field with
  | none => simp [isBoolValue]
  | some v => cases v <;> simp [isBoolValue]

theorem existsValue_iff (hideNulls : Bool) : existsValue hideNulls (pointerGet doc c.field) = true ↔
      c.Holds doc fun v => hideNulls = true → v ≠ .null := by
  unfold Clause.Holds
  cases pointerGet doc c.field with
  | none => simp [existsValue]
  | some v => cases v <;> simp [existsValue]

theorem constant_agrees {m : Bool} {P : Prop} (hm : m = true ↔ P)
    (hr : (if c.truth = "" then .ok none else truthQuery vars c.truth) = .ok r)
    (hout : (if c.truth ≠ "" then truthSegment m else singleSegment "" .null false m) = out) :
    (if c.truth = "" then P else Decides vars c.truth P) ↔ out.included = true ∧ out.Offers r := by
  subst hout
  by_cases ht : c.truth = ""
  · rw [if_pos ht] at hr ⊢
    rw [if_neg (not_not.mpr ht), ← Except.ok.inj hr, ← hm]
    simp [singleSegment, ClauseOutcome.Offers]
  · rw [if_neg ht] at hr ⊢
    rw [if_pos ht]
    exact decides_iff hm hr

theorem equals_constant_agrees (hvar : isVariable c.value = none)
    (hout : evaluateEquals c doc = .ok out) (hr : resolveEqualsQuery c vars = .ok r) :
    (if c.truth = "" then c.Holds doc c.value.IsJson
      else Decides vars c.truth (c.Holds doc c.value.IsJson)) ↔
      out.included = true ∧ out.Offers r := by
  simp only [resolveEqualsQuery, hvar] at hr
  simp only [evaluateEquals, hvar] at hout
  cases hvalue : c.value with
  | null =>
    rw [hvalue] at hr hout
    simp only at hr hout
    by_cases ht : c.truth = ""
    · rw [if_pos ht] at hr
      cases hr
    · rw [if_neg ht] at hr ⊢
      rw [← Except.ok.inj hout]
      exact decides_iff isNullValue_iff hr
  | str s =>
    rw [hvalue] at hr hout
    exact constant_agrees (isStringValue_iff s) hr (Except.ok.inj hout)
  | bool b =>
    rw [hvalue] at hr hout
    exact constant_agrees (isBoolValue_iff b) hr (Except.ok.inj hout)
  | _ =>
    rw [hvalue] at hout
    cases hout

theorem listsString_iff {values : List (Any fl.F)} {s : String} :
    listsString values s = true ↔ .str s ∈ values := by
  unfold listsString
  rw [any_eq_true]
  constructor
  · rintro ⟨v, hv, hs⟩
    cases v with
    | str t =>
      have ht : t = s := by simpa using hs
      rwa [ht] at hv
    | _ => cases hs
  · intro hs
    exact ⟨_, hs, by simp⟩

theorem in_agrees (hout : evaluateIn c doc = .ok out) (hr : resolveInQuery c vars = .ok r) :
    (∃ s values, c.value = .arr values ∧ lookupVar vars c.select = some (.str s) ∧
        .str s ∈ values ∧ c.Holds doc fun w => w = .str s) ↔ out.included = true ∧ out.Offers r := by
  cases hvalue : c.value with
  | arr values =>
    simp only [evaluateIn, hvalue] at hout
    simp only [resolveInQuery, hvalue] at hr
    split at hr
    · cases hr
    · cases hv : lookupVar vars c.select with
      | none => simp [hv] at hr
      | some v =>
        cases v with
        | str s =>
          simp only [hv] at hr
          split at hr
          · rename_i hlists
            rw [← Except.ok.inj hr]
            have hone : (∃ s' values', Any.arr values = Any.arr values' ∧
                some (Json.str s) = some (Json.str s') ∧ .str s' ∈ values' ∧
                  c.Holds doc fun w => w = .str s') ↔ c.Holds doc fun w => w = .str s := by
              constructor
              · rintro ⟨s', values', -, hs', -, hholds⟩
                cases hs'
                exact hholds
              · exact fun hholds => ⟨s, values, rfl, rfl, listsString_iff.mp hlists, hholds⟩
            rw [hone, ← isStringValue_iff]
            cases hp : pointerGet doc c.field with
            | none =>
              rw [hp] at hout
              cases hout
              simp [isStringValue, ClauseOutcome.excluded]
            | some w =>
              rw [hp] at hout
              cases w with
              | str t =>
                simp only at hout
                by_cases hlisted : listsString values t = true
                · rw [if_pos hlisted] at hout
                  cases hout
                  rw [singleSegment_offers, encodeStringValue_injective.eq_iff]
                  simp [isStringValue, singleSegment]
                · rw [if_neg hlisted] at hout
                  cases hout
                  have hne : t ≠ s := by
                    rintro rfl
                    exact hlisted hlists
                  simp [isStringValue, ClauseOutcome.excluded, hne]
              | _ =>
                cases hout
                simp [isStringValue, ClauseOutcome.excluded]
          · cases hr
        | _ => simp [hv] at hr
  | _ =>
    simp only [evaluateIn, hvalue] at hout
    cases hout

theorem exists_agrees (hout : evaluateExists c doc = .ok out)
    (hr : resolveExistsQuery c vars = .ok r) :
    (∃ name, isVariable c.value = some name ∧
        Decides vars name (c.Holds doc fun w => c.hideNulls = true → w ≠ .null)) ↔
      out.included = true ∧ out.Offers r := by
  unfold resolveExistsQuery at hr
  cases hvar : isVariable c.value with
  | none => simp [hvar] at hr
  | some name =>
    simp only [hvar] at hr
    rw [← Except.ok.inj hout, ← decides_iff (existsValue_iff c.hideNulls) hr]
    simp

theorem mem_arrayOptions {items : List Json} {seen : List String} {seg : String} :
    (∃ o ∈ arrayOptions fl items seen, o.seg = seg) ↔
      seg ∉ seen ∧ ∃ v ∈ items, itemSegment fl (.ofJson v) = some seg := by
  induction items generalizing seen with
  | nil => simp [arrayOptions]
  | cons item items ih =>
    unfold arrayOptions
    cases hitem : itemSegment fl (.ofJson item) with
    | none => simp [hitem, ih]
    | some seg' =>
      simp only
      by_cases hseen : seg' ∈ seen
      · rw [if_pos hseen, ih]
        constructor
        · rintro ⟨hnot, v, hv, hseg⟩
          exact ⟨hnot, v, mem_cons_of_mem _ hv, hseg⟩
        · rintro ⟨hnot, v, hv, hseg⟩
          rcases mem_cons.mp hv with rfl | hv
          · rw [hitem] at hseg
            cases hseg
            exact absurd hseen hnot
          · exact ⟨hnot, v, hv, hseg⟩
      · rw [if_neg hseen]
        simp only [mem_cons, exists_eq_or_imp, ih, not_or]
        constructor
        · rintro (rfl | ⟨⟨-, hnot⟩, hrest⟩)
          · exact ⟨hseen, .inl hitem⟩
          · exact ⟨hnot, .inr hrest⟩
        · rintro ⟨hnot, hfirst | hrest⟩
          · rw [hitem] at hfirst
            exact .inl (Option.some.inj hfirst)
          · by_cases hseg : seg = seg'
            · exact .inl hseg.symm
            · exact .inr ⟨⟨hseg, hnot⟩, hrest⟩

theorem itemSegment_plain {v : Json} (hv : v.Plain) {seg : String} :
    itemSegment fl (.ofJson v) = some seg ↔
      v = .null ∧ encodeNull = seg ∨ (∃ b, v = .bool b ∧ encodeTruth b = seg) ∨
        ∃ s, v = .str s ∧ s.length ≤ maxSegmentRunes ∧ encodeStringValue s = seg := by
  cases v with
  | null =>
    simp [itemSegment, inferScalarKind, Any.ofJson, encodeScalarByKind, Except.toOption]
  | bool b =>
    simp [itemSegment, inferScalarKind, Any.ofJson, encodeScalarByKind, Except.toOption]
  | str s =>
    by_cases hlong : maxSegmentRunes < s.length
    · simp [itemSegment, inferScalarKind, Any.ofJson, tooLong, hlong, Nat.not_le.mpr hlong]
    · simp [itemSegment, inferScalarKind, Any.ofJson, tooLong, hlong, Nat.not_lt.mp hlong,
        encodeScalarByKind, Except.toOption]
  | _ => exact hv.elim

theorem itemSegment_of_variable {w : Json} {name seg : String}
    (hseg : variableSegment fl name (.ofJson w) = .ok seg) : itemSegment fl (.ofJson w) = some seg := by
  unfold variableSegment at hseg
  unfold itemSegment
  cases hkind : inferScalarKind fl (.ofJson w) with
  | none => simp [hkind] at hseg
  | some kind =>
    simp only [hkind] at hseg ⊢
    split at hseg
    · cases hseg
    · rename_i hshort
      rw [if_neg hshort, hseg]
      rfl

theorem itemSegment_eq_iff {v w : Json} (hv : v.Plain) (hw : w.Plain) {seg : String}
    (hseg : itemSegment fl (.ofJson w) = some seg) :
    itemSegment fl (.ofJson v) = some seg ↔ v = w := by
  constructor
  · intro hv'
    rcases (itemSegment_plain hv).mp hv' with ⟨rfl, hs⟩ | ⟨b, rfl, hs⟩ | ⟨s, rfl, -, hs⟩ <;>
      rcases (itemSegment_plain hw).mp hseg with ⟨rfl, ht⟩ | ⟨b', rfl, ht⟩ | ⟨t, rfl, -, ht⟩ <;>
      rw [← ht] at hs
    · exact absurd hs (by cases b' <;> decide)
    · exact absurd hs.symm (encodeStringValue_ne_null t)
    · exact absurd hs (by cases b <;> decide)
    · rw [encodeTruth_injective hs]
    · exact absurd hs.symm (encodeStringValue_ne_truth t b)
    · exact absurd hs (encodeStringValue_ne_null s)
    · exact absurd hs (encodeStringValue_ne_truth s b')
    · rw [encodeStringValue_injective hs]
  · rintro rfl
    exact hseg

theorem scalarsEqual_iff {v : Json} {value : Any fl.F} {kind : ScalarKind}
    (hvalue : value.PlainConstant) (hkind : inferScalarKind fl value = some kind) :
    scalarsEqual fl kind (.ofJson v) value = true ↔ value.IsJson v := by
  cases value with
  | null =>
    cases hkind
    cases v <;> simp [scalarsEqual, Any.ofJson, Any.IsJson]
  | bool b =>
    cases hkind
    cases v <;> simp [scalarsEqual, Any.ofJson, Any.IsJson]
  | str s =>
    cases hkind
    cases v <;> simp [scalarsEqual, Any.ofJson, Any.IsJson]
  | _ => exact hvalue.elim

theorem contains_agrees (hranges : c.Ranges doc) (hc : c.op = .opContains)
    (hvars : ∀ name v, lookupVar vars name = some v → v.Plain)
    (hout : evaluateContains fl c doc = .ok out) (hr : resolveContainsQuery fl c vars = .ok r) :
    c.Satisfied vars doc ↔ out.included = true ∧ out.Offers r := by
  rw [Clause.Satisfied, hc]
  simp only
  unfold evaluateContains at hout
  unfold resolveContainsQuery at hr
  cases hp : pointerGet doc c.field with
  | none =>
    rw [hp] at hout
    cases hout
    simp [ClauseOutcome.excluded]
  | some w =>
    rw [hp] at hout
    cases w with
    | arr items =>
      have hone : ∀ P : List Json → Prop,
          (∃ items', some (Json.arr items) = some (Json.arr items') ∧ P items') ↔ P items := by
        intro P
        simp
      rw [hone]
      cases hvar : isVariable c.value with
      | some name =>
        rw [hvar] at hout hr
        cases hv : lookupVar vars name with
        | none => simp [hv] at hr
        | some v =>
          simp only [hv] at hr hout
          cases hseg : variableSegment fl name (.ofJson v) with
          | error message => simp [hseg, Except.map] at hr
          | ok seg =>
            rw [hseg] at hr
            cases hr
            have hitem := itemSegment_of_variable hseg
            have hmem : (∃ o ∈ arrayOptions fl items [], o.seg = seg) ↔ v ∈ items := by
              rw [mem_arrayOptions]
              constructor
              · rintro ⟨-, v', hv', hseg'⟩
                rwa [← (itemSegment_eq_iff (hranges.items hc items hp v' hv')
                  (hvars name v hv) hitem).mp hseg']
              · exact fun hv' => ⟨not_mem_nil, v, hv', hitem⟩
            have hlook : (∃ v', lookupVar vars name = some v' ∧ v' ∈ items) ↔
                v ∈ items := by simp [hv]
            refine (hlook.trans hmem.symm).trans ?_
            cases hempty : (arrayOptions fl items []).isEmpty with
            | true =>
              rw [hempty] at hout
              cases hout
              simp [ClauseOutcome.excluded, List.isEmpty_iff.mp hempty]
            | false =>
              rw [hempty] at hout
              cases hout
              simp [ClauseOutcome.Offers]
      | none =>
        rw [hvar] at hout hr
        simp only at hr hout
        cases hkind : inferScalarKind fl c.value with
        | none => simp [hkind] at hout
        | some kind =>
          by_cases ht : c.truth = ""
          · simp [ht] at hr
          · simp only [hkind, if_neg ht] at hout
            rw [if_neg ht] at hr
            rw [← Except.ok.inj hout]
            refine decides_iff ?_ hr
            rw [any_eq_true]
            exact exists_congr fun v => and_congr_right fun _ =>
              scalarsEqual_iff (hranges.constant hc hvar) hkind
    | _ =>
      cases hout
      simp [ClauseOutcome.excluded]

theorem clause_agrees (hranges : c.Ranges doc)
    (hvars : ∀ name v, lookupVar vars name = some v → v.Plain)
    (hout : evaluateClause fl c doc = .ok out) (hr : resolveClauseQuery fl c vars = .ok r) :
    c.Satisfied vars doc ↔ out.included = true ∧ out.Offers r := by
  unfold evaluateClause at hout
  unfold resolveClauseQuery at hr
  cases hc : c.op with
  | opEquals =>
    rw [hc] at hout hr
    rw [Clause.Satisfied, hc]
    cases hvar : isVariable c.value with
    | some name => exact equals_variable_agrees hvar hout hr
    | none => exact equals_constant_agrees hvar hout hr
  | opIn =>
    rw [hc] at hout hr
    rw [Clause.Satisfied, hc]
    exact in_agrees hout hr
  | opExists =>
    rw [hc] at hout hr
    rw [Clause.Satisfied, hc]
    exact exists_agrees hout hr
  | opContains =>
    rw [hc] at hout hr
    exact contains_agrees hranges hc hvars hout hr
  | other name =>
    rw [hc] at hout
    cases hout

def Clause.inPath {F : Type} (c : Clause F) : Bool :=
  match c.op with
  | .opEquals =>
    (isVariable c.value).isSome || c.truth ≠ "" || match c.value with
      | .null => true
      | _ => false
  | _ => true

theorem evaluateClause_contributes (hout : evaluateClause fl c doc = .ok out) (hincluded : out.included = true) :
    out.contributes = c.inPath := by
  unfold evaluateClause at hout
  unfold Clause.inPath
  cases hc : c.op with
  | opEquals =>
    simp only [hc] at hout ⊢
    unfold evaluateEquals at hout
    cases hvar : isVariable c.value with
    | some name =>
      simp only [hvar] at hout
      split at hout
      · cases hout
        cases hincluded
      · split at hout
        · cases hout
          cases hincluded
        · cases hout
          rfl
      · cases hout
        rfl
      · cases hout
        cases hincluded
      · cases hout
    | none =>
      simp only [hvar] at hout
      by_cases ht : c.truth = ""
      · cases hvalue : c.value <;> simp only [hvalue, ht] at hout <;> cases hout <;>
          simp [ht, truthSegment, singleSegment]
      · cases hvalue : c.value <;> simp only [hvalue] at hout <;> cases hout <;>
          simp [ht, truthSegment, singleSegment]
  | opIn =>
    simp only [hc] at hout ⊢
    unfold evaluateIn at hout
    split at hout
    · split at hout
      · rw [Except.ok.injEq] at hout
        split at hout
        · rw [← hout]
          rfl
        · rw [← hout] at hincluded
          cases hincluded
      · cases hout
        cases hincluded
    · cases hout
  | opExists =>
    simp only [hc] at hout ⊢
    cases hout
    rfl
  | opContains =>
    simp only [hc] at hout ⊢
    unfold evaluateContains at hout
    split at hout
    · split at hout
      · rw [Except.ok.injEq] at hout
        split at hout
        · rw [← hout] at hincluded
          cases hincluded
        · rw [← hout]
      · split at hout
        · cases hout
        · split at hout
          · cases hout
          · cases hout
            rfl
    · cases hout
      cases hincluded
  | other name =>
    simp only [hc] at hout
    cases hout

theorem resolveClauseQuery_isSome (hr : resolveClauseQuery fl c vars = .ok r) : r.isSome = c.inPath := by
  have htruth : ∀ name, truthQuery vars name = .ok r → r.isSome = true := by
    intro name h
    obtain ⟨b, -, rfl⟩ := truthQuery_ok h
    rfl
  unfold resolveClauseQuery at hr
  unfold Clause.inPath
  cases hc : c.op with
  | opEquals =>
    simp only [hc] at hr ⊢
    unfold resolveEqualsQuery at hr
    cases hvar : isVariable c.value with
    | some name =>
      simp only [hvar] at hr
      split at hr
      · cases hr
      · split at hr <;> cases hr
        rfl
      · cases hr
        rfl
      · cases hr
    | none =>
      simp only [hvar] at hr
      by_cases ht : c.truth = ""
      · cases hvalue : c.value <;> simp only [hvalue, ht, if_true] at hr <;> cases hr <;> simp [ht]
      · cases hvalue : c.value <;> simp only [hvalue, if_neg ht] at hr <;>
          rw [htruth _ hr] <;> simp [ht]
  | opIn =>
    simp only [hc] at hr ⊢
    unfold resolveInQuery at hr
    split at hr
    · cases hr
    · split at hr
      · cases hr
      · simp only at hr
        split at hr
        · split at hr <;> cases hr
          rfl
        · split at hr <;> cases hr
          rfl
      · cases hr
  | opExists =>
    simp only [hc] at hr ⊢
    unfold resolveExistsQuery at hr
    split at hr
    · cases hr
    · exact htruth _ hr
  | opContains =>
    simp only [hc] at hr ⊢
    unfold resolveContainsQuery at hr
    split at hr
    · split at hr
      · cases hr
      · rename_i v _
        rename_i name _ _ _
        cases hseg : variableSegment fl name (.ofJson v) with
        | error message => simp [hseg, Except.map] at hr
        | ok seg =>
          rw [hseg] at hr
          cases hr
          rfl
    · split at hr
      · cases hr
      · exact htruth _ hr
  | other name =>
    simp only [hc] at hr
    cases hr

inductive Picks : List (ClauseOutcome fl.F) → List String → Prop where
  | nil : Picks [] []
  | skip {out : ClauseOutcome fl.F} {outs : List (ClauseOutcome fl.F)} {segs : List String}
      (quiet : out.contributes = false) (rest : Picks outs segs) : Picks (out :: outs) segs
  | pick {out : ClauseOutcome fl.F} {outs : List (ClauseOutcome fl.F)} {segs : List String}
      {o : SegmentOption fl.F} (offers : out.contributes = true) (mem : o ∈ out.options)
      (rest : Picks outs segs) : Picks (out :: outs) (o.seg :: segs)

theorem mem_expandBuckets {outs : List (ClauseOutcome fl.F)}
    {cur : List (List String × List (Any fl.F))} {segs : List String} :
    segs ∈ (expandBuckets outs cur).map EvalResult.segments ↔
      ∃ before ∈ cur, ∃ rest, Picks outs rest ∧ segs = before.1 ++ rest := by
  induction outs generalizing cur with
  | nil =>
    simp only [expandBuckets, map_map, mem_map, Function.comp]
    constructor
    · rintro ⟨before, hbefore, rfl⟩
      exact ⟨before, hbefore, [], .nil, by simp⟩
    · rintro ⟨before, hbefore, rest, hrest, rfl⟩
      cases hrest
      exact ⟨before, hbefore, by simp⟩
  | cons out outs ih =>
    unfold expandBuckets
    cases hcontributes : out.contributes with
    | false =>
      rw [Bool.not_false, if_pos rfl, ih]
      refine exists_congr fun before => and_congr_right fun _ => exists_congr fun rest =>
        and_congr_left fun _ => ⟨fun h => .skip hcontributes h, fun h => ?_⟩
      cases h with
      | skip _ h => exact h
      | pick hoffers _ _ => rw [hcontributes] at hoffers; cases hoffers
    | true =>
      rw [Bool.not_true, if_neg (by simp)]
      have hstep : (∃ before ∈ cur, ∃ rest, Picks (out :: outs) rest ∧ segs = before.1 ++ rest) ↔
          ∃ before ∈ cur, ∃ o ∈ out.options, ∃ rest, Picks outs rest ∧
            segs = before.1 ++ o.seg :: rest := by
        refine exists_congr fun before => and_congr_right fun _ => ⟨?_, ?_⟩
        · rintro ⟨rest, hrest, rfl⟩
          cases hrest with
          | skip hquiet _ => rw [hcontributes] at hquiet; cases hquiet
          | pick _ hmem h => exact ⟨_, hmem, _, h, rfl⟩
        · rintro ⟨o, ho, rest, hrest, rfl⟩
          exact ⟨_, .pick hcontributes ho hrest, rfl⟩
      rw [hstep]
      by_cases hempty : out.options.isEmpty = true
      · rw [if_pos hempty]
        simp [List.isEmpty_iff.mp hempty]
      · rw [if_neg hempty, ih]
        constructor
        · rintro ⟨before', hbefore', rest, hrest, rfl⟩
          obtain ⟨before, hbefore, hmem⟩ := mem_flatMap.mp hbefore'
          obtain ⟨o, ho, rfl⟩ := mem_map.mp hmem
          exact ⟨before, hbefore, o, ho, rest, hrest, by simp⟩
        · rintro ⟨before, hbefore, o, ho, rest, hrest, rfl⟩
          exact ⟨_, mem_flatMap.mpr ⟨before, hbefore, mem_map_of_mem ho⟩, rest, hrest,
            by simp⟩

theorem picks_cons_iff {outs : List (ClauseOutcome fl.F)} {segs : List String}
    (haligned : out.contributes = r.isSome) :
    Picks (out :: outs) (r.toList ++ segs) ↔ out.Offers r ∧ Picks outs segs := by
  cases r with
  | none =>
    refine ⟨fun h => ?_, fun h => .skip haligned h.2⟩
    cases h with
    | skip hquiet hrest => exact ⟨hquiet, hrest⟩
    | pick hoffers _ _ =>
      rw [haligned] at hoffers
      cases hoffers
  | some seg =>
    refine ⟨fun h => ?_, fun h => ?_⟩
    · cases h with
      | skip hquiet _ =>
        rw [haligned] at hquiet
        cases hquiet
      | pick hoffers hmem hrest => exact ⟨⟨hoffers, _, hmem, rfl⟩, hrest⟩
    · obtain ⟨⟨hoffers, o, hmem, rfl⟩, hrest⟩ := h
      exact .pick hoffers hmem hrest

theorem clauses_agree {cs : List (Clause fl.F)} (hranges : ∀ c ∈ cs, c.Ranges doc)
    (hvars : ∀ name v, lookupVar vars name = some v → v.Plain) {i j : Nat}
    {outs : Option (List (ClauseOutcome fl.F))} (houts : evaluateClauses fl doc i cs = .ok outs)
    {segs : List String} (hsegs : resolveClauses fl vars j cs = .ok segs) :
    (∃ list, outs = some list ∧ Picks list segs) ↔ ∀ c ∈ cs, c.Satisfied vars doc := by
  induction cs generalizing i j outs segs with
  | nil =>
    cases houts
    cases hsegs
    simp [Picks.nil]
  | cons c cs ih =>
    rw [evaluateClauses] at houts
    rw [resolveClauses] at hsegs
    cases hout : evaluateClause fl c doc with
    | error message => simp [hout] at houts
    | ok out =>
      cases hr : resolveClauseQuery fl c vars with
      | error message => simp [hr] at hsegs
      | ok r =>
        simp only [hout] at houts
        simp only [hr] at hsegs
        cases hrest : resolveClauses fl vars (j + 1) cs with
        | error message => simp [hrest, Except.map] at hsegs
        | ok segs' =>
          rw [hrest] at hsegs
          cases hsegs
          have hagrees := clause_agrees (hranges c mem_cons_self) hvars hout hr
          have ih := fun outs' houts' => @ih (fun c' hc' => hranges c'
            (mem_cons_of_mem _ hc')) (i + 1) (j + 1) outs' houts' segs' hrest
          rw [forall_mem_cons, hagrees]
          cases hincluded : out.included with
          | false =>
            simp only [hincluded, Bool.not_false, if_true] at houts
            cases houts
            simp
          | true =>
            have haligned : out.contributes = r.isSome :=
              (evaluateClause_contributes hout hincluded).trans (resolveClauseQuery_isSome hr).symm
            simp only [hincluded, Bool.not_true, Bool.false_eq_true, if_false] at houts
            cases hrestOuts : evaluateClauses fl doc (i + 1) cs with
            | error message => simp [hrestOuts] at houts
            | ok outs' =>
              rw [eq_self_iff_true, true_and, ← ih outs' hrestOuts]
              cases outs' with
              | none =>
                simp only [hrestOuts] at houts
                cases houts
                simp
              | some list =>
                simp only [hrestOuts] at houts
                cases houts
                simp only [Option.some.injEq, exists_eq_left']
                exact picks_cons_iff haligned

theorem resolved_mem_iff {d : Definition fl.F} (hranges : ∀ c ∈ d.clauses, c.Ranges doc)
    (hvars : ∀ name v, lookupVar vars name = some v → v.Plain) {results : List (EvalResult fl)}
    (hresults : evaluateDocument fl d (some doc) = .ok results) {segs : List String}
    (hsegs : resolveQueryPath fl d vars = .ok segs) :
    segs ∈ results.map EvalResult.segments ↔ ∀ c ∈ d.clauses, c.Satisfied vars doc := by
  unfold evaluateDocument at hresults
  cases houts : evaluateClauses fl doc 0 d.clauses with
  | error message => simp [houts] at hresults
  | ok outs =>
    rw [← clauses_agree hranges hvars houts hsegs]
    cases outs with
    | none =>
      simp only [houts] at hresults
      cases hresults
      simp
    | some list =>
      simp only [houts] at hresults
      cases hresults
      rw [mem_expandBuckets]
      simp
end

inductive Segment (fl : Floats) : Any fl.F → String → Prop where
  | null : Segment fl .null encodeNull
  | bool (b : Bool) : Segment fl (.bool b) (encodeTruth b)
  | float (f : fl.F) : Segment fl (.float f) (fl.format f)
  | str (s : String) : Segment fl (.str s) (encodeStringValue s)

section
variable {fl : Floats} {c : Clause fl.F} {doc vars : JsonFields} {out : ClauseOutcome fl.F}
  {seg : String}
theorem Encoded.segment {v : Json} {kind : ScalarKind} (h : Encoded fl v kind seg) :
    Segment fl (normalizeKey fl kind (.ofJson v)) seg := by
  cases h with
  | null => simpa [normalizeKey, Any.ofJson] using Segment.null
  | bool b => simpa [normalizeKey, Any.ofJson] using Segment.bool b
  | @num text f parsed =>
    simpa [normalizeKey, Any.ofJson, asFloat64, parsed, Except.toOption] using Segment.float f
  | @str s short => simpa [normalizeKey, Any.ofJson] using Segment.str s

theorem segment_arrayOptions {items : List Json} {seen : List String} :
    ∀ o ∈ arrayOptions fl items seen, Segment fl o.key o.seg := by
  induction items generalizing seen with
  | nil => exact fun o ho => absurd ho not_mem_nil
  | cons item items ih =>
    intro o ho
    unfold arrayOptions at ho
    split at ho
    · exact ih o ho
    · rename_i seg hseg
      split at ho
      · exact ih o ho
      · rcases mem_cons.mp ho with rfl | ho
        · obtain ⟨kind, hkind⟩ := encoded_of_itemSegment hseg
          simpa [hkind.inferred] using hkind.segment
        · exact ih o ho

theorem segment_singleSegment {key : Any fl.F} {contributes included : Bool}
    (h : contributes = true → Segment fl key seg) :
    ∀ o ∈ (singleSegment seg key contributes included).options, Segment fl o.key o.seg := by
  intro o ho
  cases contributes with
  | false => simp [singleSegment] at ho
  | true =>
    cases included <;> simp [singleSegment] at ho
    subst ho
    exact h rfl

theorem segment_truthSegment (b : Bool) :
    ∀ o ∈ (truthSegment b : ClauseOutcome fl.F).options, Segment fl o.key o.seg :=
  segment_singleSegment fun _ => .bool b

theorem segment_excluded :
    ∀ o ∈ (ClauseOutcome.excluded : ClauseOutcome fl.F).options, Segment fl o.key o.seg :=
  fun _ ho => absurd ho not_mem_nil

theorem segment_evaluateEquals (h : evaluateEquals c doc = .ok out) :
    ∀ o ∈ out.options, Segment fl o.key o.seg := by
  have hconstant : ∀ isEqual : Bool, ∀ o ∈ (if c.truth ≠ "" then truthSegment isEqual
      else singleSegment "" .null false isEqual : ClauseOutcome fl.F).options,
        Segment fl o.key o.seg := by
    intro isEqual
    split
    · exact segment_truthSegment isEqual
    · exact segment_singleSegment fun hfalse => by cases hfalse
  unfold evaluateEquals at h
  split at h
  · split at h
    · cases h
      exact segment_excluded
    · split at h
      · cases h
        exact segment_excluded
      · cases h
        exact segment_singleSegment fun _ => .str _
    · cases h
      exact segment_truthSegment _
    · cases h
      exact segment_excluded
    · cases h
  · dsimp only at h
    split at h
    · cases h
      exact segment_truthSegment _
    · cases h
      exact hconstant _
    · cases h
      exact hconstant _
    · cases h

theorem segment_evaluateIn (h : evaluateIn c doc = .ok out) :
    ∀ o ∈ out.options, Segment fl o.key o.seg := by
  unfold evaluateIn at h
  split at h
  · split at h
    · cases h
      split
      · exact segment_singleSegment fun _ => .str _
      · exact segment_excluded
    · cases h
      exact segment_excluded
  · cases h

theorem segment_evaluateContains (h : evaluateContains fl c doc = .ok out) :
    ∀ o ∈ out.options, Segment fl o.key o.seg := by
  unfold evaluateContains at h
  split at h
  · split at h
    · cases h
      split
      · exact segment_excluded
      · exact segment_arrayOptions
    · split at h
      · cases h
      · split at h
        · cases h
        · cases h
          exact segment_truthSegment _
  · cases h
    exact segment_excluded

theorem segment_evaluateClause (h : evaluateClause fl c doc = .ok out) :
    ∀ o ∈ out.options, Segment fl o.key o.seg := by
  unfold evaluateClause at h
  split at h
  · exact segment_evaluateEquals h
  · exact segment_evaluateIn h
  · cases h
    exact segment_truthSegment _
  · exact segment_evaluateContains h
  · cases h

theorem segment_evaluateClauses {i : Nat} {cs : List (Clause fl.F)}
    {outs : List (ClauseOutcome fl.F)} (h : evaluateClauses fl doc i cs = .ok (some outs)) :
    ∀ out ∈ outs, ∀ o ∈ out.options, Segment fl o.key o.seg := by
  induction cs generalizing i outs with
  | nil =>
    cases h
    exact fun out hout => absurd hout not_mem_nil
  | cons c cs ih =>
    rw [evaluateClauses] at h
    split at h
    · cases h
    · rename_i out hout
      split at h
      · cases h
      · split at h
        · cases h
        · cases h
        · rename_i rest hrest
          cases h
          intro out' hout'
          rcases mem_cons.mp hout' with rfl | hout'
          · exact segment_evaluateClause hout
          · exact ih hrest out' hout'

theorem segment_truthQuery {name : String} (h : truthQuery vars name = .ok (some seg)) :
    ∃ v, Segment fl v seg := by
  unfold truthQuery at h
  cases hb : lookupBoolVar vars name with
  | error message => simp [hb, Except.map] at h
  | ok b =>
    simp only [hb, Except.map, Except.ok.injEq, Option.some.injEq] at h
    exact ⟨.bool b, h ▸ .bool b⟩

theorem segment_resolveClauseQuery (h : resolveClauseQuery fl c vars = .ok (some seg)) :
    ∃ v, Segment fl v seg := by
  unfold resolveClauseQuery at h
  split at h
  · unfold resolveEqualsQuery at h
    split at h
    · split at h
      · cases h
      · split at h
        · cases h
        · cases h
          exact ⟨_, .str _⟩
      · cases h
        exact ⟨_, .bool _⟩
      · cases h
    · split at h
      · split at h
        · cases h
        · exact segment_truthQuery h
      · split at h
        · cases h
        · exact segment_truthQuery h
  · unfold resolveInQuery at h
    split at h
    · cases h
    · split at h
      · cases h
      · rename_i s _
        dsimp only at h
        generalize listsString _ s = listed at h
        cases listed with
        | false => cases h
        | true =>
          cases h
          exact ⟨_, .str _⟩
      · cases h
  · unfold resolveExistsQuery at h
    split at h
    · cases h
    · exact segment_truthQuery h
  · unfold resolveContainsQuery at h
    split at h
    · split at h
      · cases h
      · rename_i name _ _ v _
        cases hseg : variableSegment fl name (.ofJson v) with
        | error message => simp [hseg, Except.map] at h
        | ok seg' =>
          simp only [hseg, Except.map, Except.ok.injEq, Option.some.injEq] at h
          subst h
          obtain ⟨kind, hkind⟩ := encoded_of_itemSegment (itemSegment_of_variable hseg)
          exact ⟨_, hkind.segment⟩
    · split at h
      · cases h
      · exact segment_truthQuery h
  · cases h
end
end Datorium
