
import Datorium.Attachments.Manifest
import Datorium.Framework.Splits
/-! # Byte ranges of a download -/
namespace Datorium
open Framework
def parseRangeNumber (raw : List Char) : Option Nat :=
  (naturalOf raw).filter fun n => decide (n < 2 ^ 63)

def parseRangeSides (left right : List Char) (size : Int) : Except String (Int × Int × Bool) :=
  if left = [] then
    match parseRangeNumber right with
    | none => .error "invalid suffix byte range"
    | some suffix =>
      if suffix = 0 then .error "invalid suffix byte range"
      else .ok (size - min (suffix : Int) size, min (suffix : Int) size, true)
  else
    match parseRangeNumber left with
    | none => .error "byte range start is unsatisfiable"
    | some start =>
      if size ≤ start then .error "byte range start is unsatisfiable"
      else if right = [] then .ok (start, size - 1 - start + 1, true)
      else
        match parseRangeNumber right with
        | none => .error "invalid byte range end"
        | some stop =>
          if stop < start then .error "invalid byte range end"
          else .ok (start, min (stop : Int) (size - 1) - start + 1, true)

def parseRangeSpec (spec : List Char) (size : Int) : Except String (Int × Int × Bool) :=
  if spec = [] ∨ ',' ∈ spec then .error "exactly one byte range is supported"
  else
    match spec.dropWhile (· != '-') with
    | [] => .error "invalid byte range"
    | _ :: right => parseRangeSides (spec.takeWhile (· != '-')) right size

def rangeText (header : String) : Option (List Char) :=
  (trimSpace header.toList).dropPrefix? "bytes=".toList

def parseSingleByteRange (header : String) (size : Int) : Except String (Int × Int × Bool) :=
  match rangeText header with
  | none => .ok (0, size, false)
  | some text =>
    if size ≤ 0 then .error "invalid byte range" else parseRangeSpec (trimSpace text) size

/-- A `byte-range-spec` or a `suffix-byte-range-spec`. -/
inductive ByteRange where
  | closed (first last : Nat)
  | openEnded (first : Nat)
  | suffix (length : Nat)

def ByteRange.Reads : ByteRange → List Char → List Char → Prop
  | .closed first last, left, right => naturalOf left = some first ∧ naturalOf right = some last
  | .openEnded first, left, right => naturalOf left = some first ∧ right = []
  | .suffix length, left, right => left = [] ∧ naturalOf right = some length

def ByteRange.Text (r : ByteRange) (text : List Char) : Prop :=
  ∃ left right, text = left ++ '-' :: right ∧ r.Reads left right

/-- The start and the length of what a range selects of a file. -/
def ByteRange.select (size : Nat) : ByteRange → Option (Nat × Nat)
  | .closed first last =>
    if first ≤ last ∧ first < size then some (first, min last (size - 1) - first + 1) else none
  | .openEnded first => if first < size then some (first, size - first) else none
  | .suffix length =>
    if length = 0 then none else some (size - min length size, min length size)

def ByteRange.Below (bound : Nat) : ByteRange → Prop
  | .closed first last => first < bound ∧ last < bound
  | .openEnded first => first < bound
  | .suffix length => length < bound

structure RangeConforms (header : String) (size : Nat) : Prop where
  ignored : rangeText header = none → parseSingleByteRange header size = .ok (0, size, false)
  selected : ∀ text (r : ByteRange), rangeText header = some text → r.Text text →
    (parseSingleByteRange header size).toOption =
      (r.select size).map fun s => ((s.1 : Int), (s.2 : Int), true)
  refused : ∀ text, rangeText header = some text → (∀ r, ¬ ByteRange.Text r text) →
    (parseSingleByteRange header size).toOption = none
  bounded : ∀ start length part, parseSingleByteRange header size = .ok (start, length, part) →
    0 ≤ start ∧ (part = true → 1 ≤ length) ∧ start + length ≤ size

/-- The numbers of a satisfiable range fit an `int64`, the file is not empty, and no white space
follows the unit. -/
structure RangeFits (header : String) (size : Nat) : Prop where
  numbers : ∀ text (r : ByteRange), rangeText header = some text → r.Text text → r.select size ≠ none →
    0 < size ∧ r.Below (2 ^ 63)
  tight : ∀ text (r : ByteRange), rangeText header = some text → text ≠ trimSpace text →
    r.Text (trimSpace text) → r.select size ≠ none → 0 < size → ¬ r.Below (2 ^ 63)

theorem naturalOf_digits {digits : List Char} {n : Nat} (h : naturalOf digits = some n) :
    digits ≠ [] ∧ ∀ c ∈ digits, c.isDigit = true := by
  unfold naturalOf at h
  split at h
  · rename_i hdigits
    exact ⟨hdigits.1, List.all_eq_true.mp hdigits.2⟩
  · cases h

theorem parseRangeNumber_eq_some {raw : List Char} {n : Nat} :
    parseRangeNumber raw = some n ↔ naturalOf raw = some n ∧ n < 2 ^ 63 := by
  simp [parseRangeNumber, Option.filter_eq_some_iff]

namespace ByteRange
variable {r r' : ByteRange} {left right text : List Char}
theorem Reads.digits (h : r.Reads left right) : ∀ c ∈ left ++ right, c.isDigit = true := by
  have hdigits : ∀ {digits : List Char} {n : Nat}, naturalOf digits = some n →
      ∀ c ∈ digits, c.isDigit = true := fun h => (naturalOf_digits h).2
  intro c hc
  cases r <;> grind [Reads]

theorem Text.all (h : r.Text text) : ∀ c ∈ text, c.isDigit = true ∨ c = '-' := by
  obtain ⟨left, right, rfl, hr⟩ := h
  have hdigits := hr.digits
  grind

theorem Reads.no_hyphen (h : r.Reads left right) : '-' ∉ left :=
  fun hc => absurd (h.digits '-' (List.mem_append_left _ hc)) (by decide)

theorem Reads.unique (h : r.Reads left right) (h' : r'.Reads left right) : r = r' := by
  have hnil : naturalOf [] = none := rfl
  cases r <;> cases r' <;> grind [Reads]

theorem Text.unique (h : r.Text text) (h' : r'.Text text) : r = r' := by
  obtain ⟨left, right, rfl, hr⟩ := h
  obtain ⟨left', right', heq, hr'⟩ := h'
  rcases append_sep_eq_iff.mp heq with ⟨rfl, rfl⟩ | hs | hs
  · exact hr.unique hr'
  · exact absurd hs (not_shifted_of_not_mem hr'.no_hyphen)
  · exact absurd hs (not_shifted_of_not_mem hr.no_hyphen)
end ByteRange
section
variable {left right spec : List Char} {size : Nat} {res : Int × Int × Bool}
theorem parseRangeSides_eq_some_iff (hsize : size < 2 ^ 63) :
    (parseRangeSides left right size).toOption = some res ↔
      ∃ r s, ByteRange.Reads r left right ∧ r.Below (2 ^ 63) ∧ r.select size = some s ∧
        res = (↑s.1, ↑s.2, true) := by
  constructor
  · intro h
    unfold parseRangeSides at h
    split at h
    · rename_i hleft
      split at h
      · cases h
      · rename_i suffix hsuffix
        obtain ⟨hread, hbelow⟩ := parseRangeNumber_eq_some.mp hsuffix
        split at h
        · cases h
        · rename_i hzero
          refine ⟨.suffix suffix, _, ⟨hleft, hread⟩, hbelow, if_neg hzero, ?_⟩
          rw [← Option.some.inj h]
          simp only [Prod.mk.injEq, and_true]
          omega
    · split at h
      · cases h
      · rename_i start hstart
        obtain ⟨hread, hbelow⟩ := parseRangeNumber_eq_some.mp hstart
        split at h
        · cases h
        · rename_i hinside
          split at h
          · rename_i hright
            refine ⟨.openEnded start, _, ⟨hread, hright⟩, hbelow, if_pos (by omega), ?_⟩
            rw [← Option.some.inj h]
            simp only [Prod.mk.injEq, and_true, true_and]
            omega
          · split at h
            · cases h
            · rename_i stop hstop
              obtain ⟨hread', hbelow'⟩ := parseRangeNumber_eq_some.mp hstop
              split at h
              · cases h
              · refine ⟨.closed start stop, _, ⟨hread, hread'⟩, ⟨hbelow, hbelow'⟩,
                  if_pos (by omega), ?_⟩
                rw [← Option.some.inj h]
                simp only [Prod.mk.injEq, and_true, true_and]
                omega
  · rintro ⟨r, s, hr, hbelow, hs, rfl⟩
    cases r with
    | closed first last =>
      obtain ⟨hvalid, ⟨⟩⟩ := Option.ite_none_right_eq_some.mp hs
      have hfirst := parseRangeNumber_eq_some.mpr ⟨hr.1, hbelow.1⟩
      have hlast := parseRangeNumber_eq_some.mpr ⟨hr.2, hbelow.2⟩
      simp only [parseRangeSides, (naturalOf_digits hr.1).1, (naturalOf_digits hr.2).1, hfirst,
        hlast, if_false]
      rw [if_neg (by omega), if_neg (by omega)]
      simp only [Except.toOption, Option.some.injEq, Prod.mk.injEq, and_true, true_and]
      omega
    | openEnded first =>
      obtain ⟨hvalid, ⟨⟩⟩ := Option.ite_none_right_eq_some.mp hs
      have hfirst := parseRangeNumber_eq_some.mpr ⟨hr.1, hbelow⟩
      simp only [parseRangeSides, (naturalOf_digits hr.1).1, hr.2, hfirst, if_false, if_true]
      rw [if_neg (by omega)]
      simp only [Except.toOption, Option.some.injEq, Prod.mk.injEq, and_true, true_and]
      omega
    | suffix length =>
      obtain ⟨hvalid, ⟨⟩⟩ := Option.ite_none_left_eq_some.mp hs
      have hlength := parseRangeNumber_eq_some.mpr ⟨hr.2, hbelow⟩
      simp only [parseRangeSides, hr.1, hlength, hvalid, if_false, if_true]
      simp only [Except.toOption, Option.some.injEq, Prod.mk.injEq, and_true]
      omega

theorem parseRangeSpec_eq_some_iff (hsize : size < 2 ^ 63) :
    (parseRangeSpec spec size).toOption = some res ↔
      ∃ r s, ByteRange.Text r spec ∧ r.Below (2 ^ 63) ∧ r.select size = some s ∧
        res = (↑s.1, ↑s.2, true) := by
  constructor
  · intro h
    unfold parseRangeSpec at h
    split at h
    · cases h
    · split at h
      · cases h
      · rename_i c right hdrop
        obtain ⟨r, s, hr, hbelow, hs, hres⟩ := (parseRangeSides_eq_some_iff hsize).mp h
        have hc : c = '-' := by
          have hhead := List.head?_dropWhile_not (· != '-') spec
          rw [hdrop] at hhead
          simpa using hhead
        have hspec : spec = spec.takeWhile (· != '-') ++ '-' :: right := by
          conv_lhs => rw [← @List.takeWhile_append_dropWhile _ (· != '-') spec, hdrop, hc]
        exact ⟨r, s, ⟨_, right, hspec, hr⟩, hbelow, hs, hres⟩
  · rintro ⟨r, s, ht, hbelow, hs, hres⟩
    have hall := ht.all
    obtain ⟨left, right, rfl, hr⟩ := ht
    have hpass : ∀ c ∈ left, (c != '-') = true := by
      intro c hc
      exact bne_iff_ne.mpr fun heq => hr.no_hyphen (heq ▸ hc)
    have hcomma : ',' ∉ left ++ '-' :: right := fun hc => by simpa using hall ',' hc
    unfold parseRangeSpec
    rw [if_neg (by simpa using hcomma), List.dropWhile_append_of_pos hpass,
      List.takeWhile_append_of_pos hpass]
    simpa using (parseRangeSides_eq_some_iff hsize).mpr ⟨r, s, hr, hbelow, hs, hres⟩
end

theorem isSpace_of_digit {c : Char} (h : c.isDigit = true) : isSpace c = false := by
  simp only [Char.isDigit, Bool.and_eq_true, decide_eq_true_eq] at h
  have hlow : 48 ≤ c.toNat := UInt32.le_iff_toNat_le.mp h.1
  have hhigh : c.toNat ≤ 57 := UInt32.le_iff_toNat_le.mp h.2
  refine Bool.eq_false_iff.mpr fun hspace => ?_
  simp only [isSpace, Bool.or_eq_true, decide_eq_true_eq, Bool.and_eq_true, List.mem_cons,
    List.not_mem_nil, or_false] at hspace
  omega

theorem ByteRange.Text.trimSpace {r : ByteRange} {text : List Char} (h : r.Text text) :
    trimSpace text = text := by
  have hsolid : ∀ c ∈ text, isSpace c = false := fun c hc =>
    (h.all c hc).elim isSpace_of_digit fun hc => hc ▸ rfl
  have hkeep : ∀ cs : List Char, (∀ c ∈ cs, isSpace c = false) → cs.dropWhile isSpace = cs := by
    intro cs hcs
    cases cs with
    | nil => rfl
    | cons c cs => simp [hcs c]
  rw [Datorium.trimSpace, hkeep text hsolid, hkeep _ (by simpa using hsolid), List.reverse_reverse]

theorem ByteRange.select_bounds {r : ByteRange} {size : Nat} {s : Nat × Nat}
    (h : r.select size = some s) (hsize : 0 < size) : 1 ≤ s.2 ∧ s.1 + s.2 ≤ size := by
  cases r with
  | suffix length =>
    obtain ⟨hvalid, ⟨⟩⟩ := Option.ite_none_left_eq_some.mp h
    constructor <;> simp only <;> omega
  | _ =>
    obtain ⟨hvalid, ⟨⟩⟩ := Option.ite_none_right_eq_some.mp h
    constructor <;> simp only <;> omega

section
variable {header : String} {text : List Char} {size : Nat} {res : Int × Int × Bool}
theorem parseSingleByteRange_eq_some_iff (hsize : size < 2 ^ 63)
    (htext : rangeText header = some text) :
    (parseSingleByteRange header size).toOption = some res ↔ 0 < size ∧
      ∃ r s, ByteRange.Text r (trimSpace text) ∧ r.Below (2 ^ 63) ∧ r.select size = some s ∧
        res = (↑s.1, ↑s.2, true) := by
  unfold parseSingleByteRange
  rw [htext, ← parseRangeSpec_eq_some_iff hsize]
  by_cases hempty : 0 < size
  · simp [hempty, hempty.ne']
  · simp [Except.toOption, show size = 0 by omega]

theorem range_conforms_iff (header : String) (hsize : size < 2 ^ 63) :
    RangeConforms header size ↔ RangeFits header size := by
  constructor
  · intro h
    refine ⟨fun text r htext hr hsel => ?_, fun text r htext hspace hr hsel hpos hbelow => ?_⟩
    · obtain ⟨s, hs⟩ := Option.ne_none_iff_exists'.mp hsel
      have hsome := h.selected text r htext hr
      rw [hs] at hsome
      obtain ⟨hpos, r', -, hr', hbelow, -⟩ :=
        (parseSingleByteRange_eq_some_iff hsize htext).mp hsome
      rw [hr.trimSpace] at hr'
      exact ⟨hpos, hr.unique hr' ▸ hbelow⟩
    · obtain ⟨s, hs⟩ := Option.ne_none_iff_exists'.mp hsel
      have hsome := (parseSingleByteRange_eq_some_iff hsize htext).mpr
        ⟨hpos, r, s, hr, hbelow, hs, rfl⟩
      rw [h.refused text htext fun r' hr' => hspace hr'.trimSpace.symm] at hsome
      cases hsome
  · intro h
    refine ⟨fun htext => ?_, fun text r htext hr => ?_, fun text htext hnone => ?_,
      fun start length part hok => ?_⟩
    · rw [parseSingleByteRange, htext]
    · cases hs : r.select size with
      | some s =>
        obtain ⟨hpos, hbelow⟩ := h.numbers text r htext hr (by simp [hs])
        exact (parseSingleByteRange_eq_some_iff hsize htext).mpr
          ⟨hpos, r, s, hr.trimSpace.symm ▸ hr, hbelow, hs, rfl⟩
      | none =>
        refine Option.eq_none_iff_forall_ne_some.mpr fun res hres => ?_
        obtain ⟨-, r', s, hr', -, hs', -⟩ := (parseSingleByteRange_eq_some_iff hsize htext).mp hres
        rw [hr.trimSpace] at hr'
        rw [hr.unique hr', hs'] at hs
        cases hs
    · refine Option.eq_none_iff_forall_ne_some.mpr fun res hres => ?_
      obtain ⟨hpos, r, s, hr, hbelow, hs, -⟩ := (parseSingleByteRange_eq_some_iff hsize htext).mp hres
      by_cases hspace : text = trimSpace text
      · exact hnone r (hspace ▸ hr)
      · exact h.tight text r htext hspace hr (by simp [hs]) hpos hbelow
    · cases htext : rangeText header with
      | none =>
        rw [parseSingleByteRange, htext] at hok
        cases hok
        simp
      | some text =>
        have hres := congrArg Except.toOption hok
        obtain ⟨hpos, r, s, -, -, hs, heq⟩ := (parseSingleByteRange_eq_some_iff hsize htext).mp hres
        have hbounds := r.select_bounds hs hpos
        obtain ⟨rfl, rfl, rfl⟩ : start = s.1 ∧ length = s.2 ∧ part = true := by simpa using heq
        omega
end

theorem range_conforms_clamped : (10 : Nat) < 2 ^ 63 ∧ RangeConforms "bytes=2-20" 10 := by
  have htext : rangeText "bytes=2-20" = some "2-20".toList := by decide +kernel
  have hr : ByteRange.Text (.closed 2 20) "2-20".toList :=
    ⟨['2'], ['2', '0'], rfl, by decide +kernel, by decide +kernel⟩
  refine ⟨by decide, (range_conforms_iff "bytes=2-20" (by decide)).mpr
    ⟨fun text r h hr' _ => ?_, fun text r h hspace => ?_⟩⟩
  · obtain rfl := Option.some.inj (htext.symm.trans h)
    rw [hr'.unique hr]
    exact ⟨by decide, by decide, by decide⟩
  · obtain rfl := Option.some.inj (htext.symm.trans h)
    exact absurd hr.trimSpace.symm hspace

/-- An end of 2^63 or more is refused. -/
theorem range_end_overflows : ¬ RangeConforms "bytes=0-9223372036854775808" 10 := by
  intro h
  have hfacts : rangeText "bytes=0-9223372036854775808" = some "0-9223372036854775808".toList ∧
      naturalOf ['0'] = some 0 ∧
      naturalOf "9223372036854775808".toList = some 9223372036854775808 ∧
      (parseSingleByteRange "bytes=0-9223372036854775808" 10).toOption = none := by
    decide +kernel
  have hsome := h.selected _ (.closed 0 9223372036854775808) hfacts.1
    ⟨['0'], _, rfl, hfacts.2.1, hfacts.2.2.1⟩
  rw [show ((10 : Nat) : Int) = 10 from rfl, hfacts.2.2.2] at hsome
  cases hsome
end Datorium
