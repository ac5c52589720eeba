import Datorium.Caches.References
import Datorium.Search.Value
namespace Datorium
open Framework
def looksLikeIndex (seg : String) : Bool := seg ≠ "" && seg.toList.all fun c => '0' ≤ c && c ≤ '9'

/-- The walk of `ResolveFieldSchema`. -/
def resolveSegments : SchemaEntry → List String → Option SchemaEntry
  | node, [] => some node
  | node, seg :: segs =>
    if node.kind = .array ∧ looksLikeIndex seg = true then
      node.items.bind fun items => resolveSegments items segs
    else (node.child seg).bind fun child => resolveSegments child segs

def resolveFieldSchema (root : SchemaEntry) (path : String) : Option SchemaEntry :=
  resolveSegments root (splitFieldPath path)

def fieldPathResolves (root : SchemaEntry) (path : String) : Bool := summaryPathResolves root path

/-- What the compiler of schemas checks of the shape: only objects have children, which have names,
and only arrays have items. -/
inductive SchemaEntry.Compiled : SchemaEntry → Prop where
  | mk {name format : String} {kind : Kind} {custom : Option Json} {children : List SchemaEntry}
      {items : Option SchemaEntry} (object : kind ≠ .object → children = [])
      (array : kind ≠ .array → items = none) (named : ∀ c ∈ children, c.name ≠ "")
      (below : ∀ c ∈ children, Compiled c) (item : ∀ c, items = some c → Compiled c) :
      Compiled (.mk name kind format custom children items)

def indexesArray : SchemaEntry → List String → Bool
  | _, [] => false
  | node, seg :: segs =>
    if node.kind = .array ∧ looksLikeIndex seg = true then
      (node.items.bind fun items => resolveSegments items segs).isSome
    else (node.child seg).any fun child => indexesArray child segs

namespace SchemaEntry.Compiled
variable {node child : SchemaEntry} {seg : String}
theorem of_child (h : node.Compiled) (hchild : node.child seg = some child) :
    child.Compiled ∧ node.kind = .object ∧ child ∈ node.children ∧ child.name = seg ∧ seg ≠ "" := by
  have hmem := List.mem_of_find?_eq_some hchild
  have hname : child.name = seg := by simpa using List.find?_some hchild
  cases h with
  | mk object array named below item =>
    refine ⟨below child hmem, ?_, hmem, hname, hname ▸ named child hmem⟩
    by_contra hkind
    rw [SchemaEntry.children, object hkind] at hmem
    cases hmem

theorem of_items (h : node.Compiled) (hitems : node.items = some child) : child.Compiled := by
  cases h with
  | mk object array named below item => exact item child hitems
end SchemaEntry.Compiled

theorem resolves_iff {node : SchemaEntry} {segs : List String} (h : node.Compiled) :
    resolvesSegments node segs = (resolveSegments node segs).isSome ↔
      indexesArray node segs = false := by
  induction segs generalizing node with
  | nil => simp [resolvesSegments, resolveSegments, indexesArray]
  | cons seg segs ih =>
    rw [resolvesSegments, resolveSegments, indexesArray]
    cases hchild : node.child seg with
    | none =>
      by_cases hindex : node.kind = .array ∧ looksLikeIndex seg = true
      · rw [if_pos hindex, if_pos hindex]
        exact eq_comm
      · rw [if_neg hindex, if_neg hindex]
        simp
    | some child =>
      obtain ⟨hcompiled, hobject, -⟩ := h.of_child hchild
      have hindex : ¬ (node.kind = .array ∧ looksLikeIndex seg = true) := by simp [hobject]
      rw [if_neg hindex, if_neg hindex]
      exact ih hcompiled

theorem splitFieldPath_eq {path : String} (h : ¬ ['/', '/'] <+: path.toList) :
    Config.splitFieldPath path = splitFieldPath path := by
  unfold Config.splitFieldPath splitFieldPath
  cases hchars : path.toList with
  | nil => rfl
  | cons c cs =>
    by_cases hc : c = '/'
    · subst hc
      have hcs : cs.dropWhile (· = '/') = cs := by
        cases cs with
        | nil => rfl
        | cons d ds =>
          have hd : d ≠ '/' := by
            rintro rfl
            exact h (by rw [hchars]; exact ⟨ds, rfl⟩)
          simp [hd]
      cases cs <;> simp_all
    · simp [hc]

theorem resolveFieldSchema_slashes {root : SchemaEntry} {path : String} (h : root.Compiled)
    (hslashes : ['/', '/'] <+: path.toList) : resolveFieldSchema root path = none := by
  obtain ⟨rest, hrest⟩ := hslashes
  have hsplit : ∃ segs, splitFieldPath path = "" :: segs := by
    have hcons : ('/' :: rest).splitOn '/' = [] :: rest.splitOn '/' :=
      (List.splitOnP_cons_eq_if_modifyHead '/' rest).trans (if_pos rfl)
    exact ⟨_, by simp [splitFieldPath, ← hrest, hcons]; rfl⟩
  obtain ⟨segs, hsegs⟩ := hsplit
  rw [resolveFieldSchema, hsegs, resolveSegments, if_neg (by simp [looksLikeIndex])]
  cases hchild : root.child "" with
  | none => rfl
  | some child => exact absurd rfl (h.of_child hchild).2.2.2.2

/-- The resolvers agree on a path exactly if it does not index an array; with two slashes in front,
if its names lead nowhere. -/
theorem field_paths_agree_iff {root : SchemaEntry} (h : root.Compiled) (path : String) :
    fieldPathResolves root path = (resolveFieldSchema root path).isSome ↔
      if ['/', '/'] <+: path.toList then fieldPathResolves root path = false
      else indexesArray root (splitFieldPath path) = false := by
  split
  · rename_i hslashes
    rw [resolveFieldSchema_slashes h hslashes, Option.isSome_none]
  · rename_i hslashes
    rw [fieldPathResolves, summaryPathResolves, splitFieldPath_eq hslashes, resolveFieldSchema,
      resolves_iff h]

def kindOf : Json → Kind
  | .null => .null
  | .bool _ => .boolean
  | .num _ => .number
  | .str _ => .string
  | .arr _ => .array
  | .obj _ => .object

inductive Validates : SchemaEntry → Json → Prop where
  | null {node : SchemaEntry} : Validates node .null
  | value {node : SchemaEntry} {v : Json} (kind : kindOf v = node.kind)
      (fields : ∀ fields, v = .obj fields → ∀ c ∈ node.children, ∀ w,
        Fields.get? c.name fields = some w → Validates c w)
      (items : ∀ items, v = .arr items → ∀ c, node.items = some c → ∀ w ∈ items, Validates c w) :
      Validates node v

theorem Validates.walk {node target : SchemaEntry} {v w : Json} {segs : List String}
    (hnode : node.Compiled) (h : Validates node v) (hschema : resolveSegments node segs = some target)
    (hvalue : pointerWalk v segs = some w) : Validates target w := by
  induction segs generalizing node v with
  | nil =>
    rw [resolveSegments] at hschema
    cases v <;> rw [pointerWalk] at hvalue <;> cases hschema <;> cases hvalue <;> exact h
  | cons seg segs ih =>
    rw [resolveSegments] at hschema
    cases h with
    | null => cases hvalue
    | value hkind hfields hitems =>
      split at hschema
      · rename_i hindex
        obtain ⟨items, hnodeItems, hrest⟩ := Option.bind_eq_some_iff.mp hschema
        cases v with
        | arr values =>
          rw [pointerWalk] at hvalue
          split at hvalue
          · cases hvalue
          · split at hvalue
            · split at hvalue
              · cases hvalue
              · rename_i u hu
                exact ih (hnode.of_items hnodeItems)
                  (hitems values rfl items hnodeItems u (List.mem_of_getElem? hu)) hrest hvalue
            · cases hvalue
        | _ => simp [kindOf, ← hkind] at hindex
      · obtain ⟨child, hchild, hrest⟩ := Option.bind_eq_some_iff.mp hschema
        obtain ⟨hcompiled, hobject, hmem, rfl, -⟩ := hnode.of_child hchild
        cases v with
        | obj fields =>
          rw [pointerWalk] at hvalue
          split at hvalue
          · cases hvalue
          · rename_i u hu
            exact ih hcompiled (hfields fields rfl child hmem u hu) hrest hvalue
        | _ => simp [kindOf, hobject] at hkind

/-- A value that a resolved path leads to is null or of the kind the path resolves to. -/
theorem resolved_path_kind {root node : SchemaEntry} (hroot : root.Compiled) {doc : JsonFields}
    (hdoc : Validates root (.obj doc)) {path : String} (hpath : resolveFieldSchema root path = some node)
    {v : Json} (hv : pointerGet doc path = some v) : v = .null ∨ kindOf v = node.kind := by
  cases hdoc.walk hroot hpath hv with
  | null => exact .inl rfl
  | value hkind => exact .inr hkind

namespace Sample
def ratingEntry : SchemaEntry := .mk "" .number "" none [] none

def ratingsSchema : SchemaEntry :=
  .mk "" .object "" none [.mk "ratings" .array "" none [] (some ratingEntry)] none

theorem ratingsSchema_compiled : ratingsSchema.Compiled := by
  have hentry : ratingEntry.Compiled :=
    .mk (fun _ => rfl) (fun _ => rfl) (by simp) (by simp) (by simp)
  refine .mk (by simp) (fun _ => rfl) (by simp [SchemaEntry.name]) ?_ (by simp)
  intro c hc
  rw [List.mem_singleton.mp hc]
  exact .mk (fun _ => rfl) (by simp) (by simp) (by simp) (by simpa using hentry)
end Sample
open Sample
theorem ratings_path_agrees : fieldPathResolves ratingsSchema "/ratings" = true ∧
      fieldPathResolves ratingsSchema "/ratings" =
        (resolveFieldSchema ratingsSchema "/ratings").isSome :=
  ⟨by decide +kernel, (field_paths_agree_iff ratingsSchema_compiled "/ratings").mpr
    (by decide +kernel)⟩

/-- An entry of an array can be searched, but no definition that does so is admitted. -/
theorem ratings_index_refused : fieldPathResolves ratingsSchema "/ratings/3" ≠
      (resolveFieldSchema ratingsSchema "/ratings/3").isSome := by
  decide +kernel

theorem rating_is_number : pointerGet [("ratings", .arr [.num "5"])] "/ratings/0" = some (.num "5") ∧
    (Json.num "5" = .null ∨ kindOf (.num "5") = .number) := by
  have hget : pointerGet [("ratings", .arr [.num "5"])] "/ratings/0" = some (.num "5") := rfl
  have hfive : Validates ratingEntry (.num "5") :=
    .value rfl (by simp) (by simp)
  have hratings : Validates (.mk "ratings" .array "" none [] (some ratingEntry))
      (.arr [.num "5"]) := by
    refine .value rfl (by simp) fun items hitems c hc w hw => ?_
    cases hitems
    cases hc
    rw [List.mem_singleton.mp hw]
    exact hfive
  have hdoc : Validates ratingsSchema (.obj [("ratings", .arr [.num "5"])]) := by
    refine .value rfl (fun fields hfields c hc w hw => ?_) (by simp)
    cases hfields
    rw [ratingsSchema, SchemaEntry.children, List.mem_singleton] at hc
    subst hc
    cases hw
    exact hratings
  have hpath : resolveFieldSchema ratingsSchema "/ratings/0" = some ratingEntry := rfl
  exact ⟨hget, resolved_path_kind ratingsSchema_compiled hdoc hpath hget⟩
end Datorium
