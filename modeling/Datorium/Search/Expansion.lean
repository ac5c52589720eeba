import Datorium.Search.Index
/-! # Buckets of a document -/
namespace Datorium
open Framework List
variable {fl : Floats} {doc : JsonFields}
variable {outs : List (ClauseOutcome fl.F)}
theorem nodup_expandBuckets {cur : List (List String × List (Any fl.F))}
    (hcur : (cur.map Prod.fst).Nodup)
    (houts : ∀ out ∈ outs, (out.options.map SegmentOption.seg).Nodup) :
    ((expandBuckets outs cur).map EvalResult.segments).Nodup := by
  induction outs generalizing cur with
  | nil =>
    rw [expandBuckets, map_map]
    exact hcur
  | cons out outs ih =>
    have hrest := fun out' hout => houts out' (mem_cons_of_mem out hout)
    rw [expandBuckets]
    split
    · exact ih hcur hrest
    · split
      · exact nodup_nil
      · refine ih ?_ hrest
        rw [map_flatMap, nodup_flatMap]
        refine ⟨fun pair _ => ?_, ?_⟩
        · rw [map_map]
          refine Nodup.of_map (fun segs => segs.getLast?) ?_
          have hlast := (houts out mem_cons_self).map fun a b hab => Option.some.inj hab
          simpa [Function.comp_def] using hlast
        · refine (pairwise_map.mp hcur).imp fun hne => ?_
          intro segs hsegs hsegs'
          simp only [map_map, mem_map, Function.comp] at hsegs hsegs'
          obtain ⟨o, -, rfl⟩ := hsegs
          obtain ⟨o', -, heq⟩ := hsegs'
          exact hne (append_inj_left' heq rfl).symm

theorem nodup_arrayOptions (items : List Json) (seen : List String) :
    ((arrayOptions fl items seen).map SegmentOption.seg).Nodup ∧
      ∀ o ∈ arrayOptions fl items seen, o.seg ∉ seen := by
  induction items generalizing seen with
  | nil => exact ⟨nodup_nil, fun o ho => by cases ho⟩
  | cons item items ih =>
    rw [arrayOptions]
    split
    · exact ih seen
    · rename_i seg _
      split
      · exact ih seen
      · rename_i hseen
        obtain ⟨hnodup, hnew⟩ := ih (seg :: seen)
        refine ⟨?_, fun o ho => ?_⟩
        · rw [map_cons, nodup_cons]
          refine ⟨fun hmem => ?_, hnodup⟩
          obtain ⟨o, ho, hseg⟩ := mem_map.mp hmem
          exact hnew o ho (hseg ▸ mem_cons_self)
        · rcases mem_cons.mp ho with rfl | ho
          · exact hseen
          · exact fun hmem => hnew o ho (mem_cons_of_mem _ hmem)

theorem nodup_options {c : Clause fl.F} {out : ClauseOutcome fl.F}
    (h : evaluateClause fl c doc = .ok out) : (out.options.map SegmentOption.seg).Nodup := by
  have hexcluded : ((ClauseOutcome.excluded : ClauseOutcome fl.F).options.map
      SegmentOption.seg).Nodup := nodup_nil
  have hsingle : ∀ seg (key : Any fl.F) contributes included,
      ((singleSegment seg key contributes included).options.map SegmentOption.seg).Nodup := by
    intro seg key contributes included
    cases contributes <;> cases included <;> simp [singleSegment]
  unfold evaluateClause at h
  cases hc : c.op with
  | opEquals =>
    simp only [hc, evaluateEquals] at h
    repeat' split at h
    all_goals
      cases h <;> first | exact hexcluded | exact hsingle _ _ _ _
  | opIn =>
    simp only [hc, evaluateIn] at h
    repeat' split at h
    all_goals
      cases h <;> first | exact hexcluded | exact hsingle _ _ _ _
  | opExists =>
    simp only [hc, evaluateExists] at h
    cases h
    exact hsingle _ _ _ _
  | opContains =>
    simp only [hc, evaluateContains] at h
    repeat' split at h
    all_goals
      cases h <;> first | exact hexcluded | exact hsingle _ _ _ _ | exact (nodup_arrayOptions _ _).1
  | other name =>
    simp only [hc] at h
    cases h

theorem length_picks {segs : List String} (h : Picks outs segs) :
    segs.length = outs.countP fun out => out.contributes := by
  induction h with
  | nil => rfl
  | skip hquiet _ ih => simp [hquiet, ih]
  | pick hoffers _ _ ih => simp [hoffers, ih]

theorem evaluateClauses_spec {cs : List (Clause fl.F)} {i : Nat}
    (h : evaluateClauses fl doc i cs = .ok (some outs)) :
    (∀ out ∈ outs, (out.options.map SegmentOption.seg).Nodup) ∧
      (outs.countP fun out => out.contributes) = cs.countP fun c => c.inPath := by
  induction cs generalizing i outs with
  | nil =>
    cases h
    exact ⟨fun out hout => (by cases hout), rfl⟩
  | cons c cs ih =>
    unfold evaluateClauses at h
    cases hout : evaluateClause fl c doc with
    | error message => simp [hout] at h
    | ok out =>
      cases hincluded : out.included with
      | false => simp [hout, hincluded] at h
      | true =>
        cases hrest : evaluateClauses fl doc (i + 1) cs with
        | error message => simp [hout, hincluded, hrest] at h
        | ok rest =>
          cases rest with
          | none => simp [hout, hincluded, hrest] at h
          | some rest =>
            simp only [hout, hincluded, hrest, Bool.not_true, Bool.false_eq_true, if_false,
              Except.ok.injEq, Option.some.injEq] at h
            subst h
            obtain ⟨hnodup, hcount⟩ := ih hrest
            refine ⟨fun out' hout' => ?_, ?_⟩
            · rcases mem_cons.mp hout' with rfl | hout'
              · exact nodup_options hout
              · exact hnodup out' hout'
            · rw [countP_cons, countP_cons, hcount, evaluateClause_contributes hout hincluded]

theorem length_resolveClauses {vars : JsonFields} {cs : List (Clause fl.F)} {i : Nat}
    {segs : List String} (h : resolveClauses fl vars i cs = .ok segs) :
    segs.length = cs.countP fun c => c.inPath := by
  induction cs generalizing i segs with
  | nil =>
    cases h
    rfl
  | cons c cs ih =>
    unfold resolveClauses at h
    cases hseg : resolveClauseQuery fl c vars with
    | error message => simp [hseg] at h
    | ok seg =>
      cases hrest : resolveClauses fl vars (i + 1) cs with
      | error message => simp [hseg, hrest, Except.map] at h
      | ok rest =>
        simp only [hseg, hrest, Except.map, Except.ok.injEq] at h
        have hin := resolveClauseQuery_isSome hseg
        subst h
        rw [length_append, countP_cons, ih hrest, ← hin]
        cases seg <;> simp [Nat.add_comm]

/-- The buckets of a document are different, as deep as every resolved query, made of path
components, and none is lost when they are indexed by their shard input. -/
theorem bucket_expansion (hfl : fl.Printed) {d : Definition fl.F} {results : List (EvalResult fl)}
    (h : evaluateDocument fl d (some doc) = .ok results) :
    (results.map EvalResult.segments).Nodup ∧ (∀ vars segs, resolveQueryPath fl d vars = .ok segs →
        ∀ r ∈ results, r.segments.length = segs.length) ∧
      (∀ r ∈ results, ∀ seg ∈ r.segments, PlainName seg) ∧
      (∀ segs segs', (∀ seg ∈ segs, PlainName seg) → (∀ seg ∈ segs', PlainName seg) →
        segs.length = segs'.length → shardInput segs = shardInput segs' → segs = segs') ∧
      ∀ r ∈ results, Fields.get? (shardInput r.segments) (bucketIndex fl results) = some r := by
  have hplain : ∀ r ∈ results, ∀ seg ∈ r.segments, PlainName seg := by
    intro r hr
    have hmem : r.segments ∈ bucketsOf d (some doc) := by
      rw [bucketsOf, h]
      exact mem_map_of_mem hr
    exact plain_bucketsOf hfl hmem
  have hboth : (results.map EvalResult.segments).Nodup ∧ ∀ vars segs,
      resolveQueryPath fl d vars = .ok segs → ∀ r ∈ results, r.segments.length = segs.length := by
    rw [evaluateDocument] at h
    cases houts : evaluateClauses fl doc 0 d.clauses with
    | error message => simp [houts] at h
    | ok outs =>
      cases outs with
      | none =>
        rw [houts] at h
        cases h
        exact ⟨nodup_nil, fun vars segs _ r hr => by cases hr⟩
      | some outs =>
        rw [houts] at h
        cases h
        obtain ⟨hnodup, hcount⟩ := evaluateClauses_spec houts
        refine ⟨nodup_expandBuckets (nodup_singleton _) hnodup, fun vars segs hsegs r hr => ?_⟩
        obtain ⟨before, hbefore, rest, hpicks, heq⟩ :=
          mem_expandBuckets.mp (mem_map_of_mem (f := EvalResult.segments) hr)
        rw [heq, mem_singleton.mp hbefore, nil_append, length_picks hpicks, hcount,
          length_resolveClauses hsegs]
  refine ⟨hboth.1, hboth.2, hplain, fun segs segs' hsegs hsegs' _ => shardInput_inj hsegs hsegs',
    fun r hr => ?_⟩
  obtain ⟨r', hr'⟩ := Option.isSome_iff_exists.mp
    (bucketIndex_complete hr (isMatch_of_evaluateDocument h hr))
  obtain ⟨hmem, hkey⟩ := mem_bucketIndex (Fields.mem_of_get? hr')
  have hsegs : r.segments = r'.segments := shardInput_inj (hplain r hr) (hplain r' hmem) hkey
  rw [hr', inj_on_of_nodup_map hboth.1 hr hmem hsegs]

namespace Sample
def filmsByTag : Definition floats.F := ⟨[⟨"/tags", .opContains, .str "$tag", "", "", false⟩], []⟩

def taggedFilm : List (String × Json) := [("tags", .arr [.str "a", .str "b", .str "a"])]
end Sample
open Sample
theorem tagged_film_buckets : ∃ results : List (EvalResult floats),
    evaluateDocument floats filmsByTag (some taggedFilm) = .ok results ∧
      results.length = 2 ∧ ∀ r ∈ results,
        Fields.get? (shardInput r.segments) (bucketIndex floats results) = some r := by
  obtain ⟨results, h, hlen⟩ : ∃ results,
      evaluateDocument floats filmsByTag (some taggedFilm) = .ok results ∧
        results.length = 2 := ⟨_, rfl, rfl⟩
  exact ⟨results, h, hlen, (bucket_expansion floats_printed h).2.2.2.2⟩
end Datorium
