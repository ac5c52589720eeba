import Datorium.Engine.Config
/-! # Ids with a common root -/
namespace Datorium
/-- No period of the text has six characters in front of it, `i` of them before the text. -/
def EarlyPeriods (i : Nat) (cs : List Char) : Prop :=
  ∀ before after, cs = before ++ '.' :: after → i + before.length < 6

def RootOf (id root : String) : Prop :=
  EarlyPeriods 0 root.toList ∧
    (id = root ∨ 6 ≤ root.length ∧ ∃ rest, id.toList = root.toList ++ '.' :: rest)

theorem prefixBeforePeriod_append {i : Nat} {ds : List Char} (rest : List Char)
    (h : 6 ≤ i + ds.length) :
    prefixBeforePeriod i (ds ++ '.' :: rest) = prefixBeforePeriod i ds := by
  induction ds generalizing i with
  | nil =>
    have hi : 6 ≤ i := h
    simp [prefixBeforePeriod, hi]
  | cons d ds ih =>
    simp only [List.length_cons] at h
    rw [List.cons_append, prefixBeforePeriod, prefixBeforePeriod, ih (by omega)]

theorem slot_suffix {d : String} (s : String) (h : 6 ≤ d.length) :
    slot (d ++ "." ++ s) = slot d := by
  have hchars : (d ++ "." ++ s).toList = d.toList ++ '.' :: s.toList := by
    simp [String.toList_append]
  rw [slot, slot, shardingPrefix, shardingPrefix, hchars,
    prefixBeforePeriod_append s.toList (by rwa [Nat.zero_add, String.length_toList])]

theorem slot_root {id root : String} (h : RootOf id root) : slot id = slot root := by
  obtain ⟨-, rfl | ⟨hlong, rest, hid⟩⟩ := h
  · rfl
  · rw [slot, slot, shardingPrefix, shardingPrefix, hid,
      prefixBeforePeriod_append rest (by rwa [Nat.zero_add, String.length_toList])]

theorem rootOf_shardingPrefix (id : String) : RootOf id (shardingPrefix id) := by
  have hcut : ∀ i cs, EarlyPeriods i (prefixBeforePeriod i cs) ∧
      (cs = prefixBeforePeriod i cs ∨ 6 ≤ i + (prefixBeforePeriod i cs).length ∧
        ∃ rest, cs = prefixBeforePeriod i cs ++ '.' :: rest) := by
    intro i cs
    induction cs generalizing i with
    | nil => exact ⟨fun before after h => by simp [prefixBeforePeriod] at h, .inl rfl⟩
    | cons c cs ih =>
      rw [prefixBeforePeriod]
      split
      · rename_i hcut
        obtain ⟨rfl, hi⟩ := hcut
        exact ⟨fun before after h => by simp at h, .inr ⟨hi, cs, rfl⟩⟩
      · rename_i hkeep
        obtain ⟨hearly, hrest⟩ := ih (i + 1)
        refine ⟨fun before after h => ?_, ?_⟩
        · cases before with
          | nil =>
            obtain ⟨rfl, -⟩ := List.cons.inj h
            by_contra hlate
            exact hkeep ⟨rfl, Nat.le_of_not_lt hlate⟩
          | cons b before =>
            have hlt := hearly before after (List.cons.inj h).2
            simp only [List.length_cons]
            omega
        · rcases hrest with heq | ⟨hlong, rest, heq⟩
          · exact .inl (by rw [← heq])
          · refine .inr ⟨by simp only [List.length_cons]; omega, rest, ?_⟩
            rw [List.cons_append, ← heq]
  obtain ⟨hearly, hrest⟩ := hcut 0 id.toList
  refine ⟨by simpa [shardingPrefix] using hearly, ?_⟩
  rcases hrest with heq | ⟨hlong, rest, heq⟩
  · exact .inl (by rw [shardingPrefix, ← heq, String.ofList_toList])
  · exact .inr ⟨by simpa [shardingPrefix] using hlong, rest, by simpa [shardingPrefix] using heq⟩

/-- Ids with the same root have the slot of the root, and so an id with a suffix is kept where the
id is. -/
theorem prefix_colocation (cfg : Config) : (∀ id, ∃ root, RootOf id root) ∧
      (∀ x y root, RootOf x root → RootOf y root → slot x = slot y ∧ slot root = slot x) ∧
      ∀ d s : String, 6 ≤ d.length →
        cfg.assignmentForSlot (slot (d ++ "." ++ s)) = cfg.assignmentForSlot (slot d) := by
  refine ⟨fun id => ⟨_, rootOf_shardingPrefix id⟩, fun x y root hx hy => ?_, fun d s hd => ?_⟩
  · exact ⟨(slot_root hx).trans (slot_root hy).symm, (slot_root hx).symm⟩
  · rw [slot_suffix s hd]

theorem studio_colocated : RootOf "studio.alien" "studio" ∧ RootOf "studio.brazil" "studio" ∧
    slot "studio.alien" = slot "studio.brazil" := by
  have hearly : EarlyPeriods 0 "studio".toList := by
    intro before after h
    have hlen := congrArg List.length h
    simp at hlen
    omega
  have halien : RootOf "studio.alien" "studio" :=
    ⟨hearly, .inr ⟨by decide, "alien".toList, by decide⟩⟩
  have hbrazil : RootOf "studio.brazil" "studio" :=
    ⟨hearly, .inr ⟨by decide, "brazil".toList, by decide⟩⟩
  exact ⟨halien, hbrazil, ((prefix_colocation ⟨1, [], [], [], [], [], fun _ h => by simp at h, 0⟩).2.1 _ _ _ halien
    hbrazil).1⟩
end Datorium
