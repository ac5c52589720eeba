
import Datorium.Agents.Cache
import Datorium.Engine.Config
/-! # Names with double underscores -/
namespace Datorium
/-- The loop of `ValidCollectionName`, from the runes left and whether an underscore came last. -/
def validNameRunes : Bool → List Char → Bool
  | _, [] => true
  | prevUnderscore, r :: runes =>
    if isSpace r then false
    else if r = '_' then !prevUnderscore && validNameRunes true runes
    else validNameRunes false runes

def validCollectionName (isLetter : Char → Bool) (name : String) : Bool :=
  match name.toList with
  | [] => false
  | r :: runes => isLetter r && validNameRunes false (r :: runes)

def queueFileBase (name : List Char) : Option (List Char × String) :=
  if ".queue".toList <:+ name then some (name.take (name.length - 6), "queue")
  else if ".taken".toList <:+ name then some (name.take (name.length - 6), "taken")
  else none

def parseQueueFilename (name : String) : Option (String × String × String × String) := do
  let (base, ext) ← queueFileBase name.toList
  let (change, rest) ← splitUnderscores base
  let (coll, id) ← splitUnderscores rest
  return (String.ofList change, String.ofList coll, String.ofList id, ext)

def encodeRef (collection id : String) : String := "@@__" ++ collection ++ "__" ++ id

structure NamesReadBack (collections : String → Prop) : Prop where
  queue : ∀ change coll id, collections coll → validDocumentID id = true →
    parseQueueFilename (queueBaseName change coll id ++ ".queue") =
      some (change.text, coll, id, "queue")
  claim : ∀ change coll id, collections coll → validDocumentID id = true →
    parseQueueFilename (queueBaseName change coll id ++ ".taken") =
      some (change.text, coll, id, "taken")
  ref : ∀ coll id, collections coll → validDocumentID id = true →
    parseRef (encodeRef coll id) = some (coll, id)
  apart : ∀ change change' coll coll' id id', collections coll →
    collections coll' → validDocumentID id = true → validDocumentID id' = true →
      queueBaseName change coll id = queueBaseName change' coll' id' ∨
        encodeRef coll id = encodeRef coll' id' →
      coll = coll' ∧ id = id'

theorem validNameRunes_cons {prev : Bool} {r : Char} {runes : List Char}
    (h : validNameRunes prev (r :: runes) = true) :
    validNameRunes (decide (r = '_')) runes = true ∧ (prev = true → r ≠ '_') := by
  unfold validNameRunes at h
  grind

theorem splitUnderscores_name {prev : Bool} {name : List Char}
    (h : validNameRunes prev name = true) (hlast : name.getLast? ≠ some '_') (rest : List Char) :
    splitUnderscores (name ++ '_' :: '_' :: rest) = some (name, rest) := by
  induction name generalizing prev with
  | nil => rfl
  | cons r runes ih =>
    obtain ⟨htail, -⟩ := validNameRunes_cons h
    have hcut : splitUnderscores (runes ++ '_' :: '_' :: rest) = some (runes, rest) := by
      refine ih htail fun hend => hlast ?_
      rw [List.getLast?_cons, hend]
      rfl
    -- an underscore at the head is neither the last rune nor followed by another one
    have hhead : ∀ tail, r = '_' → runes ++ '_' :: '_' :: rest = '_' :: tail → False := by
      rintro tail rfl heq
      cases runes with
      | nil => exact hlast rfl
      | cons d runes => exact (validNameRunes_cons htail).2 rfl (List.cons.inj heq).1
    rw [List.cons_append, splitUnderscores.eq_2 _ _ hhead, hcut]
    rfl

theorem splitUnderscores_last {cs before after : List Char}
    (h : splitUnderscores cs = some (before, after)) : before.getLast? ≠ some '_' := by
  fun_induction splitUnderscores cs generalizing before with
  | case1 rest =>
    cases h
    simp
  | case2 c rest hc ih =>
    obtain ⟨⟨before', after'⟩, hrest, heq⟩ := Option.map_eq_some_iff.mp h
    obtain ⟨rfl, rfl⟩ := Prod.mk.inj heq
    rw [List.getLast?_cons]
    cases hlast : before'.getLast? with
    | some d => simpa [hlast] using ih hrest
    | none =>
      obtain rfl := List.getLast?_eq_none_iff.mp hlast
      -- the rest starts with two underscores, so the rune before it is another one
      intro hunderscore
      obtain rfl : c = '_' := by simpa using hunderscore
      fun_cases splitUnderscores rest with
      | case1 tail => exact hc ('_' :: tail) rfl rfl
      | case2 d tail hd => simp [splitUnderscores.eq_2 _ _ hd] at hrest
      | case3 => cases hrest
  | case3 => cases h

section
variable {isLetter : Char → Bool} {coll id : String}
theorem splitUnderscores_collection (h : validCollectionName isLetter coll = true)
    (hlast : coll.toList.getLast? ≠ some '_') :
    splitUnderscores (coll.toList ++ '_' :: '_' :: id.toList) = some (coll.toList, id.toList) := by
  unfold validCollectionName at h
  split at h
  · cases h
  · rename_i hname
    rw [hname] at hlast ⊢
    exact splitUnderscores_name (Bool.and_eq_true_iff.mp h).2 hlast _

theorem splitUnderscores_queueBaseName (change : Command) :
    splitUnderscores (queueBaseName change coll id).toList =
      some (change.text.toList, coll.toList ++ '_' :: '_' :: id.toList) := by
  have hchange : validNameRunes false change.text.toList = true ∧
      change.text.toList.getLast? ≠ some '_' := by cases change <;> decide
  simpa [queueBaseName] using splitUnderscores_name hchange.1 hchange.2
    (coll.toList ++ '_' :: '_' :: id.toList)

theorem queueFileBase_extension (base : List Char) {ext : String}
    (hext : ext = "queue" ∨ ext = "taken") :
    queueFileBase (base ++ '.' :: ext.toList) = some (base, ext) := by
  rcases hext with rfl | rfl
  · simp [queueFileBase]
  · have hother : ¬ ".queue".toList <:+ base ++ ".taken".toList := by
      rintro ⟨base', heq⟩
      simpa using congrArg List.getLast? heq
    simp [queueFileBase, show ¬ ['.', 'q', 'u', 'e', 'u', 'e'] <:+
      base ++ ['.', 't', 'a', 'k', 'e', 'n'] from hother]

theorem parseQueueFilename_queueBaseName (h : validCollectionName isLetter coll = true)
    (hlast : coll.toList.getLast? ≠ some '_') (change : Command) {ext name : String}
    (hext : ext = "queue" ∨ ext = "taken")
    (hname : name.toList = (queueBaseName change coll id).toList ++ '.' :: ext.toList) :
    parseQueueFilename name = some (change.text, coll, id, ext) := by
  rw [parseQueueFilename, hname, queueFileBase_extension _ hext]
  simp [splitUnderscores_queueBaseName, splitUnderscores_collection h hlast]

theorem parseRef_encodeRef (h : validCollectionName isLetter coll = true)
    (hlast : coll.toList.getLast? ≠ some '_') (hid : validDocumentID id = true) :
    parseRef (encodeRef coll id) = some (coll, id) := by
  have hcollection : coll.toList ≠ [] := by
    intro hnil
    simp [validCollectionName, hnil] at h
  have hne : id.toList ≠ [] := by
    intro hnil
    obtain rfl : id = "" := String.toList_eq_nil_iff.mp hnil
    simp [validDocumentID] at hid
  have hlist : (encodeRef coll id).toList =
      "@@__".toList ++ (coll.toList ++ '_' :: '_' :: id.toList) := by
    simp [encodeRef]
  rw [parseRef, hlist, if_pos (by simp), List.drop_left' (by rfl),
    splitUnderscores_collection h hlast]
  simp [hcollection, hne]
end

theorem names_read_back_iff {isLetter : Char → Bool} {collections : String → Prop}
    (hvalid : ∀ coll, collections coll → validCollectionName isLetter coll = true) :
    NamesReadBack collections ↔ ∀ coll, collections coll → coll.toList.getLast? ≠ some '_' := by
  constructor
  · intro h coll hc
    have hread := h.ref coll "x" hc (by decide +kernel)
    have hlist : (encodeRef coll "x").toList =
        "@@__".toList ++ (coll.toList ++ ['_', '_', 'x']) := by
      simp [encodeRef]
    rw [parseRef, hlist, if_pos (by simp), List.drop_left' (by rfl)] at hread
    split at hread
    · rename_i before after hsplit
      split at hread
      · cases hread
      · have hbefore : before = coll.toList := by
          rw [← (Prod.mk.inj (Option.some.inj hread)).1, String.toList_ofList]
        exact hbefore ▸ splitUnderscores_last hsplit
    · cases hread
  · intro h
    have hqueue : ∀ change coll id, collections coll →
        parseQueueFilename (queueBaseName change coll id ++ ".queue") =
          some (change.text, coll, id, "queue") := fun change coll id hc =>
      parseQueueFilename_queueBaseName (hvalid _ hc) (h _ hc) change (.inl rfl) (by simp)
    have href : ∀ coll id, collections coll → validDocumentID id = true →
        parseRef (encodeRef coll id) = some (coll, id) := fun coll id hc =>
      parseRef_encodeRef (hvalid _ hc) (h _ hc)
    refine ⟨fun change coll id hc _ => hqueue change coll id hc,
      fun change coll id hc _ => parseQueueFilename_queueBaseName (hvalid _ hc) (h _ hc) change
        (.inr rfl) (by simp), href, ?_⟩
    rintro change change' coll coll' id id' hc hc' hid hid' (heq | heq)
    · have hboth := hqueue change coll id hc
      rw [heq, hqueue change' coll' id' hc'] at hboth
      simp_all
    · have hboth := href coll id hc hid
      rw [heq, href coll' id' hc' hid'] at hboth
      simp_all

theorem movies_read_back :
    (∀ coll, coll = "Movies" → validCollectionName Char.isAlpha coll = true) ∧
      NamesReadBack fun coll => coll = "Movies" := by
  have hname : validCollectionName Char.isAlpha "Movies" = true ∧
      "Movies".toList.getLast? ≠ some '_' := by decide
  have hvalid : ∀ coll, coll = "Movies" →
      validCollectionName Char.isAlpha coll = true := fun coll hc => hc ▸ hname.1
  exact ⟨hvalid, (names_read_back_iff hvalid).mpr fun coll hc => hc ▸ hname.2⟩

theorem underscored_not_read_back : validCollectionName Char.isAlpha "Movies_" = true ∧
    ¬ NamesReadBack fun coll => validCollectionName Char.isAlpha coll = true := by
  have hfacts : validCollectionName Char.isAlpha "Movies_" = true ∧ validDocumentID "alien" = true ∧
      parseRef (encodeRef "Movies_" "alien") ≠ some ("Movies_", "alien") := by
    decide +kernel
  exact ⟨hfacts.1, fun h => hfacts.2.2 (h.ref "Movies_" "alien" hfacts.1 hfacts.2.1)⟩
end Datorium
