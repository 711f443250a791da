/-
  LazyFields.Proofs.Bindings.Names
  ────────────────────────────────
  **HOW IDS ARE FOLDED INTO NAMES.**

  The wrapper of a resource is named by its id in camel case, its registration in
  snake case.  Both fold ids: dots and underscores fall together, and so does some
  of the letter case.

    · `toList_camelCase`    — camel case in one pass over the letters
    · `wrapperOf_not_mem`   — no wrapper is named like what the bindings import
    · `isIdentifier_wrapperOf` — a wrapper has the name of a type, if its id has a
                              letter to begin with
    · `wrapperOf_eq_iff`    — which ids have wrappers of one name
    · `snakeCase_eq_iff`    — which ids have registrations of one name

  What is known of the case of single letters comes with the whole of the
  mathematical library, and with no smaller import.
-/
import LazyFields.Bindings.Names
import LazyFields.Proofs.Schema.TypeNames
import LazyFields.Proofs.Source.References
import Mathlib

namespace LazyFields.Bindings

open LazyFields.Source LazyFields.Text

/-! ## §1. Camel case. -/

/-- A character that separates words. -/
def isSeparator (c : Char) : Bool := c = '.' || c = '_'

/-- The letters of a name in camel case; the next one starts a word, or does not. -/
def camel : Bool → List Char → List Char
  | _, [] => []
  | starts, c :: cs =>
      if isSeparator c then camel true cs
      else (if starts then c.toUpper else c) :: camel false cs

/-- The words of a name, one character longer. -/
theorem words_cons (c : Char) (cs : List Char) : ∃ w ws, words cs = w :: ws
    ∧ words (c :: cs) = if isSeparator c then [] :: w :: ws else (c :: w) :: ws := by
  unfold words
  obtain ⟨s, ss, hs⟩ := List.exists_cons_of_ne_nil (segments_ne_nil '.' cs)
  obtain ⟨w, ws, hw⟩ := List.exists_cons_of_ne_nil (segments_ne_nil '_' s)
  refine ⟨w, ws ++ ss.flatMap (segments '_'), by rw [hs, List.flatMap_cons, hw]; rfl, ?_⟩
  by_cases hdot : c = '.'
  · subst hdot
    rw [segments, if_pos rfl, hs, List.flatMap_cons, List.flatMap_cons, hw]
    rfl
  · rw [segments_cons_of_ne hdot hs, List.flatMap_cons]
    by_cases hline : c = '_'
    · subst hline
      rw [segments, if_pos rfl, hw]
      rfl
    · rw [segments_cons_of_ne hline hw]
      simp [isSeparator, hdot, hline]

/-- **Camel case is made in one pass.** -/
theorem toList_camelCase (name : String) : (camelCase name).toList = camel true name.toList := by
  -- the pass is in the middle of the first word, or at its start
  have hpass : ∀ cs w ws, words cs = w :: ws →
      camel true cs = capitalized w ++ ws.flatMap capitalized
        ∧ camel false cs = w ++ ws.flatMap capitalized := by
    intro cs
    induction cs with
    | nil =>
      intro w ws hwords
      cases hwords
      exact ⟨rfl, rfl⟩
    | cons c cs ih =>
      intro w ws hwords
      obtain ⟨v, vs, hrest, hall⟩ := words_cons c cs
      obtain ⟨hstarts, hgoes⟩ := ih v vs hrest
      rw [hall] at hwords
      by_cases hsep : isSeparator c = true
      · rw [if_pos hsep] at hwords
        cases hwords
        rw [camel, camel, if_pos hsep, if_pos hsep, hstarts]
        exact ⟨rfl, rfl⟩
      · rw [if_neg hsep] at hwords
        cases hwords
        rw [camel, camel, if_neg hsep, if_neg hsep, hgoes]
        exact ⟨rfl, rfl⟩
  -- even the empty name has a word, the empty one
  obtain ⟨w, ws, hwords⟩ : ∃ w ws, words name.toList = w :: ws := by
    cases name.toList with
    | nil => exact ⟨[], [], rfl⟩
    | cons c cs =>
      obtain ⟨w, ws, -, hall⟩ := words_cons c cs
      rw [hall]
      split
      · exact ⟨_, _, rfl⟩
      · exact ⟨_, _, rfl⟩
  rw [camelCase, String.toList_ofList, hwords, (hpass _ w ws hwords).1]
  rfl

section Camel

variable {cs : List Char}

/-- Camel case drops what separates words, and may change the case of the rest. -/
theorem map_toUpper_camel (starts : Bool) (cs : List Char) :
    (camel starts cs).map Char.toUpper
      = (cs.filter fun c => !isSeparator c).map Char.toUpper := by
  induction cs generalizing starts with
  | nil => rfl
  | cons c cs ih =>
    by_cases hsep : isSeparator c = true
    · rw [camel, if_pos hsep, ih, List.filter_cons_of_neg (by simp [hsep])]
    · rw [camel, if_neg hsep, List.map_cons, ih, List.filter_cons_of_pos (by simp [hsep]),
        List.map_cons]
      cases starts <;> simp

theorem isAlphanum_toUpper (c : Char) : c.toUpper.isAlphanum = c.isAlphanum := by
  by_cases hlower : c.isLower = true
  · simp [Char.isAlphanum, Char.isAlpha, hlower]
  · rw [Char.toUpper_eq_of_not_isLower hlower]

theorem isAlphanum_camel (h : ∀ c ∈ cs, c.isAlphanum = true ∨ isSeparator c = true)
    (starts : Bool) : ∀ c ∈ camel starts cs, c.isAlphanum = true := by
  induction cs generalizing starts with
  | nil => simp [camel]
  | cons d cs ih =>
    have hrest := fun starts => ih (fun c hc => h c (List.mem_cons_of_mem d hc)) starts
    intro c hc
    by_cases hsep : isSeparator d = true
    · rw [camel, if_pos hsep] at hc
      exact hrest true c hc
    · have hd := (h d List.mem_cons_self).resolve_right hsep
      rw [camel, if_neg hsep] at hc
      rcases List.mem_cons.1 hc with rfl | hc
      · cases starts
        · exact hd
        · exact (isAlphanum_toUpper d).trans hd
      · exact hrest false c hc

/-- The first letter is in upper case. -/
theorem camel_head (cs : List Char) : (camel true cs).head?
    = (cs.find? fun c => !isSeparator c).map Char.toUpper := by
  induction cs with
  | nil => rfl
  | cons c cs ih =>
    by_cases hsep : isSeparator c = true
    · rw [camel, if_pos hsep, ih, List.find?_cons_of_neg (by simp [hsep])]
    · rw [camel, if_neg hsep, List.find?_cons_of_pos (by simp [hsep])]
      rfl

end Camel

/-! ## §2. Wrappers. -/

/-- The letters and digits of an id, without regard to case. -/
def lettersOf (id : String) : List Char :=
  (id.toList.filter fun c => !isSeparator c).map Char.toUpper

/-- The first letter, digit or dollar sign of an id is a letter. -/
def StartsWithLetter (id : String) : Prop :=
  ∃ c, id.toList.find? (fun c => !isSeparator c) = some c ∧ c.isAlpha = true

/-- What can be the name of an item: a word of letters, digits and underscores
that is no keyword. -/
def IsIdentifier (name : String) : Prop :=
  ∃ c cs, name.toList = c :: cs ∧ (c.isAlpha = true ∨ c = '_' ∧ cs ≠ [])
    ∧ (∀ d ∈ cs, d.isAlphanum = true ∨ d = '_')
    ∧ name ∉ keywords ++ ["self", "Self", "super", "crate"]

section Wrappers

variable {id a b : String}

theorem wrapperOf_of_mem (h : camelCase id ∈ reservedTypes) : wrapperOf id = "Lr" ++ camelCase id :=
  if_pos (List.contains_iff_mem.2 h)

theorem wrapperOf_of_not_mem (h : camelCase id ∉ reservedTypes) : wrapperOf id = camelCase id :=
  if_neg (mt List.contains_iff_mem.1 h)

/-- **No wrapper has a reserved name.** -/
theorem wrapperOf_not_mem (id : String) : wrapperOf id ∉ reservedTypes := by
  by_cases hreserved : camelCase id ∈ reservedTypes
  · -- the new name of a reserved one is not reserved itself
    have hprefixed : ∀ name ∈ reservedTypes, "Lr" ++ name ∉ reservedTypes := by decide
    rw [wrapperOf_of_mem hreserved]
    exact hprefixed _ hreserved
  · rw [wrapperOf_of_not_mem hreserved]
    exact hreserved

/-- **Which ids have wrappers of one name:** those with one name in camel case, unless
this is the new name of a reserved one. -/
theorem wrapperOf_eq_iff (ha : ∀ name ∈ reservedTypes, camelCase a ≠ "Lr" ++ name)
    (hb : ∀ name ∈ reservedTypes, camelCase b ≠ "Lr" ++ name) :
    wrapperOf a = wrapperOf b ↔ camelCase a = camelCase b := by
  constructor
  · intro h
    by_cases hra : camelCase a ∈ reservedTypes
    · rw [wrapperOf_of_mem hra] at h
      by_cases hrb : camelCase b ∈ reservedTypes
      · rw [wrapperOf_of_mem hrb] at h
        simpa [← String.toList_inj] using h
      · rw [wrapperOf_of_not_mem hrb] at h
        exact absurd h.symm (hb _ hra)
    · rw [wrapperOf_of_not_mem hra] at h
      by_cases hrb : camelCase b ∈ reservedTypes
      · rw [wrapperOf_of_mem hrb] at h
        exact absurd h (ha _ hrb)
      · rwa [wrapperOf_of_not_mem hrb] at h
  · intro h
    unfold wrapperOf
    rw [h]

theorem lettersOf_eq_of_camelCase_eq (h : camelCase a = camelCase b) : lettersOf a = lettersOf b := by
  unfold lettersOf
  rw [← map_toUpper_camel true, ← map_toUpper_camel true, ← toList_camelCase, ← toList_camelCase, h]

/-- A wrapper that is called like a trait has an id that ends like one. -/
theorem suffix_of_wrapperOf_eq (h : wrapperOf a = b ++ "Provider") :
    "Provider".toList <:+ (camelCase a).toList := by
  by_cases hreserved : camelCase a ∈ reservedTypes
  · -- the prefix does not make a reserved name end otherwise
    have hprefixed : ∀ name ∈ reservedTypes, "Provider".toList <:+ ("Lr" ++ name).toList →
        "Provider".toList <:+ name.toList := by decide
    refine hprefixed _ hreserved ?_
    rw [← wrapperOf_of_mem hreserved, h, String.toList_append]
    exact List.suffix_append _ _
  · rw [← wrapperOf_of_not_mem hreserved, h, String.toList_append]
    exact List.suffix_append _ _

/-- A scanned name that starts with a letter has no dollar sign. -/
theorem isAlphanum_of_isSpelled (hid : IsSpelled id) (hstarts : StartsWithLetter id) :
    ∀ c ∈ id.toList, c.isAlphanum = true ∨ isSeparator c = true := by
  obtain ⟨first, cs, hname, hfirst⟩ := hid
  obtain ⟨letter, hfind, hletter⟩ := hstarts
  rw [hname] at hfind ⊢
  intro c hc
  rcases List.mem_cons.1 hc with rfl | hc
  · -- a dollar sign could only stand first, where the letter is
    unfold isNameStart at hfirst
    simp only [Bool.or_eq_true, decide_eq_true_eq] at hfirst
    rcases hfirst with (halpha | hline) | hdollar
    · exact .inl (by simp [Char.isAlphanum, halpha])
    · exact .inr (by simp [isSeparator, hline])
    · subst hdollar
      cases hfind
      exact absurd hletter (by decide)
  · rcases isNameChar_of_mem_nameTail cs c hc with hchar | hdot
    · unfold isNameChar at hchar
      simp only [Bool.or_eq_true, decide_eq_true_eq] at hchar
      exact hchar.imp (fun halpha => halpha) fun hline => by simp [isSeparator, hline]
    · exact .inr (by simp [isSeparator, hdot])

/-- A wrapper starts in upper case, if its id has a letter to begin with. -/
theorem upper_of_startsWithLetter (hstarts : StartsWithLetter id) :
    ∃ c cs, (wrapperOf id).toList = c :: cs ∧ c.isUpper = true := by
  by_cases hreserved : camelCase id ∈ reservedTypes
  · rw [wrapperOf_of_mem hreserved]
    exact ⟨'L', 'r' :: (camelCase id).toList, by simp, by decide⟩
  · obtain ⟨letter, hfind, hletter⟩ := hstarts
    have hhead : (camelCase id).toList.head? = some letter.toUpper := by
      rw [toList_camelCase, camel_head, hfind]
      rfl
    obtain ⟨cs, hlist⟩ := List.head?_eq_some_iff.1 hhead
    rw [wrapperOf_of_not_mem hreserved]
    exact ⟨_, cs, hlist, by simpa using hletter⟩

/-- **A wrapper has the name of a type,** if its id has a letter to begin with. -/
theorem isIdentifier_wrapperOf (hid : IsSpelled id) (hstarts : StartsWithLetter id)
    (hself : camelCase id ≠ "Self") : IsIdentifier (wrapperOf id) := by
  have hchars : ∀ c ∈ (camelCase id).toList, c.isAlphanum = true := by
    rw [toList_camelCase]
    exact isAlphanum_camel (isAlphanum_of_isSpelled hid hstarts) true
  -- one letter in upper case, then letters and digits: no keyword looks like that
  have hword : ∀ {name : String} {c cs}, name.toList = c :: cs → c.isUpper = true →
      (∀ d ∈ cs, d.isAlphanum = true) → name ≠ "Self" → IsIdentifier name := by
    intro name c cs hname hupper hrest hne
    have hlower : ∀ word ∈ keywords ++ ["self", "Self", "super", "crate"], word ≠ "Self" →
        word.toList.head?.all fun c => !c.isUpper := by decide
    refine ⟨c, cs, hname, .inl (by simp [Char.isAlpha, hupper]), fun d hd => .inl (hrest d hd), ?_⟩
    intro hmem
    have hfirst := hlower name hmem hne
    rw [hname] at hfirst
    simp [hupper] at hfirst
  by_cases hreserved : camelCase id ∈ reservedTypes
  · rw [wrapperOf_of_mem hreserved]
    refine @hword _ 'L' ('r' :: (camelCase id).toList) (by simp) (by decide) ?_ ?_
    · exact List.forall_mem_cons.2 ⟨by decide, hchars⟩
    · intro heq
      have hlist := congrArg String.toList heq
      simp at hlist
  · obtain ⟨c, cs, hlist, hupper⟩ := upper_of_startsWithLetter hstarts
    rw [wrapperOf_of_not_mem hreserved] at hlist ⊢
    refine hword hlist hupper ?_ hself
    rw [hlist] at hchars
    exact fun d hd => hchars d (List.mem_cons_of_mem _ hd)

end Wrappers

/-! ## §3. Registrations. -/

/-- The characters are written alike in snake case: both separate words, or they are
one letter in any case. -/
def FoldsLike (c d : Char) : Prop :=
  isSeparator c = true ∧ isSeparator d = true ∨ c.toLower = d.toLower

theorem toLower_eq_iff_of_not_isAlpha {c d : Char} (hd : d.isAlpha = false) :
    c.toLower = d ↔ c = d := by
  constructor
  · intro h
    by_cases hupper : c.isUpper = true
    · have hletter : c.toLower.isAlpha = true := by simp [Char.isAlpha, hupper]
      rw [h, hd] at hletter
      cases hletter
    · rwa [Char.toLower_eq_of_not_isUpper hupper] at h
  · intro h
    subst h
    refine Char.toLower_eq_of_not_isUpper fun hupper => ?_
    simp [Char.isAlpha, hupper] at hd

/-- **Which ids have one name in snake case:** those that are equally long and have,
at each place, the same letter in any case, or a dot or an underscore. -/
theorem snakeCase_eq_iff {a b : String} :
    snakeCase a = snakeCase b ↔ List.Forall₂ FoldsLike a.toList b.toList := by
  -- no letter falls on an underscore or a dot in lower case
  have hline : ∀ c : Char, c.toLower = '_' ↔ c = '_' := fun c =>
    toLower_eq_iff_of_not_isAlpha (by decide)
  have hdot : ∀ c : Char, c.toLower = '.' ↔ c = '.' := fun c =>
    toLower_eq_iff_of_not_isAlpha (by decide)
  have hchar : ∀ c d : Char, ((if c = '.' then '_' else c.toLower)
      = if d = '.' then '_' else d.toLower) ↔ FoldsLike c d := by
    intro c d
    unfold FoldsLike isSeparator
    by_cases hc : c = '.' <;> by_cases hd : d = '.'
    · simp [hc, hd]
    · have hother : '.' ≠ d.toLower := fun heq => hd ((hdot d).1 heq.symm)
      simp [hc, hd, hother, hline d, eq_comm (a := '_')]
    · have hother := (hdot c).not.2 hc
      simp [hc, hd, hline, hother]
    · simp [hc, hd]
      rintro rfl rfl
      rfl
  unfold snakeCase
  rw [String.ofList_inj, ← List.forall₂_eq_eq_eq, List.forall₂_map_left_iff,
    List.forall₂_map_right_iff]
  simp only [hchar]

end LazyFields.Bindings
