/-
  LazyFields.Proofs.FieldType.Text
  ────────────────────────────────
  **A TYPE IS READ BACK FROM ITS TEXT.**

  Not every type has a text of its own: a resource could be called `int`, or
  `[]x`, and a map could have a list for its key.  A type is LEGIBLE when its
  resources have names of their own and its keys are plain names.  The text of
  a legible type is read as the type (`ofText_text`).

  The one thing to see is that a plain name has no brackets.  So it cannot be
  taken for a list or a map, and the key of a map ends at the first bracket.
-/
import LazyFields.FieldType

namespace LazyFields

namespace FieldType

open LazyFields.Text

/-! ## §1. Legible types. -/

/-- The text can name a resource: it is spelled as a name and is not that of a
primitive. -/
def IsTypeName (name : String) : Prop :=
  isResourceName name.toList = true ∧ primitive? name = none

/-- The type can be told from its text. -/
def Legible : FieldType → Prop
  | resource name => IsTypeName name
  | array element => element.Legible
  | map key value => (key.isResource || key.isPrimitive) = true ∧ key.Legible ∧ value.Legible
  | _ => True

/-! ## §2. Plain names. -/

theorem isSegmentChar_ne {c : Char} (h : isSegmentChar c = true) : c ≠ '[' ∧ c ≠ ']' := by
  constructor
  all_goals
    intro heq
    subst heq
    revert h
    decide

/-- No bracket occurs in the name of a resource. -/
theorem not_mem_of_isResourceName {cs : List Char} (h : isResourceName cs = true) :
    '[' ∉ cs ∧ ']' ∉ cs := by
  have hchars : ∀ c ∈ cs, c ≠ '[' ∧ c ≠ ']' := by
    intro c hc
    rw [← joinWith_segments '.' cs] at hc
    rcases mem_joinWith hc with hdot | ⟨s, hs, hmem⟩
    · subst hdot
      decide
    · have hsegment := List.all_eq_true.1 h s hs
      rw [isSegment, Bool.and_eq_true] at hsegment
      exact isSegmentChar_ne (List.all_eq_true.1 hsegment.2 c hmem)
  exact ⟨fun hc => (hchars _ hc).1 rfl, fun hc => (hchars _ hc).2 rfl⟩

/-- No bracket occurs in the text of a key. -/
theorem not_mem_text {t : FieldType} (hplain : (t.isResource || t.isPrimitive) = true)
    (hlegible : t.Legible) : '[' ∉ t.text.toList ∧ ']' ∉ t.text.toList := by
  cases t with
  | resource name => exact not_mem_of_isResourceName hlegible.1
  | array => simp [isResource, isPrimitive] at hplain
  | map => simp [isResource, isPrimitive] at hplain
  | _ => decide

/-! ## §3. Reading. -/

/-- A text without brackets is read as a name. -/
theorem ofChars_of_not_mem {cs : List Char} (h : '[' ∉ cs) : ofChars cs = ofName cs := by
  rw [ofChars.eq_def]
  split
  · simp at h
  · simp at h
  · rfl

theorem ofChars_list (cs : List Char) {t : FieldType} (h : ofChars cs = .ok t) :
    ofChars ('[' :: ']' :: cs) = .ok (array t) := by
  rw [ofChars, h]

/-- The key of a map ends at the first closing bracket. -/
theorem ofChars_map {k v : List Char} (hk : ']' ∉ k) {key value : FieldType}
    (hkey : ofChars k = .ok key) (hplain : (key.isResource || key.isPrimitive) = true)
    (hvalue : ofChars v = .ok value) :
    ofChars ('m' :: 'a' :: 'p' :: '[' :: (k ++ ']' :: v)) = .ok (map key value) := by
  have hcut : cutFirst ']' (k ++ ']' :: v) = some (k, v) := cutFirst_append hk
  rw [ofChars]
  split
  · next hnone => simp [hcut] at hnone
  · next k' v' hsome =>
    rw [hcut] at hsome
    cases hsome
    simp [hkey, hplain, hvalue]

/-- A primitive is read by its name. -/
theorem ofName_primitive {t : FieldType} (h : primitive? t.text = some t) :
    ofName t.text.toList = .ok t := by
  simp [ofName, h]

theorem ofName_resource {name : String} (h : IsTypeName name) :
    ofName name.toList = .ok (resource name) := by
  simp [ofName, h.1, h.2]

theorem ofChars_text {t : FieldType} (h : t.Legible) : ofChars t.text.toList = .ok t := by
  induction t with
  | resource name =>
    show ofChars name.toList = .ok (resource name)
    rw [ofChars_of_not_mem (not_mem_of_isResourceName h.1).1, ofName_resource h]
  | array element ih =>
    have htext : (array element).text.toList = '[' :: ']' :: element.text.toList := by
      simp [text]
    rw [htext]
    exact ofChars_list _ (ih h)
  | map key value ihkey ihvalue =>
    obtain ⟨hplain, hkey, hvalue⟩ := h
    have htext : (map key value).text.toList
        = 'm' :: 'a' :: 'p' :: '[' :: (key.text.toList ++ ']' :: value.text.toList) := by
      simp [text]
    rw [htext]
    exact ofChars_map (not_mem_text hplain hkey).2 (ihkey hkey) hplain (ihvalue hvalue)
  | _ =>
    rw [ofChars_of_not_mem (by decide)]
    exact ofName_primitive (by decide)

/-- **The text of a legible type is read as the type.** -/
theorem ofText_text {t : FieldType} (h : t.Legible) : ofText t.text = .ok t := ofChars_text h

/-! ## §4. Nothing else is read. -/

theorem legible_of_primitive? {name : String} {t : FieldType} (h : primitive? name = some t) :
    t.Legible := by
  unfold primitive? at h
  grind [Legible]

/-- A name is read as the primitive that it is, or else as a resource. -/
theorem ofName_eq_ok {cs : List Char} {t : FieldType} (h : ofName cs = .ok t) :
    primitive? (String.ofList cs) = some t
      ∨ primitive? (String.ofList cs) = none ∧ isResourceName cs = true
        ∧ t = resource (String.ofList cs) := by
  rw [ofName] at h
  cases hprim : primitive? (String.ofList cs) with
  | some t' => exact .inl (by simpa [hprim] using h)
  | none =>
    cases hname : isResourceName cs with
    | false => simp [hprim, hname] at h
    | true => exact .inr ⟨rfl, rfl, by simpa [hprim, hname, eq_comm] using h⟩

theorem legible_of_ofName {cs : List Char} {t : FieldType} (h : ofName cs = .ok t) : t.Legible := by
  rcases ofName_eq_ok h with hprim | ⟨hprim, hname, rfl⟩
  · exact legible_of_primitive? hprim
  · exact ⟨by simpa using hname, hprim⟩

/-- Whatever is read is legible. -/
theorem legible_of_ofChars {cs : List Char} {t : FieldType} (h : ofChars cs = .ok t) :
    t.Legible := by
  fun_induction ofChars cs generalizing t with
  | case2 cs element helement ih =>
    cases h
    show element.Legible
    exact ih helement
  | case6 cs k v hcut key hkey hplain value hvalue ihkey ihvalue =>
    cases h
    exact ⟨hplain, ihkey hkey, ihvalue hvalue⟩
  | case8 => exact legible_of_ofName h
  | _ => simp at h

/-- **A type is read back from its text exactly when it is legible.** -/
theorem ofText_text_iff {t : FieldType} : ofText t.text = .ok t ↔ t.Legible :=
  ⟨legible_of_ofChars, ofText_text⟩

end FieldType

end LazyFields
