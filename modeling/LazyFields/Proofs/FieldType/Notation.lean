/-
  LazyFields.Proofs.FieldType.Notation
  ────────────────────────────────
  **TYPES AND THEIR TEXTS CORRESPOND ONE TO ONE.**

  Which types have a notation is said here by a grammar (`HasNotation`): a
  resource is dotted segments that spell no primitive, and the key of a map is a
  primitive or a resource.  These are the legible types (`hasNotation_iff`), and a
  text is read as a type exactly if the type has a notation and the text is it
  (`notation_one_to_one`).  No text is read as a type that is written otherwise,
  so no two texts are read as one type.
-/
import Mathlib.Data.Set.Function
import LazyFields.Proofs.FieldType.Text

namespace LazyFields.FieldType

open LazyFields.Text

/-! ## §1. The grammar. -/

/-- A letter, an underscore or a dollar sign, and then letters, digits, underscores and
dollar signs. -/
inductive IsSegmentText : List Char → Prop
  | cons {c : Char} {cs : List Char} : isSegmentStart c = true →
      (∀ d ∈ cs, isSegmentChar d = true) → IsSegmentText (c :: cs)

/-- One or more segments, with single dots between them. -/
inductive IsDottedText : List Char → Prop
  | segment {s : List Char} : IsSegmentText s → IsDottedText s
  | dot {s cs : List Char} : IsSegmentText s → IsDottedText cs → IsDottedText (s ++ '.' :: cs)

/-- The type has a notation. -/
inductive HasNotation : FieldType → Prop
  | primitive {t : FieldType} : t.isPrimitive = true → HasNotation t
  | resource {name : String} : IsDottedText name.toList →
      (∀ t : FieldType, t.isPrimitive = true → t.text ≠ name) → HasNotation (.resource name)
  | array {element : FieldType} : HasNotation element → HasNotation (.array element)
  | map {key value : FieldType} : key.isPrimitive = true ∨ key.isResource = true →
      HasNotation key → HasNotation value → HasNotation (.map key value)

/-! ## §2. Names. -/

theorem isSegmentChar_of_isSegmentStart {c : Char} (h : isSegmentStart c = true) :
    isSegmentChar c = true := by
  unfold isSegmentStart at h
  unfold isSegmentChar Char.isAlphanum
  grind

/-- Segments are what `isSegment` tests for. -/
theorem isSegmentText_iff {s : List Char} : IsSegmentText s ↔ isSegment s = true := by
  cases s with
  | nil =>
    constructor
    · intro h
      cases h
    · intro h
      cases h
  | cons c cs =>
    rw [isSegment, List.head?_cons, Option.any_some, List.all_cons, Bool.and_eq_true,
      Bool.and_eq_true, List.all_eq_true]
    constructor
    · intro h
      cases h with
      | cons hstart hchars => exact ⟨hstart, isSegmentChar_of_isSegmentStart hstart, hchars⟩
    · intro h
      exact .cons h.1 h.2.2

theorem segments_of_not_mem {c : Char} {s : List Char} (h : c ∉ s) : segments c s = [s] := by
  induction s with
  | nil => rfl
  | cons x xs ih =>
    rw [List.mem_cons, not_or] at h
    exact segments_cons_of_ne (Ne.symm h.1) (ih h.2)

theorem segments_append {c : Char} {s cs : List Char} (h : c ∉ s) :
    segments c (s ++ c :: cs) = s :: segments c cs := by
  induction s with
  | nil => exact segments_cons_self c cs
  | cons x xs ih =>
    rw [List.mem_cons, not_or] at h
    exact segments_cons_of_ne (Ne.symm h.1) (ih h.2)

theorem dot_not_mem_of_isSegment {s : List Char} (h : isSegment s = true) : '.' ∉ s := by
  intro hmem
  rw [isSegment, Bool.and_eq_true] at h
  have hdot := List.all_eq_true.1 h.2 '.' hmem
  revert hdot
  decide

/-- Joined segments are dotted text. -/
theorem isDottedText_joinWith {s : List Char} : ∀ {ss : List (List Char)},
    (∀ t ∈ s :: ss, isSegment t = true) → IsDottedText (joinWith '.' (s :: ss)) := by
  intro ss
  induction ss generalizing s with
  | nil =>
    intro h
    exact .segment (isSegmentText_iff.2 (h s List.mem_cons_self))
  | cons s' ss ih =>
    intro h
    rw [List.forall_mem_cons] at h
    exact .dot (isSegmentText_iff.2 h.1) (ih h.2)

/-- Dotted texts are what `isResourceName` tests for. -/
theorem isDottedText_iff {cs : List Char} : IsDottedText cs ↔ isResourceName cs = true := by
  unfold isResourceName
  constructor
  · intro h
    induction h with
    | segment hs =>
      have hsegment := isSegmentText_iff.1 hs
      rw [segments_of_not_mem (dot_not_mem_of_isSegment hsegment), List.all_cons, hsegment]
      rfl
    | dot hs _ ih =>
      have hsegment := isSegmentText_iff.1 hs
      rw [segments_append (dot_not_mem_of_isSegment hsegment), List.all_cons, hsegment, ih]
      rfl
  · intro h
    obtain ⟨s, ss, hsegments⟩ := List.exists_cons_of_ne_nil (segments_ne_nil '.' cs)
    rw [hsegments, List.all_eq_true] at h
    rw [← joinWith_segments '.' cs, hsegments]
    exact isDottedText_joinWith h

/-- The primitive of a name is the one whose text it is. -/
theorem primitive?_eq_some_iff {name : String} {t : FieldType} :
    primitive? name = some t ↔ t.isPrimitive = true ∧ t.text = name := by
  constructor
  · intro h
    unfold primitive? at h
    grind [isPrimitive, text]
  · rintro ⟨hprim, rfl⟩
    cases t with
    | resource | array | map => cases hprim
    | _ => decide

/-- A name that is no primitive type's differs from the texts of all of them. -/
theorem primitive?_eq_none_iff {name : String} :
    primitive? name = none ↔ ∀ t : FieldType, t.isPrimitive = true → t.text ≠ name := by
  rw [Option.eq_none_iff_forall_ne_some]
  simp only [ne_eq, primitive?_eq_some_iff, not_and]

/-- **The types with a notation are the legible ones.** -/
theorem hasNotation_iff {t : FieldType} : t.HasNotation ↔ t.Legible := by
  induction t with
  | resource name =>
    rw [Legible, IsTypeName, ← isDottedText_iff, primitive?_eq_none_iff]
    constructor
    · intro h
      cases h with
      | primitive hprim => cases hprim
      | resource hname hprim => exact ⟨hname, hprim⟩
    · intro h
      exact .resource h.1 h.2
  | array element ih =>
    rw [Legible, ← ih]
    constructor
    · intro h
      cases h with
      | primitive hprim => cases hprim
      | array h => exact h
    · exact .array
  | map key value ihkey ihvalue =>
    rw [Legible, ← ihkey, ← ihvalue, Bool.or_eq_true, Or.comm]
    constructor
    · intro h
      cases h with
      | primitive hprim => cases hprim
      | map hplain hkey hvalue => exact ⟨hplain, hkey, hvalue⟩
    · intro h
      exact .map h.1 h.2.1 h.2.2
  | _ => exact iff_of_true (.primitive rfl) trivial

/-! ## §3. Reading. -/

/-- The type of a name has that name for its text. -/
theorem text_of_ofName {cs : List Char} {t : FieldType} (h : ofName cs = .ok t) :
    t.text.toList = cs := by
  rcases ofName_eq_ok h with hprim | ⟨-, -, rfl⟩
  · rw [(primitive?_eq_some_iff.1 hprim).2, String.toList_ofList]
  · exact String.toList_ofList

/-- A text is read as a type of which it is the text. -/
theorem text_of_ofChars {cs : List Char} {t : FieldType} (h : ofChars cs = .ok t) :
    t.text.toList = cs := by
  fun_induction ofChars cs generalizing t with
  | case2 cs element helement ih =>
    cases h
    simp [text, ih helement]
  | case6 cs k v hcut key hkey hplain value hvalue ihkey ihvalue =>
    cases h
    simp [text, ihkey hkey, ihvalue hvalue, (eq_append_of_cutFirst hcut).1]
  | case8 => exact text_of_ofName h
  | _ => simp at h

/-- The reader accepts a text if and only if it is the text of a type with a
notation. -/
theorem ofText_eq_ok_iff {s : String} {t : FieldType} :
    ofText s = .ok t ↔ t.HasNotation ∧ t.text = s := by
  rw [hasNotation_iff]
  constructor
  · intro h
    exact ⟨legible_of_ofChars h, String.toList_inj.1 (text_of_ofChars h)⟩
  · rintro ⟨hlegible, rfl⟩
    exact ofText_text hlegible

/-- **Types and their texts correspond one to one.**  A text is read as a type exactly
if the type has a notation and the text is it; so the texts that can be read are those
of the types with a notation, one for each, and no two of them are read as one type. -/
theorem notation_one_to_one :
    (∀ s t, ofText s = .ok t ↔ t.HasNotation ∧ t.text = s)
      ∧ Set.BijOn text {t | t.HasNotation} {s | ∃ t, ofText s = .ok t}
      ∧ Set.InjOn ofText {s | ∃ t, ofText s = .ok t} := by
  refine ⟨fun _ _ => ofText_eq_ok_iff, ⟨?_, ?_, ?_⟩, ?_⟩
  · intro t ht
    exact ⟨t, ofText_eq_ok_iff.2 ⟨ht, rfl⟩⟩
  · intro t ht t' ht' heq
    have hread : ofText t.text = .ok t := ofText_eq_ok_iff.2 ⟨ht, rfl⟩
    have hread' : ofText t.text = .ok t' := ofText_eq_ok_iff.2 ⟨ht', heq.symm⟩
    exact Except.ok.inj (hread.symm.trans hread')
  · rintro s ⟨t, ht⟩
    exact ⟨t, ofText_eq_ok_iff.1 ht⟩
  · rintro s ⟨t, ht⟩ s' - heq
    have htext : t.text = s := (ofText_eq_ok_iff.1 ht).2
    have htext' : t.text = s' := (ofText_eq_ok_iff.1 (heq ▸ ht)).2
    exact htext.symm.trans htext'

/-- A key may be a resource that is called like the container. -/
example : ofText "map[map][]integer.$x" =
    .ok (.map (.resource "map") (.array (.resource "integer.$x"))) := by decide +kernel

end LazyFields.FieldType
