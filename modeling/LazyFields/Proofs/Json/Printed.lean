/-
  LazyFields.Proofs.Json.Printed
  ────────────────────────────────
  **WHAT STANDS IN A JSON TEXT.**

  Strings are escaped, so the text of a value has no control characters but the line
  feeds of its layout (`isPrinted_prettyChars`).  The text of a member stands in that of
  its object (`infix_prettyChars`), so that the documentation of a resource is found in
  the text of its schema (`Schema.title_infix_text`).
-/
import LazyFields.Proofs.Schema.RoundTrip

namespace LazyFields

namespace Json

/-! ## §1. Its characters. -/

/-- A character that a JSON text may have: a line feed, or no control character. -/
def IsPrinted (c : Char) : Prop := c = '\n' ∨ 0x20 ≤ c.toNat

instance (c : Char) : Decidable (IsPrinted c) := inferInstanceAs (Decidable (_ ∨ _))

/-- Texts that are written out are looked through character by character. -/
theorem isPrinted_of_all {cs : List Char} (h : cs.all fun d => decide (IsPrinted d)) :
    ∀ d ∈ cs, IsPrinted d := fun d hd => of_decide_eq_true (List.all_eq_true.1 h d hd)

theorem isPrinted_hexDigit : ∀ n < 16, IsPrinted (hexDigit n) := by decide

/-- A character is escaped into printed ones. -/
theorem isPrinted_escapeChar (c : Char) : ∀ d ∈ escapeChar c, IsPrinted d := by
  unfold escapeChar
  iterate 7 (split; · exact isPrinted_of_all (by decide))
  split
  · next hcontrol =>
    -- the code of a control character has two digits
    have hhigh := isPrinted_hexDigit (c.toNat / 16) (by omega)
    have hlow := isPrinted_hexDigit (c.toNat % 16) (Nat.mod_lt _ (by decide))
    simp only [List.forall_mem_cons]
    exact ⟨by decide, by decide, by decide, by decide, hhigh, hlow, by simp⟩
  · next hcode =>
    rw [List.forall_mem_singleton]
    exact .inr (Nat.le_of_not_lt hcode)

/-- A quoted string is printed. -/
theorem isPrinted_quote (s : String) : ∀ d ∈ quote s, IsPrinted d := by
  have hquote : IsPrinted '"' := by decide
  intro d hd
  rw [quote, List.cons_append, List.mem_cons, List.mem_append, List.mem_flatMap,
    List.mem_singleton] at hd
  rcases hd with rfl | ⟨c, -, hd⟩ | rfl
  · exact hquote
  · exact isPrinted_escapeChar c d hd
  · exact hquote

/-- A new line with its indentation is printed. -/
theorem isPrinted_newline (level : Nat) : ∀ d ∈ newline level, IsPrinted d := by
  intro d hd
  rw [newline, List.mem_cons] at hd
  rcases hd with rfl | hd
  · exact .inl rfl
  · rw [List.eq_of_mem_replicate hd]
    decide

mutual

/-- **The text of a plain value has no control characters but line feeds.** -/
theorem isPrinted_prettyChars : ∀ (j : Json) (level : Nat), j.Plain →
    ∀ d ∈ j.prettyChars level, IsPrinted d
  | null, _, _ => by
    simp only [prettyChars]
    exact isPrinted_of_all (by decide)
  | bool true, _, _ => by
    simp only [prettyChars]
    exact isPrinted_of_all (by decide)
  | bool false, _, _ => by
    simp only [prettyChars]
    exact isPrinted_of_all (by decide)
  | string s, _, _ => isPrinted_quote s
  | array [], _, _ => by
    simp only [prettyChars]
    exact isPrinted_of_all (by decide)
  | array (v :: vs), level, hplain => by
    have hitems := isPrinted_prettyItems (v :: vs) (level + 1) hplain
    have hline := isPrinted_newline level
    simp only [prettyChars, List.cons_append, List.forall_mem_cons, List.forall_mem_append]
    exact ⟨by decide, ⟨hitems, hline⟩, by decide, List.forall_mem_nil _⟩
  | object [], _, _ => by
    simp only [prettyChars]
    exact isPrinted_of_all (by decide)
  | object (m :: ms), level, hplain => by
    have hmembers := isPrinted_prettyMembers (m :: ms) (level + 1) hplain
    have hline := isPrinted_newline level
    simp only [prettyChars, List.cons_append, List.forall_mem_cons, List.forall_mem_append]
    exact ⟨by decide, ⟨hmembers, hline⟩, by decide, List.forall_mem_nil _⟩
  termination_by j => sizeOf j

/-- The items of an array are printed. -/
theorem isPrinted_prettyItems : ∀ (vs : List Json) (level : Nat), PlainItems vs →
    ∀ d ∈ prettyItems level vs, IsPrinted d
  | [], _, _ => by simp [prettyItems]
  | [v], level, hplain => by
    have hv := isPrinted_prettyChars v level hplain.1
    have hline := isPrinted_newline level
    simp only [prettyItems, List.forall_mem_append]
    exact ⟨hline, hv⟩
  | v :: w :: vs, level, hplain => by
    have hv := isPrinted_prettyChars v level hplain.1
    have hrest := isPrinted_prettyItems (w :: vs) level hplain.2
    have hline := isPrinted_newline level
    simp only [prettyItems, List.forall_mem_append, List.forall_mem_cons]
    exact ⟨⟨hline, hv⟩, by decide, hrest⟩
  termination_by vs => sizeOf vs

/-- The members of an object are printed. -/
theorem isPrinted_prettyMembers : ∀ (ms : List (String × Json)) (level : Nat), PlainMembers ms →
    ∀ d ∈ prettyMembers level ms, IsPrinted d
  | [], _, _ => by simp [prettyMembers]
  | [(k, v)], level, hplain => by
    have hv := isPrinted_prettyChars v level hplain.1
    have hline := isPrinted_newline level
    simp only [prettyMembers, List.forall_mem_append, List.forall_mem_cons]
    exact ⟨⟨hline, isPrinted_quote k⟩, by decide, by decide, hv⟩
  | (k, v) :: m :: ms, level, hplain => by
    have hv := isPrinted_prettyChars v level hplain.1
    have hrest := isPrinted_prettyMembers (m :: ms) level hplain.2
    have hline := isPrinted_newline level
    simp only [prettyMembers, List.forall_mem_append, List.forall_mem_cons]
    exact ⟨⟨⟨hline, isPrinted_quote k⟩, by decide, by decide, hv⟩, by decide, hrest⟩
  termination_by ms => sizeOf ms

end

/-! ## §2. Its parts. -/

/-- A member of an object stands in its text. -/
theorem infix_prettyMembers {k : String} {v : Json} {ms : List (String × Json)}
    (h : (k, v) ∈ ms) (level : Nat) : v.prettyChars level <:+: prettyMembers level ms := by
  induction ms with
  | nil => simp at h
  | cons m ms ih =>
    obtain ⟨l, w⟩ := m
    rcases List.mem_cons.1 h with heq | hrest
    · obtain ⟨rfl, rfl⟩ := Prod.mk.inj heq
      have hfirst : v.prettyChars level
          <:+ newline level ++ quote k ++ ':' :: ' ' :: v.prettyChars level :=
        ((List.suffix_cons _ _).trans (List.suffix_cons _ _)).trans (List.suffix_append _ _)
      cases ms with
      | nil => exact hfirst.isInfix
      | cons m ms =>
        exact hfirst.isInfix.trans (List.prefix_append _ (',' :: prettyMembers level (m :: ms))).isInfix
    · cases ms with
      | nil => simp at hrest
      | cons m ms =>
        rw [prettyMembers]
        exact (ih hrest).trans ((List.suffix_cons _ _).trans (List.suffix_append _ _)).isInfix

/-- The text of a member is part of the text of its object. -/
theorem infix_prettyChars {k : String} {v : Json} {ms : List (String × Json)}
    (h : (k, v) ∈ ms) (level : Nat) :
    v.prettyChars (level + 1) <:+: (object ms).prettyChars level := by
  cases ms with
  | nil => simp at h
  | cons m ms =>
    rw [prettyChars]
    exact (infix_prettyMembers h (level + 1)).trans
      ((List.prefix_append _ _).trans (List.prefix_append _ _)).isInfix
        |>.trans (List.suffix_cons _ _).isInfix

end Json

/-! ## §3. The text of a schema. -/

/-- The text of a schema has no carriage return in it. -/
theorem Schema.return_not_mem_text (s : Schema) : '\r' ∉ s.text.toList := by
  rw [Schema.text, Json.pretty, String.toList_ofList]
  intro hreturn
  exact absurd (Json.isPrinted_prettyChars s.toJson 0 (plain_schema s) '\r' hreturn) (by decide)

/-- **Documentation stands in the text of a schema,** with its quotes escaped. -/
theorem Schema.title_infix_text {s : Schema} {id : String} {r : ResourceSpec}
    (h : s.resources.get? id = some r) (htitle : r.title ≠ "") :
    Json.quote r.title <:+: s.text.toList := by
  have hentry : (id, r.toJson) ∈ (s.resources.map ResourceSpec.toJson).entries := by
    rw [← Table.get?_eq_some_iff_mem, Table.get?_map, h]
    rfl
  have hmember : ("title", Json.string r.title) ∈ r.members := by
    simp [ResourceSpec.members, textMember, htitle]
  have hresource := Json.infix_prettyChars hmember 2
  rw [← ResourceSpec.toJson_eq] at hresource
  rw [Schema.text, Json.pretty, String.toList_ofList]
  exact (hresource.trans (Json.infix_prettyChars hentry 1)).trans
    (Json.infix_prettyChars (List.mem_singleton_self _) 0)

end LazyFields
