/-
  LazyFields.Proofs.Source.LongestNames
  ────────────────────────────────
  **A SCANNED NAME IS THE LONGEST ONE, UNLESS IT IS TORN.**

  A dotted name is made of segments with single dots between them; a segment is a
  letter, an underscore or a dollar sign, and then letters, digits and
  underscores.  A name token should be such a name, and no longer piece of the
  text should be one.

  The scanner goes past a dot when a segment can start behind it, and takes only
  what can continue one.  A dollar sign is the one character of the first class
  that is not in the second, so a name before `.$` is torn: its token ends in the
  dot.  No other token is wrong (`scanned_name_longest_iff`).

  - `ContinuesName` — what can stand after the first character of a name.
  - `nameTail_reads` — the loop, seen from any place after that character.
-/
import LazyFields.Proofs.Source.Lossless

namespace LazyFields.Source

open LazyFields.Text

/-! ## §1. Dotted names. -/

/-- A letter, an underscore or a dollar sign, and then letters, digits and
underscores. -/
def isNameSegment : List Char → Bool
  | [] => false
  | c :: cs => isNameStart c && cs.all isNameChar

/-- One or more segments, with single dots between them. -/
def IsDottedName (cs : List Char) : Prop := (segments '.' cs).all isNameSegment = true

instance (cs : List Char) : Decidable (IsDottedName cs) :=
  inferInstanceAs (Decidable (_ = true))

/-- What can stand after the first character of a dotted name: the rest of a segment,
and whole segments after it. -/
def ContinuesName (cs : List Char) : Prop :=
  ∃ s ss, segments '.' cs = s :: ss ∧ s.all isNameChar = true ∧ ss.all isNameSegment = true

theorem isDottedName_iff {cs : List Char} :
    IsDottedName cs ↔ ∃ c ds, cs = c :: ds ∧ isNameStart c = true ∧ ContinuesName ds := by
  unfold IsDottedName ContinuesName
  cases cs with
  | nil => simp [segments, isNameSegment]
  | cons c ds =>
    by_cases hc : c = '.'
    · subst hc
      simp [segments_cons_self, isNameSegment, isNameStart]
    · cases hsegments : segments '.' ds with
      | nil => exact absurd hsegments (segments_ne_nil '.' ds)
      | cons s ss =>
        rw [segments_cons_of_ne hc hsegments]
        simp [isNameSegment, hsegments, and_assoc]

theorem continuesName_nil : ContinuesName [] := ⟨[], [], rfl, rfl, rfl⟩

theorem continuesName_dot {cs : List Char} : ContinuesName ('.' :: cs) ↔ IsDottedName cs := by
  unfold ContinuesName IsDottedName
  simp [segments_cons_self]

theorem continuesName_cons {c : Char} (hc : c ≠ '.') {cs : List Char} :
    ContinuesName (c :: cs) ↔ isNameChar c = true ∧ ContinuesName cs := by
  unfold ContinuesName
  cases hsegments : segments '.' cs with
  | nil => exact absurd hsegments (segments_ne_nil '.' cs)
  | cons s ss =>
    rw [segments_cons_of_ne hc hsegments]
    simp [and_assoc]

/-- No dotted name ends in a dot. -/
theorem not_dotted_of_dot (stem : List Char) : ¬ IsDottedName (stem ++ ['.']) := by
  unfold IsDottedName
  rw [segments_append_singleton, List.all_append]
  simp [isNameSegment]

theorem isDottedName_of_continuesName {c : Char} (hc : isNameChar c = true)
    (hstart : isNameStart c = true) {cs : List Char} (h : ContinuesName (c :: cs)) :
    IsDottedName (c :: cs) :=
  isDottedName_iff.2 ⟨c, cs, rfl, hstart, ((continuesName_cons (isNameChar_ne_dot hc)).1 h).2⟩

/-- What continues a name can be continued by just what continues any other. -/
theorem continuesName_append {more : List Char} : ∀ {cs : List Char}, ContinuesName cs →
    (ContinuesName (cs ++ more) ↔ ContinuesName more)
  | [], _ => Iff.rfl
  | c :: cs, h => by
    by_cases hc : c = '.'
    · -- a segment starts behind the dot
      subst hc
      obtain ⟨d, ds, rfl, hd, hds⟩ := isDottedName_iff.1 (continuesName_dot.1 h)
      rw [List.cons_append, continuesName_dot, List.cons_append, isDottedName_iff]
      simp [hd, continuesName_append hds]
    · rw [continuesName_cons hc] at h
      rw [List.cons_append, continuesName_cons hc, continuesName_append h.2]
      exact and_iff_right h.1

theorem isDottedName_append {cs : List Char} (h : IsDottedName cs) {more : List Char} :
    IsDottedName (cs ++ more) ↔ ContinuesName more := by
  obtain ⟨c, ds, rfl, hc, hds⟩ := isDottedName_iff.1 h
  rw [List.cons_append, isDottedName_iff]
  simp [hc, continuesName_append hds]

/-! ## §2. What the loop takes. -/

/-- No beginning of the text continues a name. -/
def StopsName (rest : List Char) : Prop :=
  ∀ more, more <+: rest → ContinuesName more → more = []

/-- A text stops a name if it starts with neither a character of one nor a dot and the
start of a segment. -/
theorem stopsName_cons {c : Char} {cs : List Char} (hchar : isNameChar c = false)
    (hdot : c = '.' → ∀ d ds, cs = d :: ds → isNameStart d = false) : StopsName (c :: cs) := by
  intro more hmore hcontinues
  cases more with
  | nil => rfl
  | cons e more =>
    obtain ⟨rfl, htail⟩ := List.cons_prefix_cons.1 hmore
    by_cases he : e = '.'
    · subst he
      obtain ⟨d, ds, rfl, hd, -⟩ := isDottedName_iff.1 (continuesName_dot.1 hcontinues)
      obtain ⟨rest, rfl⟩ := htail
      have hnot : isNameStart d = false := hdot rfl d (ds ++ rest) rfl
      rw [hd] at hnot
      cases hnot
    · rw [continuesName_cons he, hchar] at hcontinues
      cases hcontinues.1

theorem eq_dollar_of_isNameStart {c : Char} (hstart : isNameStart c = true)
    (hchar : isNameChar c = false) : c = '$' := by
  unfold isNameStart at hstart
  unfold isNameChar Char.isAlphanum at hchar
  simp_all

theorem nameTail_dollar (cs : List Char) : nameTail ('$' :: cs) = ([], '$' :: cs) := by
  rw [nameTail.eq_3 _ _ fun _ _ heq _ => absurd heq (by decide), if_neg (by decide)]

/-- **From any place in a name the loop takes all that continues it,** or it stops
after a dot, before a dollar sign. -/
theorem nameTail_reads (cs : List Char) :
    (ContinuesName (nameTail cs).1 ∧ StopsName (nameTail cs).2)
      ∨ ∃ stem after, (nameTail cs).1 = stem ++ ['.'] ∧ ContinuesName stem
        ∧ (nameTail cs).2 = '$' :: after := by
  fun_induction nameTail cs with
  | case1 => exact .inl ⟨continuesName_nil, fun more hmore _ => List.prefix_nil.1 hmore⟩
  | case2 d cs hd tail rest heq ih =>
    rw [heq] at ih
    cases hchar : isNameChar d with
    | true =>
      -- the segment behind the dot has begun with `d`
      rw [nameTail_of_char hchar, Prod.mk.injEq] at heq
      obtain ⟨rfl, rfl⟩ := heq
      rcases ih with ⟨htail, hrest⟩ | ⟨stem, after, hstem, hcontinues, hrest⟩
      · exact .inl ⟨continuesName_dot.2 (isDottedName_of_continuesName hchar hd htail), hrest⟩
      · cases stem with
        | nil => exact absurd (List.cons.inj hstem).1 (isNameChar_ne_dot hchar)
        | cons e stem =>
          obtain ⟨rfl, htail⟩ := List.cons.inj hstem
          refine .inr ⟨'.' :: d :: stem, after, by rw [htail]; rfl, ?_, hrest⟩
          exact continuesName_dot.2 (isDottedName_of_continuesName hchar hd hcontinues)
    | false =>
      obtain rfl := eq_dollar_of_isNameStart hd hchar
      rw [nameTail_dollar, Prod.mk.injEq] at heq
      obtain ⟨rfl, rfl⟩ := heq
      exact .inr ⟨[], cs, rfl, continuesName_nil, rfl⟩
  | case3 d cs hd =>
    refine .inl ⟨continuesName_nil, stopsName_cons (by decide) ?_⟩
    intro _ e ds heq
    obtain ⟨rfl, -⟩ := List.cons.inj heq
    simpa using hd
  | case4 c cs _ hc tail rest heq ih =>
    rw [heq] at ih
    have hdot := isNameChar_ne_dot hc
    rcases ih with ⟨htail, hrest⟩ | ⟨stem, after, rfl, hcontinues, hrest⟩
    · exact .inl ⟨(continuesName_cons hdot).2 ⟨hc, htail⟩, hrest⟩
    · exact .inr ⟨c :: stem, after, rfl, (continuesName_cons hdot).2 ⟨hc, hcontinues⟩, hrest⟩
  | case5 c cs hother hc =>
    refine .inl ⟨continuesName_nil, stopsName_cons (by simpa using hc) ?_⟩
    intro hdot d ds heq
    exact absurd heq (hother d ds hdot)

/-! ## §3. Name tokens. -/

/-- The text is a dotted name, and no longer piece from its place on is one: neither
with the next character, nor with a dot and the start of a segment, nor with more. -/
structure IsLongestName (name rest : List Char) : Prop where
  dotted : IsDottedName name
  longest : ∀ more, more <+: rest → IsDottedName (name ++ more) → more = []

/-- The text is a dotted name and a dot, and a dollar sign follows. -/
def IsTornName (name rest : List Char) : Prop :=
  ∃ stem after, name = stem ++ ['.'] ∧ IsDottedName stem ∧ rest = '$' :: after

theorem longest_of_nameTail {c : Char} (hc : isNameStart c = true) (cs : List Char) :
    IsLongestName (c :: (nameTail cs).1) (nameTail cs).2
      ↔ ¬ IsTornName (c :: (nameTail cs).1) (nameTail cs).2 := by
  constructor
  · rintro hlongest ⟨stem, after, hname, -, -⟩
    exact not_dotted_of_dot stem (hname ▸ hlongest.dotted)
  · intro htorn
    rcases nameTail_reads cs with ⟨htail, hstops⟩ | ⟨stem, after, hstem, hcontinues, hrest⟩
    · have hdotted : IsDottedName (c :: (nameTail cs).1) :=
        isDottedName_iff.2 ⟨c, _, rfl, hc, htail⟩
      exact ⟨hdotted, fun more hmore hlonger =>
        hstops more hmore ((isDottedName_append hdotted).1 hlonger)⟩
    · have hdotted : IsDottedName (c :: stem) := isDottedName_iff.2 ⟨c, stem, rfl, hc, hcontinues⟩
      exact absurd ⟨c :: stem, after, by rw [hstem]; rfl, hdotted, hrest⟩ htorn

/-- **A scanned name is the longest dotted name where it stands, exactly if it is not
torn off** after a dot, before a dollar sign. -/
theorem scanned_name_longest_iff {source file : String} {ts : List Token}
    (h : Token.scan source file = .ok ts) {t : Token} (ht : t ∈ ts) {name : String}
    (hname : t.kind = .identifier name) :
    ∃ before rest, source.toList = before ++ name.toList ++ rest ∧ t.pos = placeAfter before
      ∧ (IsLongestName name.toList rest ↔ ¬ IsTornName name.toList rest) := by
  have hkind : t.kind ≠ .eof := fun heof => TokenKind.noConfusion (hname.symm.trans heof)
  obtain ⟨before, c, cs, l, hsource, hl, rfl⟩ := scanned_of_mem h ht hkind
  obtain ⟨hc, rfl⟩ := name_of_lexeme hl hname
  cases hname
  refine ⟨before, (nameTail cs).2, ?_, rfl, ?_⟩
  · rw [hsource, String.toList_ofList, List.append_assoc, List.cons_append, nameTail_append]
  · rw [String.toList_ofList]
    exact longest_of_nameTail hc cs

/-- Two names; the second is torn. -/
def tornText : String := "k8s.pod a.$b"

/-- The tokens of `tornText`: the dollar sign starts a third name. -/
def tornTokens : List Token :=
  [⟨.identifier "k8s.pod", "k8s.pod", ⟨1, 1⟩⟩, ⟨.identifier "a.", "a.", ⟨1, 9⟩⟩,
    ⟨.identifier "$b", "$b", ⟨1, 11⟩⟩, ⟨.eof, "", ⟨1, 13⟩⟩]

theorem scanned_name_longest_iff_tornText :
    Token.scan tornText "f.lr" = .ok tornTokens
      ∧ ⟨.identifier "k8s.pod", "k8s.pod", ⟨1, 1⟩⟩ ∈ tornTokens
      ∧ ∃ before rest, tornText.toList = before ++ "k8s.pod".toList ++ rest
        ∧ (⟨1, 1⟩ : Position) = placeAfter before
        ∧ (IsLongestName "k8s.pod".toList rest ↔ ¬ IsTornName "k8s.pod".toList rest) := by
  have h : Token.scan tornText "f.lr" = .ok tornTokens := by decide +kernel
  have hmem : (⟨.identifier "k8s.pod", "k8s.pod", ⟨1, 1⟩⟩ : Token) ∈ tornTokens :=
    List.mem_cons_self
  exact ⟨h, hmem, scanned_name_longest_iff h hmem rfl⟩

/-- A scanned name may be no dotted name. -/
theorem torn_name_not_longest :
    ¬ ∀ (source file : String) (ts : List Token), Token.scan source file = .ok ts →
      ∀ t ∈ ts, ∀ name, t.kind = .identifier name →
        ∃ before rest, source.toList = before ++ name.toList ++ rest ∧ t.pos = placeAfter before
          ∧ IsLongestName name.toList rest := by
  intro h
  have hscan : Token.scan "a.$b" "f.lr" = .ok [⟨.identifier "a.", "a.", ⟨1, 1⟩⟩,
      ⟨.identifier "$b", "$b", ⟨1, 3⟩⟩, ⟨.eof, "", ⟨1, 5⟩⟩] := by decide +kernel
  obtain ⟨before, rest, -, -, hlongest⟩ := h _ _ _ hscan _ List.mem_cons_self "a." rfl
  exact absurd hlongest.dotted (by decide)

end LazyFields.Source
