/-
  LazyFields.Proofs.Source.Literals
  ────────────────────────────────
  **A STRING LITERAL SAYS ITS VALUE.**

  Between the quotes of a literal stand characters that mean themselves, none of
  them a quote, a backslash or a line feed, and escapes: a backslash and one of
  four characters.  `Unescapes` says which value that is, without a reader.

  The scanner reads just that: what stands up to the closing quote unescapes to
  the value it answers (`unescapes_of_stringTail`), and whatever unescapes to a
  value is read as that value and no further (`stringTail_of_unescapes`).  So
  every text is read back from its literal, and every literal in a text has one
  value (`literals_read_back`).
-/
import LazyFields.Proofs.Source.Lossless

namespace LazyFields.Source

open LazyFields.Text

/-! ## §1. What a text between quotes means. -/

/-- The characters that may follow a backslash, and what the two mean. -/
def escapes : List (Char × Char) := [('n', '\n'), ('t', '\t'), ('\\', '\\'), ('"', '"')]

/-- A text between quotes and its value. -/
inductive Unescapes : List Char → List Char → Prop
  | nil : Unescapes [] []
  | escape {e c : Char} {body value : List Char} : (e, c) ∈ escapes → Unescapes body value →
      Unescapes ('\\' :: e :: body) (c :: value)
  | plain {c : Char} {body value : List Char} : c ∉ ['\\', '"', '\n'] → Unescapes body value →
      Unescapes (c :: body) (c :: value)

theorem unescape?_eq_some_iff {e c : Char} : unescape? e = some c ↔ (e, c) ∈ escapes := by
  constructor
  · intro h
    unfold unescape? at h
    split at h <;> cases h <;> decide
  · intro h
    simp only [escapes, List.mem_cons, Prod.mk.injEq, List.not_mem_nil, or_false] at h
    obtain ⟨rfl, rfl⟩ | ⟨rfl, rfl⟩ | ⟨rfl, rfl⟩ | ⟨rfl, rfl⟩ := h <;> rfl

theorem newline_not_mem_of_unescapes {body value : List Char} (h : Unescapes body value) :
    '\n' ∉ body := by
  induction h with
  | nil => exact List.not_mem_nil
  | @escape e c body value he _ ih =>
    have hne : e ≠ '\n' := by
      rintro rfl
      cases unescape?_eq_some_iff.2 he
    simp [ih, hne.symm]
  | plain hc _ ih =>
    simp only [List.mem_cons, not_or] at hc
    simp [ih, Ne.symm hc.2.2.1]

/-! ## §2. What the scanner reads. -/

/-- A text between quotes is read up to the quote that closes it. -/
theorem stringTail_of_unescapes {body value : List Char} (h : Unescapes body value)
    (rest : List Char) :
    stringTail (body ++ '"' :: rest) = .ok (value, body ++ ['"'], rest) := by
  induction h with
  | nil => rfl
  | escape he _ ih =>
    rw [List.cons_append, List.cons_append, stringTail, unescape?_eq_some_iff.2 he]
    simp only [ih, List.cons_append]
  | plain hc _ ih =>
    simp only [List.mem_cons, List.not_mem_nil, or_false, not_or] at hc
    rw [List.cons_append, stringTail_char hc.1, if_neg hc.2.1, if_neg hc.2.2]
    simp only [ih, List.cons_append]

theorem unescapes_of_stringTail {cs value text rest : List Char}
    (h : stringTail cs = .ok (value, text, rest)) :
    ∃ body, text = body ++ ['"'] ∧ Unescapes body value := by
  fun_induction stringTail cs generalizing value text rest with
  | case1 => cases h
  | case2 => cases h
  | case3 => cases h
  | case4 => cases h
  | case5 e cs v hv value text rest hok ih =>
    cases h
    obtain ⟨body, rfl, hbody⟩ := ih hok
    exact ⟨'\\' :: e :: body, rfl, .escape (unescape?_eq_some_iff.1 hv) hbody⟩
  | case6 =>
    cases h
    exact ⟨[], rfl, .nil⟩
  | case7 => cases h
  | case8 => cases h
  | case9 c cs hend hescape hquote hline value text rest hok ih =>
    cases h
    obtain ⟨body, rfl, hbody⟩ := ih hok
    -- a backslash would start an escape, or stand at the end
    have hslash : c ≠ '\\' := by
      rintro rfl
      cases cs with
      | nil => exact hend rfl rfl
      | cons e es => exact hescape e es rfl rfl
    exact ⟨c :: body, rfl, .plain (by simp [hslash, hquote, hline]) hbody⟩

/-- A text between quotes has one value. -/
theorem Unescapes.unique {body value value' : List Char} (h : Unescapes body value)
    (h' : Unescapes body value') : value' = value := by
  have hread := (stringTail_of_unescapes h' []).symm.trans (stringTail_of_unescapes h [])
  exact congrArg Prod.fst (Except.ok.inj hread)

/-! ## §3. Literals. -/

/-- The literal of a text. -/
def stringLiteral (s : String) : String :=
  String.ofList ('"' :: s.toList.flatMap escapeChar ++ ['"'])

/-- The token is a literal of the text: quotes, and between them, in one line, what
unescapes to the value and to nothing else. -/
def Token.IsLiteral (t : Token) (source : String) (value : String) : Prop :=
  ∃ before body after, source.toList = before ++ '"' :: body ++ '"' :: after
    ∧ t.pos = placeAfter before ∧ t.lexeme = String.ofList ('"' :: body ++ ['"'])
    ∧ '\n' ∉ body ∧ ∀ v, Unescapes body v ↔ v = value.toList

theorem scan_stringLiteral (s file : String) : Token.scan (stringLiteral s) file = .ok
    [⟨.string s, stringLiteral s, .start⟩, ⟨.eof, "", placeAfter (stringLiteral s).toList⟩] := by
  have hrender : (stringLiteral s).toList = render [.token (.string s)] := by
    rw [stringLiteral, String.toList_ofList, render, List.flatMap_singleton]
    rfl
  have hseparated : Separated [.token (.string s)] := ⟨trivial, trivial⟩
  rw [Token.scan, hrender, scanFrom_render hseparated, Position.past, start_after]
  rfl

/-- **String literals are read back.**  The literal of any text is scanned as one token
with that text as its value.  And any string token of a scanned text is a literal of its
value. -/
theorem literals_read_back :
    (∀ s file, Token.scan (stringLiteral s) file = .ok
      [⟨.string s, stringLiteral s, .start⟩,
        ⟨.eof, "", placeAfter (stringLiteral s).toList⟩])
    ∧ ∀ source file ts, Token.scan source file = .ok ts →
      ∀ t ∈ ts, ∀ value, t.kind = .string value → t.IsLiteral source value := by
  refine ⟨scan_stringLiteral, ?_⟩
  intro source file ts h t ht value hvalue
  have hkind : t.kind ≠ .eof := fun heof => TokenKind.noConfusion (hvalue.symm.trans heof)
  obtain ⟨before, c, cs, l, hsource, hl, rfl⟩ := scanned_of_mem h ht hkind
  obtain ⟨rfl, text, htail, htext⟩ := string_of_lexeme hl hvalue
  obtain ⟨body, rfl, hbody⟩ := unescapes_of_stringTail htail
  refine ⟨before, body, l.rest, ?_, rfl, congrArg String.ofList htext, ?_, ?_⟩
  · rw [hsource, ← stringTail_append htail]
    simp
  · exact newline_not_mem_of_unescapes hbody
  · intro v
    exact ⟨hbody.unique, fun hv => hv ▸ hbody⟩

/-- A literal with an escaped backslash before its closing quote, and a NUL character. -/
def escapedText : String := "option a = \"\\\"\x00\\\\\""

/-- The tokens of `escapedText`. -/
def escapedTokens : List Token :=
  [⟨.identifier "option", "option", ⟨1, 1⟩⟩, ⟨.identifier "a", "a", ⟨1, 8⟩⟩,
    ⟨.assign, "=", ⟨1, 10⟩⟩, ⟨.string "\"\x00\\", "\"\\\"\x00\\\\\"", ⟨1, 12⟩⟩,
    ⟨.eof, "", ⟨1, 19⟩⟩]

theorem literals_read_back_escapedText :
    Token.scan escapedText "f.lr" = .ok escapedTokens
      ∧ ⟨.string "\"\x00\\", "\"\\\"\x00\\\\\"", ⟨1, 12⟩⟩ ∈ escapedTokens
      ∧ Token.IsLiteral ⟨.string "\"\x00\\", "\"\\\"\x00\\\\\"", ⟨1, 12⟩⟩ escapedText
        "\"\x00\\" := by
  have h : Token.scan escapedText "f.lr" = .ok escapedTokens := by decide +kernel
  have hmem : (⟨.string "\"\x00\\", "\"\\\"\x00\\\\\"", ⟨1, 12⟩⟩ : Token) ∈ escapedTokens := by
    simp [escapedTokens]
  exact ⟨h, hmem, literals_read_back.2 _ _ _ h _ hmem _ rfl⟩

end LazyFields.Source
