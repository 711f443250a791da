/-
  LazyFields.Proofs.Source.Lossless
  ────────────────────────────────
  **SCANNING LOSES NOTHING, AND PLACES ARE EXACT.**

  A scanned text is cut into parts, each a token with the blanks before it, and
  blanks at its end (`scanFrom_cut`).  The cut is told for a refused text too:
  it reaches up to the character that no token starts with.

  - `LaidFrom` — the parts stand one after the other, each token where its blanks
    end.
  - `start_after` — the place after some characters, by counting: the line from
    the line feeds, the column from what stands after the last of them.
  - `scan_lossless` — what follows for the tokens of a whole text.
-/
import Mathlib.Data.List.DropRight
import LazyFields.Proofs.Source.Layout

namespace LazyFields.Source

open LazyFields.Text

/-! ## §1. The place after some characters. -/

/-- What stands after the last line feed; all of it if there is none. -/
def lastLine (cs : List Char) : List Char := cs.rtakeWhile fun c => c ≠ '\n'

/-- The place right after the characters, counted from the start of the text. -/
def placeAfter (cs : List Char) : Position :=
  ⟨1 + cs.count '\n', 1 + (lastLine cs).length⟩

theorem next_placeAfter (cs : List Char) (c : Char) :
    (placeAfter cs).next c = placeAfter (cs ++ [c]) := by
  unfold placeAfter lastLine Position.next
  by_cases hc : c = '\n'
  · rw [if_pos hc, List.rtakeWhile_concat_neg _ _ _ (by simp [hc])]
    simp [hc, Nat.add_assoc]
  · rw [if_neg hc, List.rtakeWhile_concat_pos _ _ _ (by simp [hc])]
    simp [hc, Nat.add_assoc]

/-- **Places that are moved on character by character are counted right.** -/
theorem start_after (cs : List Char) : Position.start.after cs = placeAfter cs := by
  induction cs using List.reverseRecOn with
  | nil => rfl
  | append_singleton cs c ih =>
    rw [Position.after_append, ih]
    exact next_placeAfter cs c

/-! ## §2. The parts of a text. -/

/-- A token with the blanks that stand before it. -/
structure Part where
  gap : List Char
  token : Token

/-- The text of a part. -/
def Part.text (part : Part) : List Char := part.gap ++ part.token.lexeme.toList

/-- The text that some parts make up. -/
def textOf (parts : List Part) : List Char := parts.flatMap Part.text

@[simp] theorem textOf_nil : textOf [] = [] := rfl

@[simp] theorem textOf_cons (part : Part) (parts : List Part) :
    textOf (part :: parts) = part.text ++ textOf parts := rfl

theorem textOf_append (before after : List Part) :
    textOf (before ++ after) = textOf before ++ textOf after := List.flatMap_append

/-- The part's blanks start at `p`, and its token stands after them. -/
structure Part.StandsAt (part : Part) (p : Position) : Prop where
  blanks : ∀ c ∈ part.gap, isGap c = true
  place : part.token.pos = p.after part.gap

/-- The parts stand one after the other, the first at `p`. -/
def LaidFrom : Position → List Part → Prop
  | _, [] => True
  | p, part :: parts => part.StandsAt p ∧ LaidFrom (p.after part.text) parts

theorem LaidFrom.concat {p : Position} {parts : List Part} {last : Part} (h : LaidFrom p parts)
    (hlast : last.StandsAt (p.after (textOf parts))) : LaidFrom p (parts ++ [last]) := by
  induction parts generalizing p with
  | nil => exact ⟨hlast, trivial⟩
  | cons first parts ih =>
    refine ⟨h.1, ih h.2 ?_⟩
    rw [← Position.after_append]
    exact hlast

/-- Each token stands after blanks, and these after all parts before it. -/
theorem LaidFrom.standsAt {p : Position} {before after : List Part} {part : Part}
    (h : LaidFrom p (before ++ part :: after)) : part.StandsAt (p.after (textOf before)) := by
  induction before generalizing p with
  | nil => exact h.1
  | cons first before ih =>
    rw [textOf_cons, Position.after_append]
    exact ih h.2

/-- A blank before the parts goes to the first of them, or to what follows if there
is none. -/
theorem LaidFrom.blank {p : Position} {c : Char} {parts : List Part} {gap : List Char}
    (hc : isGap c = true) (h : LaidFrom (p.next c) parts) (hgap : ∀ d ∈ gap, isGap d = true) :
    ∃ parts' gap', textOf parts' ++ gap' = c :: (textOf parts ++ gap) ∧ LaidFrom p parts'
      ∧ (∀ d ∈ gap', isGap d = true) ∧ parts'.map Part.token = parts.map Part.token := by
  cases parts with
  | nil => exact ⟨[], c :: gap, rfl, trivial, List.forall_mem_cons.2 ⟨hc, hgap⟩, rfl⟩
  | cons part parts =>
    have hfirst : Part.StandsAt ⟨c :: part.gap, part.token⟩ p :=
      ⟨List.forall_mem_cons.2 ⟨hc, h.1.blanks⟩, h.1.place⟩
    exact ⟨⟨c :: part.gap, part.token⟩ :: parts, gap, rfl, ⟨hfirst, h.2⟩, hgap, rfl⟩

/-! ## §3. Every text is cut by scanning. -/

theorem kind_lexeme {c : Char} {cs : List Char} {l : Lexeme} (h : lexeme c cs = .ok l) :
    l.kind ≠ .eof := by
  cases reads_of_lexeme h with
  | punctuation hkind => exact (kind_punctuation hkind).2
  | comment => exact TokenKind.noConfusion
  | string => exact TokenKind.noConfusion
  | name => exact TokenKind.noConfusion

theorem scanFrom_refused {file : String} {p : Position} {c : Char} {cs : List Char}
    (hc : isGap c = false) {m : String} (hm : lexeme c cs = .error m) :
    scanFrom file p (c :: cs) = .error (.syntaxError file p.line p.column m) := by
  rw [scanFrom, if_neg (by simp [hc])]
  split
  · next m' hm' =>
    cases hm.symm.trans hm'
    rfl
  · next l hl => cases hm.symm.trans hl

theorem scanFrom_later_refused {file : String} {p : Position} {c : Char} {cs : List Char}
    {l : Lexeme} (hc : isGap c = false) (hl : lexeme c cs = .ok l) {e : Error}
    (he : scanFrom file (p.after l.text) l.rest = .error e) :
    scanFrom file p (c :: cs) = .error e := by
  rw [scanFrom, if_neg (by simp [hc])]
  split
  · next m hm => cases hl.symm.trans hm
  · next l' hl' =>
    cases hl.symm.trans hl'
    rw [he]

/-- What scanning of `cs` from `p` comes to when it goes past the parts and the blanks
after them: an end mark if nothing is left, or the refusal of what stands there. -/
def HaltsAt (file : String) (p : Position) (cs : List Char) (parts : List Part)
    (gap : List Char) : List Char → Prop
  | [] => scanFrom file p cs = .ok (parts.map Part.token ++ [⟨.eof, "", p.after cs⟩])
  | c :: ds =>
      let q := p.after (textOf parts ++ gap)
      isGap c = false ∧ ∃ m, lexeme c ds = .error m ∧
        scanFrom file p cs = .error (.syntaxError file q.line q.column m)

/-- The text `cs`, from `p` on, is the parts, then blanks, then what is not scanned. -/
structure CutInto (file : String) (p : Position) (cs : List Char) (parts : List Part)
    (gap rest : List Char) : Prop where
  whole : cs = textOf parts ++ gap ++ rest
  laid : LaidFrom p parts
  inner : ∀ t ∈ parts.map Part.token, t.kind ≠ .eof ∧ t.lexeme ≠ ""
  blanks : ∀ c ∈ gap, isGap c = true
  halts : HaltsAt file p cs parts gap rest

theorem CutInto.blank {file : String} {p : Position} {c : Char} {cs : List Char} (hc : isGap c = true)
    {parts : List Part} {gap rest : List Char} (h : CutInto file (p.next c) cs parts gap rest) :
    ∃ parts' gap', CutInto file p (c :: cs) parts' gap' rest := by
  obtain ⟨parts', gap', htext, hlaid, hgap, htokens⟩ := LaidFrom.blank hc h.laid h.blanks
  refine ⟨parts', gap', by rw [htext, h.whole]; rfl, hlaid, htokens ▸ h.inner, hgap, ?_⟩
  cases rest with
  | nil =>
    show scanFrom file p (c :: cs) = _
    rw [scanFrom_gap hc, htokens]
    exact h.halts
  | cons d ds =>
    obtain ⟨hd, m, hm, hscan⟩ := h.halts
    refine ⟨hd, m, hm, ?_⟩
    rw [scanFrom_gap hc, htext]
    exact hscan

theorem CutInto.lexeme {file : String} {p : Position} {c : Char} {cs : List Char} {l : Lexeme}
    (hc : isGap c = false) (hl : lexeme c cs = .ok l) {parts : List Part} {gap rest : List Char}
    (h : CutInto file (p.after l.text) l.rest parts gap rest) :
    CutInto file p (c :: cs) (⟨[], ⟨l.kind, String.ofList l.text, p⟩⟩ :: parts) gap rest := by
  let first : Part := ⟨[], ⟨l.kind, String.ofList l.text, p⟩⟩
  have htext : first.text = l.text := String.toList_ofList
  have hwhole : c :: cs = l.text ++ l.rest := (lexeme_split hl).1.symm
  have hlexeme : String.ofList l.text ≠ "" := by
    simpa using (lexeme_split hl).2
  have hlaid : LaidFrom p (first :: parts) := by
    refine ⟨⟨by simp [first], rfl⟩, ?_⟩
    rw [htext]
    exact h.laid
  refine ⟨?_, hlaid, List.forall_mem_cons.2 ⟨⟨kind_lexeme hl, hlexeme⟩, h.inner⟩, h.blanks, ?_⟩
  · rw [hwhole, textOf_cons, htext, h.whole, List.append_assoc, List.append_assoc,
      List.append_assoc]
  · cases rest with
    | nil =>
      show scanFrom file p (c :: cs) = _
      rw [scanFrom_lexeme hc hl h.halts, hwhole, Position.after_append]
      rfl
    | cons d ds =>
      obtain ⟨hd, m, hm, hscan⟩ := h.halts
      refine ⟨hd, m, hm, ?_⟩
      rw [scanFrom_later_refused hc hl hscan, textOf_cons, htext, List.append_assoc,
        Position.after_append p l.text]

/-- **Scanning cuts every text.** -/
theorem scanFrom_cut (file : String) (p : Position) (cs : List Char) :
    ∃ parts gap rest, CutInto file p cs parts gap rest := by
  induction hn : cs.length using Nat.strongRecOn generalizing p cs with
  | ind n ih =>
    cases cs with
    | nil => exact ⟨[], [], [], rfl, trivial, by simp, by simp, by simp [HaltsAt, scanFrom]⟩
    | cons c cs =>
      cases hc : isGap c with
      | true =>
        obtain ⟨parts, gap, rest, h⟩ := ih cs.length (by simp [← hn]) (p.next c) cs rfl
        obtain ⟨parts', gap', h'⟩ := h.blank hc
        exact ⟨parts', gap', rest, h'⟩
      | false =>
        cases hl : lexeme c cs with
        | error m =>
          exact ⟨[], [], c :: cs, rfl, trivial, by simp, by simp, hc, m, hl, scanFrom_refused hc hl⟩
        | ok l =>
          have hlt : l.rest.length < n := hn ▸ lexeme_rest_lt hl
          obtain ⟨parts, gap, rest, h⟩ := ih l.rest.length hlt (p.after l.text) l.rest rfl
          exact ⟨_, gap, rest, h.lexeme hc hl⟩

/-! ## §4. The tokens of a whole text. -/

/-- Every token but the end mark was read where it stands. -/
theorem read_of_mem {file : String} {p : Position} {cs : List Char} {ts : List Token}
    (h : scanFrom file p cs = .ok ts) {t : Token} (ht : t ∈ ts) (hkind : t.kind ≠ .eof) :
    ∃ before c ds l, cs = before ++ c :: ds ∧ lexeme c ds = .ok l
      ∧ t = ⟨l.kind, String.ofList l.text, p.after before⟩ := by
  fun_induction scanFrom file p cs generalizing ts with
  | case1 p =>
    cases h
    obtain rfl := List.mem_singleton.1 ht
    exact absurd rfl hkind
  | case2 p c cs hgap ih =>
    obtain ⟨before, d, ds, l, rfl, hl, hpos⟩ := ih h ht
    exact ⟨c :: before, d, ds, l, rfl, hl, hpos⟩
  | case3 => cases h
  | case4 => cases h
  | case5 p c cs hgap l hl rest hrest ih =>
    cases h
    rcases List.mem_cons.1 ht with rfl | ht
    · exact ⟨[], c, cs, l, rfl, hl, rfl⟩
    · obtain ⟨before, d, ds, l', hrest', hl', hpos⟩ := ih hrest ht
      refine ⟨l.text ++ before, d, ds, l', ?_, hl', ?_⟩
      · rw [List.append_assoc, ← hrest', (lexeme_split hl).1]
      · rw [Position.after_append, hpos]

/-- The same of a whole text, with places that are counted from its start. -/
theorem scanned_of_mem {source file : String} {ts : List Token}
    (h : Token.scan source file = .ok ts) {t : Token} (ht : t ∈ ts) (hkind : t.kind ≠ .eof) :
    ∃ before c cs l, source.toList = before ++ c :: cs ∧ lexeme c cs = .ok l
      ∧ t = ⟨l.kind, String.ofList l.text, placeAfter before⟩ := by
  obtain ⟨before, c, cs, l, hsource, hl, ht⟩ := read_of_mem h ht hkind
  rw [start_after] at ht
  exact ⟨before, c, cs, l, hsource, hl, ht⟩

/-- **Scanning is lossless, and places are exact.**  The tokens of a text, each with the
blanks before it, make up the text; the place of each is counted from what stands before
it; and the last of them, with no text of its own, is the only end mark. -/
theorem scan_lossless {source file : String} {ts : List Token}
    (h : Token.scan source file = .ok ts) :
    ∃ parts : List Part, parts.map Part.token = ts ∧ source.toList = textOf parts
      ∧ (∀ part ∈ parts, ∀ c ∈ part.gap, c = ' ' ∨ c = '\t' ∨ c = '\r' ∨ c = '\n')
      ∧ (∀ before part after, parts = before ++ part :: after →
          part.token.pos.line = 1 + (textOf before ++ part.gap).count '\n'
            ∧ part.token.pos.column = 1 + (lastLine (textOf before ++ part.gap)).length)
      ∧ ∃ inner gap, parts = inner ++ [⟨gap, ⟨.eof, "", placeAfter source.toList⟩⟩]
          ∧ ∀ part ∈ inner, part.token.kind ≠ .eof ∧ part.token.lexeme ≠ "" := by
  obtain ⟨inner, gap, rest, hcut⟩ := scanFrom_cut file .start source.toList
  cases rest with
  | cons c ds =>
    -- a text that is refused has no tokens
    obtain ⟨-, m, -, hscan⟩ := hcut.halts
    cases h.symm.trans hscan
  | nil =>
    let last : Part := ⟨gap, ⟨.eof, "", placeAfter source.toList⟩⟩
    have hsource : source.toList = textOf inner ++ gap := by
      rw [hcut.whole, List.append_nil]
    have hts : ts = (inner ++ [last]).map Part.token := by
      rw [List.map_append, ← Except.ok.inj (hcut.halts.symm.trans h), start_after]
      rfl
    have hlaid : LaidFrom .start (inner ++ [last]) := by
      apply hcut.laid.concat
      refine ⟨hcut.blanks, ?_⟩
      show placeAfter source.toList = _
      rw [← Position.after_append, ← hsource, start_after]
    refine ⟨inner ++ [last], hts.symm, ?_, ?_, ?_, inner, gap, rfl, ?_⟩
    · rw [textOf_append, hsource]
      simp [last, Part.text]
    · intro part hpart c hc
      obtain ⟨before, after, heq⟩ := List.append_of_mem hpart
      have hblank := (heq ▸ hlaid).standsAt.blanks c hc
      simpa [isGap, or_assoc] using hblank
    · intro before part after heq
      have hplace := (heq ▸ hlaid).standsAt.place
      rw [← Position.after_append, start_after] at hplace
      rw [hplace]
      exact ⟨rfl, rfl⟩
    · intro part hpart
      exact hcut.inner part.token (List.mem_map_of_mem hpart)

/-- Two lines; the comment ends in blanks, and the string holds a line feed. -/
def blankedText : String := "id // é \t\n\t\"a\\nb\"\r\n"

/-- The tokens of the two lines. -/
def blankedTokens : List Token :=
  [⟨.identifier "id", "id", ⟨1, 1⟩⟩, ⟨.comment "// é", "// é \t", ⟨1, 4⟩⟩,
    ⟨.string "a\nb", "\"a\\nb\"", ⟨2, 2⟩⟩, ⟨.eof, "", ⟨3, 1⟩⟩]

/-- The blanks after the comment are part of its token's text. -/
theorem scan_lossless_blankedText :
    Token.scan blankedText "f.lr" = .ok blankedTokens ∧
      ∃ parts : List Part, parts.map Part.token = blankedTokens
        ∧ blankedText.toList = textOf parts
        ∧ (∀ part ∈ parts, ∀ c ∈ part.gap, c = ' ' ∨ c = '\t' ∨ c = '\r' ∨ c = '\n')
        ∧ (∀ before part after, parts = before ++ part :: after →
            part.token.pos.line = 1 + (textOf before ++ part.gap).count '\n'
              ∧ part.token.pos.column = 1 + (lastLine (textOf before ++ part.gap)).length)
        ∧ ∃ inner gap, parts = inner ++ [⟨gap, ⟨.eof, "", placeAfter blankedText.toList⟩⟩]
            ∧ ∀ part ∈ inner, part.token.kind ≠ .eof ∧ part.token.lexeme ≠ "" := by
  have h : Token.scan blankedText "f.lr" = .ok blankedTokens := by decide +kernel
  exact ⟨h, scan_lossless h⟩

end LazyFields.Source
