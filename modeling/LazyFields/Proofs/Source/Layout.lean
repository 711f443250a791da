/-
  LazyFields.Proofs.Source.Layout
  ────────────────────────────────
  **SCANNING WHAT WAS LAID OUT.**

  A text that is put together from tokens and blanks is scanned into these
  tokens, each at the place where it was put (`scanFrom_render`).  Three things
  are asked of a layout:

    · a name is dotted segments, none of which starts with a digit
    · a comment is one line without blanks at its end, and its line ends there
    · no name stands directly before another

  A string may hold anything: it is written with escapes, in one line.
-/
import LazyFields.Source.Scan

namespace LazyFields.Source

open LazyFields.Text

/-! ## §1. How tokens are written. -/

/-- A letter or an underscore, and then letters, digits and underscores. -/
def isPlainSegment (cs : List Char) : Bool :=
  cs.head?.any (fun c => c.isAlpha || c = '_') && cs.all isNameChar

/-- The name is made of plain segments with dots between them. -/
def IsPlainName (name : String) : Prop := (segments '.' name.toList).all isPlainSegment = true

instance (name : String) : Decidable (IsPlainName name) := inferInstanceAs (Decidable (_ = true))

/-- The text is a comment: it starts with its slashes, has one line and no blank
at the end. -/
structure IsComment (text : String) : Prop where
  slashes : ['/', '/'] <+: text.toList
  line : '\n' ∉ text.toList
  last : text.toList.getLast?.any isSpace = false

instance (text : String) : Decidable (IsComment text) :=
  decidable_of_iff (['/', '/'] <+: text.toList ∧ '\n' ∉ text.toList
      ∧ text.toList.getLast?.any isSpace = false)
    ⟨fun h => ⟨h.1, h.2.1, h.2.2⟩, fun h => ⟨h.slashes, h.line, h.last⟩⟩

/-- A character within quotes. -/
def escapeChar (c : Char) : List Char :=
  if c = '"' then ['\\', '"']
  else if c = '\\' then ['\\', '\\']
  else if c = '\n' then ['\\', 'n']
  else if c = '\t' then ['\\', 't']
  else [c]

/-- The text of a token. -/
def TokenKind.source : TokenKind → List Char
  | string value => '"' :: (value.toList.flatMap escapeChar ++ ['"'])
  | identifier name => name.toList
  | comment text => text.toList
  | leftBrace => ['\x7b']
  | rightBrace => ['\x7d']
  | leftParen => ['(']
  | rightParen => [')']
  | leftBracket => ['[']
  | rightBracket => [']']
  | comma => [',']
  | question => ['?']
  | assign => ['=']
  | atSign => ['@']
  | eof => []

/-- What a text is put together from. -/
inductive Piece where
  | token (kind : TokenKind)
  | space
  | newline
  deriving DecidableEq

/-- The text of a piece. -/
def Piece.source : Piece → List Char
  | token kind => kind.source
  | space => [' ']
  | newline => ['\n']

/-- The text of some pieces. -/
def render (ps : List Piece) : List Char := ps.flatMap Piece.source

/-- The place after some pieces that start at `p`. -/
def Position.past (p : Position) (ps : List Piece) : Position := p.after (render ps)

/-- The tokens of some pieces that start at `p`. -/
def tokensAt (p : Position) : List Piece → List Token
  | [] => []
  | .token kind :: ps =>
      ⟨kind, String.ofList kind.source, p⟩ :: tokensAt (p.after kind.source) ps
  | .space :: ps => tokensAt (p.next ' ') ps
  | .newline :: ps => tokensAt (p.next '\n') ps

/-- A name comes next, without a blank before it. -/
def startsName : List Piece → Bool
  | .token (.identifier _) :: _ => true
  | _ => false

/-- The token can be written, and the given pieces after it. -/
def TokenKind.Fits : TokenKind → List Piece → Prop
  | identifier name, ps => IsPlainName name ∧ startsName ps = false
  | comment text, ps => IsComment text ∧ ps.head? = some .newline
  | eof, _ => False
  | _, _ => True

/-- No token runs into what stands after it. -/
def Separated : List Piece → Prop
  | [] => True
  | .token kind :: ps => kind.Fits ps ∧ Separated ps
  | _ :: ps => Separated ps

@[simp] theorem startsName_nil : startsName [] = false := rfl

@[simp] theorem startsName_space {ps : List Piece} : startsName (.space :: ps) = false := rfl

@[simp] theorem startsName_newline {ps : List Piece} : startsName (.newline :: ps) = false := rfl

@[simp] theorem startsName_token {kind : TokenKind} {ps : List Piece} :
    startsName (.token kind :: ps) = kind.isIdentifier := by
  cases kind <;> rfl

@[simp] theorem separated_nil : Separated [] := trivial

@[simp] theorem separated_space {ps : List Piece} : Separated (.space :: ps) ↔ Separated ps :=
  Iff.rfl

@[simp] theorem separated_newline {ps : List Piece} :
    Separated (.newline :: ps) ↔ Separated ps := Iff.rfl

@[simp] theorem separated_token {kind : TokenKind} {ps : List Piece} :
    Separated (.token kind :: ps) ↔ kind.Fits ps ∧ Separated ps := Iff.rfl

@[simp] theorem past_nil (p : Position) : p.past [] = p := rfl

@[simp] theorem past_cons (p : Position) (piece : Piece) (ps : List Piece) :
    p.past (piece :: ps) = (p.after piece.source).past ps := by
  rw [Position.past, render, List.flatMap_cons, Position.after_append]
  rfl

/-! ## §2. Reading one token. -/

/-- The text does not go on with a name. -/
def EndsName (rest : List Char) : Prop :=
  rest.head?.all (fun c => !isNameChar c && c != '.') = true

/-- Where a name ends, it has no tail. -/
theorem nameTail_of_endsName {rest : List Char} (h : EndsName rest) :
    nameTail rest = ([], rest) := by
  cases rest with
  | nil => rfl
  | cons c cs =>
    obtain ⟨hchar, hdot⟩ : isNameChar c = false ∧ c ≠ '.' := by simpa [EndsName] using h
    rw [nameTail.eq_def]
    split
    · next heq => simp at heq
    · next heq => exact absurd (List.cons.inj heq).1 hdot
    · next heq =>
      obtain ⟨rfl, rfl⟩ := List.cons.inj heq
      simp [hchar]

/-- The first segment starts with the first character. -/
theorem head?_of_segments {c d : Char} {cs ds : List Char} {ss : List (List Char)}
    (h : segments c cs = (d :: ds) :: ss) : cs.head? = some d := by
  cases cs with
  | nil => simp [segments] at h
  | cons x xs =>
    rw [segments] at h
    split at h
    · simp at h
    · split at h <;> (cases h; rfl)

/-- A plain segment starts a name and goes on with its characters. -/
theorem isPlainSegment_cons {d : Char} {ds : List Char} (h : isPlainSegment (d :: ds) = true) :
    isNameStart d = true ∧ (d :: ds).all isNameChar = true := by
  rw [isPlainSegment, Bool.and_eq_true, List.head?_cons, Option.any_some] at h
  refine ⟨?_, h.2⟩
  rw [isNameStart, h.1, Bool.true_or]

/-- A plain name has a first segment with a first character. -/
theorem exists_segments_of_plain {cs : List Char}
    (h : (segments '.' cs).all isPlainSegment = true) :
    ∃ d ds ss, segments '.' cs = (d :: ds) :: ss := by
  cases hsegments : segments '.' cs with
  | nil => exact absurd hsegments (segments_ne_nil '.' cs)
  | cons s ss =>
    cases s with
    | nil => simp [hsegments, isPlainSegment] at h
    | cons d ds => exact ⟨d, ds, ss, rfl⟩

/-- The scanner takes all segments of a plain name: the characters of the one that
is begun, and then the plain ones after it. -/
theorem nameTail_append_of_plain {rest : List Char} (hrest : EndsName rest) :
    ∀ {cs s : List Char} {ss : List (List Char)}, segments '.' cs = s :: ss →
      s.all isNameChar = true → ss.all isPlainSegment = true →
      nameTail (cs ++ rest) = (cs, rest) := by
  intro cs
  induction cs with
  | nil =>
    intro s ss _ _ _
    exact nameTail_of_endsName hrest
  | cons c cs ih =>
    intro s ss hsegments hs hss
    by_cases hc : c = '.'
    · -- a segment ends, and the next one starts as a name does
      subst hc
      rw [segments, if_pos rfl, List.cons.injEq] at hsegments
      obtain ⟨-, rfl⟩ := hsegments
      obtain ⟨d, ds, ss, hnext⟩ := exists_segments_of_plain hss
      rw [hnext, List.all_cons, Bool.and_eq_true] at hss
      obtain ⟨hstart, hchars⟩ := isPlainSegment_cons hss.1
      have hrec := ih hnext hchars hss.2
      obtain ⟨cs', rfl⟩ := List.head?_eq_some_iff.1 (head?_of_segments hnext)
      rw [List.cons_append, List.cons_append, nameTail, if_pos hstart]
      rw [List.cons_append] at hrec
      rw [hrec]
    · rw [segments, if_neg hc] at hsegments
      cases hnext : segments '.' cs with
      | nil => exact absurd hnext (segments_ne_nil '.' cs)
      | cons s' ss' =>
        rw [hnext] at hsegments
        obtain ⟨rfl, rfl⟩ := List.cons.inj hsegments
        rw [List.all_cons, Bool.and_eq_true] at hs
        have hrec := ih hnext hs.2 hss
        have hdot : ∀ (d : Char) (cs' : List Char), c = '.' → cs ++ rest = d :: cs' → False :=
          fun _ _ heq _ => hc heq
        rw [List.cons_append, nameTail.eq_3 _ _ hdot, if_pos hs.1, hrec]

/-- A string is read up to its closing quote, its escapes resolved. -/
theorem stringTail_escaped (value rest : List Char) :
    stringTail (value.flatMap escapeChar ++ '"' :: rest)
      = .ok (value, value.flatMap escapeChar ++ ['"'], rest) := by
  induction value with
  | nil => simp [stringTail]
  | cons c cs ih =>
    rw [List.flatMap_cons, List.append_assoc, List.append_assoc]
    by_cases hquote : c = '"'
    · subst hquote
      simp [escapeChar, stringTail, unescape?, ih]
    by_cases hslash : c = '\\'
    · subst hslash
      simp [escapeChar, stringTail, unescape?, ih]
    by_cases hline : c = '\n'
    · subst hline
      simp [escapeChar, stringTail, unescape?, ih]
    by_cases htab : c = '\t'
    · subst htab
      simp [escapeChar, stringTail, unescape?, ih]
    simp [escapeChar, hquote, hslash, hline, htab, stringTail, ih]

/-- What starts a name starts nothing else. -/
theorem isNameStart_cases {c : Char} (h : isNameStart c = true) :
    punctuation? c = none ∧ c ≠ '/' ∧ c ≠ '"' ∧ c ≠ '.' ∧ isGap c = false := by
  have hne : ∀ d, isNameStart d = false → c ≠ d := by
    intro d hd heq
    rw [heq, hd] at h
    cases h
  refine ⟨?_, hne _ (by decide), hne _ (by decide), hne _ (by decide), ?_⟩
  · unfold punctuation?
    split <;> first | rfl | exact absurd rfl (hne _ (by decide))
  · simp [isGap, hne ' ' (by decide), hne '\t' (by decide), hne '\r' (by decide),
      hne '\n' (by decide)]

/-- A plain name is scanned as one token, if what follows ends it. -/
theorem lexeme_name {name : String} (h : IsPlainName name) {rest : List Char}
    (hrest : EndsName rest) : ∃ c cs, name.toList = c :: cs ∧ isGap c = false
      ∧ lexeme c (cs ++ rest) = .ok ⟨.identifier name, c :: cs, rest⟩ := by
  unfold IsPlainName at h
  obtain ⟨c, s, ss, hsegments⟩ := exists_segments_of_plain h
  rw [hsegments, List.all_cons, Bool.and_eq_true] at h
  obtain ⟨hstart, hchars⟩ := isPlainSegment_cons h.1
  obtain ⟨hpunct, hslash, hquote, hdot, hgap⟩ := isNameStart_cases hstart
  obtain ⟨cs, hname⟩ := List.head?_eq_some_iff.1 (head?_of_segments hsegments)
  refine ⟨c, cs, hname, hgap, ?_⟩
  -- the rest of the first segment, and the segments after it
  have htail : segments '.' cs = s :: ss := by
    rw [hname, segments, if_neg hdot] at hsegments
    split at hsegments
    · next hnil => exact absurd hnil (segments_ne_nil '.' cs)
    · next heq =>
      cases hsegments
      exact heq
  rw [List.all_cons, Bool.and_eq_true] at hchars
  have hread := nameTail_append_of_plain hrest htail hchars.2 h.2
  unfold lexeme
  rw [hpunct]
  dsimp only
  rw [if_neg hslash, if_neg hquote, if_pos hstart, hread, ← hname, String.ofList_toList]

/-- Without such characters at the end nothing is trimmed. -/
theorem trimEnd_of_getLast? {p : Char → Bool} {s : List Char} (h : s.getLast?.any p = false) :
    trimEnd p s = s := by
  unfold trimEnd
  rw [List.getLast?_eq_head?_reverse] at h
  cases hrev : s.reverse with
  | nil => simpa using hrev.symm
  | cons c cs =>
    rw [hrev, List.head?_cons, Option.any_some] at h
    rw [List.dropWhile_cons_of_neg (by simp [h]), ← hrev, List.reverse_reverse]

/-- A comment ends where its line ends. -/
theorem lexeme_comment {text : String} (h : IsComment text) (rest : List Char) :
    ∃ cs, text.toList = '/' :: cs
      ∧ lexeme '/' (cs ++ '\n' :: rest) = .ok ⟨.comment text, '/' :: cs, '\n' :: rest⟩ := by
  obtain ⟨cs, hcs⟩ := h.slashes
  have htext : text.toList = '/' :: '/' :: cs := hcs.symm
  have hline : ∀ c ∈ cs, (c != '\n') = true := by
    intro c hc
    have hmem : c ∈ text.toList := by simp [htext, hc]
    have hne : c ≠ '\n' := fun heq => h.line (heq ▸ hmem)
    simpa using hne
  have htake : (cs ++ '\n' :: rest).takeWhile (· != '\n') = cs := by
    rw [List.takeWhile_append_of_pos hline]
    simp
  have hdrop : (cs ++ '\n' :: rest).dropWhile (· != '\n') = '\n' :: rest := by
    rw [List.dropWhile_append_of_pos hline]
    simp
  have htrim : trimEnd isSpace ('/' :: '/' :: cs) = text.toList := by
    rw [← htext]
    exact trimEnd_of_getLast? h.last
  refine ⟨'/' :: cs, htext, ?_⟩
  show Except.ok (commentLexeme (cs ++ '\n' :: rest)) = _
  simp only [commentLexeme, htake, hdrop, htrim, String.ofList_toList]

/-- **A token that fits is read where it stands,** and no more than it. -/
theorem lexeme_source {kind : TokenKind} {ps : List Piece} {rest : List Char} (h : kind.Fits ps)
    (hps : startsName ps = false → EndsName (render ps ++ rest)) :
    ∃ c cs, kind.source = c :: cs ∧ isGap c = false
      ∧ lexeme c (cs ++ (render ps ++ rest)) = .ok ⟨kind, c :: cs, render ps ++ rest⟩ := by
  cases kind with
  | string value =>
    refine ⟨'"', value.toList.flatMap escapeChar ++ ['"'], rfl, rfl, ?_⟩
    have hread := stringTail_escaped value.toList (render ps ++ rest)
    simp [lexeme, punctuation?, hread]
  | identifier name => exact lexeme_name h.1 (hps h.2)
  | comment text =>
    obtain ⟨hcomment, hnext⟩ := h
    obtain ⟨qs, rfl⟩ := List.head?_eq_some_iff.1 hnext
    obtain ⟨cs, htext, hread⟩ := lexeme_comment hcomment (render qs ++ rest)
    exact ⟨'/', cs, htext, rfl, hread⟩
  | eof => exact absurd h id
  | _ => exact ⟨_, [], rfl, rfl, rfl⟩

/-! ## §3. Reading all tokens. -/

/-- What is laid out goes on with a name only if a name comes next. -/
theorem endsName_render {ps : List Piece} {rest : List Char} (hrest : EndsName rest)
    (h : Separated ps) (hname : startsName ps = false) : EndsName (render ps ++ rest) := by
  cases ps with
  | nil => exact hrest
  | cons piece ps =>
    cases piece with
    | space => rfl
    | newline => rfl
    | token kind =>
      cases kind with
      | identifier name => simp [startsName] at hname
      | comment text =>
        obtain ⟨cs, hcs⟩ := h.1.1.slashes
        show EndsName ((text.toList ++ render ps) ++ rest)
        rw [← hcs]
        rfl
      | eof => exact absurd h.1 id
      | _ => rfl

/-- A blank is skipped. -/
theorem scanFrom_gap {file : String} {p : Position} {c : Char} (hc : isGap c = true)
    (cs : List Char) : scanFrom file p (c :: cs) = scanFrom file (p.next c) cs := by
  rw [scanFrom, if_pos hc]

/-- A token is kept, and the rest is scanned. -/
theorem scanFrom_lexeme {file : String} {p : Position} {c : Char} {cs : List Char} {l : Lexeme}
    (hc : isGap c = false) (hl : lexeme c cs = .ok l) {ts : List Token}
    (hrest : scanFrom file (p.after l.text) l.rest = .ok ts) :
    scanFrom file p (c :: cs) = .ok (⟨l.kind, String.ofList l.text, p⟩ :: ts) := by
  rw [scanFrom, if_neg (by simp [hc])]
  split
  · next heq => simp [hl] at heq
  · next heq =>
    rw [hl] at heq
    cases heq
    rw [hrest]

/-- What is laid out is scanned into its tokens, whatever comes after it but the rest of
a name. -/
theorem scanFrom_render_append {file : String} {rest : List Char} {ts : List Token}
    (hrest : EndsName rest) : ∀ {ps : List Piece} {p : Position}, Separated ps →
    scanFrom file (p.past ps) rest = .ok ts →
    scanFrom file p (render ps ++ rest) = .ok (tokensAt p ps ++ ts) := by
  intro ps
  induction ps with
  | nil =>
    intro p _ hscan
    exact hscan
  | cons piece ps ih =>
    intro p h hscan
    cases piece with
    | space => exact (scanFrom_gap rfl (render ps ++ rest)).trans (ih h hscan)
    | newline => exact (scanFrom_gap rfl (render ps ++ rest)).trans (ih h hscan)
    | token kind =>
      obtain ⟨hfits, hps⟩ := h
      obtain ⟨c, cs, hsource, hgap, hread⟩ := lexeme_source hfits (endsName_render hrest hps)
      have hrender : render (.token kind :: ps) = c :: (cs ++ render ps) := by
        rw [render, List.flatMap_cons, Piece.source, hsource]
        rfl
      rw [past_cons, Piece.source, hsource] at hscan
      rw [tokensAt, hrender, hsource, List.cons_append, List.append_assoc]
      exact scanFrom_lexeme hgap hread (ih hps hscan)

/-- **What is laid out is scanned into its tokens,** and an end mark. -/
theorem scanFrom_render {file : String} {ps : List Piece} {p : Position} (h : Separated ps) :
    scanFrom file p (render ps) = .ok (tokensAt p ps ++ [⟨.eof, "", p.past ps⟩]) := by
  have hscan := @scanFrom_render_append file [] _ rfl ps p h (scanFrom.eq_1 file (p.past ps))
  rwa [List.append_nil] at hscan

/-! ## §4. Places. -/

/-- The tokens of two layouts, the second one placed behind the first. -/
theorem tokensAt_append (p : Position) (ps qs : List Piece) :
    tokensAt p (ps ++ qs) = tokensAt p ps ++ tokensAt (p.past ps) qs := by
  induction ps generalizing p with
  | nil => rfl
  | cons piece ps ih =>
    rw [past_cons, List.cons_append]
    cases piece with
    | token kind => exact congrArg (_ :: ·) (ih _)
    | space => exact ih _
    | newline => exact ih _

/-- No place stands above an earlier one. -/
theorem line_le_after (p : Position) (cs : List Char) : p.line ≤ (p.after cs).line := by
  induction cs generalizing p with
  | nil => exact Nat.le_refl p.line
  | cons c cs ih =>
    have hnext : p.line ≤ (p.next c).line := by
      unfold Position.next
      split
      · exact Nat.le_succ p.line
      · exact Nat.le_refl p.line
    exact Nat.le_trans hnext (ih (p.next c))

/-- Without a line feed the line stays. -/
theorem line_after {cs : List Char} (h : '\n' ∉ cs) (p : Position) :
    (p.after cs).line = p.line := by
  induction cs generalizing p with
  | nil => rfl
  | cons c cs ih =>
    rw [List.mem_cons, not_or] at h
    rw [Position.after_cons, ih h.2, Position.next, if_neg (Ne.symm h.1)]

/-- A plain name stands in one line. -/
theorem newline_not_mem_of_plain {name : String} (h : IsPlainName name) :
    '\n' ∉ name.toList := by
  intro hmem
  rw [← joinWith_segments '.' name.toList] at hmem
  rcases mem_joinWith hmem with hdot | ⟨s, hs, hmem⟩
  · exact absurd hdot (by decide)
  · have hplain := List.all_eq_true.1 h s hs
    rw [isPlainSegment, Bool.and_eq_true] at hplain
    exact absurd (List.all_eq_true.1 hplain.2 _ hmem) (by decide)

end LazyFields.Source
