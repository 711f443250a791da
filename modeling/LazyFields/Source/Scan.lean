/-
  LazyFields.Source.Scan
  ────────────────────────────────
  **FROM TEXT TO TOKENS.**

  `lexeme` reads the one token that starts at a character which is not a
  blank.  It answers with the text it consumed and the text that is left, and
  nothing is lost between the two (`lexeme_split`), so scanning a whole file
  ends and a token's place is the place after everything before it.

  A name may be dotted, and a dot belongs to the name when the start of a
  segment follows it.  The two classes differ in one character: `$` starts a
  segment but does not continue one, so `a.$b` is the name `a.` followed by
  the name `$b`.
-/
import LazyFields.Error
import LazyFields.Source.Token
import LazyFields.Text.Blank
import LazyFields.Text.Cut

namespace LazyFields.Source

open LazyFields.Text

/-! ## §1. Characters of names. -/

/-- A letter, underscore or dollar sign: what a name's segment starts with. -/
def isNameStart (c : Char) : Bool := c.isAlpha || c = '_' || c = '$'

/-- A letter, digit or underscore: what continues a segment. -/
def isNameChar (c : Char) : Bool := c.isAlphanum || c = '_'

/-! ## §2. One token. -/

/-- What was read: the kind of token, the text consumed and the text left. -/
structure Lexeme where
  kind : TokenKind
  text : List Char
  rest : List Char

/-- The longest continuation of a name. -/
def nameTail : List Char → List Char × List Char
  | [] => ([], [])
  | '.' :: d :: cs =>
      if isNameStart d then
        let (tail, rest) := nameTail (d :: cs)
        ('.' :: tail, rest)
      else ([], '.' :: d :: cs)
  | c :: cs =>
      if isNameChar c then
        let (tail, rest) := nameTail cs
        (c :: tail, rest)
      else ([], c :: cs)

/-- The character that an escape stands for. -/
def unescape? : Char → Option Char
  | 'n' => some '\n'
  | 't' => some '\t'
  | '\\' => some '\\'
  | '"' => some '"'
  | _ => none

/-- The rest of a string literal after its opening quote: the value, the text
up to and with the closing quote, and what follows. -/
def stringTail : List Char → Except String (List Char × List Char × List Char)
  | [] => .error "Unterminated string"
  | ['\\'] => .error "Unterminated string"
  | '\\' :: e :: cs =>
      match unescape? e with
      | none => .error ("Invalid escape sequence \\" ++ e.toString)
      | some v =>
        match stringTail cs with
        | .error m => .error m
        | .ok (value, text, rest) => .ok (v :: value, '\\' :: e :: text, rest)
  | c :: cs =>
      if c = '"' then .ok ([], [c], cs)
      else if c = '\n' then .error "Unterminated string"
      else match stringTail cs with
        | .error m => .error m
        | .ok (value, text, rest) => .ok (c :: value, c :: text, rest)

/-- The token that is a single character. -/
def punctuation? : Char → Option TokenKind
  | '\x7b' => some .leftBrace
  | '\x7d' => some .rightBrace
  | '(' => some .leftParen
  | ')' => some .rightParen
  | '[' => some .leftBracket
  | ']' => some .rightBracket
  | ',' => some .comma
  | '?' => some .question
  | '=' => some .assign
  | '@' => some .atSign
  | _ => none

/-- A comment runs to the end of its line; `cs` stands after its slashes. -/
def commentLexeme (cs : List Char) : Lexeme :=
  let text := '/' :: '/' :: cs.takeWhile (· != '\n')
  ⟨.comment (String.ofList (trimEnd isSpace text)), text, cs.dropWhile (· != '\n')⟩

/-- Read the token that starts with `c`, or say why there is none. -/
def lexeme (c : Char) (cs : List Char) : Except String Lexeme :=
  match punctuation? c with
  | some kind => .ok ⟨kind, [c], cs⟩
  | none =>
    if c = '/' then
      match cs with
      | '/' :: ds => .ok (commentLexeme ds)
      | _ => .error "Unexpected character '/', comments start with `//`"
    else if c = '"' then
      match stringTail cs with
      | .error m => .error m
      | .ok (value, text, rest) => .ok ⟨.string (String.ofList value), c :: text, rest⟩
    else if isNameStart c then
      let (tail, rest) := nameTail cs
      .ok ⟨.identifier (String.ofList (c :: tail)), c :: tail, rest⟩
    else .error ("Unexpected character '" ++ c.toString ++ "'")

/-- A character of a name is no dot. -/
theorem isNameChar_ne_dot {c : Char} (h : isNameChar c = true) : c ≠ '.' := by
  intro heq
  subst heq
  revert h
  decide

/-- The tail of a name goes on over its characters. -/
theorem nameTail_of_char {c : Char} (hc : isNameChar c = true) (cs : List Char) :
    nameTail (c :: cs) = (c :: (nameTail cs).1, (nameTail cs).2) := by
  rw [nameTail.eq_3 _ _ fun _ _ heq _ => isNameChar_ne_dot hc heq, if_pos hc]

/-- The rest of a name has letters, digits, underscores and dots. -/
theorem isNameChar_of_mem_nameTail (cs : List Char) :
    ∀ d ∈ (nameTail cs).1, isNameChar d = true ∨ d = '.' := by
  fun_induction nameTail cs with
  | case1 => simp
  | case2 d cs hd tail rest heq ih =>
    rw [heq] at ih
    simpa using ih
  | case3 => simp
  | case4 c cs _ hc tail rest heq ih =>
    rw [heq] at ih
    simpa [hc] using ih
  | case5 => simp

/-- Letters, digits and underscores are all taken. -/
theorem nameTail_of_isNameChar {cs : List Char} (h : ∀ c ∈ cs, isNameChar c = true) :
    (nameTail cs).1 = cs := by
  induction cs with
  | nil => rfl
  | cons c cs ih =>
    have hrest := ih fun d hd => h d (List.mem_cons_of_mem c hd)
    rw [nameTail_of_char (h c List.mem_cons_self), hrest]

/-- A character of a string that starts no escape. -/
theorem stringTail_char {c : Char} (h : c ≠ '\\') (cs : List Char) : stringTail (c :: cs) =
    if c = '"' then .ok ([], [c], cs)
    else if c = '\n' then .error "Unterminated string"
    else match stringTail cs with
      | .error m => .error m
      | .ok (value, text, rest) => .ok (c :: value, c :: text, rest) :=
  stringTail.eq_4 _ _ (fun heq _ => h heq) fun _ _ heq _ => h heq

/-- The tail of a name and what follows it are the text. -/
theorem nameTail_append (cs : List Char) : (nameTail cs).1 ++ (nameTail cs).2 = cs := by
  fun_induction nameTail cs <;> simp_all

/-- The body of a string and what follows it are the text. -/
theorem stringTail_append {cs value text rest : List Char}
    (h : stringTail cs = .ok (value, text, rest)) : text ++ rest = cs := by
  fun_induction stringTail cs generalizing value text rest <;> simp_all
  all_goals grind

/-- How a token is read, by its first character. -/
inductive Reads (c : Char) (cs : List Char) : Lexeme → Prop
  | punctuation {kind : TokenKind} : punctuation? c = some kind → Reads c cs ⟨kind, [c], cs⟩
  | comment {ds : List Char} : c = '/' → cs = '/' :: ds → Reads c cs (commentLexeme ds)
  | string {value text rest : List Char} : c = '"' → stringTail cs = .ok (value, text, rest) →
      Reads c cs ⟨.string (String.ofList value), c :: text, rest⟩
  | name : isNameStart c = true →
      Reads c cs ⟨.identifier (String.ofList (c :: (nameTail cs).1)), c :: (nameTail cs).1,
        (nameTail cs).2⟩

/-- What a lexeme reads, case by case. -/
theorem reads_of_lexeme {c : Char} {cs : List Char} {l : Lexeme} (h : lexeme c cs = .ok l) :
    Reads c cs l := by
  unfold lexeme at h
  split at h
  · next kind hkind =>
    cases h
    exact .punctuation hkind
  · split at h
    · next hslash =>
      split at h
      · cases h
        exact .comment hslash rfl
      · cases h
    · split at h
      · next hquote =>
        split at h
        · cases h
        · next htail =>
          cases h
          exact .string hquote htail
      · split at h
        · next hstart =>
          cases h
          exact .name hstart
        · cases h

/-- A token of one character carries no text and is no end mark. -/
theorem kind_punctuation {c : Char} {kind : TokenKind} (h : punctuation? c = some kind) :
    kind.payload? = none ∧ kind ≠ .eof := by
  unfold punctuation? at h
  split at h <;> cases h <;> exact ⟨rfl, TokenKind.noConfusion⟩

/-- An identifier begins as a name does, and goes on with the tail of one. -/
theorem name_of_lexeme {c : Char} {cs : List Char} {l : Lexeme} (h : lexeme c cs = .ok l)
    {name : String} (hname : l.kind = .identifier name) :
    isNameStart c = true ∧ l = ⟨.identifier (String.ofList (c :: (nameTail cs).1)),
      c :: (nameTail cs).1, (nameTail cs).2⟩ := by
  cases reads_of_lexeme h with
  | punctuation hkind =>
    obtain rfl : _ = TokenKind.identifier name := hname
    cases (kind_punctuation hkind).1
  | comment => cases hname
  | string => cases hname
  | name hstart => exact ⟨hstart, rfl⟩

/-- A string literal is a quote and the tail behind it. -/
theorem string_of_lexeme {c : Char} {cs : List Char} {l : Lexeme} (h : lexeme c cs = .ok l)
    {value : String} (hvalue : l.kind = .string value) :
    c = '"' ∧ ∃ text, stringTail cs = .ok (value.toList, text, l.rest) ∧ l.text = '"' :: text := by
  cases reads_of_lexeme h with
  | punctuation hkind =>
    obtain rfl : _ = TokenKind.string value := hvalue
    cases (kind_punctuation hkind).1
  | comment => cases hvalue
  | string hquote htail =>
    cases hvalue
    subst hquote
    exact ⟨rfl, _, by rw [htail, String.toList_ofList], rfl⟩
  | name => cases hvalue

/-- **A token's text and what is left make up what was there.** -/
theorem lexeme_split {c : Char} {cs : List Char} {l : Lexeme} (h : lexeme c cs = .ok l) :
    l.text ++ l.rest = c :: cs ∧ l.text ≠ [] := by
  cases reads_of_lexeme h with
  | punctuation => simp
  | comment hslash hcs => simp [commentLexeme, hslash, hcs]
  | string _ htail => simp [stringTail_append htail]
  | name => simp [nameTail_append]

/-- A lexeme takes up a character at least. -/
theorem lexeme_rest_lt {c : Char} {cs : List Char} {l : Lexeme} (h : lexeme c cs = .ok l) :
    l.rest.length < (c :: cs).length := by
  obtain ⟨happ, hne⟩ := lexeme_split h
  rw [← happ, List.length_append]
  have := List.length_pos_iff.2 hne
  omega

/-! ## §3. All tokens of a text. -/

/-- The tokens of a text that starts at `p`, ended by one end mark that
stands after the last character. -/
def scanFrom (file : String) (p : Position) : List Char → Except Error (List Token)
  | [] => .ok [⟨.eof, "", p⟩]
  | c :: cs =>
      if isGap c then scanFrom file (p.next c) cs
      else match _h : lexeme c cs with
        | .error m => .error (.syntaxError file p.line p.column m)
        | .ok l =>
          match scanFrom file (p.after l.text) l.rest with
          | .error e => .error e
          | .ok ts => .ok (⟨l.kind, String.ofList l.text, p⟩ :: ts)
termination_by cs => cs.length
decreasing_by
  · simp
  · exact lexeme_rest_lt _h

/-- The tokens of a source text; errors name `file`. -/
def Token.scan (source : String) (file : String) : Except Error (List Token) :=
  scanFrom file .start source.toList

end LazyFields.Source
