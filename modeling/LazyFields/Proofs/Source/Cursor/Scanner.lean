/-
  LazyFields.Proofs.Source.Cursor.Scanner
  ────────────────────────────────
  **SCANNING WITH A CURSOR.**

  The scanner over the whole text: it looks at characters by their number, keeps
  the place of the cursor by counting, and cuts a token's text out of the text
  between two numbers.  It does so without a fault and answers what the scanner
  of the text's head answers (`scan_eq`).  Each loop has one lemma that says
  where it stops, in terms of the list that stands after the cursor.
-/
import LazyFields.Proofs.Source.Cursor.Reader
import LazyFields.Proofs.Source.Lines
import LazyFields.Proofs.Source.Lossless

namespace LazyFields.Source.Scanner

open LazyFields.Text
open Cursor

/-! ## §1. The scanner. -/

/-- Where the cursor stands: the number of its character, and its place. -/
structure Head where
  current : Nat
  pos : Position

/-- The head after some more characters of its line. -/
def Head.past (s : Head) (n : Nat) : Head := ⟨s.current + n, ⟨s.pos.line, s.pos.column + n⟩⟩

section Scanner

variable (source : List Char) (file : String)

/-- Whether no character is left. -/
def atEnd : Reader Head Bool := fun s => .ok (source.length ≤ s.current, s)

/-- The character with the given number. -/
def charAt (i : Nat) : Reader Head Char :=
  match source[i]? with
  | some c => pure c
  | none => fail .outside

/-- The next character; NUL at the end. -/
def peek : Reader Head Char := do
  if ← atEnd source then return '\x00'
  else charAt source (← get).current

/-- The character after the next one; NUL at the end. -/
def peekNext : Reader Head Char := do
  if source.length ≤ (← get).current + 1 then return '\x00'
  else charAt source ((← get).current + 1)

/-- Go past the next character. -/
def advance : Reader Head Char := do
  let c ← charAt source (← get).current
  modify fun s => s.past 1
  return c

/-- Go past the next character if it is the given one. -/
def matchChar (expected : Char) : Reader Head Bool := do
  if ← atEnd source then return false
  else if (← charAt source (← get).current) = expected then
    modify fun s => s.past 1
    return true
  else return false

/-- The text from the given number up to the cursor. -/
def slice (start : Nat) : Reader Head (List Char) := do
  let s ← get
  if start ≤ s.current ∧ s.current ≤ source.length then
    return (source.drop start).take (s.current - start)
  else fail .outside

/-- Read with the body, over and over. -/
def loop {α : Type} (body : Reader Head α → Reader Head α) : Reader Head α :=
  again Head.current source.length body

/-- The token of the given kind that started there. -/
def finish (start : Head) (kind : TokenKind) : Reader Head Token := do
  return ⟨kind, String.ofList (← slice source start.current), start.pos⟩

/-- Refuse the token that started there. -/
def refuseToken {α : Type} (start : Head) (message : String) : Reader Head α :=
  refuse (.syntaxError file start.pos.line start.pos.column message)

/-- One character of a comment. -/
def commentBody (again : Reader Head Unit) : Reader Head Unit := do
  if ← atEnd source then return ()
  else if (← peek source) = '\n' then return ()
  else
    let _ ← advance source
    again

/-- Read a comment; its slashes are read already. -/
def comment (start : Head) : Reader Head Token := do
  loop source (commentBody source)
  let text ← slice source start.current
  finish source start (.comment (String.ofList (trimEnd isSpace text)))

/-- Read the closing quote. -/
def closeString (start : Head) : Reader Head (List Char) := do
  if ← atEnd source then refuseToken file start "Unterminated string"
  else
    let _ ← advance source
    return []

/-- One character of a string's value, or its closing quote. -/
def stringBody (start : Head) (again : Reader Head (List Char)) : Reader Head (List Char) := do
  if ← atEnd source then closeString source file start
  else
    let next ← peek source
    if next = '"' then closeString source file start
    else if next = '\\' then
      let _ ← advance source
      if ← atEnd source then closeString source file start
      else
        let escaped ← advance source
        match unescape? escaped with
        | some c => return c :: (← again)
        | none => refuseToken file start ("Invalid escape sequence \\" ++ escaped.toString)
    else if next = '\n' then refuseToken file start "Unterminated string"
    else
      let c ← advance source
      return c :: (← again)

/-- Read a string; its opening quote is read already. -/
def string (start : Head) : Reader Head Token := do
  let value ← loop source (stringBody source file start)
  finish source start (.string (String.ofList value))

/-- One character of a segment. -/
def segmentBody (again : Reader Head Unit) : Reader Head Unit := do
  if isNameChar (← peek source) then
    let _ ← advance source
    again
  else return ()

/-- One segment of a name, and the dot after it. -/
def nameBody (again : Reader Head Unit) : Reader Head Unit := do
  loop source (segmentBody source)
  if (← peek source) = '.' then
    if isNameStart (← peekNext source) then
      let _ ← advance source
      again
    else return ()
  else return ()

/-- Read a name; its first character is read already. -/
def identifier (start : Head) : Reader Head Token := do
  loop source (nameBody source)
  let text ← slice source start.current
  finish source start (.identifier (String.ofList text))

/-- Read a token, or go past a blank. -/
def token (start : Head) : Reader Head (Option Token) := do
  let c ← advance source
  if c = ' ' ∨ c = '\r' ∨ c = '\t' then return none
  else if c = '\n' then
    modify fun s => ⟨s.current, ⟨s.pos.line + 1, 1⟩⟩
    return none
  else if c = '/' then
    if ← matchChar source '/' then return some (← comment source start)
    else refuseToken file start "Unexpected character '/', comments start with `//`"
  else
    match punctuation? c with
    | some kind => return some (← finish source start kind)
    | none =>
      if c = '"' then return some (← string source file start)
      else if isNameStart c then return some (← identifier source start)
      else refuseToken file start ("Unexpected character '" ++ c.toString ++ "'")

/-- One token, or the end of the text. -/
def tokensBody (again : Reader Head (List Token)) : Reader Head (List Token) := do
  if ← atEnd source then return [⟨.eof, "", (← get).pos⟩]
  else
    match ← token source file (← get) with
    | some t => return t :: (← again)
    | none => again

/-- Read all tokens. -/
def tokens : Reader Head (List Token) := loop source (tokensBody source file)

end Scanner

/-! ## §2. Looking at one character. -/

section Steps

variable {source : List Char} {file : String} {s : Head} {c : Char} {cs : List Char}

@[simp] theorem Head.past_past (s : Head) (m n : Nat) : (s.past m).past n = s.past (m + n) := by
  simp [Head.past, Nat.add_assoc]

/-- What is left after some more characters. -/
theorem drop_past (h : source.drop s.current = cs) (n : Nat) :
    source.drop (s.past n).current = cs.drop n := by
  rw [← h, List.drop_drop]
  rfl

/-- A step over characters that are there stays within the source. -/
theorem past_le (h : source.drop s.current = cs) {n : Nat} (hn : n ≤ cs.length) (hpos : 0 < n) :
    s.current + n ≤ source.length := by
  rw [← h, List.length_drop] at hn
  omega

/-- The character at an index that is within bounds is found. -/
theorem charAt_of_drop {i : Nat} (h : source.drop i = c :: cs) :
    charAt source i s = .ok (c, s) := by
  have hc : source[i]? = some c := by
    rw [← Nat.add_zero i, ← List.getElem?_drop, h]
    rfl
  unfold charAt
  rw [hc]
  rfl

/-- Without characters left the end is reached. -/
theorem atEnd_of_nil (h : source.drop s.current = []) : atEnd source s = .ok (true, s) := by
  unfold atEnd
  rw [decide_eq_true (List.drop_eq_nil_iff.1 h)]

theorem lt_of_cons {i : Nat} (h : source.drop i = c :: cs) : i < source.length := by
  by_contra hle
  rw [List.drop_eq_nil_of_le (by omega)] at h
  cases h

/-- With a character left it is not. -/
theorem atEnd_of_cons (h : source.drop s.current = c :: cs) : atEnd source s = .ok (false, s) := by
  unfold atEnd
  rw [decide_eq_false (Nat.not_le.2 (lt_of_cons h))]

/-- At the end, a look ahead gives the null character. -/
theorem peek_of_nil (h : source.drop s.current = []) : peek source s = .ok ('\x00', s) := by
  unfold peek
  simp only [bind_of_ok (atEnd_of_nil h), if_true]
  rfl

/-- Before the end, a look ahead gives the next character. -/
theorem peek_of_cons (h : source.drop s.current = c :: cs) : peek source s = .ok (c, s) := by
  unfold peek
  simp only [bind_of_ok (atEnd_of_cons h), Bool.false_eq_true, if_false]
  exact charAt_of_drop h

/-- A look two characters ahead gives the second one, or the null character. -/
theorem peekNext_of_cons (h : source.drop s.current = c :: cs) :
    peekNext source s = .ok (cs.headD '\x00', s) := by
  have hcs : source.drop (s.current + 1) = cs := drop_past h 1
  unfold peekNext
  rw [bind_get]
  cases cs with
  | nil =>
    rw [if_pos (List.drop_eq_nil_iff.1 hcs)]
    rfl
  | cons d ds =>
    rw [if_neg (Nat.not_le.2 (lt_of_cons hcs)), bind_get]
    exact charAt_of_drop hcs

/-- The next character is passed. -/
theorem advance_of_cons (h : source.drop s.current = c :: cs) :
    advance source s = .ok (c, s.past 1) := by
  unfold advance
  rw [bind_get, bind_of_ok (charAt_of_drop h), bind_modify]
  rfl

/-- A character is passed if it is the expected one. -/
theorem matchChar_of_cons (h : source.drop s.current = c :: cs) (expected : Char) :
    matchChar source expected s
      = .ok (c = expected, if c = expected then s.past 1 else s) := by
  unfold matchChar
  simp only [bind_of_ok (atEnd_of_cons h), Bool.false_eq_true, if_false, bind_get,
    bind_of_ok (charAt_of_drop h)]
  by_cases hc : c = expected
  · rw [if_pos hc, if_pos hc, bind_modify, decide_eq_true hc]
    rfl
  · rw [if_neg hc, if_neg hc, decide_eq_false hc]
    rfl

theorem matchChar_of_nil (h : source.drop s.current = []) (expected : Char) :
    matchChar source expected s = .ok (false, s) := by
  unfold matchChar
  simp only [bind_of_ok (atEnd_of_nil h), if_true]
  rfl

/-- What was passed is cut out of the source. -/
theorem slice_text {text rest : List Char} (h : source.drop s.current = text ++ rest)
    (hne : text ≠ []) :
    slice source s.current (s.past text.length) = .ok (text, s.past text.length) := by
  have hle : s.current + text.length ≤ source.length :=
    past_le h (by simp) (List.length_pos_iff.2 hne)
  have hlength : (s.past text.length).current - s.current = text.length :=
    Nat.add_sub_cancel_left _ _
  rw [slice, bind_get, if_pos ⟨Nat.le_add_right _ _, hle⟩, hlength, h, List.take_left]
  rfl

/-- A token is finished with what was passed as its text. -/
theorem finish_text {kind : TokenKind} {text rest : List Char}
    (h : source.drop s.current = text ++ rest) (hne : text ≠ []) :
    finish source s kind (s.past text.length)
      = .ok (⟨kind, String.ofList text, s.pos⟩, s.past text.length) :=
  bind_of_ok (slice_text h hne) _

/-! ## §3. Where the loops stop. -/

variable {α : Type} {body : Reader Head α → Reader Head α}

/-- A loop that moved on within the text does start over. -/
theorem restart_at (h : source.drop s.current = cs) {n : Nat} (hn : n ≤ cs.length)
    (hpos : 0 < n) (p : Position) :
    startOver Head.current source.length body s ⟨s.current + n, p⟩
      = loop source body ⟨s.current + n, p⟩ :=
  startOver_of_lt (Nat.lt_add_of_pos_right hpos) (past_le h hn hpos)

/-- Starting over after a step forward is allowed. -/
theorem restart_past (h : source.drop s.current = cs) {n : Nat} (hn : n ≤ cs.length)
    (hpos : 0 < n) :
    startOver Head.current source.length body s (s.past n) = loop source body (s.past n) :=
  restart_at h hn hpos _

theorem loop_eq : loop source body s
    = body (startOver Head.current source.length body s) s := again_eq _ _ _ _

/-- The loop over a comment stops at the line feed. -/
theorem comment_loop (h : source.drop s.current = cs) :
    loop source (commentBody source) s = .ok ((), s.past (cs.takeWhile (· != '\n')).length) := by
  induction cs generalizing s with
  | nil =>
    rw [loop_eq, commentBody, bind_of_ok (atEnd_of_nil h)]
    rfl
  | cons c cs ih =>
    rw [loop_eq, commentBody, bind_of_ok (atEnd_of_cons h), if_neg Bool.false_ne_true,
      bind_of_ok (peek_of_cons h)]
    by_cases hc : c = '\n'
    · rw [if_pos hc, List.takeWhile_cons_of_neg (by simp [hc])]
      rfl
    · rw [if_neg hc, bind_of_ok (advance_of_cons h), restart_past h (by simp) Nat.one_pos,
        List.takeWhile_cons_of_pos (by simpa using hc), List.length_cons, Nat.add_comm,
        ← Head.past_past]
      exact ih (drop_past h 1)

/-- A string that is not closed is refused where it starts. -/
theorem closeString_of_nil (start : Head) (h : source.drop s.current = []) :
    closeString source file start s
      = .error (.refused (.syntaxError file start.pos.line start.pos.column
          "Unterminated string")) := by
  rw [closeString, bind_of_ok (atEnd_of_nil h)]
  rfl

/-- The closing quote is passed. -/
theorem closeString_of_cons (start : Head) (h : source.drop s.current = c :: cs) :
    closeString source file start s = .ok ([], s.past 1) := by
  rw [closeString, bind_of_ok (atEnd_of_cons h), if_neg Bool.false_ne_true,
    bind_of_ok (advance_of_cons h)]
  rfl

section StringBody

variable {start : Head} {again : Reader Head (List Char)}

/-- A string that ends with the source is refused where it starts. -/
theorem stringBody_of_nil (h : source.drop s.current = []) :
    stringBody source file start again s
      = .error (.refused (.syntaxError file start.pos.line start.pos.column
          "Unterminated string")) := by
  rw [stringBody, bind_of_ok (atEnd_of_nil h)]
  exact closeString_of_nil start h

/-- A quote closes the string. -/
theorem stringBody_of_quote (h : source.drop s.current = '"' :: cs) :
    stringBody source file start again s = .ok ([], s.past 1) := by
  rw [stringBody, bind_of_ok (atEnd_of_cons h), if_neg Bool.false_ne_true,
    bind_of_ok (peek_of_cons h), if_pos rfl]
  exact closeString_of_cons start h

/-- A backslash at the end closes nothing. -/
theorem stringBody_of_backslash (h : source.drop s.current = ['\\']) :
    stringBody source file start again s
      = .error (.refused (.syntaxError file start.pos.line start.pos.column
          "Unterminated string")) := by
  have hnext : source.drop (s.past 1).current = [] := drop_past h 1
  rw [stringBody, bind_of_ok (atEnd_of_cons h), if_neg Bool.false_ne_true,
    bind_of_ok (peek_of_cons h), if_neg (by decide), if_pos rfl, bind_of_ok (advance_of_cons h),
    bind_of_ok (atEnd_of_nil hnext)]
  exact closeString_of_nil start hnext

/-- An escape is replaced, or refused where it stands. -/
theorem stringBody_of_escape {e : Char} (h : source.drop s.current = '\\' :: e :: cs) :
    stringBody source file start again s
      = (match unescape? e with
        | some v => do return v :: (← again)
        | none => refuseToken file start ("Invalid escape sequence \\" ++ e.toString) :
          Reader Head (List Char)) (s.past 2) := by
  have hnext : source.drop (s.past 1).current = e :: cs := drop_past h 1
  rw [stringBody, bind_of_ok (atEnd_of_cons h), if_neg Bool.false_ne_true,
    bind_of_ok (peek_of_cons h), if_neg (by decide), if_pos rfl, bind_of_ok (advance_of_cons h),
    bind_of_ok (atEnd_of_cons hnext), if_neg Bool.false_ne_true, bind_of_ok (advance_of_cons hnext),
    Head.past_past]

/-- Any other character stands for itself, but a line feed is refused. -/
theorem stringBody_of_other (h : source.drop s.current = c :: cs) (hquote : c ≠ '"')
    (hescape : c ≠ '\\') :
    stringBody source file start again s
      = if c = '\n' then .error (.refused (.syntaxError file start.pos.line start.pos.column
            "Unterminated string"))
        else (do return c :: (← again) : Reader Head (List Char)) (s.past 1) := by
  rw [stringBody, bind_of_ok (atEnd_of_cons h), if_neg Bool.false_ne_true,
    bind_of_ok (peek_of_cons h), if_neg hquote, if_neg hescape]
  by_cases hc : c = '\n'
  · rw [if_pos hc, if_pos hc]
    rfl
  · rw [if_neg hc, if_neg hc, bind_of_ok (advance_of_cons h)]

end StringBody

/-- A character that neither ends the text as a backslash nor starts an escape. -/
theorem ne_backslash (hlone : c = '\\' → cs = [] → False)
    (hpair : ∀ e ds, c = '\\' → cs = e :: ds → False) : c ≠ '\\' := by
  intro hc
  cases cs with
  | nil => exact hlone hc rfl
  | cons e ds => exact hpair e ds hc rfl

/-- The value of a string is read up to its closing quote, or not at all. -/
theorem string_loop (file : String) (start : Head) (h : source.drop s.current = cs) :
    loop source (stringBody source file start) s
      = match stringTail cs with
        | .error m => .error (.refused (.syntaxError file start.pos.line start.pos.column m))
        | .ok (value, text, _) => .ok (value, s.past text.length) := by
  -- the loop is restarted behind each character, or behind both characters of an escape
  fun_induction stringTail cs generalizing s with
  | case1 => rw [loop_eq, stringBody_of_nil h]
  | case2 => rw [loop_eq, stringBody_of_backslash h]
  | case3 e cs hnone =>
    rw [loop_eq, stringBody_of_escape h, hnone]
    rfl
  | case4 e cs v hsome m hm ih =>
    have hrest := ih (drop_past h 2)
    rw [hm] at hrest
    rw [loop_eq, stringBody_of_escape h, hsome]
    apply bind_of_error
    rw [restart_past h (by simp) Nat.two_pos]
    exact hrest
  | case5 e cs v hsome value text rest hok ih =>
    have hrest := ih (drop_past h 2)
    simp only [hok, Head.past_past, Nat.add_comm 2] at hrest
    rw [loop_eq, stringBody_of_escape h, hsome]
    apply bind_pure_of_ok
    rw [restart_past h (by simp) Nat.two_pos]
    exact hrest
  | case6 cs _ _ =>
    rw [loop_eq, stringBody_of_quote h]
    rfl
  | case7 cs _ _ _ => rw [loop_eq, stringBody_of_other h (by decide) (by decide), if_pos rfl]
  | case8 c cs hlone hpair hquote hline m hm ih =>
    have hescape : c ≠ '\\' := ne_backslash hlone hpair
    have hrest := ih (drop_past h 1)
    rw [hm] at hrest
    rw [loop_eq, stringBody_of_other h hquote hescape, if_neg hline]
    apply bind_of_error
    rw [restart_past h (by simp) Nat.one_pos]
    exact hrest
  | case9 c cs hlone hpair hquote hline value text rest hok ih =>
    have hescape : c ≠ '\\' := ne_backslash hlone hpair
    have hrest := ih (drop_past h 1)
    simp only [hok, Head.past_past, Nat.add_comm 1] at hrest
    rw [loop_eq, stringBody_of_other h hquote hescape, if_neg hline]
    apply bind_pure_of_ok
    rw [restart_past h (by simp) Nat.one_pos]
    exact hrest

/-- The loop over a segment stops at the first character that does not continue it. -/
theorem segment_loop (h : source.drop s.current = cs) :
    loop source (segmentBody source) s = .ok ((), s.past (cs.takeWhile isNameChar).length) := by
  induction cs generalizing s with
  | nil =>
    rw [loop_eq, segmentBody, bind_of_ok (peek_of_nil h), if_neg (by decide)]
    rfl
  | cons c cs ih =>
    rw [loop_eq, segmentBody, bind_of_ok (peek_of_cons h)]
    by_cases hc : isNameChar c = true
    · rw [if_pos hc, bind_of_ok (advance_of_cons h), restart_past h (by simp) Nat.one_pos,
        List.takeWhile_cons_of_pos hc, List.length_cons, Nat.add_comm, ← Head.past_past]
      exact ih (drop_past h 1)
    · rw [if_neg hc, List.takeWhile_cons_of_neg hc]
      rfl

/-- The tail of a name goes on to the end of its segment. -/
theorem nameTail_segment (cs : List Char) : (nameTail cs).1
    = cs.takeWhile isNameChar ++ (nameTail (cs.dropWhile isNameChar)).1 := by
  induction cs with
  | nil => rfl
  | cons c cs ih =>
    by_cases hc : isNameChar c = true
    · rw [List.takeWhile_cons_of_pos hc, List.dropWhile_cons_of_pos hc, nameTail_of_char hc]
      exact congrArg (c :: ·) ih
    · rw [List.takeWhile_cons_of_neg hc, List.dropWhile_cons_of_neg hc]
      rfl

/-- A dot belongs to the name if a segment follows. -/
theorem nameTail_dot (cs : List Char) : (nameTail ('.' :: cs)).1
    = if isNameStart (cs.headD '\x00') then '.' :: (nameTail cs).1 else [] := by
  cases cs with
  | nil => rfl
  | cons d ds =>
    rw [nameTail, List.headD_cons]
    by_cases hd : isNameStart d = true
    · rw [if_pos hd, if_pos hd]
    · rw [if_neg hd, if_neg hd]

/-- Any other character ends the name. -/
theorem nameTail_other (hdot : c ≠ '.') (hc : isNameChar c = false) :
    (nameTail (c :: cs)).1 = [] := by
  rw [nameTail, if_neg (by simp [hc])]
  intro d ds heq
  exact absurd heq hdot

/-- After a segment comes what does not belong to it. -/
theorem drop_segment (h : source.drop s.current = cs) :
    source.drop (s.past (cs.takeWhile isNameChar).length).current = cs.dropWhile isNameChar := by
  rw [drop_past h]
  nth_rewrite 2 [← List.takeWhile_append_dropWhile (p := isNameChar) (l := cs)]
  exact List.drop_left

/-- The loop over a name stops where no segment follows. -/
theorem name_loop (h : source.drop s.current = cs) :
    loop source (nameBody source) s = .ok ((), s.past (nameTail cs).1.length) := by
  induction hn : cs.length using Nat.strongRecOn generalizing s cs with
  | ind n ih =>
    have hrest := drop_segment h
    rw [loop_eq, nameBody, bind_of_ok (segment_loop h), nameTail_segment, List.length_append,
      ← Head.past_past]
    cases hd : cs.dropWhile isNameChar with
    | nil =>
      rw [hd] at hrest
      rw [bind_of_ok (peek_of_nil hrest), if_neg (by decide)]
      rfl
    | cons c ds =>
      rw [hd] at hrest
      rw [bind_of_ok (peek_of_cons hrest)]
      by_cases hdot : c = '.'
      · -- a dot belongs to the name if a segment follows
        subst hdot
        rw [if_pos rfl, bind_of_ok (peekNext_of_cons hrest), nameTail_dot]
        by_cases hstart : isNameStart (ds.headD '\x00') = true
        · have hlength : cs.length = (cs.takeWhile isNameChar).length + (ds.length + 1) := by
            rw [← List.length_cons (a := '.'), ← hd, ← List.length_append,
              List.takeWhile_append_dropWhile]
          have hds : source.drop (s.past ((cs.takeWhile isNameChar).length + 1)).current = ds := by
            rw [← Head.past_past]
            exact drop_past hrest 1
          rw [if_pos hstart, if_pos hstart, bind_of_ok (advance_of_cons hrest), Head.past_past,
            restart_past h (by omega) (by omega), ih ds.length (by omega) hds rfl,
            Head.past_past, Head.past_past, List.length_cons, Nat.add_assoc, Nat.add_comm 1]
        · rw [if_neg hstart, if_neg hstart]
          rfl
      · have hc : isNameChar c = false := by
          have hnot := List.head?_dropWhile_not isNameChar cs
          rw [hd] at hnot
          exact hnot
        rw [if_neg hdot, nameTail_other hdot hc]
        rfl

/-! ## §4. One token. -/

/-- The head after a token that starts at `s`, which has one line. -/
def tokenAt (s : Head) (l : Lexeme) : Token × Head :=
  (⟨l.kind, String.ofList l.text, s.pos⟩, s.past l.text.length)

/-- A comment goes on to the end of the line. -/
theorem comment_eq (h : source.drop s.current = '/' :: '/' :: cs) :
    comment source s (s.past 2) = .ok (tokenAt s (commentLexeme cs)) := by
  have htext : source.drop s.current = (commentLexeme cs).text ++ (commentLexeme cs).rest := by
    rw [h]
    simp [commentLexeme]
  have hlength : 2 + (cs.takeWhile (· != '\n')).length = (commentLexeme cs).text.length := by
    rw [Nat.add_comm]
    rfl
  have hne : (commentLexeme cs).text ≠ [] := by simp [commentLexeme]
  have hcs : source.drop (s.past 2).current = cs := drop_past h 2
  rw [comment, bind_of_ok (comment_loop hcs), Head.past_past, hlength,
    bind_of_ok (slice_text htext hne)]
  exact finish_text htext hne

/-- A string is read alike. -/
theorem string_eq (file : String) (h : source.drop s.current = '"' :: cs) :
    string source file s (s.past 1)
      = match stringTail cs with
        | .error m => .error (.refused (.syntaxError file s.pos.line s.pos.column m))
        | .ok (value, text, rest) =>
          .ok (tokenAt s ⟨.string (String.ofList value), '"' :: text, rest⟩) := by
  have hcs : source.drop (s.past 1).current = cs := drop_past h 1
  have hloop := string_loop file s hcs
  cases htail : stringTail cs with
  | error m =>
    rw [htail] at hloop
    exact bind_of_error hloop _
  | ok b =>
    obtain ⟨value, text, rest⟩ := b
    simp only [htail, Head.past_past, Nat.add_comm 1] at hloop
    rw [string, bind_of_ok hloop]
    have htext : source.drop s.current = ('"' :: text) ++ rest := by
      rw [h, ← stringTail_append htail]
      rfl
    exact finish_text htext (by simp)

/-- A name is read alike. -/
theorem identifier_eq (h : source.drop s.current = c :: cs) :
    identifier source s (s.past 1)
      = .ok (tokenAt s ⟨.identifier (String.ofList (c :: (nameTail cs).1)),
          c :: (nameTail cs).1, (nameTail cs).2⟩) := by
  have hcs : source.drop (s.past 1).current = cs := drop_past h 1
  have hloop := name_loop hcs
  rw [Head.past_past, Nat.add_comm] at hloop
  have htext : source.drop s.current = (c :: (nameTail cs).1) ++ (nameTail cs).2 := by
    rw [h, List.cons_append, nameTail_append]
  rw [identifier, bind_of_ok hloop]
  have hslice := slice_text htext (by simp)
  rw [List.length_cons] at hslice
  rw [bind_of_ok hslice]
  exact finish_text htext (by simp)

/-- A blank is passed, and no token comes of it. -/
theorem token_of_gap (h : source.drop s.current = c :: cs) (hc : isGap c = true) :
    token source file s s = .ok (none, ⟨s.current + 1, s.pos.next c⟩) := by
  rw [token, bind_of_ok (advance_of_cons h)]
  by_cases hblank : c = ' ' ∨ c = '\r' ∨ c = '\t'
  · have hline : c ≠ '\n' := by
      rintro rfl
      revert hblank
      decide
    rw [if_pos hblank, Position.next, if_neg hline]
    rfl
  · have hline : c = '\n' := by
      simp only [isGap, Bool.or_eq_true, decide_eq_true_eq] at hc
      tauto
    rw [if_neg hblank, if_pos hline, bind_modify, Position.next, if_pos hline]
    rfl

/-- A slash alone is refused. -/
theorem lexeme_slash (hc : cs.head? ≠ some '/') :
    lexeme '/' cs = .error "Unexpected character '/', comments start with `//`" := by
  cases cs with
  | nil => rfl
  | cons d ds =>
    have hd : d ≠ '/' := fun heq => hc (congrArg some heq)
    simp [lexeme, punctuation?]
    split
    · next heq => exact absurd (List.cons.inj heq).1 hd
    · rfl

/-- A character of punctuation is a token by itself. -/
theorem lexeme_of_punctuation {kind : TokenKind} (hkind : punctuation? c = some kind) :
    lexeme c cs = .ok ⟨kind, [c], cs⟩ := by
  unfold lexeme
  rw [hkind]

/-- A character that starts a name starts one. -/
theorem lexeme_of_name (hkind : punctuation? c = none) (hslash : c ≠ '/') (hquote : c ≠ '"')
    (hstart : isNameStart c = true) :
    lexeme c cs = .ok ⟨.identifier (String.ofList (c :: (nameTail cs).1)),
      c :: (nameTail cs).1, (nameTail cs).2⟩ := by
  unfold lexeme
  simp only [hkind, if_neg hslash, if_neg hquote, if_pos hstart]

/-- Any other character is refused. -/
theorem lexeme_of_unknown (hkind : punctuation? c = none) (hslash : c ≠ '/') (hquote : c ≠ '"')
    (hstart : ¬ isNameStart c = true) :
    lexeme c cs = .error ("Unexpected character '" ++ c.toString ++ "'") := by
  unfold lexeme
  simp only [hkind, if_neg hslash, if_neg hquote, if_neg hstart]

/-- No second slash is passed where there is none. -/
theorem matchChar_slash (h : source.drop s.current = cs) (hc : cs.head? ≠ some '/') :
    matchChar source '/' s = .ok (false, s) := by
  cases cs with
  | nil => exact matchChar_of_nil h '/'
  | cons d ds =>
    have hd : d ≠ '/' := fun heq => hc (congrArg some heq)
    rw [matchChar_of_cons h, if_neg hd, decide_eq_false hd]

/-- Where no blank stands, the token is read that starts there, or refused. -/
theorem token_of_not_gap (file : String) (h : source.drop s.current = c :: cs) (hc : isGap c = false) :
    token source file s s
      = match lexeme c cs with
        | .error m => .error (.refused (.syntaxError file s.pos.line s.pos.column m))
        | .ok l => .ok (some (tokenAt s l).1, (tokenAt s l).2) := by
  have hblank : ¬ (c = ' ' ∨ c = '\r' ∨ c = '\t') := by
    simp only [isGap, Bool.or_eq_false_iff, decide_eq_false_iff_not] at hc
    tauto
  have hline : c ≠ '\n' := by
    simp only [isGap, Bool.or_eq_false_iff, decide_eq_false_iff_not] at hc
    exact hc.2
  have hcs : source.drop (s.past 1).current = cs := drop_past h 1
  rw [token, bind_of_ok (advance_of_cons h), if_neg hblank, if_neg hline]
  -- a slash begins a comment, or nothing at all
  by_cases hslash : c = '/'
  · subst hslash
    rw [if_pos rfl]
    by_cases hsecond : cs.head? = some '/'
    · obtain ⟨ds, rfl⟩ := List.head?_eq_some_iff.1 hsecond
      rw [bind_of_ok (matchChar_of_cons hcs '/'), if_pos rfl, Head.past_past]
      exact bind_pure_of_ok (comment_eq h) some
    · rw [bind_of_ok (matchChar_slash hcs hsecond), lexeme_slash hsecond]
      rfl
  · rw [if_neg hslash]
    cases hkind : punctuation? c with
    | some kind =>
      rw [lexeme_of_punctuation hkind]
      exact bind_pure_of_ok (finish_text (show source.drop s.current = [c] ++ cs from h) (by simp)) some
    | none =>
      by_cases hquote : c = '"'
      · subst hquote
        have hstring := string_eq file h
        have hlexeme : lexeme '"' cs = match stringTail cs with
            | .error m => .error m
            | .ok (value, text, rest) =>
              .ok ⟨.string (String.ofList value), '"' :: text, rest⟩ := rfl
        rw [hlexeme]
        cases htail : stringTail cs with
        | error m =>
          rw [htail] at hstring
          exact bind_of_error hstring _
        | ok b =>
          rw [htail] at hstring
          exact bind_pure_of_ok hstring some
      · by_cases hstart : isNameStart c = true
        · rw [lexeme_of_name hkind hslash hquote hstart]
          simp only [if_neg hquote, if_pos hstart]
          exact bind_pure_of_ok (identifier_eq h) some
        · rw [lexeme_of_unknown hkind hslash hquote hstart]
          simp only [if_neg hquote, if_neg hstart]
          rfl

/-! ## §5. All tokens. -/

/-- The scanner stands behind the token. -/
theorem tokenAt_head {l : Lexeme} (hl : lexeme c cs = .ok l) :
    (tokenAt s l).2 = ⟨s.current + l.text.length, s.pos.after l.text⟩ := by
  rw [after_of_line (newline_not_mem_lexeme hl)]
  rfl

section TokensBody

variable {again : Reader Head (List Token)}

/-- At the end stands the end mark. -/
theorem tokensBody_of_nil (h : source.drop s.current = []) :
    tokensBody source file again s = .ok ([⟨.eof, "", s.pos⟩], s) := by
  rw [tokensBody, bind_of_ok (atEnd_of_nil h)]
  rfl

/-- After a blank the scanner goes on. -/
theorem tokensBody_of_gap (h : source.drop s.current = c :: cs) (hc : isGap c = true) :
    tokensBody source file again s = again ⟨s.current + 1, s.pos.next c⟩ := by
  rw [tokensBody, bind_of_ok (atEnd_of_cons h), if_neg Bool.false_ne_true, bind_get,
    bind_of_ok (token_of_gap h hc)]

/-- What is refused is the answer. -/
theorem tokensBody_of_error (h : source.drop s.current = c :: cs) (hc : isGap c = false)
    {m : String} (hm : lexeme c cs = .error m) :
    tokensBody source file again s
      = .error (.refused (.syntaxError file s.pos.line s.pos.column m)) := by
  have htoken := token_of_not_gap file h hc
  rw [hm] at htoken
  rw [tokensBody, bind_of_ok (atEnd_of_cons h), if_neg Bool.false_ne_true, bind_get,
    bind_of_error htoken]

/-- A token is kept, and the scanner goes on behind it. -/
theorem tokensBody_of_lexeme (h : source.drop s.current = c :: cs) (hc : isGap c = false)
    {l : Lexeme} (hl : lexeme c cs = .ok l) :
    tokensBody source file again s
      = (do return ⟨l.kind, String.ofList l.text, s.pos⟩ :: (← again) : Reader Head (List Token))
          ⟨s.current + l.text.length, s.pos.after l.text⟩ := by
  have htoken := token_of_not_gap file h hc
  rw [hl] at htoken
  rw [tokensBody, bind_of_ok (atEnd_of_cons h), if_neg Bool.false_ne_true, bind_get,
    bind_of_ok htoken, tokenAt_head hl]
  rfl

end TokensBody

/-- **The cursor reads what the head of the text reads,** and is at the end then. -/
theorem tokens_eq (file : String) {i : Nat} (p : Position) (h : source.drop i = cs) :
    tokens source file ⟨i, p⟩ = match scanFrom file p cs with
      | .error e => .error (.refused e)
      | .ok ts => .ok (ts, ⟨i + cs.length, p.after cs⟩) := by
  induction hn : cs.length using Nat.strongRecOn generalizing i p cs with
  | ind n ih =>
    rw [tokens, loop_eq]
    cases cs with
    | nil =>
      rw [tokensBody_of_nil h, scanFrom, ← hn]
      rfl
    | cons c cs =>
      -- what is left is scanned from behind the blank or the lexeme
      cases hc : isGap c with
      | true =>
        have hrest : source.drop (i + 1) = cs := drop_past (s := ⟨i, p⟩) h 1
        have hlength : cs.length < n := hn ▸ Nat.lt_succ_self _
        have hagain := ih cs.length hlength (p.next c) hrest rfl
        rw [tokensBody_of_gap h hc, restart_at h (by simp) Nat.one_pos, scanFrom_gap hc, ← hn,
          List.length_cons, Nat.add_comm cs.length, ← Nat.add_assoc]
        exact hagain
      | false =>
        cases hl : lexeme c cs with
        | error m => rw [tokensBody_of_error h hc hl, scanFrom_refused hc hl]
        | ok l =>
          have hwhole : l.text ++ l.rest = c :: cs := (lexeme_split hl).1
          have hlength : l.text.length + l.rest.length = n := by
            rw [← List.length_append, hwhole, hn]
          have hpos : 0 < l.text.length := List.length_pos_iff.2 (lexeme_split hl).2
          have hrest : source.drop (i + l.text.length) = l.rest := by
            rw [← List.drop_drop, h, ← hwhole, List.drop_left]
          have hagain := ih l.rest.length (by omega) (p.after l.text) hrest rfl
          rw [tokens] at hagain
          rw [tokensBody_of_lexeme h hc hl]
          cases hscan : scanFrom file (p.after l.text) l.rest with
          | error e =>
            rw [hscan] at hagain
            rw [scanFrom_later_refused hc hl hscan]
            apply bind_of_error
            rw [restart_at h (by omega) hpos]
            exact hagain
          | ok ts =>
            rw [hscan] at hagain
            rw [scanFrom_lexeme hc hl hscan, ← hwhole, Position.after_append, ← hlength,
              ← Nat.add_assoc]
            apply bind_pure_of_ok
            rw [restart_at h (by omega) hpos]
            exact hagain

end Steps

/-! ## §6. The scanner as a whole. -/

/-- The tokens of a text, the cursor moving over it from its start; nothing if it
does what it must not do. -/
def scan (source file : String) : Option (Except Error (List Token)) :=
  answer? (tokens source.toList file) ⟨0, .start⟩

/-- **Scanning with a cursor ends without a fault, with what the head of the text
gives.** -/
theorem scan_eq (source file : String) : scan source file = some (Token.scan source file) := by
  have heq := tokens_eq file .start source.toList.drop_zero
  rw [scan, answer?, heq, Token.scan]
  cases scanFrom file .start source.toList <;> rfl

end LazyFields.Source.Scanner
