/-
  LazyFields.Proofs.Source.Cursor.Parser
  ────────────────────────────────
  **PARSING WITH A CURSOR.**

  The parser over the whole list of tokens: it looks at tokens by their number,
  steps back to the token before the cursor, and goes past one token at a time.
  It does so without a fault and answers what the parser of the list's head
  answers (`parse_eq`), and so does the scanner (`reads_without_fault`).

  - `Agrees` — the cursor does what a reader does with the tokens that are left,
    and a refusal is at the place of a token.
  - `Agrees.bind` — readers that follow one another agree if their parts do.
  - `agrees_loop` — a loop agrees if its body does, the body being free to start
    over further on only; so each loop moves on with every round.
-/
import LazyFields.Proofs.Source.Cursor.Scanner
import LazyFields.Proofs.Source.Steps

namespace LazyFields.Source.Parser

open Cursor

/-! ## §1. The parser. -/

section Parser

variable (ts : List Token) (file : String)

/-- The token with the given number. -/
def tokenAt (i : Nat) : Reader Nat Token :=
  match ts[i]? with
  | some t => pure t
  | none => fail .outside

/-- The next token. -/
def peek : Reader Nat Token := do tokenAt ts (← get)

/-- The kind of the token so many places ahead; of the last one if there are fewer. -/
def peekAt (offset : Nat) : Reader Nat TokenKind := do
  match ts.length with
  | 0 => fail .before
  | last + 1 => return (← tokenAt ts (min ((← get) + offset) last)).kind

/-- The token before the cursor. -/
def previous : Reader Nat Token := do
  match ← get with
  | 0 => fail .before
  | i + 1 => tokenAt ts i

/-- Whether the end mark is next. -/
def atEnd : Reader Nat Bool := do return (← peek ts).kind = .eof

/-- Go past the next token, unless it is the end mark. -/
def advance : Reader Nat Token := do
  if ← atEnd ts then previous ts
  else
    modify (· + 1)
    previous ts

/-- Whether a token of the given kind is next. -/
def check (kind : TokenKind) : Reader Nat Bool := do
  if ← atEnd ts then return false else return (← peek ts).kind = kind

/-- Refuse the next token. -/
def expected {α : Type} (what : String) (help : Option String) : Reader Nat α := do
  refuse (unexpected file what help [← peek ts])

/-- Read one token of the given kind. -/
def consume (kind : TokenKind) : Reader Nat Token := do
  if ← check ts kind then advance ts else expected ts file kind.described none

/-- Read one token that carries a text of the given sort. -/
def expectText (text? : TokenKind → Option String) (what : String) (help : Option String) :
    Reader Nat String := do
  match text? (← peek ts).kind with
  | some text =>
      let _ ← advance ts
      return text
  | none => expected ts file what help

/-- Read a name. -/
def expectIdentifier (what : String) : Reader Nat String :=
  expectText ts file TokenKind.name? what none

/-- Read a string literal. -/
def expectString : Reader Nat String := expectText ts file TokenKind.string? "string" none

/-- Read the key of a map. -/
def mapKey : Reader Nat String :=
  expectText ts file TokenKind.name? "simple key type"
    (some "map keys must be simple types, e.g. map[string]int")

/-- Read with the body, over and over. -/
def loop {α : Type} (body : Reader Nat α → Reader Nat α) : Reader Nat α :=
  again id ts.length body

/-- One comment. -/
def commentsBody (again : Reader Nat (List String)) : Reader Nat (List String) := do
  match (← peek ts).kind with
  | .comment text =>
      let _ ← advance ts
      return text :: (← again)
  | _ => return []

/-- Read the comments that are next. -/
def collectComments : Reader Nat (List String) := loop ts (commentsBody ts)

/-- Whether the word is next, and a token after it that goes with it. -/
def wordBefore (word : String) (fits : TokenKind → Bool) : Reader Nat Bool := do
  if (← peek ts).kind.isWord word then return fits (← peekAt ts 1) else return false

/-- One layer of a type. -/
def typeBody (again : Reader Nat TypeExpr) : Reader Nat TypeExpr := do
  if ← check ts .leftBracket then
    let _ ← advance ts
    let _ ← consume ts file .rightBracket
    return .list (← again)
  else if ← wordBefore ts "map" (· = .leftBracket) then
    let _ ← advance ts
    let _ ← consume ts file .leftBracket
    let key ← mapKey ts file
    let _ ← consume ts file .rightBracket
    return .map key (← again)
  else return .named (← expectIdentifier ts file "type")

/-- Read a type. -/
def type : Reader Nat TypeExpr := loop ts (typeBody ts file)

/-- One name and the comma after it, or the closing parenthesis. -/
def namesBody (again : Reader Nat (List String)) : Reader Nat (List String) := do
  if ← check ts .rightParen then
    let _ ← consume ts file .rightParen
    return []
  else
    let name ← expectIdentifier ts file "dependency"
    if ← check ts .comma then
      let _ ← advance ts
      return name :: (← again)
    else
      let _ ← consume ts file .rightParen
      return [name]

/-- Read names in parentheses. -/
def fieldArgs : Reader Nat (List String) := do
  let _ ← consume ts file .leftParen
  loop ts (namesBody ts file)

/-- Whether a question mark is next; it is read then. -/
def optional : Reader Nat Bool := do
  if ← check ts .question then
    let _ ← advance ts
    return true
  else return false

/-- One constructor argument and the comma after it, or the closing parenthesis. -/
def argsBody (again : Reader Nat (List ArgDecl)) : Reader Nat (List ArgDecl) := do
  if ← check ts .rightParen then
    let _ ← consume ts file .rightParen
    return []
  else
    let name ← expectIdentifier ts file "init argument name"
    let isOptional ← optional ts
    let type ← type ts file
    if ← check ts .comma then
      let _ ← advance ts
      return ⟨name, isOptional, type⟩ :: (← again)
    else
      let _ ← consume ts file .rightParen
      return [⟨name, isOptional, type⟩]

/-- Read a constructor. -/
def init : Reader Nat (List ArgDecl) := do
  let _ ← advance ts
  let _ ← consume ts file .leftParen
  loop ts (argsBody ts file)

/-- Read the names that a field depends on, if a parenthesis is next. -/
def fieldRefs : Reader Nat (Option (List String)) := do
  if ← check ts .leftParen then return some (← fieldArgs ts file) else return none

/-- Read the type of a field, if one starts on the line where the field's text ended. -/
def fieldType : Reader Nat (Option TypeExpr) := do
  let line := (← previous ts).pos.line
  let next ← peek ts
  if (next.kind.isIdentifier || next.kind = .leftBracket) && next.pos.line = line then
    return some (← type ts file)
  else return none

/-- Read a field. -/
def basicField : Reader Nat FieldDecl := do
  let name ← expectIdentifier ts file "field name"
  let refs ← fieldRefs ts file
  let type ← fieldType ts file
  return ⟨name, refs, type⟩

/-- Read the alias of an embedded resource, if one is next. -/
def embedAlias : Reader Nat (Option String) := do
  if ← wordBefore ts "as" TokenKind.isIdentifier then
    let _ ← advance ts
    return some (← expectIdentifier ts file "alias")
  else return none

/-- Read what an item declares. -/
def itemKind : Reader Nat ItemKind := do
  if ← wordBefore ts "init" (· = .leftParen) then return .init (← init ts file)
  else if ← wordBefore ts "embed" TokenKind.isIdentifier then
    let _ ← advance ts
    let name ← expectIdentifier ts file "embedded resource"
    return .embed name (← embedAlias ts file)
  else return .field (← basicField ts file)

/-- One item, or the closing brace of the resource `id`. -/
def itemsBody (id : String) (again : Reader Nat (List Item)) : Reader Nat (List Item) := do
  let comments ← collectComments ts
  if ← check ts .rightBrace then
    let _ ← advance ts
    return []
  else if ← atEnd ts then
    expected ts file "`\x7d`" (some ("resource `" ++ id ++ "` is never closed"))
  else
    let pos := (← peek ts).pos
    let kind ← itemKind ts file
    return ⟨comments, kind, pos⟩ :: (← again)

/-- Read the head of a list resource. -/
def listType : Reader Nat ListHead := do
  let _ ← consume ts file .leftBracket
  let _ ← consume ts file .rightBracket
  let element ← expectIdentifier ts file "list element type"
  return ⟨element, ← fieldRefs ts file⟩

/-- Read the head of a list resource, if a bracket is next. -/
def listHead : Reader Nat (Option ListHead) := do
  if ← check ts .leftBracket then return some (← listType ts file) else return none

/-- Read the body of the resource `id`; its opening brace is read already. -/
def body (id : String) : Reader Nat (Option ListHead × List Item) := do
  let _ ← collectComments ts
  let head ← listHead ts file
  return (head, ← loop ts (itemsBody ts file id))

/-- Whether the modifier is next; it is read then. -/
def matchModifier (word : String) : Reader Nat Bool := do
  if ← wordBefore ts word TokenKind.isIdentifier then
    let _ ← advance ts
    return true
  else return false

/-- Read a `@defaults("...")` annotation, if one is next. -/
def defaults : Reader Nat (Option String) := do
  if ← check ts .atSign then
    let _ ← advance ts
    if (← peek ts).kind.isWord "defaults" then
      let _ ← advance ts
      let _ ← consume ts file .leftParen
      let value ← expectString ts file
      let _ ← consume ts file .rightParen
      return some value
    else expected ts file "`defaults` after `@`" none
  else return none

/-- Read a body, if a brace is next. -/
def optionalBody (id : String) : Reader Nat (Option ListHead × List Item) := do
  if ← check ts .leftBrace then
    let _ ← advance ts
    body ts file id
  else return (none, [])

/-- Read the declaration of a resource. -/
def resource (comments : List String) : Reader Nat Declaration := do
  let isPrivate ← matchModifier ts "private"
  let isExtension ← matchModifier ts "extend"
  let pos := (← peek ts).pos
  let id ← expectIdentifier ts file "resource name"
  let defaults ← defaults ts file
  let (head, items) ← optionalBody ts file id
  return ⟨comments, isPrivate, isExtension, id, defaults, head, items, pos⟩

/-- Whether an option is next. -/
def optionAhead : Reader Nat Bool := do
  if ← wordBefore ts "option" TokenKind.isIdentifier then return (← peekAt ts 2) = .assign
  else return false

/-- Read one thing at the top level. -/
def topLevel (comments : List String) : Reader Nat TopLevel := do
  if ← wordBefore ts "import" (·.string?.isSome) then
    let _ ← advance ts
    return .importing (← expectString ts file)
  else if ← optionAhead ts then
    let _ ← advance ts
    let name ← expectIdentifier ts file "option name"
    let _ ← consume ts file .assign
    return .option name (← expectString ts file)
  else return .resource (← resource ts file comments)

/-- One thing at the top level, or the end of the list. -/
def fileBody (again : Reader Nat (List TopLevel)) : Reader Nat (List TopLevel) := do
  let comments ← collectComments ts
  if ← atEnd ts then return []
  else
    let top ← topLevel ts file comments
    return top :: (← again)

/-- Read a file. -/
def wholeFile : Reader Nat File := do return File.ofTopLevels (← loop ts (fileBody ts file))

end Parser

/-! ## §2. Looking at one token. -/

/-- The last token is an end mark.  Whether it is the only one does not matter: reading
stops at the first. -/
def EndsMarked (ts : List Token) : Prop := ts.getLast?.map Token.kind = some .eof

section Steps

variable {ts us : List Token} {file : String} {i : Nat} {t : Token}

/-- An index with a token left is within bounds. -/
theorem lt_of_drop (h : ts.drop i = t :: us) : i < ts.length := by
  apply Nat.lt_of_not_le
  intro hle
  rw [List.drop_eq_nil_of_le hle] at h
  cases h

/-- A place within the list, and the token there. -/
theorem exists_next (hi : i < ts.length) : ∃ t, ts.drop i = t :: ts.drop (i + 1) :=
  ⟨ts[i], List.drop_eq_getElem_cons hi⟩

theorem mem_of_drop (h : ts.drop i = t :: us) : t ∈ ts :=
  List.mem_of_mem_drop (h ▸ List.mem_cons_self)

theorem drop_succ (h : ts.drop i = t :: us) : ts.drop (i + 1) = us := by
  rw [← List.drop_drop, h, List.drop_one, List.tail_cons]

/-- Something stands after a token that is no end mark. -/
theorem succ_lt (hends : EndsMarked ts) (h : ts.drop i = t :: us) (ht : t.kind ≠ .eof) :
    i + 1 < ts.length := by
  apply Nat.lt_of_not_le
  intro hle
  have hnil : us = [] := by rw [← drop_succ h, List.drop_eq_nil_of_le hle]
  have hlast : ts.getLast? = some t := by
    rw [← List.take_append_drop i ts, h, hnil, List.getLast?_concat]
  rw [EndsMarked, hlast] at hends
  exact ht (Option.some.inj hends)

/-- A reader that takes tokens off moves the cursor on. -/
theorem lt_of_length_lt {j k : Nat} (hj : j < ts.length)
    (hlt : (ts.drop k).length < (ts.drop j).length) : j < k := by
  rw [List.length_drop, List.length_drop] at hlt
  omega

/-- The token at an index that is within bounds is found. -/
theorem tokenAt_of_drop {j : Nat} (h : ts.drop j = t :: us) : tokenAt ts j i = .ok (t, i) := by
  have ht : ts[j]? = some t := by
    rw [← Nat.add_zero j, ← List.getElem?_drop, h]
    rfl
  rw [tokenAt, ht]
  rfl

theorem peek_of_drop (h : ts.drop i = t :: us) : peek ts i = .ok (t, i) := tokenAt_of_drop h

theorem previous_of_drop (h : ts.drop i = t :: us) : previous ts (i + 1) = .ok (t, i + 1) :=
  tokenAt_of_drop h

/-- The kind of a token further on is found. -/
theorem peekAt_of_drop {offset : Nat} (h : ts.drop (i + offset) = t :: us) :
    peekAt ts offset i = .ok (t.kind, i) := by
  have hlt := lt_of_drop h
  unfold peekAt
  cases hlength : ts.length with
  | zero => omega
  | succ last =>
    dsimp only
    rw [bind_get, Nat.min_eq_left (by omega)]
    exact bind_pure_of_ok (tokenAt_of_drop h) _

/-- At a token, the end is reached if it is the end mark. -/
theorem atEnd_of_drop (h : ts.drop i = t :: us) : atEnd ts i = .ok (t.kind = .eof, i) :=
  bind_pure_of_ok (peek_of_drop h) _

/-- A token that is not the end mark is passed. -/
theorem advance_of_drop (h : ts.drop i = t :: us) (ht : t.kind ≠ .eof) :
    advance ts i = .ok (t, i + 1) := by
  rw [advance, bind_of_ok (atEnd_of_drop h), if_neg (by simpa using ht), bind_modify]
  exact previous_of_drop h

/-- The kind of the token at the index is compared. -/
theorem check_of_drop (h : ts.drop i = t :: us) {kind : TokenKind} (hkind : kind ≠ .eof) :
    check ts kind i = .ok (t.kind = kind, i) := by
  rw [check, bind_of_ok (atEnd_of_drop h)]
  by_cases ht : t.kind = .eof
  · rw [if_pos (by simpa using ht), ht, decide_eq_false (Ne.symm hkind)]
    rfl
  · rw [if_neg (by simpa using ht)]
    exact bind_pure_of_ok (peek_of_drop h) _

/-- What was expected instead of the token is the error. -/
theorem expected_of_drop {α : Type} (h : ts.drop i = t :: us) (what : String)
    (help : Option String) : (expected ts file what help : Reader Nat α) i
      = .error (.refused (unexpected file what help (t :: us))) := by
  rw [expected, bind_of_ok (peek_of_drop h)]
  rfl

/-- The end mark is no word. -/
theorem ne_eof_of_isWord {kind : TokenKind} {word : String} (h : kind.isWord word = true) :
    kind ≠ .eof := by
  intro heof
  rw [heof] at h
  cases h

/-- The word is next, and what is after it goes with it. -/
theorem wordBefore_of_drop (hends : EndsMarked ts) (h : ts.drop i = t :: us) {word : String}
    {fits : TokenKind → Bool} : wordBefore ts word fits i
      = .ok (t.kind.isWord word && fits (nextToken us).kind, i) := by
  rw [wordBefore, bind_of_ok (peek_of_drop h)]
  cases hword : t.kind.isWord word with
  | false => rfl
  | true =>
    obtain ⟨u, hnext⟩ := exists_next (succ_lt hends h (ne_eof_of_isWord hword))
    have hus : us = u :: ts.drop (i + 1 + 1) := (drop_succ h).symm.trans hnext
    rw [if_pos rfl, hus]
    exact bind_pure_of_ok (peekAt_of_drop hnext) _

end Steps

/-! ## §3. Agreement with the readers of lists. -/

section Agreement

variable {ts : List Token} {file : String} {i : Nat} {t : Token} {α β γ δ : Type}

/-- The cursor, from `i` on, does what a reader does with the tokens that are left: it
refuses the same at a token of the list, or stops within the list where `post` holds
of both results. -/
inductive Agrees (ts : List Token) (file : String) (i : Nat) (post : α → Nat → β → Prop) :
    Except Stop (α × Nat) → Except Error β → Prop
  | refused {t : Token} (ht : t ∈ ts) (m : String) :
      Agrees ts file i post (.error (.refused (.syntaxError file t.pos.line t.pos.column m)))
        (.error (.syntaxError file t.pos.line t.pos.column m))
  | done {a : α} {j : Nat} {b : β} (hle : i ≤ j) (hlt : j < ts.length) (hpost : post a j b) :
      Agrees ts file i post (.ok (a, j)) (.ok b)

/-- The index may be said to start earlier. -/
theorem Agrees.mono {post : α → Nat → β → Prop} {j : Nat} {o : Except Stop (α × Nat)}
    {r : Except Error β} (h : Agrees ts file j post o r) (hij : i ≤ j) :
    Agrees ts file i post o r := by
  cases h with
  | refused ht m => exact .refused ht m
  | done hle hlt hpost => exact .done (Nat.le_trans hij hle) hlt hpost

/-- Agreement of two readers, one after the other. -/
theorem Agrees.bind {post : α → Nat → β → Prop} {post' : γ → Nat → δ → Prop} {m : Reader Nat α}
    {k : α → Reader Nat γ} {r : Except Error β} {g : β → Except Error δ}
    (h : Agrees ts file i post (m i) r)
    (hk : ∀ a j b, r = .ok b → i ≤ j → j < ts.length → post a j b →
      Agrees ts file j post' (k a j) (g b)) :
    Agrees ts file i post' ((m >>= k) i) (r >>= g) := by
  generalize hm : m i = o at h
  cases h with
  | refused ht m =>
    rw [bind_of_error hm]
    exact .refused ht m
  | done hle hlt hpost =>
    rw [bind_of_ok hm]
    exact (hk _ _ _ rfl hle hlt hpost).mono hle

/-- Where the list reader succeeds, so does the index reader, with what is left. -/
theorem Agrees.of_ok {post : α → Nat → β → Prop} {o : Except Stop (α × Nat)} {b : β}
    (h : Agrees ts file i post o (.ok b)) :
    ∃ a j, o = .ok (a, j) ∧ i ≤ j ∧ j < ts.length ∧ post a j b := by
  cases h with
  | done hle hlt hpost => exact ⟨_, _, rfl, hle, hlt, hpost⟩

/-- Both refuse a token with the same text. -/
theorem agrees_expected {post : α → Nat → β → Prop} {us : List Token} (h : ts.drop i = t :: us)
    (what : String) (help : Option String) :
    Agrees ts file i post ((expected ts file what help : Reader Nat α) i)
      (.error (unexpected file what help (t :: us))) := by
  rw [expected_of_drop h]
  exact .refused (mem_of_drop h) _

/-- **Agreement of a loop:** it is enough that the body agrees wherever starting over,
further on, does. -/
theorem agrees_loop {post : α → Nat → β → Prop} {body : Reader Nat α → Reader Nat α}
    {f : List Token → Except Error β}
    (hbody : ∀ i t again, ts.drop i = t :: ts.drop (i + 1) →
      (∀ j, i < j → j < ts.length → Agrees ts file j post (again j) (f (ts.drop j))) →
        Agrees ts file i post (body again i) (f (ts.drop i)))
    (hi : i < ts.length) : Agrees ts file i post (loop ts body i) (f (ts.drop i)) := by
  induction hn : ts.length - i using Nat.strongRecOn generalizing i with
  | ind n ih =>
    obtain ⟨t, h⟩ := exists_next hi
    rw [loop, again_eq]
    apply hbody i t _ h
    intro j hij hj
    rw [startOver_of_lt (by exact hij) (by exact Nat.le_of_lt hj)]
    exact ih (ts.length - j) (by omega) hj rfl

/-- Both have the same value, and the same tokens left. -/
def Leaves (ts : List Token) (a : α) (j : Nat) (b : α × List Token) : Prop := b = (a, ts.drop j)

/-- The same after exactly one token. -/
def LeavesNext (ts : List Token) (i : Nat) (a : α) (j : Nat) (b : α × List Token) : Prop :=
  j = i + 1 ∧ b = (a, ts.drop (i + 1))

/-- One token of a known kind is read. -/
theorem consume_of_drop {kind : TokenKind} (hkind : kind ≠ .eof)
    (h : ts.drop i = t :: ts.drop (i + 1)) (ht : t.kind = kind) :
    consume ts file kind i = .ok (t, i + 1) := by
  rw [consume, bind_of_ok (check_of_drop h hkind), if_pos (decide_eq_true ht)]
  exact advance_of_drop h (ht ▸ hkind)

variable (hends : EndsMarked ts)
include hends

/-- A token of a kind is taken. -/
theorem agrees_consume {kind : TokenKind} (hkind : kind ≠ .eof) (hi : i < ts.length) :
    Agrees ts file i (fun _ j rest => j = i + 1 ∧ rest = ts.drop (i + 1))
      (consume ts file kind i) (takeToken file kind (ts.drop i)) := by
  obtain ⟨t, h⟩ := exists_next hi
  rw [h, takeToken]
  by_cases ht : t.kind = kind
  · rw [consume_of_drop hkind h ht, if_pos ht]
    exact .done (Nat.le_succ i) (succ_lt hends h (ht ▸ hkind)) ⟨rfl, rfl⟩
  · rw [consume, bind_of_ok (check_of_drop h hkind), if_neg (by simpa using ht), if_neg ht]
    exact agrees_expected h _ _

omit hends in
/-- A token with a text is taken, and its text is the answer. -/
theorem expectText_of_drop {text? : TokenKind → Option String} {text : String}
    (h : ts.drop i = t :: ts.drop (i + 1)) (ht : t.kind ≠ .eof) (htext : text? t.kind = some text)
    (what : String) (help : Option String) :
    expectText ts file text? what help i = .ok (text, i + 1) := by
  rw [expectText, bind_of_ok (peek_of_drop h), htext]
  exact bind_pure_of_ok (advance_of_drop h ht) _

/-- A token with a text is taken, or refused. -/
theorem agrees_expectText {text? : TokenKind → Option String} (heof : text? .eof = none)
    (what : String) (help : Option String) (hi : i < ts.length) :
    Agrees ts file i (LeavesNext ts i) (expectText ts file text? what help i)
      (takeText file text? what help (ts.drop i)) := by
  obtain ⟨t, h⟩ := exists_next hi
  rw [h, takeText, nextToken_cons]
  cases htext : text? t.kind with
  | none =>
    rw [expectText, bind_of_ok (peek_of_drop h), htext]
    exact agrees_expected h what help
  | some text =>
    have ht : t.kind ≠ .eof := by
      intro hkind
      rw [hkind, heof] at htext
      cases htext
    rw [expectText_of_drop h ht htext]
    exact .done (Nat.le_succ i) (succ_lt hends h ht) ⟨rfl, rfl⟩

/-- A name is taken, or refused. -/
theorem agrees_expectIdentifier (what : String) (hi : i < ts.length) :
    Agrees ts file i (LeavesNext ts i) (expectIdentifier ts file what i)
      (expectName file what (ts.drop i)) := by
  rw [expectName_eq]
  exact agrees_expectText hends rfl what none hi

/-- A string is taken, or refused. -/
theorem agrees_expectString (hi : i < ts.length) :
    Agrees ts file i (LeavesNext ts i) (expectString ts file i) (takeString file (ts.drop i)) := by
  rw [takeString_eq]
  exact agrees_expectText hends rfl "string" none hi

/-- All comments are taken. -/
theorem agrees_collectComments (file : String) (hi : i < ts.length) :
    Agrees ts file i (Leaves ts) (collectComments ts i) (.ok (takeComments (ts.drop i))) := by
  apply agrees_loop (f := fun us => .ok (takeComments us)) _ hi
  intro i ⟨kind, l, p⟩ again h hagain
  have hi := lt_of_drop h
  rw [h, commentsBody, bind_of_ok (peek_of_drop h)]
  cases kind with
  | comment text =>
    have htext : (TokenKind.comment text) ≠ .eof := by simp
    dsimp only
    rw [bind_of_ok (advance_of_drop h htext)]
    have hrest := hagain (i + 1) (Nat.lt_succ_self i) (succ_lt hends h htext)
    apply (hrest.bind (g := fun b => .ok (text :: b.1, b.2)) _).mono (Nat.le_succ i)
    intro texts j b _ _ hj hb
    exact .done (Nat.le_refl j) hj (by rw [hb]; rfl)
  | _ => exact .done (Nat.le_refl i) hi (by rw [Leaves, h]; rfl)

/-! ## §4. Names, types and arguments. -/

/-- The cursor stands behind the token that ended what was read. -/
def LeavesLine (ts : List Token) (a : α) (j : Nat) (b : α × Nat × List Token) : Prop :=
  ∃ t, previous ts j = .ok (t, j) ∧ b = (a, t.pos.line, ts.drop j)

/-- Types are read alike; the loop takes a list mark or a map at a time. -/
theorem agrees_type (hi : i < ts.length) :
    Agrees ts file i (Leaves ts) (type ts file i) (readType file (ts.drop i)) := by
  refine agrees_loop (fun i t again h hagain => ?_) hi
  have hi := lt_of_drop h
  rw [h, typeBody, readType_eq, bind_of_ok (check_of_drop h (by decide))]
  by_cases hbracket : t.kind = .leftBracket
  · -- a list
    have hnext := succ_lt hends h (by simp [hbracket])
    rw [if_pos (by simpa using hbracket), if_pos hbracket,
      bind_of_ok (advance_of_drop h (by simp [hbracket]))]
    apply ((agrees_consume hends (by decide) hnext).bind _).mono (Nat.le_succ i)
    rintro - j rest - - hj ⟨rfl, rfl⟩
    apply (hagain (i + 1 + 1) (by omega) hj).bind
    rintro element k _ - - hk rfl
    exact .done (Nat.le_refl k) hk rfl
  · rw [if_neg (by simpa using hbracket), if_neg hbracket, bind_of_ok (wordBefore_of_drop hends h)]
    split
    · next hmap =>
      -- a map
      rw [Bool.and_eq_true, decide_eq_true_eq] at hmap
      have ht := ne_eof_of_isWord hmap.1
      obtain ⟨u, hu⟩ := exists_next (succ_lt hends h ht)
      rw [hu, nextToken_cons] at hmap
      have hkey := succ_lt hends hu (by simp [hmap.2])
      rw [bind_of_ok (advance_of_drop h ht), bind_of_ok (consume_of_drop (by decide) hu hmap.2), hu,
        List.tail_cons]
      apply ((agrees_expectText hends rfl _ _ hkey).bind _).mono (by omega)
      rintro key j - - - hj ⟨rfl, rfl⟩
      apply (agrees_consume hends (by decide) hj).bind
      rintro - k - - - hk ⟨rfl, rfl⟩
      apply (hagain _ (by omega) hk).bind
      rintro value l - - - hl rfl
      exact .done (Nat.le_refl l) hl rfl
    · -- a name
      rw [← h]
      apply (agrees_expectIdentifier hends "type" hi).bind
      rintro name j - - - hj ⟨rfl, rfl⟩
      exact .done (Nat.le_refl _) hj rfl

/-- The names in parentheses are read alike. -/
theorem agrees_names (hi : i < ts.length) :
    Agrees ts file i (LeavesLine ts) (loop ts (namesBody ts file) i)
      (readNames file (ts.drop i)) := by
  refine agrees_loop (fun i t again h hagain => ?_) hi
  have hi := lt_of_drop h
  rw [h, namesBody, readNames_eq, bind_of_ok (check_of_drop h (by decide))]
  by_cases hclose : t.kind = .rightParen
  · rw [if_pos (by simpa using hclose), if_pos hclose,
      bind_of_ok (consume_of_drop (by decide) h hclose)]
    exact .done (Nat.le_succ i) (succ_lt hends h (by simp [hclose])) ⟨t, previous_of_drop h, rfl⟩
  · rw [if_neg (by simpa using hclose), if_neg hclose, ← h]
    apply (agrees_expectIdentifier hends "dependency" hi).bind
    rintro name j - - - hj ⟨rfl, rfl⟩
    obtain ⟨u, hu⟩ := exists_next hj
    dsimp only
    rw [bind_of_ok (check_of_drop hu (by decide)), hu, nextToken_cons]
    by_cases hcomma : u.kind = .comma
    · rw [if_pos (by simpa using hcomma), if_pos hcomma,
        bind_of_ok (advance_of_drop hu (by simp [hcomma]))]
      -- the loop goes on at a larger index
      apply ((hagain _ (by omega) (succ_lt hends hu (by simp [hcomma]))).bind _).mono
        (Nat.le_succ _)
      rintro names k - - - hk ⟨v, hv, rfl⟩
      exact .done (Nat.le_refl k) hk ⟨v, hv, rfl⟩
    · rw [if_neg (by simpa using hcomma), if_neg hcomma, ← hu]
      apply (agrees_consume hends (by decide) hj).bind
      rintro - k - - - hk ⟨rfl, rfl⟩
      exact .done (Nat.le_refl _) hk ⟨u, previous_of_drop hu, rfl⟩

/-- An optional mark is taken if it is there. -/
theorem agrees_optional (file : String) (hi : i < ts.length) :
    Agrees ts file i (Leaves ts) (optional ts i) (.ok (readOptional (ts.drop i))) := by
  obtain ⟨⟨kind, l, p⟩, h⟩ := exists_next hi
  rw [h, optional, bind_of_ok (check_of_drop h (by decide))]
  cases kind with
  | question =>
    rw [if_pos (by simp), bind_of_ok (advance_of_drop h (by simp))]
    exact .done (Nat.le_succ i) (succ_lt hends h (by simp)) rfl
  | _ => exact .done (Nat.le_refl i) hi (by rw [Leaves, h]; rfl)

/-- The arguments in parentheses are read alike. -/
theorem agrees_args (hi : i < ts.length) :
    Agrees ts file i (Leaves ts) (loop ts (argsBody ts file) i) (readArgs file (ts.drop i)) := by
  refine agrees_loop (fun i t again h hagain => ?_) hi
  have hi := lt_of_drop h
  rw [h, argsBody, readArgs_eq, bind_of_ok (check_of_drop h (by decide))]
  by_cases hclose : t.kind = .rightParen
  · rw [if_pos (by simpa using hclose), if_pos hclose,
      bind_of_ok (consume_of_drop (by decide) h hclose)]
    exact .done (Nat.le_succ i) (succ_lt hends h (by simp [hclose])) rfl
  · rw [if_neg (by simpa using hclose), if_neg hclose, ← h]
    apply (agrees_expectIdentifier hends "init argument name" hi).bind
    rintro name j - - - hj ⟨rfl, rfl⟩
    obtain ⟨isOptional, k, hmark, hjk, hk, hleft⟩ := (agrees_optional hends file hj).of_ok
    dsimp only
    rw [bind_of_ok hmark, hleft]
    apply ((agrees_type hends hk).bind _).mono hjk
    rintro type l - - hkl hl rfl
    obtain ⟨u, hu⟩ := exists_next hl
    dsimp only
    rw [bind_of_ok (check_of_drop hu (by decide)), hu, nextToken_cons]
    by_cases hcomma : u.kind = .comma
    · rw [if_pos (by simpa using hcomma), if_pos hcomma,
        bind_of_ok (advance_of_drop hu (by simp [hcomma]))]
      apply ((hagain _ (by omega) (succ_lt hends hu (by simp [hcomma]))).bind _).mono
        (Nat.le_succ _)
      rintro args m - - - hm rfl
      exact .done (Nat.le_refl m) hm rfl
    · rw [if_neg (by simpa using hcomma), if_neg hcomma, ← hu]
      apply (agrees_consume hends (by decide) hl).bind
      rintro - m - - - hm ⟨rfl, rfl⟩
      exact .done (Nat.le_refl _) hm rfl

/-! ## §5. Items. -/

/-- What follows the parenthesis of a field is read alike. -/
theorem agrees_fieldArgs (h : ts.drop i = t :: ts.drop (i + 1)) (ht : t.kind = .leftParen) :
    Agrees ts file i (LeavesLine ts) (fieldArgs ts file i)
      (readNames file (ts.drop (i + 1))) := by
  rw [fieldArgs, bind_of_ok (consume_of_drop (by decide) h ht)]
  exact (agrees_names hends (succ_lt hends h (by simp [ht]))).mono (Nat.le_succ i)

/-- The references of a field are read alike, if they start on its line. -/
theorem agrees_fieldRefs (hprevious : previous ts i = .ok (t, i)) (hi : i < ts.length) :
    Agrees ts file i (LeavesLine ts) (fieldRefs ts file i)
      (readRefs file t.pos.line (ts.drop i)) := by
  obtain ⟨u, hu⟩ := exists_next hi
  rw [fieldRefs, readRefs, bind_of_ok (check_of_drop hu (by decide)), hu, nextToken_cons]
  by_cases hparen : u.kind = .leftParen
  · rw [if_pos (by simpa using hparen), if_pos hparen]
    apply (agrees_fieldArgs hends hu hparen).bind
    rintro refs j - - - hj ⟨v, hv, rfl⟩
    exact .done (Nat.le_refl j) hj ⟨v, hv, rfl⟩
  · rw [if_neg (by simpa using hparen), if_neg hparen, ← hu]
    exact .done (Nat.le_refl i) hi ⟨t, hprevious, rfl⟩

/-- The type of a field is read alike, if it starts on its line. -/
theorem agrees_fieldType (hprevious : previous ts i = .ok (t, i)) (hi : i < ts.length) :
    Agrees ts file i (Leaves ts) (fieldType ts file i)
      (readFieldType file t.pos.line (ts.drop i)) := by
  obtain ⟨u, hu⟩ := exists_next hi
  rw [fieldType, bind_of_ok hprevious, bind_of_ok (peek_of_drop hu), readFieldType_eq,
    show nextToken (ts.drop i) = u by rw [hu, nextToken_cons]]
  split
  · apply (agrees_type hends hi).bind
    rintro type j - - - hj rfl
    exact .done (Nat.le_refl j) hj rfl
  · exact .done (Nat.le_refl i) hi rfl

/-- A field is read alike. -/
theorem agrees_basicField (hi : i < ts.length) :
    Agrees ts file i (Leaves ts) (basicField ts file i) (readField file (ts.drop i)) := by
  obtain ⟨t, h⟩ := exists_next hi
  rw [h, basicField, readField_eq, ← h]
  apply (agrees_expectIdentifier hends "field name" hi).bind
  rintro name j - - - hj ⟨rfl, rfl⟩
  apply (agrees_fieldRefs hends (previous_of_drop h) hj).bind
  rintro refs k - - - hk ⟨u, hu, rfl⟩
  apply (agrees_fieldType hends hu hk).bind
  rintro type l - - - hl rfl
  exact .done (Nat.le_refl l) hl rfl

/-- An init is read alike. -/
theorem agrees_init (h : ts.drop i = t :: ts.drop (i + 1)) (ht : t.kind ≠ .eof)
    {u : Token} (hu : ts.drop (i + 1) = u :: ts.drop (i + 1 + 1)) (hparen : u.kind = .leftParen) :
    Agrees ts file i (Leaves ts) (init ts file i) (readArgs file (ts.drop (i + 1 + 1))) := by
  rw [init, bind_of_ok (advance_of_drop h ht), bind_of_ok (consume_of_drop (by decide) hu hparen)]
  exact (agrees_args hends (succ_lt hends hu (by simp [hparen]))).mono (by omega)

/-- The alias of an embedded resource is read alike, wherever it stands. -/
theorem agrees_embedAlias (file : String) (hi : i < ts.length) :
    Agrees ts file i (Leaves ts) (embedAlias ts file i) (.ok (readAlias (ts.drop i))) := by
  obtain ⟨t, h⟩ := exists_next hi
  rw [h, embedAlias, readAlias_eq, bind_of_ok (wordBefore_of_drop hends h)]
  split
  · next has =>
    rw [Bool.and_eq_true] at has
    have ht := ne_eof_of_isWord has.1
    obtain ⟨⟨kind, l, p⟩, hu⟩ := exists_next (succ_lt hends h ht)
    rw [hu, nextToken_cons] at has ⊢
    cases kind with
    | identifier given =>
      have hname : TokenKind.identifier given ≠ .eof := by simp
      rw [bind_of_ok (advance_of_drop h ht), expectIdentifier,
        bind_of_ok (expectText_of_drop hu hname rfl _ _)]
      exact .done (by omega) (succ_lt hends hu hname) rfl
    | _ => cases has.2
  · exact .done (Nat.le_refl i) hi (by rw [Leaves, h])

/-- An item is read alike, whatever it is. -/
theorem agrees_itemKind (hi : i < ts.length) :
    Agrees ts file i (Leaves ts) (itemKind ts file i) (readItemKind file (ts.drop i)) := by
  obtain ⟨t, h⟩ := exists_next hi
  rw [h, itemKind, readItemKind_eq, bind_of_ok (wordBefore_of_drop hends h)]
  split
  · next hinit =>
    rw [Bool.and_eq_true, decide_eq_true_eq] at hinit
    have ht := ne_eof_of_isWord hinit.1
    obtain ⟨u, hu⟩ := exists_next (succ_lt hends h ht)
    rw [hu, nextToken_cons] at hinit
    rw [hu, List.tail_cons]
    apply (agrees_init hends h ht hu hinit.2).bind
    rintro args j - - - hj rfl
    exact .done (Nat.le_refl j) hj rfl
  · rw [bind_of_ok (wordBefore_of_drop hends h)]
    split
    · next hembed =>
      rw [Bool.and_eq_true] at hembed
      have ht := ne_eof_of_isWord hembed.1
      rw [bind_of_ok (advance_of_drop h ht)]
      apply ((agrees_expectIdentifier hends "embedded resource" (succ_lt hends h ht)).bind _).mono
        (Nat.le_succ i)
      rintro name j - - - hj ⟨rfl, rfl⟩
      obtain ⟨given, k, halias, hjk, hk, hleft⟩ := (agrees_embedAlias hends file hj).of_ok
      dsimp only
      rw [bind_of_ok halias, hleft]
      exact .done hjk hk rfl
    · rw [← h]
      apply (agrees_basicField hends hi).bind
      rintro decl j - - - hj rfl
      exact .done (Nat.le_refl j) hj rfl

/-- The items of a body are read alike, with the comments before each. -/
theorem agrees_items (id : String) (hi : i < ts.length) :
    Agrees ts file i (Leaves ts) (loop ts (itemsBody ts file id) i)
      (readItems file id (ts.drop i)) := by
  refine agrees_loop (fun i t again h hagain => ?_) hi
  obtain ⟨comments, j, hcomments, hij, hj, hleft⟩ :=
    (agrees_collectComments hends file (lt_of_drop h)).of_ok
  obtain ⟨u, hu⟩ := exists_next hj
  rw [Leaves] at hleft
  rw [itemsBody, readItems_eq, bind_of_ok hcomments, hleft]
  dsimp only
  rw [show nextToken (ts.drop j) = u by rw [hu, nextToken_cons],
    bind_of_ok (check_of_drop hu (by decide))]
  by_cases hclose : u.kind = .rightBrace
  · rw [if_pos (by simpa using hclose), if_pos hclose,
      bind_of_ok (advance_of_drop hu (by simp [hclose])), hu]
    exact .done (by omega) (succ_lt hends hu (by simp [hclose])) rfl
  · rw [if_neg (by simpa using hclose), if_neg hclose, bind_of_ok (atEnd_of_drop hu)]
    by_cases hend : u.kind = .eof
    · rw [if_pos (by simpa using hend), if_pos hend, hu]
      exact (agrees_expected hu _ _).mono hij
    · rw [if_neg (by simpa using hend), if_neg hend, bind_of_ok (peek_of_drop hu)]
      apply ((agrees_itemKind hends hj).bind _).mono hij
      rintro kind k - hkind - hk rfl
      -- an item takes a token at least
      have hlt := lt_of_length_lt hj (readItemKind_lt hkind)
      apply (hagain k (by omega) hk).bind
      rintro items l - - - hl rfl
      exact .done (Nat.le_refl l) hl rfl

/-! ## §6. Bodies and declarations. -/

/-- The element of a list is read alike. -/
theorem agrees_listType (h : ts.drop i = t :: ts.drop (i + 1)) (ht : t.kind = .leftBracket) :
    Agrees ts file i (Leaves ts) (listType ts file i) (readListHead file (ts.drop (i + 1))) := by
  -- the line is not asked for; it is that of the name
  rw [listType, bind_of_ok (consume_of_drop (by decide) h ht),
    readListHead_eq (nextToken (ts.drop (i + 1 + 1))).pos.line]
  have hnext := succ_lt hends h (by simp [ht])
  apply ((agrees_consume hends (by decide) hnext).bind _).mono (Nat.le_succ i)
  rintro - j - - - hj ⟨rfl, rfl⟩
  obtain ⟨u, hu⟩ := exists_next hj
  rw [show nextToken (ts.drop (i + 1 + 1)) = u by rw [hu, nextToken_cons]]
  apply (agrees_expectIdentifier hends "list element type" hj).bind
  rintro element k - - - hk ⟨rfl, rfl⟩
  apply (agrees_fieldRefs hends (previous_of_drop hu) hk).bind
  rintro refs l - - - hl ⟨v, -, rfl⟩
  exact .done (Nat.le_refl l) hl rfl

/-- The head of a list is read alike, if there is one. -/
theorem agrees_listHead (hi : i < ts.length) :
    Agrees ts file i (Leaves ts) (listHead ts file i) (readHead file (ts.drop i)) := by
  obtain ⟨t, h⟩ := exists_next hi
  rw [h, listHead, readHead, bind_of_ok (check_of_drop h (by decide)), nextToken_cons]
  by_cases hbracket : t.kind = .leftBracket
  · rw [if_pos (by simpa using hbracket), if_pos hbracket, List.tail_cons]
    apply (agrees_listType hends h hbracket).bind
    rintro head j - - - hj rfl
    exact .done (Nat.le_refl j) hj rfl
  · rw [if_neg (by simpa using hbracket), if_neg hbracket, ← h]
    exact .done (Nat.le_refl i) hi rfl

/-- Both have the same head and items, and the same tokens left. -/
def LeavesBody (ts : List Token) (a : Option ListHead × List Item) (j : Nat)
    (b : Option ListHead × List Item × List Token) : Prop := b = (a.1, a.2, ts.drop j)

/-- A body is read alike. -/
theorem agrees_body (id : String) (hi : i < ts.length) :
    Agrees ts file i (LeavesBody ts) (body ts file id i) (readBody file id (ts.drop i)) := by
  obtain ⟨comments, j, hcomments, hij, hj, hleft⟩ :=
    (agrees_collectComments hends file hi).of_ok
  rw [Leaves] at hleft
  rw [body, readBody_eq, bind_of_ok hcomments, hleft]
  apply ((agrees_listHead hends hj).bind _).mono hij
  rintro head k - - - hk rfl
  apply (agrees_items hends id hk).bind
  rintro items l - - - hl rfl
  exact .done (Nat.le_refl l) hl rfl

/-- A modifier is taken if it is there. -/
theorem agrees_matchModifier (file word : String) (hi : i < ts.length) :
    Agrees ts file i (Leaves ts) (matchModifier ts word i)
      (.ok (readModifier word (ts.drop i))) := by
  obtain ⟨t, h⟩ := exists_next hi
  rw [h, matchModifier, readModifier_eq, bind_of_ok (wordBefore_of_drop hends h)]
  split
  · next hword =>
    rw [Bool.and_eq_true] at hword
    have ht := ne_eof_of_isWord hword.1
    rw [bind_of_ok (advance_of_drop h ht)]
    exact .done (Nat.le_succ i) (succ_lt hends h ht) rfl
  · exact .done (Nat.le_refl i) hi (by rw [Leaves, h])

/-- The defaults of a resource are read alike. -/
theorem agrees_defaults (hi : i < ts.length) :
    Agrees ts file i (Leaves ts) (defaults ts file i) (readDefaults file (ts.drop i)) := by
  obtain ⟨t, h⟩ := exists_next hi
  rw [h, defaults, readDefaults_eq, bind_of_ok (check_of_drop h (by decide))]
  by_cases hat : t.kind = .atSign
  · have hnext := succ_lt hends h (by simp [hat])
    obtain ⟨u, hu⟩ := exists_next hnext
    rw [if_pos (by simpa using hat), if_pos hat, bind_of_ok (advance_of_drop h (by simp [hat])),
      bind_of_ok (peek_of_drop hu), hu, nextToken_cons]
    split
    · next hword =>
      have hu' := ne_eof_of_isWord hword
      rw [bind_of_ok (advance_of_drop hu hu'), List.tail_cons]
      apply ((agrees_consume hends (by decide) (succ_lt hends hu hu')).bind _).mono (by omega)
      rintro - j - - - hj ⟨rfl, rfl⟩
      apply (agrees_expectString hends hj).bind
      rintro value k - - - hk ⟨rfl, rfl⟩
      apply (agrees_consume hends (by decide) hk).bind
      rintro - l - - - hl ⟨rfl, rfl⟩
      exact .done (Nat.le_refl _) hl rfl
    · exact (agrees_expected hu _ _).mono (Nat.le_succ i)
  · rw [if_neg (by simpa using hat), if_neg hat, ← h]
    exact .done (Nat.le_refl i) hi rfl

/-- A body is read alike, or left out. -/
theorem agrees_optionalBody (id : String) (hi : i < ts.length) :
    Agrees ts file i (LeavesBody ts) (optionalBody ts file id i)
      (readOptionalBody file id (ts.drop i)) := by
  obtain ⟨t, h⟩ := exists_next hi
  rw [h, optionalBody, readOptionalBody, bind_of_ok (check_of_drop h (by decide)), nextToken_cons]
  by_cases hbrace : t.kind = .leftBrace
  · rw [if_pos (by simpa using hbrace), if_pos hbrace,
      bind_of_ok (advance_of_drop h (by simp [hbrace])), List.tail_cons]
    exact (agrees_body hends id (succ_lt hends h (by simp [hbrace]))).mono (Nat.le_succ i)
  · rw [if_neg (by simpa using hbrace), if_neg hbrace, ← h]
    exact .done (Nat.le_refl i) hi rfl

/-- A resource is read alike. -/
theorem agrees_resource (comments : List String) (hi : i < ts.length) :
    Agrees ts file i (Leaves ts) (resource ts file comments i)
      (readDeclaration file comments (ts.drop i)) := by
  obtain ⟨isPrivate, j, hprivate, hij, hj, hleft⟩ :=
    (agrees_matchModifier hends file "private" hi).of_ok
  obtain ⟨isExtension, k, hextension, hjk, hk, hleft'⟩ :=
    (agrees_matchModifier hends file "extend" hj).of_ok
  obtain ⟨t, h⟩ := exists_next hk
  rw [Leaves] at hleft hleft'
  rw [resource, readDeclaration_eq, bind_of_ok hprivate, bind_of_ok hextension,
    bind_of_ok (peek_of_drop h), hleft, hleft']
  dsimp only
  rw [show nextToken (ts.drop k) = t by rw [h, nextToken_cons]]
  apply ((agrees_expectIdentifier hends "resource name" hk).bind _).mono (Nat.le_trans hij hjk)
  rintro id l - - - hl ⟨rfl, rfl⟩
  apply (agrees_defaults hends hl).bind
  rintro defaults m - - - hm rfl
  apply (agrees_optionalBody hends id hm).bind
  rintro parts n - - - hn rfl
  exact .done (Nat.le_refl n) hn rfl

/-! ## §7. Files. -/

/-- Whether an option follows is said three tokens ahead. -/
theorem optionAhead_of_drop (h : ts.drop i = t :: ts.drop (i + 1)) : optionAhead ts i
    = .ok (t.kind.isWord "option" && (nextToken (ts.drop (i + 1))).kind.isIdentifier
        && (nextToken (ts.drop (i + 1)).tail).kind = .assign, i) := by
  rw [optionAhead, bind_of_ok (wordBefore_of_drop hends h)]
  cases hword : t.kind.isWord "option" && (nextToken (ts.drop (i + 1))).kind.isIdentifier with
  | false => rfl
  | true =>
    rw [Bool.and_eq_true] at hword
    obtain ⟨u, hu⟩ := exists_next (succ_lt hends h (ne_eof_of_isWord hword.1))
    rw [hu, nextToken_cons] at hword
    have hname : u.kind ≠ .eof := by
      intro heof
      rw [heof] at hword
      cases hword.2
    obtain ⟨v, hv⟩ := exists_next (succ_lt hends hu hname)
    rw [if_pos rfl, hu, List.tail_cons, hv, nextToken_cons, Bool.true_and]
    exact bind_pure_of_ok (peekAt_of_drop (show ts.drop (i + 2) = _ from hv)) _

/-- A declaration at the top is read alike, whatever it is. -/
theorem agrees_topLevel (comments : List String) (hi : i < ts.length) :
    Agrees ts file i (Leaves ts) (topLevel ts file comments i)
      (readTopLevel file comments (ts.drop i)) := by
  obtain ⟨t, h⟩ := exists_next hi
  rw [h, topLevel, readTopLevel_eq, bind_of_ok (wordBefore_of_drop hends h)]
  split
  · next himport =>
    rw [Bool.and_eq_true] at himport
    have ht := ne_eof_of_isWord himport.1
    rw [bind_of_ok (advance_of_drop h ht)]
    apply ((agrees_expectString hends (succ_lt hends h ht)).bind _).mono (Nat.le_succ i)
    rintro path j - - - hj ⟨rfl, rfl⟩
    exact .done (Nat.le_refl _) hj rfl
  · rw [bind_of_ok (optionAhead_of_drop hends h)]
    split
    · next hoption =>
      rw [Bool.and_eq_true, Bool.and_eq_true] at hoption
      have ht := ne_eof_of_isWord hoption.1.1
      rw [bind_of_ok (advance_of_drop h ht)]
      apply ((agrees_expectIdentifier hends "option name" (succ_lt hends h ht)).bind _).mono
        (Nat.le_succ i)
      rintro name j - - - hj ⟨rfl, rfl⟩
      apply (agrees_consume hends (by decide) hj).bind
      rintro - k - - - hk ⟨rfl, rfl⟩
      apply (agrees_expectString hends hk).bind
      rintro value l - - - hl ⟨rfl, rfl⟩
      exact .done (Nat.le_refl _) hl rfl
    · rw [← h]
      apply (agrees_resource hends comments hi).bind
      rintro d j - - - hj rfl
      exact .done (Nat.le_refl j) hj rfl

/-- Both say the same. -/
def Says (a : α) (_ : Nat) (b : α) : Prop := b = a

/-- All declarations of a file are read alike. -/
theorem agrees_tops (hi : i < ts.length) :
    Agrees ts file i Says (loop ts (fileBody ts file) i) (readTopLevels file (ts.drop i)) := by
  refine agrees_loop (fun i t again h hagain => ?_) hi
  obtain ⟨comments, j, hcomments, hij, hj, hleft⟩ :=
    (agrees_collectComments hends file (lt_of_drop h)).of_ok
  obtain ⟨u, hu⟩ := exists_next hj
  rw [Leaves] at hleft
  rw [fileBody, readTopLevels_eq, bind_of_ok hcomments, hleft]
  dsimp only
  rw [show nextToken (ts.drop j) = u by rw [hu, nextToken_cons], bind_of_ok (atEnd_of_drop hu)]
  by_cases hend : u.kind = .eof
  · rw [if_pos (by simpa using hend), if_pos hend]
    exact .done hij hj rfl
  · rw [if_neg (by simpa using hend), if_neg hend]
    apply ((agrees_topLevel hends comments hj).bind _).mono hij
    rintro top k - htop - hk rfl
    have hlt := lt_of_length_lt hj (readTopLevel_lt htop)
    apply (hagain k (by omega) hk).bind
    rintro tops l - - - hl rfl
    exact .done (Nat.le_refl l) hl rfl

end Agreement

/-! ## §8. The parser as a whole. -/

/-- The file that some tokens spell, the cursor moving over them from the first one;
nothing if it does what it must not do. -/
def parse (ts : List Token) (file : String) : Option (Except Error File) :=
  answer? (wholeFile ts file) 0

/-- **Parsing with a cursor ends without a fault, with what the head of the list gives;
a refusal is at the place of a token.** -/
theorem parse_eq {ts : List Token} (hends : EndsMarked ts) (file : String) :
    parse ts file = some (File.ofTokens ts file) ∧
      ∀ e, File.ofTokens ts file = .error e →
        ∃ t ∈ ts, ∃ m, e = .syntaxError file t.pos.line t.pos.column m := by
  have hpos : 0 < ts.length := by
    cases ts with
    | nil => cases hends
    | cons t us => exact Nat.succ_pos _
  have hagrees : Agrees ts file 0 Says (loop ts (fileBody ts file) 0) (readTopLevels file ts) :=
    agrees_tops hends hpos
  rw [parse, answer?, wholeFile, File.ofTokens]
  generalize hloop : loop ts (fileBody ts file) 0 = o at hagrees
  generalize readTopLevels file ts = r at hagrees ⊢
  cases hagrees with
  | @refused t ht m =>
    rw [bind_of_error hloop]
    refine ⟨rfl, fun e he => ?_⟩
    cases he
    exact ⟨t, ht, m, rfl⟩
  | done _ _ hsays =>
    rw [bind_of_ok hloop, hsays]
    refine ⟨rfl, fun e he => ?_⟩
    cases he

end LazyFields.Source.Parser

namespace LazyFields.Source

open LazyFields.Text Cursor

/-- **Scanning and parsing end, and never do what they must not do.**  Whatever the text,
the cursor over it stays within it, and the refusal of a text is at the start of the
token that cannot be read.  Whatever tokens end in an end mark, the cursor over them
stays within them, does not step back from the first, and has moved on whenever a loop
or a recursive call starts over; it answers a file, or refuses at one of the tokens. -/
theorem reads_without_fault (file : String) :
    (∀ source, Scanner.scan source file = some (Token.scan source file) ∧
      ∀ e, Token.scan source file = .error e →
        ∃ parts gap c cs m, source.toList = textOf parts ++ gap ++ c :: cs ∧ LaidFrom .start parts
          ∧ (∀ d ∈ gap, isGap d = true) ∧ isGap c = false ∧ lexeme c cs = .error m
          ∧ e = .syntaxError file (placeAfter (textOf parts ++ gap)).line
              (placeAfter (textOf parts ++ gap)).column m)
      ∧ ∀ ts, Parser.EndsMarked ts → Parser.parse ts file = some (File.ofTokens ts file) ∧
        ∀ e, File.ofTokens ts file = .error e →
          ∃ t ∈ ts, ∃ m, e = .syntaxError file t.pos.line t.pos.column m := by
  refine ⟨fun source => ⟨Scanner.scan_eq source file, fun e he => ?_⟩,
    fun ts hends => Parser.parse_eq hends file⟩
  obtain ⟨parts, gap, rest, hcut⟩ := scanFrom_cut file .start source.toList
  cases rest with
  | nil => cases he.symm.trans hcut.halts
  | cons c cs =>
    obtain ⟨hc, m, hm, hscan⟩ := hcut.halts
    refine ⟨parts, gap, c, cs, m, hcut.whole, hcut.laid, hcut.blanks, hc, hm, ?_⟩
    rw [← start_after]
    exact Except.error.inj (he.symm.trans hscan)

/-- A body that is never closed, and a comment where an item should start. -/
def unclosedTokens : List Token :=
  [⟨.identifier "r", "r", ⟨1, 1⟩⟩, ⟨.leftBrace, "\x7b", ⟨1, 3⟩⟩,
    ⟨.comment "// a", "// a", ⟨2, 3⟩⟩, ⟨.eof, "", ⟨3, 1⟩⟩]

/-- The end mark is refused, after the comment is skipped. -/
theorem reads_without_fault_unclosed :
    Parser.EndsMarked unclosedTokens ∧ Parser.parse unclosedTokens "f.lr"
      = some (.error (.syntaxError "f.lr" 3 1
          "Expected `\x7d`, found end of file\n\nHelp: resource `r` is never closed")) := by
  have hends : Parser.EndsMarked unclosedTokens := rfl
  refine ⟨hends, (((reads_without_fault "f.lr").2 unclosedTokens hends).1).trans ?_⟩
  decide +kernel

end LazyFields.Source
