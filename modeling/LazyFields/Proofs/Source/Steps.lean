/-
  LazyFields.Proofs.Source.Steps
  ────────────────────────────────
  **THE READERS, ONE STEP AT A TIME.**

  Each reader of the grammar, written as what it does with the next tokens and then
  with the readers it is made of.  The readers themselves match on whole tokens;
  here a token is looked at by its kind, and the parts follow each other in the
  order in which they are read.
-/
import LazyFields.Source.Parse

namespace LazyFields.Source

variable {file id : String}

/-! ## §1. The next token. -/

theorem nextToken_cons (t : Token) (us : List Token) : nextToken (t :: us) = t := rfl

/-- A token of a kind other than the end mark is there. -/
theorem eq_cons_of_nextToken {us : List Token} {kind : TokenKind} (h : (nextToken us).kind = kind)
    (hkind : kind ≠ .eof) : ∃ l p, us = ⟨kind, l, p⟩ :: us.tail := by
  cases us with
  | nil => exact absurd h.symm hkind
  | cons u vs =>
    subst h
    exact ⟨u.lexeme, u.pos, rfl⟩

/-- Two steps succeed if both do. -/
theorem bind_eq_ok {α β : Type} {x : Except Error α} {f : α → Except Error β} {b : β} :
    x >>= f = .ok b ↔ ∃ a, x = .ok a ∧ f a = .ok b := by
  cases x with
  | error e =>
    constructor
    · intro h
      cases h
    · intro h
      obtain ⟨a, ha, -⟩ := h
      cases ha
  | ok a =>
    constructor
    · intro h
      exact ⟨a, rfl, h⟩
    · intro h
      obtain ⟨a', ha, hf⟩ := h
      cases ha
      exact hf

/-- The text of a name. -/
def TokenKind.name? : TokenKind → Option String
  | identifier name => some name
  | _ => none

/-- The value of a string literal. -/
def TokenKind.string? : TokenKind → Option String
  | string value => some value
  | _ => none

/-- Read one token that carries a text of the given sort. -/
def takeText (file : String) (text? : TokenKind → Option String) (what : String)
    (help : Option String) (us : List Token) : Except Error (String × List Token) :=
  match text? (nextToken us).kind with
  | some text => .ok (text, us.tail)
  | none => .error (unexpected file what help us)

/-- Expecting a name is taking a text. -/
theorem expectName_eq (what : String) (us : List Token) :
    expectName file what us = takeText file TokenKind.name? what none us := by
  cases us with
  | nil => rfl
  | cons u us =>
    obtain ⟨kind, l, p⟩ := u
    cases kind <;> rfl

/-- So is taking a string. -/
theorem takeString_eq (us : List Token) :
    takeString file us = takeText file TokenKind.string? "string" none us := by
  cases us with
  | nil => rfl
  | cons u us =>
    obtain ⟨kind, l, p⟩ := u
    cases kind <;> rfl

/-! ## §2. Names, types and arguments. -/

/-- Read the key of a map. -/
def takeKey (file : String) : List Token → Except Error (String × List Token) :=
  takeText file TokenKind.name? "simple key type"
    (some "map keys must be simple types, e.g. map[string]int")

/-- How a type is read, by its first token. -/
theorem readType_eq (t : Token) (us : List Token) : readType file (t :: us) =
    if t.kind = .leftBracket then do
      let vs ← takeToken file .rightBracket us
      let (element, rest) ← readType file vs
      return (.list element, rest)
    else if t.kind.isWord "map" && (nextToken us).kind = .leftBracket then do
      let (key, vs) ← takeKey file us.tail
      let ws ← takeToken file .rightBracket vs
      let (value, rest) ← readType file ws
      return (.map key value, rest)
    else do
      let (name, rest) ← expectName file "type" (t :: us)
      return (.named name, rest) := by
  obtain ⟨kind, l, p⟩ := t
  cases kind with
  | leftBracket =>
    cases us with
    | nil => rfl
    | cons u us =>
      obtain ⟨kind', l', p'⟩ := u
      cases kind' with
      | rightBracket =>
        rw [readType]
        show _ = (readType file us >>= _)
        cases readType file us <;> rfl
      | _ => rfl
  | identifier name =>
    by_cases hmap : name = "map" ∧ (nextToken us).kind = .leftBracket
    · obtain ⟨rfl, hbracket⟩ := hmap
      obtain ⟨l', p', hus⟩ := eq_cons_of_nextToken hbracket (by decide)
      rw [hus]
      cases us.tail with
      | nil => rfl
      | cons v ws =>
        obtain ⟨kind', l'', p''⟩ := v
        cases kind' with
        | identifier key =>
          cases ws with
          | nil => rfl
          | cons w xs =>
            obtain ⟨kind', l'', p''⟩ := w
            cases kind' with
            | rightBracket =>
              rw [readType]
              show _ = (readType file xs >>= _)
              cases readType file xs <;> rfl
            | _ => rfl
        | _ => rfl
    · have hword : (TokenKind.isWord "map" (.identifier name) && (nextToken us).kind = .leftBracket)
          = false := by
        simpa [TokenKind.isWord] using hmap
      rw [if_neg (by simp), hword]
      unfold readType
      split
      · rw [if_neg fun hname => hmap ⟨hname, rfl⟩]
        rfl
      · rfl
  | _ => rfl

/-- How names in parentheses are read, one at a time. -/
theorem readNames_eq (t : Token) (us : List Token) : readNames file (t :: us) =
    if t.kind = .rightParen then .ok ([], t.pos.line, us)
    else do
      let (name, vs) ← expectName file "dependency" (t :: us)
      if (nextToken vs).kind = .comma then
        let (names, line, rest) ← readNames file vs.tail
        return (name :: names, line, rest)
      else
        let rest ← takeToken file .rightParen vs
        return ([name], (nextToken vs).pos.line, rest) := by
  obtain ⟨kind, l, p⟩ := t
  cases kind with
  | identifier name =>
    cases us with
    | nil => rfl
    | cons u us =>
      obtain ⟨kind', l', p'⟩ := u
      cases kind' with
      | comma =>
        rw [readNames]
        show _ = (readNames file us >>= _)
        cases readNames file us <;> rfl
      | _ => rfl
  | _ => rfl

/-- How arguments in parentheses are read, one at a time. -/
theorem readArgs_eq (t : Token) (us : List Token) : readArgs file (t :: us) =
    if t.kind = .rightParen then .ok ([], us)
    else do
      let (name, vs) ← expectName file "init argument name" (t :: us)
      let (type, ws) ← readType file (readOptional vs).2
      if (nextToken ws).kind = .comma then
        let (args, rest) ← readArgs file ws.tail
        return (⟨name, (readOptional vs).1, type⟩ :: args, rest)
      else
        let rest ← takeToken file .rightParen ws
        return ([⟨name, (readOptional vs).1, type⟩], rest) := by
  obtain ⟨kind, l, p⟩ := t
  cases kind with
  | identifier name =>
    rw [readArgs]
    show _ = (readType file (readOptional us).2 >>= _)
    split
    · next e he =>
      rw [he]
      rfl
    · next type ws hws =>
      conv => rhs; rw [hws]
      cases ws with
      | nil => rfl
      | cons w xs =>
        obtain ⟨kind', l', p'⟩ := w
        cases kind' with
        | comma =>
          show _ = (readArgs file xs >>= _)
          dsimp only
          cases readArgs file xs <;> rfl
        | _ => rfl
  | rightParen =>
    rw [readArgs]
    rfl
  | _ =>
    rw [readArgs]
    · rfl
    · simp
    · simp

/-! ## §3. Items. -/

/-- The names in parentheses, if one is next, and the line where what was read ends. -/
def readRefs (file : String) (line : Nat) (us : List Token) :
    Except Error (Option (List String) × Nat × List Token) :=
  if (nextToken us).kind = .leftParen then do
    let (refs, line, rest) ← readNames file us.tail
    return (some refs, line, rest)
  else .ok (none, line, us)

/-- How the type of a field is read, if it stands on the line. -/
theorem readFieldType_eq (line : Nat) (us : List Token) : readFieldType file line us =
    if ((nextToken us).kind.isIdentifier || (nextToken us).kind = .leftBracket)
        && (nextToken us).pos.line = line then do
      let (type, rest) ← readType file us
      return (some type, rest)
    else .ok (none, us) := by
  unfold readFieldType
  cases readType file us <;> rfl

/-- How a field is read: its name, its references, its type. -/
theorem readField_eq (t : Token) (us : List Token) : readField file (t :: us) = do
    let (name, vs) ← expectName file "field name" (t :: us)
    let (refs, line, ws) ← readRefs file t.pos.line vs
    let (type, rest) ← readFieldType file line ws
    return (⟨name, refs, type⟩, rest) := by
  obtain ⟨kind, l, p⟩ := t
  cases kind with
  | identifier name =>
    show _ = (readRefs file p.line us >>= _)
    unfold readRefs
    split
    · next hparen =>
      obtain ⟨l', p', hus⟩ := eq_cons_of_nextToken hparen (by decide)
      rw [hus, readField]
      show _ = ((readNames file us.tail >>= _) >>= _)
      cases readNames file us.tail with
      | error e => rfl
      | ok b =>
        show _ = (readFieldType file b.2.1 b.2.2 >>= _)
        dsimp only
        cases readFieldType file b.2.1 b.2.2 <;> rfl
    · next hparen =>
      rw [readField]
      · show _ = (readFieldType file p.line us >>= _)
        dsimp only
        cases readFieldType file p.line us <;> rfl
      · rintro l' p' vs rfl
        exact hparen rfl
  | _ => rfl

/-- How an alias is read, if it is there. -/
theorem readAlias_eq (t : Token) (us : List Token) : readAlias (t :: us) =
    if t.kind.isWord "as" && (nextToken us).kind.isIdentifier then
      ((nextToken us).kind.name?, us.tail)
    else (none, t :: us) := by
  cases us with
  | nil => simp [readAlias, nextToken, TokenKind.isIdentifier]
  | cons u us => 
    obtain ⟨kind, l, p⟩ := u
    cases kind with
    | identifier name => 
      simp only [readAlias, nextToken, TokenKind.isIdentifier, List.headD_cons, Bool.and_true]
      rfl
    | _ => simp [readAlias, nextToken, TokenKind.isIdentifier]

/-- How an item is read: an init, an embedded resource or a field. -/
theorem readItemKind_eq (t : Token) (us : List Token) : readItemKind file (t :: us) =
    if t.kind.isWord "init" && (nextToken us).kind = .leftParen then do
      let (args, rest) ← readArgs file us.tail
      return (.init args, rest)
    else if t.kind.isWord "embed" && (nextToken us).kind.isIdentifier then do
      let (name, vs) ← expectName file "embedded resource" us
      return (.embed name (readAlias vs).1, (readAlias vs).2)
    else do
      let (decl, rest) ← readField file (t :: us)
      return (.field decl, rest) := by
  unfold readItemKind
  generalize readField file (t :: us) = plain
  cases us with
  | nil =>
    simp only [nextToken, List.headD_nil, TokenKind.isIdentifier, reduceCtorEq, decide_false,
      Bool.and_false, Bool.false_eq_true, if_false]
    cases plain <;> rfl
  | cons u us =>
    obtain ⟨kind, l, p⟩ := u
    cases kind with
    | leftParen =>
      simp only [nextToken_cons, TokenKind.isIdentifier, decide_true, Bool.and_true, Bool.and_false,
        Bool.false_eq_true, if_false, List.tail_cons]
      split
      · cases readArgs file us <;> rfl
      · cases plain <;> rfl
    | identifier name =>
      simp only [nextToken_cons, TokenKind.isIdentifier, reduceCtorEq, decide_false, Bool.and_true,
        Bool.and_false, Bool.false_eq_true, if_false]
      split
      · rfl
      · cases plain <;> rfl
    | _ =>
      simp only [nextToken_cons, TokenKind.isIdentifier, reduceCtorEq, decide_false, Bool.and_false,
        Bool.false_eq_true, if_false]
      cases plain <;> rfl

/-! ## §4. Bodies and declarations. -/

/-- How the items of a body are read, one at a time. -/
theorem readItems_eq (ts : List Token) : readItems file id ts =
    if (nextToken (takeComments ts).2).kind = .rightBrace then .ok ([], (takeComments ts).2.tail)
    else if (nextToken (takeComments ts).2).kind = .eof then
      .error (unexpected file "`\x7d`" (some ("resource `" ++ id ++ "` is never closed"))
        (takeComments ts).2)
    else do
      let (kind, vs) ← readItemKind file (takeComments ts).2
      let (items, rest) ← readItems file id vs
      return (⟨(takeComments ts).1, kind, (nextToken (takeComments ts).2).pos⟩ :: items, rest) := by
  rw [readItems]
  dsimp only
  split
  · next hclose => rw [if_pos hclose]
  · next hend => rw [hend, if_neg (by decide), if_pos rfl]
  · next hclose hend =>
    rw [if_neg hclose, if_neg hend]
    split
    · next e he =>
      rw [he]
      rfl
    · next kind vs hkind =>
      conv => rhs; rw [hkind]
      show _ = (readItems file id vs >>= _)
      cases readItems file id vs <;> rfl

/-- How the head of a list is read. -/
theorem readListHead_eq (line : Nat) (us : List Token) : readListHead file us = do
    let vs ← takeToken file .rightBracket us
    let (element, ws) ← expectName file "list element type" vs
    let (refs, _, rest) ← readRefs file line ws
    return (⟨element, refs⟩, rest) := by
  unfold readListHead
  cases takeToken file .rightBracket us with
  | error e => rfl
  | ok vs =>
    show _ = (expectName file "list element type" vs >>= _)
    dsimp only
    cases expectName file "list element type" vs with
    | error e => rfl
    | ok b =>
      show _ = (readRefs file line b.2 >>= _)
      unfold readRefs
      dsimp only
      split
      · next _ l p xs hws =>
        rw [hws, nextToken_cons, if_pos rfl]
        show _ = ((readNames file xs >>= _) >>= _)
        cases readNames file xs <;> rfl
      · next hws =>
        rw [if_neg]
        · rfl
        · intro hparen
          obtain ⟨l, p, hcons⟩ := eq_cons_of_nextToken hparen (by decide)
          exact hws _ _ _ hcons

/-- The head of a list resource, if a bracket is next. -/
def readHead (file : String) (us : List Token) : Except Error (Option ListHead × List Token) :=
  if (nextToken us).kind = .leftBracket then do
    let (head, rest) ← readListHead file us.tail
    return (some head, rest)
  else .ok (none, us)

/-- How a body is read: its comments are passed, then come the head and the
items. -/
theorem readBody_eq (us : List Token) : readBody file id us = do
    let (head, vs) ← readHead file (takeComments us).2
    let (items, rest) ← readItems file id vs
    return (head, items, rest) := by
  unfold readBody readHead
  split
  · next _ l p vs hus =>
    rw [hus, nextToken_cons, if_pos rfl]
    show _ = ((readListHead file vs >>= _) >>= _)
    cases readListHead file vs with
    | error e => rfl
    | ok b =>
      show _ = (readItems file id b.2 >>= _)
      dsimp only
      cases readItems file id b.2 <;> rfl
  · next hus =>
    rw [if_neg]
    · show _ = (readItems file id _ >>= _)
      cases readItems file id (takeComments us).2 <;> rfl
    · intro hbracket
      obtain ⟨l, p, hcons⟩ := eq_cons_of_nextToken hbracket (by decide)
      exact hus _ _ _ hcons

/-- How a modifier is read, if it is there. -/
theorem readModifier_eq (word : String) (t : Token) (us : List Token) :
    readModifier word (t :: us) =
      if t.kind.isWord word && (nextToken us).kind.isIdentifier then (true, us)
      else (false, t :: us) := by
  cases us with
  | nil => simp [readModifier, nextToken, TokenKind.isIdentifier]
  | cons u us => rfl

/-- How defaults are read, if they are there. -/
theorem readDefaults_eq (t : Token) (us : List Token) : readDefaults file (t :: us) =
    if t.kind = .atSign then
      if (nextToken us).kind.isWord "defaults" then do
        let vs ← takeToken file .leftParen us.tail
        let (value, ws) ← takeString file vs
        let rest ← takeToken file .rightParen ws
        return (some value, rest)
      else .error (unexpected file "`defaults` after `@`" none us)
    else .ok (none, t :: us) := by
  obtain ⟨kind, l, p⟩ := t
  cases kind with
  | atSign =>
    rw [readDefaults, if_pos rfl]
    split
    · cases takeToken file .leftParen us.tail with
      | error e => rfl
      | ok vs =>
        show _ = (takeString file vs >>= _)
        dsimp only
        cases takeString file vs with
        | error e => rfl
        | ok b =>
          show _ = (takeToken file .rightParen b.2 >>= _)
          dsimp only
          cases takeToken file .rightParen b.2 <;> rfl
    · rfl
  | _ => rfl

/-- A body, if a brace is next. -/
def readOptionalBody (file id : String) (us : List Token) :
    Except Error (Option ListHead × List Item × List Token) :=
  if (nextToken us).kind = .leftBrace then readBody file id us.tail else .ok (none, [], us)

/-- How a declaration is read, part by part. -/
theorem readDeclaration_eq (comments : List String) (ts : List Token) :
    readDeclaration file comments ts = do
      let us := (readModifier "extend" (readModifier "private" ts).2).2
      let (id, vs) ← expectName file "resource name" us
      let (defaults, ws) ← readDefaults file vs
      let (list, body, rest) ← readOptionalBody file id ws
      return (⟨comments, (readModifier "private" ts).1,
        (readModifier "extend" (readModifier "private" ts).2).1, id, defaults, list, body,
        (nextToken us).pos⟩, rest) := by
  unfold readDeclaration
  dsimp only
  cases expectName file "resource name" (readModifier "extend" (readModifier "private" ts).2).2 with
  | error e => rfl
  | ok b =>
    show _ = (readDefaults file b.2 >>= _)
    dsimp only
    cases readDefaults file b.2 with
    | error e => rfl
    | ok d =>
      obtain ⟨defaults, ws⟩ := d
      show _ = (readOptionalBody file b.1 ws >>= _)
      unfold readOptionalBody
      dsimp only
      split
      · next l p xs =>
        rw [nextToken_cons, if_pos rfl, List.tail_cons]
        cases readBody file b.1 xs <;> rfl
      · next hws =>
        rw [if_neg]
        · rfl
        · intro hbrace
          obtain ⟨l, p, hcons⟩ := eq_cons_of_nextToken hbrace (by decide)
          exact hws _ _ _ hcons

/-- How a declaration at the top is read: an import, an option or a resource. -/
theorem readTopLevel_eq (comments : List String) (t : Token) (us : List Token) :
    readTopLevel file comments (t :: us) =
      if t.kind.isWord "import" && (nextToken us).kind.string?.isSome then do
        let (path, rest) ← takeString file us
        return (.importing path, rest)
      else if t.kind.isWord "option" && (nextToken us).kind.isIdentifier
          && (nextToken us.tail).kind = .assign then do
        let (name, vs) ← expectName file "option name" us
        let ws ← takeToken file .assign vs
        let (value, rest) ← takeString file ws
        return (.option name value, rest)
      else do
        let (d, rest) ← readDeclaration file comments (t :: us)
        return (.resource d, rest) := by
  unfold readTopLevel
  generalize readDeclaration file comments (t :: us) = declared
  cases us with
  | nil =>
    simp only [nextToken, List.headD_nil, TokenKind.string?, TokenKind.isIdentifier,
      Option.isSome_none, Bool.and_false, Bool.false_and, Bool.false_eq_true, if_false]
    cases declared <;> rfl
  | cons u us =>
    obtain ⟨kind, l, p⟩ := u
    cases kind with
    | string path =>
      simp only [nextToken_cons, TokenKind.string?, TokenKind.isIdentifier, Option.isSome_some,
        Bool.and_true, Bool.and_false, Bool.false_and, Bool.false_eq_true, if_false]
      split
      · rfl
      · cases declared <;> rfl
    | identifier name =>
      simp only [nextToken_cons, TokenKind.string?, TokenKind.isIdentifier, Option.isSome_none,
        Bool.and_true, Bool.and_false, Bool.false_eq_true, if_false, List.tail_cons]
      by_cases hassign : (nextToken us).kind = .assign
      · obtain ⟨l', p', hus⟩ := eq_cons_of_nextToken hassign (by decide)
        rw [hus]
        simp only [nextToken_cons, decide_true, Bool.and_true]
        split
        · show _ = (takeString file us.tail >>= _)
          cases takeString file us.tail <;> rfl
        · cases declared <;> rfl
      · simp only [hassign, decide_false, Bool.and_false, Bool.false_eq_true, if_false]
        split
        · next heq => cases heq
        · next heq =>
          simp only [List.cons.injEq] at heq
          rw [heq.2.2] at hassign
          exact absurd rfl hassign
        · cases declared <;> rfl
    | _ =>
      simp only [nextToken_cons, TokenKind.string?, TokenKind.isIdentifier, Option.isSome_none,
        Bool.and_false, Bool.false_and, Bool.false_eq_true, if_false]
      cases declared <;> rfl

/-- How all declarations of a file are read, one at a time. -/
theorem readTopLevels_eq (ts : List Token) : readTopLevels file ts =
    if (nextToken (takeComments ts).2).kind = .eof then .ok []
    else do
      let (top, rest) ← readTopLevel file (takeComments ts).1 (takeComments ts).2
      let tops ← readTopLevels file rest
      return top :: tops := by
  rw [readTopLevels]
  dsimp only
  split
  · next hend => rw [if_pos hend]
  · next hend =>
    rw [if_neg hend]
    split
    · next e he =>
      rw [he]
      rfl
    · next top rest htop =>
      conv => rhs; rw [htop]
      show _ = (readTopLevels file rest >>= _)
      cases readTopLevels file rest <;> rfl

end LazyFields.Source
