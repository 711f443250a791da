/-
  LazyFields.Source.Parse
  ────────────────────────────────
  **FROM TOKENS TO A FILE.**

  The grammar, a token list being read from its head:

      file     ::= { import STRING | option NAME = STRING | resource }
      resource ::= [private] [extend] NAME [@defaults(STRING)] [ { body } ]
      body     ::= [ []NAME [( names )] ] { item }
      item     ::= init( args ) | embed NAME [as NAME] | NAME [( names )] [type]
      type     ::= []type | map[NAME]type | NAME

  Comments stand before resources and items and belong to what follows.  A
  contextual keyword is one only if what must follow it does follow; the
  type of a field starts on the line where the field's text ended, so an
  untyped field does not swallow the next line.

  Each reader answers with the tokens that are left.  It consumes at least
  one (the `_lt` lemmas), which is why the loops end, and a refusal names the
  place of the token it stopped at.
-/
import LazyFields.Error
import LazyFields.Source.File
import LazyFields.Source.Scan

namespace LazyFields.Source

/-! ## §1. Looking at the next token. -/

/-- The next token; past the end of any list stands an end mark. -/
def nextToken (ts : List Token) : Token := ts.headD ⟨.eof, "", .start⟩

/-- A kind of token as named in a refusal. -/
def TokenKind.described : TokenKind → String
  | .leftParen => "`(`"
  | .rightParen => "`)`"
  | .leftBracket => "`[`"
  | .rightBracket => "`]`"
  | .leftBrace => "`\x7b`"
  | .rightBrace => "`\x7d`"
  | .comma => "`,`"
  | .question => "`?`"
  | .assign => "`=`"
  | .atSign => "`@`"
  | .string _ => "string"
  | .identifier name => "identifier `" ++ name ++ "`"
  | .comment _ => "comment"
  | .eof => "end of file"

/-- The refusal of the next token where `what` was expected. -/
def unexpected (file what : String) (help : Option String) (ts : List Token) : Error :=
  let t := nextToken ts
  .syntaxError file t.pos.line t.pos.column
    ("Expected " ++ what ++ ", found " ++ t.kind.described
      ++ (help.map fun text => "\n\nHelp: " ++ text).getD "")

/-- The comments at the head, and the tokens after them. -/
def takeComments : List Token → List String × List Token
  | ⟨.comment text, _, _⟩ :: ts =>
      let (texts, rest) := takeComments ts
      (text :: texts, rest)
  | ts => ([], ts)

/-- Read one token of the given kind, which is a single character. -/
def takeToken (file : String) (kind : TokenKind) : List Token → Except Error (List Token)
  | [] => .error (unexpected file kind.described none [])
  | t :: ts => if t.kind = kind then .ok ts
      else .error (unexpected file kind.described none (t :: ts))

/-- Read a name. -/
def expectName (file what : String) : List Token → Except Error (String × List Token)
  | ⟨.identifier name, _, _⟩ :: ts => .ok (name, ts)
  | ts => .error (unexpected file what none ts)

/-- Read a string literal. -/
def takeString (file : String) : List Token → Except Error (String × List Token)
  | ⟨.string value, _, _⟩ :: ts => .ok (value, ts)
  | ts => .error (unexpected file "string" none ts)

/-! ## §2. Names, types and arguments. -/

/-- Read names up to a closing parenthesis; the opening one is read already.
A comma may stand after the last name.  Also answers the line of the closing
parenthesis. -/
def readNames (file : String) : List Token → Except Error (List String × Nat × List Token)
  | ⟨.rightParen, _, pos⟩ :: ts => .ok ([], pos.line, ts)
  | ⟨.identifier name, _, _⟩ :: ⟨.comma, _, _⟩ :: ts =>
      match readNames file ts with
      | .error e => .error e
      | .ok (names, line, rest) => .ok (name :: names, line, rest)
  | ⟨.identifier name, _, _⟩ :: ⟨.rightParen, _, pos⟩ :: ts => .ok ([name], pos.line, ts)
  | ⟨.identifier _, _, _⟩ :: ts => .error (unexpected file "`)`" none ts)
  | ts => .error (unexpected file "dependency" none ts)

/-- Read a type. -/
def readType (file : String) : List Token → Except Error (TypeExpr × List Token)
  | ⟨.leftBracket, _, _⟩ :: ts =>
      match ts with
      | ⟨.rightBracket, _, _⟩ :: us =>
          match readType file us with
          | .error e => .error e
          | .ok (element, rest) => .ok (.list element, rest)
      | _ => .error (unexpected file "`]`" none ts)
  | ⟨.identifier name, _, _⟩ :: ts =>
      match ts with
      | ⟨.leftBracket, _, _⟩ :: us =>
          if name = "map" then
            match us with
            | ⟨.identifier key, _, _⟩ :: vs =>
                match vs with
                | ⟨.rightBracket, _, _⟩ :: ws =>
                    match readType file ws with
                    | .error e => .error e
                    | .ok (value, rest) => .ok (.map key value, rest)
                | _ => .error (unexpected file "`]`" none vs)
            | _ => .error (unexpected file "simple key type"
                (some "map keys must be simple types, e.g. map[string]int") us)
          else .ok (.named name, ts)
      | _ => .ok (.named name, ts)
  | ts => .error (unexpected file "type" none ts)

/-- A qualified name takes up a token at least. -/
theorem readNames_lt {file : String} {ts rest : List Token} {names : List String} {line : Nat}
    (h : readNames file ts = .ok (names, line, rest)) : rest.length < ts.length := by
  fun_induction readNames file ts generalizing names line rest <;> grind

/-- A type takes up a token at least. -/
theorem readType_lt {file : String} {ts rest : List Token} {type : TypeExpr}
    (h : readType file ts = .ok (type, rest)) : rest.length < ts.length := by
  fun_induction readType file ts generalizing type rest <;> grind

/-- Whether the argument is marked as optional, and the tokens after the
mark. -/
def readOptional : List Token → Bool × List Token
  | ⟨.question, _, _⟩ :: ts => (true, ts)
  | ts => (false, ts)

/-- The mark of an optional argument takes up one token or none. -/
theorem readOptional_le (ts : List Token) : (readOptional ts).2.length ≤ ts.length := by
  fun_cases readOptional ts <;> simp

/-- Read constructor arguments up to a closing parenthesis; the opening one is
read already. -/
def readArgs (file : String) (ts : List Token) : Except Error (List ArgDecl × List Token) :=
  match ts with
  | ⟨.rightParen, _, _⟩ :: us => .ok ([], us)
  | ⟨.identifier name, _, _⟩ :: us =>
      match _h : readType file (readOptional us).2 with
      | .error e => .error e
      | .ok (type, vs) =>
        let arg : ArgDecl := ⟨name, (readOptional us).1, type⟩
        match vs with
        | ⟨.comma, _, _⟩ :: ws =>
            match readArgs file ws with
            | .error e => .error e
            | .ok (args, rest) => .ok (arg :: args, rest)
        | ⟨.rightParen, _, _⟩ :: ws => .ok ([arg], ws)
        | _ => .error (unexpected file "`)`" none vs)
  | _ => .error (unexpected file "init argument name" none ts)
termination_by ts.length
decreasing_by
  have h₁ := readType_lt _h
  have h₂ := readOptional_le us
  simp only [List.length_cons] at h₁ ⊢
  omega

/-- A list of arguments takes up its closing parenthesis at least. -/
theorem readArgs_lt {file : String} {ts rest : List Token} {args : List ArgDecl}
    (h : readArgs file ts = .ok (args, rest)) : rest.length < ts.length := by
  have htype := @readType_lt file
  have hoptional := readOptional_le
  fun_induction readArgs file ts generalizing args rest <;> grind

/-! ## §3. Items. -/

/-- The type of a field whose text ended on the given line, if one follows on
that line. -/
def readFieldType (file : String) (line : Nat) (ts : List Token) :
    Except Error (Option TypeExpr × List Token) :=
  let t := nextToken ts
  if (t.kind.isIdentifier || t.kind = .leftBracket) && t.pos.line = line then
    match readType file ts with
    | .error e => .error e
    | .ok (type, rest) => .ok (some type, rest)
  else .ok (none, ts)

/-- Read a field. -/
def readField (file : String) : List Token → Except Error (FieldDecl × List Token)
  | ⟨.identifier name, _, pos⟩ :: ts =>
      match ts with
      | ⟨.leftParen, _, _⟩ :: us =>
          match readNames file us with
          | .error e => .error e
          | .ok (refs, line, vs) =>
            match readFieldType file line vs with
            | .error e => .error e
            | .ok (type, rest) => .ok (⟨name, some refs, type⟩, rest)
      | _ =>
          match readFieldType file pos.line ts with
          | .error e => .error e
          | .ok (type, rest) => .ok (⟨name, none, type⟩, rest)
  | ts => .error (unexpected file "field name" none ts)

/-- The alias after an embedded resource, if one follows. -/
def readAlias (ts : List Token) : Option String × List Token :=
  match ts with
  | t :: ⟨.identifier given, _, _⟩ :: rest =>
      if t.kind.isWord "as" then (some given, rest) else (none, ts)
  | _ => (none, ts)

/-- Read what an item of a body declares. -/
def readItemKind (file : String) (ts : List Token) : Except Error (ItemKind × List Token) :=
  let plain : Except Error (ItemKind × List Token) :=
    match readField file ts with
    | .error e => .error e
    | .ok (decl, rest) => .ok (.field decl, rest)
  match ts with
  | t :: ⟨.leftParen, _, _⟩ :: us =>
      if t.kind.isWord "init" then
        match readArgs file us with
        | .error e => .error e
        | .ok (args, rest) => .ok (.init args, rest)
      else plain
  | t :: ⟨.identifier name, _, _⟩ :: us =>
      if t.kind.isWord "embed" then
        .ok (.embed name (readAlias us).1, (readAlias us).2)
      else plain
  | _ => plain

/-- A field's type takes up tokens or none, and gives none back. -/
theorem readFieldType_le {file : String} {line : Nat} {ts rest : List Token}
    {type : Option TypeExpr} (h : readFieldType file line ts = .ok (type, rest)) :
    rest.length ≤ ts.length := by
  have htype := @readType_lt file
  unfold readFieldType at h
  grind

/-- A field takes up its name at least. -/
theorem readField_lt {file : String} {ts rest : List Token} {decl : FieldDecl}
    (h : readField file ts = .ok (decl, rest)) : rest.length < ts.length := by
  unfold readField at h
  grind [→ readNames_lt, → readFieldType_le]

/-- An alias takes up two tokens or none. -/
theorem readAlias_le (ts : List Token) : (readAlias ts).2.length ≤ ts.length := by
  unfold readAlias
  grind

/-- An item takes up a token at least. -/
theorem readItemKind_lt {file : String} {ts rest : List Token} {kind : ItemKind}
    (h : readItemKind file ts = .ok (kind, rest)) : rest.length < ts.length := by
  unfold readItemKind at h
  grind [→ readField_lt, → readArgs_lt, readAlias_le]

/-! ## §4. Bodies. -/

/-- Collecting comments gives no token back. -/
theorem takeComments_le (ts : List Token) : (takeComments ts).2.length ≤ ts.length := by
  fun_induction takeComments ts <;> grind

/-- Read items up to the closing brace of the resource `id`. -/
def readItems (file id : String) (ts : List Token) : Except Error (List Item × List Token) :=
  let us := (takeComments ts).2
  match (nextToken us).kind with
  | .rightBrace => .ok ([], us.tail)
  | .eof => .error (unexpected file "`\x7d`"
      (some ("resource `" ++ id ++ "` is never closed")) us)
  | _ =>
      match _h : readItemKind file us with
      | .error e => .error e
      | .ok (kind, vs) =>
        match readItems file id vs with
        | .error e => .error e
        | .ok (items, rest) =>
            .ok (⟨(takeComments ts).1, kind, (nextToken us).pos⟩ :: items, rest)
termination_by ts.length
decreasing_by
  have h₁ := readItemKind_lt _h
  have h₂ : us.length ≤ ts.length := takeComments_le ts
  omega

/-- Read the head of a list resource; its first bracket is read already. -/
def readListHead (file : String) (ts : List Token) : Except Error (ListHead × List Token) :=
  match takeToken file .rightBracket ts with
  | .error e => .error e
  | .ok us =>
    match expectName file "list element type" us with
    | .error e => .error e
    | .ok (element, vs) =>
      match vs with
      | ⟨.leftParen, _, _⟩ :: ws =>
          match readNames file ws with
          | .error e => .error e
          | .ok (refs, _, rest) => .ok (⟨element, some refs⟩, rest)
      | _ => .ok (⟨element, none⟩, vs)

/-- Read a body; its opening brace is read already.  Comments before the head
of a list resource, or before the first item if there is none, belong to
nothing. -/
def readBody (file id : String) (ts : List Token) :
    Except Error (Option ListHead × List Item × List Token) :=
  match (takeComments ts).2 with
  | ⟨.leftBracket, _, _⟩ :: us =>
      match readListHead file us with
      | .error e => .error e
      | .ok (head, vs) =>
        match readItems file id vs with
        | .error e => .error e
        | .ok (items, rest) => .ok (some head, items, rest)
  | us =>
      match readItems file id us with
      | .error e => .error e
      | .ok (items, rest) => .ok (none, items, rest)

/-- An expected token is taken up. -/
theorem takeToken_lt {file : String} {kind : TokenKind} {ts rest : List Token}
    (h : takeToken file kind ts = .ok rest) : rest.length < ts.length := by
  unfold takeToken at h
  grind

/-- An expected name is taken up. -/
theorem expectName_lt {file what name : String} {ts rest : List Token}
    (h : expectName file what ts = .ok (name, rest)) : rest.length < ts.length := by
  unfold expectName at h
  grind

/-- An expected string is taken up. -/
theorem takeString_lt {file value : String} {ts rest : List Token}
    (h : takeString file ts = .ok (value, rest)) : rest.length < ts.length := by
  unfold takeString at h
  grind

/-- Reading the items of a body gives no token back. -/
theorem readItems_le {file id : String} {ts rest : List Token} {items : List Item}
    (h : readItems file id ts = .ok (items, rest)) : rest.length ≤ ts.length := by
  fun_induction readItems file id ts generalizing items rest <;>
    grind [takeComments_le, → readItemKind_lt]

/-- The head of a list takes up a token at least. -/
theorem readListHead_lt {file : String} {ts rest : List Token} {head : ListHead}
    (h : readListHead file ts = .ok (head, rest)) : rest.length < ts.length := by
  unfold readListHead at h
  grind [→ takeToken_lt, → expectName_lt, → readNames_lt]

/-- Reading a body gives no token back. -/
theorem readBody_le {file id : String} {ts rest : List Token} {head : Option ListHead}
    {items : List Item} (h : readBody file id ts = .ok (head, items, rest)) :
    rest.length ≤ ts.length := by
  have := takeComments_le ts
  unfold readBody at h
  grind [→ readListHead_lt, → readItems_le]

/-! ## §5. Declarations and files. -/

/-- Whether the given modifier stands at the head, and the tokens after it.  A
modifier is one only before a name. -/
def readModifier (word : String) (ts : List Token) : Bool × List Token :=
  match ts with
  | t :: u :: rest =>
      if t.kind.isWord word && u.kind.isIdentifier then (true, u :: rest) else (false, ts)
  | _ => (false, ts)

/-- Read a `@defaults("...")` annotation, if one follows. -/
def readDefaults (file : String) (ts : List Token) :
    Except Error (Option String × List Token) :=
  match ts with
  | ⟨.atSign, _, _⟩ :: us =>
      if (nextToken us).kind.isWord "defaults" then
        match takeToken file .leftParen us.tail with
        | .error e => .error e
        | .ok vs =>
          match takeString file vs with
          | .error e => .error e
          | .ok (value, ws) =>
            match takeToken file .rightParen ws with
            | .error e => .error e
            | .ok rest => .ok (some value, rest)
      else .error (unexpected file "`defaults` after `@`" none us)
  | _ => .ok (none, ts)

/-- Read the declaration of a resource. -/
def readDeclaration (file : String) (comments : List String) (ts : List Token) :
    Except Error (Declaration × List Token) :=
  let (isPrivate, us) := readModifier "private" ts
  let (isExtension, us) := readModifier "extend" us
  let pos := (nextToken us).pos
  match expectName file "resource name" us with
  | .error e => .error e
  | .ok (id, vs) =>
    match readDefaults file vs with
    | .error e => .error e
    | .ok (defaults, ws) =>
      match ws with
      | ⟨.leftBrace, _, _⟩ :: xs =>
          match readBody file id xs with
          | .error e => .error e
          | .ok (list, body, rest) =>
              .ok (⟨comments, isPrivate, isExtension, id, defaults, list, body, pos⟩, rest)
      | _ => .ok (⟨comments, isPrivate, isExtension, id, defaults, none, [], pos⟩, ws)

/-- A modifier takes up its word or nothing. -/
theorem readModifier_le (word : String) (ts : List Token) :
    (readModifier word ts).2.length ≤ ts.length := by
  unfold readModifier
  grind

/-- The defaults take up tokens or none. -/
theorem readDefaults_le {file : String} {ts rest : List Token} {defaults : Option String}
    (h : readDefaults file ts = .ok (defaults, rest)) : rest.length ≤ ts.length := by
  unfold readDefaults at h
  grind [→ takeToken_lt, → takeString_lt]

/-- A declaration takes up a token at least. -/
theorem readDeclaration_lt {file : String} {comments : List String} {ts rest : List Token}
    {d : Declaration} (h : readDeclaration file comments ts = .ok (d, rest)) :
    rest.length < ts.length := by
  have h₁ := readModifier_le "private" ts
  have h₂ := readModifier_le "extend" (readModifier "private" ts).2
  unfold readDeclaration at h
  grind [→ expectName_lt, → readDefaults_le, → readBody_le]

/-- One thing that a file says at its top level. -/
inductive TopLevel where
  | importing (path : String)
  | option (name value : String)
  | resource (decl : Declaration)

/-- Read one thing at the top level, the comments before it being read
already. -/
def readTopLevel (file : String) (comments : List String) (ts : List Token) :
    Except Error (TopLevel × List Token) :=
  let declaration : Except Error (TopLevel × List Token) :=
    match readDeclaration file comments ts with
    | .error e => .error e
    | .ok (d, rest) => .ok (.resource d, rest)
  match ts with
  | t :: ⟨.string path, _, _⟩ :: rest =>
      if t.kind.isWord "import" then .ok (.importing path, rest) else declaration
  | t :: ⟨.identifier name, _, _⟩ :: ⟨.assign, _, _⟩ :: us =>
      if t.kind.isWord "option" then
        match takeString file us with
        | .error e => .error e
        | .ok (value, rest) => .ok (.option name value, rest)
      else declaration
  | _ => declaration

/-- Each thing at the top level takes up a token at least, so that reading a file
ends. -/
theorem readTopLevel_lt {file : String} {comments : List String} {ts rest : List Token}
    {top : TopLevel} (h : readTopLevel file comments ts = .ok (top, rest)) :
    rest.length < ts.length := by
  unfold readTopLevel at h
  grind [→ readDeclaration_lt, → takeString_lt]

/-- Read a whole file, up to the end mark. -/
def readTopLevels (file : String) (ts : List Token) : Except Error (List TopLevel) :=
  let us := (takeComments ts).2
  match (nextToken us).kind with
  | .eof => .ok []
  | _ =>
      match _h : readTopLevel file (takeComments ts).1 us with
      | .error e => .error e
      | .ok (top, rest) =>
        match readTopLevels file rest with
        | .error e => .error e
        | .ok tops => .ok (top :: tops)
termination_by ts.length
decreasing_by
  have h₁ := readTopLevel_lt _h
  have h₂ : us.length ≤ ts.length := takeComments_le ts
  omega

/-- The file that says the given things; of two options of one name the later
counts. -/
def File.ofTopLevels (tops : List TopLevel) : File where
  imports := tops.filterMap fun | .importing path => some path | _ => none
  options := Table.ofList (tops.filterMap fun
    | .option name value => some (name, value)
    | _ => none)
  resources := tops.filterMap fun | .resource d => some d | _ => none
  packs := ∅

/-- The file that some tokens spell; errors name `file`. -/
def File.ofTokens (ts : List Token) (file : String) : Except Error File :=
  match readTopLevels file ts with
  | .error e => .error e
  | .ok tops => .ok (File.ofTopLevels tops)

/-- The file that a text spells; errors name `file`. -/
def File.parse (source : String) (file : String) : Except Error File :=
  match Token.scan source file with
  | .error e => .error e
  | .ok ts => File.ofTokens ts file

end LazyFields.Source
