/-
  LazyFields.Source.Token
  ────────────────────────────────
  **TOKENS OF A RESOURCE FILE.**

  A token is its kind, the exact text it was read from and the place where
  that text starts.  No word is reserved: `import`, `extend` and the other
  contextual keywords are identifiers, and only the place where they stand
  gives them a role.
-/

namespace LazyFields.Source

/-- A place in a text, counted in characters; both numbers start at 1. -/
structure Position where
  line : Nat
  column : Nat
  deriving DecidableEq, Repr, Inhabited

namespace Position

/-- The first character of a text. -/
def start : Position := ⟨1, 1⟩

/-- The place after one more character. -/
def next (p : Position) (c : Char) : Position :=
  if c = '\n' then ⟨p.line + 1, 1⟩ else ⟨p.line, p.column + 1⟩

/-- The place after some more characters. -/
def after (p : Position) (cs : List Char) : Position := cs.foldl next p

@[simp] theorem after_nil (p : Position) : p.after [] = p := rfl

@[simp] theorem after_cons (p : Position) (c : Char) (cs : List Char) :
    p.after (c :: cs) = (p.next c).after cs := rfl

theorem after_append (p : Position) (cs ds : List Char) :
    p.after (cs ++ ds) = (p.after cs).after ds := List.foldl_append

end Position

/-- What a token is. -/
inductive TokenKind where
  /-- A string literal; holds its text with the escapes resolved. -/
  | string (value : String)
  /-- A name, possibly dotted. -/
  | identifier (name : String)
  /-- A line comment, with its slashes and without blanks at its end. -/
  | comment (text : String)
  | leftBrace
  | rightBrace
  | leftParen
  | rightParen
  | leftBracket
  | rightBracket
  | comma
  | question
  | assign
  | atSign
  /-- The end of the text. -/
  | eof
  deriving DecidableEq, Repr, Inhabited

namespace TokenKind

/-- Words with a role in some places, and plain names in all others. -/
def contextualKeywords : List String :=
  ["import", "option", "private", "extend", "init", "embed", "as", "map"]

/-- Whether the token is the given word. -/
def isWord (word : String) : TokenKind → Bool
  | identifier name => name = word
  | _ => false

/-- Whether the token is a contextual keyword. -/
def isKeyword : TokenKind → Bool
  | identifier name => contextualKeywords.contains name
  | _ => false

/-- Whether the token is a name. -/
def isIdentifier : TokenKind → Bool
  | identifier _ => true
  | _ => false

/-- The name of the kind. -/
def name : TokenKind → String
  | string _ => "String"
  | identifier _ => "Identifier"
  | comment _ => "Comment"
  | leftBrace => "LeftBrace"
  | rightBrace => "RightBrace"
  | leftParen => "LeftParen"
  | rightParen => "RightParen"
  | leftBracket => "LeftBracket"
  | rightBracket => "RightBracket"
  | comma => "Comma"
  | question => "Question"
  | assign => "Assign"
  | atSign => "At"
  | eof => "Eof"

/-- The text that the token carries, if its kind has one. -/
def payload? : TokenKind → Option String
  | string value => some value
  | identifier name => some name
  | comment text => some text
  | _ => none

/-- The token as shown to a reader: its text (a string in quotes), or the
name of its kind. -/
def display : TokenKind → String
  | string value => "\"" ++ value ++ "\""
  | identifier name => name
  | comment text => text
  | k => k.name

end TokenKind

/-- A token: its kind, the text it was read from, and where that starts. -/
structure Token where
  kind : TokenKind
  lexeme : String
  pos : Position
  deriving DecidableEq, Repr, Inhabited

end LazyFields.Source
