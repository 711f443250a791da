/-
  LazyFields.Proofs.Source.RoundTrip
  ────────────────────────────────
  **PARSING UNDOES PRINTING.**

  The canonical text of a printable file is parsed as that file, all its parts
  in their order; only the places in it are new (`parse_text`).

  Each reader of the grammar has one lemma: what was printed of its part is read
  as the part, and the tokens after it are left.  Of these tokens two things have
  to be known.  A type is looked for on the line where a field ends, so what
  comes after an item must stand on a later line; and a parenthesis or the word
  `as` would be taken for a part of an item, so a comment, a name or a closing
  brace has to come (`AfterItem`).

  A name has to differ from the words of the grammar only where these could stand:
  the names in a type may be any (`readType_pieces`).
-/
import LazyFields.Proofs.Source.Print

namespace LazyFields.Source

open LazyFields.Text

/-! ## §1. Types, references and arguments. -/

section Types

variable {file : String} {ts : List Token}

/-- An identifier that may be printed is no contextual keyword. -/
theorem ne_of_isIdentifier {name word : String} (h : IsIdentifier name)
    (hword : word ∈ TokenKind.contextualKeywords) : name ≠ word := by
  intro heq
  subst heq
  exact h.2 hword

/-- So its token is no such word. -/
theorem isWord_of_isIdentifier {name word : String} (h : IsIdentifier name)
    (hword : word ∈ TokenKind.contextualKeywords) :
    (TokenKind.identifier name).isWord word = false := by
  simpa [TokenKind.isWord] using ne_of_isIdentifier h hword

/-- The last word of a type. -/
def TypeExpr.lastName : TypeExpr → String
  | named name => name
  | list element => element.lastName
  | map _ value => value.lastName

/-- A name is read as a type, unless it is `map` and a bracket follows. -/
theorem readType_name {name text : String} {p : Position}
    (h : name = "map" → (nextToken ts).kind ≠ .leftBracket) :
    readType file (⟨.identifier name, text, p⟩ :: ts) = .ok (.named name, ts) := by
  rw [readType.eq_def]
  dsimp only
  split
  · next heq =>
    have hname : name ≠ "map" := fun hmap => h hmap rfl
    rw [if_neg hname]
  · rfl

/-- The pieces of a type are read back as the type. -/
theorem readType_pieces {t : TypeExpr}
    (h : t.lastName = "map" → (nextToken ts).kind ≠ .leftBracket) (p : Position) :
    readType file (tokensAt p t.pieces ++ ts) = .ok (t, ts) := by
  induction t generalizing p with
  | named name => exact readType_name h
  | list element ih =>
    rw [TypeExpr.pieces, tokensAt, tokensAt, List.cons_append, List.cons_append, readType, ih h]
  | map key value ih =>
    simp only [TypeExpr.pieces, tokensAt, List.cons_append]
    rw [readType]
    simp only [if_true, ih h]

/-- Enumerated names end on the line where they start. -/
theorem line_past_names {names : List String} (h : ∀ name ∈ names, IsIdentifier name)
    (p : Position) : (p.past (namesPieces names)).line = p.line := by
  induction names generalizing p with
  | nil => rfl
  | cons name names ih =>
    rw [List.forall_mem_cons] at h
    have hline := line_after (newline_not_mem_of_plain h.1.1) p
    cases names with
    | nil =>
      show (p.past [.word name, .token .rightParen]).line = _
      rw [past_cons]
      exact hline
    | cons next names =>
      show (p.past (.word name :: .token .comma :: .space :: namesPieces (next :: names))).line = _
      rw [past_cons, past_cons, past_cons, ih h.2]
      exact hline

/-- Names are read up to the closing parenthesis. -/
theorem readNames_pieces {names : List String} (h : ∀ name ∈ names, IsIdentifier name)
    (p : Position) :
    readNames file (tokensAt p (namesPieces names) ++ ts) = .ok (names, p.line, ts) := by
  induction names generalizing p with
  | nil => rfl
  | cons name names ih =>
    rw [List.forall_mem_cons] at h
    have hline := line_after (newline_not_mem_of_plain h.1.1) p
    -- the last name stands before the parenthesis, any other before a comma
    cases names with
    | nil =>
      show readNames file (⟨.identifier name, _, p⟩ :: ⟨.rightParen, _, p.after name.toList⟩ :: ts)
        = _
      rw [readNames, hline]
    | cons next names =>
      show readNames file (⟨.identifier name, _, p⟩ :: ⟨.comma, _, _⟩
        :: (tokensAt _ (namesPieces (next :: names)) ++ ts)) = _
      rw [readNames, ih h.2]
      exact congrArg (fun line => Except.ok (name :: next :: names, line, ts)) hline

/-- An argument starts with its name; then its mark and its type are read. -/
theorem read_argument (a : ArgDecl) (p : Position) :
    ∃ text us, tokensAt p a.pieces = ⟨.identifier a.name, text, p⟩ :: us
      ∧ ∀ ts, (readOptional (us ++ ts)).1 = a.optional ∧ ((nextToken ts).kind ≠ .leftBracket →
        readType file (readOptional (us ++ ts)).2 = .ok (a.type, ts)) := by
  obtain ⟨name, optional, type⟩ := a
  cases optional with
  | true => exact ⟨_, _, rfl, fun ts => ⟨rfl, fun hts => readType_pieces (fun _ => hts) _⟩⟩
  | false =>
    refine ⟨_, _, rfl, fun ts => ?_⟩
    -- a type does not start with the mark
    have hmark : readOptional (tokensAt ((p.after name.toList).next ' ') type.pieces ++ ts)
        = (false, tokensAt ((p.after name.toList).next ' ') type.pieces ++ ts) := by
      cases type <;> rfl
    exact ⟨congrArg Prod.fst hmark, fun hts =>
      (congrArg (fun r => readType file r.2) hmark).trans (readType_pieces (fun _ => hts) _)⟩

/-- The last argument is read before the closing parenthesis. -/
theorem readArgs_last {name text : String} {p : Position} {us : List Token} {type : TypeExpr}
    {close : Token} (hclose : close.kind = .rightParen)
    (hread : readType file (readOptional us).2 = .ok (type, close :: ts)) :
    readArgs file (⟨.identifier name, text, p⟩ :: us)
      = .ok ([⟨name, (readOptional us).1, type⟩], ts) := by
  obtain ⟨kind, lexeme, pos⟩ := close
  subst hclose
  rw [readArgs]
  split
  · next heq => simp [hread] at heq
  · next heq =>
    rw [hread] at heq
    cases heq
    rfl

/-- Any other argument is read before a comma. -/
theorem readArgs_more {name text : String} {p : Position} {us vs : List Token} {type : TypeExpr}
    {comma : Token} (hcomma : comma.kind = .comma)
    (hread : readType file (readOptional us).2 = .ok (type, comma :: vs)) {args : List ArgDecl}
    (hrest : readArgs file vs = .ok (args, ts)) :
    readArgs file (⟨.identifier name, text, p⟩ :: us)
      = .ok (⟨name, (readOptional us).1, type⟩ :: args, ts) := by
  obtain ⟨kind, lexeme, pos⟩ := comma
  subst hcomma
  rw [readArgs]
  split
  · next heq => simp [hread] at heq
  · next heq =>
    rw [hread] at heq
    cases heq
    simp [hrest]

/-- The pieces of arguments are read back as the arguments. -/
theorem readArgs_pieces (args : List ArgDecl) (p : Position) :
    readArgs file (tokensAt p (enumerated (args.map ArgDecl.pieces)) ++ ts) = .ok (args, ts) := by
  induction args generalizing p with
  | nil =>
    show readArgs file (⟨.rightParen, _, p⟩ :: ts) = _
    rw [readArgs]
  | cons a args ih =>
    obtain ⟨text, us, htokens, hread⟩ := @read_argument file a p
    -- as with names: the parenthesis or a comma comes next
    cases args with
    | nil =>
      show readArgs file (tokensAt p (a.pieces ++ [.token .rightParen]) ++ ts) = _
      rw [tokensAt_append, List.append_assoc, htokens]
      refine (readArgs_last rfl ((hread _).2 ?_)).trans ?_
      · exact TokenKind.noConfusion
      · rw [(hread _).1]
        rfl
    | cons next args =>
      show readArgs file (tokensAt p (a.pieces ++ .token .comma :: .space
        :: enumerated ((next :: args).map ArgDecl.pieces)) ++ ts) = _
      rw [tokensAt_append, List.append_assoc, htokens]
      refine (readArgs_more rfl ((hread _).2 ?_) (ih _)).trans ?_
      · exact TokenKind.noConfusion
      · rw [(hread _).1]

end Types

/-! ## §2. Items. -/

section Items

variable {file : String} {ts : List Token}

/-- No type is found on another line. -/
theorem readFieldType_none {line : Nat} (h : line < (nextToken ts).pos.line) :
    readFieldType file line ts = .ok (none, ts) := by
  unfold readFieldType
  have hne : (nextToken ts).pos.line ≠ line := by omega
  simp [hne]

/-- The pieces of a field's type are read back, since they stand on its line. -/
theorem readFieldType_pieces {type : Option TypeExpr}
    (hbracket : (nextToken ts).kind ≠ .leftBracket) (p : Position)
    (hline : p.line < (nextToken ts).pos.line) :
    readFieldType file p.line (tokensAt p (fieldTypePieces type) ++ ts) = .ok (type, ts) := by
  cases type with
  | none => exact readFieldType_none hline
  | some t =>
    have hread : readType file (tokensAt (p.next ' ') t.pieces ++ ts) = .ok (t, ts) :=
      readType_pieces (fun _ => hbracket) (p.next ' ')
    -- it starts on the line of the field
    have hstart : ((nextToken (tokensAt (p.next ' ') t.pieces ++ ts)).kind.isIdentifier = true
        ∨ (nextToken (tokensAt (p.next ' ') t.pieces ++ ts)).kind = .leftBracket)
        ∧ (nextToken (tokensAt (p.next ' ') t.pieces ++ ts)).pos.line = p.line := by
      cases t with
      | named => exact ⟨.inl rfl, rfl⟩
      | list => exact ⟨.inr rfl, rfl⟩
      | map => exact ⟨.inl rfl, rfl⟩
    show readFieldType file p.line (tokensAt (p.next ' ') t.pieces ++ ts) = _
    simp [readFieldType, hread, hstart]

/-- A line of a body that starts with this is neither a part of the item before
it nor the head of a list resource. -/
structure TokenKind.StartsLine (kind : TokenKind) : Prop where
  paren : kind ≠ .leftParen
  bracket : kind ≠ .leftBracket
  word : kind.isWord "as" = false

/-- What comes after an item at `p` is on a later line and starts it. -/
structure AfterItem (p : Position) (ts : List Token) : Prop where
  line : p.line < (nextToken ts).pos.line
  starts : (nextToken ts).kind.StartsLine

/-- Without parenthesis a field is static. -/
theorem readField_static {name text : String} {p : Position}
    (h : (nextToken ts).kind ≠ .leftParen) {type : Option TypeExpr} {rest : List Token}
    (hread : readFieldType file p.line ts = .ok (type, rest)) :
    readField file (⟨.identifier name, text, p⟩ :: ts) = .ok (⟨name, none, type⟩, rest) := by
  rw [readField.eq_def]
  dsimp only
  split
  · exact absurd rfl h
  · rw [hread]

/-- With parentheses it is computed from the names within. -/
theorem readField_computed {name text text' : String} {p p' : Position} {us vs rest : List Token}
    {refs : List String} {line : Nat} {type : Option TypeExpr}
    (hnames : readNames file us = .ok (refs, line, vs))
    (htype : readFieldType file line vs = .ok (type, rest)) :
    readField file (⟨.identifier name, text, p⟩ :: ⟨.leftParen, text', p'⟩ :: us)
      = .ok (⟨name, some refs, type⟩, rest) := by
  rw [readField, hnames]
  dsimp only
  rw [htype]

/-- The names of a field outside of its type, where the grammar has words of its own. -/
def ItemKind.fieldNames : ItemKind → List String
  | field decl => decl.name :: decl.references
  | _ => []

/-- The names of a printable item are identifiers. -/
theorem Item.Printable.fieldNames {item : Item} (h : item.Printable) :
    ∀ name ∈ item.kind.fieldNames, IsIdentifier name := by
  intro name hname
  refine h.names name ?_
  cases hkind : item.kind with
  | field decl =>
    rw [hkind] at hname
    exact List.mem_append_left _ hname
  | init | embed =>
    rw [hkind] at hname
    cases hname

/-- The pieces of a field are read back as the field. -/
theorem readField_pieces {decl : FieldDecl}
    (h : ∀ name ∈ (ItemKind.field decl).fieldNames, IsIdentifier name) {p : Position}
    (hts : AfterItem p ts) :
    readField file (tokensAt p (ItemKind.field decl).pieces ++ ts) = .ok (decl, ts) := by
  rw [ItemKind.fieldNames, List.forall_mem_cons] at h
  obtain ⟨hname, hrefs⟩ := h
  obtain ⟨name, refs, type⟩ := decl
  have hline := line_after (newline_not_mem_of_plain hname.1) p
  cases refs with
  | none =>
    have hread : readFieldType file p.line
        (tokensAt (p.after name.toList) (fieldTypePieces type) ++ ts) = .ok (type, ts) := by
      rw [← hline]
      exact readFieldType_pieces hts.starts.bracket _ (hline.symm ▸ hts.line)
    refine readField_static ?_ hread
    cases type with
    | none => exact hts.starts.paren
    | some t => cases t <;> exact TokenKind.noConfusion
  | some refs =>
    -- the parenthesis closes on the line of the name
    have hpast := line_past_names hrefs ((p.after name.toList).next '(')
    have hread : readFieldType file ((p.after name.toList).next '(').line
        (tokensAt (((p.after name.toList).next '(').past (namesPieces refs)) (fieldTypePieces type)
          ++ ts) = .ok (type, ts) := by
      rw [← hpast]
      exact readFieldType_pieces hts.starts.bracket _ ((hpast.trans hline).symm ▸ hts.line)
    show readField file (⟨.identifier name, _, p⟩ :: ⟨.leftParen, _, _⟩
      :: (tokensAt _ (namesPieces refs ++ fieldTypePieces type) ++ ts)) = _
    rw [tokensAt_append, List.append_assoc]
    exact readField_computed (readNames_pieces hrefs _) hread

/-- An item whose first word is no keyword is a field. -/
theorem readItemKind_field {t : Token} (hinit : t.kind.isWord "init" = false)
    (hembed : t.kind.isWord "embed" = false) {decl : FieldDecl} {rest : List Token}
    (hread : readField file (t :: ts) = .ok (decl, rest)) :
    readItemKind file (t :: ts) = .ok (.field decl, rest) := by
  unfold readItemKind
  rw [hread]
  dsimp only
  split
  · next heq =>
    cases heq
    rw [hinit]
    rfl
  · next heq =>
    cases heq
    rw [hembed]
    rfl
  · rfl

/-- The word `init` and a parenthesis start an init. -/
theorem readItemKind_init {text text' : String} {p p' : Position} {us rest : List Token}
    {args : List ArgDecl} (hargs : readArgs file us = .ok (args, rest)) :
    readItemKind file (⟨.identifier "init", text, p⟩ :: ⟨.leftParen, text', p'⟩ :: us)
      = .ok (.init args, rest) := by
  have hword : (TokenKind.identifier "init").isWord "init" = true := by decide
  unfold readItemKind
  dsimp only
  rw [if_pos hword, hargs]

/-- The word `embed` and a name start an embedded resource. -/
theorem readItemKind_embed {resource text text' : String} {p p' : Position} {us rest : List Token}
    {given : Option String} (halias : readAlias us = (given, rest)) :
    readItemKind file (⟨.identifier "embed", text, p⟩ :: ⟨.identifier resource, text', p'⟩ :: us)
      = .ok (.embed resource given, rest) := by
  have hword : (TokenKind.identifier "embed").isWord "embed" = true := by decide
  unfold readItemKind
  dsimp only
  rw [if_pos hword, halias]

/-- The pieces of an alias are read back as the alias. -/
theorem readAlias_pieces {given : Option String} {p : Position}
    (hts : AfterItem p ts) (q : Position) :
    readAlias (tokensAt q (aliasPieces given) ++ ts) = (given, ts) := by
  cases given with
  | none =>
    show readAlias ts = (none, ts)
    unfold readAlias
    split
    · next t _ _ _ _ =>
      have has : t.kind.isWord "as" = false := hts.starts.word
      rw [has]
      rfl
    · rfl
  | some name => rfl

/-- What an item declares is read up to the end of its line. -/
theorem readItemKind_pieces {kind : ItemKind} (h : ∀ name ∈ kind.fieldNames, IsIdentifier name)
    {p : Position} (hts : AfterItem p ts) :
    readItemKind file (tokensAt p kind.pieces ++ ts) = .ok (kind, ts) := by
  cases kind with
  | field decl =>
    have hname : IsIdentifier decl.name := h decl.name List.mem_cons_self
    refine readItemKind_field ?_ ?_ (readField_pieces h hts)
    · exact isWord_of_isIdentifier hname (by decide)
    · exact isWord_of_isIdentifier hname (by decide)
  | init args =>
    show readItemKind file (⟨.identifier "init", _, p⟩ :: ⟨.leftParen, _, _⟩
      :: (tokensAt _ (enumerated (args.map ArgDecl.pieces)) ++ ts)) = _
    exact readItemKind_init (readArgs_pieces args _)
  | embed resource given =>
    show readItemKind file (⟨.identifier "embed", _, p⟩ :: ⟨.identifier resource, _, _⟩
      :: (tokensAt _ (aliasPieces given) ++ ts)) = _
    exact readItemKind_embed (readAlias_pieces hts _)

end Items

/-! ## §3. What comes first. -/

/-- The first token of some pieces. -/
def firstKind : List Piece → Option TokenKind
  | [] => none
  | .token kind :: _ => some kind
  | .space :: ps => firstKind ps
  | .newline :: ps => firstKind ps

/-- The first token of two layouts is that of the first one that has any. -/
theorem firstKind_append (ps qs : List Piece) :
    firstKind (ps ++ qs) = (firstKind ps).or (firstKind qs) := by
  induction ps with
  | nil => rfl
  | cons piece ps ih =>
    cases piece with
    | token kind => rfl
    | space => exact ih
    | newline => exact ih

/-- The first token is the next one to be read. -/
theorem nextToken_tokensAt {ps : List Piece} {kind : TokenKind} (h : firstKind ps = some kind)
    (p : Position) (ts : List Token) : (nextToken (tokensAt p ps ++ ts)).kind = kind
      ∧ p.line ≤ (nextToken (tokensAt p ps ++ ts)).pos.line := by
  induction ps generalizing p with
  | nil => simp [firstKind] at h
  | cons piece ps ih =>
    cases piece with
    | token first =>
      cases h
      exact ⟨rfl, Nat.le_refl p.line⟩
    | space => exact ih h (p.next ' ')
    | newline =>
      obtain ⟨hkind, hline⟩ := ih h (p.next '\n')
      exact ⟨hkind, Nat.le_trans (Nat.le_succ p.line) hline⟩

/-- An item starts with a name, and not with `as`. -/
theorem firstKind_itemKind {kind : ItemKind} (h : ∀ name ∈ kind.fieldNames, IsIdentifier name) :
    ∃ name, firstKind kind.pieces = some (.identifier name)
      ∧ (TokenKind.identifier name).isWord "as" = false := by
  cases kind with
  | field decl =>
    have hname : IsIdentifier decl.name := h decl.name List.mem_cons_self
    exact ⟨decl.name, rfl, isWord_of_isIdentifier hname (by decide)⟩
  | init args => exact ⟨"init", rfl, by decide⟩
  | embed resource given => exact ⟨"embed", rfl, by decide⟩

/-- Blanks are no tokens. -/
theorem firstKind_spaces (n : Nat) : firstKind (List.replicate n .space) = none := by
  induction n with
  | zero => rfl
  | succ n ih => exact ih

/-- Comments start with a comment. -/
theorem firstKind_comments (margin : Nat) (text : String) (comments : List String) :
    firstKind (commentPieces margin (text :: comments)) = some (.comment text) := by
  show firstKind ((List.replicate margin .space ++ [.token (.comment text), .newline])
    ++ commentPieces margin comments) = _
  rw [firstKind_append, firstKind_append, firstKind_spaces]
  rfl

/-- An item starts with a comment if it has one, and else with a name. -/
theorem firstKind_item {item : Item} (h : ∀ name ∈ item.kind.fieldNames, IsIdentifier name) :
    ∃ kind, firstKind item.pieces = some kind ∧ kind.StartsLine
      ∧ (item.comments = [] → ∀ text, kind ≠ .comment text) := by
  obtain ⟨name, hname, has⟩ := firstKind_itemKind h
  unfold Item.pieces
  rw [firstKind_append, firstKind_append]
  cases hcomments : item.comments with
  | nil =>
    have hfirst : firstKind (.space :: .space :: item.kind.pieces) = some (.identifier name) :=
      hname
    rw [hfirst]
    exact ⟨.identifier name, rfl, ⟨TokenKind.noConfusion, TokenKind.noConfusion, has⟩,
      fun _ _ => TokenKind.noConfusion⟩
  | cons text comments =>
    rw [firstKind_comments]
    exact ⟨.comment text, rfl, ⟨TokenKind.noConfusion, TokenKind.noConfusion, rfl⟩,
      fun hnil => absurd hnil (List.cons_ne_nil text comments)⟩

/-- Items start a line, with a comment only if the first one has any. -/
theorem firstKind_items {items : List Item}
    (h : ∀ item ∈ items, ∀ name ∈ item.kind.fieldNames, IsIdentifier name) :
    ∃ kind, firstKind (items.flatMap Item.pieces ++ [.token .rightBrace, .newline]) = some kind
      ∧ kind.StartsLine
      ∧ ((∀ item ∈ items.head?, item.comments = []) → ∀ text, kind ≠ .comment text) := by
  cases items with
  | nil =>
    exact ⟨.rightBrace, rfl, ⟨TokenKind.noConfusion, TokenKind.noConfusion, rfl⟩,
      fun _ _ => TokenKind.noConfusion⟩
  | cons item items =>
    obtain ⟨kind, hkind, hstarts, hcomment⟩ := firstKind_item (h item List.mem_cons_self)
    refine ⟨kind, ?_, hstarts, fun hnone => hcomment (hnone item rfl)⟩
    rw [List.flatMap_cons, firstKind_append, firstKind_append, hkind]
    rfl

/-! ## §4. Bodies. -/

section Bodies

variable {file : String} {ts : List Token}

/-- The item without its place. -/
def Item.unplaced (item : Item) : Item := { item with pos := .start }

/-- Without a comment ahead none are taken. -/
theorem takeComments_of_ne (h : ∀ text, (nextToken ts).kind ≠ .comment text) :
    takeComments ts = ([], ts) := by
  unfold takeComments
  split
  · exact absurd rfl (h _)
  · rfl

/-- Blanks are no tokens. -/
theorem tokensAt_spaces (n : Nat) (p : Position) : tokensAt p (List.replicate n .space) = [] := by
  induction n generalizing p with
  | zero => rfl
  | succ n ih => exact ih (p.next ' ')

/-- Comments are taken up to the first token that is none. -/
theorem takeComments_pieces {comments : List String} (margin : Nat) (p : Position)
    (h : ∀ text, (nextToken ts).kind ≠ .comment text) :
    takeComments (tokensAt p (commentPieces margin comments) ++ ts) = (comments, ts) := by
  induction comments generalizing p with
  | nil => exact takeComments_of_ne h
  | cons text comments ih =>
    show takeComments (tokensAt p ((List.replicate margin .space
      ++ [.token (.comment text), .newline]) ++ commentPieces margin comments) ++ ts) = _
    rw [List.append_assoc, tokensAt_append, tokensAt_spaces, List.nil_append]
    show takeComments (⟨.comment text, _, _⟩
      :: (tokensAt _ (commentPieces margin comments) ++ ts)) = _
    rw [takeComments, ih]

/-- An item and its line are the tokens of its comments and its own, and what
comes after them is on a later line. -/
theorem tokensAt_item (item : Item) (p : Position) : ∃ q r, q.line < r.line ∧ ∀ rest,
    tokensAt p (item.pieces ++ rest) = tokensAt p (commentPieces 2 item.comments)
      ++ (tokensAt q item.kind.pieces ++ tokensAt r rest) := by
  let q := ((p.past (commentPieces 2 item.comments)).next ' ').next ' '
  refine ⟨q, (q.past item.kind.pieces).next '\n', Nat.lt_succ_of_le (line_le_after q _), ?_⟩
  intro rest
  unfold Item.pieces
  rw [List.append_assoc, List.append_assoc, tokensAt_append]
  show tokensAt p (commentPieces 2 item.comments)
    ++ tokensAt q (item.kind.pieces ++ .newline :: rest) = _
  rw [tokensAt_append]
  rfl

/-- An item is read with its comments, and the others behind it. -/
theorem readItems_item {id : String} {comments : List String} {kind : ItemKind}
    {items : List Item} {us vs rest : List Token} (htake : takeComments ts = (comments, us))
    (hstart : (nextToken us).kind.isIdentifier = true)
    (hkind : readItemKind file us = .ok (kind, vs))
    (hrest : readItems file id vs = .ok (items, rest)) :
    readItems file id ts = .ok (⟨comments, kind, (nextToken us).pos⟩ :: items, rest) := by
  have hus : (takeComments ts).2 = us := congrArg Prod.snd htake
  rw [readItems]
  split
  · next heq =>
    rw [hus] at heq
    rw [heq] at hstart
    cases hstart
  · next heq =>
    rw [hus] at heq
    rw [heq] at hstart
    cases hstart
  · split
    · next heq =>
      rw [hus, hkind] at heq
      cases heq
    · next heq =>
      rw [hus, hkind] at heq
      cases heq
      rw [hrest]
      dsimp only
      rw [htake]

/-- A closing brace ends the items. -/
theorem readItems_close {id : String} {text : String} {p : Position} :
    readItems file id (⟨.rightBrace, text, p⟩ :: ts) = .ok ([], ts) := by
  rw [readItems]
  rfl

/-- The items of a body are read up to its closing brace. -/
theorem readItems_pieces (file id : String) {items : List Item}
    (h : ∀ item ∈ items, ∀ name ∈ item.kind.fieldNames, IsIdentifier name) (p : Position)
    (ts : List Token) :
    ∃ items', items'.map Item.unplaced = items.map Item.unplaced
      ∧ readItems file id (tokensAt p (items.flatMap Item.pieces
        ++ [.token .rightBrace, .newline]) ++ ts) = .ok (items', ts) := by
  induction items generalizing p with
  | nil => exact ⟨[], rfl, readItems_close⟩
  | cons item items ih =>
    rw [List.forall_mem_cons] at h
    obtain ⟨q, r, hline, htokens⟩ := tokensAt_item item p
    obtain ⟨items', hsame, hread⟩ := ih h.2 r
    obtain ⟨name, hname, -⟩ := firstKind_itemKind h.1
    obtain ⟨first, hfirst, hstarts, -⟩ := firstKind_items h.2
    obtain ⟨hkind, hplace⟩ := nextToken_tokensAt hfirst r ts
    rw [List.flatMap_cons, List.append_assoc, htokens, List.append_assoc, List.append_assoc]
    generalize tokensAt r (items.flatMap Item.pieces ++ [.token .rightBrace, .newline]) ++ ts = vs
      at hread hkind hplace
    -- what comes after the item ends it, and its first word ends its comments
    have hafter : AfterItem q vs :=
      ⟨Nat.lt_of_lt_of_le hline hplace, hkind ▸ hstarts⟩
    have hstart := (nextToken_tokensAt hname q vs).1
    have htake : takeComments (tokensAt p (commentPieces 2 item.comments)
        ++ (tokensAt q item.kind.pieces ++ vs))
        = (item.comments, tokensAt q item.kind.pieces ++ vs) := by
      refine takeComments_pieces 2 p fun text => ?_
      rw [hstart]
      exact TokenKind.noConfusion
    refine ⟨_, ?_, readItems_item htake (by rw [hstart]; rfl)
      (readItemKind_pieces h.1 hafter) hread⟩
    rw [List.map_cons, List.map_cons, hsame]
    rfl

/-- A list without parentheses refers to nothing. -/
theorem readListHead_bare {element text text' : String} {p p' : Position}
    (hts : (nextToken ts).kind ≠ .leftParen) :
    readListHead file (⟨.rightBracket, text, p⟩ :: ⟨.identifier element, text', p'⟩ :: ts)
      = .ok (⟨element, none⟩, ts) := by
  unfold readListHead
  rw [takeToken, if_pos rfl]
  dsimp only [expectName]
  split
  · exact absurd rfl hts
  · rfl

/-- A list with parentheses refers to the names within. -/
theorem readListHead_refs {element text text' text'' : String} {p p' p'' : Position}
    {us rest : List Token} {refs : List String} {line : Nat}
    (hnames : readNames file us = .ok (refs, line, rest)) :
    readListHead file (⟨.rightBracket, text, p⟩ :: ⟨.identifier element, text', p'⟩
      :: ⟨.leftParen, text'', p''⟩ :: us) = .ok (⟨element, some refs⟩, rest) := by
  unfold readListHead
  rw [takeToken, if_pos rfl]
  dsimp only [expectName]
  rw [hnames]

/-- The head of a list resource is read up to its end. -/
theorem readListHead_pieces {head : ListHead} (h : ∀ name ∈ head.names, IsIdentifier name)
    (hts : (nextToken ts).kind ≠ .leftParen) (text : String) (p q : Position) :
    readListHead file (⟨.rightBracket, text, q⟩
      :: (tokensAt p (.word head.element :: refsPieces head.refs) ++ ts)) = .ok (head, ts) := by
  rw [ListHead.names, List.forall_mem_cons] at h
  obtain ⟨element, refs⟩ := head
  cases refs with
  | none => exact readListHead_bare hts
  | some refs => exact readListHead_refs (readNames_pieces h.2 _)

/-- A body without a list starts with its items. -/
theorem readBody_items {id : String} {items : List Item} {rest : List Token}
    (hcomment : ∀ text, (nextToken ts).kind ≠ .comment text)
    (hbracket : (nextToken ts).kind ≠ .leftBracket)
    (hread : readItems file id ts = .ok (items, rest)) :
    readBody file id ts = .ok (none, items, rest) := by
  unfold readBody
  rw [takeComments_of_ne hcomment]
  dsimp only
  split
  · exact absurd rfl hbracket
  · rw [hread]

/-- A body with a list starts with the head of it. -/
theorem readBody_list {id text : String} {p : Position} {us vs rest : List Token}
    {head : ListHead} {items : List Item} (hhead : readListHead file us = .ok (head, vs))
    (hread : readItems file id vs = .ok (items, rest)) :
    readBody file id (⟨.leftBracket, text, p⟩ :: us) = .ok (some head, items, rest) := by
  unfold readBody
  rw [takeComments_of_ne fun _ => TokenKind.noConfusion]
  dsimp only
  rw [hhead]
  dsimp only
  rw [hread]

/-- The inside of a body is read with its closing brace. -/
theorem readBody_pieces (file id : String) {list : Option ListHead} {items : List Item}
    (hlist : ∀ head ∈ list, ∀ name ∈ head.names, IsIdentifier name)
    (hitems : ∀ item ∈ items, ∀ name ∈ item.kind.fieldNames, IsIdentifier name)
    (hfirst : list = none → ∀ item ∈ items.head?, item.comments = []) (p : Position)
    (ts : List Token) :
    ∃ items', items'.map Item.unplaced = items.map Item.unplaced
      ∧ readBody file id (tokensAt p (headPieces list ++ (items.flatMap Item.pieces
        ++ [.token .rightBrace, .newline])) ++ ts) = .ok (list, items', ts) := by
  obtain ⟨kind, hkind, hstarts, hcomment⟩ := firstKind_items hitems
  cases list with
  | none =>
    obtain ⟨items', hsame, hread⟩ := readItems_pieces file id hitems p ts
    have hnext := (nextToken_tokensAt hkind p ts).1
    -- what follows is no comment, and no bracket that would begin the head of a list
    refine ⟨items', hsame, readBody_items ?_ ?_ hread⟩
    · intro text heq
      exact hcomment (hfirst rfl) text (hnext.symm.trans heq)
    · intro heq
      exact hstarts.bracket (hnext.symm.trans heq)
  | some head =>
    let q := (((p.next ' ').next ' ').next '[').next ']'
    let r := (q.past (.word head.element :: refsPieces head.refs)).next '\n'
    obtain ⟨items', hsame, hread⟩ := readItems_pieces file id hitems r ts
    have hnext := (nextToken_tokensAt hkind r ts).1
    have hparen : (nextToken (tokensAt r (items.flatMap Item.pieces
        ++ [.token .rightBrace, .newline]) ++ ts)).kind ≠ .leftParen :=
      fun heq => hstarts.paren (hnext.symm.trans heq)
    refine ⟨items', hsame, ?_⟩
    show readBody file id (⟨.leftBracket, _, _⟩ :: ⟨.rightBracket, _, _⟩
      :: (tokensAt q ((.word head.element :: refsPieces head.refs) ++ [.newline]
        ++ (items.flatMap Item.pieces ++ [.token .rightBrace, .newline])) ++ ts)) = _
    rw [List.append_assoc, tokensAt_append, List.append_assoc]
    exact readBody_list (readListHead_pieces (hlist head rfl) hparen _ q _) hread

end Bodies

/-! ## §5. Declarations. -/

section Declarations

variable {file : String} {ts : List Token}

/-- The declaration without its places. -/
def Declaration.unplaced (d : Declaration) : Declaration :=
  { d with body := d.body.map Item.unplaced, pos := .start }

/-- A modifier is read where another name follows. -/
theorem readModifier_pieces {word name : String} (hnext : (nextToken ts).kind = .identifier name)
    (hname : name ≠ word) (isSet : Bool) (p : Position) :
    readModifier word (tokensAt p (modifierPieces word isSet) ++ ts) = (isSet, ts) := by
  cases ts with
  | nil => exact absurd hnext TokenKind.noConfusion
  | cons t us =>
    have hkind : t.kind = .identifier name := hnext
    cases isSet with
    | false =>
      show readModifier word (t :: us) = _
      have hword : t.kind.isWord word = false := by simpa [hkind, TokenKind.isWord] using hname
      unfold readModifier
      split
      · next heq =>
        cases heq
        rw [hword]
        rfl
      · rfl
    | true =>
      show readModifier word (⟨.identifier word, _, p⟩ :: t :: us) = _
      simp [readModifier, TokenKind.isWord, TokenKind.isIdentifier, hkind]

/-- A modifier that is not set leaves the name after it to come next. -/
theorem nextToken_modifier {word name : String} (hnext : (nextToken ts).kind = .identifier name)
    (isSet : Bool) (p : Position) :
    (nextToken (tokensAt p (modifierPieces word isSet) ++ ts)).kind
      = .identifier (if isSet then word else name) := by
  cases isSet with
  | false => exact hnext
  | true => rfl

/-- The pieces of defaults are read back as the defaults. -/
theorem readDefaults_pieces (defaults : Option String) (p : Position)
    (hts : (nextToken ts).kind ≠ .atSign) :
    readDefaults file (tokensAt p (defaultsPieces defaults) ++ ts) = .ok (defaults, ts) := by
  cases defaults with
  | none =>
    show readDefaults file ts = _
    unfold readDefaults
    split
    · exact absurd rfl hts
    · rfl
  | some value => rfl

/-- A declaration is read part by part. -/
theorem readDeclaration_body {comments : List String} {isPrivate isExtension : Bool}
    {id text text' : String} {pos pos' : Position} {defaults : Option String}
    {list : Option ListHead} {body : List Item} {us vs ws rest : List Token}
    (hprivate : readModifier "private" ts = (isPrivate, us))
    (hextend : readModifier "extend" us = (isExtension, ⟨.identifier id, text, pos⟩ :: vs))
    (hdefaults : readDefaults file vs = .ok (defaults, ⟨.leftBrace, text', pos'⟩ :: ws))
    (hbody : readBody file id ws = .ok (list, body, rest)) :
    readDeclaration file comments ts
      = .ok (⟨comments, isPrivate, isExtension, id, defaults, list, body, pos⟩, rest) := by
  unfold readDeclaration
  rw [hprivate]
  dsimp only
  rw [hextend]
  dsimp only [expectName]
  rw [hdefaults]
  dsimp only
  rw [hbody]
  rfl

/-- A declaration without its comments is its modifiers, its name, its
annotation and its body in braces. -/
theorem tokensAt_declaration (d : Declaration) (p : Position) (ts : List Token) :
    ∃ q r s text t text' u, tokensAt p d.pieces ++ ts
      = tokensAt p (modifierPieces "private" d.isPrivate)
      ++ (tokensAt q (modifierPieces "extend" d.isExtension) ++ ⟨.identifier d.id, text, r⟩
      :: (tokensAt s (defaultsPieces d.defaults) ++ ⟨.leftBrace, text', t⟩
      :: (tokensAt u (headPieces d.list ++ (d.body.flatMap Item.pieces
        ++ [.token .rightBrace, .newline])) ++ ts))) := by
  have hpieces : d.pieces = modifierPieces "private" d.isPrivate
      ++ (modifierPieces "extend" d.isExtension ++ (.word d.id :: (defaultsPieces d.defaults
      ++ (.space :: .token .leftBrace :: .newline :: (headPieces d.list
      ++ (d.body.flatMap Item.pieces ++ [.token .rightBrace, .newline])))))) := by
    simp [Declaration.pieces, bodyPieces]
  rw [hpieces, tokensAt_append, tokensAt_append, List.append_assoc, List.append_assoc]
  rw [tokensAt, tokensAt_append, List.cons_append, List.append_assoc]
  exact ⟨_, _, _, _, _, _, _, rfl⟩

/-- A declaration starts with a modifier or with its name, so it does not look like
an import or an option. -/
theorem nextToken_declaration {d : Declaration} (h : IsIdentifier d.id) (p : Position)
    (ts : List Token) : ∃ name, (nextToken (tokensAt p d.pieces ++ ts)).kind = .identifier name
      ∧ name ≠ "import" ∧ name ≠ "option" := by
  obtain ⟨q, r, s, text, t, text', u, htokens⟩ := tokensAt_declaration d p ts
  rw [htokens]
  refine ⟨_, nextToken_modifier (nextToken_modifier rfl _ _) _ _, ?_⟩
  cases d.isPrivate with
  | true => exact show "private" ≠ "import" ∧ "private" ≠ "option" by decide
  | false =>
    cases d.isExtension with
    | true => exact show "extend" ≠ "import" ∧ "extend" ≠ "option" by decide
    | false => exact ⟨ne_of_isIdentifier h (by decide), ne_of_isIdentifier h (by decide)⟩

/-- A declaration is read up to the end of its body, its comments being read. -/
theorem readDeclaration_pieces (file : String) {d : Declaration} (hid : IsIdentifier d.id)
    (hlist : ∀ head ∈ d.list, ∀ name ∈ head.names, IsIdentifier name)
    (hitems : ∀ item ∈ d.body, ∀ name ∈ item.kind.fieldNames, IsIdentifier name)
    (hfirst : d.list = none → ∀ item ∈ d.body.head?, item.comments = [])
    (p : Position) (ts : List Token) : ∃ d', d'.unplaced = d.unplaced
      ∧ readDeclaration file d.comments (tokensAt p d.pieces ++ ts) = .ok (d', ts) := by
  obtain ⟨q, r, s, text, t, text', u, htokens⟩ := tokensAt_declaration d p ts
  obtain ⟨body, hsame, hbody⟩ := readBody_pieces file d.id hlist hitems hfirst u ts
  -- before either of these names the first modifier is one
  have hprivate : (if d.isExtension then "extend" else d.id) ≠ "private" := by
    cases d.isExtension with
    | true => exact show "extend" ≠ "private" by decide
    | false => exact ne_of_isIdentifier hid (by decide)
  rw [htokens]
  refine ⟨_, ?_, readDeclaration_body
    (readModifier_pieces (nextToken_modifier rfl _ _) hprivate _ _)
    (readModifier_pieces rfl (ne_of_isIdentifier hid (by decide)) _ _)
    (readDefaults_pieces _ _ TokenKind.noConfusion) hbody⟩
  unfold Declaration.unplaced
  rw [hsame]

end Declarations

/-! ## §6. Files. -/

section Files

variable {file : String} {ts : List Token}

/-- The thing without its places. -/
def TopLevel.unplaced : TopLevel → TopLevel
  | resource d => .resource d.unplaced
  | top => top

/-- The file without its places. -/
def File.unplaced (file : File) : File :=
  { file with resources := file.resources.map Declaration.unplaced }

/-- What is neither import nor option is a resource. -/
theorem readTopLevel_resource {name : String} (hnext : (nextToken ts).kind = .identifier name)
    (himport : name ≠ "import") (hoption : name ≠ "option") {comments : List String}
    {d : Declaration} {rest : List Token}
    (hread : readDeclaration file comments ts = .ok (d, rest)) :
    readTopLevel file comments ts = .ok (.resource d, rest) := by
  have hword : ∀ word, name ≠ word → (nextToken ts).kind.isWord word = false := by
    intro word hne
    rw [hnext]
    simpa [TokenKind.isWord] using hne
  unfold readTopLevel
  rw [hread]
  dsimp only
  split
  · next t _ _ _ _ =>
    have hkind : t.kind.isWord "import" = false := hword "import" himport
    rw [hkind]
    rfl
  · next t _ _ _ _ _ _ =>
    have hkind : t.kind.isWord "option" = false := hword "option" hoption
    rw [hkind]
    rfl
  · rfl

/-- A declaration is read after its comments. -/
theorem readTopLevel_declaration (file : String) {d : Declaration} (hid : IsIdentifier d.id)
    (hlist : ∀ head ∈ d.list, ∀ name ∈ head.names, IsIdentifier name)
    (hitems : ∀ item ∈ d.body, ∀ name ∈ item.kind.fieldNames, IsIdentifier name)
    (hfirst : d.list = none → ∀ item ∈ d.body.head?, item.comments = [])
    (p : Position) (ts : List Token) : ∃ us d',
      takeComments (tokensAt p (TopLevel.resource d).pieces ++ ts) = (d.comments, us)
      ∧ (nextToken us).kind ≠ .eof ∧ d'.unplaced = d.unplaced
      ∧ readTopLevel file d.comments us = .ok (.resource d', ts) := by
  let q := p.past (commentPieces 0 d.comments)
  obtain ⟨d', hsame, hread⟩ := readDeclaration_pieces file hid hlist hitems hfirst q ts
  obtain ⟨name, hname, himport, hoption⟩ := nextToken_declaration hid q ts
  refine ⟨tokensAt q d.pieces ++ ts, d', ?_, ?_, hsame, ?_⟩
  · rw [TopLevel.pieces, tokensAt_append, List.append_assoc]
    refine takeComments_pieces 0 p fun text => ?_
    rw [hname]
    exact TokenKind.noConfusion
  · rw [hname]
    exact TokenKind.noConfusion
  · exact readTopLevel_resource hname himport hoption hread

/-- One thing of the top level is read, its comments first. -/
theorem readTopLevel_pieces (file : String) {top : TopLevel} (h : top.Printable)
    (p : Position) (ts : List Token) : ∃ comments us top',
      takeComments (tokensAt p top.pieces ++ ts) = (comments, us)
      ∧ (nextToken us).kind ≠ .eof ∧ top'.unplaced = top.unplaced
      ∧ readTopLevel file comments us = .ok (top', ts) := by
  cases top with
  | importing path => exact ⟨[], _, .importing path, rfl, TokenKind.noConfusion, rfl, rfl⟩
  | option name value => exact ⟨[], _, .option name value, rfl, TokenKind.noConfusion, rfl, rfl⟩
  | resource d =>
    obtain ⟨us, d', htake, hne, hsame, hread⟩ := readTopLevel_declaration file h.id h.list
      (fun item hitem => (h.items item hitem).fieldNames) h.first p ts
    exact ⟨d.comments, us, .resource d', htake, hne, congrArg TopLevel.resource hsame, hread⟩

/-- A declaration at the top is read with its comments, and the others behind it. -/
theorem readTopLevels_next {comments : List String} {us vs : List Token} {top : TopLevel}
    {tops : List TopLevel} (htake : takeComments ts = (comments, us))
    (hne : (nextToken us).kind ≠ .eof) (hread : readTopLevel file comments us = .ok (top, vs))
    (hrest : readTopLevels file vs = .ok tops) : readTopLevels file ts = .ok (top :: tops) := by
  rw [readTopLevels, htake]
  split
  · next heq => exact absurd heq hne
  · split
    · next heq =>
      rw [hread] at heq
      cases heq
    · next heq =>
      rw [hread] at heq
      cases heq
      rw [hrest]

/-- The end mark ends the file. -/
theorem readTopLevels_eof {text : String} {p : Position} :
    readTopLevels file [⟨.eof, text, p⟩] = .ok [] := by
  rw [readTopLevels]
  rfl

/-- All things of the top level are read, up to the end mark. -/
theorem readTopLevels_pieces (file : String) {tops : List TopLevel}
    (h : ∀ top ∈ tops, top.Printable) (p q : Position) :
    ∃ tops', tops'.map TopLevel.unplaced = tops.map TopLevel.unplaced
      ∧ readTopLevels file (tokensAt p (tops.flatMap TopLevel.pieces) ++ [⟨.eof, "", q⟩])
        = .ok tops' := by
  induction tops generalizing p with
  | nil => exact ⟨[], rfl, readTopLevels_eof⟩
  | cons top tops ih =>
    rw [List.forall_mem_cons] at h
    -- the others are read from the place where the first one ends
    obtain ⟨tops', hsames, hreads⟩ := ih h.2 (p.past top.pieces)
    obtain ⟨comments, us, top', htake, hne, hsame, hread⟩ := readTopLevel_pieces file h.1 p
      (tokensAt (p.past top.pieces) (tops.flatMap TopLevel.pieces) ++ [⟨.eof, "", q⟩])
    refine ⟨top' :: tops', ?_, ?_⟩
    · rw [List.map_cons, List.map_cons, hsame, hsames]
    · rw [List.flatMap_cons, tokensAt_append, List.append_assoc]
      exact readTopLevels_next htake hne hread hreads

/-- Taking places away goes through a file. -/
theorem unplaced_ofTopLevels (tops : List TopLevel) :
    (File.ofTopLevels tops).unplaced = File.ofTopLevels (tops.map TopLevel.unplaced) := by
  simp only [File.unplaced, File.ofTopLevels, List.filterMap_map, List.map_filterMap]
  congr
  all_goals
    funext top
    cases top <;> rfl

/-- Nothing is kept of what maps to nothing. -/
theorem filterMap_map_none {α β γ : Type} {f : α → β} {g : β → Option γ}
    (h : ∀ a, g (f a) = none) (as : List α) : (as.map f).filterMap g = [] := by
  rw [List.filterMap_map]
  exact List.filterMap_eq_nil_iff.2 fun a _ => h a

/-- Everything is kept of what maps to itself. -/
theorem filterMap_map_some {α β : Type} {f : α → β} {g : β → Option α}
    (h : ∀ a, g (f a) = some a) (as : List α) : (as.map f).filterMap g = as := by
  rw [List.filterMap_map, show g ∘ f = some from funext h, List.filterMap_some]

/-- Nothing is lost between a file and what it says at its top level. -/
theorem ofTopLevels_topLevels {f : File} (h : f.packs = ∅) :
    File.ofTopLevels f.topLevels = f := by
  obtain ⟨imports, options, resources, packs⟩ := f
  subst h
  simp only [File.ofTopLevels, File.topLevels, List.filterMap_append, filterMap_map_some,
    filterMap_map_none, implies_true, List.nil_append, List.append_nil, Table.ofList_entries]

/-- **Parsing undoes printing.**  The canonical text of a printable file is
parsed as that file, with new places. -/
theorem parse_text {f : File} (h : f.Printable) (name : String) :
    ∃ parsed, File.parse f.text name = .ok parsed ∧ parsed.unplaced = f.unplaced := by
  obtain ⟨tops, hsame, hread⟩ := readTopLevels_pieces name h.topLevels .start
    (Position.start.past (f.topLevels.flatMap TopLevel.pieces))
  refine ⟨File.ofTopLevels tops, ?_, ?_⟩
  · unfold File.parse Token.scan File.text
    rw [String.toList_ofList, scanFrom_render (separated_topLevels h.topLevels)]
    dsimp only
    unfold File.ofTokens
    rw [hread]
  · rw [unplaced_ofTopLevels, hsame, ← unplaced_ofTopLevels, ofTopLevels_topLevels h.noPacks]

/-- A file with something of everything. -/
def systemFile : File where
  imports := ["core.lr"]
  options := Table.ofList [("go_package", "\"os\"\\")]
  resources :=
    [{ comments := ["// Operating system", "//"], isPrivate := true, isExtension := true,
       id := "os", defaults := some "name", list := none,
       body := [⟨[], .init [⟨"path", false, .named "string"⟩,
           ⟨"depth", true, .list (.named "int")⟩], .start⟩,
         ⟨["// Its name"], .field ⟨"name", none, some (.named "string")⟩, .start⟩,
         ⟨[], .embed "core.platform" (some "on"), .start⟩,
         ⟨[], .embed "core.hosts" none, .start⟩,
         ⟨[], .field ⟨"env", some [], some (.map "string" (.list (.named "os.user")))⟩, .start⟩,
         ⟨[], .field ⟨"up", some ["name", "env"], none⟩, .start⟩],
       pos := .start },
     { comments := [], isPrivate := false, isExtension := false, id := "os.users",
       defaults := none, list := some ⟨"os.user", some ["name"]⟩,
       body := [⟨["// The first"], .field ⟨"name", none, none⟩, .start⟩], pos := .start }]
  packs := ∅

/-- Texts are put together as their characters are. -/
theorem append_eq_ofList {s t : String} {l m : List Char} (hs : s = .ofList l)
    (ht : t = .ofList m) : s ++ t = .ofList (l ++ m) := by
  rw [hs, ht, String.ofList_append]

/-- A file with comments, an init, embedded resources and escaped options is printed
and read back. -/
theorem parse_text_systemFile :
    systemFile.Printable
      ∧ systemFile.text = "import \"core.lr\"\noption go_package = \"\\\"os\\\"\\\\\"\n"
        ++ "// Operating system\n//\nprivate extend os @defaults(\"name\") \x7b\n"
        ++ "  init(path string, depth? []int)\n  // Its name\n  name string\n"
        ++ "  embed core.platform as on\n  embed core.hosts\n"
        ++ "  env() map[string][]os.user\n  up(name, env)\n\x7d\n"
        ++ "os.users \x7b\n  []os.user(name)\n  // The first\n  name\n\x7d\n"
      ∧ ∃ parsed, File.parse systemFile.text "os.lr" = .ok parsed
        ∧ parsed.unplaced = systemFile.unplaced := by
  have hprintable : systemFile.Printable := by decide +kernel
  refine ⟨hprintable, ?_, parse_text hprintable "os.lr"⟩
  -- As lists of characters: of two texts the kernel would compare the encodings.
  refine .trans (congrArg String.ofList ?_) (append_eq_ofList (append_eq_ofList (append_eq_ofList
    (append_eq_ofList (append_eq_ofList rfl rfl) rfl) rfl) rfl) rfl).symm
  decide +kernel

end Files

end LazyFields.Source
