/-
  LazyFields.Proofs.Source.Moved
  ────────────────────────────────
  **ITEMS ON ANOTHER LINE.**

  What a reader of the grammar has taken, it takes again where the same tokens stand
  on another line with other tokens after them.  Each reader has one lemma
  `*_moved` that says so, and what must not come next: for a type a bracket, which
  would make `map` a map; for a field that `Fresh` does not hold, as its type may
  stand on its own line only.

  - `Spells` — the tokens spell the item, on whatever line they stand.
  - `ItemKind.Swallows` — the two items that take words of the next lines, as the
    search for a name after `embed` and for an alias does not look at lines.
  - `spells_readItemKind` — whatever was read as an item spells it.
-/
import Mathlib.Data.List.Forall2
import LazyFields.Proofs.Source.Lines
import LazyFields.Proofs.Source.Steps
import LazyFields.Proofs.Source.Comments
import LazyFields.Proofs.Source.RoundTrip

namespace LazyFields.Source

/-! ## §1. The same tokens on another line. -/

section Tokens

variable {line : Nat} {t : Token} {ts ts' us more : List Token}

/-- Only no tokens are no tokens, moved. -/
theorem moved_nil : Moved line [] us ↔ us = [] := List.forall₂_nil_left_iff

/-- Moving the first token and moving the rest. -/
theorem moved_cons : Moved line (t :: ts) us ↔
    ∃ l p vs, us = ⟨t.kind, l, p⟩ :: vs ∧ p.line = line ∧ Moved line ts vs := by
  unfold Moved
  rw [List.forall₂_cons_left_iff]
  constructor
  · rintro ⟨u, vs, ⟨hkind, hline⟩, hvs, rfl⟩
    exact ⟨u.lexeme, u.pos, vs, by rw [← hkind], hline, hvs⟩
  · rintro ⟨l, p, vs, rfl, hline, hvs⟩
    exact ⟨⟨t.kind, l, p⟩, vs, ⟨rfl, hline⟩, hvs, rfl⟩

/-- Tokens in two parts are moved part by part. -/
theorem moved_append : Moved line (ts ++ ts') us ↔
    ∃ vs ws, us = vs ++ ws ∧ Moved line ts vs ∧ Moved line ts' ws := by
  induction ts generalizing us with
  | nil => simp [moved_nil]
  | cons t ts ih =>
    simp only [List.cons_append, moved_cons, ih]
    constructor
    · rintro ⟨l, p, _, rfl, hline, vs, ws, rfl, hvs, hws⟩
      exact ⟨_, ws, rfl, ⟨l, p, vs, rfl, hline, hvs⟩, hws⟩
    · rintro ⟨_, ws, rfl, ⟨l, p, vs, rfl, hline, hvs⟩, hws⟩
      exact ⟨l, p, _, rfl, hline, vs, ws, rfl, hvs, hws⟩

/-- The next token is that of what was moved, or of what comes after if that was nothing. -/
theorem kind_nextToken_moved (h : Moved line ts us) (more : List Token) :
    (nextToken (us ++ more)).kind = (ts.head?.map Token.kind).getD (nextToken more).kind := by
  cases ts with
  | nil =>
    obtain rfl := moved_nil.1 h
    rfl
  | cons t ts =>
    obtain ⟨l, p, vs, rfl, -, -⟩ := moved_cons.1 h
    rfl

/-- Moving keeps the kinds of tokens. -/
theorem Moved.mem_kind (h : Moved line ts us) : ∀ t ∈ ts, ∃ u ∈ us, u.kind = t.kind := by
  induction h with
  | nil => simp
  | cons hsame _ ih =>
    simp only [List.forall_mem_cons, List.exists_mem_cons_iff]
    exact ⟨.inl hsame.1, fun t ht => .inr (ih t ht)⟩

end Tokens

/-! ## §2. Types, names and arguments. -/

section Readers

variable {file : String} {ts rest : List Token}

/-- The kind of the first token of a type. -/
def TypeExpr.firstKind : TypeExpr → TokenKind
  | named name => .identifier name
  | list _ => .leftBracket
  | map _ _ => .identifier "map"

/-- A type is read from tokens of its own, and from these moved to any line. -/
theorem readType_moved {type : TypeExpr} (h : readType file ts = .ok (type, rest)) :
    ∃ t used, ts = t :: (used ++ rest) ∧ t.kind = type.firstKind ∧
      ∀ line us more, Moved line (t :: used) us → (nextToken more).kind ≠ .leftBracket →
        readType file (us ++ more) = .ok (type, more) := by
  -- the reader looks at the kinds of the tokens, not at their places
  fun_induction readType file ts generalizing type rest with
  | case2 _ _ _ _ ts element rest' hread ih =>
    cases h
    obtain ⟨t, used, rfl, -, hmoved⟩ := ih hread
    refine ⟨_, _ :: t :: used, rfl, rfl, ?_⟩
    intro line us more hus hmore
    obtain ⟨l, p, _, rfl, -, htail⟩ := moved_cons.1 hus
    obtain ⟨l', p', us, rfl, -, helement⟩ := moved_cons.1 htail
    show readType file (⟨.leftBracket, l, p⟩ :: ⟨.rightBracket, l', p'⟩ :: (us ++ more)) = _
    rw [readType, hmoved line us more helement hmore]
  | case5 _ _ _ _ key _ _ _ _ ts value rest' hread ih =>
    cases h
    obtain ⟨t, used, rfl, -, hmoved⟩ := ih hread
    refine ⟨_, _ :: _ :: _ :: t :: used, rfl, rfl, ?_⟩
    intro line us more hus hmore
    obtain ⟨l₁, p₁, _, rfl, -, hbracket⟩ := moved_cons.1 hus
    obtain ⟨l₂, p₂, _, rfl, -, hkey⟩ := moved_cons.1 hbracket
    obtain ⟨l₃, p₃, _, rfl, -, hclose⟩ := moved_cons.1 hkey
    obtain ⟨l₄, p₄, us, rfl, -, hvalue⟩ := moved_cons.1 hclose
    show readType file (⟨.identifier "map", l₁, p₁⟩ :: ⟨.leftBracket, l₂, p₂⟩
      :: ⟨.identifier key, l₃, p₃⟩ :: ⟨.rightBracket, l₄, p₄⟩ :: (us ++ more)) = _
    rw [readType, hmoved line us more hvalue hmore]
    rfl
  | case8 | case9 =>
    cases h
    refine ⟨_, [], rfl, rfl, ?_⟩
    intro line us more hus hmore
    obtain ⟨l, p, vs, rfl, -, hvs⟩ := moved_cons.1 hus
    obtain rfl := moved_nil.1 hvs
    exact readType_name fun _ => hmore
  | _ => cases h

/-- A qualified name is read from tokens of its own, and from these moved to any
line; its line moves along. -/
theorem readNames_moved {names : List String} {l : Nat}
    (h : readNames file ts = .ok (names, l, rest)) : ∃ used, ts = used ++ rest ∧
      ∀ line us more, Moved line used us →
        readNames file (us ++ more) = .ok (names, line, more) := by
  fun_induction readNames file ts generalizing names l rest with
  | case1 =>
    cases h
    refine ⟨[_], rfl, ?_⟩
    intro line us more hus
    obtain ⟨l, p, vs, rfl, rfl, hvs⟩ := moved_cons.1 hus
    obtain rfl := moved_nil.1 hvs
    rfl
  | case3 name _ _ _ _ ts names' l' rest' hread ih =>
    cases h
    obtain ⟨used, rfl, hmoved⟩ := ih hread
    refine ⟨_ :: _ :: used, rfl, ?_⟩
    intro line us more hus
    obtain ⟨l₁, p₁, _, rfl, -, hcomma⟩ := moved_cons.1 hus
    obtain ⟨l₂, p₂, us, rfl, -, hnames⟩ := moved_cons.1 hcomma
    show readNames file (⟨.identifier name, l₁, p₁⟩ :: ⟨.comma, l₂, p₂⟩ :: (us ++ more)) = _
    rw [readNames, hmoved line us more hnames]
  | case4 =>
    cases h
    refine ⟨[_, _], rfl, ?_⟩
    intro line us more hus
    obtain ⟨l₁, p₁, _, rfl, -, hclose⟩ := moved_cons.1 hus
    obtain ⟨l₂, p₂, vs, rfl, rfl, hvs⟩ := moved_cons.1 hclose
    obtain rfl := moved_nil.1 hvs
    rfl
  | _ => cases h

/-- The mark and the type of an argument. -/
theorem readOptional_moved {type : TypeExpr}
    (h : readType file (readOptional ts).2 = .ok (type, rest)) : ∃ used, ts = used ++ rest ∧
      ∀ line us more, Moved line used us → (nextToken more).kind ≠ .leftBracket →
        (readOptional (us ++ more)).1 = (readOptional ts).1 ∧
          readType file (readOptional (us ++ more)).2 = .ok (type, more) := by
  obtain ⟨t, used, hts, hfirst, hmoved⟩ := readType_moved h
  unfold readOptional at hts
  split at hts
  · next l p vs =>
    refine ⟨_ :: t :: used, congrArg _ hts, ?_⟩
    intro line us more hus hmore
    obtain ⟨l, p, us, rfl, -, hus⟩ := moved_cons.1 hus
    exact ⟨rfl, hmoved line us more hus hmore⟩
  · subst hts
    refine ⟨t :: used, rfl, ?_⟩
    intro line us more hus hmore
    have hread := hmoved line us more hus hmore
    obtain ⟨l, p, us, rfl, -, -⟩ := moved_cons.1 hus
    -- a type does not start with the mark
    have hnone : ∀ l p vs, readOptional (⟨type.firstKind, l, p⟩ :: vs)
        = (false, ⟨type.firstKind, l, p⟩ :: vs) := by
      intro l p vs
      cases type <;> rfl
    obtain ⟨kind, l', p'⟩ := t
    obtain rfl : kind = _ := hfirst
    rw [List.cons_append, hnone, hnone]
    exact ⟨rfl, hread⟩

/-- Arguments are read from tokens of their own, and from these moved to any
line. -/
theorem readArgs_moved {args : List ArgDecl} (h : readArgs file ts = .ok (args, rest)) :
    ∃ used, ts = used ++ rest ∧
      ∀ line us more, Moved line used us → readArgs file (us ++ more) = .ok (args, more) := by
  fun_induction readArgs file ts generalizing args rest with
  | case1 =>
    cases h
    refine ⟨[_], rfl, ?_⟩
    intro line us more hus
    obtain ⟨l, p, vs, rfl, -, hvs⟩ := moved_cons.1 hus
    obtain rfl := moved_nil.1 hvs
    show readArgs file (⟨.rightParen, l, p⟩ :: more) = _
    rw [readArgs]
  | case4 name l₀ p₀ ts type _ l₁ p₁ vs htype args' rest' hread =>
    rename_i ih
    cases h
    obtain ⟨first, hts, hfirst⟩ := readOptional_moved htype
    obtain ⟨used, rfl, hmoved⟩ := ih hread
    refine ⟨⟨.identifier name, l₀, p₀⟩ :: (first ++ ⟨.comma, l₁, p₁⟩ :: used), by simp [hts], ?_⟩
    intro line us more hus
    simp only [moved_cons, moved_append] at hus
    obtain ⟨l, p, _, rfl, -, us, _, rfl, hus, l', p', vs, rfl, -, hvs⟩ := hus
    obtain ⟨hmark, htype'⟩ :=
      hfirst line us (⟨.comma, l', p'⟩ :: (vs ++ more)) hus TokenKind.noConfusion
    rw [List.cons_append, List.append_assoc, List.cons_append,
      readArgs_more rfl htype' (hmoved line vs more hvs), hmark]
  | case5 name l₀ p₀ ts type _ l₁ p₁ vs htype =>
    cases h
    obtain ⟨first, hts, hfirst⟩ := readOptional_moved htype
    refine ⟨⟨.identifier name, l₀, p₀⟩ :: (first ++ [⟨.rightParen, l₁, p₁⟩]), by simp [hts], ?_⟩
    intro line us more hus
    simp only [moved_cons, moved_append, moved_nil] at hus
    obtain ⟨l, p, _, rfl, -, us, _, rfl, hus, l', p', _, rfl, -, rfl⟩ := hus
    obtain ⟨hmark, htype'⟩ :=
      hfirst line us (⟨.rightParen, l', p'⟩ :: more) hus TokenKind.noConfusion
    rw [List.cons_append, List.append_assoc, List.cons_append, List.nil_append,
      readArgs_last rfl htype', hmark]
  | _ => cases h

end Readers

/-! ## §3. Items. -/

/-- What comes after a line: it is on another line, and no bracket opens there. -/
structure Fresh (line : Nat) (more : List Token) : Prop where
  line : (nextToken more).pos.line ≠ line
  paren : (nextToken more).kind ≠ .leftParen
  bracket : (nextToken more).kind ≠ .leftBracket

section Items

variable {file : String} {ts rest : List Token}

/-- References are read from tokens of their own, and from these moved to any line,
unless a parenthesis follows. -/
theorem readRefs_moved {l l' : Nat} {refs : Option (List String)}
    (h : readRefs file l ts = .ok (refs, l', rest)) : ∃ used, ts = used ++ rest ∧
      used.head?.map Token.kind = refs.map (fun _ => .leftParen) ∧
      ∀ line us more, Moved line used us → (nextToken more).kind ≠ .leftParen →
        readRefs file line (us ++ more) = .ok (refs, line, more) := by
  unfold readRefs at h
  split at h
  · next hparen =>
    obtain ⟨l, p, hts⟩ := eq_cons_of_nextToken hparen TokenKind.noConfusion
    obtain ⟨⟨names, l', vs⟩, hnames, hrest⟩ := bind_eq_ok.1 h
    cases hrest
    obtain ⟨used, hused, hmoved⟩ := readNames_moved hnames
    refine ⟨⟨.leftParen, l, p⟩ :: used, by rw [hts, hused]; rfl, rfl, ?_⟩
    intro line us more hus _
    obtain ⟨l, p, us, rfl, -, hus⟩ := moved_cons.1 hus
    show readRefs file line (⟨.leftParen, l, p⟩ :: (us ++ more)) = _
    rw [readRefs, nextToken_cons, if_pos rfl, List.tail_cons, hmoved line us more hus]
    rfl
  · cases h
    refine ⟨[], rfl, rfl, ?_⟩
    intro line us more hus hmore
    obtain rfl := moved_nil.1 hus
    rw [List.nil_append, readRefs, if_neg hmore]

/-- A field's type is read from tokens of its own, and from these moved to any line,
if what follows starts on another. -/
theorem readFieldType_moved {l : Nat} {type : Option TypeExpr}
    (h : readFieldType file l ts = .ok (type, rest)) : ∃ used, ts = used ++ rest ∧
      used.head?.map Token.kind = type.map TypeExpr.firstKind ∧
      ∀ line us more, Moved line used us → Fresh line more →
        readFieldType file line (us ++ more) = .ok (type, more) := by
  rw [readFieldType_eq] at h
  split at h
  · obtain ⟨⟨type, vs⟩, htype, hrest⟩ := bind_eq_ok.1 h
    cases hrest
    obtain ⟨t, used, rfl, hfirst, hmoved⟩ := readType_moved htype
    refine ⟨t :: used, rfl, congrArg some hfirst, ?_⟩
    intro line us more hus hmore
    have hread := hmoved line us more hus hmore.bracket
    obtain ⟨l, p, us, rfl, hline, -⟩ := moved_cons.1 hus
    have hstart : t.kind.isIdentifier || t.kind = .leftBracket := by
      rw [hfirst]
      cases type <;> rfl
    -- the type begins on the line of what stands before it, as it did
    rw [readFieldType_eq, List.cons_append, nextToken_cons, if_pos (by simp [hstart, hline]),
      ← List.cons_append, hread]
    rfl
  · cases h
    refine ⟨[], rfl, rfl, ?_⟩
    intro line us more hus hmore
    obtain rfl := moved_nil.1 hus
    rw [List.nil_append, readFieldType_eq, if_neg (by simp [hmore.line])]

/-- The kind of the token after the name of a field, if it has another one. -/
def FieldDecl.second (decl : FieldDecl) : Option TokenKind :=
  (decl.refs.map fun _ => .leftParen).or (decl.type.map TypeExpr.firstKind)

/-- A field is read from tokens of its own, and from these moved to any line, if
what follows starts on another. -/
theorem readField_moved {decl : FieldDecl} (h : readField file ts = .ok (decl, rest)) :
    ∃ t used, ts = t :: (used ++ rest) ∧ t.kind = .identifier decl.name ∧
      used.head?.map Token.kind = decl.second ∧
      ∀ line us more, Moved line (t :: used) us → Fresh line more →
        readField file (us ++ more) = .ok (decl, more) := by
  cases ts with
  | nil => cases h
  | cons t ts =>
    rw [readField_eq] at h
    obtain ⟨⟨name, vs⟩, hname, h⟩ := bind_eq_ok.1 h
    obtain ⟨⟨refs, line, ws⟩, hrefs, h⟩ := bind_eq_ok.1 h
    obtain ⟨⟨type, rest'⟩, htype, h⟩ := bind_eq_ok.1 h
    cases h
    obtain ⟨l, p, heq⟩ := expectName_eq_ok hname
    cases heq
    obtain ⟨first, rfl, hfirst, hmoved⟩ := readRefs_moved hrefs
    obtain ⟨last, rfl, hlast, hmoved'⟩ := readFieldType_moved htype
    refine ⟨⟨.identifier name, l, p⟩, first ++ last, by rw [List.append_assoc], rfl, ?_, ?_⟩
    · rw [List.head?_append, FieldDecl.second, ← hfirst, ← hlast]
      cases first.head? <;> rfl
    · intro line us more hus hmore
      simp only [moved_cons, moved_append] at hus
      obtain ⟨l', p', _, rfl, rfl, vs, ws, rfl, hvs, hws⟩ := hus
      -- neither a type nor what follows the field begins with a parenthesis
      have hparen : (nextToken (ws ++ more)).kind ≠ .leftParen := by
        rw [kind_nextToken_moved hws, hlast]
        cases type with
        | none => exact hmore.paren
        | some type => cases type <;> exact TokenKind.noConfusion
      rw [List.cons_append, readField_eq]
      show (readRefs file p'.line (vs ++ ws ++ more) >>= _) = _
      rw [List.append_assoc, hmoved _ vs _ hvs hparen]
      show (readFieldType file p'.line (ws ++ more) >>= _) = _
      rw [hmoved' _ ws _ hws hmore]
      rfl

/-- A token is the word if and only if it is an identifier with that text. -/
theorem isWord_iff {kind : TokenKind} {word : String} :
    kind.isWord word = true ↔ kind = .identifier word := by
  cases kind <;> simp [TokenKind.isWord]

/-- A token is an identifier if and only if it has a name. -/
theorem isIdentifier_iff {kind : TokenKind} :
    kind.isIdentifier = true ↔ ∃ name, kind = .identifier name := by
  cases kind <;> simp [TokenKind.isIdentifier]

/-- An alias comes next. -/
def StartsAlias (ts : List Token) : Prop :=
  (nextToken ts).kind = .identifier "as" ∧ (nextToken ts.tail).kind.isIdentifier = true

/-- Where an alias starts, it is read, and two tokens are taken. -/
theorem readAlias_some (h : StartsAlias ts) : ∃ l p given l' p' rest,
    ts = ⟨.identifier "as", l, p⟩ :: ⟨.identifier given, l', p'⟩ :: rest ∧
      readAlias ts = (some given, rest) := by
  obtain ⟨l, p, hts⟩ := eq_cons_of_nextToken h.1 TokenKind.noConfusion
  obtain ⟨given, hgiven⟩ := isIdentifier_iff.1 h.2
  obtain ⟨l', p', htail⟩ := eq_cons_of_nextToken hgiven TokenKind.noConfusion
  refine ⟨l, p, given, l', p', ts.tail.tail, by rw [← htail, ← hts], ?_⟩
  rw [hts, htail]
  rfl

/-- Where none starts, nothing is taken. -/
theorem readAlias_none (h : ¬ StartsAlias ts) : readAlias ts = (none, ts) := by
  cases ts with
  | nil => rfl
  | cons t ts =>
    rw [readAlias_eq, if_neg]
    intro hcond
    rw [Bool.and_eq_true] at hcond
    exact h ⟨isWord_iff.1 hcond.1, hcond.2⟩

/-- The word that an item starts with. -/
def ItemKind.word : ItemKind → String
  | field decl => decl.name
  | init _ => "init"
  | embed _ _ => "embed"

/-- The kind of the token after it, if the item has another one. -/
def ItemKind.second : ItemKind → Option TokenKind
  | field decl => decl.second
  | init _ => some .leftParen
  | embed resource _ => some (.identifier resource)

/-- The item takes words of the lines after it: it is the word `embed` alone and a name
comes next, or it embeds a resource without an alias and one comes next. -/
def ItemKind.Swallows (kind : ItemKind) (more : List Token) : Prop :=
  (kind = .field ⟨"embed", none, none⟩ ∧ (nextToken more).kind.isIdentifier = true) ∨
    ((∃ resource, kind = .embed resource none) ∧ StartsAlias more)

/-- The tokens spell the item, on whatever line they stand. -/
structure Spells (file : String) (used : List Token) (kind : ItemKind) : Prop where
  word : used.head?.map Token.kind = some (.identifier kind.word)
  second : used.tail.head?.map Token.kind = kind.second
  reads : ∀ line us more, Moved line used us → Fresh line more → ¬ kind.Swallows more →
    readItemKind file (us ++ more) = .ok (kind, more)
  misread : ∀ line us more kind' rest, Moved line used us → kind.Swallows more →
    readItemKind file (us ++ more) = .ok (kind', rest) → kind' ≠ kind

/-- A field with nothing behind its name has neither arguments nor a type. -/
theorem FieldDecl.second_eq_none {decl : FieldDecl} :
    decl.second = none ↔ decl = ⟨decl.name, none, none⟩ := by
  obtain ⟨name, refs, type⟩ := decl
  cases refs <;> cases type <;> simp [FieldDecl.second]

/-- A field that neither `init` nor `embed` claims is spelled by the tokens it
takes. -/
theorem spells_field {t : Token} {decl : FieldDecl}
    (h : readField file (t :: ts) = .ok (decl, rest))
    (hinit : ¬ (t.kind.isWord "init" && (nextToken ts).kind = .leftParen) = true)
    (hembed : ¬ (t.kind.isWord "embed" && (nextToken ts).kind.isIdentifier) = true) :
    ∃ used, t :: ts = used ++ rest ∧ Spells file used (.field decl) := by
  obtain ⟨t, used, heq, hname, hsecond, hmoved⟩ := readField_moved h
  obtain ⟨rfl, rfl⟩ := List.cons.inj heq
  -- a second token is the same wherever the field stands
  have hsame : ∀ k, decl.second = some k → (nextToken (used ++ rest)).kind = k := by
    intro k hk
    rw [hk] at hsecond
    cases used with
    | nil => cases hsecond
    | cons u us => exact Option.some.inj hsecond
  refine ⟨t :: used, rfl, congrArg some hname, hsecond, ?_, ?_⟩
  · intro line us more hus hmore hsingle
    have hread := hmoved line us more hus hmore
    obtain ⟨l, p, us, rfl, -, hus⟩ := moved_cons.1 hus
    have hnext := kind_nextToken_moved hus more
    rw [hsecond] at hnext
    rw [List.cons_append] at hread ⊢
    rw [readItemKind_eq, if_neg, if_neg, hread]
    · rfl
    · cases hk : decl.second with
      | some k => rwa [hnext, hk, Option.getD_some, ← hsame k hk]
      | none =>
        -- a single word: it would be the beginning of an embedded resource
        intro hcond
        rw [hnext, hk, Bool.and_eq_true, isWord_iff, hname] at hcond
        rw [FieldDecl.second_eq_none, TokenKind.identifier.inj hcond.1] at hk
        exact hsingle (.inl ⟨congrArg _ hk, hcond.2⟩)
    · cases hk : decl.second with
      | some k => rwa [hnext, hk, Option.getD_some, ← hsame k hk]
      | none =>
        intro hcond
        rw [hnext, hk, Bool.and_eq_true, decide_eq_true_eq] at hcond
        exact hmore.paren hcond.2
  · intro line us more kind' rest' hus hswallows hread
    obtain ⟨hdecl, hnext⟩ | ⟨⟨resource, hresource⟩, -⟩ := hswallows
    · cases hdecl
      have hused : used = [] := by simpa [FieldDecl.second] using hsecond
      subst hused
      obtain ⟨l, p, _, rfl, -, hnil⟩ := moved_cons.1 hus
      obtain rfl := moved_nil.1 hnil
      obtain ⟨name, hkind⟩ := isIdentifier_iff.1 hnext
      obtain ⟨l', p', hmore⟩ := eq_cons_of_nextToken hkind TokenKind.noConfusion
      rw [List.cons_append, List.nil_append, hmore, hname, readItemKind_embed rfl] at hread
      cases hread
      exact ItemKind.noConfusion
    · cases hresource

/-- `init` and its arguments are spelled by the tokens they take. -/
theorem spells_init {args : List ArgDecl} {l l' : String} {p p' : Position}
    (h : readArgs file ts = .ok (args, rest)) :
    ∃ used, ⟨.identifier "init", l, p⟩ :: ⟨.leftParen, l', p'⟩ :: ts = used ++ rest ∧
      Spells file used (.init args) := by
  obtain ⟨used, rfl, hmoved⟩ := readArgs_moved h
  refine ⟨_ :: _ :: used, rfl, rfl, rfl, ?_, ?_⟩
  · intro line us more hus _ _
    simp only [moved_cons] at hus
    obtain ⟨l, p, _, rfl, -, l', p', us, rfl, -, hus⟩ := hus
    exact readItemKind_init (hmoved line us more hus)
  · intro line us more kind' rest' _ hswallows
    obtain ⟨hkind, -⟩ | ⟨⟨resource, hkind⟩, -⟩ := hswallows <;> cases hkind

/-- So are `embed`, its kind and its alias. -/
theorem spells_embed {resource l l' : String} {p p' : Position} :
    ∃ used, ⟨.identifier "embed", l, p⟩ :: ⟨.identifier resource, l', p'⟩ :: ts
        = used ++ (readAlias ts).2 ∧
      Spells file used (.embed resource (readAlias ts).1) := by
  by_cases halias : StartsAlias ts
  · obtain ⟨l₁, p₁, given, l₂, p₂, rest, rfl, hread⟩ := readAlias_some halias
    rw [hread]
    refine ⟨[_, _, _, _], rfl, rfl, rfl, ?_, ?_⟩
    · intro line us more hus _ _
      simp only [moved_cons, moved_nil] at hus
      obtain ⟨l, p, _, rfl, -, l', p', _, rfl, -, l₁, p₁, _, rfl, -, l₂, p₂, _, rfl, -, rfl⟩ := hus
      exact readItemKind_embed rfl
    · intro line us more kind' rest' _ hswallows
      obtain ⟨hkind, -⟩ | ⟨⟨resource, hkind⟩, -⟩ := hswallows <;> cases hkind
  · rw [readAlias_none halias]
    refine ⟨[_, _], rfl, rfl, rfl, ?_, ?_⟩
    · intro line us more hus _ hsingle
      simp only [moved_cons, moved_nil] at hus
      obtain ⟨l, p, _, rfl, -, l', p', _, rfl, -, rfl⟩ := hus
      -- nothing is renamed here, unless what follows begins an alias
      apply readItemKind_embed
      apply readAlias_none
      intro hmore
      exact hsingle (.inr ⟨⟨resource, rfl⟩, hmore⟩)
    · intro line us more kind' rest' hus hswallows hread
      simp only [moved_cons, moved_nil] at hus
      obtain ⟨l, p, _, rfl, -, l', p', _, rfl, -, rfl⟩ := hus
      obtain ⟨hkind, -⟩ | ⟨-, hmore⟩ := hswallows
      · cases hkind
      · obtain ⟨-, -, given, -, -, vs, -, hgiven⟩ := readAlias_some hmore
        cases hread.symm.trans (readItemKind_embed hgiven)
        simp

/-- **What was read as an item is read so on any line**, unless it swallows. -/
theorem spells_readItemKind {kind : ItemKind} (h : readItemKind file ts = .ok (kind, rest)) :
    ∃ used, ts = used ++ rest ∧ Spells file used kind := by
  cases ts with
  | nil => cases h
  | cons t ts =>
    rw [readItemKind_eq] at h
    split at h
    · next hinit =>
      rw [Bool.and_eq_true, isWord_iff, decide_eq_true_eq] at hinit
      obtain ⟨l, p, hts⟩ := eq_cons_of_nextToken hinit.2 TokenKind.noConfusion
      obtain ⟨⟨args, vs⟩, hargs, h⟩ := bind_eq_ok.1 h
      cases h
      obtain ⟨kind, l', p'⟩ := t
      obtain rfl : kind = _ := hinit.1
      rw [hts]
      exact spells_init hargs
    · next hinit =>
      split at h
      · next hembed =>
        rw [Bool.and_eq_true, isWord_iff, isIdentifier_iff] at hembed
        obtain ⟨hembed, name, hname⟩ := hembed
        obtain ⟨l, p, hts⟩ := eq_cons_of_nextToken hname TokenKind.noConfusion
        rw [hts] at h ⊢
        cases h
        obtain ⟨kind, l', p'⟩ := t
        obtain rfl : kind = _ := hembed
        exact spells_embed
      · next hembed =>
        obtain ⟨⟨decl, vs⟩, hdecl, h⟩ := bind_eq_ok.1 h
        cases h
        exact spells_field hdecl hinit hembed

end Items
end LazyFields.Source
