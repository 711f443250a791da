/-
  LazyFields.Proofs.Source.BodyLines
  ────────────────────────────────
  **BODIES, LINE BY LINE.**

  The items of a body may stand one to a line, and then each line is read as if it
  stood alone, as the type of a field is looked for on its own line only.  The names
  after `embed` and after its `as` are looked for on the next lines too, so there
  are three ways for a line to take words of those after it (`RunsOn`).

  - `Laid` — the tokens of lines that spell their items, one to a line.
  - `Laid.swallows_iff` — an item swallows words of the next lines exactly if it
    runs on.
  - `Laid.readItems`, `Laid.misread` — what is read of the lines if none of them
    runs on, and if one does.
  - `Alone.spells` — a line that is an item alone in a body spells it.
  - `lines_independent_iff` — so the lines of a body are read independently exactly
    if none runs on.
-/
import LazyFields.Proofs.Source.Moved

namespace LazyFields.Source

/-! ## §1. Items one to a line. -/

/-- The first of the items, one to a line, takes words of the lines after it. -/
inductive RunsOn : List ItemKind → Prop
  /-- The word `embed` alone takes the first word of the next line. -/
  | embed (next : ItemKind) (rest : List ItemKind) :
      RunsOn (.field ⟨"embed", none, none⟩ :: next :: rest)
  /-- A line that starts like an alias is one; a type with a bracket first is no name. -/
  | typed (resource : String) (type : TypeExpr) (rest : List ItemKind)
      (h : type.firstKind.isIdentifier = true) :
      RunsOn (.embed resource none :: .field ⟨"as", none, some type⟩ :: rest)
  /-- The word `as` alone has its alias on the line after it. -/
  | untyped (resource : String) (next : ItemKind) (rest : List ItemKind) :
      RunsOn (.embed resource none :: .field ⟨"as", none, none⟩ :: next :: rest)

/-- The tokens of some items, one to a line from the given one on, and of the brace on
the line after them. -/
inductive Laid (file : String) : Nat → List ItemKind → List Token → Prop
  | close (l : String) (p : Position) (e : Token) (he : e.kind = .eof) :
      Laid file p.line [] [⟨.rightBrace, l, p⟩, e]
  | line {used us rest : List Token} {n : Nat} {kind : ItemKind} {kinds : List ItemKind}
      (hspells : Spells file used kind) (hmoved : Moved n used us)
      (hrest : Laid file (n + 1) kinds rest) : Laid file n (kind :: kinds) (us ++ rest)

/-- The kind of the first token of the lines. -/
def firstOf : List ItemKind → TokenKind
  | [] => .rightBrace
  | kind :: _ => .identifier kind.word

section Body

variable {file id : String} {n : Nat} {kind : ItemKind} {kinds : List ItemKind} {ts : List Token}

/-- An item's tokens begin with its word. -/
theorem Spells.cons {used : List Token} (h : Spells file used kind) :
    ∃ t tail, used = t :: tail ∧ t.kind = .identifier kind.word := by
  have hword := h.word
  cases used with
  | nil => cases hword
  | cons t tail => exact ⟨t, tail, rfl, Option.some.inj hword⟩

/-- Behind laid-out items stands the first word of the next of them, on its line. -/
theorem Laid.first (h : Laid file n kinds ts) :
    (nextToken ts).kind = firstOf kinds ∧ (nextToken ts).pos.line = n := by
  cases h with
  | close l p e => exact ⟨rfl, rfl⟩
  | line hspells hmoved _ =>
    obtain ⟨t, tail, rfl, ht⟩ := hspells.cons
    obtain ⟨l, p, vs, rfl, hline, -⟩ := moved_cons.1 hmoved
    exact ⟨ht, hline⟩

/-- The second token behind laid-out items is the item's own, or the first of what
follows it. -/
theorem Laid.second (h : Laid file n (kind :: kinds) ts) :
    (nextToken ts.tail).kind = kind.second.getD (firstOf kinds) := by
  cases h with
  | line hspells hmoved hrest =>
    have hsecond := hspells.second
    obtain ⟨t, tail, rfl, -⟩ := hspells.cons
    obtain ⟨l, p, vs, rfl, -, hvs⟩ := moved_cons.1 hmoved
    rw [List.cons_append, List.tail_cons, kind_nextToken_moved hvs, ← hrest.first.1, ← hsecond]
    rfl

/-- The next laid-out item starts on a fresh line. -/
theorem Laid.fresh (h : Laid file (n + 1) kinds ts) : Fresh n ts := by
  obtain ⟨hfirst, hline⟩ := h.first
  have hparen : firstOf kinds ≠ .leftParen := by
    cases kinds <;> exact TokenKind.noConfusion
  have hbracket : firstOf kinds ≠ .leftBracket := by
    cases kinds <;> exact TokenKind.noConfusion
  exact ⟨by omega, hfirst ▸ hparen, hfirst ▸ hbracket⟩

/-- **An item swallows exactly where it runs on.** -/
theorem Laid.swallows_iff (h : Laid file n kinds ts) :
    kind.Swallows ts ↔ RunsOn (kind :: kinds) := by
  constructor
  · rintro (⟨rfl, hnext⟩ | ⟨⟨resource, rfl⟩, has, hgiven⟩)
    · rw [h.first.1] at hnext
      cases kinds with
      | nil => cases hnext
      | cons next rest => exact .embed next rest
    · rw [h.first.1] at has
      cases kinds with
      | nil => cases has
      | cons next rest =>
        rw [h.second] at hgiven
        -- a name follows the word: the type of the field, or the first word of the item after it
        cases next with
        | field decl =>
          obtain ⟨name, refs, type⟩ := decl
          obtain rfl : name = "as" := TokenKind.identifier.inj has
          cases refs with
          | some refs => cases hgiven
          | none =>
            cases type with
            | some type => exact .typed resource type rest hgiven
            | none =>
              cases rest with
              | nil => cases hgiven
              | cons next rest => exact .untyped resource next rest
        | init | embed => simp [firstOf, ItemKind.word] at has
  · intro hruns
    cases hruns with
    | embed next rest =>
      refine .inl ⟨rfl, ?_⟩
      rw [h.first.1]
      rfl
    | typed resource type rest htype =>
      refine .inr ⟨⟨resource, rfl⟩, h.first.1, ?_⟩
      rw [h.second]
      exact htype
    | untyped resource next rest =>
      refine .inr ⟨⟨resource, rfl⟩, h.first.1, ?_⟩
      rw [h.second]
      rfl

/-- Laid-out items carry no comments. -/
theorem Laid.takeComments (h : Laid file n kinds ts) : takeComments ts = ([], ts) := by
  apply takeComments_of_ne
  intro text
  rw [h.first.1]
  cases kinds <;> exact TokenKind.noConfusion

/-- The items of some kinds, without places. -/
def unplacedItems (kinds : List ItemKind) : List Item := kinds.map fun kind => ⟨[], kind, .start⟩

/-- **Items of which none runs on are read one line after the other.** -/
theorem Laid.readItems (h : Laid file n kinds ts)
    (hsingle : ∀ rest, rest <:+ kinds → ¬ RunsOn rest) :
    ∃ items e, readItems file id ts = .ok (items, [e]) ∧ e.kind = .eof ∧
      items.map Item.unplaced = unplacedItems kinds := by
  induction h with
  | close l p e he => exact ⟨[], e, readItems_close, he, rfl⟩
  | @line used us rest n kind kinds hspells hmoved hrest ih =>
    obtain ⟨items, e, hread, he, hitems⟩ :=
      ih fun rest' h => hsingle rest' (h.trans (List.suffix_cons kind kinds))
    have hwhole : Laid file n (kind :: kinds) (us ++ rest) := .line hspells hmoved hrest
    have hkind := hspells.reads n us rest hmoved hrest.fresh fun hswallows =>
      hsingle _ List.suffix_rfl (hrest.swallows_iff.1 hswallows)
    refine ⟨_, e, readItems_item hwhole.takeComments ?_ hkind hread, he, ?_⟩
    · rw [hwhole.first.1]
      rfl
    · rw [List.map_cons, hitems]
      rfl

/-- **If one of them runs on, the items that are read are others.** -/
theorem Laid.misread (h : Laid file n kinds ts) {rest : List ItemKind} (hrest : rest <:+ kinds)
    (hruns : RunsOn rest) {items : List Item} {left : List Token}
    (hread : Source.readItems file id ts = .ok (items, left)) : items.map Item.kind ≠ kinds := by
  induction h generalizing items left with
  | close l p e he =>
    cases List.suffix_nil.1 hrest
    cases hruns
  | @line used us vs n kind kinds hspells hmoved hvs ih =>
    have hwhole : Laid file n (kind :: kinds) (us ++ vs) := .line hspells hmoved hvs
    cases items with
    | nil => exact List.cons_ne_nil _ _ ∘ Eq.symm
    | cons item items =>
      obtain ⟨-, -, ws, hkind, hmore⟩ := readItems_cons hread
      rw [hwhole.takeComments] at hkind
      rw [List.map_cons, ne_eq, List.cons.injEq, not_and]
      intro hsame
      by_cases hswallows : kind.Swallows vs
      · exact absurd hsame (hspells.misread n us vs _ _ hmoved hswallows hkind)
      · -- this item is read as it stands, so one after it runs on
        have hlater : rest <:+ kinds := by
          obtain rfl | hlater := List.suffix_cons_iff.1 hrest
          · exact absurd (hvs.swallows_iff.2 hruns) hswallows
          · exact hlater
        cases hkind.symm.trans (hspells.reads n us vs hmoved hvs.fresh hswallows)
        exact ih hlater hmore

end Body

/-! ## §2. A resource around the lines. -/

section Resource

variable {file : String} {p p' : Position} {l l' : String} {us : List Token}

/-- The first resource is the one that is opened. -/
theorem readTopLevels_opened :
    readTopLevels file (⟨.identifier "r", l, p⟩ :: ⟨.leftBrace, l', p'⟩ :: us) = do
      let (list, body, rest) ← readBody file "r" us
      let tops ← readTopLevels file rest
      return .resource ⟨[], false, false, "r", none, list, body, p⟩ :: tops := by
  rw [readTopLevels_eq, if_neg (by exact TokenKind.noConfusion)]
  show (readTopLevel file [] (⟨.identifier "r", l, p⟩ :: ⟨.leftBrace, l', p'⟩ :: us) >>= _) = _
  rw [readTopLevel_eq, if_neg (by simp [TokenKind.isWord]), if_neg (by simp [TokenKind.isWord]),
    readDeclaration_eq]
  show (((readBody file "r" us >>= _) >>= _) >>= _) = _
  cases readBody file "r" us with
  | error e => rfl
  | ok b => rfl

/-- What `takeString` takes is a string token. -/
theorem takeString_eq_ok {value : String} {ts rest : List Token}
    (h : takeString file ts = .ok (value, rest)) :
    ∃ l p, ts = ⟨.string value, l, p⟩ :: rest := by
  unfold takeString at h
  grind

/-- What stands at the top level is a resource, or is read without a closing brace. -/
theorem readTopLevel_cut {comments : List String} {ts rest : List Token} {top : TopLevel}
    (h : readTopLevel file comments ts = .ok (top, rest)) :
    (∃ d, top = .resource d) ∨ ∃ used, ts = used ++ rest ∧ ∀ t ∈ used, t.kind ≠ .rightBrace := by
  cases ts with
  | nil => cases h
  | cons t ts =>
    rw [readTopLevel_eq] at h
    split at h
    · next hword =>
      rw [Bool.and_eq_true, isWord_iff] at hword
      obtain ⟨⟨path, vs⟩, hpath, h⟩ := bind_eq_ok.1 h
      obtain ⟨l, p, rfl⟩ := takeString_eq_ok hpath
      cases h
      refine .inr ⟨[t, ⟨.string path, l, p⟩], rfl, ?_⟩
      simp [hword.1]
    · split at h
      · next hword =>
        rw [Bool.and_eq_true, Bool.and_eq_true, isWord_iff] at hword
        obtain ⟨⟨name, us⟩, hname, h⟩ := bind_eq_ok.1 h
        obtain ⟨vs, hassign, h⟩ := bind_eq_ok.1 h
        obtain ⟨⟨value, ws⟩, hvalue, h⟩ := bind_eq_ok.1 h
        obtain ⟨l, p, rfl⟩ := expectName_eq_ok hname
        obtain ⟨l', p', rfl⟩ := takeString_eq_ok hvalue
        cases h
        cases us with
        | nil => cases hassign
        | cons u us =>
          rw [takeToken] at hassign
          split at hassign
          · next hu =>
            cases hassign
            refine .inr ⟨[t, ⟨.identifier name, l, p⟩, u, ⟨.string value, l', p'⟩], rfl, ?_⟩
            simp [hword.1.1, hu]
          · cases hassign
      · obtain ⟨⟨d, vs⟩, -, h⟩ := bind_eq_ok.1 h
        cases h
        exact .inl ⟨d, rfl⟩

/-- The token is neither a comment nor the end mark. -/
def Token.IsRead (t : Token) : Prop := t.kind ≠ .eof ∧ t.comment? = none

/-- A token that is no comment leaves nothing to collect. -/
theorem takeComments_of_uncommented {t : Token} {ts : List Token} (h : t.comment? = none) :
    takeComments (t :: ts) = ([], t :: ts) := by
  apply takeComments_of_ne
  intro text htext
  rw [nextToken_cons] at htext
  rw [Token.comment?, htext] at h
  cases h

/-- Before a token that is read, a closing brace included, no comment is
collected. -/
theorem takeComments_braced {before after : List Token} {b : Token} (hb : b.kind = .rightBrace)
    (hbefore : ∀ t ∈ before, t.IsRead) :
    takeComments (before ++ b :: after) = ([], before ++ b :: after) := by
  cases before with
  | nil => exact takeComments_of_uncommented (by simp [Token.comment?, hb])
  | cons t before => exact takeComments_of_uncommented (hbefore t List.mem_cons_self).2

/-- What was read without a brace was read before it. -/
theorem brace_to_come {before after used rest : List Token} {b : Token}
    (hcut : before ++ b :: after = used ++ rest) (hb : b.kind = .rightBrace)
    (hused : ∀ t ∈ used, t.kind ≠ .rightBrace) :
    ∃ before', before = used ++ before' ∧ rest = before' ++ b :: after := by
  obtain ⟨cs, rfl, hafter⟩ | ⟨cs, rfl, hrest⟩ := List.append_eq_append_iff.1 hcut
  · cases cs with
    | nil => exact ⟨[], by simp, hafter.symm⟩
    | cons c cs =>
      obtain ⟨rfl, -⟩ := List.cons.inj hafter
      exact absurd hb (hused _ (by simp))
  · exact ⟨cs, rfl, hrest⟩

/-- A closing brace at the top level belongs to a resource. -/
theorem resource_of_brace {before after : List Token} {b : Token} {tops : List TopLevel}
    (h : readTopLevels file (before ++ b :: after) = .ok tops) (hb : b.kind = .rightBrace)
    (hbefore : ∀ t ∈ before, t.IsRead) : ∃ d, .resource d ∈ tops := by
  induction tops generalizing before with
  | nil =>
    have hnext : (nextToken (takeComments (before ++ b :: after)).2).kind ≠ .eof := by
      rw [takeComments_braced hb hbefore]
      cases before with
      | nil => simp [nextToken, hb]
      | cons t before => exact (hbefore t List.mem_cons_self).1
    rw [readTopLevels_eq, if_neg hnext] at h
    obtain ⟨⟨top, rest⟩, -, h⟩ := bind_eq_ok.1 h
    obtain ⟨tops, -, h⟩ := bind_eq_ok.1 h
    cases h
  | cons top tops ih =>
    obtain ⟨rest, htop, htops⟩ := readTopLevels_cons h
    rw [takeComments_braced hb hbefore] at htop
    obtain ⟨d, rfl⟩ | ⟨used, hcut, hused⟩ := readTopLevel_cut htop
    · exact ⟨d, List.mem_cons_self⟩
    · obtain ⟨before', rfl, rfl⟩ := brace_to_come hcut hb hused
      obtain ⟨d, hd⟩ := ih htops fun t ht => hbefore t (List.mem_append_right used ht)
      exact ⟨d, List.mem_cons_of_mem top hd⟩

end Resource

/-! ## §3. Lines on their own. -/

/-- A resource with the lines as its body. -/
def bodyText (lines : List String) : String :=
  "\n".intercalate ("r \x7b" :: (lines ++ ["\x7d"]))

/-- The line is free of comments, and the body of a resource that has it alone is the
item. -/
structure Alone (file line : String) (item : Item) : Prop where
  oneLine : '\n' ∉ line.toList
  uncommented : ∀ ts, Token.scan line file = .ok ts → ∀ t ∈ ts, t.comment? = none
  parses : ∃ parsed d, File.parse (bodyText [line]) file = .ok parsed ∧ parsed.resources = [d] ∧
    d.list = none ∧ d.body = [item]

/-- What it is to stand alone, on the text: one line, without comments, and by
itself the whole body of a declaration. -/
theorem alone_iff {file line : String} {item : Item} : Alone file line item ↔
    '\n' ∉ line.toList ∧ (∀ t ∈ (Token.scan line file).toOption.getD [], t.comment? = none) ∧
      (File.parse (bodyText [line]) file).toOption.map
        (fun parsed => parsed.resources.map fun d => (d.list, d.body)) = some [(none, [item])] := by
  constructor
  · intro h
    obtain ⟨parsed, d, hparse, hresources, hlist, hbody⟩ := h.parses
    refine ⟨h.oneLine, ?_, by simp [hparse, hresources, hlist, hbody, Except.toOption]⟩
    cases hscan : Token.scan line file with
    | error e => simp [Except.toOption]
    | ok ts => exact h.uncommented ts hscan
  · rintro ⟨hline, huncommented, hparses⟩
    refine ⟨hline, fun ts hscan => by simpa [hscan, Except.toOption] using huncommented, ?_⟩
    cases hparse : File.parse (bodyText [line]) file with
    | error e => simp [hparse, Except.toOption] at hparses
    | ok parsed =>
      rw [hparse] at hparses
      obtain ⟨d, hresources, hparts⟩ := List.map_eq_singleton_iff.1 (Option.some.inj hparses)
      exact ⟨parsed, d, rfl, hresources, congrArg Prod.fst hparts, congrArg Prod.snd hparts⟩

instance (file line : String) (item : Item) : Decidable (Alone file line item) :=
  decidable_of_iff _ alone_iff.symm

/-- What stands after the opening brace and its line. -/
def closedLines : List String → List Char
  | [] => ['\x7d']
  | line :: lines => line.toList ++ '\n' :: closedLines lines

/-- The text of a body is its opening line and the lines closed by the brace. -/
theorem bodyText_toList (lines : List String) :
    (bodyText lines).toList = "r \x7b".toList ++ '\n' :: closedLines lines := by
  have hlines : ['\n'].intercalate ((lines ++ ["\x7d"]).map String.toList) = closedLines lines := by
    induction lines with
    | nil => rfl
    | cons line lines ih =>
      rw [List.cons_append, List.map_cons, List.intercalate_cons_of_ne_nil (by simp), ih]
      simp [closedLines]
  rw [bodyText, String.toList_intercalate, List.map_cons]
  show ['\n'].intercalate _ = _
  rw [List.intercalate_cons_of_ne_nil (by simp), hlines]
  simp

/-! ## §4. Bodies of lines. -/

section Parse

variable {file : String} {lines : List String}

/-- The opening of a body is scanned into its name and brace. -/
theorem scans_opening (file : String) : Scans file .start "r \x7b".toList
    [⟨.identifier "r", "r", ⟨1, 1⟩⟩, ⟨.leftBrace, "\x7b", ⟨1, 3⟩⟩] := by
  have hname : lexeme 'r' [' ', '\x7b'] = .ok ⟨.identifier "r", ['r'], [' ', '\x7b']⟩ := rfl
  have hbrace : lexeme '\x7b' [] = .ok ⟨.leftBrace, ['\x7b'], []⟩ := rfl
  apply (scans_lexeme rfl hname).2
  refine ⟨_, (scans_gap rfl).2 ((scans_lexeme rfl hbrace).2 ⟨[], scans_nil.2 rfl, rfl⟩), ?_⟩
  decide

/-- The closing brace is scanned into its token, wherever it stands. -/
theorem scans_closing (file : String) (p : Position) :
    Scans file p ['\x7d'] [⟨.rightBrace, "\x7d", p⟩] := by
  have hbrace : lexeme '\x7d' [] = .ok ⟨.rightBrace, ['\x7d'], []⟩ := rfl
  apply (scans_lexeme rfl hbrace).2
  exact ⟨[], scans_nil.2 rfl, rfl⟩

/-- A body is scanned into the opening tokens and those of its lines, counted from
line 2. -/
theorem scans_bodyText {ts : List Token} : Scans file .start (bodyText lines).toList ts ↔
    ∃ us, Scans file ⟨2, 1⟩ (closedLines lines) us ∧
      ts = ⟨.identifier "r", "r", ⟨1, 1⟩⟩ :: ⟨.leftBrace, "\x7b", ⟨1, 3⟩⟩ :: us := by
  rw [bodyText_toList, scans_line]
  constructor
  · rintro ⟨us, vs, hus, hvs, rfl⟩
    obtain rfl := hus.unique (scans_opening file)
    exact ⟨vs, hvs, rfl⟩
  · rintro ⟨us, hus, rfl⟩
    exact ⟨_, us, scans_opening file, hus, rfl⟩

/-- How a body is parsed. -/
theorem parse_bodyText {parsed : File} : File.parse (bodyText lines) file = .ok parsed ↔
    ∃ us list body rest tops, Scans file ⟨2, 1⟩ (closedLines lines) us ∧
      readBody file "r" (us ++ [⟨.eof, "", Position.start.after (bodyText lines).toList⟩])
        = .ok (list, body, rest) ∧
      readTopLevels file rest = .ok tops ∧
      parsed = File.ofTopLevels
        (.resource ⟨[], false, false, "r", none, list, body, ⟨1, 1⟩⟩ :: tops) := by
  unfold File.parse
  constructor
  · intro h
    split at h
    · cases h
    · next ts hscan =>
      obtain ⟨ts, hts, rfl, -⟩ := scans_of_ok hscan
      obtain ⟨us, hus, rfl⟩ := scans_bodyText.1 hts
      rw [File.ofTokens, List.cons_append, List.cons_append, readTopLevels_opened] at h
      split at h
      · cases h
      · next tops' htops' =>
        obtain ⟨⟨list, body, rest⟩, hbody, htops'⟩ := bind_eq_ok.1 htops'
        obtain ⟨tops, htops, htops'⟩ := bind_eq_ok.1 htops'
        cases htops'
        cases h
        exact ⟨us, list, body, rest, tops, hus, hbody, htops, rfl⟩
  · intro h
    obtain ⟨us, list, body, rest, tops, hus, hbody, htops, rfl⟩ := h
    have hscan : Token.scan (bodyText lines) file = _ := scans_bodyText.2 ⟨us, hus, rfl⟩
    have hwhole : readTopLevels file (⟨.identifier "r", "r", ⟨1, 1⟩⟩
        :: ⟨.leftBrace, "\x7b", ⟨1, 3⟩⟩
        :: (us ++ [⟨.eof, "", Position.start.after (bodyText lines).toList⟩]))
        = .ok (.resource ⟨[], false, false, "r", none, list, body, ⟨1, 1⟩⟩ :: tops) := by
      rw [readTopLevels_opened, hbody]
      show (readTopLevels file rest >>= _) = _
      rw [htops]
      rfl
    rw [hscan]
    dsimp only
    rw [File.ofTokens, List.cons_append, List.cons_append, hwhole]

/-- The items of a body go up to the last brace: after any other one this brace would
still be to come, and belong to another resource. -/
theorem readItems_last {id : String} {used xs rest : List Token} {b e : Token}
    (hb : b.kind = .rightBrace) (he : e.kind = .eof)
    (hused : ∀ t ∈ used, t.IsRead) {first : List Token}
    (hcut : used ++ [b, e] = first ++ xs) (hread : Source.readItems file id xs = .ok ([], rest))
    {tops : List TopLevel} (htops : readTopLevels file rest = .ok tops)
    (hnone : ∀ d, .resource d ∉ tops) : used = first := by
  obtain ⟨l, p, htake⟩ := readItems_nil hread
  obtain ⟨cs, rfl, hxs⟩ | ⟨cs, rfl, rfl⟩ := List.append_eq_append_iff.1 hcut
  · -- nothing after the brace is one
    rcases cs with _ | ⟨c, _ | ⟨c', cs⟩⟩
    · simp
    · obtain ⟨rfl, rfl⟩ : b = c ∧ xs = [e] := by simpa [eq_comm] using hxs
      rw [takeComments_of_uncommented (by simp [Token.comment?, he])] at htake
      cases htake
      cases he
    · obtain rfl : xs = [] := by
        simp at hxs
        exact hxs.2.2.2
      cases htake
  · rw [takeComments_braced hb fun t ht => hused t (List.mem_append_right first ht)] at htake
    cases cs with
    | nil => simp
    | cons c cs =>
      obtain ⟨-, rfl⟩ := List.cons.inj htake
      have hcs : ∀ t ∈ cs, t.IsRead := by
        intro t ht
        exact hused t (by simp [ht])
      obtain ⟨d, hd⟩ := resource_of_brace htops hb hcs
      exact absurd hd (hnone d)

/-- The tokens of a line that stands alone are all read, none of them an end mark or
a comment. -/
theorem Alone.inner {line : String} {item : Item} (h : Alone file line item) {p : Position}
    {used : List Token} (hused : Scans file p line.toList used) :
    ∀ t ∈ used, t.IsRead := by
  obtain ⟨us, hus, hmoved⟩ := hused.moved h.oneLine .start
  intro t ht
  refine ⟨hused.inner t ht, ?_⟩
  obtain ⟨u, hu, hkind⟩ := hmoved.mem_kind t ht
  have hnone := h.uncommented _ hus u (List.mem_append_left _ hu)
  rwa [Token.comment?, hkind] at hnone

/-- Alone in a body, a line spells its item. -/
theorem Alone.spells {line : String} {item : Item} (h : Alone file line item) :
    ∃ used, Scans file ⟨2, 1⟩ line.toList used ∧ Spells file used item.kind ∧
      item.comments = [] := by
  obtain ⟨parsed, d, hparse, hresources, hlist, hbody⟩ := h.parses
  obtain ⟨us, list, body, rest, tops, hus, hread, htops, rfl⟩ := parse_bodyText.1 hparse
  obtain ⟨used, vs, hused, hvs, rfl⟩ := (scans_line _).1 hus
  obtain rfl := hvs.unique (scans_closing file _)
  obtain ⟨rfl, hnone⟩ := List.cons.inj hresources
  obtain rfl : list = none := hlist
  obtain rfl : body = [item] := hbody
  have htops' : ∀ d, .resource d ∉ tops := by
    intro d hd
    have hmem : d ∈ (File.ofTopLevels tops).resources := List.mem_filterMap.2 ⟨_, hd, rfl⟩
    rw [show (File.ofTopLevels tops).resources = [] from hnone] at hmem
    cases hmem
  have hinner := h.inner hused
  obtain ⟨_, _, _, _, _, _, _, hhead, _⟩ | ⟨-, hitems⟩ := readBody_parts hread
  · cases hhead
  · obtain ⟨hcomments, -, xs, hkind, hmore⟩ := readItems_cons hitems
    rw [takeComments_takeComments] at hcomments hkind
    rw [List.append_assoc, List.singleton_append, takeComments_braced rfl hinner] at hkind
    obtain ⟨first, hcut, hspells⟩ := spells_readItemKind hkind
    obtain rfl := readItems_last rfl rfl hinner hcut hmore htops htops'
    exact ⟨used, hused, hspells, hcomments⟩

/-- Lines that stand alone are scanned, one below another, into laid-out items. -/
theorem laid_of_alone {items : List Item} (h : List.Forall₂ (Alone file) lines items) (n : Nat) :
    ∃ us, Scans file ⟨n, 1⟩ (closedLines lines) us ∧
      ∀ e : Token, e.kind = .eof → Laid file n (items.map Item.kind) (us ++ [e]) := by
  induction h generalizing n with
  | nil => exact ⟨_, scans_closing file ⟨n, 1⟩, fun e he => .close _ ⟨n, 1⟩ e he⟩
  | @cons line item lines items hline hlines ih =>
    obtain ⟨used, hused, hspells, -⟩ := hline.spells
    obtain ⟨us, hus, hmoved⟩ := hused.moved hline.oneLine ⟨n, 1⟩
    obtain ⟨vs, hvs, hlaid⟩ := ih (n + 1)
    refine ⟨us ++ vs, (scans_line _).2 ⟨us, vs, hus, ?_, rfl⟩, ?_⟩
    · rw [Position.next, if_pos rfl, line_after hline.oneLine]
      exact hvs
    · intro e he
      rw [List.append_assoc]
      exact .line hspells hmoved (hlaid e he)

/-- Over laid-out items, the reader of a body finds no `list` head and reads
items. -/
theorem Laid.readBody_iff {id : String} {n : Nat} {kinds : List ItemKind} {ts rest : List Token}
    {list : Option ListHead} {items : List Item} (h : Laid file n kinds ts) :
    readBody file id ts = .ok (list, items, rest) ↔
      list = none ∧ Source.readItems file id ts = .ok (items, rest) := by
  have hbracket : (nextToken ts).kind ≠ .leftBracket := by
    rw [h.first.1]
    cases kinds <;> exact TokenKind.noConfusion
  rw [readBody_eq, h.takeComments, readHead, if_neg hbracket]
  show (Source.readItems file id ts >>= _) = _ ↔ _
  constructor
  · intro hread
    obtain ⟨⟨items, rest⟩, hitems, hread⟩ := bind_eq_ok.1 hread
    cases hread
    exact ⟨rfl, hitems⟩
  · rintro ⟨rfl, hitems⟩
    exact bind_eq_ok.2 ⟨_, hitems, rfl⟩

/-- At the end of the text no declaration is left to read. -/
theorem readTopLevels_end {e : Token} (he : e.kind = .eof) : readTopLevels file [e] = .ok [] := by
  rw [readTopLevels_eq, takeComments_of_uncommented (by simp [Token.comment?, he]), if_pos]
  exact he

/-- The items of lines that stand alone are those each line gives, up to their
places. -/
theorem unplacedItems_of_alone {items : List Item} (h : List.Forall₂ (Alone file) lines items) :
    unplacedItems (items.map Item.kind) = items.map Item.unplaced := by
  induction h with
  | nil => rfl
  | @cons line item lines items hline _ ih =>
    obtain ⟨-, -, -, hcomments⟩ := hline.spells
    rw [List.map_cons, List.map_cons, ← ih, Item.unplaced, hcomments]
    rfl

/-- **Lines are read one by one if no item runs on, and only then.** -/
theorem lines_independent_iff {items : List Item} (h : List.Forall₂ (Alone file) lines items) :
    (∃ parsed d, File.parse (bodyText lines) file = .ok parsed ∧ parsed.resources = [d] ∧
        d.body.map Item.unplaced = items.map Item.unplaced) ↔
      ∀ rest, rest <:+ items.map Item.kind → ¬ RunsOn rest := by
  obtain ⟨us, hus, hlaid⟩ := laid_of_alone h 2
  have hlaid := hlaid ⟨.eof, "", Position.start.after (bodyText lines).toList⟩ rfl
  constructor
  · rintro ⟨parsed, d, hparse, hresources, hbody⟩ rest hrest hruns
    obtain ⟨us', list, body, left, tops, hus', hread, -, rfl⟩ := parse_bodyText.1 hparse
    obtain rfl := hus.unique hus'
    obtain ⟨rfl, -⟩ := List.cons.inj hresources
    apply hlaid.misread hrest hruns (hlaid.readBody_iff.1 hread).2
    have hkinds := congrArg (List.map Item.kind) hbody
    rwa [List.map_map, List.map_map] at hkinds
  · intro hsingle
    obtain ⟨body, e, hread, he, hbody⟩ := hlaid.readItems hsingle
    exact ⟨_, _, parse_bodyText.2 ⟨us, none, body, [e], [], hus,
      hlaid.readBody_iff.2 ⟨rfl, hread⟩, readTopLevels_end he, rfl⟩, rfl,
      hbody.trans (unplacedItems_of_alone h)⟩

end Parse

/-- An embedded resource, a static field and a computed one with the name `as`. -/
def singleLines : List String := ["embed platform", "a", "as(a) []string"]

/-- The items of the three lines. -/
def singleItems : List Item :=
  [⟨[], .embed "platform" none, ⟨2, 1⟩⟩, ⟨[], .field ⟨"a", none, none⟩, ⟨2, 1⟩⟩,
    ⟨[], .field ⟨"as", some ["a"], some (.list (.named "string"))⟩, ⟨2, 1⟩⟩]

theorem lines_independent_singleLines :
    List.Forall₂ (Alone "r.lr") singleLines singleItems ∧
      ∃ parsed d, File.parse (bodyText singleLines) "r.lr" = .ok parsed ∧ parsed.resources = [d] ∧
        d.body.map Item.unplaced = singleItems.map Item.unplaced := by
  have halone : List.Forall₂ (Alone "r.lr") singleLines singleItems := by decide +kernel
  refine ⟨halone, (lines_independent_iff halone).2 ?_⟩
  intro rest hrest hruns
  cases hruns <;> simp [singleItems, List.suffix_cons_iff] at hrest

/-- **An embedded resource takes the next line for its alias**, so lines are not read
one by one. -/
theorem alias_on_next_line :
    ¬ ∀ file lines items, List.Forall₂ (Alone file) lines items →
      ∃ parsed d, File.parse (bodyText lines) file = .ok parsed ∧ parsed.resources = [d] ∧
        d.body.map Item.unplaced = items.map Item.unplaced := by
  intro hall
  have halone : List.Forall₂ (Alone "r.lr") ["embed platform", "as string"]
      [⟨[], .embed "platform" none, ⟨2, 1⟩⟩,
        ⟨[], .field ⟨"as", none, some (.named "string")⟩, ⟨2, 1⟩⟩] := by decide +kernel
  obtain ⟨parsed, d, hparse, hresources, hbody⟩ := hall _ _ _ halone
  have hmisread : (File.parse (bodyText ["embed platform", "as string"]) "r.lr").toOption.map
      (fun parsed => parsed.resources.map Declaration.body)
      = some [[⟨[], .embed "platform" (some "string"), ⟨2, 1⟩⟩]] := by decide +kernel
  rw [hparse] at hmisread
  simp [Except.toOption, hresources] at hmisread
  rw [hmisread] at hbody
  cases hbody

end LazyFields.Source
