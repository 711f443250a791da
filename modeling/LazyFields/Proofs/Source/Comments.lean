/-
  LazyFields.Proofs.Source.Comments
  ────────────────────────────────
  **WHERE THE COMMENTS OF A FILE GO.**

  Comments are tokens like all others, and the readers take them off at three
  places: before a thing at the top level, before an item, and at the start of
  a body.  A resource has exactly the comments that stand right before its
  first token, and so has every item, but for the first item of a body without
  the head of a list: what stands before it is taken off at the start of the
  body and given to nothing.

  - `positions_nodup` — no two scanned tokens stand at one place, so a
    declaration is found at one place only.
  - `Paused` — a reader always stops right after a token that is no comment;
    each reader of the grammar has one lemma `paused_*` that says so.
  - `takeComments_paused` — what is taken off there is the whole run of
    comments before the next token.
-/
import Mathlib.Data.List.DropRight
import LazyFields.Source.Parse

namespace LazyFields.Source

/-! ## §1. The places of scanned tokens. -/

/-- One place stands before another, line by line. -/
def Position.Before (p q : Position) : Prop :=
  p.line < q.line ∨ p.line = q.line ∧ p.column < q.column

theorem Position.Before.trans {p q r : Position} (hpq : p.Before q) (hqr : q.Before r) :
    p.Before r := by
  unfold Position.Before at *
  omega

/-- Nothing stands before itself. -/
theorem Position.Before.ne {p q : Position} (h : p.Before q) : p ≠ q := by
  intro heq
  subst heq
  unfold Position.Before at h
  omega

/-- A character goes forward. -/
theorem Position.before_next (p : Position) (c : Char) : p.Before (p.next c) := by
  unfold Position.next Position.Before
  split
  · left
    show p.line < p.line + 1
    omega
  · right
    show p.line = p.line ∧ p.column < p.column + 1
    omega

/-- So do several. -/
theorem Position.before_after {p : Position} {cs : List Char} (h : cs ≠ []) :
    p.Before (p.after cs) := by
  induction cs generalizing p with
  | nil => exact absurd rfl h
  | cons c cs ih =>
    cases cs with
    | nil => exact p.before_next c
    | cons d ds => exact (p.before_next c).trans (ih (by simp))

/-- The tokens of a text stand one after the other, none before its start. -/
theorem positions_scanFrom {file : String} {p : Position} {cs : List Char} {ts : List Token}
    (h : scanFrom file p cs = .ok ts) :
    (∀ t ∈ ts, t.pos = p ∨ p.Before t.pos) ∧ (ts.map Token.pos).Pairwise Position.Before := by
  fun_induction scanFrom file p cs generalizing ts with
  | case1 p =>
    cases h
    simp
  | case2 p c cs hgap ih =>
    obtain ⟨hfrom, hpairs⟩ := ih h
    refine ⟨fun t ht => Or.inr ?_, hpairs⟩
    cases hfrom t ht with
    | inl heq => exact heq ▸ p.before_next c
    | inr hlater => exact (p.before_next c).trans hlater
  | case3 => cases h
  | case4 => cases h
  | case5 p c cs hgap l hl rest hrest ih =>
    cases h
    obtain ⟨hfrom, hpairs⟩ := ih hrest
    -- the text of a token is not empty, so all that follows stands after its start
    have hlater : ∀ t ∈ rest, p.Before t.pos := by
      intro t ht
      have hstep : p.Before (p.after l.text) := Position.before_after (lexeme_split hl).2
      cases hfrom t ht with
      | inl heq => exact heq ▸ hstep
      | inr hafter => exact hstep.trans hafter
    constructor
    · intro t ht
      cases List.mem_cons.1 ht with
      | inl heq => exact Or.inl (by rw [heq])
      | inr hmem => exact Or.inr (hlater t hmem)
    · rw [List.map_cons, List.pairwise_cons]
      refine ⟨fun q hq => ?_, hpairs⟩
      obtain ⟨t, ht, rfl⟩ := List.mem_map.1 hq
      exact hlater t ht

/-- **No two tokens of a text stand at one place.** -/
theorem positions_nodup {source file : String} {ts : List Token}
    (h : Token.scan source file = .ok ts) : (ts.map Token.pos).Nodup := by
  have hpairs := (positions_scanFrom (show scanFrom file .start source.toList = .ok ts from h)).2
  exact hpairs.imp Position.Before.ne

/-- So a cut of the tokens is known by the place of one token after it. -/
theorem cut_unique {ts before here before' here' : List Token} (hnodup : (ts.map Token.pos).Nodup)
    (hcut : ts = before ++ here) (hcut' : ts = before' ++ here') {k : Nat} {p : Position}
    (hp : here[k]?.map Token.pos = some p) (hp' : here'[k]?.map Token.pos = some p) :
    before = before' ∧ here = here' := by
  have hat : (ts.map Token.pos)[before.length + k]? = some p := by
    rw [hcut, List.getElem?_map, List.getElem?_append_right (by omega), Nat.add_sub_cancel_left, hp]
  have hat' : (ts.map Token.pos)[before'.length + k]? = some p := by
    rw [hcut', List.getElem?_map, List.getElem?_append_right (by omega), Nat.add_sub_cancel_left,
      hp']
  have hlength : before.length + k = before'.length + k :=
    (List.getElem?_inj (List.getElem?_eq_some_iff.1 hat).1 hnodup).1 (hat.trans hat'.symm)
  exact List.append_inj (hcut ▸ hcut') (by omega)

/-! ## §2. Comments right before a place. -/

/-- The text of a comment. -/
def Token.comment? (t : Token) : Option String :=
  match t.kind with
  | .comment text => some text
  | _ => none

attribute [grind =] Token.comment?

/-- The comments right before a place, `before` being all tokens that stand before
it: those of the longest run of comments that ends there. -/
def lastComments (before : List Token) : List String :=
  (before.rtakeWhile fun t => t.comment?.isSome).filterMap Token.comment?

@[simp] theorem lastComments_nil : lastComments [] = [] := rfl

/-- One more comment belongs to the last ones. -/
theorem lastComments_concat_comment (before : List Token) {t : Token} {text : String}
    (h : t.comment? = some text) : lastComments (before ++ [t]) = lastComments before ++ [text] := by
  unfold lastComments
  rw [List.rtakeWhile_concat_pos _ _ _ (by simp [h]), List.filterMap_append]
  simp [h]

/-- Behind any other token there are no comments. -/
theorem lastComments_concat_other (before : List Token) {t : Token} (h : t.comment? = none) :
    lastComments (before ++ [t]) = [] := by
  unfold lastComments
  rw [List.rtakeWhile_concat_neg _ _ _ (by simp [h])]
  rfl

/-- A place where reading stopped: `ts` is left of `whole`, with no comment right
before it. -/
def Paused (whole ts : List Token) : Prop :=
  ∃ before, whole = before ++ ts ∧ lastComments before = []

theorem paused_self (whole : List Token) : Paused whole whole := ⟨[], rfl, rfl⟩

/-- Where reading paused, what is left is an end of the whole. -/
theorem Paused.suffix {whole ts : List Token} (h : Paused whole ts) : ts <:+ whole := by
  obtain ⟨before, hcut, -⟩ := h
  exact ⟨before, hcut.symm⟩

/-- An end of the whole without its first token is one too. -/
theorem suffix_of_cons {whole ts : List Token} {t : Token} (h : (t :: ts) <:+ whole) :
    ts <:+ whole := (List.suffix_cons t ts).trans h

/-- Reading pauses after each token that is no comment. -/
theorem paused_of_cons {whole ts : List Token} {t : Token} (h : (t :: ts) <:+ whole) :
    t.comment?.isSome ∨ Paused whole ts := by
  cases ht : t.comment? with
  | some text => exact Or.inl rfl
  | none =>
    obtain ⟨before, hcut⟩ := h
    refine Or.inr ⟨before ++ [t], ?_, lastComments_concat_other before ht⟩
    rw [List.append_assoc]
    exact hcut.symm

attribute [grind →] Paused.suffix suffix_of_cons paused_of_cons

/-- The comments that are taken are the last ones of what was read. -/
theorem takeComments_cut (before ts : List Token) :
    ∃ before', before ++ ts = before' ++ (takeComments ts).2 ∧
      lastComments before' = lastComments before ++ (takeComments ts).1 := by
  fun_induction takeComments ts generalizing before with
  | case1 text lexeme pos ts texts rest heq ih =>
    -- the comment goes over to the tokens before the place
    obtain ⟨before', hcut, hlast⟩ := ih (before ++ [⟨.comment text, lexeme, pos⟩])
    rw [heq] at hcut hlast
    refine ⟨before', ?_, ?_⟩
    · rw [← hcut, List.append_assoc]
      rfl
    · rw [hlast, lastComments_concat_comment before rfl, List.append_assoc]
      rfl
  | case2 ts _ => exact ⟨before, rfl, (List.append_nil _).symm⟩

/-- **Where reading pauses, the comments that are taken off are all that stand
before the next token.** -/
theorem takeComments_paused {whole ts : List Token} (h : Paused whole ts) :
    ∃ before, whole = before ++ (takeComments ts).2 ∧
      lastComments before = (takeComments ts).1 := by
  obtain ⟨before, hcut, hnone⟩ := h
  obtain ⟨before', hcut', hlast⟩ := takeComments_cut before ts
  rw [hnone, List.nil_append] at hlast
  exact ⟨before', hcut.trans hcut', hlast⟩

/-- Behind comments stands an end of the whole. -/
theorem suffix_takeComments {whole ts : List Token} (h : ts <:+ whole) :
    (takeComments ts).2 <:+ whole := by
  obtain ⟨before, hcut⟩ := h
  obtain ⟨before', hcut', -⟩ := takeComments_cut before ts
  exact ⟨before', hcut'.symm.trans hcut⟩

/-- Comments are taken off once. -/
theorem takeComments_takeComments (ts : List Token) :
    takeComments (takeComments ts).2 = ([], (takeComments ts).2) := by
  fun_induction takeComments ts with
  | case1 text lexeme pos ts texts rest heq ih =>
    rw [heq] at ih
    exact ih
  | case2 ts hne => exact takeComments.eq_2 ts hne

/-! ## §3. The readers pause after no comment. -/

section Readers

variable {whole ts rest : List Token} {file : String}

/-- A type does not end in a comment, so reading pauses behind it. -/
theorem paused_readType {type : TypeExpr} (h : readType file ts = .ok (type, rest))
    (hts : ts <:+ whole) : Paused whole rest := by
  fun_induction readType file ts generalizing type rest <;> grind

/-- Nor do names in parentheses. -/
theorem paused_readNames {names : List String} {line : Nat}
    (h : readNames file ts = .ok (names, line, rest)) (hts : ts <:+ whole) : Paused whole rest := by
  fun_induction readNames file ts generalizing names line rest <;> grind

/-- Nor does an optional mark. -/
theorem readOptional_suffix (ts : List Token) : (readOptional ts).2 <:+ ts := by
  unfold readOptional
  grind

/-- Nor do arguments. -/
theorem paused_readArgs {args : List ArgDecl} (h : readArgs file ts = .ok (args, rest))
    (hts : ts <:+ whole) : Paused whole rest := by
  fun_induction readArgs file ts generalizing args rest <;>
    grind [→ paused_readType, readOptional_suffix]

/-- Nor does the type of a field, if it is there. -/
theorem paused_readFieldType {line : Nat} {type : Option TypeExpr}
    (h : readFieldType file line ts = .ok (type, rest)) (hts : Paused whole ts) :
    Paused whole rest := by
  unfold readFieldType at h
  grind [→ paused_readType]

/-- Nor does a field. -/
theorem paused_readField {decl : FieldDecl} (h : readField file ts = .ok (decl, rest))
    (hts : ts <:+ whole) : Paused whole rest := by
  unfold readField at h
  grind [→ paused_readNames, → paused_readFieldType]

/-- Nor does an alias, if it is there. -/
theorem paused_readAlias (hts : Paused whole ts) : Paused whole (readAlias ts).2 := by
  unfold readAlias
  grind

/-- Nor does an item. -/
theorem paused_readItemKind {kind : ItemKind} (h : readItemKind file ts = .ok (kind, rest))
    (hts : ts <:+ whole) : Paused whole rest := by
  unfold readItemKind at h
  grind [→ paused_readField, → paused_readArgs, paused_readAlias]

/-- Nor does a token that is none. -/
theorem paused_takeToken {kind : TokenKind} (h : takeToken file kind ts = .ok rest)
    (hkind : ∀ text, kind ≠ .comment text) (hts : ts <:+ whole) : Paused whole rest := by
  unfold takeToken at h
  grind

/-- Nor does a string. -/
theorem paused_takeString {value : String} (h : takeString file ts = .ok (value, rest))
    (hts : ts <:+ whole) : Paused whole rest := by
  unfold takeString at h
  grind

/-- Nor does a name. -/
theorem paused_expectName {what name : String} (h : expectName file what ts = .ok (name, rest))
    (hts : ts <:+ whole) : Paused whole rest := by
  unfold expectName at h
  grind

/-- Nor does the head of a list. -/
theorem paused_readListHead {head : ListHead} (h : readListHead file ts = .ok (head, rest))
    (hts : ts <:+ whole) : Paused whole rest := by
  unfold readListHead at h
  grind [→ paused_takeToken, → paused_expectName, → paused_readNames]

/-- Nor do defaults, if they are there. -/
theorem paused_readDefaults {defaults : Option String}
    (h : readDefaults file ts = .ok (defaults, rest)) (hts : Paused whole ts) :
    Paused whole rest := by
  unfold readDefaults at h
  split at h
  · next lexeme pos us =>
    split at h
    · next hword =>
      -- the word itself is a token that reading goes past
      have hpast : us.tail <:+ whole := (List.tail_suffix us).trans (suffix_of_cons hts.suffix)
      split at h
      · cases h
      · next vs hopen =>
        have hvs := paused_takeToken hopen (by simp) hpast
        split at h
        · cases h
        · next value ws hvalue =>
          have hws := paused_takeString hvalue hvs.suffix
          split at h
          · cases h
          · next xs hclose =>
            cases h
            exact paused_takeToken hclose (by simp) hws.suffix
    · cases h
  · cases h
    exact hts

end Readers

/-! ## §4. Where items and declarations start. -/

/-- The item is read from here, and its place is that of the next token. -/
def Item.StartsAt (file : String) (item : Item) (here : List Token) : Prop :=
  (nextToken here).pos = item.pos ∧ ∃ rest, readItemKind file here = .ok (item.kind, rest)

/-- The declaration is read from here, modifiers and all. -/
def Declaration.StartsAt (file : String) (d : Declaration) (here : List Token) : Prop :=
  ∃ rest, readDeclaration file d.comments here = .ok (d, rest)

/-- The tokens hold one place where `starts` holds, and the comments right before it
are the given ones. -/
def Commented (ts : List Token) (starts : List Token → Prop) (comments : List String) : Prop :=
  (∃ before here, ts = before ++ here ∧ starts here) ∧
    ∀ before here, ts = before ++ here → starts here → comments = lastComments before

/-- How many modifiers stand before the name of a declaration. -/
def Declaration.modifiers (d : Declaration) : Nat :=
  d.isPrivate.toNat + d.isExtension.toNat

/-- The first token of an item has its place. -/
theorem Item.StartsAt.pos {file : String} {item : Item} {here : List Token}
    (h : item.StartsAt file here) : here[0]?.map Token.pos = some item.pos := by
  obtain ⟨hpos, rest, hread⟩ := h
  cases here with
  | nil => cases hread
  | cons t ts => exact congrArg some hpos

/-- A modifier is one token, if it is there. -/
theorem readModifier_eq_drop (word : String) (ts : List Token) :
    (readModifier word ts).2 = ts.drop (readModifier word ts).1.toNat := by
  unfold readModifier
  grind

/-- A name that is taken is the next token. -/
theorem expectName_eq_ok {file what name : String} {ts rest : List Token}
    (h : expectName file what ts = .ok (name, rest)) :
    ∃ lexeme pos, ts = ⟨.identifier name, lexeme, pos⟩ :: rest := by
  unfold expectName at h
  grind

/-- How the parts of a declaration follow each other. -/
theorem readDeclaration_parts {file : String} {comments : List String} {ts rest : List Token}
    {d : Declaration} (h : readDeclaration file comments ts = .ok (d, rest)) :
    d.comments = comments ∧
      ∃ lexeme us vs, ts.drop d.modifiers = ⟨.identifier d.id, lexeme, d.pos⟩ :: us ∧
        readDefaults file us = .ok (d.defaults, vs) ∧
        ((∃ lexeme pos xs, vs = ⟨.leftBrace, lexeme, pos⟩ :: xs ∧
            readBody file d.id xs = .ok (d.list, d.body, rest)) ∨
          (d.list = none ∧ d.body = [] ∧ rest = vs)) := by
  -- the modifiers, if there are any, are the first tokens
  have hextend := readModifier_eq_drop "extend" (readModifier "private" ts).2
  rw [readModifier_eq_drop "private" ts, List.drop_drop, ← readModifier_eq_drop] at hextend
  unfold readDeclaration at h
  dsimp only at h
  split at h
  · cases h
  · next id us hname =>
    obtain ⟨lexeme, pos, hus⟩ := expectName_eq_ok hname
    rw [hus] at hextend h
    split at h
    · cases h
    · next defaults vs hdefaults =>
      split at h
      · next lexeme' pos' xs =>
        split at h
        · cases h
        · next list body rest' hbody =>
          cases h
          exact ⟨rfl, lexeme, us, _, hextend.symm, hdefaults, Or.inl ⟨lexeme', pos', xs, rfl, hbody⟩⟩
      · cases h
        exact ⟨rfl, lexeme, us, _, hextend.symm, hdefaults, Or.inr ⟨rfl, rfl, rfl⟩⟩

/-- The first token of a declaration behind its modifiers has its place. -/
theorem Declaration.StartsAt.pos {file : String} {d : Declaration} {here : List Token}
    (h : d.StartsAt file here) : here[d.modifiers]?.map Token.pos = some d.pos := by
  obtain ⟨rest, hread⟩ := h
  obtain ⟨-, lexeme, us, vs, hname, -⟩ := readDeclaration_parts hread
  have hhead := congrArg List.head? hname
  rw [List.head?_drop] at hhead
  rw [hhead]
  rfl

/-- What is read at a place known by its comments and by the place of a token is
commented by them, as that place is the only one. -/
theorem commented_of_cut {ts before here : List Token} (hnodup : (ts.map Token.pos).Nodup)
    {starts : List Token → Prop} {comments : List String} {k : Nat} {p : Position}
    (hpos : ∀ here, starts here → here[k]?.map Token.pos = some p)
    (hcut : ts = before ++ here) (hstarts : starts here) (hlast : lastComments before = comments) :
    Commented ts starts comments := by
  refine ⟨⟨before, here, hcut, hstarts⟩, fun before' here' hcut' hstarts' => ?_⟩
  obtain ⟨hbefore, -⟩ := cut_unique hnodup hcut hcut' (hpos here hstarts) (hpos here' hstarts')
  rw [← hbefore, hlast]

/-! ## §5. Items. -/

section Items

variable {whole ts rest : List Token} {file id : String}

/-- An item of a body, and the items after it. -/
theorem readItems_cons {item : Item} {items : List Item}
    (h : readItems file id ts = .ok (item :: items, rest)) :
    item.comments = (takeComments ts).1 ∧ item.StartsAt file (takeComments ts).2 ∧
      ∃ vs, readItemKind file (takeComments ts).2 = .ok (item.kind, vs) ∧
        readItems file id vs = .ok (items, rest) := by
  unfold readItems at h
  dsimp only at h
  split at h
  · cases h
  · cases h
  · split at h
    · cases h
    · next kind vs hkind =>
      split at h
      · cases h
      · next items' rest' hitems =>
        cases h
        exact ⟨rfl, ⟨rfl, vs, hkind⟩, vs, hkind, hitems⟩

/-- The end of a body is a brace. -/
theorem readItems_nil (h : readItems file id ts = .ok ([], rest)) :
    ∃ lexeme pos, (takeComments ts).2 = ⟨.rightBrace, lexeme, pos⟩ :: rest := by
  unfold readItems at h
  dsimp only at h
  split at h
  · next hkind =>
    cases h
    cases hleft : (takeComments ts).2 with
    | nil =>
      rw [hleft] at hkind
      cases hkind
    | cons t us =>
      rw [hleft] at hkind
      obtain ⟨kind, lexeme, pos⟩ := t
      obtain rfl : kind = .rightBrace := hkind
      exact ⟨lexeme, pos, rfl⟩
  · cases h
  · split at h
    · cases h
    · split at h <;> cases h

/-- Behind the items of a body reading pauses. -/
theorem paused_readItems {items : List Item} (h : readItems file id ts = .ok (items, rest))
    (hts : ts <:+ whole) : Paused whole rest := by
  induction items generalizing ts with
  | nil =>
    obtain ⟨lexeme, pos, hbrace⟩ := readItems_nil h
    have hleft := suffix_takeComments hts
    rw [hbrace] at hleft
    grind
  | cons item items ih =>
    obtain ⟨-, -, vs, hkind, hitems⟩ := readItems_cons h
    exact ih hitems (paused_readItemKind hkind (suffix_takeComments hts)).suffix

/-- **The items that are read from a pause on have the comments before them.** -/
theorem commented_readItems {items : List Item} (hnodup : (whole.map Token.pos).Nodup)
    (h : readItems file id ts = .ok (items, rest)) (hts : Paused whole ts) :
    ∀ item ∈ items, Commented whole (item.StartsAt file) item.comments := by
  induction items generalizing ts with
  | nil => simp
  | cons item items ih =>
    obtain ⟨hcomments, hstarts, vs, hkind, hitems⟩ := readItems_cons h
    obtain ⟨before, hcut, hlast⟩ := takeComments_paused hts
    rw [List.forall_mem_cons]
    constructor
    · rw [hcomments]
      exact commented_of_cut hnodup (fun _ => Item.StartsAt.pos) hcut hstarts hlast
    · exact ih hitems (paused_readItemKind hkind (suffix_takeComments hts.suffix))

end Items

/-! ## §6. Bodies and declarations. -/

section Declarations

variable {whole ts rest : List Token} {file id : String}

/-- A body is the head of a list and its items, or items alone; the comments at its
start are given to nothing. -/
theorem readBody_parts {head : Option ListHead} {items : List Item}
    (h : readBody file id ts = .ok (head, items, rest)) :
    (∃ lexeme pos us list vs, (takeComments ts).2 = ⟨.leftBracket, lexeme, pos⟩ :: us ∧
        readListHead file us = .ok (list, vs) ∧ head = some list ∧
        readItems file id vs = .ok (items, rest)) ∨
      (head = none ∧ readItems file id (takeComments ts).2 = .ok (items, rest)) := by
  unfold readBody at h
  split at h
  · next lexeme pos us heq =>
    split at h
    · cases h
    · next list vs hlist =>
      split at h
      · cases h
      · next items' rest' hitems =>
        cases h
        exact Or.inl ⟨lexeme, pos, us, list, vs, heq, hlist, rfl, hitems⟩
  · split at h
    · cases h
    · next items' rest' hitems =>
      cases h
      exact Or.inr ⟨rfl, hitems⟩

/-- So it does behind a body. -/
theorem paused_readBody {head : Option ListHead} {items : List Item}
    (h : readBody file id ts = .ok (head, items, rest)) (hts : ts <:+ whole) :
    Paused whole rest := by
  have hleft := suffix_takeComments hts
  obtain ⟨lexeme, pos, us, list, vs, heq, hlist, -, hitems⟩ | ⟨-, hitems⟩ := readBody_parts h
  · rw [heq] at hleft
    exact paused_readItems hitems (paused_readListHead hlist (suffix_of_cons hleft)).suffix
  · exact paused_readItems hitems hleft

/-- What a body does with the comments of its items: the first item has none unless
the head of a list stands before it, and all others have those before them. -/
def BodyCommented (ts : List Token) (file : String) (head : Option ListHead)
    (items : List Item) : Prop :=
  ∀ i item, items[i]? = some item →
    if i = 0 ∧ head = none then
      (∃ before here, ts = before ++ here ∧ item.StartsAt file here) ∧ item.comments = []
    else Commented ts (item.StartsAt file) item.comments

/-- The items of a body have their comments, apart from a first one without a
list. -/
theorem bodyCommented_readBody {head : Option ListHead} {items : List Item}
    (hnodup : (whole.map Token.pos).Nodup) (h : readBody file id ts = .ok (head, items, rest))
    (hts : ts <:+ whole) : BodyCommented whole file head items := by
  have hleft := suffix_takeComments hts
  intro i item hitem
  obtain ⟨lexeme, pos, us, list, vs, heq, hlist, rfl, hitems⟩ | ⟨rfl, hitems⟩ := readBody_parts h
  · -- after the head of a list reading pauses, so no item is different from the others
    rw [heq] at hleft
    have hvs := paused_readListHead hlist (suffix_of_cons hleft)
    rw [if_neg (by simp)]
    exact commented_readItems hnodup hitems hvs item (List.mem_of_getElem? hitem)
  · cases items with
    | nil => cases hitem
    | cons first items =>
      obtain ⟨hcomments, hstarts, us, hkind, hmore⟩ := readItems_cons hitems
      rw [takeComments_takeComments] at hcomments hstarts hkind
      cases i with
      | zero =>
        obtain rfl : first = item := by simpa using hitem
        obtain ⟨before, hcut⟩ := hleft
        rw [if_pos ⟨rfl, rfl⟩]
        exact ⟨⟨before, _, hcut.symm, hstarts⟩, hcomments⟩
      | succ i =>
        rw [List.getElem?_cons_succ] at hitem
        rw [if_neg (by simp)]
        exact commented_readItems hnodup hmore (paused_readItemKind hkind hleft) item
          (List.mem_of_getElem? hitem)

variable {comments : List String} {d : Declaration}

/-- A body is read further on in the tokens; without one, reading stops behind the head. -/
theorem suffix_of_readDeclaration (h : readDeclaration file comments ts = .ok (d, rest))
    (hts : ts <:+ whole) :
    (∃ us, us <:+ whole ∧ readBody file d.id us = .ok (d.list, d.body, rest)) ∨
      (d.list = none ∧ d.body = [] ∧ Paused whole rest) := by
  obtain ⟨-, lexeme, us, vs, hname, hdefaults, hbody⟩ := readDeclaration_parts h
  have hus : (⟨.identifier d.id, lexeme, d.pos⟩ :: us) <:+ whole :=
    hname ▸ (List.drop_suffix _ ts).trans hts
  have hvs : Paused whole vs := paused_readDefaults hdefaults (by grind)
  obtain ⟨lexeme', pos', xs, rfl, hread⟩ | ⟨hlist, hempty, rfl⟩ := hbody
  · exact Or.inl ⟨xs, suffix_of_cons hvs.suffix, hread⟩
  · exact Or.inr ⟨hlist, hempty, hvs⟩

/-- Behind a resource reading pauses. -/
theorem paused_readDeclaration (h : readDeclaration file comments ts = .ok (d, rest))
    (hts : ts <:+ whole) : Paused whole rest := by
  obtain ⟨us, hus, hread⟩ | ⟨-, -, hpaused⟩ := suffix_of_readDeclaration h hts
  · exact paused_readBody hread hus
  · exact hpaused

/-- So the items of its body have their comments. -/
theorem bodyCommented_readDeclaration (hnodup : (whole.map Token.pos).Nodup)
    (h : readDeclaration file comments ts = .ok (d, rest)) (hts : ts <:+ whole) :
    BodyCommented whole file d.list d.body := by
  obtain ⟨us, hus, hread⟩ | ⟨-, hempty, -⟩ := suffix_of_readDeclaration h hts
  · exact bodyCommented_readBody hnodup hread hus
  · rw [hempty]
    intro i item hitem
    cases hitem

end Declarations

/-! ## §7. Files. -/

section Files

variable {whole ts : List Token} {file : String}

/-- Behind a declaration at the top reading pauses. -/
theorem paused_readTopLevel {comments : List String} {top : TopLevel} {rest : List Token}
    (h : readTopLevel file comments ts = .ok (top, rest)) (hts : ts <:+ whole) :
    Paused whole rest := by
  unfold readTopLevel at h
  grind [→ paused_readDeclaration, → paused_takeString]

/-- A resource at the top is read as a declaration. -/
theorem declaration_of_readTopLevel {comments : List String} {d : Declaration} {rest : List Token}
    (h : readTopLevel file comments ts = .ok (.resource d, rest)) :
    readDeclaration file comments ts = .ok (d, rest) := by
  unfold readTopLevel at h
  grind

/-- The first declaration of a file is read with the comments before it. -/
theorem readTopLevels_cons {top : TopLevel} {tops : List TopLevel}
    (h : readTopLevels file ts = .ok (top :: tops)) :
    ∃ rest, readTopLevel file (takeComments ts).1 (takeComments ts).2 = .ok (top, rest) ∧
      readTopLevels file rest = .ok tops := by
  unfold readTopLevels at h
  dsimp only at h
  split at h
  · cases h
  · split at h
    · cases h
    · next top' rest htop =>
      split at h
      · cases h
      · next tops' htops =>
        cases h
        exact ⟨rest, htop, htops⟩

/-- **Resources have the comments before them, and their bodies give them out as
said.** -/
theorem commented_readTopLevels {tops : List TopLevel} (hnodup : (whole.map Token.pos).Nodup)
    (h : readTopLevels file ts = .ok tops) (hts : Paused whole ts) {d : Declaration}
    (hd : .resource d ∈ tops) :
    Commented whole (d.StartsAt file) d.comments ∧ BodyCommented whole file d.list d.body := by
  induction tops generalizing ts with
  | nil => cases hd
  | cons top tops ih =>
    obtain ⟨rest, htop, htops⟩ := readTopLevels_cons h
    have hleft := suffix_takeComments hts.suffix
    cases hd with
    | head =>
      have hread := declaration_of_readTopLevel htop
      obtain ⟨before, hcut, hlast⟩ := takeComments_paused hts
      have hcomments := (readDeclaration_parts hread).1
      refine ⟨?_, bodyCommented_readDeclaration hnodup hread hleft⟩
      refine commented_of_cut hnodup (fun _ => Declaration.StartsAt.pos) hcut ?_
        (hlast.trans hcomments.symm)
      rw [← hcomments] at hread
      exact ⟨rest, hread⟩
    | tail _ hmem => exact ih htops (paused_readTopLevel htop hleft) hmem

end Files

/-- **A parsed file has the comments of its source.**  Every resource, and every item
of a body, is found at one place of the source and has exactly the comments right
before that place; only the first item of a body without the head of a list has none. -/
theorem comments_of_parse {source name : String} {file : File}
    (h : File.parse source name = .ok file) :
    ∃ ts, Token.scan source name = .ok ts ∧ ∀ d ∈ file.resources,
      Commented ts (d.StartsAt name) d.comments ∧ BodyCommented ts name d.list d.body := by
  unfold File.parse at h
  split at h
  · cases h
  · next ts hscan =>
    unfold File.ofTokens at h
    split at h
    · cases h
    · next tops htops =>
      cases h
      refine ⟨ts, hscan, fun d hd => ?_⟩
      obtain ⟨top, htop, hresource⟩ := List.mem_filterMap.1 hd
      have hmem : .resource d ∈ tops := by
        cases top <;> simp_all
      exact commented_readTopLevels (positions_nodup hscan) htops (paused_self ts) hmem

/-- A resource with two fields, each after a comment. -/
def commentedText : String := "r \x7b\n  // first\n  a string\n  // second\n  b string\n\x7d"

/-- Its first field, as it is read. -/
def uncommentedItem : Item := ⟨[], .field ⟨"a", none, some (.named "string")⟩, ⟨3, 3⟩⟩

/-- The file that it spells. -/
def commentedFile : File where
  imports := []
  options := ∅
  resources := [⟨[], false, false, "r", none, none,
    [uncommentedItem, ⟨["// second"], .field ⟨"b", none, some (.named "string")⟩, ⟨5, 3⟩⟩],
    ⟨1, 1⟩⟩]
  packs := ∅

/-- All comments of the example are where the theorem says. -/
theorem comments_of_commentedText :
    File.parse commentedText "r.lr" = .ok commentedFile ∧
      ∃ ts, Token.scan commentedText "r.lr" = .ok ts ∧ ∀ d ∈ commentedFile.resources,
        Commented ts (d.StartsAt "r.lr") d.comments ∧ BodyCommented ts "r.lr" d.list d.body := by
  have hparse : File.parse commentedText "r.lr" = .ok commentedFile := by decide +kernel
  exact ⟨hparse, comments_of_parse hparse⟩

/-- The tokens before its first field. -/
def beforeFirst : List Token :=
  [⟨.identifier "r", "r", ⟨1, 1⟩⟩, ⟨.leftBrace, "\x7b", ⟨1, 3⟩⟩,
    ⟨.comment "// first", "// first", ⟨2, 3⟩⟩]

/-- The tokens from its first field on. -/
def fromFirst : List Token :=
  [⟨.identifier "a", "a", ⟨3, 3⟩⟩, ⟨.identifier "string", "string", ⟨3, 5⟩⟩,
    ⟨.comment "// second", "// second", ⟨4, 3⟩⟩, ⟨.identifier "b", "b", ⟨5, 3⟩⟩,
    ⟨.identifier "string", "string", ⟨5, 5⟩⟩, ⟨.rightBrace, "\x7d", ⟨6, 1⟩⟩, ⟨.eof, "", ⟨6, 2⟩⟩]

/-- **The comment of a first item is lost**, so not every item has the comments that
stand before it. -/
theorem first_item_uncommented :
    ¬ ∀ source name file, File.parse source name = .ok file →
      ∃ ts, Token.scan source name = .ok ts ∧ ∀ d ∈ file.resources,
        Commented ts (d.StartsAt name) d.comments ∧
          ∀ item ∈ d.body, Commented ts (item.StartsAt name) item.comments := by
  intro hall
  have hparse : File.parse commentedText "r.lr" = .ok commentedFile := by decide +kernel
  obtain ⟨ts, hscan, hcommented⟩ := hall commentedText "r.lr" commentedFile hparse
  have htokens : Token.scan commentedText "r.lr" = .ok (beforeFirst ++ fromFirst) := by
    decide +kernel
  obtain rfl : beforeFirst ++ fromFirst = ts := Except.ok.inj (htokens.symm.trans hscan)
  have hfirst := ((hcommented _ List.mem_cons_self).2 uncommentedItem List.mem_cons_self).2
    beforeFirst fromFirst rfl ⟨rfl, fromFirst.drop 2, by decide +kernel⟩
  exact absurd hfirst (by decide)

end LazyFields.Source
