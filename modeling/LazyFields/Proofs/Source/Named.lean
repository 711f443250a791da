/-
  LazyFields.Proofs.Source.Named
  ────────────────────────────────
  **WHATEVER A TEXT DECLARES HAS A NAME.**

  A scanned name starts with a letter, an underscore or a dollar sign and goes
  on as the scanner lets it, without a NUL character, and the parser takes every
  name from a scanned one.  So the resources and fields of a parsed file are named
  (`hasNames_of_parse`), as the theory of sessions asks of an accepted file
  (`accepted_of_parse`).

  What a reader leaves is a part of the tokens that it had, so tokens that are
  named are left named (`AllNamed.left`); each reader that takes names has one
  lemma, which says that it takes them from its tokens.
-/
import LazyFields.Proofs.Schema.Accepted
import LazyFields.Proofs.Source.Comments

namespace LazyFields.Source

open LazyFields.Text

/-! ## §1. Scanned names. -/

/-- How a name is spelled: it is what the scanner takes of some text. -/
def IsSpelled (name : String) : Prop :=
  ∃ c cs, name.toList = c :: (nameTail cs).1 ∧ isNameStart c = true

/-- A name starts with neither the null character nor a dot. -/
theorem isNameStart_ne {c : Char} (h : isNameStart c = true) : c ≠ '\x00' ∧ c ≠ '.' := by
  constructor <;> (rintro rfl; revert h; decide)

/-- The tail of a name does not go over a null character. -/
theorem nul_not_mem_nameTail (cs : List Char) : '\x00' ∉ (nameTail cs).1 := by
  intro hmem
  rcases isNameChar_of_mem_nameTail cs _ hmem with hchar | hdot
  · exact absurd hchar (by decide)
  · exact absurd hdot (by decide)

/-- A named token: if it is an identifier, it is spelled as one. -/
def Token.IsNamed (t : Token) : Prop := ∀ name, t.kind = .identifier name → IsSpelled name

/-- A scanned identifier is a spelled name. -/
theorem isNamed_lexeme {c : Char} {cs : List Char} {l : Lexeme} (h : lexeme c cs = .ok l)
    {name : String} (hname : l.kind = .identifier name) : IsSpelled name := by
  obtain ⟨hstart, rfl⟩ := name_of_lexeme h hname
  cases hname
  exact ⟨c, cs, String.toList_ofList, hstart⟩

/-- Every identifier among the tokens is spelled as a name. -/
def AllNamed (ts : List Token) : Prop := ∀ t ∈ ts, t.IsNamed

@[grind =] theorem allNamed_cons {t : Token} {ts : List Token} :
    AllNamed (t :: ts) ↔ t.IsNamed ∧ AllNamed ts := List.forall_mem_cons

@[grind =] theorem isNamed_identifier {name text : String} {pos : Position} :
    (⟨.identifier name, text, pos⟩ : Token).IsNamed ↔ IsSpelled name := by
  simp [Token.IsNamed]

/-- **Scanned tokens are named.** -/
theorem allNamed_scanFrom {file : String} {p : Position} {cs : List Char} {ts : List Token}
    (h : scanFrom file p cs = .ok ts) : AllNamed ts := by
  fun_induction scanFrom file p cs generalizing ts with
  | case1 p =>
    cases h
    simp [AllNamed, Token.IsNamed]
  | case2 p c cs hgap ih => exact ih h
  | case3 => simp at h
  | case4 => simp at h
  | case5 p c cs hgap l hl rest hrest ih =>
    cases h
    exact allNamed_cons.2 ⟨fun name hname => isNamed_lexeme hl hname, ih hrest⟩

/-! ## §2. What the readers take from named tokens. -/

section Readers

variable {file id : String} {ts rest : List Token}

/-- What a reader leaves is a part of its tokens, so it is named as they are. -/
theorem AllNamed.left (hts : AllNamed ts) (h : rest <:+ ts) : AllNamed rest :=
  fun t ht => hts t (h.mem ht)

/-- Collecting comments keeps names spelled. -/
theorem AllNamed.comments (hts : AllNamed ts) : AllNamed (takeComments ts).2 :=
  hts.left (suffix_takeComments List.suffix_rfl)

/-- Reading an item leaves tokens whose names are spelled. -/
theorem AllNamed.itemKind {kind : ItemKind} (hts : AllNamed ts)
    (h : readItemKind file ts = .ok (kind, rest)) : AllNamed rest :=
  hts.left (paused_readItemKind h List.suffix_rfl).suffix

/-- A field that is read has a spelled name. -/
theorem isSpelled_readField {decl : FieldDecl} (h : readField file ts = .ok (decl, rest))
    (hts : AllNamed ts) : IsSpelled decl.name := by
  unfold readField at h
  grind

/-- An alias that is read is a spelled name. -/
theorem isSpelled_readAlias {name : String} (h : (readAlias ts).1 = some name)
    (hts : AllNamed ts) : IsSpelled name := by
  unfold readAlias at h
  grind

/-- The names that an item gives to fields are spelled as names. -/
def ItemKind.IsNamed : ItemKind → Prop
  | .field decl => IsSpelled decl.name
  | .init _ => True
  | .embed resource given => IsSpelled resource ∧ ∀ name, given = some name → IsSpelled name

attribute [grind =] ItemKind.IsNamed

/-- An item that is read has spelled names. -/
theorem named_readItemKind {kind : ItemKind} (h : readItemKind file ts = .ok (kind, rest))
    (hts : AllNamed ts) : kind.IsNamed := by
  unfold readItemKind at h
  grind [→ isSpelled_readField, → isSpelled_readAlias]

/-- The items of a body that is read have spelled names. -/
theorem named_readItems {items : List Item} (h : readItems file id ts = .ok (items, rest))
    (hts : AllNamed ts) : ∀ item ∈ items, item.kind.IsNamed := by
  induction items generalizing ts with
  | nil => simp
  | cons item items ih =>
    obtain ⟨-, -, vs, hkind, hitems⟩ := readItems_cons h
    rw [List.forall_mem_cons]
    exact ⟨named_readItemKind hkind hts.comments, ih hitems (hts.comments.itemKind hkind)⟩

/-- The tokens from which the items of a body are read are named. -/
theorem AllNamed.body {head : Option ListHead} {items : List Item} (hts : AllNamed ts)
    (h : readBody file id ts = .ok (head, items, rest)) :
    ∃ us, AllNamed us ∧ readItems file id us = .ok (items, rest) := by
  obtain ⟨lexeme, pos, us, list, vs, heq, hlist, -, hitems⟩ | ⟨-, hitems⟩ := readBody_parts h
  · have hus : AllNamed us := (allNamed_cons.1 (heq ▸ hts.comments)).2
    exact ⟨vs, hus.left (paused_readListHead hlist List.suffix_rfl).suffix, hitems⟩
  · exact ⟨_, hts.comments, hitems⟩

/-- A declaration and its items are named. -/
def Declaration.IsNamed (d : Declaration) : Prop :=
  IsSpelled d.id ∧ ∀ item ∈ d.body, item.kind.IsNamed

attribute [grind =] Declaration.IsNamed

variable {comments : List String} {d : Declaration}

/-- The tokens from which the body of a declaration is read are named. -/
theorem AllNamed.declaration (hts : AllNamed ts)
    (h : readDeclaration file comments ts = .ok (d, rest)) :
    IsSpelled d.id ∧ ((∃ us, AllNamed us ∧ readBody file d.id us = .ok (d.list, d.body, rest)) ∨
      (d.list = none ∧ d.body = [])) := by
  obtain ⟨-, lexeme, us, vs, hname, -⟩ := readDeclaration_parts h
  have hhead := hts.left (List.drop_suffix d.modifiers ts)
  rw [hname, allNamed_cons] at hhead
  refine ⟨isNamed_identifier.1 hhead.1, ?_⟩
  obtain ⟨xs, hxs, hread⟩ | ⟨hlist, hempty, -⟩ := suffix_of_readDeclaration h (List.suffix_refl ts)
  · exact Or.inl ⟨xs, hts.left hxs, hread⟩
  · exact Or.inr ⟨hlist, hempty⟩

/-- A declaration that is read has spelled names. -/
theorem named_readDeclaration (h : readDeclaration file comments ts = .ok (d, rest))
    (hts : AllNamed ts) : d.IsNamed := by
  obtain ⟨hid, ⟨us, hus, hread⟩ | ⟨-, hempty⟩⟩ := hts.declaration h
  · obtain ⟨vs, hvs, hitems⟩ := hus.body hread
    exact ⟨hid, named_readItems hitems hvs⟩
  · exact ⟨hid, by simp [hempty]⟩

/-- **Each resource of a file is read from named tokens.** -/
theorem AllNamed.topLevels {tops : List TopLevel} (hts : AllNamed ts)
    (h : readTopLevels file ts = .ok tops) (hd : .resource d ∈ tops) :
    ∃ comments us rest, AllNamed us ∧ readDeclaration file comments us = .ok (d, rest) := by
  induction tops generalizing ts with
  | nil => cases hd
  | cons top tops ih =>
    obtain ⟨rest, htop, htops⟩ := readTopLevels_cons h
    cases hd with
    | head => exact ⟨_, _, rest, hts.comments, declaration_of_readTopLevel htop⟩
    | tail _ hmem =>
      exact ih (hts.comments.left (paused_readTopLevel htop List.suffix_rfl).suffix) htops hmem

end Readers

/-! ## §3. The names of a file. -/

/-- A spelled name is not empty, and the separator of addresses does not occur in it. -/
theorem isName_of_isSpelled {name : String} (h : IsSpelled name) : IsName name := by
  obtain ⟨c, cs, hname, hc⟩ := h
  constructor
  · rintro rfl
    simp at hname
  · rw [hname]
    simp [nul_not_mem_nameTail cs, Ne.symm (isNameStart_ne hc).1]

/-- **The first segment of a name is one.** -/
theorem isSpelled_embedName {resource : String} (h : IsSpelled resource) {given : Option String}
    (hgiven : ∀ name, given = some name → IsSpelled name) :
    IsSpelled (embedName resource given) := by
  unfold embedName
  cases given with
  | some name => exact hgiven name rfl
  | none =>
    unfold splitFirst?
    cases hcut : cutFirst '.' resource.toList with
    | none => exact h
    | some p =>
      obtain ⟨first, rest⟩ := p
      obtain ⟨happ, hdot⟩ := eq_append_of_cutFirst hcut
      obtain ⟨c, cs, hname, hc⟩ := h
      rw [hname] at happ
      cases first with
      | nil => exact absurd (List.cons.inj happ).1 (isNameStart_ne hc).2
      | cons d ds =>
        obtain ⟨rfl, htail⟩ := List.cons.inj happ
        -- the segment has no dot, and whatever else is in the tail continues a name
        have hsegment : ∀ e ∈ ds, isNameChar e = true := by
          intro e he
          refine (isNameChar_of_mem_nameTail cs e ?_).resolve_right ?_
          · rw [htail]
            exact List.mem_append_left _ he
          · rintro rfl
            exact hdot (List.mem_cons_of_mem _ he)
        refine ⟨c, ds, ?_, hc⟩
        rw [nameTail_of_isNameChar hsegment]
        exact String.toList_ofList

/-- The name of the implicit field of lists is spelled. -/
theorem isSpelled_list : IsSpelled "list" := by
  refine ⟨'l', ['i', 's', 't'], ?_, by decide⟩
  rw [nameTail_of_isNameChar (List.all_eq_true.1 (by decide))]
  decide

/-- **The fields of a declaration are spelled as names.** -/
theorem isSpelled_fields {d : Declaration} (h : d.IsNamed) : ∀ f ∈ d.fields, IsSpelled f.decl.name := by
  intro f hf
  unfold Declaration.fields at hf
  rcases List.mem_append.1 hf with hf | hf
  · obtain ⟨item, hitem, hfield⟩ := List.mem_filterMap.1 hf
    have hnamed := h.2 item hitem
    unfold Item.field? at hfield
    unfold ItemKind.IsNamed at hnamed
    split at hfield
    · next decl hkind =>
      rw [hkind] at hnamed
      cases hfield
      exact hnamed
    · next resource given hkind =>
      rw [hkind] at hnamed
      cases hfield
      exact isSpelled_embedName hnamed.1 hnamed.2
    · cases hfield
  · -- the elements of a list resource are in a field called `list`
    obtain ⟨head, -, rfl⟩ : ∃ head, d.list = some head ∧ head.field d.pos.line = f := by
      simpa using hf
    exact isSpelled_list

/-- The fields of a declaration have names. -/
theorem isName_fields {d : Declaration} (h : d.IsNamed) : ∀ f ∈ d.fields, IsName f.decl.name :=
  fun f hf => isName_of_isSpelled (isSpelled_fields h f hf)

/-- **Each resource of a parsed file is read from named tokens.** -/
theorem read_of_parse {source name : String} {file : File} (h : File.parse source name = .ok file)
    {d : Declaration} (hd : d ∈ file.resources) :
    ∃ comments us rest, AllNamed us ∧ readDeclaration name comments us = .ok (d, rest) := by
  unfold File.parse at h
  split at h
  · cases h
  · next ts hscan =>
    unfold File.ofTokens at h
    split at h
    · cases h
    · next tops htops =>
      cases h
      obtain ⟨top, htop, hresource⟩ := List.mem_filterMap.1 hd
      have hmem : .resource d ∈ tops := by
        cases top <;> simp_all
      exact (allNamed_scanFrom hscan).topLevels htops hmem

/-- The declarations of a parsed file are named. -/
theorem named_of_parse {source name : String} {file : File}
    (h : File.parse source name = .ok file) : ∀ d ∈ file.resources, d.IsNamed := by
  intro d hd
  obtain ⟨comments, us, rest, hus, hread⟩ := read_of_parse h hd
  exact named_readDeclaration hread hus

/-- **The resources and fields of a parsed file are named.** -/
theorem hasNames_of_parse {source name : String} {file : File}
    (h : File.parse source name = .ok file) : file.HasNames := by
  intro d hd
  have hnamed := named_of_parse h d hd
  exact ⟨isName_of_isSpelled hnamed.1, isName_fields hnamed⟩

/-- A parsed file has no packs yet. -/
theorem packs_of_parse {source name : String} {file : File}
    (h : File.parse source name = .ok file) : file.packs = ∅ := by
  unfold File.parse at h
  split at h
  · simp at h
  · unfold File.ofTokens at h
    split at h
    · simp at h
    · cases h
      rfl

/-- So nothing but its bases and its schema is left to ask. -/
theorem accepted_of_parse {source name : String} {file : File} {s : Schema}
    (h : File.parse source name = .ok file) (hbases : file.HasBases)
    (hs : file.schema = .ok s) : file.Accepted s where
  schema := hs
  noPacks := packs_of_parse h
  bases := hbases
  names := hasNames_of_parse h

end LazyFields.Source
