/-
  LazyFields.Proofs.Source.References
  ────────────────────────────────
  **REFERENCES ARE SPELLED AS NAMES.**

  A reference is read as one name, dots included, so it is what the scanner takes of
  some text, as the names of fields are:

    · `refersByName_of_parse`   — the references of a parsed file, reader by reader
    · `isSpelled_references`    — the references of the fields of a declaration
-/
import LazyFields.Proofs.Source.Named

namespace LazyFields.Source

open LazyFields.Text

/-! ## §1. What the readers take. -/

/-- The names are what the scanner takes of some texts. -/
def AllSpelled (names : List String) : Prop := ∀ name ∈ names, IsSpelled name

@[grind ←] theorem allSpelled_nil : AllSpelled [] := by simp [AllSpelled]

@[grind =] theorem allSpelled_cons {name : String} {names : List String} :
    AllSpelled (name :: names) ↔ IsSpelled name ∧ AllSpelled names := List.forall_mem_cons

theorem allSpelled_readNames {file : String} {ts rest : List Token} {names : List String}
    {line : Nat} (h : readNames file ts = .ok (names, line, rest)) (hts : AllNamed ts) :
    AllSpelled names := by
  fun_induction readNames file ts generalizing names line rest <;> grind

/-- The references of an item are spelled as names. -/
def ItemKind.RefersByName : ItemKind → Prop
  | .field decl => ∀ refs, decl.refs = some refs → AllSpelled refs
  | .init _ => True
  | .embed _ _ => True

/-- The references of a list are spelled as names. -/
def ListHead.RefersByName (head : ListHead) : Prop :=
  ∀ refs, head.refs = some refs → AllSpelled refs

/-- The references of a declaration are spelled as names. -/
structure Declaration.RefersByName (d : Declaration) : Prop where
  items : ∀ item ∈ d.body, item.kind.RefersByName
  list : ∀ head, d.list = some head → head.RefersByName

attribute [grind =] ItemKind.RefersByName ListHead.RefersByName
attribute [grind] Declaration.RefersByName

section Readers

variable {file id : String} {ts rest : List Token}

theorem refersByName_readField {decl : FieldDecl} (h : readField file ts = .ok (decl, rest))
    (hts : AllNamed ts) : (ItemKind.field decl).RefersByName := by
  unfold readField at h
  grind [→ allSpelled_readNames]

theorem refersByName_readItemKind {kind : ItemKind} (h : readItemKind file ts = .ok (kind, rest))
    (hts : AllNamed ts) : kind.RefersByName := by
  unfold readItemKind at h
  grind [→ refersByName_readField]

theorem refersByName_readItems {items : List Item} (h : readItems file id ts = .ok (items, rest))
    (hts : AllNamed ts) : ∀ item ∈ items, item.kind.RefersByName := by
  induction items generalizing ts with
  | nil => simp
  | cons item items ih =>
    obtain ⟨-, -, vs, hkind, hitems⟩ := readItems_cons h
    rw [List.forall_mem_cons]
    exact ⟨refersByName_readItemKind hkind hts.comments,
      ih hitems (hts.comments.itemKind hkind)⟩

theorem refersByName_readListHead {head : ListHead} (h : readListHead file ts = .ok (head, rest))
    (hts : AllNamed ts) : head.RefersByName := by
  unfold readListHead at h
  split at h
  · cases h
  · next us hus =>
    split at h
    · cases h
    · next element vs hvs =>
      -- behind the bracket and the name of the element
      have hleft : vs <:+ ts :=
        (paused_expectName hvs (paused_takeToken hus (by simp) List.suffix_rfl).suffix).suffix
      grind [→ allSpelled_readNames, AllNamed.left]

theorem refersByName_readBody {head : Option ListHead} {items : List Item}
    (h : readBody file id ts = .ok (head, items, rest)) (hts : AllNamed ts) :
    (∀ item ∈ items, item.kind.RefersByName)
      ∧ ∀ given, head = some given → given.RefersByName := by
  obtain ⟨us, hus, hitems⟩ := hts.body h
  refine ⟨refersByName_readItems hitems hus, fun given hgiven => ?_⟩
  obtain ⟨lexeme, pos, vs, list, ws, heq, hlist, hhead, -⟩ | ⟨hhead, -⟩ := readBody_parts h
  · cases hhead.symm.trans hgiven
    exact refersByName_readListHead hlist (allNamed_cons.1 (heq ▸ hts.comments)).2
  · cases hhead.symm.trans hgiven

theorem refersByName_readDeclaration {comments : List String} {d : Declaration}
    (h : readDeclaration file comments ts = .ok (d, rest)) (hts : AllNamed ts) :
    d.RefersByName := by
  obtain ⟨-, ⟨us, hus, hread⟩ | ⟨hlist, hempty⟩⟩ := hts.declaration h
  · obtain ⟨hitems, hhead⟩ := refersByName_readBody hread hus
    exact ⟨hitems, hhead⟩
  · exact ⟨by simp [hempty], by simp [hlist]⟩

end Readers

/-- **The references of a parsed file are spelled as names.** -/
theorem refersByName_of_parse {source name : String} {file : File}
    (h : File.parse source name = .ok file) : ∀ d ∈ file.resources, d.RefersByName := by
  intro d hd
  obtain ⟨comments, us, rest, hus, hread⟩ := read_of_parse h hd
  exact refersByName_readDeclaration hread hus

/-! ## §2. Fields. -/

section Fields

variable {d : Declaration}

theorem allSpelled_getD {refs : Option (List String)}
    (h : ∀ given, refs = some given → AllSpelled given) : AllSpelled (refs.getD []) := by
  cases refs with
  | none => exact allSpelled_nil
  | some given => exact h given rfl

/-- **The references of the fields of a declaration are spelled as names.** -/
theorem isSpelled_references (h : d.RefersByName) :
    ∀ f ∈ d.fields, AllSpelled f.decl.references := by
  intro f hf
  unfold Declaration.fields at hf
  rcases List.mem_append.1 hf with hf | hf
  · obtain ⟨item, hitem, hfield⟩ := List.mem_filterMap.1 hf
    have hrefers := h.items item hitem
    unfold Item.field? at hfield
    split at hfield
    · next decl hkind =>
      rw [hkind] at hrefers
      cases hfield
      exact allSpelled_getD hrefers
    · -- an embedded resource has no references
      cases hfield
      exact allSpelled_nil
    · cases hfield
  · obtain ⟨head, hhead, rfl⟩ : ∃ head, d.list = some head ∧ head.field d.pos.line = f := by
      simpa using hf
    show AllSpelled (head.refs.getD [])
    exact allSpelled_getD (h.list head hhead)

end Fields

end LazyFields.Source
