/-
  LazyFields.Proofs.Source.Print
  ────────────────────────────────
  **THE CANONICAL TEXT OF A FILE.**

  A file is printed as its imports, its options and its resources, each thing
  on a line of its own:

      // comments
      [private] [extend] id [@defaults("...")] {
        []Element[(refs)]
        // comments
        item
      }

  What can be printed so that it is read again is said by `File.Printable`.  Of
  such a file no token runs into the next one (`separated_topLevels`), so its
  text is scanned into the tokens that were printed.
-/
import LazyFields.Proofs.Source.Layout
import LazyFields.Source.Parse

namespace LazyFields.Source

/-! ## §1. The printer. -/

/-- A name, or a word of the grammar. -/
abbrev Piece.word (name : String) : Piece := .token (.identifier name)

/-- The closing parenthesis after some parts with commas between them. -/
def enumerated : List (List Piece) → List Piece
  | [] => [.token .rightParen]
  | [part] => part ++ [.token .rightParen]
  | part :: next :: parts => part ++ .token .comma :: .space :: enumerated (next :: parts)

/-- A type. -/
def TypeExpr.pieces : TypeExpr → List Piece
  | named name => [.word name]
  | list element => .token .leftBracket :: .token .rightBracket :: element.pieces
  | map key value =>
      .word "map" :: .token .leftBracket :: .word key :: .token .rightBracket :: value.pieces

/-- Enumerated names. -/
def namesPieces (names : List String) : List Piece := enumerated (names.map fun name => [.word name])

/-- References in parentheses, if there is a list of them. -/
def refsPieces : Option (List String) → List Piece
  | none => []
  | some refs => .token .leftParen :: namesPieces refs

/-- An argument of a constructor. -/
def ArgDecl.pieces (a : ArgDecl) : List Piece :=
  .word a.name :: (if a.optional then [.token .question] else []) ++ .space :: a.type.pieces

/-- The type of a field, if it has one. -/
def fieldTypePieces : Option TypeExpr → List Piece
  | none => []
  | some type => .space :: type.pieces

/-- The alias of an embedded resource, if it has one. -/
def aliasPieces : Option String → List Piece
  | none => []
  | some given => [.space, .word "as", .space, .word given]

/-- What an item declares. -/
def ItemKind.pieces : ItemKind → List Piece
  | field decl => .word decl.name :: refsPieces decl.refs ++ fieldTypePieces decl.type
  | init args => .word "init" :: .token .leftParen :: enumerated (args.map ArgDecl.pieces)
  | embed resource given => .word "embed" :: .space :: .word resource :: aliasPieces given

/-- Comments, each on its line. -/
def commentPieces (margin : Nat) (comments : List String) : List Piece :=
  comments.flatMap fun text =>
    List.replicate margin .space ++ [.token (.comment text), .newline]

/-- An item after its comments. -/
def Item.pieces (item : Item) : List Piece :=
  commentPieces 2 item.comments ++ .space :: .space :: item.kind.pieces ++ [.newline]

/-- The head of a list resource, if it is one. -/
def headPieces : Option ListHead → List Piece
  | none => []
  | some head =>
      .space :: .space :: .token .leftBracket :: .token .rightBracket :: .word head.element
        :: refsPieces head.refs ++ [.newline]

/-- A modifier, if it is set. -/
def modifierPieces (word : String) (isSet : Bool) : List Piece :=
  if isSet then [.word word, .space] else []

/-- A `@defaults` annotation, if there is one. -/
def defaultsPieces : Option String → List Piece
  | none => []
  | some value =>
      [.space, .token .atSign, .word "defaults", .token .leftParen, .token (.string value),
        .token .rightParen]

/-- A body in its braces. -/
def bodyPieces (list : Option ListHead) (body : List Item) : List Piece :=
  .space :: .token .leftBrace :: .newline :: headPieces list ++ body.flatMap Item.pieces
    ++ [.token .rightBrace, .newline]

/-- A declaration, its comments apart. -/
def Declaration.pieces (d : Declaration) : List Piece :=
  modifierPieces "private" d.isPrivate ++ modifierPieces "extend" d.isExtension
    ++ .word d.id :: defaultsPieces d.defaults ++ bodyPieces d.list d.body

/-- One thing of the top level after its comments. -/
def TopLevel.pieces : TopLevel → List Piece
  | importing path => [.word "import", .space, .token (.string path), .newline]
  | option name value =>
      [.word "option", .space, .word name, .space, .token .assign, .space,
        .token (.string value), .newline]
  | resource d => commentPieces 0 d.comments ++ d.pieces

/-- What a file says at its top level. -/
def File.topLevels (file : File) : List TopLevel :=
  file.imports.map .importing ++ file.options.entries.map (fun e => .option e.1 e.2)
    ++ file.resources.map .resource

/-- The canonical text of a file. -/
def File.text (file : File) : String :=
  String.ofList (render (file.topLevels.flatMap TopLevel.pieces))

/-! ## §2. What can be printed. -/

/-- A plain name that is no keyword in any place. -/
def IsIdentifier (name : String) : Prop :=
  IsPlainName name ∧ name ∉ TokenKind.contextualKeywords

/-- The names that an item gives and uses. -/
def ItemKind.names : ItemKind → List String
  | field decl => decl.name :: decl.references ++ decl.type.toList.flatMap TypeExpr.names
  | init args => args.flatMap fun a => a.name :: a.type.names
  | embed resource given => resource :: given.toList

/-- The names in the head of a list resource. -/
def ListHead.names (head : ListHead) : List String := head.element :: head.refs.getD []

/-- An item that can be printed. -/
structure Item.Printable (item : Item) : Prop where
  names : ∀ name ∈ item.kind.names, IsIdentifier name
  comments : ∀ text ∈ item.comments, IsComment text

/-- A declaration that can be printed. -/
structure Declaration.Printable (d : Declaration) : Prop where
  id : IsIdentifier d.id
  comments : ∀ text ∈ d.comments, IsComment text
  list : ∀ head ∈ d.list, ∀ name ∈ head.names, IsIdentifier name
  items : ∀ item ∈ d.body, item.Printable
  /-- Comments at the start of a body belong to nothing. -/
  first : d.list = none → ∀ item ∈ d.body.head?, item.comments = []

/-- A thing of the top level that can be printed. -/
def TopLevel.Printable : TopLevel → Prop
  | importing _ => True
  | option name _ => IsIdentifier name
  | resource d => d.Printable

/-- A file that can be printed. -/
structure File.Printable (file : File) : Prop where
  noPacks : file.packs = ∅
  topLevels : ∀ top ∈ file.topLevels, top.Printable

instance (name : String) : Decidable (IsIdentifier name) :=
  inferInstanceAs (Decidable (IsPlainName name ∧ name ∉ TokenKind.contextualKeywords))

instance (item : Item) : Decidable item.Printable :=
  decidable_of_iff ((∀ name ∈ item.kind.names, IsIdentifier name)
      ∧ ∀ text ∈ item.comments, IsComment text)
    ⟨fun h => ⟨h.1, h.2⟩, fun h => ⟨h.names, h.comments⟩⟩

instance (d : Declaration) : Decidable d.Printable :=
  decidable_of_iff (IsIdentifier d.id ∧ (∀ text ∈ d.comments, IsComment text)
      ∧ (∀ head ∈ d.list, ∀ name ∈ head.names, IsIdentifier name)
      ∧ (∀ item ∈ d.body, item.Printable)
      ∧ (d.list = none → ∀ item ∈ d.body.head?, item.comments = []))
    ⟨fun h => ⟨h.1, h.2.1, h.2.2.1, h.2.2.2.1, h.2.2.2.2⟩,
      fun h => ⟨h.id, h.comments, h.list, h.items, h.first⟩⟩

instance (top : TopLevel) : Decidable top.Printable :=
  match top with
  | .importing _ => .isTrue trivial
  | .option name _ => inferInstanceAs (Decidable (IsIdentifier name))
  | .resource d => inferInstanceAs (Decidable d.Printable)

instance (file : File) : Decidable file.Printable :=
  decidable_of_iff (file.packs = ∅ ∧ ∀ top ∈ file.topLevels, top.Printable)
    ⟨fun h => ⟨h.1, h.2⟩, fun h => ⟨h.noPacks, h.topLevels⟩⟩

/-! ## §3. Printed tokens are separated.

The scanner does not know the keywords, so names need only be plain for this. -/

section Separated

/-- An item whose tokens can be told apart. -/
structure Item.Spelled (item : Item) : Prop where
  names : ∀ name ∈ item.kind.names, IsPlainName name
  comments : ∀ text ∈ item.comments, IsComment text

/-- A printable item is spelled. -/
theorem Item.Printable.spelled {item : Item} (h : item.Printable) : item.Spelled where
  names name hname := (h.names name hname).1
  comments := h.comments

variable {rest : List Piece}

attribute [local simp] TokenKind.Fits TokenKind.isIdentifier

/-- A type keeps its pieces apart from what follows. -/
theorem separated_type {t : TypeExpr} (ht : ∀ name ∈ t.names, IsPlainName name)
    (hrest : Separated rest) (hname : startsName rest = false) :
    Separated (t.pieces ++ rest) := by
  induction t with
  | named name =>
    rw [TypeExpr.names, List.forall_mem_singleton] at ht
    exact ⟨⟨ht, hname⟩, hrest⟩
  | list element ih => simpa [TypeExpr.pieces] using ih ht
  | map key value ih =>
    rw [TypeExpr.names, List.forall_mem_cons] at ht
    have hmap : IsPlainName "map" := by decide
    simpa [TypeExpr.pieces, hmap, ht.1] using ih ht.2

/-- Enumerated parts are separated if each of them is from what cannot be a name. -/
theorem separated_enumerated {parts : List (List Piece)} (hparts : ∀ part ∈ parts,
    ∀ ps, Separated ps → startsName ps = false → Separated (part ++ ps))
    (hrest : Separated rest) : Separated (enumerated parts ++ rest) := by
  fun_induction enumerated parts with
  | case1 => simpa using hrest
  | case2 part =>
    rw [List.append_assoc]
    exact hparts part List.mem_cons_self _ (by simpa using hrest) rfl
  | case3 part next parts ih =>
    rw [List.forall_mem_cons] at hparts
    rw [List.append_assoc]
    exact hparts.1 _ (by simpa using ih hparts.2) rfl

/-- So do references. -/
theorem separated_refs {refs : Option (List String)}
    (hrefs : ∀ name ∈ refs.getD [], IsPlainName name) (hrest : Separated rest) :
    Separated (refsPieces refs ++ rest) := by
  cases refs with
  | none => exact hrest
  | some names =>
    refine ⟨trivial, separated_enumerated ?_ hrest⟩
    intro part hpart ps hps hname
    obtain ⟨name, hmem, rfl⟩ := List.mem_map.1 hpart
    exact ⟨⟨hrefs name hmem, hname⟩, hps⟩

/-- References start no name. -/
theorem startsName_refs (refs : Option (List String)) (hname : startsName rest = false) :
    startsName (refsPieces refs ++ rest) = false := by
  cases refs with
  | none => exact hname
  | some names => rfl

/-- An argument keeps its pieces apart. -/
theorem separated_argument {a : ArgDecl} (ha : ∀ name ∈ a.name :: a.type.names, IsPlainName name)
    (hrest : Separated rest) (hname : startsName rest = false) :
    Separated (a.pieces ++ rest) := by
  rw [List.forall_mem_cons] at ha
  have htype := separated_type ha.2 hrest hname
  unfold ArgDecl.pieces
  cases a.optional <;> simpa [ha.1] using htype

/-- So does the type of a field. -/
theorem separated_fieldType {type : Option TypeExpr}
    (htype : ∀ name ∈ type.toList.flatMap TypeExpr.names, IsPlainName name)
    (hrest : Separated rest) (hname : startsName rest = false) :
    Separated (fieldTypePieces type ++ rest) := by
  cases type with
  | none => exact hrest
  | some t => exact separated_type (by simpa using htype) hrest hname

/-- The type of a field starts no name, since a blank stands before it. -/
theorem startsName_fieldType (type : Option TypeExpr) (hname : startsName rest = false) :
    startsName (fieldTypePieces type ++ rest) = false := by
  cases type with
  | none => exact hname
  | some t => rfl

/-- An alias keeps its pieces apart. -/
theorem separated_alias {given : Option String}
    (hgiven : ∀ name ∈ given.toList, IsPlainName name) (hrest : Separated rest)
    (hname : startsName rest = false) : Separated (aliasPieces given ++ rest) := by
  cases given with
  | none => exact hrest
  | some name =>
    have has : IsPlainName "as" := by decide
    have hplain : IsPlainName name := hgiven name (by simp)
    simp [aliasPieces, has, hplain, hrest, hname]

/-- So does an item, whatever it is. -/
theorem separated_itemKind {kind : ItemKind} (hkind : ∀ name ∈ kind.names, IsPlainName name)
    (hrest : Separated rest) (hname : startsName rest = false) :
    Separated (kind.pieces ++ rest) := by
  cases kind with
  | field decl =>
    rw [ItemKind.names, List.forall_mem_append, List.forall_mem_cons] at hkind
    obtain ⟨⟨hdecl, hrefs⟩, htype⟩ := hkind
    have htyped := separated_fieldType htype hrest hname
    have hstart := startsName_refs decl.refs (startsName_fieldType decl.type hname)
    simpa [ItemKind.pieces, hdecl, hstart] using separated_refs hrefs htyped
  | init args =>
    have hinit : IsPlainName "init" := by decide
    refine ⟨⟨hinit, rfl⟩, trivial, separated_enumerated ?_ hrest⟩
    intro part hpart ps hps hps'
    obtain ⟨a, ha, rfl⟩ := List.mem_map.1 hpart
    have hnames : ∀ name ∈ a.name :: a.type.names, IsPlainName name :=
      fun name hmem => hkind name (List.mem_flatMap.2 ⟨a, ha, hmem⟩)
    exact separated_argument hnames hps hps'
  | embed resource given =>
    rw [ItemKind.names, List.forall_mem_cons] at hkind
    have hembed : IsPlainName "embed" := by decide
    have halias := separated_alias hkind.2 hrest hname
    have hstart : startsName (aliasPieces given ++ rest) = false := by
      cases given with
      | none => exact hname
      | some name => rfl
    simpa [ItemKind.pieces, hembed, hkind.1, hstart] using halias

/-- Blanks do not matter. -/
theorem separated_spaces (n : Nat) (hrest : Separated rest) :
    Separated (List.replicate n .space ++ rest) := by
  induction n with
  | zero => exact hrest
  | succ n ih => exact ih

/-- Comments end with their line. -/
theorem separated_comments (margin : Nat) {comments : List String}
    (hcomments : ∀ text ∈ comments, IsComment text) (hrest : Separated rest) :
    Separated (commentPieces margin comments ++ rest) := by
  unfold commentPieces
  induction comments with
  | nil => exact hrest
  | cons text comments ih =>
    rw [List.forall_mem_cons] at hcomments
    rw [List.flatMap_cons, List.append_assoc, List.append_assoc]
    exact separated_spaces margin (by simpa [hcomments.1] using ih hcomments.2)

/-- An item keeps its pieces apart, with its comments. -/
theorem separated_item {item : Item} (h : item.Spelled) (hrest : Separated rest) :
    Separated (item.pieces ++ rest) := by
  have hkind : Separated (item.kind.pieces ++ .newline :: rest) :=
    separated_itemKind h.names hrest rfl
  unfold Item.pieces
  rw [List.append_assoc, List.append_assoc]
  exact separated_comments 2 h.comments hkind

/-- So do the items of a body. -/
theorem separated_items {items : List Item} (h : ∀ item ∈ items, item.Spelled)
    (hrest : Separated rest) : Separated (items.flatMap Item.pieces ++ rest) := by
  induction items with
  | nil => exact hrest
  | cons item items ih =>
    rw [List.forall_mem_cons] at h
    rw [List.flatMap_cons, List.append_assoc]
    exact separated_item h.1 (ih h.2)

/-- So does the head of a list. -/
theorem separated_head {list : Option ListHead}
    (hlist : ∀ head ∈ list, ∀ name ∈ head.names, IsPlainName name) (hrest : Separated rest) :
    Separated (headPieces list ++ rest) := by
  cases list with
  | none => exact hrest
  | some head =>
    have hhead := hlist head rfl
    rw [ListHead.names, List.forall_mem_cons] at hhead
    have hrefs : Separated (refsPieces head.refs ++ .newline :: rest) :=
      separated_refs hhead.2 hrest
    have hstart : startsName (refsPieces head.refs ++ .newline :: rest) = false :=
      startsName_refs head.refs rfl
    simpa [headPieces, hhead.1, hstart] using hrefs

/-- A modifier stands before a blank. -/
theorem separated_modifier (word : String) (isSet : Bool) (hword : IsPlainName word)
    (hrest : Separated rest) : Separated (modifierPieces word isSet ++ rest) := by
  cases isSet with
  | false => exact hrest
  | true => simpa [modifierPieces, hword] using hrest

/-- Defaults stand in parentheses. -/
theorem separated_defaults (defaults : Option String) (hrest : Separated rest) :
    Separated (defaultsPieces defaults ++ rest) := by
  cases defaults with
  | none => exact hrest
  | some value =>
    have hdefaults : IsPlainName "defaults" := by decide
    simpa [defaultsPieces, hdefaults] using hrest

/-- Defaults start no name. -/
theorem startsName_defaults (defaults : Option String) (hname : startsName rest = false) :
    startsName (defaultsPieces defaults ++ rest) = false := by
  cases defaults with
  | none => exact hname
  | some value => rfl

/-- A body keeps its pieces apart. -/
theorem separated_body {list : Option ListHead} {body : List Item}
    (hlist : ∀ head ∈ list, ∀ name ∈ head.names, IsPlainName name)
    (hbody : ∀ item ∈ body, item.Spelled) (hrest : Separated rest) :
    Separated (bodyPieces list body ++ rest) := by
  have hclose : Separated (.token .rightBrace :: .newline :: rest) := by simpa using hrest
  have hopen := separated_head hlist (separated_items hbody hclose)
  simpa [bodyPieces] using hopen

/-- So does a declaration. -/
theorem separated_declaration {d : Declaration} (hid : IsPlainName d.id)
    (hlist : ∀ head ∈ d.list, ∀ name ∈ head.names, IsPlainName name)
    (hitems : ∀ item ∈ d.body, item.Spelled) (hrest : Separated rest) :
    Separated (d.pieces ++ rest) := by
  have hbody := separated_body hlist hitems hrest
  have hname : Separated (.word d.id :: (defaultsPieces d.defaults ++
      (bodyPieces d.list d.body ++ rest))) :=
    ⟨⟨hid, startsName_defaults d.defaults rfl⟩, separated_defaults d.defaults hbody⟩
  have hextend := separated_modifier "extend" d.isExtension (by decide) hname
  have hprivate := separated_modifier "private" d.isPrivate (by decide) hextend
  simpa [Declaration.pieces] using hprivate

/-- So does whatever stands at the top. -/
theorem separated_topLevel {top : TopLevel} (h : top.Printable) (hrest : Separated rest) :
    Separated (top.pieces ++ rest) := by
  cases top with
  | importing path =>
    have himport : IsPlainName "import" := by decide
    simpa [TopLevel.pieces, himport] using hrest
  | option name value =>
    have hoption : IsPlainName "option" := by decide
    have hname : IsIdentifier name := h
    simpa [TopLevel.pieces, hoption, hname.1] using hrest
  | resource d =>
    have hdeclaration : Separated (d.pieces ++ rest) := separated_declaration h.id.1
      (fun head hhead name hname => (h.list head hhead name hname).1)
      (fun item hitem => (h.items item hitem).spelled) hrest
    rw [TopLevel.pieces, List.append_assoc]
    exact separated_comments 0 h.comments hdeclaration

/-- **No token of a printed file runs into the next one.** -/
theorem separated_topLevels {tops : List TopLevel} (h : ∀ top ∈ tops, top.Printable) :
    Separated (tops.flatMap TopLevel.pieces) := by
  induction tops with
  | nil => exact separated_nil
  | cons top tops ih =>
    rw [List.forall_mem_cons] at h
    rw [List.flatMap_cons]
    exact separated_topLevel h.1 (ih h.2)

end Separated

end LazyFields.Source
