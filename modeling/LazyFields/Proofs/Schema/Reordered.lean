/-
  LazyFields.Proofs.Schema.Reordered
  ────────────────────────────────
  **THE ORDER OF THE DECLARATIONS DOES NOT MATTER.**

  The pass over a file joins each declaration to what its resource came to so
  far, and treats a base declaration differently when it stands before its
  extensions and when it stands after them.  What comes out is the same:

    · `Totals`    — what a resource is, told by its built declarations as a
      set, with no word about their order
    · `Totals.join` — joining one more declaration adds it to the set
    · `Totals.unique` — and the set leaves no choice, if there is a base and no
      two declarations have defaults
    · `accepted_reordered` — whether a file is accepted is told by its
      declarations as a set, too
    · `schema_reordered` — both together, for the file and its permutations
-/
import LazyFields.Proofs.Schema.Valid

namespace LazyFields

open LazyFields.Source
open Relation (TransGen)

/-! ## §1. What a resource comes to. -/

/-- The resource is what its parts are together.  A part that is no extension
says how the resource is documented and whether it is private; the text of its
defaults is that of one of the parts. -/
structure Totals (Part : ResourceSpec → Prop) (info : ResourceSpec) : Prop where
  isExtension : info.isExtension = true ↔ ∀ part, Part part → part.isExtension = true
  base : ∀ part, Part part → part.isExtension = false →
    info.title = part.title ∧ info.desc = part.desc ∧ info.isPrivate = part.isPrivate
  field : ∀ name spec, info.fields.get? name = some spec
    ↔ ∃ part, Part part ∧ part.fields.get? name = some spec
  init : ∀ params, info.init = some params ↔ ∃ part, Part part ∧ part.init = some params
  listType : ∀ element, info.listType = some element
    ↔ ∃ part, Part part ∧ part.listType = some element
  defaults : info.defaults ≠ "" → ∃ part, Part part ∧ part.defaults = info.defaults
  noDefaults : info.defaults = "" → ∀ part, Part part → part.defaults = ""

/-- A list resource keeps its elements in a field. -/
def ResourceSpec.KeepsElements (info : ResourceSpec) : Prop :=
  info.listType.isSome = true → info.fields.contains "list" = true

section Join

variable {Part : ResourceSpec → Prop} {existing info joined : ResourceSpec}

/-- A part alone. -/
theorem totals_self (info : ResourceSpec) : Totals (· = info) info where
  isExtension := by simp
  base := by simp
  field name spec := by simp
  init params := by simp
  listType element := by simp
  defaults _ := ⟨info, rfl, rfl⟩
  noDefaults h := by simp [h]

/-- Of two options of which one is empty, either is the first that is not. -/
theorem or_eq_some_iff_of_not_both {α : Type} {a b : Option α} {x : α}
    (h : ¬ (a.isSome = true ∧ b.isSome = true)) : a.or b = some x ↔ a = some x ∨ b = some x := by
  cases a <;> cases b <;> simp_all

/-- What joining asks for, and what it makes of the two. -/
theorem joinDeclaration_eq_ok (h : joinDeclaration existing info = .ok joined) :
    ∃ fields, joinFields info.id info.fields.entries existing.fields = .ok fields
      ∧ (existing.isExtension = true ∨ info.isExtension = true)
      ∧ ¬ (existing.init.isSome = true ∧ info.init.isSome = true)
      ∧ joined =
        { id := existing.id, name := existing.name
          title := (if info.isExtension then existing else info).title
          desc := (if info.isExtension then existing else info).desc
          init := existing.init.or info.init
          isPrivate := (if info.isExtension then existing else info).isPrivate
          isExtension := existing.isExtension && info.isExtension
          defaults := if existing.defaults = "" then info.defaults else existing.defaults
          fields, listType := existing.listType.or info.listType } := by
  unfold joinDeclaration at h
  split at h
  · simp at h
  · next hbases =>
    split at h
    · simp at h
    · next fields hfields =>
      split at h
      · simp at h
      · next hinits =>
        cases h
        refine ⟨fields, hfields, ?_, by simpa using hinits, rfl⟩
        cases hexisting : existing.isExtension <;> simp_all

/-- Two declarations with a list head cannot be joined: both have the field
that keeps the elements. -/
theorem not_both_lists (hexisting : existing.KeepsElements) (hinfo : info.KeepsElements)
    {fields : Table FieldSpec}
    (h : joinFields info.id info.fields.entries existing.fields = .ok fields) :
    ¬ (existing.listType.isSome = true ∧ info.listType.isSome = true) := by
  intro hboth
  have hfresh := (joinFields_isOk_iff info.fields.sorted).1 ⟨fields, h⟩
  obtain ⟨spec, hspec⟩ := Option.isSome_iff_exists.1 (hinfo hboth.2)
  have hnot := hfresh ("list", spec) (Table.get?_eq_some_iff_mem.1 hspec)
  rw [hexisting hboth.1] at hnot
  exact Bool.noConfusion hnot

/-- Joining two declarations that keep their elements gives one that keeps them. -/
theorem keepsElements_join (hexisting : existing.KeepsElements) (hinfo : info.KeepsElements)
    (h : joinDeclaration existing info = .ok joined) : joined.KeepsElements := by
  obtain ⟨fields, hfields, -, -, rfl⟩ := joinDeclaration_eq_ok h
  have hget := get?_joinFields hfields "list"
  intro hlist
  rw [Option.isSome_or, Bool.or_eq_true] at hlist
  refine Option.isSome_iff_exists.2 ?_
  rcases hlist with hlist | hlist
  · obtain ⟨spec, hspec⟩ := Option.isSome_iff_exists.1 (hexisting hlist)
    exact ⟨spec, (hget spec).2 (.inl hspec)⟩
  · obtain ⟨spec, hspec⟩ := Option.isSome_iff_exists.1 (hinfo hlist)
    exact ⟨spec, (hget spec).2 (.inr (Table.get?_eq_some_iff_mem.1 hspec))⟩

/-- **Joining one more declaration adds it to the parts.** -/
theorem Totals.join (hs : Totals Part existing) (hexisting : existing.KeepsElements)
    (hinfo : info.KeepsElements) (h : joinDeclaration existing info = .ok joined) :
    Totals (fun part => Part part ∨ part = info) joined := by
  obtain ⟨fields, hfields, hbases, hinits, rfl⟩ := joinDeclaration_eq_ok h
  have hlists := not_both_lists hexisting hinfo hfields
  constructor
  case isExtension =>
    rw [Bool.and_eq_true, hs.isExtension]
    simp only [or_imp, forall_and, forall_eq]
  case base =>
    -- the base is the new part, or one of those before it, and never both
    intro part hpart hbase
    dsimp only
    rcases hpart with hpart | rfl
    · have hnot : ¬ existing.isExtension = true := by
        intro hext
        rw [hs.isExtension.1 hext part hpart] at hbase
        exact Bool.noConfusion hbase
      rw [if_pos (hbases.resolve_left hnot)]
      exact hs.base part hpart hbase
    · rw [if_neg (by simp [hbase])]
      exact ⟨rfl, rfl, rfl⟩
  case field =>
    intro name spec
    rw [get?_joinFields hfields, hs.field, ← Table.get?_eq_some_iff_mem]
    simp only [or_and_right, exists_or, exists_eq_left]
  case init =>
    intro params
    rw [or_eq_some_iff_of_not_both hinits, hs.init]
    simp only [or_and_right, exists_or, exists_eq_left]
  case listType =>
    intro element
    rw [or_eq_some_iff_of_not_both hlists, hs.listType]
    simp only [or_and_right, exists_or, exists_eq_left]
  case defaults =>
    intro hne
    dsimp only at hne ⊢
    by_cases hempty : existing.defaults = ""
    · rw [if_pos hempty]
      exact ⟨info, .inr rfl, rfl⟩
    · rw [if_neg hempty]
      obtain ⟨part, hpart, heq⟩ := hs.defaults hempty
      exact ⟨part, .inl hpart, heq⟩
  case noDefaults =>
    intro hnone part hpart
    dsimp only at hnone
    by_cases hempty : existing.defaults = ""
    · rw [if_pos hempty] at hnone
      rcases hpart with hpart | rfl
      · exact hs.noDefaults hempty part hpart
      · exact hnone
    · exact absurd hnone (by rwa [if_neg hempty])

/-- **The parts leave no choice,** if one of them is no extension and those that
have defaults have the same. -/
theorem Totals.unique {a b : ResourceSpec} (ha : Totals Part a) (hb : Totals Part b)
    (hid : a.id = b.id) (hname : a.name = b.name)
    (hbase : ∃ part, Part part ∧ part.isExtension = false)
    (hdefaults : ∀ part part', Part part → Part part' → part.defaults ≠ "" →
      part'.defaults ≠ "" → part.defaults = part'.defaults) : a = b := by
  obtain ⟨base, hpart, hstands⟩ := hbase
  obtain ⟨hatitle, hadesc, haprivate⟩ := ha.base base hpart hstands
  obtain ⟨hbtitle, hbdesc, hbprivate⟩ := hb.base base hpart hstands
  have hinit : a.init = b.init := Option.ext fun params => (ha.init params).trans (hb.init params).symm
  have hlist : a.listType = b.listType :=
    Option.ext fun element => (ha.listType element).trans (hb.listType element).symm
  have hfields : a.fields = b.fields := Table.ext_get? fun name =>
    Option.ext fun spec => (ha.field name spec).trans (hb.field name spec).symm
  have hext : a.isExtension = b.isExtension :=
    Bool.eq_iff_iff.2 (ha.isExtension.trans hb.isExtension.symm)
  -- either both have defaults, those of a part each, or no part has any
  have hsame : a.defaults = b.defaults := by
    by_cases hanone : a.defaults = ""
    · by_cases hbnone : b.defaults = ""
      · rw [hanone, hbnone]
      · obtain ⟨part, hpart, heq⟩ := hb.defaults hbnone
        rw [← heq, ha.noDefaults hanone part hpart, hanone]
    · obtain ⟨part, hpart, heq⟩ := ha.defaults hanone
      have hbsome : b.defaults ≠ "" := fun hbnone =>
        hanone (heq.symm.trans (hb.noDefaults hbnone part hpart))
      obtain ⟨part', hpart', heq'⟩ := hb.defaults hbsome
      rw [← heq, ← heq']
      exact hdefaults part part' hpart hpart' (heq ▸ hanone) (heq' ▸ hbsome)
  have htitle : a.title = b.title := hatitle.trans hbtitle.symm
  have hdesc : a.desc = b.desc := hadesc.trans hbdesc.symm
  have hprivate : a.isPrivate = b.isPrivate := haprivate.trans hbprivate.symm
  cases a
  cases b
  rw [ResourceSpec.mk.injEq]
  exact ⟨hid, hname, htitle, hdesc, hinit, hprivate, hext, hsame, hfields, hlist⟩

end Join

/-! ## §2. The pass over a file. -/

section Pass

variable {file : File} {seen : List Declaration} {resources : Table ResourceSpec} {d : Declaration}

/-- The part is one of the declarations of the resource, built. -/
def BuiltFrom (file : File) (ds : List Declaration) (id : String) (part : ResourceSpec) : Prop :=
  ∃ d ∈ ds, d.id = id ∧ buildDeclaration file d = .ok part

/-- The resources are what the declarations so far are together. -/
structure Totalled (file : File) (seen : List Declaration) (resources : Table ResourceSpec) :
    Prop where
  absent : ∀ {id}, resources.get? id = none → ∀ d ∈ seen, d.id ≠ id
  content : ∀ {id info}, resources.get? id = some info →
    info.id = id ∧ info.name = id ∧ info.KeepsElements ∧ Totals (BuiltFrom file seen id) info

/-- Nothing declared, nothing totalled. -/
theorem totalled_nil : Totalled file [] ∅ where
  absent _ := by simp
  content h := by simp at h

/-- One more declaration contributes one more part, to its own kind. -/
theorem builtFrom_append {info : ResourceSpec} (hinfo : buildDeclaration file d = .ok info)
    {id : String} : BuiltFrom file (seen ++ [d]) id
      = fun part => BuiltFrom file seen id part ∨ (d.id = id ∧ part = info) := by
  funext part
  simp only [BuiltFrom, List.mem_append, List.mem_singleton, or_and_right, exists_or,
    exists_eq_left, hinfo, Except.ok.injEq, eq_comm (a := info)]

/-- What a built declaration takes over from the declaration as it stands. -/
theorem head_buildDeclaration {info : ResourceSpec} (h : buildDeclaration file d = .ok info) :
    info.id = d.id ∧ info.name = d.id ∧ info.isExtension = d.isExtension
      ∧ info.defaults = d.defaults.getD "" := by
  unfold buildDeclaration at h
  split at h
  · simp at h
  · split at h
    · simp at h
    · split at h
      · simp at h
      · cases h
        exact ⟨rfl, rfl, rfl, rfl⟩

/-- A declaration that is built keeps its elements. -/
theorem keepsElements_buildDeclaration {info : ResourceSpec}
    (h : buildDeclaration file d = .ok info) : info.KeepsElements := by
  obtain ⟨-, hcontent⟩ := says_buildDeclaration h
  intro hlist
  obtain ⟨t, ht⟩ := Option.isSome_iff_exists.1 hlist
  obtain ⟨d', hd', head, hhead, -⟩ := hcontent.element t ht
  refine (hcontent.contains "list").2 ⟨d', hd', ?_⟩
  refine List.mem_map.2 ⟨head.field d'.pos.line, List.mem_append_right _ ?_, rfl⟩
  simp [hhead]

/-- What a declaration adds is stored, and everything else stays. -/
theorem Totalled.insert (h : Totalled file seen resources) {part info : ResourceSpec}
    (hpart : buildDeclaration file d = .ok part) (hid : info.id = d.id) (hname : info.name = d.id)
    (hkeeps : info.KeepsElements)
    (htotals : Totals (fun p => BuiltFrom file seen d.id p ∨ p = part) info) :
    Totalled file (seen ++ [d]) (resources.insert d.id info) := by
  constructor
  · intro id hnone d' hd'
    rw [Table.get?_insert] at hnone
    split at hnone
    · simp at hnone
    · next hne =>
      rcases List.mem_append.1 hd' with hd' | hd'
      · exact h.absent hnone d' hd'
      · exact List.mem_singleton.1 hd' ▸ hne
  · intro id info' hinfo'
    rw [builtFrom_append hpart]
    rw [Table.get?_insert] at hinfo'
    by_cases heq : d.id = id
    · subst heq
      rw [if_pos rfl] at hinfo'
      cases hinfo'
      simp only [true_and]
      exact ⟨hid, hname, hkeeps, htotals⟩
    -- the declaration is of another resource, and adds nothing here
    · rw [if_neg heq] at hinfo'
      simp only [heq, false_and, or_false]
      exact h.content hinfo'

/-- Totals stay totals when one more declaration is added. -/
theorem totalled_addDeclaration (h : Totalled file seen resources) {out : Table ResourceSpec}
    (hadd : addDeclaration file resources d = .ok out) : Totalled file (seen ++ [d]) out := by
  unfold addDeclaration at hadd
  split at hadd
  · simp at hadd
  · next part hpart =>
    obtain ⟨hid, hname, -⟩ := head_buildDeclaration hpart
    have hkeeps := keepsElements_buildDeclaration hpart
    split at hadd
    · next hnone =>
      cases hadd
      -- it is the first declaration of its id, so it is the only part
      have honly : (fun p => BuiltFrom file seen d.id p ∨ p = part) = (· = part) := by
        funext p
        have hnot : ¬ BuiltFrom file seen d.id p := fun ⟨d', hd', heq, _⟩ => h.absent hnone d' hd' heq
        simp [hnot]
      exact h.insert hpart hid hname hkeeps (honly ▸ totals_self part)
    · next existing hexisting =>
      obtain ⟨heid, hename, hekeeps, htotals⟩ := h.content hexisting
      split at hadd
      · simp at hadd
      · next joined hjoined =>
        cases hadd
        have hnames : joined.id = existing.id ∧ joined.name = existing.name := by
          obtain ⟨fields, -, -, -, rfl⟩ := joinDeclaration_eq_ok hjoined
          exact ⟨rfl, rfl⟩
        exact h.insert hpart (hnames.1.trans heid) (hnames.2.trans hename)
          (keepsElements_join hekeeps hkeeps hjoined) (htotals.join hekeeps hkeeps hjoined)

/-- Totals stay totals along the whole list of declarations. -/
theorem totalled_addDeclarations : ∀ {ds seen : List Declaration}
    {resources out : Table ResourceSpec}, Totalled file seen resources →
    addDeclarations file ds resources = .ok out → Totalled file (seen ++ ds) out := by
  intro ds
  induction ds with
  | nil =>
    intro seen resources out h hadd
    cases hadd
    simpa using h
  | cons d ds ih =>
    intro seen resources out h hadd
    unfold addDeclarations at hadd
    split at hadd
    · simp at hadd
    · next mid hmid => simpa using ih (totalled_addDeclaration h hmid) hadd

/-- The resources of a schema are what the declarations of its file are together. -/
theorem totalled_of_schema {s : Schema} (h : file.schema = .ok s) :
    Totalled file file.resources s.resources := by
  simpa using totalled_addDeclarations totalled_nil (parts_of_schema h).1

end Pass

/-! ## §3. What the names of a file mean. -/

section Names

variable {file file' : File}

/-- A file reads a declaration by what its names mean, and by nothing else. -/
theorem typeOf_congr (h : resolveName file' = resolveName file) (e : TypeExpr) :
    typeOf file' e = typeOf file e := by
  induction e with
  | named name => rw [typeOf, typeOf, h]
  | list element ih => rw [typeOf, typeOf, ih]
  | map key value ih => rw [typeOf, typeOf, ih, h]

/-- A field is built from the file through the names it resolves only. -/
theorem buildField_congr (h : resolveName file' = resolveName file) (id : String) :
    buildField file' id = buildField file id := by
  funext f
  unfold buildField
  simp only [typeOf_congr h]

/-- The fields of a declaration are built from the file through the names it resolves. -/
theorem buildFields_congr (h : resolveName file' = resolveName file) (id : String)
    (fs : List DeclaredField) (fields : Table FieldSpec) :
    buildFields file' id fs fields = buildFields file id fs fields := by
  induction fs generalizing fields with
  | nil => rfl
  | cons f fs ih => simp only [buildFields, buildField_congr h, ih]

/-- Its arguments are built so too. -/
theorem buildArgs_congr (h : resolveName file' = resolveName file) (id : String)
    (fields : Table FieldSpec) (args : List ArgDecl) (afterOptional : Bool) :
    buildArgs file' id fields afterOptional args = buildArgs file id fields afterOptional args := by
  induction args generalizing afterOptional with
  | nil => rfl
  | cons a args ih => simp only [buildArgs, typeOf_congr h, ih]

/-- A declaration is built from the file through the names it resolves only. -/
theorem buildDeclaration_congr (h : resolveName file' = resolveName file) (d : Declaration) :
    buildDeclaration file' d = buildDeclaration file d := by
  have hlist : buildListType file' d.id d.list = buildListType file d.id d.list := by
    unfold buildListType
    rw [h]
  have hinit (fields : Table FieldSpec) :
      buildInit file' d.id fields d.inits = buildInit file d.id fields d.inits := by
    unfold buildInit
    simp only [buildArgs_congr h]
  unfold buildDeclaration
  simp only [hlist, hinit, buildFields_congr h]

end Names

/-! ## §4. The declarations in another order. -/

section Reordered

variable {file : File} {ds : List Declaration}

/-- The file with its declarations in the given order. -/
def Source.File.reordered (file : File) (ds : List Declaration) : File :=
  { file with resources := ds }

/-- Order does not matter to what a file declares. -/
theorem declares_reordered (h : file.resources.Perm ds) :
    (file.reordered ds).Declares = file.Declares := by
  funext id
  exact propext (exists_congr fun d => and_congr_left' h.symm.mem_iff)

/-- Order does not matter to the meaning of names. -/
theorem resolveName_reordered (h : file.resources.Perm ds) :
    resolveName (file.reordered ds) = resolveName file := by
  have hnames (name : String) :
      (file.reordered ds).localNames.contains name = file.localNames.contains name := by
    rw [Bool.eq_iff_iff, contains_localNames, contains_localNames, declares_reordered h]
  have hpacks (name : String) : (file.reordered ds).packAndName? name = file.packAndName? name := rfl
  funext name
  unfold resolveName
  simp only [hnames, hpacks]
  rfl

/-- Two declarations are compatible either way round. -/
theorem Compatible.symm {d d' : Declaration} (h : Compatible d d') : Compatible d' d where
  extends_ := h.extends_.symm
  fields name hname' hname := h.fields name hname hname'
  init := h.init.symm

/-- The pass over the declarations ends well in one order if it does in another. -/
theorem addDeclarations_reordered (h : file.resources.Perm ds) :
    (∃ out, addDeclarations (file.reordered ds) ds ∅ = .ok out)
      ↔ ∃ out, addDeclarations file file.resources ∅ = .ok out := by
  have hbuild := buildDeclaration_congr (resolveName_reordered h)
  have hpairs : CompatibleAll ds ↔ CompatibleAll file.resources :=
    h.symm.pairwise_iff fun hcompatible heq => (hcompatible heq.symm).symm
  rw [addDeclarations_isOk_iff merged_nil, addDeclarations_isOk_iff merged_nil, hpairs]
  simp only [hbuild, h.mem_iff, List.not_mem_nil, false_imp_iff, implies_true]

/-! ## §5. References and cycles in another order. -/

/-- Order does not matter to which kinds are only extended. -/
theorem onlyExtends_reordered (h : file.resources.Perm ds) :
    (file.reordered ds).OnlyExtends = file.OnlyExtends := by
  funext id
  exact propext (forall_congr' fun d => imp_congr_left h.symm.mem_iff)

/-- Order does not matter to which fields there are. -/
theorem hasField_reordered (h : file.resources.Perm ds) :
    (file.reordered ds).HasField = file.HasField := by
  funext id name
  exact propext (exists_congr fun d => and_congr_left' h.symm.mem_iff)

/-- Order does not matter to what a reference leads to. -/
theorem refersTo_reordered (h : file.resources.Perm ds) {fromPack : String → String → Prop}
    {id reference : String} :
    (file.reordered ds).RefersTo fromPack id reference ↔ file.RefersTo fromPack id reference := by
  rcases reference_cases reference with hdot | ⟨target, field, rfl, hdot⟩
  · rw [refersTo_own_iff hdot, refersTo_own_iff hdot, onlyExtends_reordered h,
      hasField_reordered h]
  · rw [refersTo_dotted_iff hdot, refersTo_dotted_iff hdot, declares_reordered h,
      onlyExtends_reordered h, hasField_reordered h]

/-- Order does not matter to what feeds what. -/
theorem feeds_reordered (h : file.resources.Perm ds) :
    (file.reordered ds).Feeds = file.Feeds := by
  have hcomputed (a : String) : (file.reordered ds).IsComputed a ↔ file.IsComputed a :=
    exists_congr fun d => and_congr_left' h.symm.mem_iff
  funext a b
  unfold Source.File.Feeds
  simp only [hcomputed]
  exact propext (exists_congr fun d => and_congr_left' h.symm.mem_iff)

/-- A schema is built when the pass over the declarations ends well, every
reference may be made, and no computed field feeds itself. -/
theorem schema_isOk_iff_passes :
    (∃ s, file.schema = .ok s) ↔ (∃ out, addDeclarations file file.resources ∅ = .ok out)
      ∧ (∀ d ∈ file.resources, ∀ f ∈ d.fields, ∀ reference ∈ f.decl.references,
          file.RefersTo file.FromPack d.id reference)
      ∧ ∀ node, ¬ TransGen file.Feeds node node := by
  constructor
  · intro h
    obtain ⟨s, hs⟩ := h
    obtain ⟨hpass, hreferences, hacyclic⟩ := parts_of_schema hs
    have hm := merged_of_pass hpass
    exact ⟨⟨_, hpass⟩, (checkReferences_isOk_iff hm).1 hreferences,
      (checkAcyclic_isOk_iff hm).1 hacyclic⟩
  · intro h
    obtain ⟨⟨resources, hpass⟩, hreferences, hacyclic⟩ := h
    have hm := merged_of_pass hpass
    exact ⟨⟨resources⟩, schema_eq_ok_iff.2 ⟨hpass, (checkReferences_isOk_iff hm).2 hreferences,
      (checkAcyclic_isOk_iff hm).2 hacyclic⟩⟩

/-- **A file is accepted in one order if it is in another.** -/
theorem accepted_reordered (h : file.resources.Perm ds) :
    (∃ s, (file.reordered ds).schema = .ok s) ↔ ∃ s, file.schema = .ok s := by
  have hpass : (∃ out, addDeclarations (file.reordered ds) (file.reordered ds).resources ∅ = .ok out)
      ↔ ∃ out, addDeclarations file file.resources ∅ = .ok out := addDeclarations_reordered h
  have hmem (d : Declaration) : d ∈ (file.reordered ds).resources ↔ d ∈ file.resources :=
    h.symm.mem_iff
  have hpacks : (file.reordered ds).FromPack = file.FromPack := rfl
  rw [schema_isOk_iff_passes, schema_isOk_iff_passes, hpass, feeds_reordered h]
  simp only [hmem, hpacks, refersTo_reordered h]

/-! ## §6. The schema in another order. -/

/-- Order does not matter to the parts of which a kind is built. -/
theorem builtFrom_reordered (h : file.resources.Perm ds) (id : String) :
    BuiltFrom (file.reordered ds) ds id = BuiltFrom file file.resources id := by
  have hbuild := buildDeclaration_congr (resolveName_reordered h)
  funext part
  unfold BuiltFrom
  simp only [hbuild, h.mem_iff]

/-- **The order of the declarations does not matter.**  A file is accepted in all
orders of its declarations or in none.  If it is, then a resource with a base
declaration is the same in all of them, in every part of it, unless two of its
declarations have defaults. -/
theorem schema_reordered (file : File) {ds : List Declaration} (h : file.resources.Perm ds) :
    ((∃ s, file.schema = .ok s) ↔ ∃ s, (file.reordered ds).schema = .ok s)
      ∧ ∀ s s', file.schema = .ok s → (file.reordered ds).schema = .ok s' → ∀ id,
          (∃ d ∈ file.resources, d.id = id ∧ d.isExtension = false) →
          ((declarationsOf file.resources id).filter fun d => d.defaults.getD "" ≠ "").length ≤ 1 →
          ∃ info, s.resource? id = some info ∧ s'.resource? id = some info := by
  refine ⟨(accepted_reordered h).symm, ?_⟩
  intro s s' hs hs' id hbase honce
  have ht := totalled_of_schema hs
  have ht' : Totalled (file.reordered ds) ds s'.resources := totalled_of_schema hs'
  obtain ⟨base, hmem, hid, hstands⟩ := hbase
  -- the resource is there in both
  obtain ⟨a, ha⟩ : ∃ a, s.resources.get? id = some a :=
    Option.ne_none_iff_exists'.1 fun hnone => ht.absent hnone base hmem hid
  obtain ⟨b, hb⟩ : ∃ b, s'.resources.get? id = some b :=
    Option.ne_none_iff_exists'.1 fun hnone => ht'.absent hnone base (h.mem_iff.1 hmem) hid
  obtain ⟨haid, haname, -, hatotals⟩ := ht.content ha
  obtain ⟨hbid, hbname, -, hbtotals⟩ := ht'.content hb
  rw [builtFrom_reordered h] at hbtotals
  have hsame : a = b := by
    refine hatotals.unique hbtotals (haid.trans hbid.symm) (haname.trans hbname.symm) ?_ ?_
    · have hbuilt := ((addDeclarations_isOk_iff merged_nil).1 ⟨_, (parts_of_schema hs).1⟩).1
      obtain ⟨part, hpart⟩ := hbuilt base hmem
      exact ⟨part, ⟨base, hmem, hid, hpart⟩, (head_buildDeclaration hpart).2.2.1.trans hstands⟩
    · rintro part part' ⟨d, hd, hdid, hpart⟩ ⟨d', hd', hdid', hpart'⟩ hne hne'
      rw [(head_buildDeclaration hpart).2.2.2] at hne ⊢
      rw [(head_buildDeclaration hpart').2.2.2] at hne' ⊢
      have hin : d ∈ (declarationsOf file.resources id).filter fun d => d.defaults.getD "" ≠ "" :=
        List.mem_filter.2 ⟨mem_declarationsOf.2 ⟨hd, hdid⟩, by simpa using hne⟩
      have hin' : d' ∈ (declarationsOf file.resources id).filter fun d => d.defaults.getD "" ≠ "" :=
        List.mem_filter.2 ⟨mem_declarationsOf.2 ⟨hd', hdid'⟩, by simpa using hne'⟩
      obtain rfl : d = d' := eq_of_length_le_one honce hin hin'
      rfl
  exact ⟨a, ha, hsame ▸ hb⟩

end Reordered

/-- A private resource with a constructor. -/
def fileDeclaration : Declaration where
  comments := ["A file."]
  isPrivate := true
  isExtension := false
  id := "file"
  defaults := none
  list := none
  body := [⟨[], .init [⟨"path", false, .named "string"⟩], ⟨2, 3⟩⟩,
    ⟨[], .field ⟨"path", none, some (.named "string")⟩, ⟨3, 3⟩⟩]
  pos := ⟨1, 9⟩

/-- An extension of it, with defaults and documentation of its own. -/
def sizeDeclaration : Declaration where
  comments := ["Sizes."]
  isPrivate := false
  isExtension := true
  id := "file"
  defaults := some "path size"
  list := none
  body := [⟨[], .field ⟨"size", some ["path"], some (.named "int")⟩, ⟨6, 3⟩⟩]
  pos := ⟨5, 8⟩

/-- The base stands first. -/
def sizedFile : File := ⟨[], ∅, [fileDeclaration, sizeDeclaration], ∅⟩

/-- The extension may stand first, too. -/
theorem schema_reordered_sized :
    ∃ s s' info, sizedFile.schema = .ok s
      ∧ (sizedFile.reordered [sizeDeclaration, fileDeclaration]).schema = .ok s'
      ∧ s.resource? "file" = some info ∧ s'.resource? "file" = some info := by
  have hswap : sizedFile.resources.Perm [sizeDeclaration, fileDeclaration] := .swap _ _ _
  have haccepted : ∃ s, sizedFile.schema = .ok s := by
    have hok : sizedFile.schema.isOk = true := by decide +kernel
    cases hs : sizedFile.schema with
    | error e =>
      rw [hs] at hok
      exact Bool.noConfusion hok
    | ok s => exact ⟨s, rfl⟩
  obtain ⟨hiff, hsame⟩ := schema_reordered sizedFile hswap
  obtain ⟨s, hs⟩ := haccepted
  obtain ⟨s', hs'⟩ := hiff.1 ⟨s, hs⟩
  have hbase : ∃ d ∈ sizedFile.resources, d.id = "file" ∧ d.isExtension = false :=
    ⟨fileDeclaration, List.mem_cons_self, rfl, rfl⟩
  obtain ⟨info, hinfo, hinfo'⟩ := hsame s s' hs hs' "file" hbase (by decide)
  exact ⟨s, s', info, hs, hs', hinfo, hinfo'⟩

end LazyFields
