/-
  LazyFields.Proofs.Bindings.Methods
  ────────────────────────────────
  **WHICH METHODS AND PARAMETERS CLASH.**

  A field has a method that reads it and, if it is computed, one of the provider; each
  of its references is a parameter of the latter.  Their names are made in three steps:
  a name loses its dollar sign, makes way with a suffix if it is reserved, and is
  written raw if it is a keyword.  References are folded to snake case as well.

    · `avoiding_not_mem`     — what is made is never reserved
    · `avoiding_eq_iff`      — which two names come out as one
    · `isMemberName_avoiding` — it is a word, if the name was one
    · `methods_told_apart`   — all of it, for the resources of a parsed file

  Nothing looks for two fields or references that come out as one, so these clash
  (`methods_clash`).
-/
import LazyFields.Proofs.Bindings.Clashes
import LazyFields.Proofs.Source.References

namespace LazyFields.Bindings

open LazyFields.Source LazyFields.Text

/-! ## §1. Words. -/

/-- Letters, digits and underscores, with no digit first and not just one underscore. -/
def IsWord (name : String) : Prop :=
  ∃ c cs, name.toList = c :: cs ∧ (c.isAlpha = true ∨ c = '_' ∧ cs ≠ [])
    ∧ ∀ d ∈ cs, d.isAlphanum = true ∨ d = '_'

/-- The keywords that cannot be written raw. -/
def pathKeywords : List String := ["self", "Self", "super", "crate"]

/-- What can be the name of a method or a parameter: a word that is no keyword, or one
that is written raw. -/
def IsMemberName (name : String) : Prop :=
  IsIdentifier name ∨ ∃ word, IsWord word ∧ word ∉ pathKeywords ∧ name = "r#" ++ word

/-- A word is an identifier unless it is a keyword. -/
theorem isIdentifier_of_isWord {name : String} (h : IsWord name) (hkeyword : name ∉ keywords)
    (hpath : name ∉ pathKeywords) : IsIdentifier name := by
  obtain ⟨c, cs, hname, hc, hcs⟩ := h
  exact ⟨c, cs, hname, hc, hcs, fun hmem => (List.mem_append.1 hmem).elim hkeyword hpath⟩

/-- Letters, digits and underscores, with no digit first. -/
structure HasWordChars (name : String) : Prop where
  all : ∀ c ∈ name.toList, isNameChar c = true
  first : ∃ c, name.toList.head? = some c ∧ c.isDigit = false

/-- Word characters make a word, but for the line alone. -/
theorem isWord_of_hasWordChars {name : String} (h : HasWordChars name) (hline : name ≠ "_") :
    IsWord name := by
  obtain ⟨c, hc, hdigit⟩ := h.first
  obtain ⟨cs, hname⟩ := List.head?_eq_some_iff.1 hc
  have hchar : ∀ d ∈ name.toList, d.isAlphanum = true ∨ d = '_' := by
    intro d hd
    simpa [isNameChar] using h.all d hd
  rw [hname] at hchar
  refine ⟨c, cs, hname, ?_, fun d hd => hchar d (List.mem_cons_of_mem c hd)⟩
  rcases hchar c List.mem_cons_self with halphanum | rfl
  · exact .inl (by simpa [Char.isAlphanum, hdigit] using halphanum)
  · refine .inr ⟨rfl, ?_⟩
    rintro rfl
    exact hline (String.toList_inj.1 hname)

/-! ## §2. Names that make way. -/

/-- The suffix frees all names that it is put behind, and the names that are no words
or cannot be written raw are among those. -/
structure Frees (taken : List String) (suffix : String) : Prop where
  free : ∀ name ∈ taken, name ++ suffix ∉ taken ∧ name ++ suffix ∉ keywords
  chars : ∀ c ∈ suffix.toList, isNameChar c = true
  unhashed : ∀ name ∈ taken, '#' ∉ name.toList
  reserved : ∀ name ∈ "_" :: pathKeywords, name ∈ taken

/-- The suffix `_field` frees reserved names. -/
theorem frees_reservedNames : Frees reservedNames "_field" where
  free := by decide +kernel
  chars := List.all_eq_true.1 (by decide)
  unhashed := by decide
  reserved := by decide

/-- The suffix `_dep` frees those and the names in scope. -/
theorem frees_scopeNames : Frees (reservedNames ++ scopeNames) "_dep" where
  free := by decide +kernel
  chars := List.all_eq_true.1 (by decide)
  unhashed := by decide
  reserved := by decide

/-- The first name is taken, and makes way to the second. -/
def MovesOnto (taken : List String) (suffix a b : String) : Prop := a ∈ taken ∧ b = a ++ suffix

/-- A name with the suffix if it is taken. -/
def movedAside (taken : List String) (suffix name : String) : String :=
  if name ∈ taken then name ++ suffix else name

/-- A name, raw if it is a keyword. -/
def asMember (name : String) : String := if name ∈ keywords then "r#" ++ name else name

section Avoiding

variable {taken : List String} {suffix a b name : String}

/-- A name that is taken gets the suffix. -/
theorem avoiding_of_mem (h : name ∈ taken) : avoiding taken suffix name = name ++ suffix :=
  if_pos (List.contains_iff_mem.2 h)

/-- Any other name is written as a member. -/
theorem avoiding_of_not_mem (h : name ∉ taken) : avoiding taken suffix name = asMember name := by
  rw [avoiding, if_neg (mt List.contains_iff_mem.1 h), asMember]
  simp only [List.contains_iff_mem]

/-- First names make way, then keywords are written raw. -/
theorem avoiding_eq (h : Frees taken suffix) (name : String) :
    avoiding taken suffix name = asMember (movedAside taken suffix name) := by
  unfold movedAside
  by_cases hname : name ∈ taken
  · rw [avoiding_of_mem hname, if_pos hname, asMember, if_neg (h.free name hname).2]
  · rw [avoiding_of_not_mem hname, if_neg hname]

/-- **What is made is never taken.** -/
theorem avoiding_not_mem (h : Frees taken suffix) (name : String) :
    avoiding taken suffix name ∉ taken := by
  by_cases hname : name ∈ taken
  · rw [avoiding_of_mem hname]
    exact (h.free name hname).1
  · rw [avoiding_of_not_mem hname, asMember]
    split
    · intro hraw
      exact h.unhashed _ hraw (by simp)
    · exact hname

/-- Writing names as members tells them apart, if they have no hash sign. -/
theorem asMember_inj (ha : '#' ∉ a.toList) (hb : '#' ∉ b.toList) :
    asMember a = asMember b ↔ a = b := by
  -- only what is written raw has a hash sign
  have hraw : ∀ {x y : String}, '#' ∉ y.toList → "r#" ++ x ≠ y := by
    rintro x _ hy rfl
    simp at hy
  refine ⟨fun h => ?_, fun h => h ▸ rfl⟩
  unfold asMember at h
  split_ifs at h
  · simpa [← String.toList_inj] using h
  · exact absurd h (hraw hb)
  · exact absurd h.symm (hraw ha)
  · exact h

/-- Two names are moved to one place if they are equal, or one is moved onto the
other. -/
theorem movedAside_eq_iff (h : Frees taken suffix) :
    movedAside taken suffix a = movedAside taken suffix b
      ↔ a = b ∨ MovesOnto taken suffix a b ∨ MovesOnto taken suffix b a := by
  unfold movedAside MovesOnto
  by_cases ha : a ∈ taken <;> by_cases hb : b ∈ taken
  · -- neither is what the other makes way to, since that is free
    have hab : b ≠ a ++ suffix := fun heq => (h.free a ha).1 (heq ▸ hb)
    have hba : a ≠ b ++ suffix := fun heq => (h.free b hb).1 (heq ▸ ha)
    simp [ha, hb, hab, hba, ← String.toList_inj]
  · have hne : a ≠ b := fun heq => hb (heq ▸ ha)
    simp [ha, hb, hne, eq_comm]
  · have hne : a ≠ b := fun heq => ha (heq ▸ hb)
    simp [ha, hb, hne]
  · simp [ha, hb]

/-- Moving brings in no hash sign. -/
theorem hash_not_mem_movedAside (h : Frees taken suffix) (hname : '#' ∉ name.toList) :
    '#' ∉ (movedAside taken suffix name).toList := by
  unfold movedAside
  split
  · rw [String.toList_append, List.mem_append, not_or]
    exact ⟨hname, fun hmem => absurd (h.chars '#' hmem) (by decide)⟩
  · exact hname

/-- **Which two names come out as one:** a reserved name and the one that it makes way
to. -/
theorem avoiding_eq_iff (h : Frees taken suffix) (ha : '#' ∉ a.toList) (hb : '#' ∉ b.toList) :
    avoiding taken suffix a = avoiding taken suffix b
      ↔ a = b ∨ MovesOnto taken suffix a b ∨ MovesOnto taken suffix b a := by
  rw [avoiding_eq h, avoiding_eq h,
    asMember_inj (hash_not_mem_movedAside h ha) (hash_not_mem_movedAside h hb),
    movedAside_eq_iff h]

/-- A suffix goes on with a word. -/
theorem hasWordChars_append (h : HasWordChars name)
    (hsuffix : ∀ c ∈ suffix.toList, isNameChar c = true) : HasWordChars (name ++ suffix) := by
  obtain ⟨c, hc, hdigit⟩ := h.first
  constructor
  · rw [String.toList_append]
    exact List.forall_mem_append.2 ⟨h.all, hsuffix⟩
  · refine ⟨c, ?_, hdigit⟩
    rw [String.toList_append, List.head?_append, hc, Option.some_or]

/-- What is not taken is no reserved word. -/
theorem isWord_of_not_mem (h : Frees taken suffix) (hfree : name ∉ taken)
    (hchars : HasWordChars name) : IsWord name ∧ name ∉ pathKeywords := by
  constructor
  · refine isWord_of_hasWordChars hchars ?_
    rintro rfl
    exact hfree (h.reserved _ List.mem_cons_self)
  · exact fun hpath => hfree (h.reserved name (List.mem_cons_of_mem _ hpath))

/-- **A word comes out as a name.** -/
theorem isMemberName_avoiding (h : Frees taken suffix) (hchars : HasWordChars name) :
    IsMemberName (avoiding taken suffix name) := by
  by_cases hname : name ∈ taken
  · obtain ⟨hfree, hkeyword⟩ := h.free name hname
    obtain ⟨hword, hpath⟩ := isWord_of_not_mem h hfree (hasWordChars_append hchars h.chars)
    rw [avoiding_of_mem hname]
    exact .inl (isIdentifier_of_isWord hword hkeyword hpath)
  · obtain ⟨hword, hpath⟩ := isWord_of_not_mem h hname hchars
    rw [avoiding_of_not_mem hname, asMember]
    split
    · exact .inr ⟨name, hword, hpath, rfl⟩
    · next hkeyword => exact .inl (isIdentifier_of_isWord hword hkeyword hpath)

end Avoiding

/-! ## §3. Names without their dollar sign. -/

/-- Behind its dollar sign, the name goes on, and with no digit. -/
def GoesOn (name : String) : Prop :=
  ∃ c, (withoutDollars name).toList.head? = some c ∧ c.isDigit = false

/-- The fields have methods of one name. -/
def SharesMethod (a b : String) : Prop :=
  withoutDollars a = withoutDollars b
    ∨ MovesOnto reservedNames "_field" (withoutDollars a) (withoutDollars b)
    ∨ MovesOnto reservedNames "_field" (withoutDollars b) (withoutDollars a)

/-- The references are parameters of one name. -/
def SharesParameter (a b : String) : Prop :=
  List.Forall₂ FoldsLike (withoutDollars a).toList (withoutDollars b).toList
    ∨ MovesOnto (reservedNames ++ scopeNames) "_dep" (snakeCase (withoutDollars a))
      (snakeCase (withoutDollars b))
    ∨ MovesOnto (reservedNames ++ scopeNames) "_dep" (snakeCase (withoutDollars b))
      (snakeCase (withoutDollars a))

section Spelled

variable {name a b : String}

/-- A dollar sign can only stand first. -/
theorem chars_withoutDollars (h : IsSpelled name) :
    ∀ c ∈ (withoutDollars name).toList, isNameChar c = true ∨ c = '.' := by
  obtain ⟨first, cs, hname, hfirst⟩ := h
  intro c hc
  rw [withoutDollars, String.toList_ofList, hname] at hc
  by_cases hdollar : first = '$'
  · rw [List.dropWhile_cons_of_pos (by simpa using hdollar)] at hc
    exact isNameChar_of_mem_nameTail cs c (List.dropWhile_subset _ hc)
  · rw [List.dropWhile_cons_of_neg (by simpa using hdollar)] at hc
    rcases List.mem_cons.1 hc with rfl | hc
    · refine .inl (by_contra fun hchar => hdollar ?_)
      exact eq_dollar_of_isNameStart hfirst (by simpa using hchar)
    · exact isNameChar_of_mem_nameTail cs c hc

/-- Names that are spelled have no hash sign. -/
theorem hash_not_mem_withoutDollars (h : IsSpelled name) : '#' ∉ (withoutDollars name).toList :=
  fun hmem => (chars_withoutDollars h '#' hmem).elim (by decide) (by decide)

/-- In lower case a name character stays one. -/
theorem isNameChar_toLower {c : Char} (h : isNameChar c = true) : isNameChar c.toLower = true := by
  by_cases hupper : c.isUpper = true
  · have hletter : c.toLower.isAlpha = true := by simp [Char.isAlpha, hupper]
    simp [isNameChar, Char.isAlphanum, hletter]
  · rwa [Char.toLower_eq_of_not_isUpper hupper]

/-- In lower case nothing becomes a digit. -/
theorem toLower_isDigit {c : Char} (h : c.isDigit = false) : c.toLower.isDigit = false := by
  by_cases hupper : c.isUpper = true
  · have hlower : c.toLower.isLower = true := by simp [Char.isAlpha, hupper]
    simp [Char.isLower, Char.isDigit, UInt32.le_iff_toNat_le] at hlower ⊢
    omega
  · rwa [Char.toLower_eq_of_not_isUpper hupper]

/-- In snake case, a name has no dots. -/
theorem chars_snakeCase (h : ∀ c ∈ name.toList, isNameChar c = true ∨ c = '.') :
    ∀ c ∈ (snakeCase name).toList, isNameChar c = true := by
  rw [snakeCase, String.toList_ofList, List.forall_mem_map]
  intro c hc
  split
  · decide
  · next hdot => exact isNameChar_toLower ((h c hc).resolve_right hdot)

/-- **No method has a reserved name.** -/
theorem accessorName_not_mem (name : String) : accessorName name ∉ reservedNames :=
  avoiding_not_mem frees_reservedNames _

/-- **No parameter has the name of a variable.** -/
theorem parameterName_not_mem (name : String) :
    parameterName name ∉ reservedNames ++ scopeNames := avoiding_not_mem frees_scopeNames _

/-- Which fields have accessors of one name. -/
theorem accessorName_eq_iff (ha : IsSpelled a) (hb : IsSpelled b) :
    accessorName a = accessorName b ↔ SharesMethod a b :=
  avoiding_eq_iff frees_reservedNames (hash_not_mem_withoutDollars ha)
    (hash_not_mem_withoutDollars hb)

/-- Which fields have accessors with a name at all. -/
theorem isMemberName_accessorName (h : IsSpelled name) (hdot : '.' ∉ name.toList)
    (hgoes : GoesOn name) : IsMemberName (accessorName name) := by
  refine isMemberName_avoiding frees_reservedNames ⟨fun c hc => ?_, hgoes⟩
  refine (chars_withoutDollars h c hc).resolve_right ?_
  rintro rfl
  rw [withoutDollars, String.toList_ofList] at hc
  exact hdot (List.dropWhile_subset _ hc)

/-- Folded names have no hash sign. -/
theorem hash_not_mem_folded (h : IsSpelled name) :
    '#' ∉ (snakeCase (withoutDollars name)).toList :=
  fun hmem => absurd (chars_snakeCase (chars_withoutDollars h) '#' hmem) (by decide)

/-- Which references are parameters of one name. -/
theorem parameterName_eq_iff (ha : IsSpelled a) (hb : IsSpelled b) :
    parameterName a = parameterName b ↔ SharesParameter a b := by
  rw [SharesParameter, ← snakeCase_eq_iff]
  exact avoiding_eq_iff frees_scopeNames (hash_not_mem_folded ha) (hash_not_mem_folded hb)

/-- Which references are parameters with a name at all. -/
theorem isMemberName_parameterName (h : IsSpelled name) (hgoes : GoesOn name) :
    IsMemberName (parameterName name) := by
  refine isMemberName_avoiding frees_scopeNames ⟨chars_snakeCase (chars_withoutDollars h), ?_⟩
  obtain ⟨c, hc, hdigit⟩ := hgoes
  rw [snakeCase, String.toList_ofList, List.head?_map, hc, Option.map_some]
  refine ⟨_, rfl, ?_⟩
  split
  · decide
  · exact toLower_isDigit hdigit

end Spelled

/-! ## §4. Methods of a resource. -/

/-- The line that opens an accessor. -/
def Accessor.opening (a : Accessor) : String :=
  "    pub fn " ++ a.method ++ "(&self) -> Result<" ++ a.type.text ++ "> \x7b"

/-- The parameters of a computed field, in the trait and in the closure. -/
structure Compute.ParametersNamed (c : Compute) : Prop where
  /-- No parameter hides a variable that is used in its scope. -/
  apart : ∀ p ∈ c.params, p.name ∉ ["resource", "provider", "deps"]
  identifier : ∀ p ∈ c.params, GoesOn p.reference → IsMemberName p.name
  shared : ∀ p ∈ c.params, ∀ q ∈ c.params,
    p.name = q.name ↔ SharesParameter p.reference q.reference

/-- The methods of a resource's fields, next to those that every resource has. -/
structure Resource.MethodsNamed (r : Resource) : Prop where
  /-- The wrapper has two methods of its own, and one for each field. -/
  written : beginning "    pub fn " r.wrapperLines
    = ["    pub fn id(&self) -> &str \x7b",
        "    pub fn resource(&self) -> &Arc<Resource> \x7b"] ++ r.accessors.map Accessor.opening
  accessors : (r.accessors.map Accessor.field).Nodup
  computes : (r.computes.map Compute.field).Nodup
  /-- The provider's methods are called like the accessors of their fields. -/
  computed : ∀ c ∈ r.computes, ∃ a ∈ r.accessors, c.field = a.field ∧ c.method = a.method
  apart : ∀ a ∈ r.accessors, a.method ∉ ["id", "init", "resource"]
  identifier : ∀ a ∈ r.accessors, '.' ∉ a.field.toList → GoesOn a.field → IsMemberName a.method
  shared : ∀ a ∈ r.accessors, ∀ b ∈ r.accessors,
    a.method = b.method ↔ SharesMethod a.field b.field
  parameters : ∀ c ∈ r.computes, c.ParametersNamed

/-- The methods of a wrapper are the two fixed ones and the accessors. -/
theorem beginning_wrapperLines_opening (r : Resource) : beginning "    pub fn " r.wrapperLines
    = ["    pub fn id(&self) -> &str \x7b",
        "    pub fn resource(&self) -> &Arc<Resource> \x7b"]
      ++ r.accessors.map Accessor.opening := by
  have hdocs : ∀ fallback, beginning "    pub fn " (commentLines r.docs fallback) = [] :=
    Resource.beginning_commentLines rfl (by decide) r.docs
  have haccessor : ∀ a : Accessor, beginning "    pub fn " a.lines = [a.opening] := by
    intro a
    unfold Accessor.lines Accessor.opening
    split <;> simp (disch := first
      | (refine begins_text rfl rfl ?_; decide)
      | (refine begins_start rfl rfl ?_ _; decide))
      only [beginning_append, beginning_cons_of, beginning_cons_of_not, beginning_nil,
        String.append_assoc] <;> rfl
  unfold Resource.wrapperLines
  simp (disch := first
      | (refine begins_text rfl rfl ?_; decide)
      | (refine begins_start rfl rfl ?_ _; decide))
    only [beginning_append, hdocs, beginning_flatMap _ haccessor, beginning_cons_of,
      beginning_cons_of_not, beginning_nil, String.append_assoc, List.nil_append,
      List.append_nil, List.cons_append]

section Resources

variable {file parsed : File} {s : Schema} {source name id : String} {r : Resource}

/-- The fields of a parsed file and their references are spelled as names. -/
theorem isSpelled_of_mem_fieldsOf (hparse : File.parse source name = .ok parsed)
    (hfile : file.resources = parsed.resources) {f : DeclaredField} (hf : f ∈ fieldsOf file id) :
    IsSpelled f.decl.name ∧ AllSpelled f.decl.references := by
  obtain ⟨d, hd, hf⟩ := mem_fieldsOf.1 hf
  have hmem : d ∈ parsed.resources := hfile ▸ (mem_declarationsOf.1 hd).1
  exact ⟨isSpelled_fields (named_of_parse hparse d hmem) f hf,
    isSpelled_references (refersByName_of_parse hparse d hmem) f hf⟩

/-- The parameters of a method are named as its references say. -/
theorem parametersNamed_computeOf (hparse : File.parse source name = .ok parsed)
    (hfile : file.resources = parsed.resources) {f : DeclaredField} (hf : f ∈ fieldsOf file id) :
    (computeOf file id f).ParametersNamed := by
  have hspelled : ∀ p ∈ (computeOf file id f).params, IsSpelled p.reference := by
    intro p hp
    obtain ⟨reference, hreference, rfl⟩ := List.mem_map.1 hp
    exact (isSpelled_of_mem_fieldsOf hparse hfile hf).2 reference hreference
  constructor
  · intro p _ hmem
    have htaken : ∀ name ∈ ["resource", "provider", "deps"],
        name ∈ reservedNames ++ scopeNames := by decide
    exact parameterName_not_mem p.reference (htaken _ hmem)
  · exact fun p hp => isMemberName_parameterName (hspelled p hp)
  · exact fun p hp q hq => parameterName_eq_iff (hspelled p hp) (hspelled q hq)

/-- The methods of a resource are named as its fields say. -/
theorem methodsNamed_resourceOf (hparse : File.parse source name = .ok parsed)
    (hfile : file.resources = parsed.resources) (h : file.schema = .ok s) (id : String) :
    (resourceOf file id).MethodsNamed := by
  have hspelled : ∀ a ∈ (resourceOf file id).accessors, IsSpelled a.field := by
    intro a ha
    obtain ⟨f, hf, rfl⟩ := List.mem_map.1 ha
    exact (isSpelled_of_mem_fieldsOf hparse hfile hf).1
  have hnodup := nodup_fieldsOf h id
  constructor
  case written => exact beginning_wrapperLines_opening _
  case accessors =>
    show (((fieldsOf file id).map (accessorOf file)).map Accessor.field).Nodup
    rwa [List.map_map]
  case computes =>
    show ((((fieldsOf file id).filter _).map (computeOf file id)).map Compute.field).Nodup
    rw [List.map_map]
    exact hnodup.sublist (List.filter_sublist.map _)
  case computed =>
    intro c hc
    obtain ⟨f, hf, rfl⟩ := List.mem_map.1 hc
    exact ⟨accessorOf file f, List.mem_map_of_mem (List.mem_of_mem_filter hf), rfl, rfl⟩
  case apart =>
    intro a _ hmem
    -- the names that every wrapper has are reserved
    have htaken : ∀ name ∈ ["id", "init", "resource"], name ∈ reservedNames := by decide
    exact accessorName_not_mem a.field (htaken _ hmem)
  case identifier => exact fun a ha => isMemberName_accessorName (hspelled a ha)
  case shared => exact fun a ha b hb => accessorName_eq_iff (hspelled a ha) (hspelled b hb)
  case parameters =>
    intro c hc
    obtain ⟨f, hf, rfl⟩ := List.mem_map.1 hc
    exact parametersNamed_computeOf hparse hfile (List.mem_of_mem_filter hf)

/-- **Which methods and parameters clash.**  The bindings of a file that was parsed end
with the lines of its resources.  Each field has a method, which is none of those that
every resource has, and each reference of it a parameter, which is no other variable in
its scope.  Two fields share their method, and two references their parameter, only if
their names come out as one. -/
theorem methods_told_apart (hparse : File.parse source name = .ok parsed)
    (hfile : file.resources = parsed.resources) (h : file.schema = .ok s) :
    (∀ options, ∃ before,
        text options file s = lines (before ++ (ofFile file).flatMap Resource.lines))
      ∧ (ofFile file).map Resource.id = s.resources.keys
      ∧ ∀ r ∈ ofFile file, r.Written ∧ r.MethodsNamed := by
  refine ⟨fun options => ⟨_, rfl⟩, ids_ofFile h, fun r hr => ⟨r.written, ?_⟩⟩
  obtain ⟨id, -, rfl⟩ := List.mem_map.1 hr
  exact methodsNamed_resourceOf hparse hfile h id

end Resources

/-- A file with names that make way, in fields and in references. -/
def avoidingSource : String :=
  "r \x7b\n  id string\n  deps string\n  $type string\n  f(id, deps, $type, x.Name) string\n\x7d\n"
    ++ "\nx \x7b\n  Name string\n\x7d\n"

/-- What is read from `avoidingSource`. -/
def avoidingFile : File := (File.parse avoidingSource "").toOption.getD .empty

/-- Its schema. -/
def avoidingSchema : Schema := avoidingFile.schema.toOption.getD ∅

/-- The fields of the example have names that are reserved, keywords and free. -/
theorem methods_told_apart_avoiding : File.parse avoidingSource "" = .ok avoidingFile
    ∧ avoidingFile.schema = .ok avoidingSchema
    ∧ (ofFile avoidingFile).map Resource.id = avoidingSchema.resources.keys
    ∧ (∀ r ∈ ofFile avoidingFile, r.Written ∧ r.MethodsNamed)
    ∧ (resourceOf avoidingFile "r").accessors.map Accessor.method
      = ["id_field", "deps", "r#type", "f"]
    ∧ (resourceOf avoidingFile "r").computes.map (fun c => c.params.map Param.name)
      = [["id_dep", "deps_dep", "r#type", "x_name"]] := by
  have hparse : File.parse avoidingSource "" = .ok avoidingFile := by decide +kernel
  have hschema : avoidingFile.schema = .ok avoidingSchema := by decide +kernel
  obtain ⟨-, hids, hnamed⟩ := methods_told_apart hparse rfl hschema
  exact ⟨hparse, hschema, hids, hnamed, by decide +kernel, by decide +kernel⟩

/-! ## §5. Clashes. -/

/-- No method has a dot in its name, if it has a name at all. -/
theorem dot_not_mem_of_isMemberName {name : String} (h : IsMemberName name) :
    '.' ∉ name.toList := by
  have hchar : ∀ d : Char, d.isAlpha = true ∨ d = '_' ∨ d.isAlphanum = true → d ≠ '.' := by
    rintro d hd rfl
    revert hd
    decide
  have hword : ∀ {word : String} {c cs}, word.toList = c :: cs →
      (c.isAlpha = true ∨ c = '_' ∧ cs ≠ []) → (∀ d ∈ cs, d.isAlphanum = true ∨ d = '_') →
      '.' ∉ word.toList := by
    intro word c cs hlist hc hcs hdot
    rw [hlist] at hdot
    rcases List.mem_cons.1 hdot with heq | hmem
    · exact hchar c (hc.imp_right fun hline => .inl hline.1) heq.symm
    · exact hchar '.' (.inr (hcs '.' hmem).symm) rfl
  rcases h with ⟨c, cs, hlist, hc, hcs, -⟩ | ⟨word, ⟨c, cs, hlist, hc, hcs⟩, -, rfl⟩
  · exact hword hlist hc hcs
  · rw [String.toList_append, List.mem_append, not_or]
    exact ⟨by decide, hword hlist hc hcs⟩

/-- A method's name starts with a letter or a line. -/
theorem first_of_isMemberName {name : String} (h : IsMemberName name) :
    ∃ c cs, name.toList = c :: cs ∧ (c.isAlpha = true ∨ c = '_') := by
  rcases h with ⟨c, cs, hlist, hc, -, -⟩ | ⟨word, -, -, rfl⟩
  · exact ⟨c, cs, hlist, hc.imp_right And.left⟩
  · exact ⟨'r', '#' :: word.toList, by simp, by decide⟩

/-- **Fields that differ in a dollar sign or a suffix clash,** and so do references that
fold together.  A method has no name if its field is dotted, a parameter none if a digit
is all there is behind the dollar sign. -/
theorem methods_clash :
    (¬ OfEveryFile fun rs => ∀ r ∈ rs, (r.accessors.map Accessor.method).Nodup)
      ∧ (¬ OfEveryFile fun rs => ∀ r ∈ rs, (r.computes.map Compute.method).Nodup)
      ∧ (¬ OfEveryFile fun rs => ∀ r ∈ rs, ∀ a ∈ r.accessors, IsMemberName a.method)
      ∧ (¬ OfEveryFile fun rs => ∀ r ∈ rs, ∀ c ∈ r.computes,
        (c.params.map Param.reference).Nodup → (c.params.map Param.name).Nodup)
      ∧ ¬ OfEveryFile fun rs => ∀ r ∈ rs, ∀ c ∈ r.computes, ∀ p ∈ c.params,
        IsMemberName p.name := by
  -- each property is broken by a file of its own
  refine ⟨?accessors, ?computes, ?methods, ?parameters, ?words⟩
  case accessors =>
    refine not_ofEveryFile [("a.lr", "r \x7b\n  $x string\n  x string\n\x7d")]
      (fun rs => rs.any fun r => r.accessors.map Accessor.method = ["x", "x"])
      (by decide +kernel) ?_
    intro rs hrs hall
    obtain ⟨r, hr, hmethods⟩ := List.any_eq_true.1 hrs
    have hnodup := hall r hr
    rw [of_decide_eq_true hmethods] at hnodup
    exact absurd hnodup (by decide)
  case computes =>
    refine not_ofEveryFile [("a.lr", "r \x7b\n  id() string\n  id_field() string\n\x7d")]
      (fun rs => rs.any fun r => r.computes.map Compute.method = ["id_field", "id_field"])
      (by decide +kernel) ?_
    intro rs hrs hall
    obtain ⟨r, hr, hmethods⟩ := List.any_eq_true.1 hrs
    have hnodup := hall r hr
    rw [of_decide_eq_true hmethods] at hnodup
    exact absurd hnodup (by decide)
  case methods =>
    refine not_ofEveryFile [("a.lr", "r \x7b\n  a.b string\n\x7d")]
      (fun rs => rs.any fun r => r.accessors.any fun a => a.method = "a.b") (by decide +kernel) ?_
    intro rs hrs hall
    obtain ⟨r, hr, hany⟩ := List.any_eq_true.1 hrs
    obtain ⟨a, ha, hmethod⟩ := List.any_eq_true.1 hany
    have hname := hall r hr a ha
    rw [of_decide_eq_true hmethod] at hname
    exact dot_not_mem_of_isMemberName hname (by decide)
  case parameters =>
    refine not_ofEveryFile
      [("a.lr", "r \x7b\n  A string\n  a string\n  f(A, a) string\n\x7d")]
      (fun rs => rs.any fun r => r.computes.any fun c =>
        c.params.map Param.reference = ["A", "a"] ∧ c.params.map Param.name = ["a", "a"])
      (by decide +kernel) ?_
    intro rs hrs hall
    obtain ⟨r, hr, hany⟩ := List.any_eq_true.1 hrs
    obtain ⟨c, hc, hparams⟩ := List.any_eq_true.1 hany
    obtain ⟨hreferences, hnames⟩ := of_decide_eq_true hparams
    have hnodup := hall r hr c hc
    rw [hreferences, hnames] at hnodup
    exact absurd (hnodup (by decide)) (by decide)
  case words =>
    refine not_ofEveryFile [("a.lr", "r \x7b\n  $1 string\n  f($1) string\n\x7d")]
      (fun rs => rs.any fun r => r.computes.any fun c => c.params.any fun p => p.name = "1")
      (by decide +kernel) ?_
    intro rs hrs hall
    obtain ⟨r, hr, hany⟩ := List.any_eq_true.1 hrs
    obtain ⟨c, hc, hany⟩ := List.any_eq_true.1 hany
    obtain ⟨p, hp, hparam⟩ := List.any_eq_true.1 hany
    obtain ⟨first, rest, hlist, hfirst⟩ := first_of_isMemberName (hall r hr c hc p hp)
    rw [of_decide_eq_true hparam] at hlist
    cases hlist
    exact absurd hfirst (by decide)

end LazyFields.Bindings
