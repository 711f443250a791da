/-
  LazyFields.Proofs.Bindings.Written
  ────────────────────────────────
  **THE LINES OF A RESOURCE IN THE BINDINGS.**

  The bindings are text.  Which lines of a resource belong to its fields can be told
  from the way they begin: those that read a field, those that declare a method of
  the provider, and those that open a closure or cast a dependency in it
  (`Resource.written`).
-/
import LazyFields.Bindings.Text

namespace LazyFields.Bindings

open LazyFields.Source

/-! ## §1. How lines begin. -/

/-- The text begins with `head`. -/
def begins (head l : String) : Bool := head.toList.isPrefixOf l.toList

/-- The lines that begin with `head`. -/
def beginning (head : String) (ls : List String) : List String := ls.filter (begins head)

section Lines

variable {head l : String} {ls : List String} {h cs : List Char} {b : Bool}

/-- Texts that are written out are compared character by character. -/
theorem begins_text (hhead : head = String.ofList h) (hl : l = String.ofList cs)
    (hb : h.isPrefixOf cs = b) : begins head l = b := by
  rw [begins, hhead, hl, String.toList_ofList, String.toList_ofList, hb]

/-- What follows does not matter, unless all that stands before it is a part of
`head`. -/
theorem begins_start (hhead : head = String.ofList h) (hl : l = String.ofList cs)
    (hb : h.isPrefixOf cs = b ∧ (b || !cs.isPrefixOf h) = true) (rest : String) :
    begins head (l ++ rest) = b := by
  obtain ⟨hb, hapart⟩ := hb
  rw [begins, hhead, hl, String.toList_append, String.toList_ofList, String.toList_ofList,
    ← hb, Bool.eq_iff_iff, List.isPrefixOf_iff_prefix, List.isPrefixOf_iff_prefix]
  constructor
  · intro hwhole
    rcases List.prefix_or_prefix_of_prefix hwhole (List.prefix_append cs _) with hfirst | hpart
    · exact hfirst
    · rw [List.isPrefixOf_iff_prefix.2 hpart, Bool.not_true, Bool.or_false] at hapart
      exact List.isPrefixOf_iff_prefix.1 (hb.trans hapart)
  · intro hfirst
    exact hfirst.trans (List.prefix_append _ _)

theorem beginning_nil (head : String) : beginning head [] = [] := rfl

theorem beginning_cons_of (h : begins head l = true) :
    beginning head (l :: ls) = l :: beginning head ls := List.filter_cons_of_pos h

theorem beginning_cons_of_not (h : begins head l = false) :
    beginning head (l :: ls) = beginning head ls := List.filter_cons_of_neg (by simp [h])

theorem beginning_append (head : String) (ls ms : List String) :
    beginning head (ls ++ ms) = beginning head ls ++ beginning head ms := List.filter_append ..

/-- Lines none of which begins so contribute none. -/
theorem beginning_map_eq_nil {α : Type} {f : α → String} (xs : List α)
    (h : ∀ x, begins head (f x) = false) : beginning head (xs.map f) = [] := by
  rw [beginning, List.filter_eq_nil_iff]
  intro l hl
  obtain ⟨x, -, rfl⟩ := List.mem_map.1 hl
  simp [h x]

/-- Lines all of which begin so stay as they are. -/
theorem beginning_map_eq_self {α : Type} {f : α → String} (xs : List α)
    (h : ∀ x, begins head (f x) = true) : beginning head (xs.map f) = xs.map f := by
  rw [beginning, List.filter_eq_self]
  intro l hl
  obtain ⟨x, -, rfl⟩ := List.mem_map.1 hl
  exact h x

/-- Blocks with one such line each contribute that line each. -/
theorem beginning_flatMap {α : Type} {f : α → List String} {g : α → String} (xs : List α)
    (h : ∀ x, beginning head (f x) = [g x]) : beginning head (xs.flatMap f) = xs.map g := by
  induction xs with
  | nil => rfl
  | cons x xs ih =>
    rw [List.flatMap_cons, beginning_append, ih, h]
    rfl

/-- Blocks without such a line contribute none. -/
theorem beginning_flatMap_eq_nil {α : Type} {f : α → List String} (xs : List α)
    (h : ∀ x, beginning head (f x) = []) : beginning head (xs.flatMap f) = [] := by
  rw [beginning, List.filter_flatMap, List.flatMap_eq_nil_iff]
  exact fun x _ => h x

end Lines

/-! ## §2. The lines of a resource. -/

/-- The line of an accessor that reads the field. -/
def Accessor.body (a : Accessor) : String :=
  "        self.0.get::<" ++ a.type.text ++ ">(\"" ++ a.field ++ "\")"

/-- The line of a provider's method. -/
def Compute.signature (wrapper : String) (c : Compute) : String :=
  "    fn " ++ c.method ++ "(&self, resource: &" ++ wrapper
    ++ String.join (c.params.map fun p => ", " ++ p.name ++ ": " ++ p.type.text)
    ++ ") -> Result<" ++ c.type.text ++ ">;"

/-- The line that opens the closure of a computed field. -/
def Compute.opening (c : Compute) : String :=
  "        kind.bind(\"" ++ c.field ++ "\", move |resource, "
    ++ (if c.params.isEmpty then "_deps" else "deps") ++ "| \x7b"

/-- The line that casts the next dependency. -/
def Param.castLine (p : Param) : String :=
  "            let " ++ p.name ++ ": " ++ p.type.text ++ " = resource.cast(\"" ++ p.reference
    ++ "\", &deps.next().unwrap_or(Value::Null))?;"

namespace Resource

/-- The lines of a resource that belong to its fields: a reading line for each
accessor, the provider's methods after the two that every provider has, and a
closure for each computed field, which casts one dependency after the other. -/
structure Written (r : Resource) : Prop where
  accessors : beginning "        self.0.get::<" r.wrapperLines = r.accessors.map Accessor.body
  methods : beginning "    fn " r.traitLines
    = ["    fn init(&self, _runtime: &Arc<Runtime>, args: Args) -> Result<InitOutcome> \x7b",
        "    fn id(&self, _resource: &" ++ r.wrapper ++ ") -> Result<String> \x7b"]
      ++ r.computes.map (Compute.signature r.wrapper)
  bindings : beginning "        kind.bind(" r.registerLines = r.computes.map Compute.opening
  closures : ∃ before after,
    r.registerLines = before ++ r.computes.flatMap (Compute.bindLines r.wrapper) ++ after
  casts : ∀ c ∈ r.computes, beginning "            let " (c.bindLines r.wrapper)
    = (if c.params.isEmpty then [] else ["            let mut deps = deps.into_iter();"])
      ++ c.params.map Param.castLine
      ++ ["            let value = <P as " ++ r.wrapper ++ "Provider>::" ++ c.method
        ++ "(&*provider, &" ++ r.wrapper ++ "(resource.clone())"
        ++ String.join (c.params.map fun p => ", " ++ p.name) ++ ")?;"]

/-- Comments begin with a slash. -/
theorem beginning_commentLines {head : String} {c : Char} {h : List Char}
    (hhead : head = String.ofList (c :: h)) (hc : c ≠ '/') (docs : Docs) (fallback : String) :
    beginning head (commentLines docs fallback) = [] := by
  have hcomment : ∀ text, begins head ("/// " ++ text) = false :=
    begins_start hhead rfl (by simp [List.isPrefixOf, hc, hc.symm])
  have hrule : begins head "///" = false := begins_text hhead rfl (by simp [List.isPrefixOf, hc])
  unfold commentLines
  split
  · rw [beginning_cons_of_not (hcomment _), beginning_nil]
  · split
    · rw [beginning_cons_of_not (hcomment _), beginning_nil]
    · rw [beginning_cons_of_not (hcomment _), beginning_cons_of_not hrule,
        beginning_cons_of_not (hcomment _), beginning_nil]

section Indented

/-! Whatever is written for a field is indented, so nothing of it begins with what
stands at the margin. -/

variable {head : String} {first : Char} {h : List Char}

/-- An accessor's lines are all indented, so a head at the margin passes them by. -/
theorem beginning_accessorLines_eq_nil (hhead : head = String.ofList (first :: h))
    (hfirst : first ≠ ' ') (a : Accessor) : beginning head a.lines = [] := by
  unfold Accessor.lines
  split <;> simp (disch := first
      | (refine begins_text hhead rfl ?_; simp [List.isPrefixOf, hfirst])
      | (refine begins_start hhead rfl ?_ _; simp [List.isPrefixOf, hfirst, hfirst.symm]))
    only [beginning_append, beginning_cons_of_not, beginning_nil, String.append_assoc] <;> rfl

/-- The lines of a trait's method are all indented. -/
theorem beginning_traitLines_eq_nil (hhead : head = String.ofList (first :: h))
    (hfirst : first ≠ ' ') (wrapper : String) (c : Compute) :
    beginning head (c.traitLines wrapper) = [] := by
  unfold Compute.traitLines
  simp (disch := first
      | (refine begins_text hhead rfl ?_; simp [List.isPrefixOf, hfirst])
      | (refine begins_start hhead rfl ?_ _; simp [List.isPrefixOf, hfirst, hfirst.symm]))
    only [beginning_cons_of_not, beginning_nil, String.append_assoc]

/-- The lines that bind a method are all indented. -/
theorem beginning_bindLines_eq_nil (hhead : head = String.ofList (first :: h))
    (hfirst : first ≠ ' ') (wrapper : String) (c : Compute) :
    beginning head (c.bindLines wrapper) = [] := by
  have hcasts : beginning head (c.params.map Param.castLine) = [] := by
    refine beginning_map_eq_nil c.params fun p => ?_
    unfold Param.castLine
    simp only [String.append_assoc]
    exact begins_start hhead rfl (by simp [List.isPrefixOf, hfirst, hfirst.symm]) _
  unfold Compute.bindLines
  show beginning _ (_ ++ _ ++ c.params.map Param.castLine ++ _) = _
  rw [beginning_append, beginning_append, beginning_append, hcasts]
  cases c.params.isEmpty <;> simp (disch := first
      | (refine begins_text hhead rfl ?_; simp [List.isPrefixOf, hfirst])
      | (refine begins_start hhead rfl ?_ _; simp [List.isPrefixOf, hfirst, hfirst.symm]))
    only [beginning_cons_of_not, beginning_nil, String.append_assoc, Bool.false_eq_true,
      ↓reduceIte] <;> rfl

/-- The lines that call the registering functions are all indented. -/
theorem beginning_registrations_eq_nil (hhead : head = String.ofList (first :: h))
    (hfirst : first ≠ ' ') (rs : List Resource) :
    beginning head (rs.map fun r =>
      "    register_" ++ snakeCase r.id ++ "(registry, provider.clone())?;") = [] := by
  refine beginning_map_eq_nil rs fun r => ?_
  simp only [String.append_assoc]
  exact begins_start hhead rfl (by simp [List.isPrefixOf, hfirst, hfirst.symm]) _

end Indented

/-- An accessor reads its field on one line. -/
theorem beginning_accessorLines (a : Accessor) :
    beginning "        self.0.get::<" a.lines = [a.body] := by
  unfold Accessor.lines Accessor.body
  split <;> simp (disch := first
      | (refine begins_text rfl rfl ?_; decide)
      | (refine begins_start rfl rfl ?_ _; decide))
    only [beginning_append, beginning_cons_of, beginning_cons_of_not, beginning_nil,
      String.append_assoc] <;> rfl

/-- A method of the trait is declared on one line. -/
theorem beginning_traitLines (wrapper : String) (c : Compute) :
    beginning "    fn " (c.traitLines wrapper) = [c.signature wrapper] := by
  unfold Compute.traitLines Compute.signature
  simp (disch := first
      | (refine begins_text rfl rfl ?_; decide)
      | (refine begins_start rfl rfl ?_ _; decide))
    only [beginning_cons_of, beginning_cons_of_not, beginning_nil, String.append_assoc]

/-- The casts of dependencies belong to the closure and do not open one. -/
theorem begins_castLine (p : Param) : begins "            let " p.castLine = true
    ∧ begins "        kind.bind(" p.castLine = false := by
  unfold Param.castLine
  simp only [String.append_assoc]
  exact ⟨begins_start rfl rfl (by decide) _, begins_start rfl rfl (by decide) _⟩

/-- A binding opens on one line. -/
theorem beginning_bindLines (wrapper : String) (c : Compute) :
    beginning "        kind.bind(" (c.bindLines wrapper) = [c.opening] := by
  have hcasts : beginning "        kind.bind(" (c.params.map Param.castLine) = [] :=
    beginning_map_eq_nil c.params fun p => (begins_castLine p).2
  unfold Compute.bindLines Compute.opening
  show beginning _ (_ ++ _ ++ c.params.map Param.castLine ++ _) = _
  rw [beginning_append, beginning_append, beginning_append, hcasts]
  cases c.params.isEmpty <;>
    simp (disch := first
      | (refine begins_text rfl rfl ?_; decide)
      | (refine begins_start rfl rfl ?_ _; decide))
      only [beginning_cons_of, beginning_cons_of_not, beginning_nil, String.append_assoc] <;> rfl

/-- The `let` lines of a binding: the iterator over the inputs where there are any,
one cast for each, in order, and the call of the method. -/
theorem beginning_closure (wrapper : String) (c : Compute) :
    beginning "            let " (c.bindLines wrapper)
      = (if c.params.isEmpty then [] else ["            let mut deps = deps.into_iter();"])
        ++ c.params.map Param.castLine
        ++ ["            let value = <P as " ++ wrapper ++ "Provider>::" ++ c.method
          ++ "(&*provider, &" ++ wrapper ++ "(resource.clone())"
          ++ String.join (c.params.map fun p => ", " ++ p.name) ++ ")?;"] := by
  have hcasts : beginning "            let " (c.params.map Param.castLine)
      = c.params.map Param.castLine :=
    beginning_map_eq_self c.params fun p => (begins_castLine p).1
  unfold Compute.bindLines
  show beginning _ (_ ++ _ ++ c.params.map Param.castLine ++ _) = _
  rw [beginning_append, beginning_append, beginning_append, hcasts]
  cases c.params.isEmpty <;>
    simp (disch := first
      | (refine begins_text rfl rfl ?_; decide)
      | (refine begins_start rfl rfl ?_ _; decide))
      only [beginning_cons_of, beginning_cons_of_not, beginning_nil, String.append_assoc] <;> rfl

/-- **Every resource is written with the lines of its fields, and no others.** -/
theorem written (r : Resource) : r.Written where
  accessors := by
    have hdocs : ∀ fallback, beginning "        self.0.get::<" (commentLines r.docs fallback) = [] :=
      beginning_commentLines rfl (by decide) r.docs
    unfold wrapperLines
    simp (disch := first
      | (refine begins_text rfl rfl ?_; decide)
      | (refine begins_start rfl rfl ?_ _; decide))
      only [beginning_append, hdocs, beginning_flatMap _ beginning_accessorLines,
        beginning_cons_of_not, beginning_nil, String.append_assoc, List.nil_append,
        List.append_nil]
  methods := by
    unfold traitLines
    simp (disch := first
      | (refine begins_text rfl rfl ?_; decide)
      | (refine begins_start rfl rfl ?_ _; decide))
      only [beginning_append, beginning_flatMap _ (beginning_traitLines r.wrapper),
        beginning_cons_of, beginning_cons_of_not, beginning_nil, String.append_assoc,
        List.append_nil]
  bindings := by
    unfold registerLines
    simp (disch := first
      | (refine begins_text rfl rfl ?_; decide)
      | (refine begins_start rfl rfl ?_ _; decide))
      only [beginning_append, beginning_flatMap _ (beginning_bindLines r.wrapper),
        beginning_cons_of_not, beginning_nil, String.append_assoc, List.nil_append,
        List.append_nil]
  closures := ⟨_, _, rfl⟩
  casts c _ := beginning_closure r.wrapper c

end Resource

end LazyFields.Bindings
