/-
  LazyFields.Proofs.Json.RoundTrip
  ────────────────────────────────
  **WHAT IS WRITTEN IS READ BACK.**

  The tree of a value is what reading its pretty text gives: the same value,
  with each string as the units that spell it (`Json.tree`).  Numbers are left
  out: a value is PLAIN when there is none in it.

      plain j  →  Tree.read? j.pretty = some j.tree

  The claim is proved for a value anywhere in a text, at any level of
  indentation and with enough fuel; a value takes no more fuel than its text
  has characters.  One lemma reads a value, one the elements of an array and
  one the members of an object, and the three are proved together.
-/
import LazyFields.Json.Read

namespace LazyFields.Json

/-! ## §1. Strings. -/

/-- How a character of a string is spelled: a control character without a
short form is given by number. -/
def spell (c : Char) : StringUnit :=
  if c = '"' || c = '\\' || c = '\n' || c = '\r' || c = '\t' || c = '\x08' || c = '\x0c' then .char c
  else if c.toNat < 0x20 then .unit c.toNat
  else .char c

/-- The units of a string. -/
def units (s : String) : List StringUnit := s.toList.map spell

/-- Two hexadecimal digits are read back. -/
theorem hexUnit?_hexDigit : ∀ n < 32,
    hexUnit? '0' '0' (hexDigit (n / 16)) (hexDigit (n % 16)) = some n := by decide

/-- A short escape is read as its character. -/
theorem readUnits?_short {e c : Char} (h : shortEscape? e = some c) (cs : List Char) :
    readUnits? ('\\' :: e :: cs) = (readUnits? cs).map fun p => (.char c :: p.1, p.2) := by
  rw [readUnits?.eq_def]
  split
  · simp_all
  · simp_all
  · next heq =>
    cases heq
    simp [shortEscape?] at h
  · next heq =>
    cases heq
    rw [h]
    cases readUnits? cs <;> rfl
  · next hnot heq =>
    cases heq
    exact absurd rfl (hnot e cs rfl)

/-- One character is read as its unit, whatever follows. -/
theorem readUnits?_escapeChar (c : Char) (cs : List Char) :
    readUnits? (escapeChar c ++ cs) = (readUnits? cs).map fun p => (spell c :: p.1, p.2) := by
  -- seven characters have a short escape, and other control characters are written by their number
  unfold escapeChar
  split
  · next h => subst h; exact readUnits?_short rfl cs
  split
  · next h => subst h; exact readUnits?_short rfl cs
  split
  · next h => subst h; exact readUnits?_short rfl cs
  split
  · next h => subst h; exact readUnits?_short rfl cs
  split
  · next h => subst h; exact readUnits?_short rfl cs
  split
  · next h => subst h; exact readUnits?_short rfl cs
  split
  · next h => subst h; exact readUnits?_short rfl cs
  next hquote hslash hn hr ht hb hf =>
    split
    · next hcontrol =>
      have hspell : spell c = .unit c.toNat := by
        simp [spell, hquote, hslash, hn, hr, ht, hb, hf, hcontrol]
      have hunit := hexUnit?_hexDigit c.toNat hcontrol
      simp only [List.cons_append, List.nil_append, readUnits?, hunit, hspell]
      cases readUnits? cs <;> rfl
    · next hplain =>
      have hspell : spell c = .char c := by
        simp [spell, hplain]
      rw [List.singleton_append, readUnits?.eq_def]
      split
      · simp_all
      · simp_all
      · simp_all
      · simp_all
      · next heq =>
        cases heq
        simp only [hslash, decide_false, Bool.false_or, hplain, hspell]
        cases readUnits? cs <;> rfl

/-- **A string literal is read as the units of its string.** -/
theorem readUnits?_quote (s : String) (cs : List Char) :
    ∃ body, quote s = '"' :: body ∧ readUnits? (body ++ cs) = some (units s, cs) := by
  refine ⟨s.toList.flatMap escapeChar ++ ['"'], by simp [quote], ?_⟩
  rw [units]
  induction s.toList with
  | nil => rfl
  | cons c rest ih =>
    rw [List.flatMap_cons, List.append_assoc, List.append_assoc, readUnits?_escapeChar]
    rw [List.append_assoc] at ih
    rw [ih]
    rfl

/-- A character is spelled as itself, or by number if it is a control character. -/
theorem spell_cases (c : Char) :
    spell c = .char c ∨ (spell c = .unit c.toNat ∧ c.toNat < 0x20) := by
  unfold spell
  split
  · exact .inl rfl
  · split
    · next hcontrol => exact .inr ⟨rfl, hcontrol⟩
    · exact .inl rfl

/-- A unit below the surrogates is a character by itself. -/
theorem unitsToChars?_unit {n : Nat} (h : n < 0xD800) (us : List StringUnit) :
    unitsToChars? (.unit n :: us) = (unitsToChars? us).map (Char.ofNat n :: ·) := by
  have hlow : (0xD800 ≤ n) = False := eq_false (by omega)
  have hhigh : (0xDC00 ≤ n) = False := eq_false (by omega)
  match us with
  | [] => simp [unitsToChars?, hlow]
  | .char c :: us => simp [unitsToChars?, hlow]
  | .unit m :: us => simp [unitsToChars?, hlow, hhigh]

/-- The spelling of characters is read back. -/
theorem unitsToChars?_map_spell (cs : List Char) : unitsToChars? (cs.map spell) = some cs := by
  induction cs with
  | nil => rfl
  | cons c cs ih =>
    rw [List.map_cons]
    rcases spell_cases c with hspell | ⟨hspell, hcontrol⟩
    · rw [hspell, unitsToChars?, ih, Option.map_some]
    · rw [hspell, unitsToChars?_unit (by omega), ih, Option.map_some, Char.ofNat_toNat]

/-- The units of a string spell the string. -/
@[simp] theorem unitsText?_units (s : String) : unitsText? (units s) = some s := by
  simp [unitsText?, units, unitsToChars?_map_spell]

/-! ## §2. Values without numbers. -/

mutual

/-- No number occurs in the value. -/
def Plain : Json → Prop
  | int _ | float _ => False
  | array items => PlainItems items
  | object members => PlainMembers members
  | _ => True

/-- No number occurs in the elements. -/
def PlainItems : List Json → Prop
  | [] => True
  | v :: vs => v.Plain ∧ PlainItems vs

/-- No number occurs in the members. -/
def PlainMembers : List (String × Json) → Prop
  | [] => True
  | (_, v) :: ms => v.Plain ∧ PlainMembers ms

end

mutual

/-- The tree that the text of a plain value is read as. -/
def tree : Json → Tree
  | null | int _ | float _ => .null
  | bool b => .bool b
  | string s => .string (units s)
  | array items => .array (itemTrees items)
  | object members => .object (memberTrees members)

/-- The trees of elements. -/
def itemTrees : List Json → List Tree
  | [] => []
  | v :: vs => v.tree :: itemTrees vs

/-- The trees of members, each after the units of its key. -/
def memberTrees : List (String × Json) → List (List StringUnit × Tree)
  | [] => []
  | (k, v) :: ms => (units k, v.tree) :: memberTrees ms

end

/-- The trees of items, one by one. -/
theorem itemTrees_eq_map (vs : List Json) : itemTrees vs = vs.map tree := by
  induction vs with
  | nil => rw [itemTrees, List.map_nil]
  | cons v vs ih => rw [itemTrees, ih, List.map_cons]

/-- The trees of members, one by one. -/
theorem memberTrees_eq_map (ms : List (String × Json)) :
    memberTrees ms = ms.map fun m => (units m.1, m.2.tree) := by
  induction ms with
  | nil => rw [memberTrees, List.map_nil]
  | cons m ms ih => rw [memberTrees, ih, List.map_cons]

/-- Items are plain if each one is. -/
theorem plainItems_iff {vs : List Json} : PlainItems vs ↔ ∀ v ∈ vs, v.Plain := by
  induction vs with
  | nil => simp [PlainItems]
  | cons v vs ih => simp [PlainItems, ih]

/-- Members are plain if each value is. -/
theorem plainMembers_iff {ms : List (String × Json)} : PlainMembers ms ↔ ∀ m ∈ ms, m.2.Plain := by
  induction ms with
  | nil => simp [PlainMembers]
  | cons m ms ih => simp [PlainMembers, ih]

@[simp] theorem plain_bool (b : Bool) : (bool b).Plain := trivial

@[simp] theorem plain_string (s : String) : (string s).Plain := trivial

@[simp] theorem plain_array_iff {vs : List Json} : (array vs).Plain ↔ ∀ v ∈ vs, v.Plain :=
  plainItems_iff

@[simp] theorem plain_object_iff {ms : List (String × Json)} :
    (object ms).Plain ↔ ∀ m ∈ ms, m.2.Plain :=
  plainMembers_iff

/-! ## §3. Blanks. -/

/-- A blank is skipped. -/
theorem skipBlanks_cons {c : Char} (h : isBlank c = true) (cs : List Char) :
    skipBlanks (c :: cs) = skipBlanks cs := by
  simp [skipBlanks, h]

/-- Before anything else nothing is skipped. -/
theorem skipBlanks_of_not {c : Char} (h : isBlank c = false) (cs : List Char) :
    skipBlanks (c :: cs) = c :: cs := by
  simp [skipBlanks, h]

/-- The indentation of a line is skipped. -/
theorem skipBlanks_newline (level : Nat) (cs : List Char) :
    skipBlanks (newline level ++ cs) = skipBlanks cs := by
  rw [newline, List.cons_append, skipBlanks_cons (by decide)]
  induction 2 * level with
  | zero => rfl
  | succ n ih => rw [List.replicate_succ, List.cons_append, skipBlanks_cons (by decide), ih]

/-- Before a string nothing is skipped. -/
theorem skipBlanks_quote (s : String) (cs : List Char) :
    skipBlanks (quote s ++ cs) = quote s ++ cs := by
  rw [quote, List.cons_append, List.cons_append, skipBlanks_of_not (by decide)]

attribute [local simp] readTree? readItems? readMembers?

/-- Blanks before a value do not count. -/
theorem readTree?_congr {cs ds : List Char} (h : skipBlanks cs = skipBlanks ds) (fuel : Nat) :
    readTree? fuel cs = readTree? fuel ds := by
  cases fuel with
  | zero => rw [readTree?, readTree?]
  | succ fuel => rw [readTree?, readTree?, h]

/-- Where a value starts there is no blank and no bracket that closes. -/
theorem prettyChars_head {j : Json} (h : j.Plain) (level : Nat) :
    ∃ c cs, j.prettyChars level = c :: cs ∧ isBlank c = false ∧ c ≠ ']' := by
  match j, h with
  | null, _ => exact ⟨_, _, rfl, by decide, by decide⟩
  | bool true, _ => exact ⟨_, _, rfl, by decide, by decide⟩
  | bool false, _ => exact ⟨_, _, rfl, by decide, by decide⟩
  | string s, _ => exact ⟨_, _, rfl, by decide, by decide⟩
  | array [], _ => exact ⟨_, _, rfl, by decide, by decide⟩
  | array (_ :: _), _ => exact ⟨_, _, rfl, by decide, by decide⟩
  | object [], _ => exact ⟨_, _, rfl, by decide, by decide⟩
  | object (_ :: _), _ => exact ⟨_, _, rfl, by decide, by decide⟩

/-! ## §4. Parts of a text. -/

/-- A quoted string is read back. -/
theorem readTree?_string (s : String) (fuel : Nat) (rest : List Char) :
    readTree? (fuel + 1) (quote s ++ rest) = some (.string (units s), rest) := by
  obtain ⟨body, hquote, hread⟩ := readUnits?_quote s rest
  rw [hquote, List.cons_append, readTree?, skipBlanks_of_not (by decide)]
  simp [hread]

/-- An array that does not end at once has elements. -/
theorem readTree?_array {c : Char} {ds cs : List Char} (hhead : skipBlanks ds = c :: cs)
    (hend : c ≠ ']') (fuel : Nat) :
    readTree? (fuel + 1) ('[' :: ds) = (readItems? fuel ds).map fun p => (.array p.1, p.2) := by
  rw [readTree?, skipBlanks_of_not (by decide)]
  simp only [hhead]
  split
  · next heq => exact absurd (List.cons.inj heq).1 hend
  · cases readItems? fuel ds <;> rfl

/-- An object that does not end at once has members. -/
theorem readTree?_object {c : Char} {ds cs : List Char} (hhead : skipBlanks ds = c :: cs)
    (hend : c ≠ '\x7d') (fuel : Nat) :
    readTree? (fuel + 1) ('\x7b' :: ds)
      = (readMembers? fuel ds).map fun p => (.object p.1, p.2) := by
  rw [readTree?, skipBlanks_of_not (by decide)]
  simp only [hhead]
  split
  · next heq => exact absurd (List.cons.inj heq).1 hend
  · cases readMembers? fuel ds <;> rfl

section Parts

variable {fuel : Nat} {cs ds es rest rest' : List Char} {v : Tree} {key : String}

/-- The last item stands before the bracket. -/
theorem readItems?_last (hv : readTree? fuel cs = some (v, rest))
    (hend : skipBlanks rest = ']' :: rest') : readItems? (fuel + 1) cs = some ([v], rest') := by
  simp [hv, hend]

/-- Any other item stands before a comma. -/
theorem readItems?_more (hv : readTree? fuel cs = some (v, rest))
    (hcomma : skipBlanks rest = ',' :: ds) :
    readItems? (fuel + 1) cs = (readItems? fuel ds).map fun p => (v :: p.1, p.2) := by
  simp only [readItems?, hv, hcomma, Option.bind_eq_bind, Option.bind_some]
  cases readItems? fuel ds <;> rfl

/-- The last member stands before the brace. -/
theorem readMembers?_last (hkey : skipBlanks cs = quote key ++ ':' :: es)
    (hv : readTree? fuel es = some (v, rest)) (hend : skipBlanks rest = '\x7d' :: rest') :
    readMembers? (fuel + 1) cs = some ([(units key, v)], rest') := by
  obtain ⟨body, hquote, hread⟩ := readUnits?_quote key (':' :: es)
  rw [hquote, List.cons_append] at hkey
  simp [hkey, hread, skipBlanks_of_not, isBlank, hv, hend]

/-- Any other member stands before a comma. -/
theorem readMembers?_more (hkey : skipBlanks cs = quote key ++ ':' :: es)
    (hv : readTree? fuel es = some (v, rest)) (hcomma : skipBlanks rest = ',' :: ds) :
    readMembers? (fuel + 1) cs
      = (readMembers? fuel ds).map fun p => ((units key, v) :: p.1, p.2) := by
  obtain ⟨body, hquote, hread⟩ := readUnits?_quote key (':' :: es)
  rw [hquote, List.cons_append] at hkey
  have hcolon : skipBlanks (':' :: es) = ':' :: es := skipBlanks_of_not (by decide) es
  simp only [readMembers?, hkey, hread, hcolon, hv, hcomma, Option.bind_eq_bind, Option.bind_some]
  cases readMembers? fuel ds <;> rfl

end Parts

/-! ## §5. Reading what was written. -/

/-- What a list with items starts with is not the bracket that closes it. -/
theorem skipBlanks_prettyItems {v : Json} (h : v.Plain) (vs : List Json) (level : Nat)
    (rest : List Char) :
    ∃ c cs, skipBlanks (prettyItems level (v :: vs) ++ rest) = c :: cs ∧ c ≠ ']' := by
  obtain ⟨c, cs, hhead, hblank, hend⟩ := prettyChars_head h level
  cases vs with
  | nil =>
    refine ⟨c, cs ++ rest, ?_, hend⟩
    rw [prettyItems, List.append_assoc, skipBlanks_newline, hhead, List.cons_append,
      skipBlanks_of_not hblank]
  | cons w vs =>
    refine ⟨c, cs ++ (',' :: prettyItems level (w :: vs) ++ rest), ?_, hend⟩
    rw [prettyItems, List.append_assoc, List.append_assoc, skipBlanks_newline, hhead,
      List.cons_append, skipBlanks_of_not hblank]

/-- Members start with the key of the first. -/
theorem skipBlanks_prettyMembers (m : String × Json) (ms : List (String × Json)) (level : Nat)
    (rest : List Char) :
    ∃ cs, skipBlanks (prettyMembers level (m :: ms) ++ rest) = '"' :: cs := by
  obtain ⟨k, v⟩ := m
  cases ms with
  | nil =>
    rw [prettyMembers, List.append_assoc, List.append_assoc, skipBlanks_newline, quote,
      List.cons_append, List.cons_append, skipBlanks_of_not (by decide)]
    exact ⟨_, rfl⟩
  | cons m' ms =>
    rw [prettyMembers, List.append_assoc, List.append_assoc, List.append_assoc, skipBlanks_newline,
      quote, List.cons_append, List.cons_append, skipBlanks_of_not (by decide)]
    exact ⟨_, rfl⟩

mutual

/-- A plain value is read as its tree, and what follows it is left. -/
theorem readTree?_prettyChars : ∀ (j : Json) (level fuel : Nat) (rest : List Char), j.Plain →
    (j.prettyChars level).length ≤ fuel →
    readTree? fuel (j.prettyChars level ++ rest) = some (j.tree, rest)
  | j, level, 0, _, hplain, hfuel => by
    -- no text is empty, so some depth is left
    obtain ⟨c, cs, hhead, -⟩ := prettyChars_head hplain level
    simp [hhead] at hfuel
  | null, _, _ + 1, _, _, _ => by simp [prettyChars, skipBlanks, isBlank, readWord?, tree]
  | bool true, _, _ + 1, _, _, _ => by
    simp [prettyChars, skipBlanks, isBlank, readWord?, tree]
  | bool false, _, _ + 1, _, _, _ => by
    simp [prettyChars, skipBlanks, isBlank, readWord?, tree]
  | string s, level, fuel + 1, rest, _, _ => by
    rw [prettyChars, tree]
    exact readTree?_string s fuel rest
  | array [], _, _ + 1, _, _, _ => by
    simp [prettyChars, skipBlanks, isBlank, tree, itemTrees]
  | array (v :: vs), level, fuel + 1, rest, hplain, hfuel => by
    have htext : (array (v :: vs)).prettyChars level ++ rest
        = '[' :: (prettyItems (level + 1) (v :: vs) ++ (newline level ++ ']' :: rest)) := by
      simp [prettyChars]
    have hless : (prettyItems (level + 1) (v :: vs)).length ≤ fuel := by
      simp only [prettyChars, List.length_append, List.length_cons] at hfuel
      omega
    obtain ⟨c, cs, hhead, hend⟩ := skipBlanks_prettyItems hplain.1 vs (level + 1)
      (newline level ++ ']' :: rest)
    rw [htext, readTree?_array hhead hend,
      readItems?_prettyItems v vs (level + 1) level fuel rest hplain hless, Option.map_some, tree]
  | object [], _, _ + 1, _, _, _ => by
    simp [prettyChars, skipBlanks, isBlank, tree, memberTrees]
  | object (m :: ms), level, fuel + 1, rest, hplain, hfuel => by
    have htext : (object (m :: ms)).prettyChars level ++ rest
        = '\x7b' :: (prettyMembers (level + 1) (m :: ms) ++ (newline level ++ '\x7d' :: rest)) := by
      simp [prettyChars]
    have hless : (prettyMembers (level + 1) (m :: ms)).length ≤ fuel := by
      simp only [prettyChars, List.length_append, List.length_cons] at hfuel
      omega
    obtain ⟨cs, hhead⟩ := skipBlanks_prettyMembers m ms (level + 1) (newline level ++ '\x7d' :: rest)
    rw [htext, readTree?_object hhead (by decide),
      readMembers?_prettyMembers m ms (level + 1) level fuel rest hplain hless, Option.map_some,
      tree]
  termination_by j => sizeOf j

/-- The elements of an array are read up to its bracket. -/
theorem readItems?_prettyItems : ∀ (v : Json) (vs : List Json) (level outer fuel : Nat)
    (rest : List Char), PlainItems (v :: vs) → (prettyItems level (v :: vs)).length ≤ fuel →
    readItems? fuel (prettyItems level (v :: vs) ++ (newline outer ++ ']' :: rest))
      = some (itemTrees (v :: vs), rest)
  | v, [], level, outer, fuel, rest, hplain, hfuel => by
    rw [prettyItems, newline, List.length_append, List.length_cons] at hfuel
    obtain ⟨fuel, rfl⟩ : ∃ n, fuel = n + 1 := ⟨fuel - 1, by omega⟩
    have hv := readTree?_prettyChars v level fuel (newline outer ++ ']' :: rest) hplain.1 (by omega)
    have hend : skipBlanks (newline outer ++ ']' :: rest) = ']' :: rest := by
      rw [skipBlanks_newline, skipBlanks_of_not (by decide)]
    rw [prettyItems, List.append_assoc, itemTrees, itemTrees]
    exact readItems?_last ((readTree?_congr (skipBlanks_newline _ _) fuel).trans hv) hend
  | v, w :: vs, level, outer, fuel, rest, hplain, hfuel => by
    rw [prettyItems, newline, List.length_append, List.length_append, List.length_cons,
      List.length_cons] at hfuel
    obtain ⟨fuel, rfl⟩ : ∃ n, fuel = n + 1 := ⟨fuel - 1, by omega⟩
    have hv := readTree?_prettyChars v level fuel
      (',' :: (prettyItems level (w :: vs) ++ (newline outer ++ ']' :: rest))) hplain.1 (by omega)
    have hrest := readItems?_prettyItems w vs level outer fuel rest hplain.2 (by omega)
    rw [prettyItems, List.append_assoc, List.append_assoc, List.cons_append, itemTrees,
      readItems?_more ((readTree?_congr (skipBlanks_newline _ _) fuel).trans hv)
        (skipBlanks_of_not (by decide) _), hrest, Option.map_some]
  termination_by v vs => sizeOf v + sizeOf vs

/-- The members of an object are read up to its brace. -/
theorem readMembers?_prettyMembers : ∀ (m : String × Json) (ms : List (String × Json))
    (level outer fuel : Nat) (rest : List Char), PlainMembers (m :: ms) →
    (prettyMembers level (m :: ms)).length ≤ fuel →
    readMembers? fuel (prettyMembers level (m :: ms) ++ (newline outer ++ '\x7d' :: rest))
      = some (memberTrees (m :: ms), rest)
  | (k, v), [], level, outer, fuel, rest, hplain, hfuel => by
    -- the text of a member is longer than that of its value, so there is depth for the value
    rw [prettyMembers, newline, List.length_append, List.length_append, List.length_cons,
      List.length_cons, List.length_cons] at hfuel
    obtain ⟨fuel, rfl⟩ : ∃ n, fuel = n + 1 := ⟨fuel - 1, by omega⟩
    have hv := readTree?_prettyChars v level fuel (newline outer ++ '\x7d' :: rest) hplain.1
      (by omega)
    have hend : skipBlanks (newline outer ++ '\x7d' :: rest) = '\x7d' :: rest := by
      rw [skipBlanks_newline, skipBlanks_of_not (by decide)]
    have hkey : skipBlanks (prettyMembers level [(k, v)] ++ (newline outer ++ '\x7d' :: rest))
        = quote k ++ ':' :: (' ' :: (v.prettyChars level ++ (newline outer ++ '\x7d' :: rest))) := by
      rw [prettyMembers, List.append_assoc, List.append_assoc, skipBlanks_newline,
        skipBlanks_quote]
      rfl
    rw [memberTrees, memberTrees]
    exact readMembers?_last hkey
      ((readTree?_congr (skipBlanks_cons (by decide) _) fuel).trans hv) hend
  | (k, v), m' :: ms, level, outer, fuel, rest, hplain, hfuel => by
    rw [prettyMembers, newline, List.length_append, List.length_append, List.length_append,
      List.length_cons, List.length_cons, List.length_cons, List.length_cons] at hfuel
    obtain ⟨fuel, rfl⟩ : ∃ n, fuel = n + 1 := ⟨fuel - 1, by omega⟩
    have hv := readTree?_prettyChars v level fuel
      (',' :: (prettyMembers level (m' :: ms) ++ (newline outer ++ '\x7d' :: rest))) hplain.1
      (by omega)
    have hrest := readMembers?_prettyMembers m' ms level outer fuel rest hplain.2 (by omega)
    have hkey : skipBlanks (prettyMembers level ((k, v) :: m' :: ms)
          ++ (newline outer ++ '\x7d' :: rest))
        = quote k ++ ':' :: (' ' :: (v.prettyChars level
          ++ ',' :: (prettyMembers level (m' :: ms) ++ (newline outer ++ '\x7d' :: rest)))) := by
      rw [prettyMembers, List.append_assoc, List.append_assoc, List.append_assoc,
        skipBlanks_newline, skipBlanks_quote]
      simp
    rw [memberTrees, readMembers?_more hkey
      ((readTree?_congr (skipBlanks_cons (by decide) _) fuel).trans hv)
      (skipBlanks_of_not (by decide) _), hrest, Option.map_some]
  termination_by m ms => sizeOf m + sizeOf ms

end

/-- **The text of a plain value is read as its tree.** -/
theorem read?_pretty {j : Json} (h : j.Plain) : Tree.read? j.pretty = some j.tree := by
  have hread := readTree?_prettyChars j 0 ((j.prettyChars 0).length + 1) [] h (by omega)
  rw [List.append_nil] at hread
  simp only [Tree.read?, pretty, String.toList_ofList]
  rw [hread]
  rfl

end LazyFields.Json
