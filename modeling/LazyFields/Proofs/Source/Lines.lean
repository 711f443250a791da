/-
  LazyFields.Proofs.Source.Lines
  ────────────────────────────────
  **TOKENS AND LINES.**

  No token goes over the end of a line (`newline_not_mem_lexeme`), so inside of a
  token only the column moves (`after_of_line`).  And what stands on later lines
  does not change how a line is scanned (`scans_line`), nor does the place where
  the line stands (`Scans.moved`).
-/
import Mathlib.Data.List.TakeWhile
import LazyFields.Proofs.Source.Literals

namespace LazyFields.Source

open LazyFields.Text

/-! ## §1. Tokens stand on one line. -/

/-- Over characters without a line break, only the column moves. -/
theorem after_of_line {cs : List Char} (h : '\n' ∉ cs) (p : Position) :
    p.after cs = ⟨p.line, p.column + cs.length⟩ := by
  induction cs generalizing p with
  | nil => rfl
  | cons c cs ih =>
    have hc : c ≠ '\n' := fun heq => h (by simp [heq])
    have hcs : '\n' ∉ cs := fun hmem => h (List.mem_cons_of_mem c hmem)
    rw [Position.after_cons, Position.next, if_neg hc, ih hcs, List.length_cons, Nat.add_assoc,
      Nat.add_comm 1]

/-- A name has no line break in it. -/
theorem newline_not_mem_nameTail (cs : List Char) : '\n' ∉ (nameTail cs).1 := by
  intro hmem
  rcases isNameChar_of_mem_nameTail cs _ hmem with hchar | hdot
  · exact absurd hchar (by decide)
  · exact absurd hdot (by decide)

/-- A string literal has no line break in it. -/
theorem newline_not_mem_stringTail {cs value text rest : List Char}
    (h : stringTail cs = .ok (value, text, rest)) : '\n' ∉ text := by
  obtain ⟨body, rfl, hbody⟩ := unescapes_of_stringTail h
  simpa using newline_not_mem_of_unescapes hbody

/-- A comment has no line break in it. -/
theorem newline_not_mem_comment (cs : List Char) : '\n' ∉ (commentLexeme cs).text := by
  have hline : '\n' ∉ cs.takeWhile (· != '\n') := fun hmem => by
    simpa using List.mem_takeWhile_imp hmem
  simpa [commentLexeme] using hline

/-- **A token stands on one line.** -/
theorem newline_not_mem_lexeme {c : Char} {cs : List Char} {l : Lexeme}
    (h : lexeme c cs = .ok l) : '\n' ∉ l.text := by
  cases reads_of_lexeme h with
  | punctuation hkind =>
    have hc : c ≠ '\n' := by
      rintro rfl
      cases hkind
    simpa using Ne.symm hc
  | comment => exact newline_not_mem_comment _
  | string hquote htail => simpa [hquote] using newline_not_mem_stringTail htail
  | name hstart =>
    have hc : c ≠ '\n' := fun hline => absurd hstart (by rw [hline]; decide)
    simpa [Ne.symm hc] using newline_not_mem_nameTail cs

/-! ## §2. A text is scanned line by line. -/

/-- Both refuse, or the second answers what `f` makes of the answer of the first. -/
inductive Alike {α : Type} (f : α → α) : Except String α → Except String α → Prop
  | ok (a : α) : Alike f (.ok a) (.ok (f a))
  | error (m m' : String) : Alike f (.error m) (.error m')

/-- A name is not affected by the lines that follow. -/
theorem nameTail_line (cs rest : List Char) :
    nameTail (cs ++ '\n' :: rest) = ((nameTail cs).1, (nameTail cs).2 ++ '\n' :: rest) := by
  fun_induction nameTail cs with
  | case1 => simp [nameTail, isNameChar]
  | case2 d cs hd tail ds heq ih =>
    rw [heq] at ih
    show nameTail ('.' :: d :: (cs ++ '\n' :: rest)) = _
    rw [nameTail, if_pos hd]
    rw [List.cons_append] at ih
    rw [ih]
  | case3 d cs hd =>
    show nameTail ('.' :: d :: (cs ++ '\n' :: rest)) = _
    rw [nameTail, if_neg hd]
    rfl
  | case4 c cs hdot hc tail ds heq ih =>
    rw [heq] at ih
    have hne : c ≠ '.' := fun h => absurd hc (by rw [h]; decide)
    rw [List.cons_append, nameTail.eq_3 _ _ fun _ _ h _ => hne h, if_pos hc, ih]
  | case5 c cs hdot hc =>
    by_cases hne : c = '.'
    · -- a dot at the end of the line is no part of the name, as no segment follows it
      cases cs with
      | nil =>
        subst hne
        show nameTail ('.' :: '\n' :: rest) = _
        rw [nameTail, if_neg (by decide)]
        rfl
      | cons d ds => exact absurd rfl (hdot d ds hne)
    · rw [List.cons_append, nameTail.eq_3 _ _ fun _ _ h _ => hne h, if_neg hc]

/-- Whether a string is closed on its line is not affected by the lines that
follow. -/
theorem stringTail_line (cs rest : List Char) :
    Alike (fun r => (r.1, r.2.1, r.2.2 ++ '\n' :: rest)) (stringTail cs)
      (stringTail (cs ++ '\n' :: rest)) := by
  -- an escape takes two characters, so the induction is on the length
  induction hn : cs.length using Nat.strongRecOn generalizing cs with
  | ind n ih =>
    cases cs with
    | nil => exact .error _ _
    | cons c cs =>
      by_cases hslash : c = '\\'
      · subst hslash
        cases cs with
        | nil => exact .error _ _
        | cons e cs =>
          have hrec := ih cs.length (by simp only [List.length_cons] at hn; omega) cs rfl
          rw [List.cons_append, List.cons_append, stringTail, stringTail]
          generalize stringTail cs = r, stringTail (cs ++ '\n' :: rest) = r' at hrec
          cases unescape? e with
          | none => exact .error _ _
          | some v =>
            cases hrec with
            | ok r => exact .ok _
            | error m m' => exact .error _ _
      · have hrec := ih cs.length (by simp only [List.length_cons] at hn; omega) cs rfl
        rw [List.cons_append, stringTail_char hslash, stringTail_char hslash]
        generalize stringTail cs = r, stringTail (cs ++ '\n' :: rest) = r' at hrec
        split
        · exact .ok _
        · split
          · exact .error _ _
          · cases hrec with
            | ok r => exact .ok _
            | error m m' => exact .error _ _

/-- A comment is not affected by the lines that follow. -/
theorem commentLexeme_line (cs rest : List Char) : commentLexeme (cs ++ '\n' :: rest) =
    { commentLexeme cs with rest := (commentLexeme cs).rest ++ '\n' :: rest } := by
  have htake : (cs ++ '\n' :: rest).takeWhile (· != '\n') = cs.takeWhile (· != '\n') := by
    induction cs <;> simp_all [List.takeWhile_cons]
  have hdrop : (cs ++ '\n' :: rest).dropWhile (· != '\n') =
      cs.dropWhile (· != '\n') ++ '\n' :: rest := by
    clear htake
    induction cs with
    | nil => simp
    | cons c cs ih =>
      by_cases hc : c = '\n' <;> simp [hc, ih]
  simp only [commentLexeme, htake, hdrop]

/-- **What stands after a line feed does not change the token before it.** -/
theorem lexeme_line (c : Char) (cs rest : List Char) :
    Alike (fun l => { l with rest := l.rest ++ '\n' :: rest }) (lexeme c cs)
      (lexeme c (cs ++ '\n' :: rest)) := by
  unfold lexeme
  split
  · exact .ok _
  · split
    -- whether this is a comment depends on the character after it
    · cases cs with
      | nil => exact .error _ _
      | cons d ds =>
        by_cases hd : d = '/'
        · subst hd
          show Alike _ (.ok (commentLexeme ds)) (.ok (commentLexeme (ds ++ '\n' :: rest)))
          rw [commentLexeme_line]
          exact .ok _
        · rw [List.cons_append]
          split
          · next heq => exact absurd (List.cons.inj heq).1 hd
          · split
            · next heq => exact absurd (List.cons.inj heq).1 hd
            · exact .error _ _
    · split
      · have hrec := stringTail_line cs rest
        generalize stringTail cs = r, stringTail (cs ++ '\n' :: rest) = r' at hrec
        cases hrec with
        | ok r => exact .ok _
        | error m m' => exact .error _ _
      · rw [nameTail_line]
        split
        · exact .ok _
        · exact .error _ _

/-- The text that starts at `p` is scanned into the tokens, and an end mark. -/
def Scans (file : String) (p : Position) (cs : List Char) (ts : List Token) : Prop :=
  scanFrom file p cs = .ok (ts ++ [⟨.eof, "", p.after cs⟩])

variable {file : String} {p : Position} {c : Char} {cs : List Char} {ts : List Token}

/-- What is scanned at all ends in one end mark. -/
theorem scans_of_ok {us : List Token} (h : scanFrom file p cs = .ok us) :
    ∃ ts, Scans file p cs ts ∧ us = ts ++ [⟨.eof, "", p.after cs⟩] ∧ ∀ t ∈ ts, t.kind ≠ .eof := by
  obtain ⟨parts, gap, rest, hcut⟩ := scanFrom_cut file p cs
  have hhalts := hcut.halts
  cases rest with
  | nil => exact ⟨_, hhalts, Except.ok.inj (h.symm.trans hhalts), fun t ht => (hcut.inner t ht).1⟩
  | cons d ds =>
    obtain ⟨-, m, -, he⟩ := hhalts
    cases h.symm.trans he

/-- No token within a text is the end mark. -/
theorem Scans.inner (h : Scans file p cs ts) : ∀ t ∈ ts, t.kind ≠ .eof := by
  obtain ⟨us, -, heq, hus⟩ := scans_of_ok h
  obtain rfl := (List.append_inj' heq rfl).1
  exact hus

/-- A text is scanned in one way. -/
theorem Scans.unique {ts' : List Token} (h : Scans file p cs ts) (h' : Scans file p cs ts') :
    ts = ts' :=
  (List.append_inj' (Except.ok.inj (h.symm.trans h')) rfl).1

/-- No characters, no tokens. -/
theorem scans_nil : Scans file p [] ts ↔ ts = [] := by
  unfold Scans
  rw [scanFrom]
  constructor
  · intro h
    simpa using h
  · rintro rfl
    rfl

/-- A gap is scanned into no token. -/
theorem scans_gap (hc : isGap c = true) :
    Scans file p (c :: cs) ts ↔ Scans file (p.next c) cs ts := by
  unfold Scans
  rw [scanFrom_gap hc]
  rfl

/-- A text with a refused lexeme is not scanned. -/
theorem scans_refused (hc : isGap c = false) {m : String} (hm : lexeme c cs = .error m) :
    ¬ Scans file p (c :: cs) ts := by
  intro h
  cases h.symm.trans (scanFrom_refused hc hm)

/-- The place behind a text is the place behind its first lexeme and what follows
it. -/
theorem after_lexeme {l : Lexeme} (hl : lexeme c cs = .ok l) :
    p.after (c :: cs) = (p.after l.text).after l.rest := by
  rw [← Position.after_append, (lexeme_split hl).1]

/-- A text is scanned into the token of its first lexeme and those of what follows
it. -/
theorem scans_lexeme (hc : isGap c = false) {l : Lexeme} (hl : lexeme c cs = .ok l) :
    Scans file p (c :: cs) ts ↔ ∃ us, Scans file (p.after l.text) l.rest us ∧
      ts = ⟨l.kind, String.ofList l.text, p⟩ :: us := by
  constructor
  · intro h
    cases hrest : scanFrom file (p.after l.text) l.rest with
    | error e => cases h.symm.trans (scanFrom_later_refused hc hl hrest)
    | ok vs =>
      obtain ⟨us, hus, rfl, -⟩ := scans_of_ok hrest
      have hwhole := Except.ok.inj (h.symm.trans (scanFrom_lexeme hc hl hrest))
      rw [← List.cons_append] at hwhole
      exact ⟨us, hus, (List.append_inj' hwhole rfl).1⟩
  · rintro ⟨us, hus, rfl⟩
    unfold Scans
    rw [scanFrom_lexeme hc hl hus, after_lexeme hl]
    rfl

/-- **A text is scanned line by line.** -/
theorem scans_line (rest : List Char) : Scans file p (cs ++ '\n' :: rest) ts ↔
    ∃ us vs, Scans file p cs us ∧ Scans file ((p.after cs).next '\n') rest vs ∧ ts = us ++ vs := by
  induction hn : cs.length using Nat.strongRecOn generalizing p cs ts with
  | ind n ih =>
    cases cs with
    | nil =>
      rw [List.nil_append, scans_gap rfl]
      constructor
      · intro h
        exact ⟨[], ts, scans_nil.2 rfl, h, rfl⟩
      · rintro ⟨us, vs, hus, hvs, rfl⟩
        obtain rfl := scans_nil.1 hus
        exact hvs
    | cons c cs =>
      rw [List.cons_append]
      cases hc : isGap c with
      | true =>
        simp only [scans_gap hc]
        exact ih cs.length (by simp [← hn]) rfl
      | false =>
        -- no lexeme reaches over the end of a line
        have hone := lexeme_line c cs rest
        generalize hl : lexeme c cs = r, hl' : lexeme c (cs ++ '\n' :: rest) = r' at hone
        cases hone with
        | error m m' => simp [scans_refused hc hl, scans_refused hc hl']
        | ok l =>
          have hlt : l.rest.length < n := hn ▸ lexeme_rest_lt hl
          simp only [scans_lexeme hc hl, scans_lexeme hc hl', ih l.rest.length hlt rfl,
            after_lexeme hl]
          constructor
          · rintro ⟨ws, ⟨us, vs, hus, hvs, rfl⟩, rfl⟩
            exact ⟨_, vs, ⟨us, hus, rfl⟩, hvs, rfl⟩
          · rintro ⟨_, vs, ⟨us, hus, rfl⟩, hvs, rfl⟩
            exact ⟨_, ⟨us, vs, hus, hvs, rfl⟩, rfl⟩

/-- The same tokens, all of them on the given line. -/
def Moved (line : Nat) : List Token → List Token → Prop :=
  List.Forall₂ fun t t' => t'.kind = t.kind ∧ t'.pos.line = line

/-- **A line is scanned alike wherever it stands.** -/
theorem Scans.moved (h : Scans file p cs ts) (hline : '\n' ∉ cs) (q : Position) :
    ∃ ts', Scans file q cs ts' ∧ Moved q.line ts ts' := by
  induction hn : cs.length using Nat.strongRecOn generalizing p q cs ts with
  | ind n ih =>
    cases cs with
    | nil =>
      obtain rfl := scans_nil.1 h
      exact ⟨[], scans_nil.2 rfl, .nil⟩
    | cons c cs =>
      cases hc : isGap c with
      | true =>
        rw [scans_gap hc] at h
        rw [List.mem_cons, not_or] at hline
        obtain ⟨ts', hts', hmoved⟩ := ih cs.length (by simp [← hn]) h hline.2 (q.next c) rfl
        refine ⟨ts', (scans_gap hc).2 hts', ?_⟩
        rwa [Position.next, if_neg (Ne.symm hline.1)] at hmoved
      | false =>
        cases hl : lexeme c cs with
        | error m => exact absurd h (scans_refused hc hl)
        | ok l =>
          obtain ⟨us, hus, rfl⟩ := (scans_lexeme hc hl).1 h
          have hlt : l.rest.length < n := hn ▸ lexeme_rest_lt hl
          have hrest : '\n' ∉ l.rest := fun hmem =>
            hline ((lexeme_split hl).1 ▸ List.mem_append_right l.text hmem)
          obtain ⟨us', hus', hmoved⟩ := ih l.rest.length hlt hus hrest (q.after l.text) rfl
          -- the lexeme stands on one line, so the others are on the same
          rw [line_after (newline_not_mem_lexeme hl)] at hmoved
          exact ⟨_, (scans_lexeme hc hl).2 ⟨us', hus', rfl⟩, .cons ⟨rfl, rfl⟩ hmoved⟩

end LazyFields.Source
