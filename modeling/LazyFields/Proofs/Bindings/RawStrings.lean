/-
  LazyFields.Proofs.Bindings.RawStrings
  ────────────────────────────────
  **THE EMBEDDED SCHEMA IS READ BACK.**

  The schema stands in the bindings as a raw string: a text between two quotes, with
  as many hash signs before the first as behind the second.  Nothing in the text can
  end it, since a quote inside is followed by fewer hash signs.  But a raw string has
  255 of them at most, and a text may ask for more:

    · `delimiter_prefix_drop_iff` — the delimiter stands at the end and nowhere before
    · `rawTail_append`            — so the text is read up to it
    · `readRaw?_rawString`        — what a raw string is read as
    · `embedded_schema_read_iff`  — which schemas are read back from the bindings
-/
import LazyFields.Proofs.Bindings.Described
import LazyFields.Proofs.Json.Printed

namespace LazyFields.Bindings

/-! ## §1. Delimiters. -/

/-- What ends a raw string with `n` hash signs. -/
def delimiter (n : Nat) : List Char := '"' :: List.replicate n '#'

section Delimiters

variable {n i : Nat} {cs : List Char}

/-- A text starts with as many of a character as it has at the start, or with
fewer. -/
theorem replicate_prefix_iff {c : Char} :
    List.replicate n c <+: cs ↔ n ≤ (cs.takeWhile (· = c)).length := by
  induction n generalizing cs with
  | zero => simp
  | succ n ih =>
    cases cs with
    | nil => simp [List.replicate_succ]
    | cons d cs =>
      rw [List.replicate_succ, List.cons_prefix_cons, ih]
      by_cases hd : d = c
      · simp [hd]
      · simp [hd, Ne.symm hd]

theorem longestHashRun_lt_of_cons {c : Char} (h : longestHashRun (c :: cs) < n) :
    longestHashRun cs < n := by
  rw [longestHashRun] at h
  split at h <;> omega

/-- Hash signs are counted up to a quote. -/
theorem takeWhile_append_quote (cs ds : List Char) :
    (cs ++ '"' :: ds).takeWhile (· = '#') = cs.takeWhile (· = '#') := by
  induction cs with
  | nil => rfl
  | cons c cs ih => by_cases hc : c = '#' <;> simp [hc, ih]

/-- A quote inside is followed by no more hash signs than the longest run has. -/
theorem delimiter_not_within (h : longestHashRun cs < n) (hi : i < cs.length) (ds : List Char) :
    ¬ delimiter n <+: (cs ++ '"' :: ds).drop i := by
  induction cs generalizing i with
  | nil => simp at hi
  | cons c cs ih =>
    cases i with
    | zero =>
      rw [List.drop_zero, delimiter, List.cons_append, List.cons_prefix_cons,
        replicate_prefix_iff, takeWhile_append_quote]
      rintro ⟨rfl, hrun⟩
      rw [longestHashRun, if_pos rfl] at h
      omega
    | succ i => exact ih (longestHashRun_lt_of_cons h) (Nat.lt_of_succ_lt_succ hi)

/-- **The delimiter of a text stands behind it and nowhere before.** -/
theorem delimiter_prefix_drop_iff (s : String) (i : Nat) :
    delimiter (fenceLength s) <+: (s.toList ++ delimiter (fenceLength s)).drop i
      ↔ i = s.toList.length := by
  constructor
  · intro hbegins
    rcases Nat.lt_trichotomy i s.toList.length with hlt | rfl | hgt
    · exact absurd hbegins (delimiter_not_within (Nat.lt_succ_self _) hlt _)
    · rfl
    · -- too little is left there
      have hlength := hbegins.length_le
      simp only [delimiter, List.length_drop, List.length_append, List.length_cons,
        List.length_replicate] at hlength
      omega
  · rintro rfl
    rw [List.drop_left]

/-- The longest run has so many hash signs if a quote is followed by as many. -/
theorem le_longestHashRun_iff (hn : 0 < n) : n ≤ longestHashRun cs ↔ delimiter n <:+: cs := by
  induction cs with
  | nil => simp [longestHashRun, delimiter, Nat.ne_of_gt hn]
  | cons c cs ih =>
    rw [List.infix_cons_iff, ← ih, delimiter, List.cons_prefix_cons, replicate_prefix_iff,
      longestHashRun]
    by_cases hc : c = '"'
    · simp [hc]
    · simp [hc, Ne.symm hc]

end Delimiters

/-! ## §2. Reading a raw string. -/

/-- A carriage return before a line feed is not read. -/
def lineFeeds : List Char → List Char
  | [] => []
  | c :: cs => if c = '\r' ∧ cs.head? = some '\n' then lineFeeds cs else c :: lineFeeds cs

/-- The text up to the first delimiter, and what stands behind it. -/
def rawTail (n : Nat) : List Char → Option (List Char × List Char)
  | [] => none
  | c :: cs =>
      if delimiter n <+: c :: cs then some ([], cs.drop n)
      else (rawTail n cs).map fun p => (c :: p.1, p.2)

/-- The most hash signs that a raw string may have. -/
def maxHashes : Nat := 255

/-- Read a raw string, as Rust does: its text, and what stands behind it.  There is
none with too many hash signs, and none with a carriage return inside. -/
def readRaw? (source : List Char) : Option (List Char × List Char) :=
  match lineFeeds source with
  | 'r' :: cs =>
    let n := (cs.takeWhile (· = '#')).length
    if n ≤ maxHashes ∧ cs[n]? = some '"' then
      (rawTail n (cs.drop (n + 1))).filter fun p => !p.1.contains '\r'
    else none
  | _ => none

section Reading

variable {n : Nat} {cs : List Char}

/-- Line breaks are read as they are where no carriage return stands. -/
theorem lineFeeds_append (h : '\r' ∉ cs) (rest : List Char) :
    lineFeeds (cs ++ rest) = cs ++ lineFeeds rest := by
  induction cs with
  | nil => rfl
  | cons c cs ih =>
    simp only [List.mem_cons, not_or] at h
    rw [List.cons_append, lineFeeds, if_neg fun hboth => h.1 hboth.1.symm, ih h.2]
    rfl

/-- **A text is read up to its delimiter.** -/
theorem rawTail_append (h : longestHashRun cs < n) (rest : List Char) :
    rawTail n (cs ++ (delimiter n ++ rest)) = some (cs, rest) := by
  induction cs with
  | nil =>
    have hbegins : delimiter n <+: '"' :: (List.replicate n '#' ++ rest) :=
      List.prefix_append (delimiter n) rest
    have hlength : (List.replicate n '#').length = n := List.length_replicate
    show rawTail n ('"' :: (List.replicate n '#' ++ rest)) = _
    rw [rawTail, if_pos hbegins, List.drop_left' hlength]
  | cons c cs ih =>
    have hnot : ¬ delimiter n <+: c :: (cs ++ (delimiter n ++ rest)) :=
      delimiter_not_within h (Nat.succ_pos cs.length) (List.replicate n '#' ++ rest)
    rw [List.cons_append, rawTail, if_neg hnot, ih (longestHashRun_lt_of_cons h)]
    rfl

/-- A raw string is the text between delimiters of one length. -/
theorem toList_rawString (s : String) : (rawString s).toList
    = 'r' :: (List.replicate (fenceLength s) '#'
      ++ '"' :: (s.toList ++ delimiter (fenceLength s))) := by
  simp [rawString, delimiter]

/-- **What a raw string is read as:** its text, unless it has too many hash signs. -/
theorem readRaw?_rawString {s : String} (hs : '\r' ∉ s.toList) (rest : List Char) :
    readRaw? ((rawString s).toList ++ rest)
      = if fenceLength s ≤ maxHashes then some (s.toList, lineFeeds rest) else none := by
  have hreturn : '\r' ∉ (rawString s).toList := by
    simp [toList_rawString, delimiter, hs]
  -- what stands behind the letter: the hash signs, a quote, the text and its delimiter
  generalize hbody : List.replicate (fenceLength s) '#'
    ++ '"' :: (s.toList ++ (delimiter (fenceLength s) ++ lineFeeds rest)) = body
  have hsource : lineFeeds ((rawString s).toList ++ rest) = 'r' :: body := by
    rw [lineFeeds_append hreturn, toList_rawString, ← hbody]
    simp
  have hrun : (body.takeWhile (· = '#')).length = fenceLength s := by
    rw [← hbody, takeWhile_append_quote]
    simp
  have hquote : body[fenceLength s]? = some '"' := by
    rw [← hbody, List.getElem?_append_right (by simp)]
    simp
  have htail : rawTail (fenceLength s) (body.drop (fenceLength s + 1))
      = some (s.toList, lineFeeds rest) := by
    have hlonger : longestHashRun s.toList < fenceLength s := Nat.lt_succ_self _
    rw [← hbody, List.drop_append]
    simpa using rawTail_append hlonger (lineFeeds rest)
  have hkept : (some (s.toList, lineFeeds rest)).filter (fun p => !p.1.contains '\r')
      = some (s.toList, lineFeeds rest) := by
    simp [Option.filter, hs]
  unfold readRaw?
  simp only [hsource, hrun, hquote, htail, hkept, and_true]

end Reading

/-! ## §3. The schema in the bindings. -/

/-- What stands before the schema. -/
def schemaHead : String := "pub const SCHEMA_JSON: &str = "

section Embedded

open Source (File)

variable {options : Compilation.Options} {file : File} {c : Compilation}

theorem lines_append_cons (ls ms : List String) (l : String) :
    lines (ls ++ l :: ms) = lines ls ++ (l ++ ("\n" ++ lines ms)) := by
  simp [lines, String.append_assoc]

/-- Bindings that have the schema have it as a raw string. -/
theorem code_eq_of_embedSchema (h : Compilation.ofResolved options file = .ok c)
    (hembed : options.bindings.embedSchema = true) : ∃ before after : List Char,
    c.code.toList
      = before ++ schemaHead.toList ++ ((rawString c.schema.text).toList ++ ';' :: after) := by
  obtain ⟨-, hcode⟩ := parts_of_compilation h
  obtain ⟨before, after, hlines⟩ : ∃ before after : List String, c.code
      = lines (before ++ (schemaHead ++ rawString c.schema.text ++ ";") :: after) := by
    refine ⟨[options.bindings.header, ""] ++ importLines options.bindings file (ofFile file) ++ [""]
        ++ ["/// Schema of every resource in this file"],
      "" :: (providerLines (ofFile file) ++ (ofFile file).flatMap Resource.lines), ?_⟩
    rw [hcode, text, if_pos hembed, schemaLines]
    simp only [List.append_assoc, List.cons_append, List.nil_append]
    rfl
  refine ⟨(lines before).toList, '\n' :: (lines after).toList, ?_⟩
  rw [hlines, lines_append_cons]
  simp [List.append_assoc]

/-- The fence is short enough if and only if the text has no delimiter of the
longest length. -/
theorem fenceLength_le_iff {s : String} :
    fenceLength s ≤ maxHashes ↔ ¬ delimiter maxHashes <:+: s.toList := by
  rw [← le_longestHashRun_iff (by decide), Nat.not_le]
  exact Nat.succ_le_iff

/-- **Which schemas are read back from the bindings.**  The delimiter of a text stands
behind the text and nowhere before.  So the raw string in the bindings is read as the
text of the schema, whatever quotes and hash signs the documentation has, if no quote is
followed by as many hash signs as a raw string may have.  Otherwise it is not read. -/
theorem embedded_schema_read_iff (h : Compilation.ofResolved options file = .ok c)
    (hembed : options.bindings.embedSchema = true) :
    (∀ (s : String) (i : Nat), delimiter (fenceLength s)
        <+: (s.toList ++ delimiter (fenceLength s)).drop i ↔ i = s.toList.length)
      ∧ ∃ before after : List Char,
        c.code.toList
            = before ++ schemaHead.toList ++ ((rawString c.schema.text).toList ++ ';' :: after)
          ∧ (readRaw? ((rawString c.schema.text).toList ++ ';' :: after)
              = some (c.schema.text.toList, lineFeeds (';' :: after))
            ↔ ¬ delimiter maxHashes <:+: c.schema.text.toList)
          ∧ (delimiter maxHashes <:+: c.schema.text.toList →
            readRaw? ((rawString c.schema.text).toList ++ ';' :: after) = none) := by
  obtain ⟨before, after, hcode⟩ := code_eq_of_embedSchema h hembed
  refine ⟨delimiter_prefix_drop_iff, before, after, hcode, ?_⟩
  rw [readRaw?_rawString c.schema.return_not_mem_text, ← fenceLength_le_iff]
  constructor
  · split_ifs with hfew <;> simp [hfew]
  · intro hmany
    rw [if_neg (mt fenceLength_le_iff.1 (not_not_intro hmany))]

/-- The fence of a schema is one longer than the longest run in its text. -/
theorem fenceLength_text (s : Schema) :
    fenceLength s.text = longestHashRun (s.toJson.prettyChars 0) + 1 := by
  rw [fenceLength, Schema.text, Json.pretty, String.toList_ofList]

/-- A resource with a comment. -/
def commentedFile (comment : String) : File where
  imports := []
  options := ∅
  packs := ∅
  resources := [⟨[comment], false, false, "r", none, none, [], ⟨2, 1⟩⟩]

/-- Its schema. -/
def titledSchema (title : String) : Schema where
  resources := Table.ofList [("r",
    { id := "r", name := "r", title, desc := "", init := none, isPrivate := false,
      isExtension := false, defaults := "", fields := ∅, listType := none })]

theorem schema_commentedFile (comment : String) :
    (commentedFile comment).schema = .ok (titledSchema (Source.commentText comment)) := rfl

/-- What a compilation answers, for a file with a schema. -/
theorem compiled_of_schema {s : Schema} (options : Compilation.Options)
    (h : file.schema = .ok s) : Compilation.ofResolved options file
      = .ok ⟨file, s, text options.bindings file s, s.digest⟩ := by
  rw [Compilation.ofResolved, h]

theorem embedded_schema_read_quoted : ∃ c,
    Compilation.ofResolved .default (commentedFile "// \"#\" or \"##\"") = .ok c
      ∧ fenceLength c.schema.text = 3
      ∧ ∃ before after : List Char,
        c.code.toList
            = before ++ schemaHead.toList ++ ((rawString c.schema.text).toList ++ ';' :: after)
          ∧ readRaw? ((rawString c.schema.text).toList ++ ';' :: after)
            = some (c.schema.text.toList, lineFeeds (';' :: after)) := by
  have hcompiled := compiled_of_schema .default (schema_commentedFile "// \"#\" or \"##\"")
  obtain ⟨-, before, after, hcode, hread, -⟩ := embedded_schema_read_iff hcompiled rfl
  have hthree : fenceLength (titledSchema (Source.commentText "// \"#\" or \"##\"")).text = 3 := by
    rw [fenceLength_text]
    decide +kernel
  have hfew := fenceLength_le_iff.1 (hthree.trans_le (by decide : 3 ≤ maxHashes))
  exact ⟨_, hcompiled, hthree, before, after, hcode, hread.2 hfew⟩

/-- A comment of hash signs. -/
def hashComment (n : Nat) : String := "//" ++ String.ofList (List.replicate n '#')

theorem commentText_hashComment (n : Nat) :
    Source.commentText (hashComment n) = String.ofList (List.replicate n '#') := by
  have hstrip : Text.stripStart? ['/', '/'] (hashComment n).toList = some (List.replicate n '#') :=
    Text.stripStart?_eq_some_iff.2 (by simp [hashComment])
  have hkept : (List.replicate n '#').dropWhile Text.isDocBlank = List.replicate n '#' := by
    simp [Text.isDocBlank]
  simp only [Source.commentText, hstrip, Option.getD_some, Text.trim, Text.trimEnd, hkept,
    List.reverse_replicate]

theorem flatMap_escapeChar_hashes (n : Nat) :
    (List.replicate n '#').flatMap Json.escapeChar = List.replicate n '#' := by
  induction n with
  | zero => rfl
  | succ n ih =>
    rw [List.replicate_succ, List.flatMap_cons, ih]
    rfl

/-- The hash signs of the comment stand in the schema behind a quote. -/
theorem delimiter_infix_text {n : Nat} (hn : 0 < n) :
    delimiter n <:+: (titledSchema (Source.commentText (hashComment n))).text.toList := by
  have htitle : String.ofList (List.replicate n '#') ≠ "" := by
    intro hempty
    have hlist := congrArg String.toList hempty
    simp [Nat.ne_of_gt hn] at hlist
  have hquote : delimiter n <+: Json.quote (String.ofList (List.replicate n '#')) := by
    rw [Json.quote, String.toList_ofList, flatMap_escapeChar_hashes]
    exact List.prefix_append _ _
  have hfound : ∀ title, ((titledSchema title).resources.get? "r").map ResourceSpec.title
      = some title := fun _ => rfl
  obtain ⟨r, hr, heq⟩ := Option.map_eq_some_iff.1 (hfound (String.ofList (List.replicate n '#')))
  rw [commentText_hashComment]
  rw [← heq] at htitle hquote
  exact hquote.isInfix.trans (Schema.title_infix_text hr htitle)

/-- **A comment of 255 hash signs makes a raw string that is not read.** -/
theorem hashed_schema_not_read : ∃ c,
    Compilation.ofResolved .default (commentedFile (hashComment 255)) = .ok c
      ∧ (∃ before after : List Char, c.code.toList
        = before ++ schemaHead.toList ++ ((rawString c.schema.text).toList ++ ';' :: after))
      ∧ ∀ after, readRaw? ((rawString c.schema.text).toList ++ ';' :: after) = none := by
  have hcompiled := compiled_of_schema .default (schema_commentedFile (hashComment 255))
  have hmany : ¬ fenceLength (titledSchema (Source.commentText (hashComment 255))).text ≤ maxHashes :=
    mt fenceLength_le_iff.1 (not_not_intro (delimiter_infix_text (by decide)))
  refine ⟨_, hcompiled, code_eq_of_embedSchema hcompiled rfl, fun after => ?_⟩
  rw [readRaw?_rawString (Schema.return_not_mem_text _)]
  exact if_neg hmany

end Embedded

end LazyFields.Bindings
