/-
  LazyFields.Text.Cut
  ────────────────────────────────
  **CUTTING AND TRIMMING.**

  Names are dotted (`k8s.pod`), references end in a field (`os.base.name`),
  comments carry blanks at their ends.  The three cuts used for them work on
  lists of characters, each with the law that nothing is lost:

      cutFirst c s = some (a, b)  →  s = a ++ c :: b   and c is not in a
      cutLast  c s = some (a, b)  →  s = a ++ c :: b   and c is not in b
      segments c s                joined by c again is s
-/

namespace LazyFields.Text

/-! ## §1. Cutting at a character. -/

/-- The text before and after the first `c`. -/
def cutFirst (c : Char) : List Char → Option (List Char × List Char)
  | [] => none
  | x :: xs => if x = c then some ([], xs) else (cutFirst c xs).map fun p => (x :: p.1, p.2)

/-- The text before and after the last `c`. -/
def cutLast (c : Char) : List Char → Option (List Char × List Char)
  | [] => none
  | x :: xs =>
      match cutLast c xs with
      | some p => some (x :: p.1, p.2)
      | none => if x = c then some ([], xs) else none

/-- The pieces between the `c`s; a text without any is its only piece. -/
def segments (c : Char) : List Char → List (List Char)
  | [] => [[]]
  | x :: xs =>
      if x = c then [] :: segments c xs
      else match segments c xs with
        | [] => [[x]]
        | s :: ss => (x :: s) :: ss

/-- The pieces joined again, `c` between each two. -/
def joinWith (c : Char) : List (List Char) → List Char
  | [] => []
  | [s] => s
  | s :: ss => s ++ c :: joinWith c ss

attribute [local simp] cutFirst cutLast segments joinWith

/-- A text that is cut is joined again by the character, which is not in the first
part. -/
theorem eq_append_of_cutFirst {c : Char} {s a b : List Char} (h : cutFirst c s = some (a, b)) :
    s = a ++ c :: b ∧ c ∉ a := by
  induction s generalizing a b with
  | nil => simp at h
  | cons x xs ih =>
    rw [cutFirst] at h
    split at h
    · next hx => simp only [Option.some.injEq, Prod.mk.injEq] at h; simp [← h.1, ← h.2, hx]
    · next hx =>
      obtain ⟨⟨a', b'⟩, h', he⟩ := Option.map_eq_some_iff.1 h
      simp only [Prod.mk.injEq] at he
      obtain ⟨rfl, rfl⟩ := he
      obtain ⟨rfl, hc⟩ := ih h'
      exact ⟨rfl, by simp [hc, Ne.symm hx]⟩

/-- A text is cut where the character comes first. -/
theorem cutFirst_append {c : Char} {a b : List Char} (h : c ∉ a) :
    cutFirst c (a ++ c :: b) = some (a, b) := by
  induction a with
  | nil => simp
  | cons x xs ih =>
    simp only [List.mem_cons, not_or] at h
    simp [ih h.2, Ne.symm h.1]

/-- Without the character there is nothing to cut at. -/
theorem cutLast_eq_none_iff {c : Char} {s : List Char} : cutLast c s = none ↔ c ∉ s := by
  induction s with
  | nil => simp
  | cons x xs ih =>
    rw [cutLast]
    split
    · next h =>
      have : c ∈ xs := Decidable.byContradiction fun hc => by simp [ih.2 hc] at h
      simp [this]
    · next hn =>
      have hc : c ∉ xs := ih.1 hn
      split
      · next hx => simp [hx]
      · next hx => simp [hc, Ne.symm hx]

/-- A text that is cut is joined again by the character, which is not in the last
part. -/
theorem eq_append_of_cutLast {c : Char} {s a b : List Char} (h : cutLast c s = some (a, b)) :
    s = a ++ c :: b ∧ c ∉ b := by
  induction s generalizing a b with
  | nil => simp at h
  | cons x xs ih =>
    rw [cutLast] at h
    split at h
    · next p hp =>
      simp only [Option.some.injEq, Prod.mk.injEq] at h
      obtain ⟨rfl, rfl⟩ := h
      obtain ⟨hxs, hc⟩ := ih (show cutLast c xs = some (p.1, p.2) from hp)
      exact ⟨by rw [hxs]; rfl, hc⟩
    · next hn =>
      split at h
      · next hx =>
        simp only [Option.some.injEq, Prod.mk.injEq] at h
        obtain ⟨rfl, rfl⟩ := h
        exact ⟨by simp [hx], cutLast_eq_none_iff.1 hn⟩
      · simp at h

/-- A text is cut where the character comes last. -/
theorem cutLast_append {c : Char} {a b : List Char} (h : c ∉ b) :
    cutLast c (a ++ c :: b) = some (a, b) := by
  induction a with
  | nil => simp [cutLast_eq_none_iff.2 h]
  | cons x xs ih => simp [ih]

/-- There is one segment at least. -/
theorem segments_ne_nil (c : Char) (s : List Char) : segments c s ≠ [] := by
  cases s with
  | nil => simp
  | cons x xs => rw [segments]; split <;> (try split) <;> simp

/-- A separator at the start begins with an empty segment. -/
theorem segments_cons_self (c : Char) (s : List Char) : segments c (c :: s) = [] :: segments c s := by
  rw [segments, if_pos rfl]

/-- Any other character belongs to the first segment. -/
theorem segments_cons_of_ne {c x : Char} {s : List Char} {ss : List (List Char)} {xs : List Char}
    (hx : x ≠ c) (h : segments c xs = s :: ss) : segments c (x :: xs) = (x :: s) :: ss := by
  rw [segments, if_neg hx, h]

/-- Joined by the separator, the segments are the text. -/
theorem joinWith_segments (c : Char) (s : List Char) : joinWith c (segments c s) = s := by
  induction s with
  | nil => rfl
  | cons x xs ih =>
    rw [segments]
    split
    · next hx =>
      cases h : segments c xs with
      | nil => exact absurd h (segments_ne_nil c xs)
      | cons s ss => rw [h] at ih; simp [ih, hx]
    · next hx =>
      split
      · next h => exact absurd h (segments_ne_nil c xs)
      · next s ss h =>
        rw [h] at ih
        cases ss with
        | nil => simpa using ih
        | cons t ts => simpa using ih

/-- After a last `c` stands an empty piece. -/
theorem segments_append_singleton (c : Char) (s : List Char) :
    segments c (s ++ [c]) = segments c s ++ [[]] := by
  induction s with
  | nil => simp
  | cons x xs ih =>
    rw [List.cons_append, segments, segments, ih]
    split
    · rfl
    · cases hsegments : segments c xs with
      | nil => exact absurd hsegments (segments_ne_nil c xs)
      | cons s ss => rfl

/-- A character of joined texts is the separator or is in one of them. -/
theorem mem_joinWith {c d : Char} : ∀ {ss : List (List Char)}, d ∈ joinWith c ss →
    d = c ∨ ∃ s ∈ ss, d ∈ s
  | [], h => absurd h List.not_mem_nil
  | [s], h => .inr ⟨s, List.mem_cons_self, h⟩
  | s :: t :: ss, h => by
    rcases List.mem_append.1 h with h | h
    · exact .inr ⟨s, List.mem_cons_self, h⟩
    · rcases List.mem_cons.1 h with h | h
      · exact .inl h
      · rcases mem_joinWith h with h | h
        · exact .inl h
        · obtain ⟨s', hs', hd⟩ := h
          exact .inr ⟨s', List.mem_cons_of_mem _ hs', hd⟩

/-! ## §2. Trimming. -/

/-- Drop the characters of the class `p` at the end. -/
def trimEnd (p : Char → Bool) (s : List Char) : List Char :=
  (s.reverse.dropWhile p).reverse

/-- Drop the characters of the class `p` at both ends. -/
def trim (p : Char → Bool) (s : List Char) : List Char :=
  trimEnd p (s.dropWhile p)

/-- The rest of `s` after the given beginning, if it begins so. -/
def stripStart? : List Char → List Char → Option (List Char)
  | [], s => some s
  | _ :: _, [] => none
  | c :: cs, x :: xs => if c = x then stripStart? cs xs else none

/-- What is stripped stands at the start. -/
theorem stripStart?_eq_some_iff {p s r : List Char} : stripStart? p s = some r ↔ s = p ++ r := by
  induction p generalizing s with
  | nil => simp [stripStart?, eq_comm]
  | cons c cs ih =>
    cases s with
    | nil => simp [stripStart?]
    | cons x xs =>
      rw [stripStart?]
      split
      · next h => subst h; simp [ih]
      · next h => simp [Ne.symm h]

/-! ## §3. The same on strings. -/

/-- The text before and after the first `c`. -/
def splitFirst? (c : Char) (s : String) : Option (String × String) :=
  (cutFirst c s.toList).map fun p => (String.ofList p.1, String.ofList p.2)

/-- The text before and after the last `c`. -/
def splitLast? (c : Char) (s : String) : Option (String × String) :=
  (cutLast c s.toList).map fun p => (String.ofList p.1, String.ofList p.2)

/-- A string is split at the first such character. -/
theorem splitFirst?_eq_some_iff {c : Char} {s a b : String} :
    splitFirst? c s = some (a, b) ↔ s = a ++ String.singleton c ++ b ∧ c ∉ a.toList := by
  constructor
  · intro h
    obtain ⟨⟨x, y⟩, hcut, heq⟩ := Option.map_eq_some_iff.1 h
    obtain ⟨rfl, rfl⟩ := Prod.mk.inj heq
    obtain ⟨hs, hc⟩ := eq_append_of_cutFirst hcut
    exact ⟨String.toList_inj.1 (by simp [hs]), by simpa using hc⟩
  · rintro ⟨rfl, hc⟩
    simp [splitFirst?, cutFirst_append hc]

/-- A string is split at the last such character. -/
theorem splitLast?_eq_some_iff {c : Char} {s a b : String} :
    splitLast? c s = some (a, b) ↔ s = a ++ String.singleton c ++ b ∧ c ∉ b.toList := by
  constructor
  · intro h
    obtain ⟨⟨x, y⟩, hcut, heq⟩ := Option.map_eq_some_iff.1 h
    obtain ⟨rfl, rfl⟩ := Prod.mk.inj heq
    obtain ⟨hs, hc⟩ := eq_append_of_cutLast hcut
    exact ⟨String.toList_inj.1 (by simp [hs]), by simpa using hc⟩
  · rintro ⟨rfl, hc⟩
    simp [splitLast?, cutLast_append hc]

/-- Without the character a string is not split. -/
theorem splitLast?_eq_none_iff {c : Char} {s : String} : splitLast? c s = none ↔ c ∉ s.toList := by
  simp [splitLast?, cutLast_eq_none_iff]

end LazyFields.Text
