/-
  LazyFields.Disk
  ────────────────────────────────
  **FILES AND DIRECTORIES.**

  A disk says of every place whether a file or a directory lies there.  A
  place is the list of names that lead to it, the innermost first, so that the
  root is the empty list and `..` is the tail.

  A path is followed name by name, and each name before the last has to lead
  to a directory that is there: `d/../f` needs `d`.  What cannot be read or
  written is refused with the reason that a Unix system gives.  What could be
  written is read as it was written (`read_of_write`).
-/
import LazyFields.Text.Path

namespace LazyFields

open LazyFields.Text

/-- The names that lead to something, the innermost first. -/
abbrev Place := List String

/-- What lies at a place of a disk. -/
inductive Disk.Content where
  | file (text : String)
  | directory
  | missing
  deriving DecidableEq, Repr

/-- What lies at every place. -/
structure Disk where
  content : Place → Disk.Content

namespace Disk

/-- Why a path is refused. -/
inductive Refusal where
  | missing
  | notDirectory
  | isDirectory
  | nameTooLong
  | nulInName
  deriving DecidableEq, Repr

/-- How a refusal is said. -/
def Refusal.text : Refusal → String
  | missing => "No such file or directory (os error 2)"
  | notDirectory => "Not a directory (os error 20)"
  | isDirectory => "Is a directory (os error 21)"
  | nameTooLong => "File name too long (os error 36)"
  | nulInName => "file name contained an unexpected NUL byte"

/-! ## §1. Places. -/

/-- The disk that has nothing but its root. -/
def empty : Disk := ⟨fun place => if place = [] then .directory else .missing⟩

instance : EmptyCollection Disk := ⟨empty⟩

/-- The disk with something else at one place. -/
def put (d : Disk) (place : Place) (e : Content) : Disk :=
  ⟨fun p => if p = place then e else d.content p⟩

/-- What is put at a place lies there, and all else stays. -/
theorem content_put (d : Disk) (place p : Place) (e : Content) :
    (d.put place e).content p = if p = place then e else d.content p := rfl

/-! ## §2. Following paths. -/

/-- The most bytes of a name. -/
def maxNameBytes : Nat := 255

/-- The most bytes of a path. -/
def maxPathBytes : Nat := 4095

/-- The names in a path; empty ones mean nothing. -/
def namesOf (path : String) : List String :=
  ((segments '/' path.toList).map String.ofList).filter (· ≠ "")

/-- The place that a name leads to from a directory.  The root lies in
itself. -/
def step (here : Place) (name : String) : Except Refusal Place :=
  if name = "." then .ok here
  else if name = ".." then .ok here.tail
  else if name.utf8ByteSize > maxNameBytes then .error .nameTooLong
  else .ok (name :: here)

/-- Go to a directory that has to be there. -/
def enter (d : Disk) (here : Place) (name : String) : Except Refusal Place :=
  match step here name with
  | .error r => .error r
  | .ok there =>
    match d.content there with
    | .directory => .ok there
    | .file _ => .error .notDirectory
    | .missing => .error .missing

/-- Go from a directory through all names but the last, and say where the last
one leads. -/
def follow (d : Disk) : Place → List String → Except Refusal Place
  | here, [] => .ok here
  | here, [name] => step here name
  | here, name :: next :: names =>
      match d.enter here name with
      | .error r => .error r
      | .ok there => d.follow there (next :: names)

/-- The fault that a path has as a text, wherever it leads. -/
def illegal? (path : String) : Option Refusal :=
  if path.toList.contains '\x00' then some .nulInName
  else if path.utf8ByteSize > maxPathBytes then some .nameTooLong
  else none

/-- Where a path leads from the root. -/
def locate (d : Disk) (path : String) : Except Refusal Place :=
  match illegal? path with
  | some r => .error r
  | none => d.follow [] (namesOf path)

/-- A path that ends in a slash demands a directory. -/
def demandsDirectory (path : String) : Bool := path.toList.getLast? = some '/'

/-! ## §3. Reading and writing. -/

/-- The text of the file at a path. -/
def read (d : Disk) (path : String) : Except Refusal String :=
  match d.locate path with
  | .error r => .error r
  | .ok place =>
    match d.content place with
    | .file text => if demandsDirectory path then .error .notDirectory else .ok text
    | .directory => .error .isDirectory
    | .missing => .error .missing

/-- Write a file at a path whose directory is there; a file that is there is
replaced. -/
def write (d : Disk) (path text : String) : Except Refusal Disk :=
  match d.locate path with
  | .error r => .error r
  | .ok place =>
      if demandsDirectory path || d.content place = .directory then .error .isDirectory
      else .ok (d.put place (.file text))

/-- Make the directories that some names lead through, as far as nothing else
is in the way. -/
def makeDirectories (d : Disk) : Place → List String → Disk
  | _, [] => d
  | here, name :: names =>
      match step here name with
      | .error _ => d
      | .ok there =>
        match d.content there with
        | .directory => d.makeDirectories there names
        | .missing => (d.put there .directory).makeDirectories there names
        | .file _ => d

/-- Lay a file at a path and make the directories above it; where no file can
be, none is laid. -/
def lay (d : Disk) (path text : String) : Disk :=
  let above := Path.parent path
  let d := if (illegal? above).isSome then d else d.makeDirectories [] (namesOf above)
  match d.write path text with
  | .ok d => d
  | .error _ => d

/-! ## §4. What is written is read. -/

/-- A path that is open stays open when something else comes to a place that
is no directory. -/
theorem follow_put {d : Disk} {place : Place} (e : Content) (free : d.content place ≠ .directory)
    (here : Place) (names : List String) (p : Place) (h : d.follow here names = .ok p) :
    (d.put place e).follow here names = .ok p := by
  induction names generalizing here with
  | nil => exact h
  | cons name names ih =>
    cases names with
    | nil => exact h
    | cons next names =>
      rw [follow] at h ⊢
      split at h
      · cases h
      · next there entered =>
        have same : (d.put place e).enter here name = .ok there := by
          unfold enter at entered ⊢
          split at entered
          · cases entered
          · next q _ =>
            split at entered
            · next isDir =>
              have other : q ≠ place := fun eq => free (eq ▸ isDir)
              simp only [content_put, other, if_false, isDir]
              exact entered
            · cases entered
            · cases entered
        rw [same]
        exact ih there h

/-- What is written at a path is read there. -/
theorem read_of_write {d e : Disk} {path text : String} (h : d.write path text = .ok e) :
    e.read path = .ok text := by
  unfold write at h
  split at h
  · cases h
  · next place located =>
    split at h
    · cases h
    · next free =>
      cases h
      simp only [Bool.or_eq_true, not_or, Bool.not_eq_true, decide_eq_true_eq] at free
      have again : (d.put place (.file text)).locate path = .ok place := by
        unfold locate at located ⊢
        split at located
        · cases located
        · exact follow_put _ free.2 _ _ _ located
      unfold read
      simp [again, content_put, free.1]

end Disk

end LazyFields
