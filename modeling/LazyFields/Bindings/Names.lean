/-
  LazyFields.Bindings.Names
  ────────────────────────────────
  **NAMES IN GENERATED BINDINGS.**

  The bindings are Rust source.  A resource becomes a wrapper type in camel
  case, a field a method, a reference a parameter.  Names that Rust reserves
  are written raw; names that would clash with what the bindings themselves
  define get a suffix, or, for wrapper types, a prefix.
-/
import LazyFields.Text.Cut

namespace LazyFields.Bindings

open LazyFields.Text

/-! ## §1. Wrapper types. -/

/-- A word with its first letter in upper case. -/
def capitalized : List Char → List Char
  | [] => []
  | c :: cs => c.toUpper :: cs

/-- The pieces of a name between its dots and underscores. -/
def words (name : List Char) : List (List Char) :=
  (segments '.' name).flatMap (segments '_')

/-- `os.base` and `os_base` become `OsBase`. -/
def camelCase (name : String) : String :=
  String.ofList ((words name.toList).flatMap capitalized)

/-- The types that the bindings import, and the trait of all providers. -/
def reservedTypes : List String :=
  ["Args", "Arc", "BTreeMap", "DateTime", "FromValue", "InitOutcome", "Provider", "Registry",
   "Resource", "Result", "Runtime", "Utc", "Value"]

/-- The wrapper type of a resource. -/
def wrapperOf (id : String) : String :=
  let name := camelCase id
  if reservedTypes.contains name then "Lr" ++ name else name

/-! ## §2. Functions and parameters. -/

/-- `os.Base` becomes `os_base`. -/
def snakeCase (name : String) : String :=
  String.ofList (name.toList.map fun c => if c = '.' then '_' else c.toLower)

/-- The keywords of Rust that can be written raw. -/
def keywords : List String :=
  ["as", "async", "await", "break", "const", "continue", "dyn", "else", "enum", "extern",
   "false", "fn", "for", "if", "impl", "in", "let", "loop", "match", "mod", "move", "mut", "pub",
   "ref", "return", "static", "struct", "trait", "true", "type", "unsafe", "use", "where",
   "while", "abstract", "become", "box", "do", "final", "macro", "override", "priv", "try",
   "typeof", "unsized", "virtual", "yield"]

/-- Names that cannot be written raw, and the methods that every wrapper
has. -/
def reservedNames : List String :=
  ["self", "Self", "super", "crate", "id", "init", "resource", "_"]

/-- The variables in whose scope parameters stand. -/
def scopeNames : List String := ["provider", "deps"]

/-- A name without the dollar signs at its head. -/
def withoutDollars (name : String) : String :=
  String.ofList (name.toList.dropWhile (· = '$'))

/-- A name with a suffix if it is taken, raw if it is a keyword. -/
def avoiding (taken : List String) (suffix name : String) : String :=
  if taken.contains name then name ++ suffix
  else if keywords.contains name then "r#" ++ name
  else name

/-- The method of a field. -/
def accessorName (field : String) : String :=
  avoiding reservedNames "_field" (withoutDollars field)

/-- The parameter of a reference. -/
def parameterName (reference : String) : String :=
  avoiding (reservedNames ++ scopeNames) "_dep" (snakeCase (withoutDollars reference))

end LazyFields.Bindings
