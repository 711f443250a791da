/-
  LazyFields.Construction
  ────────────────────────────────
  **FROM ARGUMENTS TO THE FIRST CACHE.**

  An instance is constructed from arguments by name.  The argument `__id`
  forces its id.  Every other argument has to name a field and to fit its
  type, and every static field needs an argument; the values then stand in
  the cache of the instance before anything is computed.

  What is a regular expression is for the engine to say that the host brings
  (`PatternEngine`); nothing here depends on which one it is.
-/
import LazyFields.Cache
import LazyFields.Kind

namespace LazyFields

/-- An engine for regular expressions: why it does not compile a text, if it does not. -/
abbrev PatternEngine := String → Option String

/-- The argument that forces the id of an instance. -/
def idArgument : String := "__id"

namespace Kind

/-- The id that the arguments force, if they do, and the other arguments. -/
def takeId (k : Kind) (args : Args) : Except Error (Option String × Args) :=
  let rest := args.erase idArgument
  match args.get? idArgument with
  | none | some .null => .ok (none, rest)
  | some (.string id) => .ok (some id, rest)
  | some v => .error (.wrongArgumentType k.name idArgument "string" v.typeName)

/-- How a text is said not to be a regular expression. -/
def invalidPatternText (reason : String) : String := "invalid pattern (" ++ reason ++ ")"

/-- Check one argument: null fits every field, and a regular expression has to
compile. -/
def checkArgument (k : Kind) (engine : PatternEngine) (arg : String) (v : Value) :
    Except Error Unit :=
  match k.info.field? arg with
  | none => .error (.unknownArgument k.name arg)
  | some info =>
      if v.isNull then .ok ()
      else if !v.matchesType info.type then
        .error (.wrongArgumentType k.name arg info.type.text v.typeName)
      else match info.type, v with
        | .regex, .string pattern =>
            match engine pattern with
            | some reason =>
                .error (.wrongArgumentType k.name arg "regex" (invalidPatternText reason))
            | none => .ok ()
        | _, _ => .ok ()

/-- The first static field, by key, that has no value. -/
def missingField? (k : Kind) (cache : Cache) : Option String :=
  (k.info.statics.find? fun f => (cache.get? f.name).isNone).map FieldSpec.name

/-- The cache that the arguments fill; the first argument at fault, by name,
is the answer otherwise, and then the first static field without a value. -/
def cacheOf (k : Kind) (engine : PatternEngine) (now : Int) (args : Args) :
    Except Error Cache := do
  let cache ← args.entries.foldlM (fun (c : Cache) e => do
    k.checkArgument engine e.1 e.2
    .ok (c.store e.1 (Entry.ofValue e.2 now))) ∅
  match k.missingField? cache with
  | some field => .error (.missingField k.name field)
  | none => .ok cache

end Kind

end LazyFields
