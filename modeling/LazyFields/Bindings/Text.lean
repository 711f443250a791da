/-
  LazyFields.Bindings.Text
  ────────────────────────────────
  **THE TEXT OF THE BINDINGS.**

  Imports, the schema as a raw string, the trait of all providers and the
  function that binds them, and then for each resource its wrapper, its
  provider trait and its registration.

  A raw string is delimited by one hash sign more than the longest run of
  them after a quote inside it, so no quote inside can end it.
-/
import LazyFields.Bindings.Items
import LazyFields.Schema.Json

namespace LazyFields.Bindings

open LazyFields.Source

/-! ## §1. Raw strings. -/

/-- The longest run of hash signs after a quote. -/
def longestHashRun : List Char → Nat
  | [] => 0
  | c :: cs =>
      if c = '"' then max (cs.takeWhile (· = '#')).length (longestHashRun cs)
      else longestHashRun cs

/-- The number of hash signs that delimit a text as a raw string. -/
def fenceLength (s : String) : Nat := longestHashRun s.toList + 1

/-- A text as a raw string literal. -/
def rawString (s : String) : String :=
  let hashes := String.ofList (List.replicate (fenceLength s) '#')
  "r" ++ hashes ++ "\"" ++ s ++ "\"" ++ hashes

/-! ## §2. Items of a resource. -/

/-- Lines, each with its line feed. -/
def lines (ls : List String) : String := String.join (ls.map fun l => l ++ "\n")

/-- The doc comment of a wrapper. -/
def commentLines (docs : Docs) (fallback : String) : List String :=
  if docs.title = "" then ["/// " ++ fallback]
  else if docs.desc = "" then ["/// " ++ docs.title]
  else ["/// " ++ docs.title, "///", "/// " ++ docs.desc]

/-- The accessor of a field, in the wrapper's implementation. -/
def Accessor.lines (a : Accessor) : List String :=
  [""] ++ (if a.title = "" then [] else ["    /// " ++ a.title]) ++
    ["    pub fn " ++ a.method ++ "(&self) -> Result<" ++ a.type.text ++ "> \x7b",
     "        self.0.get::<" ++ a.type.text ++ ">(\"" ++ a.field ++ "\")",
     "    \x7d"]

/-- The wrapper and its conversions from and to values. -/
def Resource.wrapperLines (r : Resource) : List String :=
  let w := r.wrapper
  [""] ++ commentLines r.docs ("`" ++ r.id ++ "` resource") ++
  ["#[derive(Debug, Clone)]",
   "pub struct " ++ w ++ "(pub Arc<Resource>);",
   "",
   "impl " ++ w ++ " \x7b",
   "    /// Resource ID",
   "    pub const NAME: &'static str = \"" ++ r.id ++ "\";",
   "",
   "    /// Instance id",
   "    pub fn id(&self) -> &str \x7b",
   "        self.0.id()",
   "    \x7d",
   "",
   "    /// Underlying instance",
   "    pub fn resource(&self) -> &Arc<Resource> \x7b",
   "        &self.0",
   "    \x7d"] ++
  r.accessors.flatMap Accessor.lines ++
  ["\x7d",
   "",
   "impl FromValue for " ++ w ++ " \x7b",
   "    const TYPE_NAME: &'static str = \"" ++ r.id ++ "\";",
   "",
   "    fn from_value(value: &Value) -> Option<Self> \x7b",
   "        match value \x7b",
   "            Value::Resource(r) if r.name() == Self::NAME => Some(" ++ w ++ "(r.clone())),",
   "            _ => None,",
   "        \x7d",
   "    \x7d",
   "\x7d",
   "",
   "impl From<" ++ w ++ "> for Value \x7b",
   "    fn from(r: " ++ w ++ ") -> Self \x7b",
   "        Value::Resource(r.0)",
   "    \x7d",
   "\x7d"]

/-- The method of a computed field, in the provider trait. -/
def Compute.traitLines (wrapper : String) (c : Compute) : List String :=
  let params := c.params.map fun p => ", " ++ p.name ++ ": " ++ p.type.text
  ["",
   "    fn " ++ c.method ++ "(&self, resource: &" ++ wrapper ++ String.join params
     ++ ") -> Result<" ++ c.type.text ++ ">;"]

/-- The provider trait. -/
def Resource.traitLines (r : Resource) : List String :=
  let w := r.wrapper
  ["",
   "/// Logic of the `" ++ r.id ++ "` resource",
   "pub trait " ++ w ++ "Provider \x7b",
   "    /// Rewrite constructor arguments or return an existing instance",
   "    fn init(&self, _runtime: &Arc<Runtime>, args: Args) -> Result<InitOutcome> \x7b",
   "        Ok(InitOutcome::Continue(args))",
   "    \x7d",
   "",
   "    /// Id of a new instance; the empty id makes it a shared instance",
   "    fn id(&self, _resource: &" ++ w ++ ") -> Result<String> \x7b",
   "        Ok(String::new())",
   "    \x7d"] ++
  r.computes.flatMap (Compute.traitLines w) ++
  ["\x7d"]

/-- The binding of a computed field, in the registration.  The dependencies
arrive in the order of the references and are cast one by one. -/
def Compute.bindLines (wrapper : String) (c : Compute) : List String :=
  let deps := if c.params.isEmpty then "_deps" else "deps"
  ["    \x7b",
   "        let provider = provider.clone();",
   "        kind.bind(\"" ++ c.field ++ "\", move |resource, " ++ deps ++ "| \x7b"] ++
  (if c.params.isEmpty then [] else ["            let mut deps = deps.into_iter();"]) ++
  (c.params.map fun p =>
    "            let " ++ p.name ++ ": " ++ p.type.text ++ " = resource.cast(\"" ++ p.reference
      ++ "\", &deps.next().unwrap_or(Value::Null))?;") ++
  ["            let value = <P as " ++ wrapper ++ "Provider>::" ++ c.method
     ++ "(&*provider, &" ++ wrapper ++ "(resource.clone())"
     ++ String.join (c.params.map fun p => ", " ++ p.name) ++ ")?;",
   "            Ok(Value::from(value))",
   "        \x7d)?;",
   "    \x7d"]

/-- The function that binds a provider. -/
def Resource.registerLines (r : Resource) : List String :=
  let w := r.wrapper
  ["",
   "/// Bind the `" ++ r.id ++ "` provider into `registry`",
   "pub fn register_" ++ snakeCase r.id ++ "<P: " ++ w ++ "Provider + Send + Sync + 'static>(",
   "    registry: &mut Registry,",
   "    provider: Arc<P>,",
   ") -> Result<()> \x7b",
   "    let kind = registry.kind_mut(" ++ w ++ "::NAME)?;",
   "    \x7b",
   "        let provider = provider.clone();",
   "        kind.set_init(move |runtime, args| <P as " ++ w
     ++ "Provider>::init(&*provider, runtime, args));",
   "    \x7d",
   "    \x7b",
   "        let provider = provider.clone();",
   "        kind.set_id(move |resource| <P as " ++ w ++ "Provider>::id(&*provider, &" ++ w
     ++ "(resource.clone())));",
   "    \x7d"] ++
  r.computes.flatMap (Compute.bindLines w) ++
  ["    Ok(())",
   "\x7d"]

/-- All items of a resource. -/
def Resource.lines (r : Resource) : List String :=
  r.wrapperLines ++ r.traitLines ++ r.registerLines

/-! ## §3. The whole text. -/

/-- How bindings are written. -/
structure Options where
  /-- The crate that the bindings import. -/
  runtimeCrate : String
  /-- Whether the schema is part of the bindings. -/
  embedSchema : Bool
  /-- The first line. -/
  header : String
  deriving DecidableEq, Repr

/-- The imports: maps and times only if their types occur, a pack only if a
type of it does. -/
def importLines (options : Options) (file : File) (rs : List Resource) : List String :=
  let types := typesIn rs
  let crate := options.runtimeCrate
  (if types.contains .map then ["use std::collections::BTreeMap;"] else []) ++
  ["use std::sync::Arc;", ""] ++
  (if types.contains .dateTime then ["use " ++ crate ++ "::chrono::\x7bDateTime, Utc\x7d;"]
    else []) ++
  ["use " ++ crate
     ++ "::runtime::\x7bArgs, FromValue, InitOutcome, Registry, Resource, Runtime, Value\x7d;",
   "use " ++ crate ++ "::Result;"] ++
  (packsIn rs).filterMap fun pack =>
    (file.packs.get? pack).map fun p => "use " ++ p.modulePath ++ " as " ++ pack ++ ";"

/-- The schema of the file as a constant. -/
def schemaLines (schema : Schema) : List String :=
  ["/// Schema of every resource in this file",
   "pub const SCHEMA_JSON: &str = " ++ rawString schema.text ++ ";",
   ""]

/-- The trait of all providers, and the function that binds them. -/
def providerLines (rs : List Resource) : List String :=
  let bounds := rs.map (fun r => r.wrapper ++ "Provider") ++ ["Send + Sync + 'static"]
  ["/// All resource providers of this file",
   "pub trait Provider: " ++ " + ".intercalate bounds ++ " \x7b\x7d",
   "",
   "/// Bind every resource of this file into `registry`",
   "pub fn init<P: Provider>(registry: &mut Registry, provider: Arc<P>) -> Result<()> \x7b"] ++
  (rs.map fun r =>
    "    register_" ++ snakeCase r.id ++ "(registry, provider.clone())?;") ++
  ["    Ok(())",
   "\x7d"]

/-- The bindings of a file with the given schema. -/
def text (options : Options) (file : File) (schema : Schema) : String :=
  let rs := ofFile file
  lines
    ([options.header, ""] ++ importLines options file rs ++ [""] ++
     (if options.embedSchema then schemaLines schema else []) ++
     providerLines rs ++ rs.flatMap Resource.lines)

end LazyFields.Bindings
