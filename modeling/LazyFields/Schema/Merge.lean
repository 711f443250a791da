/-
  LazyFields.Schema.Merge
  ────────────────────────────────
  **MERGING SCHEMAS.**

  Merging adds the resources and fields of a second schema that the first
  one lacks and fills in what the first one leaves empty.  Nothing that the
  first schema says is lost.
-/
import LazyFields.Schema.Basic

namespace LazyFields

/-- The first text, or the second if the first is empty. -/
def firstText (a b : String) : String := if a = "" then b else a

namespace ResourceSpec

/-- One resource described twice.  A base declaration wins over extensions;
what is private in one is private. -/
def merge (ours theirs : ResourceSpec) : ResourceSpec where
  id := ours.id
  name := ours.name
  title := firstText ours.title theirs.title
  desc := firstText ours.desc theirs.desc
  init := ours.init.or theirs.init
  isPrivate := ours.isPrivate || theirs.isPrivate
  isExtension := ours.isExtension && theirs.isExtension
  defaults := firstText ours.defaults theirs.defaults
  fields := ours.fields.mergeWith (fun ours _ => ours) theirs.fields
  listType := ours.listType.or theirs.listType

end ResourceSpec

namespace Schema

/-- Both schemas in one. -/
def merge (ours theirs : Schema) : Schema :=
  ⟨ours.resources.mergeWith ResourceSpec.merge theirs.resources⟩

end Schema

end LazyFields
