import ApiForge.Artifact.Definition
/-!
The types of a document: one definition for each component schema in name order,
each followed by the shapes hoisted out of it. A schema whose exported name is
already defined is passed over.
-/

namespace ApiForge

open Source (Step)

namespace TypesModule

/-- The definitions of catalog entries. -/
def define (c : Catalog) : List CatalogEntry → StateM Hoist (List Definition)
  | [] => return []
  | e :: rest => do
    if ← Hoist.claim e.name then
      let d ← Definition.ofShape c e.name e.schema.ownDescription e.shape
      let hoisted ← Definition.drain c
      return d :: hoisted ++ (← define c rest)
    else define c rest

/-- Every type definition of a document. -/
def definitions (c : Catalog) : List Definition :=
  ((define c c.entries).run {}).1

/-- The source of the types. -/
def steps (c : Catalog) : List Step :=
  .line headerLine :: Definition.listSteps (definitions c)

end TypesModule

end ApiForge
