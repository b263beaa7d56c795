import OpenApi.Graph.Order
import OpenApi.Reference
import OpenApi.Resolver

/-!
# Documents

The two parts of an OpenAPI document that matter here: its paths and its named schemas.  The schemas
form a graph, in which an arrow leads from a schema to each schema that it refers to.
-/

namespace OpenApi.Document

/-- The named schemas of a document; a document without them has none. -/
def schemas (doc : Value) : Mapping :=
  (((doc.member? "components").bind (·.member? "schemas")).bind (·.entries?)).getD []

/-- The paths of a document; a document without them has none. -/
def paths (doc : Value) : Mapping := ((doc.member? "paths").bind (·.entries?)).getD []

/-- The schemas that following references from given names finds, in the order in which they are found.
`scan` lists the names that a schema refers to. -/
def resolved (scan : Value → List String) (schemas : Mapping) (seeds : List String) : Mapping :=
  ((Resolver.start seeds).run scan schemas).resolved

/-- The schemas that following references from given names finds, in the order of the map. -/
def resolve (schemas : Mapping) (seeds : List String) : Mapping :=
  let found := resolved (fun schema => (Reference.scan ∅ schema).toList) schemas seeds
  schemas.filter fun entry => (found.lookup entry.1).isSome

/-- The schemas of a document that can be reached from given names. -/
def collect (doc : Value) (seeds : List String) : Mapping := resolve (schemas doc) seeds

/-- The other schemas of the map that a schema refers to. -/
def dependenciesOf (schemas : Mapping) (name : Scalar) (schema : Value) : NameSet :=
  .ofList ((Reference.ofValue schema).filter fun ref => schemas.has ref && Scalar.text ref != name)

/-- The dependencies of every schema. -/
def dependencies (schemas : Mapping) : List (Scalar × NameSet) :=
  schemas.map fun entry => (entry.1, dependenciesOf schemas entry.1 entry.2)

/-- The names of the schemas, dependencies first; those of one schema are taken by code point. -/
def order (schemas : Mapping) : List Scalar :=
  let table := dependencies schemas
  let next (name : Scalar) : List Scalar :=
    ((table.lookup name).map fun names => names.sorted.map Scalar.text).getD []
  Graph.arranged (schemas.map (·.1)) next

end OpenApi.Document
