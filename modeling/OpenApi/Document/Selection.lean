import OpenApi.Document
import OpenApi.Traced
import OpenApi.Value.Key

/-!
# Selection

Narrowing a document to some of its paths, and selecting the schemas that some paths need.  A path
that is kept keeps its item unchanged; of the schemas those are kept that the kept items reach.
-/

namespace OpenApi.Document

def startsWith (name beginning : String) : Bool := beginning.toList.isPrefixOf name.toList

/-- The names of the paths that start with one of the beginnings, in document order.  A name that is
no text has no beginning to compare. -/
def pathsStarting (doc : Value) (beginnings : List String) : Except Fault (List Scalar) :=
  if beginnings.isEmpty then .ok []
  else go ((paths doc).map (·.1))
where
  /-- Compare the names one after the other. -/
  go : List Scalar → Except Fault (List Scalar)
    | [] => .ok []
    | .text name :: rest => do
      let later ← go rest
      return if beginnings.any (startsWith name) then .text name :: later else later
    | _ :: _ => .error .pathNotText

/-- The schema names that a path item refers to.  Its mappings and lists are operations and
parameters; texts such as a summary refer to nothing. -/
def itemReferences (item : Value) : List String :=
  match item with
  | .map entries => entries.flatMap fun entry => Reference.ofValue entry.2
  | _ => []

/-- The item under a path name, if there is one and it is not empty. -/
def item? (doc : Value) (path : String) : Option Value :=
  ((paths doc).find? path).filter (·.isSomething)

/-- The requested paths that are there, with their items, each once and in the order of the
request. -/
def requested (doc : Value) (names : List String) : Mapping :=
  Mapping.ofEntries (names.filterMap fun name => (item? doc name).map fun item => (.text name, item))

/-- The schemas that the requested paths need. -/
def neededBy (doc : Value) (kept : Mapping) : Mapping :=
  resolve (schemas doc) (kept.flatMap fun entry => itemReferences entry.2)

/-- The components of a document with other schemas. -/
def componentsWith (doc : Value) (schemas : Mapping) : Value :=
  let components := ((doc.member? "components").bind (·.entries?)).getD []
  .map (components.put (.text "schemas") (.map schemas))

/-- The document narrowed to the requested paths and the schemas they need, or nothing if none of
the paths is there. -/
def narrow? (doc : Value) (names : List String) : Option Value :=
  match requested doc names with
  | [] => none
  | kept =>
    let entries := (doc.entries?).getD []
    let entries := Mapping.put (.text "paths") (.map kept) entries
    some (.map (Mapping.put (.text "components") (componentsWith doc (neededBy doc kept)) entries))

/-- What narrowing reports: each request without a match, and what is left or that nothing is. -/
def narrowNotices (doc : Value) (names : List String) : List Notice :=
  let missing := names.filter fun name => (item? doc name).isNone
  let kept := requested doc names
  missing.map .pathNotFound ++
    [if kept.isEmpty then .noPathMatched else .narrowed kept.length (neededBy doc kept).length]

/-- Narrow a document to the requested paths and the schemas they need.  If none of the paths is
there, nothing is answered and the document stays as it is. -/
def narrow (doc : Value) (names : List String) : Traced (Option Value) :=
  ⟨narrowNotices doc names, .ok (narrow? doc names)⟩

/-- The schemas needed by the paths that start with one of the beginnings; without beginnings, all
schemas. -/
def schemasFor (doc : Value) (beginnings : List String) : Except Fault Mapping :=
  if beginnings.isEmpty then .ok (schemas doc)
  else do
    let selected ← pathsStarting doc beginnings
    let items := selected.filterMap fun name => (paths doc).lookup name
    return resolve (schemas doc) (items.flatMap itemReferences)

end OpenApi.Document
