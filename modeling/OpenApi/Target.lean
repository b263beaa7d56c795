import OpenApi.Source.TypedDict
import OpenApi.Source.Zod

/-!
# Targets

The type systems for which modules are generated: each has a dialect for its types and a form for its
modules.
-/

namespace OpenApi

/-- A type system to generate for.  The constants of Zod modules end in a suffix of choice. -/
inductive Target where
  | zod (suffix : String)
  | typedDict
deriving DecidableEq, Inhabited, Repr

namespace Target

def named (name suffix : String) : Except Fault Target :=
  match name with
  | "zod" => .ok (.zod suffix)
  | "typed-dict" => .ok .typedDict
  | _ => .error (.unknownTarget name)

def dialect : Target → Dialect
  | zod suffix => Zod.dialect suffix
  | typedDict => TypedDict.dialect

def definitionLines : Target → Definition → List String
  | zod suffix, definition => Source.Zod.definitionLines suffix definition
  | typedDict, definition => Source.TypedDict.definitionLines definition

def moduleText : Target → List Definition → String
  | zod suffix, definitions => Source.Zod.moduleText suffix definitions
  | typedDict, definitions => Source.TypedDict.moduleText definitions

end Target

end OpenApi
