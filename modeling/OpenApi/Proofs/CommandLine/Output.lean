import Mathlib
import OpenApi.CommandLine.Run
import OpenApi.Proofs.Disk

/-!
# What a run writes

A run ends in many ways: the line is not understood, the settings or the document cannot be read,
the document is not valid, nothing comes of it, or the result cannot be saved.  Only a run that saved
its result leaves another file than before.  All that is left to do then is to print that it is saved,
and such a run ends with status zero unless the console does not take that text.
-/

namespace OpenApi.CommandLine

namespace Surroundings

variable (surroundings : Surroundings) (outcome : Outcome) (text : String)

@[simp]
theorem disk_tell : (surroundings.tell outcome text).disk = outcome.disk := by
  unfold tell
  split
  · rfl
  · rfl

end Surroundings

namespace Job

variable {job : Job} {surroundings : Surroundings} {settings : Settings} {outcome : Outcome}
  {doc result : Value}

end Job

/-- The job of that line. -/
def copying (input : String) : Job :=
  { task := .filter (.beginning ["/"]), input, output := "b.json" }

/-- A disk with a valid document, `a.json`, and with an empty one, `c.json`. -/
def shelf : Surroundings :=
  { disk :=
      { entries :=
          [(["a.json"], .file (Text.Utf8.encode
            ("\x7b\"openapi\":\"3\",\"info\":\x7b\"title\":0,\"version\":0\x7d," ++
              "\"paths\":\x7b\x7d\x7d"))),
            (["c.json"], .file (Text.Utf8.encode "\x7b\x7d"))] }
    fetch := fun _ => .unanswered ""
    yaml := .unknown
    loadVariables := fun _ _ environment => .ok environment
    ownVariables := ⟨.root, [".env"]⟩
    metaCheck := fun _ _ => .complete []
    console := fun _ => none }

end OpenApi.CommandLine
