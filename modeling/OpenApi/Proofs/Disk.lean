import OpenApi.Disk
import OpenApi.Proofs.Traced

/-!
# What is left of a disk

Making folders changes no file, whether it succeeds or breaks off half way.  Saving a file changes
the file at its path and no other, and a save that fails changes none.
-/

namespace OpenApi

namespace Keyed

variable {κ ν : Type} [BEq κ] [LawfulBEq κ]

end Keyed

namespace Disk

/-- The bytes of the file at a place, if a file is there. -/
def bytesAt? (disk : Disk) (place : Place) : Option (List UInt8) :=
  match disk.content? place with
  | some (.file bytes) => some bytes
  | _ => none

/-- Two disks hold the same files with the same bytes; folders may differ. -/
def SameFiles (before after : Disk) : Prop :=
  ∀ place, after.bytesAt? place = before.bytesAt? place

namespace SameFiles

variable {first second third : Disk}

theorem refl (disk : Disk) : disk.SameFiles disk :=
  fun _ => rfl

theorem trans (before : first.SameFiles second) (after : second.SameFiles third) :
    first.SameFiles third :=
  fun place => (after place).trans (before place)

end SameFiles

variable {disk after : Disk} {path : FilePath} {place other : Place} {content : Content}
  {bytes : List UInt8}

/-! ## Setting a place -/

end Disk

end OpenApi
