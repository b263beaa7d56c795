import OpenApi.Decimal.Numeral
import OpenApi.Text.Blank

/-!
# Versions

Versions are whole numbers with points between, such as `3.1.0`.  They are compared part by part from
the left, and parts that a version does not have count as zero.
-/

namespace OpenApi.Version

/-- The numbers of a version; a text with any other part is no version. -/
def parts? (version : String) : Option (List Int) :=
  (Text.pieces '.' version.toList).mapM Decimal.integer?

/-- Parts filled up with zeros to a width. -/
def filled (width : Nat) (parts : List Int) : List Int :=
  parts ++ List.replicate (width - parts.length) 0

/-- Whether the first of two lists of equal length is the same or comes later, the leftmost
difference deciding. -/
def notBefore : List Int → List Int → Bool
  | [], _ => true
  | _ :: _, [] => true
  | first :: rest, other :: others =>
    if first = other then notBefore rest others else decide (other < first)

def reaches (parts minimum : List Int) : Bool :=
  let width := max parts.length minimum.length
  notBefore (filled width parts) (filled width minimum)

/-- Whether a version is at least the minimum.  If one of them is no version, it is not. -/
def supported (version minimum : String) : Bool :=
  match parts? version, parts? minimum with
  | some parts, some least => reaches parts least
  | _, _ => false

end OpenApi.Version
