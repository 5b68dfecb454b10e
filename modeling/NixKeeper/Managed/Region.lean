import NixKeeper.Text.Search

/-! The managed region of a file, which stands between two marker lines. -/

namespace NixKeeper.Managed

/-- The line that opens a managed region. -/
def beginMarker : List Char :=
  "# --- BEGIN NIXFORGE GENERATED ---".toList

/-- The line that closes a managed region. -/
def endMarker : List Char :=
  "# --- END NIXFORGE GENERATED ---".toList

/-- A text with a managed region, cut at the two markers. -/
structure Region where
  /-- What stands before the opening marker. -/
  before : List Char
  /-- What stands between the markers. -/
  body : List Char
  /-- What stands behind the closing marker. -/
  after : List Char
deriving DecidableEq

/-- The region with its markers. -/
def Region.managed (region : Region) : List Char :=
  beginMarker ++ region.body ++ endMarker

/--
The region from the first opening marker to the first closing one.

A text whose first closing marker stands before its first opening one has no region.
-/
def locate (text : List Char) : Option Region := do
  let (before, rest) ← Text.splitFirst beginMarker text
  -- The first closing marker decides, so one before the opening marker spoils the region.
  if Text.contains endMarker before then none
  let (body, after) ← Text.splitFirst endMarker rest
  return ⟨before, body, after⟩

/-- The text has a managed region. -/
def hasRegion (text : List Char) : Bool :=
  (locate text).isSome

end NixKeeper.Managed
