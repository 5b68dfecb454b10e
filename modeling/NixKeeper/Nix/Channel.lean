import NixKeeper.Text.Blank
import NixKeeper.Text.Search

/-! The release that a machine follows, and the branches that belong to it. -/

namespace NixKeeper.Nix

/-- The channel that follows development. -/
def unstableChannel : List Char :=
  "nixos-unstable".toList

/-- A release number: two digits for the year, a point and two digits for the month. -/
def isRelease : List Char → Bool
  -- All five characters have to be there, and nothing behind them.
  | [a, b, point, c, d] => a.isDigit && b.isDigit && point == '.' && c.isDigit && d.isDigit
  | _ => false

/-- The branch of the package collection for a channel. -/
def packagesBranch (version : List Char) : List Char :=
  if version = unstableChannel ∨ version = "unstable".toList then unstableChannel
  else
    -- A release may be named with or without the words before it.
    let release := Text.dropBeginning "nixos-".toList version
    if isRelease release then "release-".toList ++ release else version

/-- The branch of the home manager for a channel. -/
def homeManagerBranch (version : List Char) : List Char :=
  let branch := packagesBranch version
  -- Development happens on a branch of another name there.
  if branch = unstableChannel then "master".toList else branch

/-- The channel whose package collection an address leads to. -/
def channelOfUrl (url : List Char) : List Char :=
  -- The branches of the home manager are named by the release alone.
  let branch := Text.afterLast '/' url
  match "release-".toList.isPrefixOf? branch with
  | some release => "nixos-".toList ++ release
  | none => branch

/-- The release number at the head of a text. -/
def release? (text : List Char) : Option (List Char) :=
  if isRelease (text.take 5) then some (text.take 5) else none

/-- The first release number in a channel, or that of an old release. -/
def stateVersion (version : List Char) : List Char :=
  -- A channel that names no release gets a fixed one.
  (Text.findFirst release? version).getD "23.11".toList

end NixKeeper.Nix
