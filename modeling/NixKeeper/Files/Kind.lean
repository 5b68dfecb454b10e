/-! The files that are generated for a machine. -/

namespace NixKeeper

/-- One of the generated files. -/
inductive FileKind where
  /-- Where packages come from, and which modules make up the machine. -/
  | manifest
  /-- The settings of the machine. -/
  | system
  /-- The settings of the first user's home. -/
  | home
deriving DecidableEq

namespace FileKind

/-- The generated files in the order in which they are handled. -/
def all : List FileKind :=
  [manifest, system, home]

/-- The word for a kind of file. -/
def name : FileKind → String
  -- These are the words of the command line.
  | manifest => "manifest"
  | system => "system"
  | home => "home"

/-- The kind of file that a word stands for. -/
def ofName? (word : String) : Option FileKind :=
  all.find? (·.name == word)

/-- The name of the file in its directory. -/
def fileName : FileKind → String
  -- These are the names on disk.
  | manifest => "flake.nix"
  | system => "configuration.nix"
  | home => "home.nix"

end FileKind

end NixKeeper
