import NixKeeper.Main
import NixKeeper.Proofs.Decimal.Shortest
import NixKeeper.Proofs.Document.Carried
import NixKeeper.Proofs.Files.Comments
import NixKeeper.Proofs.Files.Extraction
import NixKeeper.Proofs.Files.Home
import NixKeeper.Proofs.Files.Manifest
import NixKeeper.Proofs.Files.Mentions
import NixKeeper.Proofs.Files.PackageList
import NixKeeper.Proofs.Files.Regaining
import NixKeeper.Proofs.Files.Renaming
import NixKeeper.Proofs.Files.Repetition
import NixKeeper.Proofs.Files.RoundTrip
import NixKeeper.Proofs.Files.Shell
import NixKeeper.Proofs.Files.Soundness
import NixKeeper.Proofs.Files.Storable
import NixKeeper.Proofs.Files.SystemFile.DefinedOnce
import NixKeeper.Proofs.Files.SystemFile.Growth
import NixKeeper.Proofs.Files.SystemFile.InnerBlocks
import NixKeeper.Proofs.Files.SystemFile.Mentions
import NixKeeper.Proofs.Files.SystemFile.Ownership
import NixKeeper.Proofs.Files.SystemFile.Reading
import NixKeeper.Proofs.Files.SystemFile.Repetition
import NixKeeper.Proofs.Files.SystemFile.Scrubbing
import NixKeeper.Proofs.Files.SystemFile.Switches
import NixKeeper.Proofs.Files.SystemFile.Usernames
import NixKeeper.Proofs.Managed.BlankLines
import NixKeeper.Proofs.Managed.Body
import NixKeeper.Proofs.Managed.Cuts
import NixKeeper.Proofs.Managed.Definitions
import NixKeeper.Proofs.Managed.Merge
import NixKeeper.Proofs.Managed.Spared
import NixKeeper.Proofs.Model.Names
import NixKeeper.Proofs.Model.Renames
import NixKeeper.Proofs.Model.Reproduction
import NixKeeper.Proofs.Nix.Channel
import NixKeeper.Proofs.Nix.OptionScan
import NixKeeper.Proofs.Nix.Rereading
import NixKeeper.Proofs.Sync.Agreement
import NixKeeper.Proofs.Sync.Faults
import NixKeeper.Proofs.Sync.Recovery
import NixKeeper.Proofs.Sync.Rehearsal
import NixKeeper.Proofs.Sync.Reimport
import NixKeeper.Proofs.Sync.Settling
import NixKeeper.Proofs.Sync.Sightings
import NixKeeper.Proofs.Sync.Usage
import NixKeeper.Storage.Memory
