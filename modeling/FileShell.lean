import FileShell.Archive.Catalogue
import FileShell.Archive.Checksum
import FileShell.Archive.Codepage
import FileShell.Archive.Coding.Bits
import FileShell.Archive.Coding.Bzip
import FileShell.Archive.Coding.Inflate
import FileShell.Archive.Coding.Lzma
import FileShell.Archive.Coding.PrefixCode
import FileShell.Archive.Coding.StoredBlocks
import FileShell.Archive.Contents
import FileShell.Archive.Entry
import FileShell.Archive.Handle
import FileShell.Archive.Number
import FileShell.Archive.Packing
import FileShell.Archive.Unpacking
import FileShell.Archive.Writing
import FileShell.Disk.Basic
import FileShell.Disk.Change
import FileShell.Disk.Real
import FileShell.Disk.Walk
import FileShell.Main
import FileShell.Path
import FileShell.Program.Options
import FileShell.Program.Settings
import FileShell.Program.Terminal
import FileShell.Proofs.Archive.Containment
import FileShell.Proofs.Archive.EntryNames
import FileShell.Proofs.Archive.Layout
import FileShell.Proofs.Archive.Nodes
import FileShell.Proofs.Archive.Packed
import FileShell.Proofs.Archive.ReadBack
import FileShell.Proofs.Archive.RoundTrip
import FileShell.Proofs.Archive.Unpacked
import FileShell.Proofs.Disk.Descent
import FileShell.Proofs.Disk.Filling
import FileShell.Proofs.Disk.Leads
import FileShell.Proofs.Disk.Places
import FileShell.Proofs.Disk.RealPath
import FileShell.Proofs.Disk.Sound
import FileShell.Proofs.Disk.Vacant
import FileShell.Proofs.Path.Names
import FileShell.Proofs.Path.Normal
import FileShell.Proofs.Shell.Archives
import FileShell.Proofs.Shell.Copying
import FileShell.Proofs.Shell.Dispatch
import FileShell.Proofs.Storage.CopyOnto
import FileShell.Proofs.Storage.CopyStep
import FileShell.Proofs.Storage.CopyTree
import FileShell.Proofs.Storage.Effects
import FileShell.Proofs.Storage.Overlay
import FileShell.Proofs.Storage.Runs
import FileShell.Service.Http
import FileShell.Service.Registry
import FileShell.Service.Routing
import FileShell.Service.Server
import FileShell.Shell.Archives
import FileShell.Shell.Console
import FileShell.Shell.Directories
import FileShell.Shell.Dispatch
import FileShell.Shell.Error
import FileShell.Shell.Files
import FileShell.Shell.Line
import FileShell.Shell.Navigation
import FileShell.Shell.Prompt
import FileShell.Shell.Run
import FileShell.Shell.Session
import FileShell.Storage.Basic
import FileShell.Storage.Files
import FileShell.Storage.Stream
import FileShell.Storage.Tree
import FileShell.Text.Basic
import FileShell.Text.Blank
import FileShell.Text.Digit
import FileShell.Text.Integer
import FileShell.Text.Lines
import FileShell.Text.Percent
import FileShell.Text.Printable
import FileShell.Text.Quoted
import FileShell.Text.Upper
import FileShell.Text.Utf8
import FileShell.Text.Utf8.Laws
import FileShell.Text.Width
import FileShell.Proofs.Archive.Effects
import FileShell.Proofs.Shell.Effects
import FileShell.Proofs.Archive.Turns
import FileShell.Proofs.Shell.Unzipping
import FileShell.Proofs.Shell.Redirection
import FileShell.Proofs.Disk.Canonical
import FileShell.Proofs.Shell.Whereabouts
import FileShell.Proofs.Disk.Kinds
import FileShell.Proofs.Shell.Removal
import FileShell.Proofs.Disk.Nulls
import FileShell.Proofs.Shell.Scenes
import FileShell.Proofs.Shell.Follows
import FileShell.Proofs.Shell.Contained
import FileShell.Proofs.Archive.Locator
import FileShell.Proofs.Archive.Additions
import FileShell.Proofs.Archive.Stored
import FileShell.Proofs.Archive.Items
import FileShell.Proofs.Shell.Closing
import FileShell.Proofs.Shell.Outcomes
import FileShell.Proofs.Service.Registry
import FileShell.Proofs.Service.Requests
import FileShell.Proofs.Service.LifeCycle
import FileShell.Proofs.Service.FrontEnds
import FileShell.Proofs.Disk.Alike
import FileShell.Proofs.Archive.Exclusion
import FileShell.Proofs.Program.Verbatim
import FileShell.Proofs.Shell.Echoes
import FileShell.Proofs.Archive.Refusals
import FileShell.Proofs.Storage.Pruned
import FileShell.Proofs.Disk.StrictPath
import FileShell.Proofs.Archive.LastEntry
import FileShell.Proofs.Archive.Transit
import FileShell.Proofs.Shell.Entering
import FileShell.Proofs.Shell.Landing
import FileShell.Proofs.Text.Ends
import FileShell.Proofs.Disk.Clearing
import FileShell.Proofs.Shell.Clearing
import FileShell.Proofs.Disk.Paths
import FileShell.Proofs.Shell.Making
import FileShell.Proofs.Disk.Ways
import FileShell.Proofs.Shell.Words
import FileShell.Proofs.Storage.Deposits
import FileShell.Proofs.Shell.Writing
import FileShell.Proofs.Archive.Labels
import FileShell.Proofs.Shell.Reports
import FileShell.Proofs.Archive.Within
import FileShell.Proofs.Archive.Components
import FileShell.Proofs.Shell.Ascent
import FileShell.Proofs.Disk.Nesting
import FileShell.Proofs.Disk.Making
import FileShell.Proofs.Disk.Steps
import FileShell.Proofs.Storage.Stops
import FileShell.Proofs.Archive.Packers
import FileShell.Proofs.Shell.Stops
import FileShell.Proofs.Shell.Splitting
import FileShell.Proofs.Shell.Reading
import FileShell.Proofs.Text.Pieces
