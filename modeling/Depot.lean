import Depot.Action
import Depot.Assoc
import Depot.Catalog.Elements
import Depot.Catalog.Sets
import Depot.Catalog.Stores
import Depot.Checksum
import Depot.Config.Flat
import Depot.Config.Merge
import Depot.Decimal.Binary64
import Depot.Decimal.Shortest
import Depot.Dict
import Depot.Digest.Algorithm
import Depot.Digest.Blake3
import Depot.Digest.Md5
import Depot.Digest.Sha1
import Depot.Digest.Sha256
import Depot.Digest.Word
import Depot.Disk.Basic
import Depot.Disk.Fault
import Depot.Disk.Names
import Depot.Disk.Path
import Depot.Disk.Walk
import Depot.Element.Address
import Depot.Element.Backend
import Depot.Element.Basic
import Depot.Element.Cache
import Depot.Element.Error
import Depot.Element.Parameters
import Depot.Element.Source
import Depot.Json.Number
import Depot.Json.Printer
import Depot.Json.Reader
import Depot.Json.Token
import Depot.Json.Value
import Depot.Key
import Depot.MediaType
import Depot.MediaType.Common
import Depot.Plugin.Configuration
import Depot.Plugin.ConfigurationFile
import Depot.Plugin.Descriptor
import Depot.Plugin.Error
import Depot.Plugin.Registry
import Depot.Plugin.Table
import Depot.Proofs.Checksum
import Depot.Proofs.Config.Expanding
import Depot.Proofs.Config.FlatForms
import Depot.Proofs.Config.Flattening
import Depot.Proofs.Config.Leaves
import Depot.Proofs.Config.Merging
import Depot.Proofs.Config.Overlays
import Depot.Proofs.Disk.Building
import Depot.Proofs.Disk.Deleting
import Depot.Proofs.Disk.Ending
import Depot.Proofs.Disk.Extension
import Depot.Proofs.Disk.Files
import Depot.Proofs.Disk.Locations
import Depot.Proofs.Disk.Resolution
import Depot.Proofs.Disk.Sound
import Depot.Proofs.Disk.Spelling
import Depot.Proofs.Disk.TempNames
import Depot.Proofs.Disk.Walking
import Depot.Proofs.Element.Caches
import Depot.Proofs.Element.Directories
import Depot.Proofs.Element.History
import Depot.Proofs.Element.Inline
import Depot.Proofs.Element.Memory
import Depot.Proofs.Element.Ownership
import Depot.Proofs.Element.Parameters
import Depot.Proofs.Element.Readings
import Depot.Proofs.Element.Resolvers
import Depot.Proofs.Element.Settling
import Depot.Proofs.Element.Steps
import Depot.Proofs.Element.Storing
import Depot.Proofs.Element.TempFiles
import Depot.Proofs.FiniteMap
import Depot.Proofs.Json.Compact
import Depot.Proofs.Json.Integers
import Depot.Proofs.Json.Ordered
import Depot.Proofs.Json.RoundTrip
import Depot.Proofs.Json.Scanning
import Depot.Proofs.Plugin.Building
import Depot.Proofs.Plugin.Descriptors
import Depot.Proofs.Plugin.Discovery
import Depot.Proofs.Plugin.Forms
import Depot.Proofs.Plugin.Rendering
import Depot.Proofs.Plugin.Restoring
import Depot.Proofs.Plugin.Sources
import Depot.Proofs.Plugin.Template
import Depot.Proofs.Rebuilding.Elements
import Depot.Proofs.Rebuilding.Handles
import Depot.Proofs.Rebuilding.Sets
import Depot.Proofs.Rebuilding.Stores
import Depot.Proofs.Set.AnyStore
import Depot.Proofs.Set.Batches
import Depot.Proofs.Set.Caching
import Depot.Proofs.Set.Changing
import Depot.Proofs.Set.FileNames
import Depot.Proofs.Set.Filing
import Depot.Proofs.Set.Interchange
import Depot.Proofs.Set.Kinds
import Depot.Proofs.Set.Loading
import Depot.Proofs.Set.Pieces
import Depot.Proofs.Set.Places
import Depot.Proofs.Set.Pools
import Depot.Proofs.Set.Refusing
import Depot.Proofs.Set.Removing
import Depot.Proofs.Set.Requests
import Depot.Proofs.Set.Rescanning
import Depot.Proofs.Set.Scanning
import Depot.Proofs.Set.Simulation
import Depot.Proofs.Set.TextKeys
import Depot.Proofs.Set.TreeRuns
import Depot.Proofs.Set.Views
import Depot.Proofs.Store.Holding
import Depot.Proofs.Store.Memory
import Depot.Proofs.Store.OneByOne
import Depot.Proofs.Store.Reopening
import Depot.Proofs.Store.Requests
import Depot.Proofs.Store.Runs
import Depot.Proofs.Store.Tables
import Depot.Proofs.Text.Base64
import Depot.Proofs.Text.Basic
import Depot.Proofs.Text.Canonical
import Depot.Proofs.Text.Hex
import Depot.Proofs.Toml.Nulls
import Depot.Proofs.World.Growth
import Depot.Proofs.World.Identity
import Depot.Proofs.World.Memos
import Depot.Proofs.World.Parts
import Depot.Proofs.World.Showing
import Depot.Provider
import Depot.Set.Basic
import Depot.Set.Error
import Depot.Set.FileName
import Depot.Set.Interface
import Depot.Set.Memory
import Depot.Set.OverStore
import Depot.Set.Tree
import Depot.Store.Error
import Depot.Store.Interface
import Depot.Store.Table
import Depot.Text.Base64
import Depot.Text.Basic
import Depot.Text.Hex
import Depot.Text.Printable
import Depot.Text.Quoted
import Depot.Toml.Printer
import Depot.Toml.Reader
import Depot.Toml.Scalar
import Depot.Toml.Table
import Depot.World.Basic
import Depot.World.Stores
