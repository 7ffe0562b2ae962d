import Voxel.Inspect
import Voxel.Log.Archive
import Voxel.Settings
import Voxel.Storage.Summary
import Voxel.Text.Utf8
import Voxel.Workspace.Catalogs
import Voxel.Workspace.Pools
import Voxel.Workspace.Sections
import Voxel.Proofs.Bits
import Voxel.Proofs.Storage.Packed
import Voxel.Proofs.Storage.Palette
import Voxel.Proofs.Storage.Flat
import Voxel.Proofs.Block.Declaration
import Voxel.Proofs.Radix
import Voxel.Proofs.Registry.Index
import Voxel.Proofs.Block.State
import Voxel.Proofs.Storage.Import
import Voxel.Proofs.Registry.Global
import Voxel.Proofs.Version.Range
import Voxel.Proofs.Version.Property
import Voxel.Proofs.Version.Draft
import Voxel.Proofs.Version.WellFormed
import Voxel.Proofs.Version.Kinds
import Voxel.Proofs.Fluid
import Voxel.Proofs.Version.Fluids
import Voxel.Proofs.Version.Bridge
import Voxel.Proofs.Version.Registry
import Voxel.Proofs.Version.Lookup
import Voxel.Proofs.Storage.Run
import Voxel.Proofs.Version.Conversion
import Voxel.Proofs.Version.Return
import Voxel.Proofs.Version.Exact
import Voxel.Proofs.Storage.Upgrade
import Voxel.Proofs.Storage.Section
import Voxel.Proofs.Block.Space
import Voxel.Proofs.Registry.Coherent
import Voxel.Proofs.Registry.InPlace
import Voxel.Proofs.Registry.Growth
import Voxel.Proofs.Block.Transition
import Voxel.Proofs.Storage.Legacy
import Voxel.Proofs.Storage.View
import Voxel.Proofs.Storage.ViewRun
import Voxel.Proofs.FluidRun
import Voxel.Proofs.Storage.Pool
import Voxel.Proofs.Name
import Voxel.Proofs.Json
import Voxel.Proofs.Version.Catalog
import Voxel.Proofs.Version.Order
import Voxel.Proofs.Version.Document
import Voxel.Proofs.Storage.Width
import Voxel.Proofs.Storage.SectionRun
import Voxel.Proofs.Version.Repeats
import Voxel.Proofs.Storage.Representation
import Voxel.Proofs.Registry.Insertion
import Voxel.Proofs.Storage.Room
import Voxel.Proofs.Block.Texts
import Voxel.Proofs.Property.Codec
import Voxel.Proofs.Version.Inference
import Voxel.Proofs.Version.Contents
import Voxel.Proofs.Storage.ReadBack
import Voxel.Proofs.Version.Alias
import Voxel.Proofs.Registry.Intern
import Voxel.Proofs.Workspace.Session
import Voxel.Proofs.Workspace.Registries
import Voxel.Proofs.Storage.Loans
import Voxel.Proofs.Workspace.Storages
import Voxel.Proofs.Log.Archive
import Voxel.Proofs.Json.Text
import Voxel.Proofs.Settings
import Voxel.Proofs.Storage.Entries
import Voxel.Proofs.Storage.Arrivals
