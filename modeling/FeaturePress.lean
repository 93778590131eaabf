import FeaturePress.CommandLine
import FeaturePress.Config.Basic
import FeaturePress.Config.Environment
import FeaturePress.Config.File
import FeaturePress.Config.Layers
import FeaturePress.Config.Load
import FeaturePress.Data.Delimited
import FeaturePress.Data.Row
import FeaturePress.Data.Source
import FeaturePress.Disk.Basic
import FeaturePress.Disk.FeatureFiles
import FeaturePress.Disk.FileError
import FeaturePress.Disk.Read
import FeaturePress.Disk.Remove
import FeaturePress.Disk.Write
import FeaturePress.Examples.Block
import FeaturePress.Examples.Expansion
import FeaturePress.Examples.Literal
import FeaturePress.Examples.Table
import FeaturePress.Examples.Variables
import FeaturePress.Feature.Cache
import FeaturePress.Feature.Metadata
import FeaturePress.Feature.Opening
import FeaturePress.Feature.Preparation
import FeaturePress.Feature.SmartMarker
import FeaturePress.Feature.SourceTag
import FeaturePress.Filter.Evaluate
import FeaturePress.Filter.Expr
import FeaturePress.Filter.Token
import FeaturePress.Filter.Value
import FeaturePress.Json.Basic
import FeaturePress.Json.Printer
import FeaturePress.Json.Reader
import FeaturePress.LogFilter
import FeaturePress.Main
import FeaturePress.Number.Binary64
import FeaturePress.Number.Numeral
import FeaturePress.Number.Power
import FeaturePress.Number.Shortest
import FeaturePress.Path
import FeaturePress.Project.Build
import FeaturePress.Project.Clean
import FeaturePress.Project.Command
import FeaturePress.Project.Refresh
import FeaturePress.Project.Run
import FeaturePress.Proofs.Config.Environment
import FeaturePress.Proofs.Config.Members
import FeaturePress.Proofs.Config.Overlay
import FeaturePress.Proofs.Config.Places
import FeaturePress.Proofs.Config.Precedence
import FeaturePress.Proofs.Disk.Agree
import FeaturePress.Proofs.Disk.Creating
import FeaturePress.Proofs.Disk.Downward
import FeaturePress.Proofs.Disk.Entries
import FeaturePress.Proofs.Disk.Enumeration
import FeaturePress.Proofs.Disk.Excluding
import FeaturePress.Proofs.Disk.Finding
import FeaturePress.Proofs.Disk.Frame
import FeaturePress.Proofs.Disk.Growing
import FeaturePress.Proofs.Disk.Listing
import FeaturePress.Proofs.Disk.Relisting
import FeaturePress.Proofs.Disk.Removing
import FeaturePress.Proofs.Disk.Renewing
import FeaturePress.Proofs.Disk.Resolve
import FeaturePress.Proofs.Disk.Rewriting
import FeaturePress.Proofs.Disk.Writing
import FeaturePress.Proofs.Examples.Braces
import FeaturePress.Proofs.Examples.Closing
import FeaturePress.Proofs.Examples.Expansion
import FeaturePress.Proofs.Examples.Literal
import FeaturePress.Proofs.Examples.Locating
import FeaturePress.Proofs.Examples.Placeholders
import FeaturePress.Proofs.Examples.Places
import FeaturePress.Proofs.Examples.Quoting
import FeaturePress.Proofs.Examples.Replacing
import FeaturePress.Proofs.Examples.Segments
import FeaturePress.Proofs.Examples.Substitution
import FeaturePress.Proofs.Examples.Table
import FeaturePress.Proofs.Examples.Values
import FeaturePress.Proofs.Feature.Markers
import FeaturePress.Proofs.Feature.Mirroring
import FeaturePress.Proofs.Feature.Opening
import FeaturePress.Proofs.Feature.Preparation
import FeaturePress.Proofs.Feature.Tagging
import FeaturePress.Proofs.Filter.Cells
import FeaturePress.Proofs.Filter.Comparisons
import FeaturePress.Proofs.Filter.Grammar
import FeaturePress.Proofs.Filter.Lookups
import FeaturePress.Proofs.Filter.Printing
import FeaturePress.Proofs.Filter.Spelling
import FeaturePress.Proofs.Json.RoundTrip
import FeaturePress.Proofs.Json.Scalars
import FeaturePress.Proofs.Path.Components
import FeaturePress.Proofs.Path.Join
import FeaturePress.Proofs.Path.Place
import FeaturePress.Proofs.Path.Visited
import FeaturePress.Proofs.Project.Accounting
import FeaturePress.Proofs.Project.Adding
import FeaturePress.Proofs.Project.Artifacts
import FeaturePress.Proofs.Project.Authored
import FeaturePress.Proofs.Project.Build
import FeaturePress.Proofs.Project.CacheHits
import FeaturePress.Proofs.Project.CachedForms
import FeaturePress.Proofs.Project.CatalogHistory
import FeaturePress.Proofs.Project.Clean
import FeaturePress.Proofs.Project.CleanBuild
import FeaturePress.Proofs.Project.Command
import FeaturePress.Proofs.Project.Disjoint
import FeaturePress.Proofs.Project.Failing
import FeaturePress.Proofs.Project.Freshness
import FeaturePress.Proofs.Project.Incremental
import FeaturePress.Proofs.Project.Lineage
import FeaturePress.Proofs.Project.OtherFeatures
import FeaturePress.Proofs.Project.Outputs
import FeaturePress.Proofs.Project.Persisting
import FeaturePress.Proofs.Project.Protection
import FeaturePress.Proofs.Project.Rebuild
import FeaturePress.Proofs.Project.Refresh
import FeaturePress.Proofs.Project.Repeat
import FeaturePress.Proofs.Project.ReuseHistory
import FeaturePress.Proofs.Project.Reusing
import FeaturePress.Proofs.Project.SameRefresh
import FeaturePress.Proofs.Project.SecondBuild
import FeaturePress.Proofs.Project.StoredNames
import FeaturePress.Proofs.SortedMap
import FeaturePress.Proofs.State.RoundTrip
import FeaturePress.Proofs.State.Saving
import FeaturePress.Proofs.State.Uses
import FeaturePress.Proofs.StepGroup.Bindings
import FeaturePress.Proofs.StepGroup.Catalog
import FeaturePress.Proofs.StepGroup.Declared
import FeaturePress.Proofs.StepGroup.Faults
import FeaturePress.Proofs.StepGroup.Inlining
import FeaturePress.Proofs.StepGroup.ReferenceLines
import FeaturePress.Proofs.Text.Blank
import FeaturePress.Proofs.Text.Digits
import FeaturePress.Proofs.Text.Lines
import FeaturePress.Proofs.Text.Marks
import FeaturePress.Proofs.Text.Quoted
import FeaturePress.Proofs.Time.Date
import FeaturePress.Proofs.Time.Instant
import FeaturePress.Proofs.Toml.Distinct
import FeaturePress.Sequence
import FeaturePress.SortedMap
import FeaturePress.State.Document
import FeaturePress.State.Store
import FeaturePress.StepGroup.Basic
import FeaturePress.StepGroup.Bindings
import FeaturePress.StepGroup.Catalog
import FeaturePress.StepGroup.Document
import FeaturePress.StepGroup.Provenance
import FeaturePress.StepGroup.Reference
import FeaturePress.Text.Basic
import FeaturePress.Text.Blank
import FeaturePress.Text.Digest
import FeaturePress.Text.Escaped
import FeaturePress.Text.Lines
import FeaturePress.Text.Marks
import FeaturePress.Text.Quoted
import FeaturePress.Text.Unprintable
import FeaturePress.Time.Date
import FeaturePress.Time.Instant
import FeaturePress.Toml.Document
import FeaturePress.Toml.Lexeme
import FeaturePress.Toml.Scalar
import FeaturePress.Toml.Table
