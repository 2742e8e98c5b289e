import ModuleAtlas.CacheKey.KeySet
import ModuleAtlas.CacheKey.Record
import ModuleAtlas.Catalog.Display
import ModuleAtlas.Main
import ModuleAtlas.Proofs.JsonText
import ModuleAtlas.Proofs.KeyCollisions
import ModuleAtlas.Proofs.KeyConvergence
import ModuleAtlas.Proofs.NormalPaths
import ModuleAtlas.Proofs.Coverage
import ModuleAtlas.Proofs.PathMap
import ModuleAtlas.Proofs.Reach
import ModuleAtlas.Proofs.WalkLaws
import ModuleAtlas.Sample
import ModuleAtlas.Proofs.Records
import ModuleAtlas.Proofs.FreshScan
import ModuleAtlas.Proofs.FreshRuns
import ModuleAtlas.Proofs.AliasDirs
import ModuleAtlas.Proofs.Positions
import ModuleAtlas.Proofs.SafeReading
import ModuleAtlas.Proofs.Invalidation
import ModuleAtlas.Proofs.BuildOutcome
import ModuleAtlas.Proofs.StemCollisions
import ModuleAtlas.Proofs.AliasRenaming
import ModuleAtlas.Proofs.ConfiguredViews
import ModuleAtlas.Proofs.AliasBindings
import ModuleAtlas.Proofs.LocationKeys
import ModuleAtlas.Proofs.Signatures
import ModuleAtlas.Proofs.WalkEntries
import ModuleAtlas.Proofs.ScanMirror
import ModuleAtlas.Proofs.GeneratorOrder
import ModuleAtlas.Proofs.KeySetRuns
import ModuleAtlas.Proofs.DependencyTimes
import ModuleAtlas.Proofs.Revalidation
import ModuleAtlas.Proofs.KeyDependence
import ModuleAtlas.Proofs.JoinedRequests
import ModuleAtlas.Proofs.AliasRetries
import ModuleAtlas.Proofs.TreeOrder
import ModuleAtlas.Proofs.LexicalPlaces
import ModuleAtlas.Proofs.PathLengths
import ModuleAtlas.Proofs.DirectWays
import ModuleAtlas.Proofs.Spellings
import ModuleAtlas.Proofs.CallShapes
import ModuleAtlas.Proofs.SourceText
import ModuleAtlas.Proofs.CommentLaws
import ModuleAtlas.Proofs.CommentRemoval
import ModuleAtlas.Proofs.RelativeIds
import ModuleAtlas.Proofs.SelectedFiles
import ModuleAtlas.Proofs.Outlines
import ModuleAtlas.Proofs.UnclosedArrays
import ModuleAtlas.Proofs.RecordedTimes
import ModuleAtlas.Proofs.LocaleTags
import ModuleAtlas.Proofs.RefusedWrites
import ModuleAtlas.Proofs.FailedBuilds
