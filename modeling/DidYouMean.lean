import DidYouMean.Check.Symbols
import DidYouMean.FileTree.Memory
import DidYouMean.LogFormat
import DidYouMean.Main
import DidYouMean.Proofs.AngleClauses
import DidYouMean.Proofs.Applying
import DidYouMean.Proofs.CacheHistory
import DidYouMean.Proofs.Collapsing
import DidYouMean.Proofs.DirectoryListings
import DidYouMean.Proofs.Discovery
import DidYouMean.Proofs.EditScripts
import DidYouMean.Proofs.Listing
import DidYouMean.Proofs.ManifestFields
import DidYouMean.Proofs.MarkedSpecifiers
import DidYouMean.Proofs.MessageLines
import DidYouMean.Proofs.NameVerdict
import DidYouMean.Proofs.Overloads
import DidYouMean.Proofs.PackageVerdict
import DidYouMean.Proofs.PlainRanking
import DidYouMean.Proofs.Probing
import DidYouMean.Proofs.ProjectFiles
import DidYouMean.Proofs.QuotedPlaces
import DidYouMean.Proofs.Repeating
import DidYouMean.Proofs.Resolution
import DidYouMean.Proofs.Signatures
import DidYouMean.Proofs.SingleLines
import DidYouMean.Proofs.SpecifierParts
import DidYouMean.Proofs.StandardThreshold
import DidYouMean.Proofs.TemplateFilling
import DidYouMean.Proofs.Tuning
import DidYouMean.Proofs.TypesPackages
import DidYouMean.Proofs.UpwardWalks
import DidYouMean.Proofs.Vendored
import DidYouMean.Proofs.WorkspaceDepth
