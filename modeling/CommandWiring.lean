import CommandWiring.Catalogue
import CommandWiring.Java.Reader
import CommandWiring.Node.Graph
import CommandWiring.Proofs.Alike
import CommandWiring.Proofs.AlikeDocuments
import CommandWiring.Proofs.AncestorSearches
import CommandWiring.Proofs.BinderFreeClasses
import CommandWiring.Proofs.BinderSites
import CommandWiring.Proofs.ByteOrder
import CommandWiring.Proofs.CallArguments
import CommandWiring.Proofs.ChainLengths
import CommandWiring.Proofs.Chains
import CommandWiring.Proofs.CodeContexts
import CommandWiring.Proofs.CommandLambdas
import CommandWiring.Proofs.CommandTypes
import CommandWiring.Proofs.CompoundNames
import CommandWiring.Proofs.ConstructorOwners
import CommandWiring.Proofs.ConstructorScopes
import CommandWiring.Proofs.Containment
import CommandWiring.Proofs.CreatedTypes
import CommandWiring.Proofs.Descent
import CommandWiring.Proofs.DirectoryPatterns
import CommandWiring.Proofs.Extents
import CommandWiring.Proofs.FileNames
import CommandWiring.Proofs.FileReports
import CommandWiring.Proofs.FileSystems
import CommandWiring.Proofs.FoundCommands
import CommandWiring.Proofs.JsonText
import CommandWiring.Proofs.LayoutViews
import CommandWiring.Proofs.Layouts
import CommandWiring.Proofs.Leaves
import CommandWiring.Proofs.LongerChains
import CommandWiring.Proofs.MentionedTypes
import CommandWiring.Proofs.MoreTypes
import CommandWiring.Proofs.Outcomes
import CommandWiring.Proofs.Paths
import CommandWiring.Proofs.Places
import CommandWiring.Proofs.Positions
import CommandWiring.Proofs.RelativePaths
import CommandWiring.Proofs.ReportIds
import CommandWiring.Proofs.ReportOrder
import CommandWiring.Proofs.Reports
import CommandWiring.Proofs.Roots
import CommandWiring.Proofs.ScanAccounts
import CommandWiring.Proofs.ScanOrder
import CommandWiring.Proofs.Separators
import CommandWiring.Proofs.SimpleNames
import CommandWiring.Proofs.Slots
import CommandWiring.Proofs.Supertypes
import CommandWiring.Proofs.TextLines
import CommandWiring.Proofs.Twins
import CommandWiring.Proofs.TypeMentions
import CommandWiring.Proofs.TypeWords
import CommandWiring.Proofs.Unwinding
import CommandWiring.Proofs.View
import CommandWiring.Proofs.Visibility
import CommandWiring.Proofs.Visits
import CommandWiring.Proofs.Walk
import CommandWiring.Proofs.Warnings
import CommandWiring.Proofs.WellFormedReports
import CommandWiring.Proofs.WorkspaceListing
import CommandWiring.Proofs.WorkspaceScans
import CommandWiring.Proofs.WorkspaceSources
import CommandWiring.Proofs.WrappedViews
import CommandWiring.Proofs.Wrapping
import CommandWiring.Proofs.WrittenNames
import CommandWiring.Proofs.WrittenReports
import CommandWiring.Report.Describe
import CommandWiring.Report.Encoding
import CommandWiring.Workspace.Scan
