import Layering.Assembly
import Layering.Catalog
import Layering.CommandLine.Arguments
import Layering.CommandLine.Command
import Layering.CommandLine.Display
import Layering.CommandLine.Session
import Layering.Configuration
import Layering.Console
import Layering.Descriptor
import Layering.Document
import Layering.Document.Json
import Layering.Entries
import Layering.Failure
import Layering.Inspection.Detector
import Layering.Inspection.Discovery
import Layering.Inspection.Rules
import Layering.Inspection.Scan
import Layering.Java.Declaration
import Layering.Java.Header
import Layering.Java.Import
import Layering.Java.Lexing
import Layering.Java.Outlining
import Layering.Java.Signature
import Layering.Java.SyntaxError
import Layering.Java.Token
import Layering.Layer
import Layering.Number.Shortest
import Layering.Path
import Layering.Remediation.Forest
import Layering.Remediation.Job
import Layering.Remediation.Lane
import Layering.Remediation.Pool
import Layering.Remediation.Run
import Layering.Repair.Context
import Layering.Repair.Fixer
import Layering.Repair.FixerTable
import Layering.Repair.ReturnTypes
import Layering.Repair.Scaffolding
import Layering.Repair.WrapperFiles
import Layering.Reporting
import Layering.Rule
import Layering.Scaffold
import Layering.Settings
import Layering.Snapshot.InMemory
import Layering.Snapshot.Registry
import Layering.Snapshot.Staged
import Layering.Snapshot.Strategy
import Layering.Snapshot.Transaction
import Layering.Text.Basic
import Layering.Text.Case
import Layering.Text.Letters
import Layering.Text.Printable
import Layering.Text.Quoted
import Layering.Text.Search
import Layering.Text.Utf8
import Layering.TypeMapping
import Layering.Violation
import Layering.Workspace.Action
import Layering.Workspace.Fault
import Layering.Workspace.Site
import Layering.Workspace.Tree
import Layering.Wrapper
import Layering.Yaml.Plain
import Layering.Yaml.Reading
import Layering.Yaml.Source
import Layering.Yaml.Word
import Layering.Main
import Layering.Proofs.Grouping
import Layering.Proofs.Lanes
import Layering.Proofs.Actions
import Layering.Proofs.Attempts
import Layering.Proofs.Effects
import Layering.Proofs.Encoding
import Layering.Proofs.Ranking
import Layering.Proofs.Remembering
import Layering.Proofs.Reports
import Layering.Proofs.Rollback
import Layering.Proofs.Pending
import Layering.Proofs.Abandonment
import Layering.Proofs.DryRuns
import Layering.Proofs.Accounts
import Layering.Proofs.BrokenRepairs
import Layering.Proofs.DeclaredStaging
import Layering.Proofs.ImportLines
import Layering.Proofs.Listings
import Layering.Proofs.NewDescriptors
import Layering.Proofs.DeclaredValues
import Layering.Proofs.RepeatedRepairs
import Layering.Proofs.Findings
import Layering.Proofs.Rescans
import Layering.Proofs.KeptSnapshots
import Layering.Proofs.Settling
import Layering.Proofs.NullReturns
import Layering.Proofs.Tiling
import Layering.Proofs.Abreast
import Layering.Proofs.Lockstep
import Layering.Proofs.Templates
import Layering.Proofs.Renamings
import Layering.Proofs.FlaggedMethods
import Layering.Proofs.Layouts
import Layering.Proofs.Reconciling
import Layering.Proofs.NamedClasses
import Layering.Proofs.FailedSnapshots
import Layering.Proofs.Grammar
import Layering.Proofs.HeaderReading
import Layering.Proofs.InitializedFields
import Layering.Proofs.Literals
import Layering.Proofs.Printing
import Layering.Proofs.AddedModules
import Layering.Proofs.Coordinates
import Layering.Proofs.ModuleLists
import Layering.Proofs.Registrations
import Layering.Proofs.GoverningFiles
import Layering.Proofs.Discovered
import Layering.Proofs.PatchedLines
import Layering.Proofs.LastingTargets
import Layering.Proofs.AnyOrder
import Layering.Proofs.WholeFiles
import Layering.Proofs.OpenBraces
import Layering.Proofs.Neighbours
