import EngineMigrate.Command.Grammar
import EngineMigrate.Command.Invocation
import EngineMigrate.Command.Run
import EngineMigrate.Decimal.Binary64
import EngineMigrate.Decimal.Shortest
import EngineMigrate.Driver.Apply
import EngineMigrate.Driver.Driver
import EngineMigrate.Driver.Session
import EngineMigrate.Json.Document
import EngineMigrate.Json.Members
import EngineMigrate.Json.Number
import EngineMigrate.Json.Printer
import EngineMigrate.Json.Reader
import EngineMigrate.Json.Value
import EngineMigrate.Local.Creation
import EngineMigrate.Local.FileTree
import EngineMigrate.Local.Migration
import EngineMigrate.Local.OperationFile
import EngineMigrate.Local.Plan
import EngineMigrate.Local.Source
import EngineMigrate.Local.VersionSet
import EngineMigrate.Main
import EngineMigrate.Project.Config
import EngineMigrate.Project.ConfigFile
import EngineMigrate.Project.Endpoint
import EngineMigrate.Project.Metadata
import EngineMigrate.Project.Seeds
import EngineMigrate.Proofs.Agreement
import EngineMigrate.Proofs.Bootstrap
import EngineMigrate.Proofs.ClientTask
import EngineMigrate.Proofs.ClientWork
import EngineMigrate.Proofs.Conversation
import EngineMigrate.Proofs.Desk
import EngineMigrate.Proofs.DriverTraffic
import EngineMigrate.Proofs.FailedCommit
import EngineMigrate.Proofs.FaultTrace
import EngineMigrate.Proofs.Fleet
import EngineMigrate.Proofs.HonestServer
import EngineMigrate.Proofs.LedgerChain
import EngineMigrate.Proofs.LedgerClient
import EngineMigrate.Proofs.LedgerLayout
import EngineMigrate.Proofs.LedgerNetwork
import EngineMigrate.Proofs.LedgerTraffic
import EngineMigrate.Proofs.LedgerUpdate
import EngineMigrate.Proofs.LegacyUpgrade
import EngineMigrate.Proofs.PlanBasis
import EngineMigrate.Proofs.PlanOutcome
import EngineMigrate.Proofs.PlanRaces
import EngineMigrate.Proofs.Routing
import EngineMigrate.Proofs.ServerRecords
import EngineMigrate.Proofs.SqlLiteral
import EngineMigrate.Proofs.Statement
import EngineMigrate.Proofs.TablesTraffic
import EngineMigrate.Proofs.TrackerAgreement
import EngineMigrate.Proofs.WillingServer
import EngineMigrate.Server.Bulk
import EngineMigrate.Server.Exchange
import EngineMigrate.Server.FaultPath
import EngineMigrate.Server.Operation
import EngineMigrate.Server.Probe
import EngineMigrate.Server.Release
import EngineMigrate.Server.Response
import EngineMigrate.Text.Cut
import EngineMigrate.Text.Printable
import EngineMigrate.Text.Unsigned
import EngineMigrate.Text.Utf8
import EngineMigrate.Tracking.CatalogTracker
import EngineMigrate.Tracking.Change
import EngineMigrate.Tracking.Ledger
import EngineMigrate.Tracking.Tables
import EngineMigrate.Tracking.Tracker
import EngineMigrate.Url.Address
import EngineMigrate.Url.Encoding
import EngineMigrate.Url.Host
import EngineMigrate.Url.Parser
import EngineMigrate.Url.Path
import EngineMigrate.Url.Punycode
import EngineMigrate.Yaml.Block
import EngineMigrate.Yaml.Node
import EngineMigrate.Yaml.Printer
import EngineMigrate.Yaml.Quoted
import EngineMigrate.Yaml.Scalar
import EngineMigrate.Yaml.Text
import EngineMigrate.Yaml.Token
import EngineMigrate.Yaml.Value
import EngineMigrate.Proofs.PlanStaging
import EngineMigrate.Proofs.LocalFailure
import EngineMigrate.Proofs.ReadOnly
import EngineMigrate.Proofs.SecondRun
import EngineMigrate.Proofs.LedgerRewrite
import EngineMigrate.Proofs.DirectoryTree
import EngineMigrate.Proofs.DirectoryScan
import EngineMigrate.Proofs.LiveSessions
import EngineMigrate.Proofs.PathLocation
import EngineMigrate.Proofs.TreeGrowth
import EngineMigrate.Proofs.NewMigration
import EngineMigrate.Proofs.SettingTraffic
import EngineMigrate.Proofs.ResumedBootstrap
import EngineMigrate.Proofs.DriverUse
import EngineMigrate.Proofs.StoredSetting
import EngineMigrate.Proofs.CountedTargets
import EngineMigrate.Proofs.DryRun
import EngineMigrate.Proofs.PlanFaults
import EngineMigrate.Proofs.LegacyContent
import EngineMigrate.Proofs.BlamedPart
import EngineMigrate.Proofs.FailedCreation
import EngineMigrate.Proofs.SentSeeds
import EngineMigrate.Proofs.FileAttribution
import EngineMigrate.Proofs.NameGrammar
import EngineMigrate.Proofs.PathNames
import EngineMigrate.Proofs.SeedDirectory
import EngineMigrate.Proofs.LedgerEntries
import EngineMigrate.Proofs.OperationForm
import EngineMigrate.Proofs.SessionContent
import EngineMigrate.Proofs.JsonText
import EngineMigrate.Proofs.MetadataExport
import EngineMigrate.Proofs.ReleaseText
import EngineMigrate.Proofs.ReleaseOrder
import EngineMigrate.Proofs.StatusRows
import EngineMigrate.Proofs.UrlPath
import EngineMigrate.Proofs.UrlReference
import EngineMigrate.Proofs.UrlForm
import EngineMigrate.Proofs.EndpointReach
import EngineMigrate.Proofs.LiteralPath
import EngineMigrate.Proofs.FaultPathGrammar
import EngineMigrate.Proofs.VersionWalk
