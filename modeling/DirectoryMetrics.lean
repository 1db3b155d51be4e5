import DirectoryMetrics.Collection.Collecting
import DirectoryMetrics.Collection.Compiler
import DirectoryMetrics.Collection.Directory
import DirectoryMetrics.Collection.MetricSet
import DirectoryMetrics.Collection.Registry
import DirectoryMetrics.Collection.Scheduler
import DirectoryMetrics.Collection.Statistic
import DirectoryMetrics.CommandLine
import DirectoryMetrics.Configuration.Error
import DirectoryMetrics.Configuration.Load
import DirectoryMetrics.Configuration.Pipeline
import DirectoryMetrics.Configuration.Settings
import DirectoryMetrics.Decimal.Binary
import DirectoryMetrics.Decimal.Reading
import DirectoryMetrics.Decimal.Shortest
import DirectoryMetrics.Decimal.Style
import DirectoryMetrics.Main
import DirectoryMetrics.Metrics.Exposition
import DirectoryMetrics.Metrics.Family
import DirectoryMetrics.Metrics.Quantity
import DirectoryMetrics.Metrics.SeriesHash
import DirectoryMetrics.Metrics.Sorted
import DirectoryMetrics.Metrics.Store
import DirectoryMetrics.Metrics.TimeSeries
import DirectoryMetrics.Metrics.View
import DirectoryMetrics.Network.Host
import DirectoryMetrics.Network.Ip
import DirectoryMetrics.Network.Punycode
import DirectoryMetrics.Network.Uri
import DirectoryMetrics.Proofs.Tree.Mapping
import DirectoryMetrics.Proofs.Tree.Walk
import DirectoryMetrics.Text.Blank
import DirectoryMetrics.Text.Letter
import DirectoryMetrics.Text.Octets
import DirectoryMetrics.Text.Printable
import DirectoryMetrics.Text.Quoted
import DirectoryMetrics.Time.Duration
import DirectoryMetrics.Time.Instant
import DirectoryMetrics.Time.Phrase
import DirectoryMetrics.Tree.ChildSlots
import DirectoryMetrics.Tree.Field
import DirectoryMetrics.Tree.KeySpelling
import DirectoryMetrics.Tree.MetricPath
import DirectoryMetrics.Tree.Node
import DirectoryMetrics.Tree.ObjectDn
import DirectoryMetrics.Tree.ObjectTree
import DirectoryMetrics.Tree.Placeholder
import DirectoryMetrics.Tree.Reader
import DirectoryMetrics.Tree.SharedObject
import DirectoryMetrics.Tree.Traversal
import DirectoryMetrics.Tree.Walk
import DirectoryMetrics.Yaml.Block
import DirectoryMetrics.Yaml.Character
import DirectoryMetrics.Yaml.Document
import DirectoryMetrics.Yaml.Fault
import DirectoryMetrics.Yaml.Folding
import DirectoryMetrics.Yaml.Form
import DirectoryMetrics.Yaml.Grammar
import DirectoryMetrics.Yaml.Plain
import DirectoryMetrics.Yaml.Property
import DirectoryMetrics.Yaml.Quotation
import DirectoryMetrics.Yaml.Scalar
import DirectoryMetrics.Yaml.Token
import DirectoryMetrics.Yaml.TokenStream
import DirectoryMetrics.Proofs.Tree.Annotation
import DirectoryMetrics.Proofs.Tree.Disambiguation
import DirectoryMetrics.Proofs.Tree.ChildNames
import DirectoryMetrics.Proofs.Collection.StatisticDescent
import DirectoryMetrics.Proofs.Configuration.Preparation
import DirectoryMetrics.Proofs.Collection.Compilation
import DirectoryMetrics.Proofs.Collection.PreparedStatistics
import DirectoryMetrics.Proofs.Collection.Connections
import DirectoryMetrics.Proofs.Collection.Reload
import DirectoryMetrics.Proofs.Collection.MetricRows
import DirectoryMetrics.Proofs.Metrics.Aggregate
import DirectoryMetrics.Proofs.Metrics.Scrape
import DirectoryMetrics.Proofs.Metrics.Agreement
import DirectoryMetrics.Proofs.Collection.Replacement
import DirectoryMetrics.Proofs.Scheduler.Ticks
import DirectoryMetrics.Proofs.Scheduler.Runs
import DirectoryMetrics.Proofs.Scheduler.Rounds
import DirectoryMetrics.Proofs.Scheduler.Phases
import DirectoryMetrics.Proofs.Scheduler.Execution
import DirectoryMetrics.Proofs.Scheduler.Updates
import DirectoryMetrics.Proofs.Scheduler.TickTimes
import DirectoryMetrics.Proofs.Collection.Delivery
import DirectoryMetrics.Proofs.Collection.Lifetime
import DirectoryMetrics.Proofs.Metrics.Commutation
import DirectoryMetrics.Proofs.Metrics.SingleLabel
import DirectoryMetrics.Proofs.Collection.TickOrder
import DirectoryMetrics.Proofs.Tree.MovedNames
import DirectoryMetrics.Proofs.Configuration.MetricNames
import DirectoryMetrics.Proofs.Tree.ListedServers
import DirectoryMetrics.Proofs.Tree.Visits
import DirectoryMetrics.Proofs.Tree.Expansion
import DirectoryMetrics.Proofs.Configuration.Lookups
import DirectoryMetrics.Proofs.Tree.Lineage
import DirectoryMetrics.Proofs.Configuration.NameHierarchy
import DirectoryMetrics.Proofs.Configuration.Idempotence
import DirectoryMetrics.Proofs.Collection.Independence
import DirectoryMetrics.Proofs.Metrics.Cumulative
import DirectoryMetrics.Proofs.Collection.ExpandedStatistics
import DirectoryMetrics.Proofs.Configuration.ServerNames
import DirectoryMetrics.Proofs.Collection.LookupServers
import DirectoryMetrics.Proofs.Tree.FieldMaps
import DirectoryMetrics.Proofs.Configuration.ChangedReading
import DirectoryMetrics.Proofs.Configuration.ExpandedReading
import DirectoryMetrics.Proofs.Configuration.Redaction
import DirectoryMetrics.Proofs.Collection.Secrecy
import DirectoryMetrics.Proofs.Metrics.RegistrationRule
import DirectoryMetrics.Proofs.Collection.Acceptance
import DirectoryMetrics.Proofs.Tree.Ancestry
import DirectoryMetrics.Proofs.Configuration.DistinguishedNames
import DirectoryMetrics.Proofs.Tree.Context
import DirectoryMetrics.Proofs.Configuration.NamePaths
import DirectoryMetrics.Proofs.Collection.Isolation
import DirectoryMetrics.Proofs.Tree.KeyNames
import DirectoryMetrics.Proofs.Metrics.Requests
import DirectoryMetrics.Proofs.Tree.Respelling
import DirectoryMetrics.Proofs.Tree.Relocation
import DirectoryMetrics.Proofs.Configuration.RelocatedChildren
import DirectoryMetrics.Proofs.Tree.Segments
import DirectoryMetrics.Proofs.Tree.Addresses
import DirectoryMetrics.Proofs.Tree.Recursion
import DirectoryMetrics.Proofs.Tree.EndingWalks
import DirectoryMetrics.Proofs.Tree.PreOrder
import DirectoryMetrics.Proofs.Tree.StackWalks
