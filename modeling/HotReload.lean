import HotReload.BuildContext
import HotReload.CommandLine.Arguments
import HotReload.CommandLine.OneShot
import HotReload.CommandLine.Run
import HotReload.Config.Basic
import HotReload.Config.Diagnostics
import HotReload.Config.Loading
import HotReload.Config.Schema
import HotReload.Config.Validation
import HotReload.FileKind
import HotReload.FileSystem.Tree
import HotReload.FileSystem.View
import HotReload.Impact
import HotReload.Json.Number
import HotReload.Json.Printer
import HotReload.Json.Reader
import HotReload.Json.Record
import HotReload.Json.Skip
import HotReload.Json.Typed
import HotReload.Json.Value
import HotReload.Main
import HotReload.Module
import HotReload.Path.Ancestors
import HotReload.Path.Basic
import HotReload.Path.Folding
import HotReload.Path.Quoted
import HotReload.Path.SiteUrl
import HotReload.Payload
import HotReload.Registry
import HotReload.Registry.Reach
import HotReload.Snapshot
import HotReload.Snapshot.Text
import HotReload.StyleChanges
import HotReload.StyleMap
import HotReload.Terminal.Ansi
import HotReload.Terminal.Log
import HotReload.Terminal.Output
import HotReload.Terminal.StatusBlock
import HotReload.Text.ByteOrder
import HotReload.Text.Hexadecimal
import HotReload.Text.Numeral
import HotReload.Text.Parsed
import HotReload.Text.Shown
import HotReload.Text.Utf8
import HotReload.Toml.Lexeme
import HotReload.Toml.Number
import HotReload.Toml.Reader
import HotReload.Toml.Tree
import HotReload.Watch.Cycle
import HotReload.Watch.Debounce
import HotReload.Watch.Report
import HotReload.Watch.Session
import HotReload.Proofs.Reachability
import HotReload.Proofs.ByteOrder
import HotReload.Proofs.Impact
import HotReload.Proofs.WatchLoop
import HotReload.Proofs.JsonText
import HotReload.Proofs.LogLines
import HotReload.Proofs.StandardOutput
import HotReload.Proofs.PathComponents
import HotReload.Proofs.RepeatedDirs
import HotReload.Proofs.CycleOutcomes
import HotReload.Proofs.JsonStrings
import HotReload.Proofs.CompactText
import HotReload.Proofs.PayloadParts
import HotReload.Proofs.Records
import HotReload.Proofs.AlikeRecords
import HotReload.Proofs.PayloadKeys
import HotReload.Proofs.Presentation
import HotReload.Proofs.DebounceHistory
import HotReload.Json.Grammar
import HotReload.Proofs.CutText
import HotReload.Proofs.Reading
import HotReload.Proofs.ReaderSteps
import HotReload.Proofs.MoreText
import HotReload.Proofs.TornSnapshots
import HotReload.Proofs.WrittenForms
import HotReload.Proofs.ReadingBack
import HotReload.Proofs.RoundTrips
import HotReload.Proofs.ReadValues
import HotReload.Json.WellFormed
import HotReload.Json.Layout
import HotReload.Snapshot.Layout
import HotReload.Proofs.SkippedValues
import HotReload.Proofs.EntryReaders
import HotReload.Proofs.TypedForms
import HotReload.Proofs.RecordLayouts
import HotReload.Proofs.SnapshotLayouts
import HotReload.Proofs.MemberParts
import HotReload.Proofs.StyleMaps
import HotReload.Proofs.StyleOrder
import HotReload.Proofs.RootDirectory
import HotReload.Proofs.LoadedConfig
import HotReload.Config.Undeclared
import HotReload.Proofs.DistinctKeys
import HotReload.Proofs.UnknownKeys
import HotReload.Registry.Requests
import HotReload.Proofs.LastWriter
import HotReload.Watch.Starts
import HotReload.Proofs.CycleStarts
import HotReload.Proofs.Folding
import HotReload.Proofs.ComponentPaths
import HotReload.Proofs.RelativePaths
import HotReload.Proofs.SiteUrls
import HotReload.Proofs.SearchTurns
import HotReload.Proofs.SheetUrls
import HotReload.Proofs.SleepTime
import HotReload.Terminal.StatusCalls
import HotReload.Proofs.StatusCalls
import HotReload.Proofs.NormalForms
import HotReload.Proofs.Parents
import HotReload.Proofs.NearestFile
import HotReload.Payload.Calls
import HotReload.Proofs.PayloadCalls
import HotReload.Proofs.ReportedProblems
