import ScriptBundle.Bytes
import ScriptBundle.Hexadecimal
import ScriptBundle.Varint
import ScriptBundle.Records
import ScriptBundle.DataSection
import ScriptBundle.Fault
import ScriptBundle.PortableExecutable
import ScriptBundle.OpenImage
import ScriptBundle.Path
import ScriptBundle.Platform
import ScriptBundle.FileSystem
import ScriptBundle.Cipher
import ScriptBundle.Compression.Zlib
import ScriptBundle.Block
import ScriptBundle.Engine.PropertyStore
import ScriptBundle.Config.Scripting
import ScriptBundle.Diagnostics
import ScriptBundle.Json.Reader
import ScriptBundle.Script.Encoding
import ScriptBundle.Schedule.Supervisor
import ScriptBundle.Schedule.Runner
import ScriptBundle.Config.Files
import ScriptBundle.Config.Directive
import ScriptBundle.Artifact.Plan
import ScriptBundle.Artifact.Launch
import ScriptBundle.Main
import ScriptBundle.Proofs.Artifact.Launch
import ScriptBundle.Proofs.Schedule.ExitCode
import ScriptBundle.Proofs.Script.Loading
import ScriptBundle.Proofs.Artifact.DirectLoad
import ScriptBundle.Proofs.Artifact.Header
import ScriptBundle.Proofs.Artifact.SectionTable
import ScriptBundle.Proofs.Artifact.Console
import ScriptBundle.Proofs.Layout.Limits
import ScriptBundle.Proofs.Artifact.SlotCount
import ScriptBundle.Proofs.Schedule.Wakeups
import ScriptBundle.Proofs.Schedule.Terminated
import ScriptBundle.Proofs.Schedule.Cancellation
import ScriptBundle.Proofs.Artifact.Readability
import ScriptBundle.Proofs.Schedule.Exceptions
import ScriptBundle.Proofs.Schedule.RecyclingRuns
import ScriptBundle.Proofs.Schedule.SharedPool
import ScriptBundle.Proofs.Artifact.FailedLoad
import ScriptBundle.Proofs.Compression.Truncation
import ScriptBundle.Proofs.Layout.Spellings
import ScriptBundle.Proofs.Schedule.Deadlines
import ScriptBundle.Proofs.Artifact.Completeness
import ScriptBundle.Streaming.Library
import ScriptBundle.Streaming.Reader
import ScriptBundle.Proofs.Streaming.Mirrors
import ScriptBundle.Proofs.Streaming.RoundTrip
import ScriptBundle.Streaming.Decoding
import ScriptBundle.Proofs.Streaming.Decoding
import ScriptBundle.Proofs.Schedule.Rounds
import ScriptBundle.Proofs.Schedule.Queueing
import ScriptBundle.Proofs.Schedule.Sleepers
import ScriptBundle.Proofs.Schedule.Lineage
import ScriptBundle.Proofs.Schedule.Reprogramming
import ScriptBundle.Proofs.Schedule.AtExit
import ScriptBundle.Proofs.Schedule.Completion
import ScriptBundle.Proofs.Artifact.Ending
import ScriptBundle.Proofs.Artifact.FailedBuild
import ScriptBundle.Proofs.Artifact.StubSafety
import ScriptBundle.Proofs.Toml.Quoted
import ScriptBundle.Proofs.Toml.Values
import ScriptBundle.Proofs.Toml.RoundTrip
import ScriptBundle.Proofs.Config.RoundTrip
import ScriptBundle.Proofs.Layout.Groups
import ScriptBundle.Proofs.Layout.Tampering
import ScriptBundle.Proofs.Layout.Cuts
import ScriptBundle.Proofs.Script.Lengths
import ScriptBundle.Proofs.Artifact.Cuts
import ScriptBundle.Proofs.Layout.Grammar
import ScriptBundle.Proofs.Artifact.ImageEnd
import ScriptBundle.Proofs.Artifact.Patches
import ScriptBundle.Proofs.Text.Words
import ScriptBundle.Proofs.Config.Directives
import ScriptBundle.Proofs.Diagnostics.Batches
import ScriptBundle.Proofs.Files.Extensions
import ScriptBundle.Proofs.CommandLine.OutputName
import ScriptBundle.Proofs.Config.Options
import ScriptBundle.Proofs.Schedule.PoolStates
import ScriptBundle.Proofs.Schedule.Preparation
