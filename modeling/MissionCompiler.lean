import MissionCompiler.Names.Stable
import MissionCompiler.Schema.MetadataWalk
import MissionCompiler.Loading.Strict
import MissionCompiler.Policy.Command
import MissionCompiler.Policy.TypedPlans
import MissionCompiler.Compile.Timeline
import MissionCompiler.Render.Quantity
import MissionCompiler.Render.Renderable
import MissionCompiler.Cli.DocumentCheck
import MissionCompiler.Cli.Guidance
import MissionCompiler.Cli.History
import MissionCompiler.Cli.Input
import MissionCompiler.Cli.LockedRuns
import MissionCompiler.Cli.Staging
import MissionCompiler.Experiments.Runner
import MissionCompiler.Publish.AtomicWrite
import MissionCompiler.Publish.Interrupted
import MissionCompiler.Mcp.OneGate
import MissionCompiler.Reading.Loaded
import MissionCompiler.Reading.Refused
import MissionCompiler.Reading.RoundTrip
