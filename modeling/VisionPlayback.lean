import VisionPlayback.Lib.Transition
import VisionPlayback.Domain
import VisionPlayback.Lib.Drain
import VisionPlayback.Lib.Table
import VisionPlayback.Login
import VisionPlayback.StreamCache
import VisionPlayback.Processor.Handlers
import VisionPlayback.Processor.Machine
import VisionPlayback.Processor.Ownership
import VisionPlayback.Lib.Refcount
import VisionPlayback.Processor.Exports
import VisionPlayback.Processor.Readiness
import VisionPlayback.Processor.History
import VisionPlayback.Processor.Completeness
import VisionPlayback.Processor.Sessions
import VisionPlayback.Http.Daemon
import VisionPlayback.Http.Mirror
import VisionPlayback.Http.Polling
import VisionPlayback.Http.Staleness
import VisionPlayback.Lib.Ledger
import VisionPlayback.CameraSessions
import VisionPlayback.Eviction
import VisionPlayback.KeyInput
import VisionPlayback.Http.Payload
import VisionPlayback.Http.ClipWindow
import VisionPlayback.Http.Downloads
import VisionPlayback.Http.TempFiles
import VisionPlayback.Http.Watching
import VisionPlayback.Processor.Capacity
import VisionPlayback.Processor.Renewal
import VisionPlayback.Http.ApiKey
import VisionPlayback.Http.StaticFiles
import VisionPlayback.Session
import VisionPlayback.HCNetSDKDownloader
import VisionPlayback.FfmpegProcess
import VisionPlayback.Lib.Latch
import VisionPlayback.Http.Settling
import VisionPlayback.Http.StatusTrace
import VisionPlayback.Lib.Refinement
import VisionPlayback.Lib.Roster
import VisionPlayback.Workers.Refinement
import VisionPlayback.Http.Server
import VisionPlayback.Http.Links
import VisionPlayback.Http.Authority
import VisionPlayback.Http.Budget
import VisionPlayback.Http.Provenance
import VisionPlayback.Http.Recording
import VisionPlayback.HCNetSDKAuthenticator
import VisionPlayback.Workers.Handles
import VisionPlayback.Lib.Holders
import VisionPlayback.Passes
import VisionPlayback.Workers.Shutdown
import VisionPlayback.Workers.Program
