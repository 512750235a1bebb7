import AppearanceSync.Client
import AppearanceSync.Main
import AppearanceSync.Proofs.Registry.Table
import AppearanceSync.Proofs.Registry.Deeds
import AppearanceSync.Proofs.Registry.Courses
import AppearanceSync.Proofs.Ledger
import AppearanceSync.Proofs.Registry.Chronicle
import AppearanceSync.Proofs.Hub.Basic
import AppearanceSync.Proofs.Hub.Announcements
import AppearanceSync.Proofs.Snapshot
import AppearanceSync.Proofs.Hub.Stream
import AppearanceSync.Proofs.Hub.Delivery
import AppearanceSync.Proofs.Hub.Sessions
import AppearanceSync.Proofs.Replica.Slots
import AppearanceSync.Proofs.Replica.Effects
import AppearanceSync.Proofs.Replica.Settling
import AppearanceSync.Proofs.Replica.Growth
import AppearanceSync.Proofs.Replica.Consistency
import AppearanceSync.Proofs.Replica.Descent
import AppearanceSync.Proofs.Replica.Tracking
import AppearanceSync.Proofs.Mirror
import AppearanceSync.Proofs.Following
import AppearanceSync.Proofs.Codec.Laws
import AppearanceSync.Proofs.Wire.Laws
import AppearanceSync.Proofs.Wire.Message
import AppearanceSync.Proofs.Hash
import AppearanceSync.Proofs.Identity
import AppearanceSync.Proofs.Wire.Edits
import AppearanceSync.Proofs.Replica.Pending
import AppearanceSync.Proofs.Replica.Watched
import AppearanceSync.Proofs.Replica.Reports
import AppearanceSync.Proofs.Replica.Callbacks
import AppearanceSync.Proofs.Unfolding
import AppearanceSync.Proofs.Replica.Arrival
import AppearanceSync.Proofs.Scene.Basic
import AppearanceSync.Proofs.Scene.Liveness
import AppearanceSync.Proofs.Registry.Interning
import AppearanceSync.Proofs.Scene.Interning
import AppearanceSync.Proofs.Replica.Animations
import AppearanceSync.Proofs.Scene.Animations
import AppearanceSync.Proofs.ByteStream
import AppearanceSync.Proofs.Wire.Sizes
import AppearanceSync.Proofs.Frame
import AppearanceSync.Proofs.Pump
import AppearanceSync.Proofs.Replica.Cycles
import AppearanceSync.Proofs.Json.Number
import AppearanceSync.Proofs.Json.Text
import AppearanceSync.Proofs.Json.Form
import AppearanceSync.Proofs.Json.Fields
import AppearanceSync.Proofs.Wire.FlagText
import AppearanceSync.Proofs.Wire.Json
import AppearanceSync.Proofs.Icon.Basic
import AppearanceSync.Proofs.Icon.Sampling
import AppearanceSync.Proofs.Icon.Timing
import AppearanceSync.Proofs.Icon.Schedule
import AppearanceSync.Proofs.Client.Bindings
import AppearanceSync.Proofs.Shader.Cache
import AppearanceSync.Proofs.Shader.Rendering
import AppearanceSync.Proofs.Shader.Sweeping
import AppearanceSync.Proofs.Shader.Binding
import AppearanceSync.Proofs.Visibility
import AppearanceSync.Proofs.Replica.Replacement
import AppearanceSync.Proofs.Scene.Changing
import AppearanceSync.Proofs.Resolution
import AppearanceSync.Proofs.Replica.Copies
import AppearanceSync.Proofs.Nesting
import AppearanceSync.Proofs.Scene.Refusal
import AppearanceSync.Proofs.Registry.Counting
import AppearanceSync.Proofs.Scene.Statistics
import AppearanceSync.Proofs.Entity
import AppearanceSync.Proofs.Registry.Leaves
import AppearanceSync.Proofs.Server.Basic
import AppearanceSync.Proofs.Server.Commands
