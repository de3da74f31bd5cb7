import Statechart.Dict
import Statechart.Value
import Statechart.Hex
import Statechart.Uuid
import Statechart.Path
import Statechart.Event
import Statechart.Event.Format
import Statechart.Config
import Statechart.Config.Format
import Statechart.Json.Text
import Statechart.Json.Numeral
import Statechart.Json.Printer
import Statechart.Json.Reader
import Statechart.State
import Statechart.State.Format
import Statechart.Factory
import Statechart.Cases
import Statechart.Table
import Statechart.History
import Statechart.Listeners
import Statechart.Listeners.Script
import Statechart.Shape
import Statechart.Shape.Format
import Statechart.Definition
import Statechart.Definition.Problem
import Statechart.Definition.PathIndex
import Statechart.Definition.Validation
import Statechart.Flat
import Statechart.Flat.Format
import Statechart.Flat.Machine
import Statechart.Builder
import Statechart.Blueprint
import Statechart.Enumeration
import Statechart.Machine
import Statechart.Definition.Hierarchy
import Statechart.World
import Statechart.World.Construction
import Statechart.World.Transition
import Statechart.World.Routing
import Statechart.World.Hierarchy
import Statechart.Session.Script
import Statechart.Session.Desk
import Statechart.Session.Perform
import Statechart.Session.Run
import Statechart.Session.Bench
import Statechart.Proofs.Act
import Statechart.Proofs.Path
import Statechart.Proofs.Listeners.Depth
import Statechart.Proofs.Listeners.Log
import Statechart.Proofs.Listeners.Rounds
import Statechart.Proofs.Listeners.Trace
import Statechart.Proofs.Definition.Levels
import Statechart.Proofs.Definition.Soundness
import Statechart.Proofs.Definition.Places
import Statechart.Proofs.Definition.Search
import Statechart.Proofs.Definition.Check
import Statechart.Proofs.Definition.Reports
import Statechart.Proofs.Definition.Endless
import Statechart.Proofs.Definition.Position
import Statechart.Proofs.Definition.Drain
import Statechart.Proofs.Definition.Walk
import Statechart.Proofs.Definition.Index
import Statechart.Proofs.Ancestry
import Statechart.Proofs.Factory
import Statechart.Proofs.Parts
import Statechart.Proofs.World.Frame
import Statechart.Proofs.World.Level
import Statechart.Proofs.World.Stands
import Statechart.Proofs.World.Turn
import Statechart.Proofs.World.Chain
import Statechart.Proofs.World.Routing
import Statechart.Proofs.World.Hierarchy
import Statechart.Proofs.Flat.Answers
import Statechart.Proofs.Flat.Machine
import Statechart.Proofs.Flat.Run
import Statechart.Proofs.Agreement
import Statechart.Proofs.Closure
import Statechart.Proofs.Definition.Identity
import Statechart.Proofs.Definition.Resolution
import Statechart.Proofs.Definition.Initials
import Statechart.Proofs.Definition.Scoping
import Statechart.Proofs.Flat.Lookup
import Statechart.Proofs.Flat.Inventory
import Statechart.Proofs.World.Tidy
import Statechart.Proofs.Registration
import Statechart.Proofs.Touch
import Statechart.Proofs.Delivery
import Statechart.Proofs.Flat.Scan
import Statechart.Proofs.Flat.Gate
import Statechart.Proofs.Flat.Collisions
import Statechart.Proofs.Flat.Clashes
import Statechart.Proofs.Flat.Sends
import Statechart.Proofs.Flat.Entering
import Statechart.Proofs.Flat.Requests
import Statechart.Proofs.Flat.Queue
import Statechart.Proofs.Flat.Exits
import Statechart.Proofs.Flat.Sitting
import Statechart.Proofs.Flat.StaleExits
import Statechart.Proofs.Upholding
import Statechart.Proofs.Mirroring
import Statechart.Proofs.Flat.Unwatched
import Statechart.Proofs.Flat.Shadowing
import Statechart.Proofs.Flat.Outermost
import Statechart.Proofs.Offers
import Statechart.Proofs.World.Rest
import Statechart.Proofs.Echo
import Statechart.Proofs.Chronicle
import Statechart.Proofs.Changelog
import Statechart.Proofs.Audience
import Statechart.Proofs.Shape.Drawing
import Statechart.Proofs.Shape.Cache
import Statechart.Proofs.Reporting
import Statechart.Proofs.Shape.Marks
import Statechart.Proofs.Shape.Views
import Statechart.Proofs.Shape.Levels
import Statechart.Proofs.Shape.Window
import Statechart.Proofs.Shape.Tour
import Statechart.Proofs.Builder.Faults
import Statechart.Proofs.Builder.Chain
import Statechart.Proofs.Shape.Describing
import Statechart.Proofs.World.Register
import Statechart.Proofs.Ledger
import Statechart.Proofs.FollowUps
import Statechart.Proofs.Termination
import Statechart.Proofs.History
import Statechart.Proofs.World.Descent
import Statechart.Proofs.Shape.Forecast
