import Loca.Base.Assoc
import Loca.Base.Check
import Loca.Base.Crew
import Loca.Base.Json
import Loca.Base.Dumps
import Loca.Base.Escapes
import Loca.Base.Lines
import Loca.Base.Mirror
import Loca.Base.Prog
import Loca.Base.Rota
import Loca.Base.Run
import Loca.Base.Script
import Loca.Base.Stamp
import Loca.Base.Table
import Loca.Base.Text
import Loca.Base.Window
import Loca.Base.Words
import Loca.Base.Buffer
import Loca.Protocol
import Loca.Store.Schema
import Loca.Store.Rename
import Loca.Store.Care
import Loca.Store.Rooms
import Loca.Store.Messages
import Loca.Store.Work
import Loca.Store.Wiki
import Loca.Store.WikiContext
import Loca.Store.Attachments
import Loca.Store.Memory
import Loca.Store.Snapshot
import Loca.Wiki.Effect
import Loca.Wiki.Machine
import Loca.Wiki.Fencing
import Loca.Wiki.Coverage
import Loca.Wiki.History
import Loca.Wiki.Accepted
import Loca.Wiki.Selection
import Loca.Wiki.Readiness
import Loca.Wiki.Context
import Loca.Wiki.Tracking
import Loca.Hub.Room
import Loca.Hub.Post
import Loca.Hub.Refusal
import Loca.Hub.Work
import Loca.Hub.Settings
import Loca.Hub.Attention
import Loca.Hub.Scheduler
import Loca.Hub.Doors
import Loca.Hub.Build
import Loca.Hub.Spoken
import Loca.Hub.Effect
import Loca.Hub.Sweep
import Loca.Hub.Step
import Loca.Hub.Boot
import Loca.Hub.Retry
import Loca.Hub.Own
import Loca.Hub.Seal
import Loca.Hub.Synced
import Loca.Hub.Reboot
import Loca.Hub.Revisions
import Loca.Hub.Care
import Loca.Hub.Delivery
import Loca.Hub.Memory
import Loca.Hub.Isolation
import Loca.Hub.Mirrored
import Loca.Hub.Agreement
import Loca.Hub.Goals
import Loca.Hub.Assignment
import Loca.Hub.Desk
import Loca.Hub.Lifecycle
import Loca.Hub.Recipients
import Loca.Hub.Attachments
import Loca.Hub.Attached
import Loca.Building.Registry
import Loca.Building.Admission
import Loca.Building.Accounting
import Loca.Building.Onboarding
import Loca.Building.House
import Loca.Building.Davets
import Loca.Building.Seats
import Loca.Building.Sessions
import Loca.Building.Names
import Loca.Building.Residence
import Loca.Building.Access
import Loca.Building.Tenure
import Loca.Building.Eviction
import Loca.Building.Recovery
import Loca.Building.Rank
import Loca.Adapter.Ledger
import Loca.Adapter.Mutators
import Loca.Adapter.Fencing
import Loca.Adapter.Inbox
import Loca.Adapter.Ingest
import Loca.Adapter.Store
import Loca.Adapter.Links
import Loca.Adapter.Terminal
import Loca.Adapter.Deferrals
import Loca.Adapter.Runtime
import Loca.Adapter.Budget
import Loca.Socket.Filter
import Loca.Socket.Roster
import Loca.Socket.Turns
import Loca.Listener.Backfill
import Loca.Listener.Mentions
import Loca.Listener.Credentials
import Loca.Listener.Cache
import Loca.Listener.Envfile
import Loca.Listener.Durable
import Loca.Listener.Frames
import Loca.Runner.Coordinator
import Loca.Runner.Worker
import Loca.Runner.Publish
import Loca.Runner.Journal
import Loca.Runner.Once
import Loca.Runner.Served
import Loca.Hub.Tail
import Loca.Hub.Rate
import Loca.Hub.Rotation
import Loca.Hub.Moderation
import Loca.Hub.Operators
import Loca.Hub.Cycles
import Loca.Hub.Home
import Loca.Hub.Replies
import Loca.Queue.Reader
import Loca.Queue.Waiting
import Loca.Queue.Protected
import Loca.Queue.Repeated
import Loca.Queue.Rooms
import Loca.Queue.Torn
