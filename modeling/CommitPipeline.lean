import CommitPipeline.Algorithm
import CommitPipeline.CommandLine.Arguments
import CommitPipeline.CommandLine.Directory
import CommitPipeline.CommandLine.Loading
import CommitPipeline.CommandLine.Outcome
import CommitPipeline.CommandLine.Run
import CommitPipeline.Core
import CommitPipeline.Engine
import CommitPipeline.Error
import CommitPipeline.Event
import CommitPipeline.Json.Numeral
import CommitPipeline.Json.Render
import CommitPipeline.Json.Token
import CommitPipeline.Json.Value
import CommitPipeline.Json.Written
import CommitPipeline.Limit
import CommitPipeline.LogLevel
import CommitPipeline.Main
import CommitPipeline.Names
import CommitPipeline.Number.Binary64
import CommitPipeline.Number.Extended
import CommitPipeline.Operation
import CommitPipeline.OperationId
import CommitPipeline.Pipeline.Basic
import CommitPipeline.Pipeline.Launch
import CommitPipeline.Pipeline.Move
import CommitPipeline.Pipeline.Schedule
import CommitPipeline.Pipeline.Session
import CommitPipeline.Pipeline.Waiter
import CommitPipeline.Plan.Basic
import CommitPipeline.Plan.Check
import CommitPipeline.Plan.Decode
import CommitPipeline.Plan.Listing
import CommitPipeline.Plan.Node
import CommitPipeline.Plan.Source
import CommitPipeline.Proofs.AbidingStores
import CommitPipeline.Proofs.AcceptedPlans
import CommitPipeline.Proofs.AcceptingStores
import CommitPipeline.Proofs.Accounting
import CommitPipeline.Proofs.Admission
import CommitPipeline.Proofs.AlikeStores
import CommitPipeline.Proofs.Announcements
import CommitPipeline.Proofs.Attempts
import CommitPipeline.Proofs.BatchDraining
import CommitPipeline.Proofs.CalendarDays
import CommitPipeline.Proofs.CanonicalObjects
import CommitPipeline.Proofs.ChosenRecords
import CommitPipeline.Proofs.ClockSums
import CommitPipeline.Proofs.Consistency
import CommitPipeline.Proofs.CrossCommitEdges
import CommitPipeline.Proofs.CycleSearch
import CommitPipeline.Proofs.DigitRows
import CommitPipeline.Proofs.DispatchOrder
import CommitPipeline.Proofs.DrainWaiting
import CommitPipeline.Proofs.Draining
import CommitPipeline.Proofs.Durability
import CommitPipeline.Proofs.EarlyPasses
import CommitPipeline.Proofs.Eligibility
import CommitPipeline.Proofs.Filing
import CommitPipeline.Proofs.Finality
import CommitPipeline.Proofs.FittingWrites
import CommitPipeline.Proofs.HandOver
import CommitPipeline.Proofs.HeldRetries
import CommitPipeline.Proofs.History
import CommitPipeline.Proofs.HoldSetting
import CommitPipeline.Proofs.HoldTimer
import CommitPipeline.Proofs.IdTexts
import CommitPipeline.Proofs.InstantTexts
import CommitPipeline.Proofs.JsonTexts
import CommitPipeline.Proofs.Lifecycle
import CommitPipeline.Proofs.Lifetimes
import CommitPipeline.Proofs.Lookup
import CommitPipeline.Proofs.MoveSteps
import CommitPipeline.Proofs.Moves
import CommitPipeline.Proofs.Neighbours
import CommitPipeline.Proofs.NextHold
import CommitPipeline.Proofs.NumeralTexts
import CommitPipeline.Proofs.Pass
import CommitPipeline.Proofs.Places
import CommitPipeline.Proofs.PlanBatches
import CommitPipeline.Proofs.PlanDraining
import CommitPipeline.Proofs.PlannedOrder
import CommitPipeline.Proofs.Progress
import CommitPipeline.Proofs.QuotedTexts
import CommitPipeline.Proofs.ReadBack
import CommitPipeline.Proofs.ReadyOperations
import CommitPipeline.Proofs.RecordTexts
import CommitPipeline.Proofs.Register
import CommitPipeline.Proofs.Rejection
import CommitPipeline.Proofs.Relaunch
import CommitPipeline.Proofs.Relinking
import CommitPipeline.Proofs.Replay
import CommitPipeline.Proofs.ReportOrder
import CommitPipeline.Proofs.ReportsToCome
import CommitPipeline.Proofs.RestoreLoop
import CommitPipeline.Proofs.Retries
import CommitPipeline.Proofs.SendingOrder
import CommitPipeline.Proofs.SlotFilling
import CommitPipeline.Proofs.Slots
import CommitPipeline.Proofs.StallFreedom
import CommitPipeline.Proofs.Stalls
import CommitPipeline.Proofs.StoreMirror
import CommitPipeline.Proofs.StoreOrder
import CommitPipeline.Proofs.StoreOwners
import CommitPipeline.Proofs.StoredBatches
import CommitPipeline.Proofs.StoredRecords
import CommitPipeline.Proofs.TakingUp
import CommitPipeline.Proofs.Tracking
import CommitPipeline.Proofs.Transit
import CommitPipeline.Proofs.TwinRuns
import CommitPipeline.Proofs.ValuesRead
import CommitPipeline.Proofs.Verdicts
import CommitPipeline.Proofs.WakeUps
import CommitPipeline.Proofs.WalkOrder
import CommitPipeline.Proofs.WholeSaves
import CommitPipeline.Proofs.WorkConservation
import CommitPipeline.Publisher
import CommitPipeline.Queue
import CommitPipeline.Readiness
import CommitPipeline.Record
import CommitPipeline.Request
import CommitPipeline.Simulation
import CommitPipeline.Store.Basic
import CommitPipeline.Store.Memory
import CommitPipeline.Store.Refusing
import CommitPipeline.Text.Blank
import CommitPipeline.Text.CaseTables
import CommitPipeline.Text.Digit
import CommitPipeline.Text.DisplayTables
import CommitPipeline.Text.Excerpt
import CommitPipeline.Text.Lowercase
import CommitPipeline.Text.Quoted
import CommitPipeline.Text.Ranges
import CommitPipeline.Text.Span
import CommitPipeline.Time.Calendar
import CommitPipeline.Time.Elapsed
import CommitPipeline.Time.Instant
import CommitPipeline.Time.Rfc3339
import CommitPipeline.Toml.Document
import CommitPipeline.Toml.Fault
import CommitPipeline.Toml.Moment
import CommitPipeline.Toml.Numeral
import CommitPipeline.Toml.Outline
import CommitPipeline.Toml.Quoted
import CommitPipeline.Toml.Scalar
import CommitPipeline.Toml.Token
import CommitPipeline.Toml.Value
import CommitPipeline.Worker.Basic
import CommitPipeline.Worker.Recorder
import CommitPipeline.Worker.Scripted
import CommitPipeline.Worker.Simulated
