import ChainSync.Api.Service
import ChainSync.Json.Config
import ChainSync.Json.Session
import ChainSync.Main
import ChainSync.Peer.Link
import ChainSync.Scripted.Stack
import ChainSync.Proofs.Assoc
import ChainSync.Proofs.Cache
import ChainSync.Proofs.Ledger
import ChainSync.Proofs.Step
import ChainSync.Proofs.Run
import ChainSync.Proofs.Room
import ChainSync.Proofs.Moves
import ChainSync.Proofs.Backpressure
import ChainSync.Proofs.Codec
import ChainSync.Proofs.Chain
import ChainSync.Proofs.Peers
import ChainSync.Proofs.Answers
import ChainSync.Proofs.Delivery
import ChainSync.Proofs.Progress
import ChainSync.Proofs.Rounds
import ChainSync.Proofs.Framing
import ChainSync.Proofs.Messages
import ChainSync.Proofs.AddressBook
import ChainSync.Proofs.Seats
import ChainSync.Proofs.PoolRun
import ChainSync.Proofs.LateHeaders
import ChainSync.Proofs.Arrivals
import ChainSync.Proofs.Encounter
import ChainSync.Proofs.Outboxes
import ChainSync.Proofs.Relaying
import ChainSync.Proofs.Connections
import ChainSync.Proofs.Wires
import ChainSync.Proofs.Pacing
import ChainSync.Proofs.Sessions
import ChainSync.Proofs.Selection
import ChainSync.Proofs.Deals
import ChainSync.Proofs.Turns
import ChainSync.Proofs.Asking
import ChainSync.Proofs.Charging
import ChainSync.Proofs.Uncharged
import ChainSync.Proofs.Charges
import ChainSync.Proofs.Overdue
import ChainSync.Proofs.Commitment
import ChainSync.Proofs.Rejections
import ChainSync.Proofs.Batches
import ChainSync.Proofs.Rotation
import ChainSync.Proofs.Parts
import ChainSync.Proofs.Spelling
import ChainSync.Proofs.LocalAddresses
import ChainSync.Proofs.Passes
import ChainSync.Proofs.CommandLine
import ChainSync.Proofs.LookAhead
import ChainSync.Proofs.Overrides
import ChainSync.Proofs.Maintenance
import ChainSync.Proofs.Occupancy
import ChainSync.Proofs.AddressReplies
import ChainSync.Proofs.FrameRoundTrip
import ChainSync.Proofs.HeightMap
import ChainSync.Proofs.Flights
import ChainSync.Proofs.Guards
import ChainSync.Proofs.ApiKey
