import StaticNet.Lib.FMap
import StaticNet.Lib.Proc
import StaticNet.Lib.Bytes
import StaticNet.Lib.Ghost
import StaticNet.Lib.Zoom
import StaticNet.Lib.Keeps
import StaticNet.Lib.Fifo
import StaticNet.Lib.Framing
import StaticNet.Lib.DolevYao
import StaticNet.Lib.Exact
import StaticNet.Lib.LastWrite
import StaticNet.Lib.Mds
import StaticNet.Lib.Fill
import StaticNet.Lib.Window
import StaticNet.Crypto
import StaticNet.Storage.Basic
import StaticNet.Storage.Heartbeat
import StaticNet.Storage.Rotation
import StaticNet.Sphinx.Basic
import StaticNet.Routing.Basic
import StaticNet.Swap.Basic
import StaticNet.Swap.Handlers
import StaticNet.Swap.Run
import StaticNet.Swap.Duo
import StaticNet.Swap.Proofs.Paths
import StaticNet.Swap.Proofs.Reservation
import StaticNet.Swap.Proofs.Gate
import StaticNet.Swap.Proofs.Agreement
import StaticNet.Swap.Proofs.Effects
import StaticNet.Swap.Proofs.Registry
import StaticNet.Swap.Proofs.Overcommit
import StaticNet.Swap.Proofs.Stored
import StaticNet.Swap.Proofs.Redelivery
import StaticNet.Swap.Proofs.ThirdParty
import StaticNet.Swap.Proofs.Covered
import StaticNet.Swap.Proofs.Pending
import StaticNet.Swap.Proofs.Parts
import StaticNet.Swap.Proofs.Standing
import StaticNet.Swap.Proofs.Completes
import StaticNet.Leases.Runner
import StaticNet.Leases.Upsert
import StaticNet.Leases.Kept
import StaticNet.Leases.Ownership
import StaticNet.Leases.Renewal
import StaticNet.Leases.Delivery
import StaticNet.Leases.Atomic
import StaticNet.Content.Basic
import StaticNet.Content.Files
import StaticNet.Content.Erasure
import StaticNet.Content.TwoShards
import StaticNet.Content.Runner
import StaticNet.Content.RoundTrip
import StaticNet.Sphinx.Process
import StaticNet.Sphinx.Replay
import StaticNet.Sphinx.Sessions
import StaticNet.Sphinx.Layers
import StaticNet.Sphinx.Onion
import StaticNet.Sphinx.Surb
import StaticNet.Retrieval.Fragment
import StaticNet.Retrieval.Basic
import StaticNet.Retrieval.Feed
import StaticNet.Retrieval.ReplyNet
import StaticNet.Retrieval.Reply
import StaticNet.Retrieval.Mixing
import StaticNet.Retrieval.Request
import StaticNet.Wire.Basic
import StaticNet.Wire.Sent
import StaticNet.Wire.Framing
import StaticNet.Wire.Observer
import StaticNet.Retrieval.ClearView
import StaticNet.Conn.Registry
import StaticNet.Handshake.Basic
import StaticNet.Handshake.Stream
import StaticNet.Handshake.Pins
import StaticNet.Handshake.Hints
import StaticNet.Handshake.Binding
import StaticNet.Handshake.Nonces
import StaticNet.Accounting.Basic
import StaticNet.Accounting.Freeloader
import StaticNet.Accounting.Reconcile
import StaticNet.Accounting.DeltaSync
import StaticNet.Node.Basic
import StaticNet.Node.Rotation
import StaticNet.Node.Repair
import StaticNet.Node.RepairTick
import StaticNet.Node.Run
import StaticNet.Node.Inbound
import StaticNet.Node.Proofs.Unmatched
import StaticNet.Node.Proofs.Durable
import StaticNet.Node.Proofs.Addressed
import StaticNet.Node.Proofs.Delivery
import StaticNet.Node.Proofs.Restore
import StaticNet.Node.Proofs.Settle
import StaticNet.Node.Backup
import StaticNet.Node.Proofs.Failover
import StaticNet.Lib.Meter
import StaticNet.Conn.Shaper
import StaticNet.Conn.Rate
import StaticNet.Conn.Bucket
import StaticNet.Conn.Order
import StaticNet.Accounting.Sponsor
import StaticNet.Accounting.Prepaid
import StaticNet.Lib.Cursor
import StaticNet.Compute.Messages
import StaticNet.Compute.Provider
import StaticNet.Compute.Steps
import StaticNet.Compute.Capacity
import StaticNet.Compute.Once
import StaticNet.Compute.Modules
import StaticNet.Compute.Payment
import StaticNet.Compute.Deadline
import StaticNet.Lib.Merkle
import StaticNet.Content.Integrity
import StaticNet.Retrieval.Reassembly
import StaticNet.Node.Proofs.Expiry
import StaticNet.Sphinx.Rejected
import StaticNet.Routing.Routes
import StaticNet.Content.Release
import StaticNet.Node.Publish
import StaticNet.Bodies.Basic
import StaticNet.Bodies.RoundTrip
import StaticNet.Bodies.Built
import StaticNet.Wire.Checked
import StaticNet.Bodies.Safe
import StaticNet.Node.Senders
import StaticNet.Node.Proofs.FirstHop
import StaticNet.Api.Token
import StaticNet.Api.Hex
import StaticNet.Node.Possession
import StaticNet.Node.Cache
import StaticNet.Node.HostBuffer
import StaticNet.Node.MissingGossip
import StaticNet.Node.Storing
import StaticNet.Node.Proofs.Counted
import StaticNet.Node.Proofs.Quota
import StaticNet.Accounting.Balance
import StaticNet.Accounting.Overflow
import StaticNet.Accounting.Refusal
import StaticNet.Leases.Cap
import StaticNet.Leases.Race
import StaticNet.Retrieval.Asking
import StaticNet.Retrieval.OneBlock
import StaticNet.Retrieval.Tables
import StaticNet.Lib.Blocks
import StaticNet.Lib.Tickets
import StaticNet.Node.HandleMessage
import StaticNet.Node.MixNet
import StaticNet.Node.Proofs.Shipment
import StaticNet.Node.Proofs.Carried
import StaticNet.Node.Proofs.EndToEnd
import StaticNet.Node.Proofs.Served
import StaticNet.Compute.Requester
import StaticNet.Compute.Answered
import StaticNet.Compute.Exchanged
import StaticNet.Node.Audit
import StaticNet.Node.Proofs.Audited
import StaticNet.Api.Client
import StaticNet.Api.Polled
import StaticNet.Handshake.Honest
import StaticNet.Handshake.Mesh
import StaticNet.Lib.Abides
import StaticNet.Lib.Replace
import StaticNet.Node.Config
import StaticNet.Node.Proofs.Aged
import StaticNet.Node.Proofs.Persisted
import StaticNet.Api.Server
import StaticNet.Api.Sessions
import StaticNet.Lib.Hearsay
import StaticNet.Routing.Gossip
import StaticNet.Node.Reseed
