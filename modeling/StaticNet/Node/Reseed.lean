/-
A report of a missing chunk, at a host that has bartered it away
(`handle_missing_chunk_gossip` in `static-node/src/runner.rs`).

A report in time of a chunk in the host buffer puts the chunk back into the
holder, where it fits, and answers with it over the reporter's return
route.
-/
import StaticNet.Node.Repair
import StaticNet.Node.Senders

namespace StaticNet

open Proc

def MAX_GOSSIP_AGE_SECS : Nat := 3600

def GOSSIP_FUTURE_SKEW_SECS : Nat := 300

/-- What the handler reads and draws: the clock, the KEM keys it knows of
when it answers, and the draws of each packet. -/
structure ReseedEnv where
  now : Nat
  kemLookup : NodeId → Option (List UInt8)
  draws : Nat → PacketDraws

/-- Neither stale nor of the future. -/
def MissingChunkGossip.inTime (gossip : MissingChunkGossip) (now : Nat) :
    Bool :=
  gossip.timestamp.toNat ≤ now + GOSSIP_FUTURE_SKEW_SECS
    && now - gossip.timestamp.toNat ≤ MAX_GOSSIP_AGE_SECS

/-- The packets of the answer and whom they are given to, if the return
route has a hop and the keys of all of them are known. -/
def reseedAnswer (P : Prims) (env : ReseedEnv)
    (gossip : MissingChunkGossip) (data : List UInt8) :
    Option (NodeId × List SphinxPacket) :=
  match gossip.returnRoute.hops.head? with
  | none => none
  | some firstHop =>
      match createHybridPayloadPackets P env.draws
          (serializeResponse ⟨gossip.chunkId, data, true⟩)
          ⟨gossip.returnRoute.hops, gossip.returnRoute.destination⟩
          env.kemLookup with
      | .ok packets => some (firstHop.nodeId, packets)
      | .error _ => none

/-- `handle_missing_chunk_gossip`: what is stored again, and the answer. -/
def handleMissingChunkGossip (P : Prims) (env : ReseedEnv)
    (gossip : MissingChunkGossip) :
    Task (Option (NodeId × List SphinxPacket)) :=
  if !gossip.inTime env.now then pure none
  else do
    let buffered ← read .hostBuffer fun n =>
      n.hostBuffer.buffer.get gossip.chunkId
    match buffered with
    | none => pure none
    | some (data, createdAt) => do
        let stored ← storeRepairedChunk env.now gossip.contentId
          gossip.chunkId data createdAt
        if !stored then pure none
        else pure (reseedAnswer P env gossip data)

end StaticNet
