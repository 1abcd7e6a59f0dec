/-
What a repair restores.

# Where it breaks

`repair_content_once` reseeds from the host buffer and reconstructs the
data shards, and that is all it stores: `erasure_decode` returns the data
shards only, and nothing encodes them again. A parity shard that neither
the holder nor the host buffer has stays lost, and the repair reports
success (`parity_not_restored`). Nor does it look at a hash: a damaged
shard stays where it is and goes into the reconstruction.

# The argument

Both passes fill gaps of one table, the holder's, from a list of offers
(`Lib.Fill`): the first from the host buffer (`reseed_fills`), the second
from the reconstructed data shards (`storeReconstructed_fills`), each
store having room. With `k` shards at hand the network is not asked, so
the two passes are the whole repair (`repair_out`, `repair_held`). If all
shards at hand are the published ones they are part of the published
codeword and the data shards come out right; what is missing then is
exactly the parity that nobody had (`restored_iff`). If one of them is
damaged the repair fails, when their sizes differ, or leaves it there.
-/
import StaticNet.Content.Erasure
import StaticNet.Content.Files
import StaticNet.Content.RoundTrip
import StaticNet.Content.TwoShards
import StaticNet.Lib.Fill
import StaticNet.Node.HostBuffer
import StaticNet.Node.Repair
import StaticNet.Swap.Proofs.Overcommit

namespace StaticNet

open Proc NodeState Prims

variable {n n' : NodeState} {c : ChunkId} {data : List UInt8}
  {now createdAt : Nat} {contentId : ContentId} {P : Prims}

namespace NodeState

/-- The bytes the holder has of a chunk. -/
def held (n : NodeState) (c : ChunkId) : Option (List UInt8) :=
  n.transport.chunkHolder.getChunk c

/-- The bytes the host buffer has of a chunk. -/
def hosted (n : NodeState) (c : ChunkId) : Option (List UInt8) :=
  (n.hostBuffer.buffer.get c).map Prod.fst

/-- The bytes at hand: the holder's, else the host buffer's. -/
def atHand (n : NodeState) (c : ChunkId) : Option (List UInt8) :=
  (n.held c).or (n.hosted c)

/-- There is room for as many more bytes. -/
structure Room (n : NodeState) (needed : Nat) : Prop where
  space : n.transport.chunkHolder.totalBytes
    + n.transport.storageCapacity.reservedBytes + needed
      ≤ n.transport.storageCapacity.maxBytes
  slots : 0 < n.transport.storageCapacity.maxChunksPerPeer

end NodeState

-- =========== storing

/-- What storing one chunk changes, as far as repair goes on. -/
structure Stores (n n' : NodeState) (c : ChunkId) (data : List UInt8) :
    Prop where
  held : n'.held = Function.update n.held c (some data)
  buffer : n'.hostBuffer = n.hostBuffer
  room : ∀ needed, n.Room (data.length + needed) → n'.Room needed

theorem held_addChunk (n : NodeState) :
    (n.updHolder fun h => h.addChunk c data contentId).held
      = Function.update n.held c (some data) := by
  funext d
  show (n.transport.chunkHolder.chunks.insert c data).get d = _
  by_cases h : d = c
  · subst h
    rw [FMap.get_insert_self, Function.update_self]
  · rw [FMap.get_insert_ne _ _ h, Function.update_of_ne h]
    rfl

theorem hasChunk_eq : n.transport.chunkHolder.hasChunk c
    = (n.held c).isSome := rfl

theorem putRepaired_gap (h : n.held c = none) :
    putRepaired contentId c data n
      = (n.updHolder fun h => h.addChunk c data contentId).updSpace
          fun cap => cap.recordAccept data.length := by
  unfold putRepaired
  rw [hasChunk_eq, h]
  rfl

/-- With room, a chunk the holder lacks is stored. -/
theorem storeRepaired_stores (now : Nat) (contentId : ContentId)
    (createdAt : Nat) (hroom : n.Room data.length)
    (hmiss : n.held c = none) :
    (storeRepairedChunk now contentId c data createdAt).out n = true
      ∧ Stores n ((storeRepairedChunk now contentId c data
          createdAt).post n) c data := by
  have hfits : (n.updSpace fun cap => cap.reconcile
      n.transport.chunkHolder.totalBytes).transport.storageCapacity.canAccept
        data.length 0 = true := by
    show (n.transport.storageCapacity.reconcile
      n.transport.chunkHolder.totalBytes).canAccept data.length 0 = true
    unfold StorageCapacity.canAccept StorageCapacity.reconcile
    simpa using ⟨hroom.space, hroom.slots⟩
  have hgap : (n.updSpace fun cap => cap.reconcile
      n.transport.chunkHolder.totalBytes).held c = none := hmiss
  unfold storeRepairedChunk
  simp only [out_bind, post_bind, out_read, post_read, out_atom, post_atom,
    hfits, Bool.not_true, Bool.false_eq_true, if_false, post_write,
    out_pure, post_pure, putRepaired_gap hgap, true_and]
  constructor
  · exact held_addChunk n
  · rfl
  · intro needed hneeded
    have htotal : (n.transport.chunkHolder.addChunk c data
        contentId).totalBytes
          = n.transport.chunkHolder.totalBytes + data.length :=
      totalBytes_addChunk (by
        show n.transport.chunkHolder.hasChunk c = false
        rw [hasChunk_eq, hmiss]
        rfl)
    have hspace := hneeded.space
    refine ⟨?_, hneeded.slots⟩
    show (n.transport.chunkHolder.addChunk c data contentId).totalBytes
      + n.transport.storageCapacity.reservedBytes + needed
        ≤ n.transport.storageCapacity.maxBytes
    rw [htotal]
    omega

-- ======== the passes

variable {ids rest : List ChunkId}
  {pairs : List (ChunkId × EncryptedChunk)} {size extra : Nat}

/-- A pass over offers: gaps are filled, and what it needs for the next
one stays. -/
structure Fills (n : NodeState) (p : Task Nat)
    (offers : List (ChunkId × Option (List UInt8))) (extra : Nat) :
    Prop where
  held : (p.post n).held = (fill offers n.held).1
  stored : p.out n = (fill offers n.held).2
  buffer : (p.post n).hostBuffer = n.hostBuffer
  room : (p.post n).Room extra

/-- What the host buffer offers for a list of chunks. -/
def bufferOffers (n : NodeState) (ids : List ChunkId) :
    List (ChunkId × Option (List UInt8)) :=
  ids.map fun c => (c, n.hosted c)

/-- What a list of chunks offers for the ids it is paired with. -/
def chunkOffers (pairs : List (ChunkId × EncryptedChunk)) :
    List (ChunkId × Option (List UInt8)) :=
  pairs.map fun e => (e.1, some e.2.data)

/-- Room for what a pass over the offers stores, and for more. -/
def RoomFor (n : NodeState)
    (offers : List (ChunkId × Option (List UInt8))) (size extra : Nat) :
    Prop := n.Room ((fill offers n.held).2 * size + extra)

theorem NodeState.Room.mono {a b : Nat} (h : n.Room b) (hab : a ≤ b) :
    n.Room a := by
  have hspace := h.space
  exact ⟨by omega, h.slots⟩

variable {p p' : Task Nat}
  {offers offers' : List (ChunkId × Option (List UInt8))}

theorem room_nil (h : RoomFor n [] size extra) : n.Room extra := by
  have hroom : n.Room (0 * size + extra) := h
  exact hroom.mono (by omega)

/-- A chunk that fills a gap takes its room first. -/
theorem RoomFor.gap (hgap : n.held c = none) (hs : Stores n n' c data)
    (hlen : data.length ≤ size)
    (h : RoomFor n ((c, some data) :: offers) size extra) :
    RoomFor n' offers size extra := by
  unfold RoomFor at h ⊢
  rw [fill_gap hgap, Nat.add_mul, Nat.one_mul, ← hs.held] at h
  exact hs.room _ (h.mono (by omega))

theorem RoomFor.one (hgap : n.held c = none) (hlen : data.length ≤ size)
    (h : RoomFor n ((c, some data) :: offers) size extra) :
    n.Room data.length := by
  unfold RoomFor at h
  rw [fill_gap hgap, Nat.add_mul, Nat.one_mul] at h
  exact h.mono (by omega)

/-- A chunk that is not stored changes nothing. -/
theorem Fills.skip (h : Fills n p' offers extra)
    (heq : p.out n = p'.out n ∧ p.post n = p'.post n)
    (hfill : fill offers' n.held = fill offers n.held) :
    Fills n p offers' extra := by
  obtain ⟨hout, hpost⟩ := heq
  constructor
  · rw [hpost, hfill, h.held]
  · rw [hout, hfill, h.stored]
  · rw [hpost, h.buffer]
  · rw [hpost]
    exact h.room

/-- A chunk that is stored fills its gap. -/
theorem Fills.store (hgap : n.held c = none) (hs : Stores n n' c data)
    (h : Fills n' p' offers extra)
    (heq : p.out n = 1 + p'.out n' ∧ p.post n = p'.post n') :
    Fills n p ((c, some data) :: offers) extra := by
  obtain ⟨hout, hpost⟩ := heq
  constructor
  · rw [hpost, fill_gap hgap, h.held, hs.held]
  · rw [hout, fill_gap hgap, h.stored, hs.held]
  · rw [hpost, h.buffer, hs.buffer]
  · rw [hpost]
    exact h.room

theorem hosted_of_stores (h : Stores n n' c data) :
    n'.hosted = n.hosted := by
  funext d
  unfold NodeState.hosted
  rw [h.buffer]

theorem reseed_skip (now : Nat) (contentId : ContentId)
    (rest : List ChunkId) (h : n.held c ≠ none ∨ n.hosted c = none) :
    (reseed now contentId (c :: rest)).out n
        = (reseed now contentId rest).out n
      ∧ (reseed now contentId (c :: rest)).post n
        = (reseed now contentId rest).post n := by
  rw [reseed]
  simp only [out_bind, post_bind, out_read, post_read, hasChunk_eq]
  by_cases hheld : n.held c = none
  · have hbuf : n.hostBuffer.buffer.get c = none :=
      Option.map_eq_none_iff.1 (h.resolve_left (not_not.2 hheld))
    simp [hheld, hbuf]
  · have hsome : (n.held c).isSome = true := Option.isSome_iff_ne_none.2 hheld
    simp [hsome]

theorem reseed_store (hheld : n.held c = none)
    (hbuf : n.hostBuffer.buffer.get c = some (data, createdAt))
    (hok : (storeRepairedChunk now contentId c data createdAt).out n
      = true) :
    (reseed now contentId (c :: rest)).out n
        = 1 + (reseed now contentId rest).out
          ((storeRepairedChunk now contentId c data createdAt).post n)
      ∧ (reseed now contentId (c :: rest)).post n
        = (reseed now contentId rest).post
          ((storeRepairedChunk now contentId c data createdAt).post n) := by
  rw [reseed]
  simp only [out_bind, post_bind, out_read, post_read, hasChunk_eq]
  simp [hheld, hbuf, hok]

/-- Pass 1 fills gaps from the host buffer. -/
theorem reseed_fills (now : Nat) (contentId : ContentId)
    (hsize : ∀ c ∈ ids, ∀ d, n.hosted c = some d → d.length ≤ size)
    (hroom : RoomFor n (bufferOffers n ids) size extra) :
    Fills n (reseed now contentId ids) (bufferOffers n ids) extra := by
  induction ids generalizing n with
  | nil => exact ⟨rfl, rfl, rfl, room_nil hroom⟩
  | cons c rest ih =>
      have hrest : ∀ d ∈ rest, ∀ b, n.hosted d = some b →
          b.length ≤ size :=
        fun d hd => hsize d (List.mem_cons_of_mem _ hd)
      change RoomFor n ((c, n.hosted c) :: bufferOffers n rest) size extra
        at hroom
      show Fills n _ ((c, n.hosted c) :: bufferOffers n rest) extra
      by_cases hskip : n.held c ≠ none ∨ n.hosted c = none
      · have hfill : fill ((c, n.hosted c) :: bufferOffers n rest) n.held
            = fill (bufferOffers n rest) n.held := by
          rcases hskip with hheld | hbuf
          · exact fill_held hheld
          · rw [hbuf]
            exact fill_unoffered
        unfold RoomFor at hroom
        rw [hfill] at hroom
        exact (ih hrest hroom).skip (reseed_skip now contentId rest hskip) hfill
      · rw [not_or, not_not] at hskip
        obtain ⟨hheld, hbuf⟩ := hskip
        obtain ⟨⟨data, createdAt⟩, hentry⟩ := Option.ne_none_iff_exists'.1
          fun hnone => hbuf (Option.map_eq_none_iff.2 hnone)
        have hdata : n.hosted c = some data := by
          unfold NodeState.hosted
          rw [hentry]
          rfl
        have hle := hsize c List.mem_cons_self data hdata
        rw [hdata] at hroom ⊢
        obtain ⟨hok, hstores⟩ := storeRepaired_stores now contentId
          createdAt (hroom.one hheld hle) hheld
        refine Fills.store hheld hstores ?_ (reseed_store hheld hentry hok)
        -- what the buffer offers is the same after the store
        have hsame := hosted_of_stores hstores
        have hoffers : bufferOffers n rest = bufferOffers
            ((storeRepairedChunk now contentId c data createdAt).post n)
            rest := by
          unfold bufferOffers
          rw [hsame]
        have hroom' := hroom.gap hheld hstores hle
        rw [hoffers] at hroom' ⊢
        refine ih ?_ hroom'
        intro d hd b hb
        rw [hsame] at hb
        exact hrest d hd b hb

theorem storeReconstructed_skip {chunk : EncryptedChunk}
    (h : n.held c ≠ none) :
    (storeReconstructed now contentId ((c, chunk) :: pairs)).out n
        = (storeReconstructed now contentId pairs).out n
      ∧ (storeReconstructed now contentId ((c, chunk) :: pairs)).post n
        = (storeReconstructed now contentId pairs).post n := by
  have hsome : (n.held c).isSome = true := Option.isSome_iff_ne_none.2 h
  rw [storeReconstructed]
  simp only [out_bind, post_bind, out_read, post_read, hasChunk_eq]
  simp [hsome]

theorem storeReconstructed_store {chunk : EncryptedChunk}
    (hheld : n.held c = none)
    (hok : (storeRepairedChunk now contentId c chunk.data now).out n
      = true) :
    (storeReconstructed now contentId ((c, chunk) :: pairs)).out n
        = 1 + (storeReconstructed now contentId pairs).out
          ((storeRepairedChunk now contentId c chunk.data now).post n)
      ∧ (storeReconstructed now contentId ((c, chunk) :: pairs)).post n
        = (storeReconstructed now contentId pairs).post
          ((storeRepairedChunk now contentId c chunk.data now).post n) := by
  rw [storeReconstructed]
  simp only [out_bind, post_bind, out_read, post_read, hasChunk_eq]
  simp [hheld, hok]

/-- Pass 3 fills gaps from what was reconstructed. -/
theorem storeReconstructed_fills (now : Nat) (contentId : ContentId)
    (hsize : ∀ e ∈ pairs, e.2.data.length ≤ size)
    (hroom : RoomFor n (chunkOffers pairs) size extra) :
    Fills n (storeReconstructed now contentId pairs) (chunkOffers pairs)
      extra := by
  induction pairs generalizing n with
  | nil => exact ⟨rfl, rfl, rfl, room_nil hroom⟩
  | cons e rest ih =>
      obtain ⟨c, chunk⟩ := e
      have hrest : ∀ e ∈ rest, e.2.data.length ≤ size :=
        fun e he => hsize e (List.mem_cons_of_mem _ he)
      change RoomFor n ((c, some chunk.data) :: chunkOffers rest) size extra
        at hroom
      show Fills n _ ((c, some chunk.data) :: chunkOffers rest) extra
      by_cases hheld : n.held c = none
      · have hle : chunk.data.length ≤ size :=
          hsize (c, chunk) List.mem_cons_self
        obtain ⟨hok, hstores⟩ := storeRepaired_stores now contentId now
          (hroom.one hheld hle) hheld
        exact Fills.store hheld hstores
          (ih hrest (hroom.gap hheld hstores hle))
          (storeReconstructed_store hheld hok)
      · have hfill : fill ((c, some chunk.data) :: chunkOffers rest) n.held
            = fill (chunkOffers rest) n.held := fill_held hheld
        unfold RoomFor at hroom
        rw [hfill] at hroom
        exact (ih hrest hroom).skip (storeReconstructed_skip hheld) hfill

-- ====== what is kept

/-- Whatever room there is, what the holder has stays. -/
theorem storeRepaired_keeps {d : ChunkId} {x : List UInt8}
    (h : n.held d = some x) :
    ((storeRepairedChunk now contentId c data createdAt).post n).held d
      = some x := by
  have hput : ∀ m : NodeState, m.held d = some x →
      (putRepaired contentId c data m).held d = some x := by
    intro m hm
    unfold putRepaired
    by_cases hc : m.transport.chunkHolder.hasChunk c = true
    · rw [if_pos hc]
      exact hm
    · rw [if_neg hc]
      have hne : d ≠ c := by
        rintro rfl
        rw [hasChunk_eq, hm] at hc
        exact hc rfl
      have hadd : (m.updHolder fun h => h.addChunk c data contentId).held
          = Function.update m.held c (some data) := held_addChunk m
      show (m.updHolder fun h => h.addChunk c data contentId).held d = _
      rw [hadd, Function.update_of_ne hne]
      exact hm
  unfold storeRepairedChunk
  simp only [post_bind, out_read, post_read, out_atom, post_atom]
  by_cases hfits : (n.updSpace fun cap => cap.reconcile
      n.transport.chunkHolder.totalBytes).transport.storageCapacity.canAccept
        data.length 0 = true
  · simp only [hfits, Bool.not_true, Bool.false_eq_true, if_false,
      post_bind, post_write, post_pure]
    exact hput _ h
  · simp only [Bool.not_eq_true] at hfits
    simp only [hfits, Bool.not_false, if_true, post_pure]
    exact h

theorem storeReconstructed_keeps {d : ChunkId} {x : List UInt8}
    (h : n.held d = some x) :
    ((storeReconstructed now contentId pairs).post n).held d
      = some x := by
  induction pairs generalizing n with
  | nil => exact h
  | cons e rest ih =>
      obtain ⟨c, chunk⟩ := e
      by_cases hheld : n.held c = none
      · have hsec : (storeReconstructed now contentId
            ((c, chunk) :: rest)).post n
          = (storeReconstructed now contentId rest).post
            ((storeRepairedChunk now contentId c chunk.data now).post n) := by
          rw [storeReconstructed]
          simp only [post_bind, out_read, post_read, hasChunk_eq]
          simp [hheld]
        rw [hsec]
        exact ih (storeRepaired_keeps h)
      · rw [(storeReconstructed_skip hheld).2]
        exact ih h

-- ======== the repair

/-- The shards at hand after the first pass, by manifest position. -/
def heldShardsOf (n : NodeState) (ids : List ChunkId) :
    List (Option EncryptedChunk) :=
  ids.map fun c => (n.held c).map fun data => ⟨c, data⟩

theorem heldShards_eq (ids : List ChunkId) :
    (heldShards ids).out n = heldShardsOf n ids
      ∧ (heldShards ids).post n = n := by
  induction ids with
  | nil => exact ⟨rfl, rfl⟩
  | cons c rest ih =>
      rw [heldShards]
      simp only [out_bind, post_bind, out_read, post_read, out_pure,
        post_pure, ih]
      exact ⟨rfl, trivial⟩

variable {rs : ErasureCode} {rr : ErasureRepair} {env : RepairEnv}
  {manifest : ContentManifest}

/-- The node after the first pass. -/
def afterReseed (env : RepairEnv) (manifest : ContentManifest)
    (n : NodeState) : NodeState :=
  (reseed env.now manifest.contentId manifest.chunkIds).post n

/-- The shards the repair reconstructs from, when they suffice. -/
def reseededShards (env : RepairEnv) (manifest : ContentManifest)
    (n : NodeState) : List (Option EncryptedChunk) :=
  heldShardsOf (afterReseed env manifest n) manifest.chunkIds

/-- With enough shards at hand the network is not asked. -/
theorem gather_enough {available : List (Option EncryptedChunk)}
    (h : manifest.dataShards ≤ known available) :
    gatherShards env manifest available = pure (some available) :=
  if_pos h

/-- A failed reconstruction is the repair's error. -/
theorem repair_fails {e : RepairError}
    (henough : manifest.dataShards
      ≤ known (reseededShards env manifest n))
    (hdec : erasureDecode P rr (reseededShards env manifest n)
      manifest.dataShards manifest.parityShards = .error e) :
    (repairContentOnce P rr env manifest).out n = .error e := by
  unfold reseededShards afterReseed at henough hdec
  have hfew : ¬ (heldShardsOf
      ((reseed env.now manifest.contentId manifest.chunkIds).post n)
        manifest.chunkIds).countP Option.isSome < manifest.dataShards :=
    Nat.not_lt.2 henough
  unfold repairContentOnce
  simp only [out_bind, heldShards_eq, gather_enough henough, out_pure,
    post_pure, if_neg hfew, hdec]

/-- A reconstruction is stored, and the repair reports both passes. -/
theorem repair_succeeds {chunks : List EncryptedChunk}
    (henough : manifest.dataShards
      ≤ known (reseededShards env manifest n))
    (hdec : erasureDecode P rr (reseededShards env manifest n)
      manifest.dataShards manifest.parityShards = .ok chunks) :
    (repairContentOnce P rr env manifest).out n
        = .ok ((reseed env.now manifest.contentId manifest.chunkIds).out n
          + (storeReconstructed env.now manifest.contentId
              (manifest.chunkIds.zip chunks)).out
            (afterReseed env manifest n))
      ∧ (repairContentOnce P rr env manifest).post n
        = (storeReconstructed env.now manifest.contentId
            (manifest.chunkIds.zip chunks)).post
          (afterReseed env manifest n) := by
  unfold reseededShards afterReseed at henough hdec
  have hfew : ¬ (heldShardsOf
      ((reseed env.now manifest.contentId manifest.chunkIds).post n)
        manifest.chunkIds).countP Option.isSome < manifest.dataShards :=
    Nat.not_lt.2 henough
  unfold repairContentOnce afterReseed
  simp only [out_bind, post_bind, heldShards_eq, gather_enough henough,
    out_pure, post_pure, if_neg hfew, hdec]
  exact ⟨trivial, trivial⟩

-- ==== what is published

/-- The shards of a publication, as its manifest names them. -/
structure EncodedAs (P : Prims) (rs : ErasureCode)
    (manifest : ContentManifest) (encoded : List EncryptedChunk) :
    Prop where
  ids : manifest.chunkIds = encoded.map EncryptedChunk.id
  total : encoded.length = manifest.dataShards + manifest.parityShards
  pos : 0 < manifest.dataShards
  word : encoded.map EncryptedChunk.data
    ∈ codewords rs manifest.dataShards manifest.parityShards
  hashed : ∀ e ∈ encoded, e.id = P.blake3 e.data
  sizes : ∀ e ∈ encoded, e.data.length = ENCRYPTED_CHUNK_SIZE

/-- A publication is its encoded data chunks under a manifest that lists
them. -/
theorem prepareContent_encoded {d : PublishDraws} {fileData : List UInt8}
    {encoded : List EncryptedChunk}
    (laws : ReedSolomonLaws rs rr manifest.dataShards
      manifest.parityShards)
    (h : prepareContent P rs d fileData = .ok (encoded, manifest)) :
    EncodedAs P rs manifest encoded := by
  unfold prepareContent at h
  cases hfile : encryptFile P d.masterKey d.nonce fileData with
  | error e =>
      rw [hfile] at h
      cases h
  | ok r =>
      obtain ⟨chunks, plain⟩ := r
      cases henc : erasureEncode P rs chunks chunks.length
          (parityCount chunks.length) with
      | error e =>
          rw [hfile] at h
          simp only [bind, Except.bind, henc] at h
          cases h
      | ok shards =>
          rw [hfile] at h
          simp only [bind, Except.bind, henc, pure, Except.pure,
            Except.ok.injEq, Prod.mk.injEq] at h
          obtain ⟨rfl, rfl⟩ := h
          change ReedSolomonLaws rs rr chunks.length
            (parityCount chunks.length) at laws
          have hchunks := encryptFile_chunks hfile
          have hpos : 0 < chunks.length := by
            rw [encryptFile_length hfile]
            exact numChunks_pos fileData
          obtain ⟨-, w, hw, hword, hlen, htake, rfl⟩ :=
            erasureEncode_ok laws henc
          have hdata := map_data_encode (P := P) hlen htake
          refine ⟨rfl, ?_, hpos, ?_, ?_, ?_⟩
          · have hcount := congrArg List.length hdata
            rw [List.length_map, hlen] at hcount
            exact hcount
          · rw [hdata]
            exact hword
          · exact hashed_encode fun c hc => (hchunks c hc).1
          · intro e he
            have hmem : e.data ∈ w := by
              rw [← hdata]
              exact List.mem_map_of_mem he
            refine laws.same_size _ w _ (length_shardsFor rfl) hw ?_
              _ hmem
            exact size_shardsFor hpos fun c hc => (hchunks c hc).2

-- =========== at hand

/-- The shards at hand by manifest position, as the repair sees them. -/
def atHandShards (n : NodeState) (ids : List ChunkId) :
    List (Option EncryptedChunk) :=
  ids.map fun c => (n.atHand c).map fun data => ⟨c, data⟩

theorem atHandShards_data (ids : List ChunkId) :
    (atHandShards n ids).map (Option.map EncryptedChunk.data)
      = ids.map n.atHand := by
  unfold atHandShards
  rw [List.map_map]
  apply List.map_congr_left
  intro c _
  show ((n.atHand c).map _).map EncryptedChunk.data = n.atHand c
  cases n.atHand c <;> rfl

/-- The ids of a list that nothing is at hand for. -/
def lost (n : NodeState) (ids : List ChunkId) : Finset ChunkId :=
  ids.toFinset.filter fun c => (n.atHand c).isNone

/-- The ids of a list that the holder lacks. -/
def missing (n : NodeState) (ids : List ChunkId) : Finset ChunkId :=
  ids.toFinset.filter fun c => (n.held c).isNone

/-- What the first pass fills. -/
theorem fillable_buffer (ids : List ChunkId) :
    fillable (bufferOffers n ids) n.held = missing n ids \ lost n ids := by
  ext c
  unfold missing lost bufferOffers NodeState.atHand
  rw [mem_fillable, offer_map, Finset.mem_sdiff, Finset.mem_filter,
    Finset.mem_filter, List.mem_toFinset]
  by_cases hc : c ∈ ids
  · cases hheld : n.held c <;> cases hbuf : n.hosted c <;> simp [hc]
  · simp [hc]

theorem lost_subset (ids : List ChunkId) : lost n ids ⊆ missing n ids := by
  intro c hc
  unfold lost missing NodeState.atHand at *
  rw [Finset.mem_filter] at hc ⊢
  cases hheld : n.held c with
  | none => exact ⟨hc.1, rfl⟩
  | some x =>
      rw [hheld] at hc
      exact absurd hc.2 (by simp)

theorem card_missing_le (ids : List ChunkId) :
    (missing n ids).card ≤ ids.length :=
  (Finset.card_filter_le _ _).trans (List.toFinset_card_le ids)

variable {encoded : List EncryptedChunk}

/-- Room for everything: for each id a chunk of the largest size that is
published or buffered. -/
structure Roomy (n : NodeState) (ids : List ChunkId) (size : Nat) :
    Prop where
  chunk : ENCRYPTED_CHUNK_SIZE ≤ size
  buffer : ∀ c ∈ ids, ∀ data, n.hosted c = some data →
    data.length ≤ size
  room : n.Room (ids.length * size)

/-- The first pass, with room left for the second. -/
theorem reseed_roomy (now : Nat) (contentId : ContentId)
    {ids : List ChunkId} (h : Roomy n ids size) :
    Fills n (reseed now contentId ids) (bufferOffers n ids)
      ((lost n ids).card * size) := by
  refine reseed_fills now contentId h.buffer ?_
  unfold RoomFor
  rw [fill_count, fillable_buffer, ← Nat.add_mul,
    Finset.card_sdiff_add_card_eq_card (lost_subset ids)]
  exact h.room.mono (Nat.mul_le_mul_right size (card_missing_le ids))

theorem afterReseed_held (h : Roomy n manifest.chunkIds size)
    (hc : c ∈ manifest.chunkIds) :
    (afterReseed env manifest n).held c = n.atHand c := by
  unfold afterReseed
  rw [(reseed_roomy env.now manifest.contentId h).held, fill_get]
  unfold bufferOffers NodeState.atHand
  rw [offer_map, if_pos hc]

theorem reseededShards_eq (env : RepairEnv)
    (h : Roomy n manifest.chunkIds size) :
    reseededShards env manifest n = atHandShards n manifest.chunkIds := by
  unfold reseededShards heldShardsOf atHandShards
  apply List.map_congr_left
  intro c hc
  rw [afterReseed_held h hc]

-- ========= restoring

/-- Correct data is at hand for as many positions as there are data
shards. -/
structure Sufficient (P : Prims) (n : NodeState)
    (manifest : ContentManifest) (positions : Finset Nat) : Prop where
  enough : manifest.dataShards ≤ positions.card
  correct : ∀ i ∈ positions, ∃ c data, manifest.chunkIds[i]? = some c
    ∧ (n.held c = some data ∨ n.hosted c = some data)
    ∧ P.blake3 data = c

/-- Every id of the manifest is held with data of that hash. -/
def Restored (P : Prims) (n : NodeState) (manifest : ContentManifest) :
    Prop :=
  ∀ c ∈ manifest.chunkIds, ∃ data, n.held c = some data ∧ P.blake3 data = c

/-- The shards at hand have one positive size. -/
def Even (n : NodeState) (manifest : ContentManifest) : Prop :=
  ∀ c ∈ manifest.chunkIds, ∀ x, n.atHand c = some x → 0 < x.length
    ∧ ∀ d ∈ manifest.chunkIds, ∀ y, n.atHand d = some y →
      x.length = y.length

/-- Every shard at hand has the hash it is named by. -/
def Undamaged (P : Prims) (n : NodeState) (manifest : ContentManifest) :
    Prop :=
  ∀ c ∈ manifest.chunkIds, ∀ data, n.atHand c = some data →
    P.blake3 data = c

/-- Only data shards are lost. -/
def ParityAtHand (n : NodeState) (manifest : ContentManifest) : Prop :=
  ∀ c ∈ manifest.chunkIds, n.atHand c = none →
    c ∈ manifest.chunkIds.take manifest.dataShards

/-- What is at hand under a published id with the hash it is named by is
the published shard. -/
def NoCollision (P : Prims) (n : NodeState)
    (encoded : List EncryptedChunk) : Prop :=
  ∀ e ∈ encoded, ∀ data, n.atHand e.id = some data →
    P.blake3 data = e.id → data = e.data

variable {positions : Finset Nat}

theorem atHand_isSome (h : n.held c = some data ∨ n.hosted c = some data) :
    ∃ x, n.atHand c = some x := by
  unfold NodeState.atHand
  rcases h with hheld | hbuf
  · rw [hheld]
    exact ⟨data, rfl⟩
  · rw [hbuf]
    cases n.held c with
    | none => exact ⟨data, rfl⟩
    | some x => exact ⟨x, rfl⟩

/-- Then as many shards are at hand as there are data shards. -/
theorem Sufficient.known (h : Sufficient P n manifest positions) :
    manifest.dataShards
      ≤ StaticNet.known (atHandShards n manifest.chunkIds) := by
  refine h.enough.trans (card_le_known ?_)
  intro i hi
  obtain ⟨c, data, hc, hdata, -⟩ := h.correct i hi
  obtain ⟨x, hx⟩ := atHand_isSome hdata
  refine ⟨⟨c, x⟩, ?_⟩
  unfold atHandShards
  rw [List.getElem?_map, hc, Option.map_some, hx]
  rfl

/-- A reconstruction from what is at hand is one from shards of one
size. -/
theorem decode_even
    (sizes : SizeChecked rr manifest.dataShards manifest.parityShards)
    {chunks : List EncryptedChunk}
    (h : erasureDecode P rr (atHandShards n manifest.chunkIds)
      manifest.dataShards manifest.parityShards = .ok chunks) :
    Even n manifest := by
  obtain ⟨filled, hfilled⟩ := erasureDecode_ok h
  rw [atHandShards_data] at hfilled
  intro c hc x hx
  obtain ⟨hpos, hall⟩ := sizes.refuses _ _ hfilled x
    (List.mem_map.2 ⟨c, hc, hx⟩)
  exact ⟨hpos, fun d hd y hy => hall y (List.mem_map.2 ⟨d, hd, hy⟩)⟩

/-- Shards of one size are accepted, whatever is in them. -/
theorem decode_of_even
    (sizes : SizeChecked rr manifest.dataShards manifest.parityShards)
    (total : manifest.chunkIds.length
      = manifest.dataShards + manifest.parityShards)
    (pos : 0 < manifest.dataShards)
    (hk : manifest.dataShards
      ≤ known (atHandShards n manifest.chunkIds))
    (heven : Even n manifest) :
    ∃ chunks, erasureDecode P rr (atHandShards n manifest.chunkIds)
      manifest.dataShards manifest.parityShards = .ok chunks := by
  have hk' : manifest.dataShards ≤ known (manifest.chunkIds.map n.atHand) := by
    rw [← atHandShards_data, known_map]
    exact hk
  -- some shard is at hand, and its size is that of the others
  have hsome : ∃ s, some s ∈ manifest.chunkIds.map n.atHand := by
    obtain ⟨o, ho, hsome⟩ := List.countP_pos_iff.1 (pos.trans_le hk')
    obtain ⟨s, rfl⟩ := Option.isSome_iff_exists.1 hsome
    exact ⟨s, ho⟩
  obtain ⟨s, hs⟩ := hsome
  obtain ⟨c, hc, hcs⟩ := List.mem_map.1 hs
  obtain ⟨hpos, hall⟩ := heven c hc s hcs
  have hsize : ∀ t, some t ∈ manifest.chunkIds.map n.atHand →
      t.length = s.length := by
    intro t ht
    obtain ⟨d, hd, hdt⟩ := List.mem_map.1 ht
    exact (hall d hd t hdt).symm
  obtain ⟨filled, hfilled⟩ := sizes.accepts _ s.length hpos
    (by rw [List.length_map, total]) hk' hsize
  rw [← atHandShards_data] at hfilled
  have hlen : (atHandShards n manifest.chunkIds).length
      = manifest.dataShards + manifest.parityShards := by
    unfold atHandShards
    rw [List.length_map, total]
  exact ⟨_, erasureDecode_filled hlen hk hfilled⟩

/-- What is damaged at hand is damaged in the holder afterwards. -/
theorem damaged_stays {chunks : List EncryptedChunk}
    (roomy : Roomy n manifest.chunkIds size)
    (hc : c ∈ manifest.chunkIds) (hhand : n.atHand c = some data) :
    ((storeReconstructed env.now manifest.contentId
      (manifest.chunkIds.zip chunks)).post
        (afterReseed env manifest n)).held c = some data :=
  storeReconstructed_keeps ((afterReseed_held roomy hc).trans hhand)

/-- Undamaged shards are those of the published codeword. -/
theorem agrees_undamaged (enc : EncodedAs P rs manifest encoded)
    (hreal : NoCollision P n encoded) (h : Undamaged P n manifest) :
    Agrees ((atHandShards n manifest.chunkIds).map
      (Option.map EncryptedChunk.data))
      (encoded.map EncryptedChunk.data) := by
  rw [atHandShards_data, enc.ids, List.map_map]
  refine ⟨by rw [List.length_map, List.length_map], ?_⟩
  intro i s hs
  rw [List.getElem?_map] at hs ⊢
  cases he : encoded[i]? with
  | none =>
      rw [he] at hs
      cases hs
  | some e =>
      rw [he] at hs
      have hhand : n.atHand e.id = some s := Option.some.inj hs
      have hmem : e ∈ encoded := List.mem_of_getElem? he
      have hid : e.id ∈ manifest.chunkIds := by
        rw [enc.ids]
        exact List.mem_map_of_mem hmem
      rw [Option.map_some, hreal e hmem s hhand (h e.id hid s hhand)]

/-- Undamaged shards give the published data shards. -/
theorem decode_undamaged
    (laws : ReedSolomonLaws rs rr manifest.dataShards
      manifest.parityShards)
    (enc : EncodedAs P rs manifest encoded)
    (hreal : NoCollision P n encoded)
    (hk : manifest.dataShards
      ≤ known (atHandShards n manifest.chunkIds))
    (h : Undamaged P n manifest) :
    erasureDecode P rr (atHandShards n manifest.chunkIds)
        manifest.dataShards manifest.parityShards
      = .ok (encoded.take manifest.dataShards) := by
  have hlen : (atHandShards n manifest.chunkIds).length
      = manifest.dataShards + manifest.parityShards := by
    unfold atHandShards
    rw [List.length_map, enc.ids, List.length_map, enc.total]
  rw [erasureDecode_agrees laws enc.word hlen hk
    (agrees_undamaged enc hreal h), ← List.map_take]
  exact congrArg Except.ok
    (rehashed fun c hc => enc.hashed c (List.mem_of_mem_take hc))

-- ======= second pass

/-- The published data shards, as they are offered to the holder. -/
theorem zip_published (l : List EncryptedChunk) (k : Nat) :
    (l.map EncryptedChunk.id).zip (l.take k)
      = (l.take k).map fun e => (e.id, e) := by
  induction l generalizing k with
  | nil => rw [List.take_nil]; rfl
  | cons e l ih =>
      cases k with
      | zero => rw [List.take_zero, List.zip_nil_right]; rfl
      | succ k =>
          rw [List.map_cons, List.take_succ_cons, List.zip_cons_cons, ih]
          rfl

/-- The second pass offers every data shard, each under its hash. -/
theorem offers_published (enc : EncodedAs P rs manifest encoded) :
    (∀ c, (offer (chunkOffers (manifest.chunkIds.zip
        (encoded.take manifest.dataShards))) c).isSome
          ↔ c ∈ manifest.chunkIds.take manifest.dataShards)
      ∧ ∀ c data, offer (chunkOffers (manifest.chunkIds.zip
        (encoded.take manifest.dataShards))) c = some data →
          P.blake3 data = c := by
  have hoffers : chunkOffers (manifest.chunkIds.zip
        (encoded.take manifest.dataShards))
      = (encoded.take manifest.dataShards).map fun e =>
          (e.id, some e.data) := by
    unfold chunkOffers
    rw [enc.ids, zip_published, List.map_map]
    rfl
  rw [hoffers]
  constructor
  · intro c
    rw [offer_isSome, enc.ids, ← List.map_take, List.mem_map]
    constructor
    · rintro ⟨v, hv⟩
      obtain ⟨e, he, heq⟩ := List.mem_map.1 hv
      exact ⟨e, he, (Prod.mk.inj heq).1⟩
    · rintro ⟨e, he, rfl⟩
      exact ⟨e.data, List.mem_map.2 ⟨e, he, rfl⟩⟩
  · intro c data hdata
    obtain ⟨e, he, heq⟩ := List.mem_map.1 (mem_of_offer_eq hdata)
    obtain ⟨rfl, hsome⟩ := Prod.mk.inj heq
    rw [← Option.some.inj hsome]
    exact (enc.hashed e (List.mem_of_mem_take he)).symm

/-- The data shards among the lost ids. -/
def lostData (n : NodeState) (manifest : ContentManifest) :
    Finset ChunkId :=
  (lost n manifest.chunkIds).filter
    (· ∈ manifest.chunkIds.take manifest.dataShards)

/-- What the second pass fills. -/
theorem fillable_published (env : RepairEnv)
    (enc : EncodedAs P rs manifest encoded)
    (roomy : Roomy n manifest.chunkIds size) :
    fillable (chunkOffers (manifest.chunkIds.zip
        (encoded.take manifest.dataShards)))
        (afterReseed env manifest n).held
      = lostData n manifest := by
  ext c
  unfold lostData lost
  rw [mem_fillable, (offers_published enc).1, Finset.mem_filter,
    Finset.mem_filter, List.mem_toFinset, Option.isNone_iff_eq_none]
  constructor
  · rintro ⟨hheld, hc⟩
    have hid := List.mem_of_mem_take hc
    rw [afterReseed_held roomy hid] at hheld
    exact ⟨⟨hid, hheld⟩, hc⟩
  · rintro ⟨⟨hid, hhand⟩, hc⟩
    rw [afterReseed_held roomy hid]
    exact ⟨hhand, hc⟩

theorem publishedPass (env : RepairEnv)
    (enc : EncodedAs P rs manifest encoded)
    (roomy : Roomy n manifest.chunkIds size) :
    Fills (afterReseed env manifest n)
      (storeReconstructed env.now manifest.contentId
        (manifest.chunkIds.zip (encoded.take manifest.dataShards)))
      (chunkOffers (manifest.chunkIds.zip
        (encoded.take manifest.dataShards))) 0 := by
  have hsize : ∀ e ∈ manifest.chunkIds.zip
      (encoded.take manifest.dataShards), e.2.data.length ≤ size := by
    intro e he
    have hmem := List.mem_of_mem_take (List.of_mem_zip he).2
    rw [enc.sizes _ hmem]
    exact roomy.chunk
  have hroom : RoomFor (afterReseed env manifest n)
      (chunkOffers (manifest.chunkIds.zip
        (encoded.take manifest.dataShards))) size 0 := by
    unfold RoomFor
    rw [fill_count, fillable_published env enc roomy]
    refine (reseed_roomy env.now manifest.contentId roomy).room.mono ?_
    exact Nat.mul_le_mul_right size (Finset.card_filter_le _ _)
  exact storeReconstructed_fills env.now manifest.contentId hsize hroom

/-- What an undamaged repair reports and leaves behind. -/
theorem repair_undamaged (env : RepairEnv)
    (laws : ReedSolomonLaws rs rr manifest.dataShards
      manifest.parityShards)
    (enc : EncodedAs P rs manifest encoded)
    (hreal : NoCollision P n encoded)
    (roomy : Roomy n manifest.chunkIds size)
    (hk : manifest.dataShards
      ≤ known (atHandShards n manifest.chunkIds))
    (h : Undamaged P n manifest) :
    (repairContentOnce P rr env manifest).out n
        = .ok ((missing n manifest.chunkIds
            \ lost n manifest.chunkIds).card + (lostData n manifest).card)
      ∧ ∀ c ∈ manifest.chunkIds,
        ((repairContentOnce P rr env manifest).post n).held c
          = (n.atHand c).or (offer (chunkOffers (manifest.chunkIds.zip
            (encoded.take manifest.dataShards))) c) := by
  have hdec := decode_undamaged laws enc hreal hk h
  rw [← reseededShards_eq env roomy] at hk hdec
  obtain ⟨hout, hpost⟩ := repair_succeeds hk hdec
  have hfirst := reseed_roomy env.now manifest.contentId roomy
  have hsecond := publishedPass env enc roomy
  constructor
  · rw [hout, hfirst.stored, fill_count, fillable_buffer, hsecond.stored,
      fill_count, fillable_published env enc roomy]
  · intro c hc
    rw [hpost, hsecond.held, fill_get, afterReseed_held roomy hc]

/-- An undamaged repair restores everything when the parity is at
hand, and otherwise it does not. -/
theorem restored_iff (env : RepairEnv)
    (laws : ReedSolomonLaws rs rr manifest.dataShards
      manifest.parityShards)
    (enc : EncodedAs P rs manifest encoded)
    (hreal : NoCollision P n encoded)
    (roomy : Roomy n manifest.chunkIds size)
    (hk : manifest.dataShards
      ≤ known (atHandShards n manifest.chunkIds))
    (h : Undamaged P n manifest) :
    Restored P ((repairContentOnce P rr env manifest).post n) manifest
      ↔ ParityAtHand n manifest := by
  obtain ⟨-, hheld⟩ := repair_undamaged env laws enc hreal roomy
    hk h
  obtain ⟨hoffered, hhash⟩ := offers_published enc
  constructor
  · intro hrestored c hc hnone
    obtain ⟨data, hdata, -⟩ := hrestored c hc
    rw [hheld c hc, hnone, Option.none_or] at hdata
    rw [← hoffered c, hdata]
    rfl
  · intro hparity c hc
    cases hhand : n.atHand c with
    | some x =>
        refine ⟨x, ?_, h c hc x hhand⟩
        rw [hheld c hc, hhand]
        rfl
    | none =>
        obtain ⟨data, hdata⟩ := Option.isSome_iff_exists.1
          ((hoffered c).2 (hparity c hc hhand))
        refine ⟨data, ?_, hhash c data hdata⟩
        rw [hheld c hc, hhand, hdata]
        rfl

/-- With the parity at hand the count is right too. -/
theorem count_of_parity (h : ParityAtHand n manifest) :
    (missing n manifest.chunkIds \ lost n manifest.chunkIds).card
        + (lostData n manifest).card
      = (missing n manifest.chunkIds).card := by
  have hall : lostData n manifest = lost n manifest.chunkIds := by
    unfold lostData
    rw [Finset.filter_eq_self]
    intro c hc
    unfold lost at hc
    rw [Finset.mem_filter, List.mem_toFinset,
      Option.isNone_iff_eq_none] at hc
    exact h c hc.1 hc.2
  rw [hall, Finset.card_sdiff_add_card_eq_card (lost_subset _)]

-- ======== the result

/-- What a repair that reports success promises. -/
def RepairKeepsPromise (P : Prims) (rr : ErasureRepair) (env : RepairEnv)
    (manifest : ContentManifest) (n : NodeState) : Prop :=
  ∀ stored, (repairContentOnce P rr env manifest).out n = .ok stored →
    Restored P ((repairContentOnce P rr env manifest).post n) manifest
      ∧ stored = (missing n manifest.chunkIds).card

/-- A repair of shards of different sizes, or of undamaged shards of which
only data shards are lost, keeps its promise; no other does. -/
theorem keepsPromise_iff (env : RepairEnv)
    (laws : ReedSolomonLaws rs rr manifest.dataShards
      manifest.parityShards)
    (sizes : SizeChecked rr manifest.dataShards manifest.parityShards)
    (enc : EncodedAs P rs manifest encoded)
    (hreal : NoCollision P n encoded)
    (roomy : Roomy n manifest.chunkIds size)
    (hk : manifest.dataShards
      ≤ known (atHandShards n manifest.chunkIds)) :
    RepairKeepsPromise P rr env manifest n
      ↔ (Even n manifest →
          Undamaged P n manifest ∧ ParityAtHand n manifest) := by
  have total : manifest.chunkIds.length
      = manifest.dataShards + manifest.parityShards := by
    rw [enc.ids, List.length_map, enc.total]
  have hk' := hk
  rw [← reseededShards_eq env roomy] at hk'
  constructor
  · intro hkeeps heven
    obtain ⟨chunks, hdec⟩ := decode_of_even sizes total enc.pos hk heven
    rw [← reseededShards_eq env roomy] at hdec
    obtain ⟨hout, hpost⟩ := repair_succeeds hk' hdec
    obtain ⟨hrestored, -⟩ := hkeeps _ hout
    have hundamaged : Undamaged P n manifest := by
      intro c hc data hhand
      obtain ⟨x, hx, hhash⟩ := hrestored c hc
      rw [hpost, damaged_stays roomy hc hhand] at hx
      rw [Option.some.inj hx]
      exact hhash
    exact ⟨hundamaged,
      (restored_iff env laws enc hreal roomy hk hundamaged).1 hrestored⟩
  · intro himp stored hout
    have heven : Even n manifest := by
      cases hdec : erasureDecode P rr (reseededShards env manifest n)
          manifest.dataShards manifest.parityShards with
      | error e =>
          rw [repair_fails hk' hdec] at hout
          cases hout
      | ok chunks =>
          rw [reseededShards_eq env roomy] at hdec
          exact decode_even sizes hdec
    obtain ⟨hundamaged, hparity⟩ := himp heven
    obtain ⟨hcount, -⟩ := repair_undamaged env laws enc hreal
      roomy hk hundamaged
    refine ⟨(restored_iff env laws enc hreal roomy hk hundamaged).2
      hparity, ?_⟩
    rw [hcount] at hout
    rw [← Except.ok.inj hout, count_of_parity hparity]

-- ====== publications

variable {json : Json} {d : PublishDraws} {fileData : List UInt8}
  {s : RunnerState} {published : ContentId} {publicKey : Bytes 32}

theorem publishContent_prepared
    (h : (publishContent P rs json d fileData s).1
      = .ok (published, manifest, publicKey)) :
    prepareContent P rs d fileData
      = .ok (publishedShards P rs d fileData, manifest) := by
  unfold publishContent at h
  unfold publishedShards
  cases hprep : prepareContent P rs d fileData with
  | error e =>
      rw [hprep] at h
      cases h
  | ok r =>
      rw [hprep] at h
      have hresult := Except.ok.inj h
      have hmanifest : r.2 = manifest := congrArg (fun t => t.2.1) hresult
      rw [← hmanifest]

-- ==== a publication concretely

/-- A file that is one byte longer than a chunk. -/
def twoPieceFile : List UInt8 := 1 :: List.replicate CHUNK_SIZE 0

/-- A piece of it, sealed. -/
def piece (i : Nat) : EncryptedChunk :=
  sealedChunk Prims.plain smallDraws.masterKey smallDraws.nonce i
    (filePiece twoPieceFile i)

/-- The shards of its publication. -/
def fourShards : List EncryptedChunk :=
  encodedAs Prims.plain [piece 0, piece 1] 2
    (pairWord (piece 0).data (piece 1).data)

theorem length_twoPieceFile : twoPieceFile.length = CHUNK_SIZE + 1 := by
  unfold twoPieceFile
  rw [List.length_cons, List.length_replicate]

theorem numChunks_twoPieceFile : numChunks twoPieceFile = 2 := by
  unfold numChunks
  rw [length_twoPieceFile]
  rfl

theorem encrypt_twoPieceFile :
    ∃ plain, encryptFile Prims.plain smallDraws.masterKey smallDraws.nonce
      twoPieceFile = .ok ([piece 0, piece 1], plain) := by
  have hfile : (List.range (numChunks twoPieceFile)).mapM (fun i =>
      encryptChunk Prims.plain smallDraws.masterKey smallDraws.nonce i
        (filePiece twoPieceFile i)) = .ok [piece 0, piece 1] := by
    rw [numChunks_twoPieceFile]
    simp only [encryptChunk_ok Prims.plain_seal]
    exact List.mapM_pure
  unfold encryptFile
  rw [hfile]
  exact ⟨_, rfl⟩

/-- The steps of a publication that go well. -/
theorem prepareContent_of {chunks shards : List EncryptedChunk}
    {plain : ContentManifest}
    (hfile : encryptFile P d.masterKey d.nonce fileData
      = .ok (chunks, plain))
    (henc : erasureEncode P rs chunks chunks.length
      (parityCount chunks.length) = .ok shards) :
    prepareContent P rs d fileData
      = .ok (shards,
        { plain with
          chunkIds := shards.map EncryptedChunk.id
          dataShards := chunks.length
          parityShards := parityCount chunks.length
          encryptedMasterKey := d.masterKey.toList
          nonce := d.nonce
          contentId := contentIdFromPublic P (P.edPublic d.contentSk)
          segmentHashes := computeSegmentHashes P shards }) := by
  unfold prepareContent
  rw [hfile]
  show (erasureEncode P rs chunks chunks.length
    (parityCount chunks.length) >>= _) = _
  rw [henc]
  rfl

theorem prepare_twoPieceFile :
    ∃ manifest, prepareContent Prims.plain pairCode smallDraws twoPieceFile
        = .ok (fourShards, manifest)
      ∧ manifest.dataShards = 2 ∧ manifest.parityShards = 2 := by
  obtain ⟨plain, hfile⟩ := encrypt_twoPieceFile
  have hsize : ∀ c ∈ [piece 0, piece 1],
      c.data.length = CHUNK_SIZE + 16 :=
    fun c hc => (encryptFile_chunks hfile c hc).2
  obtain ⟨encoded, henc⟩ := erasureEncode_accepts (P := Prims.plain)
    pair_laws (by decide) (by decide) (by decide)
    (Nat.succ_pos (CHUNK_SIZE + 15)) rfl hsize
  obtain ⟨-, w, hw, -, -, -, rfl⟩ := erasureEncode_ok pair_laws henc
  obtain ⟨-, rfl⟩ := pairCode_encode hw
  refine ⟨_, prepareContent_of hfile henc, rfl, rfl⟩

theorem CHUNK_SIZE_pos : 0 < CHUNK_SIZE := by decide

theorem head_window {l : List UInt8} {off size n : Nat} {x : UInt8}
    (hsize : 0 < size) (hx : l[off]? = some x) :
    (((padTo n l).drop off).take size).head? = some x := by
  have hlt : off < l.length := (List.getElem?_eq_some_iff.1 hx).1
  unfold padTo
  rw [List.head?_eq_getElem?, List.getElem?_take_of_lt hsize,
    List.getElem?_drop, Nat.add_zero, List.getElem?_append_left hlt, hx]

/-- What is sealed starts like the padded plaintext. -/
theorem head_sealed {masterKey : SymmetricKey} {nonce : NonceBytes}
    {i : Nat} {plaintext : List UInt8} {x : UInt8}
    (h : (paddedChunk plaintext).head? = some x) :
    (sealedChunk Prims.plain masterKey nonce i plaintext).data.head?
      = some x := by
  show (paddedChunk plaintext ++ plainTag _ _).head? = some x
  rw [List.head?_append, h]
  rfl

/-- The first byte of what is sealed at an index is the file's there. -/
theorem head_piece {i : Nat} {x : UInt8}
    (hx : twoPieceFile[i * CHUNK_SIZE]? = some x) :
    (piece i).data.head? = some x := by
  have hlt : i * CHUNK_SIZE < twoPieceFile.length :=
    (List.getElem?_eq_some_iff.1 hx).1
  have hwindow : paddedChunk (filePiece twoPieceFile i) = _ :=
    paddedChunk_filePiece hlt.le le_rfl
  have hhead : (paddedChunk (filePiece twoPieceFile i)).head? = some x := by
    rw [hwindow]
    exact head_window CHUNK_SIZE_pos hx
  exact head_sealed hhead

theorem head_pieces : (piece 0).data.head? = some 1
    ∧ (piece 1).data.head? = some 0 := by
  have hfile : ∀ n : Nat, 0 < n →
      ((1 : UInt8) :: List.replicate n 0)[0 * n]? = some 1
        ∧ ((1 : UInt8) :: List.replicate n 0)[1 * n]? = some 0 := by
    intro n hn
    obtain ⟨m, rfl⟩ := Nat.exists_eq_add_one.2 hn
    rw [Nat.zero_mul, Nat.one_mul, List.getElem?_cons_succ,
      List.getElem?_replicate, if_pos (Nat.lt_succ_self m)]
    exact ⟨rfl, rfl⟩
  obtain ⟨h₀, h₁⟩ := hfile CHUNK_SIZE CHUNK_SIZE_pos
  exact ⟨head_piece h₀, head_piece h₁⟩

theorem head_zipWith (f : UInt8 → UInt8 → UInt8) {a b : List UInt8}
    {x y : UInt8} (ha : a.head? = some x) (hb : b.head? = some y) :
    (List.zipWith f a b).head? = some (f x y) := by
  obtain ⟨a', rfl⟩ := List.head?_eq_some_iff.1 ha
  obtain ⟨b', rfl⟩ := List.head?_eq_some_iff.1 hb
  rfl

/-- The plain hash starts like what is hashed. -/
theorem head_plain_blake3 {l : List UInt8} {x : UInt8}
    (h : l.head? = some x) :
    (Prims.plain.blake3 l).toList.head? = some x := by
  obtain ⟨l', rfl⟩ := List.head?_eq_some_iff.1 h
  rfl

/-- Two chunks named by their hashes and their parity. -/
theorem encodedAs_pair (a b : List UInt8) :
    encodedAs P [⟨P.blake3 a, a⟩, ⟨P.blake3 b, b⟩] 2 (pairWord a b)
      = (pairWord a b).map fun s => ⟨P.blake3 s, s⟩ := rfl

theorem piece_hashed (i : Nat) :
    piece i = ⟨Prims.plain.blake3 (piece i).data, (piece i).data⟩ := by
  unfold piece sealedChunk
  rfl

theorem fourShards_eq :
    fourShards = (pairWord (piece 0).data (piece 1).data).map
      fun s => ⟨Prims.plain.blake3 s, s⟩ := by
  unfold fourShards
  rw [← encodedAs_pair, ← piece_hashed, ← piece_hashed]

/-- The shards start with different bytes, and so do their ids. -/
theorem fourShards_heads :
    (fourShards.map EncryptedChunk.id).map (fun c => c.toList.head?)
      = [some 1, some 0, some 3, some 2] := by
  obtain ⟨h₀, h₁⟩ := head_pieces
  rw [fourShards_eq]
  generalize (piece 0).data = a at h₀
  generalize (piece 1).data = b at h₁
  have hfirst := head_zipWith firstParity h₀ h₁
  have hsecond := head_zipWith secondParity h₀ h₁
  unfold pairWord
  simp only [List.map_cons, List.map_nil, head_plain_blake3 h₀,
    head_plain_blake3 h₁, head_plain_blake3 hfirst,
    head_plain_blake3 hsecond]
  rfl

theorem fourShards_ids : (fourShards.map EncryptedChunk.id).Nodup := by
  have hheads : ((fourShards.map EncryptedChunk.id).map
      fun c => c.toList.head?).Nodup := by
    rw [fourShards_heads]
    decide
  exact hheads.of_map _

-- ==== what a node stores

/-- A table of chunks, by id. -/
def tableOf {V : Type} (f : EncryptedChunk → V) :
    List EncryptedChunk → FMap ChunkId V
  | [] => ∅
  | e :: l => (tableOf f l).insert e.id (f e)

theorem get_tableOf {V : Type} (f : EncryptedChunk → V)
    (l : List EncryptedChunk) (c : ChunkId) :
    (tableOf f l).get c = (l.find? fun e => e.id = c).map f := by
  induction l with
  | nil => rfl
  | cons e l ih =>
      rw [tableOf, FMap.get_insert, List.find?_cons, ih]
      by_cases h : e.id = c
      · simp [h]
      · simp [h, Ne.symm h]

/-- What the host buffer keeps of a chunk. -/
def bufferedAs (e : EncryptedChunk) : HostBuffer.Stored := ⟨e.id, e.data, 0⟩

/-- The inserts that bring chunks into the host buffer, the first of the
list last. -/
def buffering (buffers : List EncryptedChunk) : List HostBuffer.Stored :=
  buffers.reverse.map bufferedAs

/-- A node that holds some chunks and buffers others, with room for four
more. -/
def stocked (holds buffers : List EncryptedChunk) : NodeState where
  toRunnerState := RunnerState.new (freshNode (Bytes.fill 16 1)
    (Bytes.fill 32 1) ⟨tableOf EncryptedChunk.data holds, ∅⟩
    ((tableOf EncryptedChunk.data holds).sumBy List.length
      + 4 * ENCRYPTED_CHUNK_SIZE))
  rotationState := RotationState.new
  hostBuffer := HostBuffer.run
    ((buffering buffers).map fun e => e.data.length).sum (buffering buffers)
  connections := ∅

variable {holds buffers : List EncryptedChunk}

theorem stocked_held (c : ChunkId) :
    (stocked holds buffers).held c
      = (holds.find? fun e => e.id = c).map EncryptedChunk.data :=
  get_tableOf EncryptedChunk.data holds c

theorem stocked_hosted (c : ChunkId) :
    (stocked holds buffers).hosted c
      = (buffers.find? fun e => e.id = c).map EncryptedChunk.data := by
  have hget := HostBuffer.get_run_room (le_refl
    ((buffering buffers).map fun e => e.data.length).sum) c
  show ((HostBuffer.run _ (buffering buffers)).buffer.get c).map Prod.fst = _
  rw [hget]
  unfold buffering
  rw [← List.map_reverse, List.reverse_reverse, List.find?_map,
    Option.map_map, Option.map_map]
  rfl

theorem stocked_atHand (c : ChunkId) :
    (stocked holds buffers).atHand c
      = ((holds ++ buffers).find? fun e => e.id = c).map
          EncryptedChunk.data := by
  unfold NodeState.atHand
  rw [stocked_held, stocked_hosted, List.find?_append]
  cases holds.find? fun e => e.id = c <;> rfl

/-- What is at hand comes from a stored chunk. -/
theorem mem_stocked (h : (stocked holds buffers).atHand c = some data) :
    ∃ e ∈ holds ++ buffers, e.id = c ∧ e.data = data := by
  rw [stocked_atHand] at h
  obtain ⟨e, he, hdata⟩ := Option.map_eq_some_iff.1 h
  have hid : e.id = c := by simpa using List.find?_some he
  exact ⟨e, List.mem_of_find?_eq_some he, hid, hdata⟩

theorem stocked_none (h : ∀ e ∈ holds ++ buffers, e.id ≠ c) :
    (stocked holds buffers).atHand c = none := by
  rw [stocked_atHand, List.find?_eq_none.2, Option.map_none]
  intro e he
  simpa using h e he

theorem stocked_room : (stocked holds buffers).Room
    (4 * ENCRYPTED_CHUNK_SIZE) := by
  refine ⟨?_, Nat.succ_pos 99⟩
  show (tableOf EncryptedChunk.data holds).sumBy List.length + 0
    + 4 * ENCRYPTED_CHUNK_SIZE ≤ _
  rw [Nat.add_zero]
  exact le_rfl

/-- A node that stores published shards has what the repair needs. -/
structure Stocks (encoded holds buffers : List EncryptedChunk) : Prop where
  distinct : (encoded.map EncryptedChunk.id).Nodup
  holds_mem : ∀ e ∈ holds, e ∈ encoded
  buffers_mem : ∀ e ∈ buffers, e ∈ encoded
  four : encoded.length = 4

theorem Stocks.genuine (h : Stocks encoded holds buffers)
    {e : EncryptedChunk} (he : e ∈ encoded)
    (hhand : (stocked holds buffers).atHand e.id = some data) :
    data = e.data := by
  obtain ⟨e', he', hid, hdata⟩ := mem_stocked hhand
  have hmem : e' ∈ encoded := by
    rcases List.mem_append.1 he' with hh | hb
    · exact h.holds_mem e' hh
    · exact h.buffers_mem e' hb
  rw [← hdata, List.inj_on_of_nodup_map h.distinct hmem he hid]

theorem Stocks.noCollision (h : Stocks encoded holds buffers) :
    NoCollision P (stocked holds buffers) encoded :=
  fun _ he _ hhand _ => h.genuine he hhand

theorem Stocks.roomy (h : Stocks encoded holds buffers)
    (enc : EncodedAs P rs manifest encoded) :
    Roomy (stocked holds buffers) manifest.chunkIds
      ENCRYPTED_CHUNK_SIZE where
  chunk := le_rfl
  buffer := by
    intro c _ data hbuf
    rw [stocked_hosted] at hbuf
    obtain ⟨e, he, rfl⟩ := Option.map_eq_some_iff.1 hbuf
    exact (enc.sizes e
      (h.buffers_mem e (List.mem_of_find?_eq_some he))).le
  room := by
    rw [enc.ids, List.length_map, h.four]
    exact stocked_room

/-- What is at hand has the published sizes and hashes. -/
theorem Stocks.undamaged (h : Stocks encoded holds buffers)
    (enc : EncodedAs P rs manifest encoded) :
    Undamaged P (stocked holds buffers) manifest := by
  intro c hc data hhand
  rw [enc.ids] at hc
  obtain ⟨e, he, rfl⟩ := List.mem_map.1 hc
  rw [h.genuine he hhand]
  exact (enc.hashed e he).symm

theorem Stocks.even (h : Stocks encoded holds buffers)
    (enc : EncodedAs P rs manifest encoded) :
    Even (stocked holds buffers) manifest := by
  have hsize : ∀ c ∈ manifest.chunkIds, ∀ x,
      (stocked holds buffers).atHand c = some x →
        x.length = ENCRYPTED_CHUNK_SIZE := by
    intro c hc x hx
    rw [enc.ids] at hc
    obtain ⟨e, he, rfl⟩ := List.mem_map.1 hc
    rw [h.genuine he hx, enc.sizes e he]
  intro c hc x hx
  rw [hsize c hc x hx]
  exact ⟨Nat.succ_pos _, fun d hd y hy => (hsize d hd y hy).symm⟩

/-- A stored shard is at its published position. -/
theorem Stocks.position (h : Stocks encoded holds buffers)
    (enc : EncodedAs P rs manifest encoded) {i : Nat}
    {e : EncryptedChunk} (hi : encoded[i]? = some e)
    (he : e ∈ holds ++ buffers) :
    ∃ c data, manifest.chunkIds[i]? = some c
      ∧ ((stocked holds buffers).held c = some data
        ∨ (stocked holds buffers).hosted c = some data)
      ∧ P.blake3 data = c := by
  have hmem : e ∈ encoded := List.mem_of_getElem? hi
  refine ⟨e.id, e.data, ?_, ?_, (enc.hashed e hmem).symm⟩
  · rw [enc.ids, List.getElem?_map, hi]
    rfl
  · have hfind : ∀ l : List EncryptedChunk, (∀ e' ∈ l, e' ∈ encoded) →
        e ∈ l → (l.find? fun e' => e'.id = e.id).map EncryptedChunk.data
          = some e.data := by
      intro l hl hel
      obtain ⟨e', he'⟩ := Option.isSome_iff_exists.1
        ((List.find?_isSome (p := fun e' => e'.id = e.id)).2
          ⟨e, hel, decide_eq_true rfl⟩)
      have hid : e'.id = e.id := by simpa using List.find?_some he'
      rw [he', Option.map_some, List.inj_on_of_nodup_map h.distinct
        (hl e' (List.mem_of_find?_eq_some he')) hmem hid]
    rw [stocked_held, stocked_hosted]
    rcases List.mem_append.1 he with hh | hb
    · exact .inl (hfind holds h.holds_mem hh)
    · exact .inr (hfind buffers h.buffers_mem hb)

-- ======= all or some

/-- The repair of a published content keeps its promise exactly when the
reconstruction refuses the shards at hand for their sizes, or all of them
are undamaged and only data shards are lost. -/
theorem repair_restores_iff (P : Prims) (rs : ErasureCode)
    (rr : ErasureRepair) (json : Json) (d : PublishDraws)
    (fileData : List UInt8) (s : RunnerState) (published : ContentId)
    (manifest : ContentManifest) (publicKey : Bytes 32)
    (hpub : (publishContent P rs json d fileData s).1
      = .ok (published, manifest, publicKey))
    (laws : ReedSolomonLaws rs rr manifest.dataShards
      manifest.parityShards)
    (sizes : SizeChecked rr manifest.dataShards manifest.parityShards)
    (env : RepairEnv) (n : NodeState)
    (hreal : NoCollision P n (publishedShards P rs d fileData))
    (size : Nat) (roomy : Roomy n manifest.chunkIds size)
    (positions : Finset Nat)
    (sufficient : Sufficient P n manifest positions) :
    RepairKeepsPromise P rr env manifest n
      ↔ (Even n manifest →
          Undamaged P n manifest ∧ ParityAtHand n manifest) :=
  keepsPromise_iff env laws sizes
    (prepareContent_encoded laws (publishContent_prepared hpub)) hreal roomy
    sufficient.known

/-- What a publication does. -/
theorem publishContent_of (json : Json) (s : RunnerState)
    (hprep : prepareContent P rs d fileData = .ok (encoded, manifest)) :
    publishContent P rs json d fileData s
      = (.ok (contentIdFromPublic P (P.edPublic d.contentSk), manifest,
            P.edPublic d.contentSk),
          storeContent P json d encoded manifest (keepKeypair P d s)) := by
  unfold publishContent
  rw [hprep]

/-- A publication, concretely. -/
theorem publish_twoPieceFile :
    ∃ manifest,
      (publishContent Prims.plain pairCode unaryJson smallDraws twoPieceFile
        blankRunner).1
          = .ok (contentIdFromPublic Prims.plain
              (Prims.plain.edPublic smallDraws.contentSk), manifest,
            Prims.plain.edPublic smallDraws.contentSk)
      ∧ prepareContent Prims.plain pairCode smallDraws twoPieceFile
        = .ok (fourShards, manifest)
      ∧ manifest.dataShards = 2 ∧ manifest.parityShards = 2 := by
  obtain ⟨manifest, hprep, hk, hm⟩ := prepare_twoPieceFile
  refine ⟨manifest, ?_, hprep, hk, hm⟩
  rw [publishContent_of unaryJson blankRunner hprep]

theorem publishedShards_of
    (hprep : prepareContent P rs d fileData = .ok (encoded, manifest)) :
    publishedShards P rs d fileData = encoded := by
  unfold publishedShards
  rw [hprep]

/-- The publication, and what is known of its shards. -/
theorem twoPieceFile_published :
    ∃ manifest, (publishContent Prims.plain pairCode unaryJson smallDraws
        twoPieceFile blankRunner).1
          = .ok (contentIdFromPublic Prims.plain
              (Prims.plain.edPublic smallDraws.contentSk), manifest,
            Prims.plain.edPublic smallDraws.contentSk)
      ∧ manifest.dataShards = 2 ∧ manifest.parityShards = 2
      ∧ EncodedAs Prims.plain pairCode manifest fourShards
      ∧ publishedShards Prims.plain pairCode smallDraws twoPieceFile
        = fourShards
      ∧ ∃ a b p q, fourShards = [a, b, p, q]
        ∧ [a.id, b.id, p.id, q.id].Nodup := by
  obtain ⟨manifest, hpub, hprep, hk, hm⟩ := publish_twoPieceFile
  have enc : EncodedAs Prims.plain pairCode manifest fourShards := by
    have laws : ReedSolomonLaws pairCode pairRepair manifest.dataShards
        manifest.parityShards := by
      rw [hk, hm]
      exact pair_laws
    exact prepareContent_encoded laws hprep
  have hids := fourShards_ids
  have hlen : fourShards.length = 4 := by rw [enc.total, hk, hm]
  refine ⟨manifest, hpub, hk, hm, enc, publishedShards_of hprep, ?_⟩
  generalize fourShards = encoded at hids hlen
  obtain ⟨a, b, p, q, rfl⟩ := four_of_length hlen
  exact ⟨a, b, p, q, rfl, hids⟩

/-- The published chunk is held only as its data: the repair reports
success and there is no parity. -/
theorem parity_not_restored :
    ∃ manifest, (publishContent Prims.plain pairCode unaryJson smallDraws
        twoPieceFile blankRunner).1
          = .ok (contentIdFromPublic Prims.plain
              (Prims.plain.edPublic smallDraws.contentSk), manifest,
            Prims.plain.edPublic smallDraws.contentSk)
      ∧ NoCollision Prims.plain (stocked (fourShards.take 2) [])
          (publishedShards Prims.plain pairCode smallDraws twoPieceFile)
      ∧ Roomy (stocked (fourShards.take 2) []) manifest.chunkIds
          ENCRYPTED_CHUNK_SIZE
      ∧ Sufficient Prims.plain (stocked (fourShards.take 2) []) manifest
          {0, 1}
      ∧ ∀ env, ¬ RepairKeepsPromise Prims.plain pairRepair env manifest
          (stocked (fourShards.take 2) []) := by
  obtain ⟨manifest, hpub, hk, hm, enc, hshards, a, b, p, q, hfour, hids⟩ :=
    twoPieceFile_published
  rw [hshards]
  rw [hfour] at enc ⊢
  have stocks : Stocks [a, b, p, q] ([a, b, p, q].take 2) [] := by
    refine ⟨hids, ?_, ?_, rfl⟩
    · intro e he
      exact List.mem_of_mem_take he
    · intro e he
      cases he
  have hsufficient : Sufficient Prims.plain
      (stocked ([a, b, p, q].take 2) []) manifest {0, 1} := by
    refine ⟨by rw [hk]; decide, ?_⟩
    intro i hi
    rcases Finset.mem_insert.1 hi with rfl | hi
    · exact stocks.position (e := a) enc rfl (by simp)
    · obtain rfl := Finset.mem_singleton.1 hi
      exact stocks.position (e := b) enc rfl (by simp)
  refine ⟨manifest, hpub, stocks.noCollision, stocks.roomy enc,
    hsufficient, ?_⟩
  intro env hkeeps
  have sizes : SizeChecked pairRepair manifest.dataShards
      manifest.parityShards := by
    rw [hk, hm]
    exact pair_sizeChecked
  have hiff := keepsPromise_iff env (by rw [hk, hm]; exact pair_laws) sizes
    enc stocks.noCollision (stocks.roomy enc) hsufficient.known
  have hparity := (hiff.1 hkeeps (stocks.even enc)).2
  have hp : p.id ∈ manifest.chunkIds := by
    rw [enc.ids]
    simp
  have hlost : (stocked ([a, b, p, q].take 2) []).atHand p.id = none := by
    refine stocked_none ?_
    intro e he heq
    have hmem : e = a ∨ e = b := by simpa using he
    rcases hmem with rfl | rfl <;> simp [heq] at hids
  have hdata := hparity p.id hp hlost
  rw [enc.ids, hk] at hdata
  have hdata' : p.id = a.id ∨ p.id = b.id := by simpa using hdata
  rcases hdata' with heq | heq <;> simp [heq] at hids

/-- One data chunk is held and both parity chunks are buffered: the repair
restores all four. -/
theorem repair_restores_buffered :
    ∃ manifest holds buffers,
      (publishContent Prims.plain pairCode unaryJson smallDraws twoPieceFile
        blankRunner).1
          = .ok (contentIdFromPublic Prims.plain
              (Prims.plain.edPublic smallDraws.contentSk), manifest,
            Prims.plain.edPublic smallDraws.contentSk)
      ∧ ∀ env, RepairKeepsPromise Prims.plain pairRepair env manifest
          (stocked holds buffers) := by
  obtain ⟨manifest, hpub, hk, hm, enc, hshards, a, b, p, q, hfour, hids⟩ :=
    twoPieceFile_published
  rw [hfour] at enc hshards
  have stocks : Stocks [a, b, p, q] [a] [p, q] := by
    refine ⟨hids, ?_, ?_, rfl⟩
    · intro e he
      simp_all
    · intro e he
      simp_all
  have hsufficient : Sufficient Prims.plain (stocked [a] [p, q]) manifest
      {0, 2} := by
    refine ⟨by rw [hk]; decide, ?_⟩
    intro i hi
    rcases Finset.mem_insert.1 hi with rfl | hi
    · exact stocks.position (e := a) enc rfl (by simp)
    · obtain rfl := Finset.mem_singleton.1 hi
      exact stocks.position (e := p) enc rfl (by simp)
  refine ⟨manifest, [a], [p, q], hpub, ?_⟩
  intro env
  refine (repair_restores_iff Prims.plain pairCode pairRepair unaryJson
    smallDraws twoPieceFile blankRunner _ manifest _ hpub
    (by rw [hk, hm]; exact pair_laws)
    (by rw [hk, hm]; exact pair_sizeChecked) env (stocked [a] [p, q])
    (hshards ▸ stocks.noCollision) ENCRYPTED_CHUNK_SIZE
    (stocks.roomy enc) {0, 2} hsufficient).2 ?_
  intro _
  refine ⟨stocks.undamaged enc, ?_⟩
  intro c hc hnone
  rw [enc.ids, hk]
  rw [enc.ids] at hc
  obtain ⟨e, he, rfl⟩ := List.mem_map.1 hc
  -- only the second data chunk is lost
  have hstored : e ∉ [a] ++ [p, q] := by
    intro hmem
    obtain ⟨i, hi⟩ := List.getElem?_of_mem he
    obtain ⟨c, x, hci, hx, -⟩ := stocks.position enc hi hmem
    rw [enc.ids, List.getElem?_map, hi] at hci
    obtain rfl := Option.some.inj hci
    obtain ⟨y, hy⟩ := atHand_isSome hx
    rw [hnone] at hy
    cases hy
  have hb : e = b := by
    simp at he hstored
    rcases he with rfl | rfl | rfl | rfl <;> simp_all
  rw [hb]
  simp

end StaticNet
