/-
Erasure coding of a content item, there and back.

# The argument

The Reed-Solomon crate is assumed to be a systematic MDS code
(`ReedSolomonLaws`). `erasure_encode` then leaves the data chunks as they
are and appends the parity symbols, so the data of its result is the
codeword itself (`map_data_encode`). Dropping shards punctures that word
at the same positions, and any codeword that fits what is left is the one
that was encoded (`reconstruct_punctured`). The data shards come first in
it, and hashing them again gives back their ids.
-/
import StaticNet.Content.Basic
import StaticNet.Lib.Mds

namespace StaticNet

/-- What `encode` makes of `k` data shards with room for `m` parity
shards. -/
def codewords (rs : ErasureCode) (k m : Nat) : Set (List (List UInt8)) :=
  {w | ∃ shards, shards.length = k + m ∧ rs.encode k m shards = .ok w}

/-- What the Reed-Solomon crate documents for `k` data and `m` parity
shards: up to 256 shards of one positive size are encoded, the data
shards are left as they are and parity has their size, the code is MDS,
and reconstruction fills the holes of a received codeword with a codeword
that fits it. -/
structure ReedSolomonLaws (rs : ErasureCode) (rr : ErasureRepair)
    (k m : Nat) : Prop where
  accepts : ∀ shards size, 1 ≤ k → 1 ≤ m → k + m ≤ 256 → 0 < size →
    shards.length = k + m → (∀ s ∈ shards, s.length = size) →
    ∃ w, rs.encode k m shards = .ok w
  systematic : ∀ shards w, shards.length = k + m →
    rs.encode k m shards = .ok w →
    w.length = k + m ∧ w.take k = shards.take k
  same_size : ∀ shards w size, shards.length = k + m →
    rs.encode k m shards = .ok w → (∀ s ∈ shards, s.length = size) →
    ∀ s ∈ w, s.length = size
  mds : Mds k (codewords rs k m)
  fills : ∀ w received, w ∈ codewords rs k m → k ≤ known received →
    Agrees received w → ∃ v ∈ codewords rs k m, Agrees received v
      ∧ rr.reconstruct k m received = .ok v

/-- How the crate checks sizes when it reconstructs: enough shards of one
positive size are accepted, and empty shards or shards of different sizes
are not. -/
structure SizeChecked (rr : ErasureRepair) (k m : Nat) : Prop where
  accepts : ∀ received size, 0 < size → received.length = k + m →
    k ≤ known received → (∀ s, some s ∈ received → s.length = size) →
    ∃ filled, rr.reconstruct k m received = .ok filled
  refuses : ∀ received filled, rr.reconstruct k m received = .ok filled →
    ∀ s, some s ∈ received → 0 < s.length
      ∧ ∀ t, some t ∈ received → s.length = t.length

variable {P : Prims} {rs : ErasureCode} {rr : ErasureRepair} {k m : Nat}
  {chunks encoded : List EncryptedChunk}

-- ========== encoding

/-- The shards handed to the encoder: the data and room for parity. -/
def shardsFor (chunks : List EncryptedChunk) (m : Nat) :
    List (List UInt8) :=
  chunks.map EncryptedChunk.data
    ++ List.replicate m (List.replicate
      ((chunks.head?.map fun c => c.data.length).getD 0) 0)

theorem length_shardsFor (h : chunks.length = k) :
    (shardsFor chunks m).length = k + m := by
  simp [shardsFor, h]

theorem take_shardsFor (h : chunks.length = k) :
    (shardsFor chunks m).take k = chunks.map EncryptedChunk.data := by
  unfold shardsFor
  rw [List.take_append_of_le_length (by rw [List.length_map, h]),
    List.take_of_length_le (by rw [List.length_map, h])]

/-- Shards of one size stay of one size with the room for parity. -/
theorem size_shardsFor {size : Nat} (hpos : 1 ≤ chunks.length)
    (hsize : ∀ c ∈ chunks, c.data.length = size) :
    ∀ s ∈ shardsFor chunks m, s.length = size := by
  intro s hs
  rcases List.mem_append.1 hs with hdata | hparity
  · obtain ⟨c, hc, rfl⟩ := List.mem_map.1 hdata
    exact hsize c hc
  · obtain rfl := List.eq_of_mem_replicate hparity
    cases chunks with
    | nil => exact absurd hpos (by simp)
    | cons c rest =>
        rw [List.length_replicate]
        exact hsize c List.mem_cons_self

/-- The result of `erasure_encode`, from the codeword. -/
def encodedAs (P : Prims) (chunks : List EncryptedChunk) (m : Nat)
    (w : List (List UInt8)) : List EncryptedChunk :=
  chunks ++ (w.drop (w.length - m)).map fun shard => ⟨P.blake3 shard, shard⟩

/-- A successful encoding is the data chunks and the parity of one
codeword, each parity shard named by its hash. -/
theorem erasureEncode_ok (laws : ReedSolomonLaws rs rr k m)
    (h : erasureEncode P rs chunks k m = .ok encoded) :
    chunks.length = k
      ∧ ∃ w, rs.encode k m (shardsFor chunks m) = .ok w
        ∧ w ∈ codewords rs k m ∧ w.length = k + m
        ∧ w.take k = chunks.map EncryptedChunk.data
        ∧ encoded = encodedAs P chunks m w := by
  unfold erasureEncode at h
  by_cases hcount : chunks.length = k
  · rw [if_neg (not_not.2 hcount)] at h
    dsimp only at h
    cases hw : rs.encode k m (shardsFor chunks m) with
    | error reason =>
        unfold shardsFor at hw
        rw [hw] at h
        cases h
    | ok w =>
        obtain ⟨hlen, htake⟩ :=
          laws.systematic _ w (length_shardsFor hcount) hw
        rw [take_shardsFor hcount] at htake
        have hw' := hw
        unfold shardsFor at hw'
        rw [hw'] at h
        have hencoded := Except.ok.inj h
        refine ⟨hcount, w, rfl, ⟨_, length_shardsFor hcount, hw⟩, hlen,
          htake, ?_⟩
        rw [← hencoded]
        unfold encodedAs
        congr 1
        · apply List.ext_getElem?
          intro i
          rw [List.getElem?_map, List.getElem?_zipIdx, Option.map_map]
          cases hc : chunks[i]? with
          | none => rfl
          | some c =>
              -- the codeword starts with the data of the chunks
              have hi : i < k := by
                rw [← hcount]
                exact (List.getElem?_eq_some_iff.1 hc).1
              have hdata : w[i]? = some c.data := by
                rw [← List.getElem?_take_of_lt hi, htake,
                  List.getElem?_map, hc]
                rfl
              simp [List.getD, hdata]
        · apply List.ext_getElem?
          intro i
          rw [List.getElem?_map, List.getElem?_map, List.getElem?_drop,
            hlen, Nat.add_sub_cancel]
          by_cases hi : i < m
          · rw [List.getElem?_range hi, List.getElem?_eq_getElem
              (show k + i < w.length by omega)]
            simp [List.getD]
            rw [List.getElem?_eq_getElem (show k + i < w.length by omega)]
            simp
          · rw [List.getElem?_eq_none (by simp; omega),
              List.getElem?_eq_none (by omega)]
            rfl
  · rw [if_pos hcount] at h
    cases h

/-- Up to 256 shards of one positive size are encoded. -/
theorem erasureEncode_accepts {size : Nat}
    (laws : ReedSolomonLaws rs rr k m) (hk : 1 ≤ k) (hm : 1 ≤ m)
    (hmax : k + m ≤ 256) (hpos : 0 < size) (hcount : chunks.length = k)
    (hsize : ∀ c ∈ chunks, c.data.length = size) :
    ∃ encoded, erasureEncode P rs chunks k m = .ok encoded := by
  obtain ⟨w, hw⟩ := laws.accepts (shardsFor chunks m) size hk hm hmax hpos
    (length_shardsFor hcount) (size_shardsFor (hcount ▸ hk) hsize)
  unfold shardsFor at hw
  unfold erasureEncode
  dsimp only
  rw [if_neg (not_not.2 hcount), hw]
  exact ⟨_, rfl⟩

/-- The data of what was encoded is the codeword. -/
theorem map_data_encode {w : List (List UInt8)} (hlen : w.length = k + m)
    (htake : w.take k = chunks.map EncryptedChunk.data) :
    (encodedAs P chunks m w).map EncryptedChunk.data = w := by
  unfold encodedAs
  rw [List.map_append, List.map_map, ← htake, hlen, Nat.add_sub_cancel]
  have hparity : (w.drop k).map (EncryptedChunk.data ∘
      fun shard => ⟨P.blake3 shard, shard⟩) = w.drop k := List.map_id _
  rw [hparity, List.take_append_drop]

/-- Whatever was encoded is named by its hash, if the data was. -/
theorem hashed_encode {w : List (List UInt8)}
    (hids : ∀ c ∈ chunks, c.id = P.blake3 c.data) :
    ∀ e ∈ encodedAs P chunks m w, e.id = P.blake3 e.data := by
  intro e he
  rcases List.mem_append.1 he with hdata | hparity
  · exact hids e hdata
  · obtain ⟨shard, -, rfl⟩ := List.mem_map.1 hparity
    rfl

-- ========== decoding

/-- Enough shards of a codeword give the whole codeword. -/
theorem reconstruct_agrees (laws : ReedSolomonLaws rs rr k m)
    {w : List (List UInt8)} {received : List (Option (List UInt8))}
    (hw : w ∈ codewords rs k m) (hk : k ≤ known received)
    (hfits : Agrees received w) :
    rr.reconstruct k m received = .ok w := by
  obtain ⟨v, hv, hagrees, hok⟩ := laws.fills w received hw hk hfits
  rw [hok, laws.mds.filled hw hv hk hfits hagrees]

/-- Chunks named by their hashes are what hashing their data gives. -/
theorem rehashed (hids : ∀ c ∈ chunks, c.id = P.blake3 c.data) :
    (chunks.map EncryptedChunk.data).map (fun d => ⟨P.blake3 d, d⟩)
      = chunks := by
  rw [List.map_map]
  conv_rhs => rw [← List.map_id chunks]
  apply List.map_congr_left
  intro c hc
  show (⟨P.blake3 c.data, c.data⟩ : EncryptedChunk) = c
  rw [← hids c hc]

theorem known_map {S T : Type} (f : S → T) (received : List (Option S)) :
    known (received.map (Option.map f)) = known received := by
  unfold known
  rw [List.countP_map]
  congr 1
  funext s
  cases s <;> rfl

/-- Too few shards are refused, with the counts. -/
theorem erasureDecode_few {received : List (Option EncryptedChunk)}
    (hlen : received.length = k + m) (hfew : known received < k) :
    erasureDecode P rr received k m
      = .error (.insufficientShards (known received) k) := by
  unfold erasureDecode
  dsimp only
  rw [if_neg (not_not.2 hlen)]
  exact if_pos hfew

/-- Enough shards decode to the data shards of what was reconstructed. -/
theorem erasureDecode_filled {received : List (Option EncryptedChunk)}
    {filled : List (List UInt8)} (hlen : received.length = k + m)
    (hk : k ≤ known received)
    (hfilled : rr.reconstruct k m
      (received.map (Option.map EncryptedChunk.data)) = .ok filled) :
    erasureDecode P rr received k m
      = .ok ((filled.take k).map fun d => ⟨P.blake3 d, d⟩) := by
  have hk' : ¬ received.countP Option.isSome < k := Nat.not_lt.2 hk
  unfold erasureDecode
  dsimp only
  rw [if_neg (not_not.2 hlen), if_neg hk', hfilled]

/-- What is decoded was reconstructed. -/
theorem erasureDecode_ok {received : List (Option EncryptedChunk)}
    (h : erasureDecode P rr received k m = .ok chunks) :
    ∃ filled, rr.reconstruct k m
      (received.map (Option.map EncryptedChunk.data)) = .ok filled := by
  unfold erasureDecode at h
  dsimp only at h
  by_cases hlen : received.length = k + m
  · by_cases hfew : received.countP Option.isSome < k
    · rw [if_neg (not_not.2 hlen), if_pos hfew] at h
      cases h
    · rw [if_neg (not_not.2 hlen), if_neg hfew] at h
      cases hfilled : rr.reconstruct k m
          (received.map (Option.map EncryptedChunk.data)) with
      | error reason =>
          rw [hfilled] at h
          cases h
      | ok filled => exact ⟨filled, rfl⟩
  · rw [if_pos hlen] at h
    cases h

/-- Enough shards of a codeword decode to its data shards. -/
theorem erasureDecode_agrees (laws : ReedSolomonLaws rs rr k m)
    {w : List (List UInt8)} {received : List (Option EncryptedChunk)}
    (hw : w ∈ codewords rs k m) (hlen : received.length = k + m)
    (hk : k ≤ known received)
    (hfits : Agrees (received.map (Option.map EncryptedChunk.data)) w) :
    erasureDecode P rr received k m
      = .ok ((w.take k).map fun d => ⟨P.blake3 d, d⟩) :=
  erasureDecode_filled hlen hk
    (reconstruct_agrees laws hw ((known_map _ _).symm ▸ hk) hfits)

-- ======== round trip

/-- Data chunks that are named by their hashes survive any loss that
leaves as many shards as there were data chunks, and a greater loss is
reported with its size. -/
theorem erasure_round_trip (P : Prims) (rs : ErasureCode)
    (rr : ErasureRepair) (k m : Nat) (hk : 1 ≤ k) (hm : 1 ≤ m)
    (laws : ReedSolomonLaws rs rr k m) (chunks : List EncryptedChunk)
    (hcount : chunks.length = k) (size : Nat)
    (hsize : ∀ c ∈ chunks, c.data.length = size)
    (hids : ∀ c ∈ chunks, c.id = P.blake3 c.data) :
    (k + m ≤ 256 → 0 < size →
      ∃ encoded, erasureEncode P rs chunks k m = .ok encoded)
      ∧ ∀ encoded, erasureEncode P rs chunks k m = .ok encoded →
        encoded.take k = chunks ∧ encoded.length = k + m
        ∧ (∀ e ∈ encoded, e.id = P.blake3 e.data)
        ∧ ∀ kept ⊆ Finset.range (k + m),
          erasureDecode P rr (punctured kept encoded) k m
            = if k ≤ kept.card then .ok chunks
              else .error (.insufficientShards kept.card k) := by
  constructor
  · intro hmax hpos
    exact erasureEncode_accepts laws hk hm hmax hpos hcount hsize
  · intro encoded hok
    obtain ⟨-, w, -, hw, hlen, htake, rfl⟩ := erasureEncode_ok laws hok
    have hdata := map_data_encode (P := P) hlen htake
    have hlength : (encodedAs P chunks m w).length = k + m := by
      have h := congrArg List.length hdata
      rw [List.length_map, hlen] at h
      exact h
    refine ⟨?_, hlength, hashed_encode hids, ?_⟩
    · unfold encodedAs
      rw [List.take_append_of_le_length (by rw [hcount]),
        List.take_of_length_le (by rw [hcount])]
    · intro kept hkept
      have hknown : known (punctured kept (encodedAs P chunks m w))
          = kept.card := known_punctured (hlength.symm ▸ hkept)
      have hlen' : (punctured kept (encodedAs P chunks m w)).length
          = k + m := by rw [length_punctured, hlength]
      by_cases hcard : k ≤ kept.card
      · rw [if_pos hcard, erasureDecode_agrees laws hw hlen'
          (hknown.symm ▸ hcard)
          (by rw [map_punctured, hdata]; exact agrees_punctured), htake,
          rehashed hids]
      · rw [if_neg hcard, erasureDecode_few hlen' (by omega), hknown]

-- ==== one data shard

/-- One data shard and one parity shard: the parity is a copy. -/
def mirrorCode : ErasureCode where
  encode k n shards :=
    if k = 1 ∧ n = 1 then .ok (shards.take 1 ++ shards.take 1)
    else .error "not a single shard"

/-- Either copy stands for both. -/
def mirrorRepair : ErasureRepair where
  reconstruct k n received :=
    if k = 1 ∧ n = 1 then
      match received.findSome? id with
      | some shard => .ok (received.map fun _ => shard)
      | none => .error "too few shards present"
    else .error "not a single shard"

end StaticNet
