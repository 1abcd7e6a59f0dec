/-
Every reader of what a peer sends, on every byte string.

# No panic

The readers of bodies, of reply blocks, fragments and session replies
never take bytes that are not there. The readers of frames are safe but
for one kind of frame (`decoders_safe_iff`): a packet whose KEM section
is declared longer than the packet.

# The two readers of a chunk request

The reader with every access gives what the function on byte strings
gives, so what is proved of one holds of the other.
-/
import StaticNet.Bodies.Basic
import StaticNet.Wire.Checked

namespace StaticNet

open Cursor

-- ============ bodies

section Bodies

variable {data : List UInt8} {E : StorageError → Prop}

/-- A loop whose steps check for themselves is safe anywhere. -/
theorem many_safe {α : Type} {c : Cursor StorageError α}
    (h : ∀ off, c.Meets data off (fun _ _ => True) fun _ => True)
    (n off : Nat) :
    (many c n).Meets data off (fun _ _ => True) fun _ => True :=
  Meets.many (fun _ off _ => h off) n off trivial

/-- A reader that is safe anywhere, before another. -/
theorem Cursor.Meets.andThen {α : Type} {c : Cursor StorageError α}
    {off : Nat} {Q : α → Nat → Prop}
    (h : c.Meets data off (fun _ _ => True) fun _ => True)
    (hq : ∀ a off', Q a off') : c.Meets data off Q fun _ => True :=
  h.mono (fun a off' _ => hq a off') fun _ _ => trivial

@[simp ↓] theorem meets_typeByte {whenEmpty : Nat} {type : UInt8}
    {Q : Unit → Nat → Prop} :
    (typeByte whenEmpty type).Meets data 0 Q (fun _ => True)
      ↔ (data ≠ [] → data.getD 0 0 = type → Q () 1) := by
  simp [typeByte]
  constructor
  · intro h hne
    exact (h hne).2
  · intro h hne
    exact ⟨List.length_pos_iff.2 hne, h hne⟩

theorem checkedRoute_safe (maxHops off : Nat) :
    (Checked.returnRoute maxHops).Meets data off (fun _ _ => True)
      fun _ => True := by
  simp [Checked.returnRoute]
  intro _ _
  refine (many_safe ?_ _ _).andThen fun _ _ => by simp
  intro off
  simp [Checked.hop]
  omega

theorem takeReturnRoute_safe (off : Nat) :
    Verification.takeReturnRoute.Meets data off (fun _ _ => True)
      fun _ => True := by
  simp [Verification.takeReturnRoute]
  intro _ _
  refine (many_safe ?_ _ _).andThen fun _ _ => by simp
  intro off
  simp

theorem surb_safe (off : Nat) :
    Checked.surb.Meets data off (fun _ _ => True) fun _ => True := by
  simp [Checked.surb]
  omega

/-- Room for all the hops and the destination is checked once; each hop
leaves room for the rest. -/
theorem computeRoute_safe (off : Nat) :
    Compute.returnRoute.Meets data off (fun _ _ => True) fun _ => True := by
  simp [Compute.returnRoute]
  intro _ _ hroom
  have hstep : ∀ n off, off + (n + 1) * 48 + 16 ≤ data.length →
      Compute.hop.Meets data off
        (fun _ off' => off' + n * 48 + 16 ≤ data.length)
        fun _ => True := by
    intro n off hn
    simp [Compute.hop]
    omega
  refine (Meets.many (I := fun n off => off + n * 48 + 16 ≤ data.length)
    hstep _ _ (by omega)).mono ?_ fun _ _ => trivial
  intro hops off hend
  omega

end Bodies

theorem BodyKind.safe (kind : BodyKind) (data : List UInt8) :
    kind.deserialize.Safe data := by
  rw [safe_iff]
  cases kind with
  | chunkRequest =>
      simp [BodyKind.deserialize, Checked.deserializeRequest]
      intro _ _ _
      exact (checkedRoute_safe _ _).andThen fun _ off => surb_safe off
  | chunkResponse =>
      simp [BodyKind.deserialize, Checked.deserializeResponse]
  | computeRequest =>
      simp [BodyKind.deserialize, Compute.deserializeRequest]
      intro _ _ _ _ _ _ _ _ _ _
      exact computeRoute_safe _
  | computeResponse =>
      simp [BodyKind.deserialize, Compute.deserializeResponse,
        Compute.errorText, utf8]
      intro _ _ _ _ _ _
      exact ⟨fun _ _ _ _ => by omega, fun _ _ => by omega⟩
  | paymentRequest =>
      simp [BodyKind.deserialize, Compute.deserializePaymentRequest,
        Compute.currencyByte, utf8]
  | paymentConfirmation =>
      simp [BodyKind.deserialize, Compute.deserializePaymentConfirmation,
        Compute.currencyByte, utf8]
  | challenge =>
      simp [BodyKind.deserialize, Verification.deserializeChallenge]
      intro _ _ _ _ _
      exact takeReturnRoute_safe _
  | response =>
      simp [BodyKind.deserialize, Verification.deserializeResponse]
  | gossip =>
      simp [BodyKind.deserialize, deserializeGossip]
      intro _ _ _ _ _
      exact checkedRoute_safe _ _
  | heartbeat =>
      simp [BodyKind.deserialize, Heartbeat.wireDeserialize,
        Heartbeat.deserialize]
      intro _ _ _
      refine ⟨by omega, by omega, by omega, fun _ => ?_⟩
      refine (many_safe ?_ _ _).andThen fun _ off => ?_
      · intro off
        simp
      · omega

-- ==== the chunk messages

section Chunks

variable {data : List UInt8}

theorem meets_hop {off : Nat} {Q : RouteHop → Nat → Prop}
    {E : StorageError → Prop} : Checked.hop.Meets data off Q E
      ↔ (off + 48 ≤ data.length →
          Q ⟨Bytes.ofList 32 (slice data off 32),
            Bytes.ofList 16 (slice data (off + 32) 16)⟩ (off + 48))
        ∧ (data.length < off + 48 → E (short (off + 48) data.length)) := by
  simp [Checked.hop]
  intro _
  constructor
  · intro h hroom
    exact (h hroom).2.2
  · intro h hroom
    exact ⟨by omega, hroom, h hroom⟩

/-- The loop over hops, with the offset and the tail it leaves. -/
theorem hops_meets (n off : Nat) :
    (many Checked.hop n).Meets data off
      (fun hops off' => readHops data.length n off (data.drop off)
        = .ok (hops, off', data.drop off'))
      fun e => readHops data.length n off (data.drop off) = .error e := by
  induction n generalizing off with
  | zero => exact (meets_pure _).2 rfl
  | succ n ih =>
      unfold Cursor.many readHops
      rw [meets_bind, meets_hop, List.length_drop, List.drop_drop,
        List.drop_drop]
      by_cases hroom : data.length < off + 48
      · rw [if_pos (by omega)]
        exact ⟨fun hlong => absurd hroom (Nat.not_lt.2 hlong), fun _ => rfl⟩
      · rw [if_neg (by omega)]
        refine ⟨fun _ => ?_, fun hshort => absurd hshort hroom⟩
        rw [meets_bind]
        refine (ih (off + 48)).mono ?_ ?_
        · intro hops off' hok
          rw [meets_pure, hok]
          rfl
        · intro e herror
          rw [herror]

theorem surb_meets (off : Nat) :
    Checked.surb.Meets data off
      (fun surb _ => readSurb data.length off (data.drop off) = .ok surb)
      fun e => readSurb data.length off (data.drop off) = .error e := by
  have hslice : ∀ n, slice (data.drop off) 1 n = slice data (off + 1) n
      ∧ slice (data.drop off) 5 n = slice data (off + 5) n := by
    intro n
    simp [slice]
  unfold Checked.surb
  rw [meets_bind, meets_remaining]
  by_cases htail : (data.drop off).any fun b => b ≠ 0
  · obtain ⟨r, hr⟩ : ∃ r, readSurb data.length off (data.drop off) = r :=
      ⟨_, rfl⟩
    have heq := hr
    unfold readSurb at heq
    simp only [if_pos htail, (hslice _).1, (hslice _).2, List.length_drop,
      List.getD_eq_getElem?_getD, List.getElem?_drop, Nat.add_zero] at heq
    rw [if_pos htail, hr]
    simp
    refine ⟨fun hfive => ⟨by omega, fun hmark => ⟨by omega, ?_, ?_⟩, ?_⟩, ?_⟩
    · intro hmax hroom
      rw [if_neg (by simp [hmark]; omega), if_neg (by omega)] at heq
      exact ⟨by omega, heq.symm⟩
    · intro hbad
      rw [if_neg (by simp [hmark]; omega), if_pos (by omega)] at heq
      exact heq.symm
    · intro hmark
      rw [if_pos (Or.inr hmark)] at heq
      exact heq.symm
    · intro hshort
      rw [if_pos (by omega)] at heq
      exact heq.symm
  · rw [if_neg htail]
    unfold readSurb
    rw [if_neg htail]
    exact (meets_pure _).2 rfl

theorem deserializeRequest_run :
    Checked.deserializeRequest.run data
      = total (StaticNet.deserializeRequest data) := by
  apply Meets.run_eq
  obtain ⟨r, hr⟩ : ∃ r, StaticNet.deserializeRequest data = r := ⟨_, rfl⟩
  have heq := hr
  unfold StaticNet.deserializeRequest at heq
  rw [hr]
  simp [Checked.deserializeRequest, typeByte, Checked.returnRoute]
  simp [List.drop_drop, Checked.take_drop_eq_slice,
    -List.drop_one] at heq
  refine ⟨fun hne => ⟨List.length_pos_iff.2 hne, ?_, fun htype => ?_⟩,
    fun hempty => ?_⟩
  · intro htype
    rw [if_neg hne, if_pos htype] at heq
    refine ⟨fun hid => ⟨fun hcount => ⟨fun hmax => ?_, ?_⟩, ?_⟩, ?_⟩
    · rw [if_neg (by omega), if_neg (by omega),
        if_neg (Nat.not_lt.2 hmax)] at heq
      refine (hops_meets _ _).mono ?_ ?_
      · intro hops off hok
        rw [hok] at heq
        simp only [List.length_drop, List.drop_drop] at heq
        refine ⟨fun hroom => ?_, fun hshort => ?_⟩
        · rw [if_neg (by omega)] at heq
          refine (surb_meets _).mono ?_ ?_
          · intro surb _ hsurb
            rw [hsurb] at heq
            exact heq.symm
          · intro e herror
            rw [herror] at heq
            exact heq.symm
        · rw [if_pos (by omega)] at heq
          exact heq.symm
      · intro e herror
        rw [herror] at heq
        exact heq.symm
    · intro hmax
      rw [if_neg (by omega), if_neg (by omega), if_pos hmax] at heq
      exact heq.symm
    · intro hcount
      rw [if_neg (by omega), if_pos (by omega)] at heq
      exact heq.symm
    · intro hid
      rw [if_pos (by omega)] at heq
      exact heq.symm
  · rw [if_neg hne, if_neg htype] at heq
    exact heq.symm
  · rw [if_pos hempty] at heq
    exact heq.symm

theorem deserializeResponse_run :
    Checked.deserializeResponse.run data
      = total (StaticNet.deserializeResponse data) := by
  apply Meets.run_eq
  obtain ⟨r, hr⟩ : ∃ r, StaticNet.deserializeResponse data = r := ⟨_, rfl⟩
  have heq := hr
  unfold StaticNet.deserializeResponse at heq
  rw [hr]
  simp [Checked.deserializeResponse, typeByte]
  simp [List.drop_drop, Checked.take_drop_eq_slice,
    -List.drop_one] at heq
  refine ⟨fun hne => ⟨List.length_pos_iff.2 hne, ?_, fun htype => ?_⟩,
    fun hempty => ?_⟩
  · intro htype
    rw [if_neg hne, if_pos htype] at heq
    refine ⟨fun hid => ⟨fun hfound => ⟨fun hlen => ⟨fun hdata => ?_,
      fun hdata => ?_⟩, ?_⟩, ?_⟩, ?_⟩
    · rw [if_neg (by omega), if_neg (by omega), if_neg (by omega),
        if_neg (by omega)] at heq
      exact heq.symm
    · rw [if_neg (by omega), if_neg (by omega), if_neg (by omega),
        if_pos (by omega)] at heq
      exact heq.symm
    · intro hlen
      rw [if_neg (by omega), if_neg (by omega), if_pos (by omega)] at heq
      exact heq.symm
    · intro hfound
      rw [if_neg (by omega), if_pos (by omega)] at heq
      exact heq.symm
    · intro hid
      rw [if_pos (by omega)] at heq
      exact heq.symm
  · rw [if_neg hne, if_neg htype] at heq
    exact heq.symm
  · rw [if_pos hempty] at heq
    exact heq.symm

end Chunks

-- ====== every reader

/-- The readers of what a peer sends. -/
inductive Decoder
  | message
  | tryRead
  | sessionReply
  | surb
  | fragment
  | body (kind : BodyKind)

namespace Decoder

/-- The reader does not panic on these bytes. -/
def Safe : Decoder → List UInt8 → Prop
  | .message, data => Checked.deserializeMessage.Safe data
  | .tryRead, data => Checked.tryReadMessage.Safe data
  | .sessionReply, data => Checked.deserializeReply.Safe data
  | .surb, data => Checked.deserializeSurb.Safe data
  | .fragment, data => Checked.deserializeFragment.Safe data
  | .body kind, data => kind.deserialize.Safe data

/-- The frames with a packet that is shorter than its KEM section says;
the incremental reader turns large frames away before. -/
def Overruns : Decoder → List UInt8 → Prop
  | .message, data => Checked.FrameOverruns data
  | .tryRead, data => ofBeBytes (slice data 1 4) ≤ PADDED_MESSAGE_SIZE
      ∧ Checked.FrameOverruns data
  | .sessionReply, _ => False
  | .surb, _ => False
  | .fragment, _ => False
  | .body _, _ => False

end Decoder

/-- A reader does not panic, exactly when the bytes are no frame with a
packet that is shorter than its KEM section says. -/
theorem decoders_safe_iff (decoder : Decoder) (data : List UInt8) :
    decoder.Safe data ↔ ¬ decoder.Overruns data := by
  cases decoder with
  | message => exact Checked.deserializeMessage_safe
  | tryRead => exact Checked.tryReadMessage_safe
  | sessionReply =>
      exact ⟨fun _ => id, fun _ =>
        safe_of_run_eq (Checked.deserializeReply_run data)⟩
  | surb =>
      exact ⟨fun _ => id, fun _ =>
        safe_of_run_eq (Checked.deserializeSurb_run data)⟩
  | fragment =>
      exact ⟨fun _ => id, fun _ =>
        safe_of_run_eq (Checked.deserializeFragment_run data)⟩
  | body kind => exact ⟨fun _ => id, fun _ => kind.safe data⟩

/-- A classical packet of the least length that declares a KEM section of
five ciphertexts. -/
def shortPacket : List UInt8 :=
  List.replicate 65 0
    ++ (beBytes 4 (5 * KEM_CIPHERTEXT_SIZE)
    ++ List.replicate (Checked.SPHINX_MIN - 69) 0)

def shortFrame : List UInt8 :=
  [MSG_SPHINX] ++ (beBytes 4 Checked.SPHINX_MIN ++ shortPacket)

theorem length_shortPacket : shortPacket.length = Checked.SPHINX_MIN := by
  unfold shortPacket
  rw [List.length_append, List.length_append, List.length_replicate,
    List.length_replicate, length_beBytes]
  decide

theorem shortPacket_overruns : Checked.Overruns shortPacket := by
  have hbytes : slice shortPacket 65 4
      = beBytes 4 (5 * KEM_CIPHERTEXT_SIZE) :=
    slice_field (List.replicate 65 0) _ rfl List.length_replicate
      (length_beBytes _ _)
  have hkem : Checked.declaredKem shortPacket = 5 * KEM_CIPHERTEXT_SIZE := by
    unfold Checked.declaredKem
    rw [hbytes]
    decide
  have hversion : shortPacket.getD 0 0 = 0 := rfl
  refine ⟨?_, ?_, ?_, ?_⟩
  · rw [length_shortPacket]
    decide
  · rw [length_shortPacket]
  · rw [hkem, hversion]
    decide
  · unfold Checked.fixedLen
    rw [length_shortPacket, hkem]
    decide

theorem size_shortFrame :
    ofBeBytes (slice shortFrame 1 4) = Checked.SPHINX_MIN := by
  have hbytes : slice shortFrame 1 4 = beBytes 4 Checked.SPHINX_MIN :=
    slice_field [MSG_SPHINX] shortPacket rfl rfl (length_beBytes _ _)
  rw [hbytes]
  decide

theorem shortFrame_overruns : Checked.FrameOverruns shortFrame := by
  have hsize := size_shortFrame
  have hpayload : slice shortFrame 5 Checked.SPHINX_MIN = shortPacket :=
    slice_field ([MSG_SPHINX] ++ beBytes 4 Checked.SPHINX_MIN) []
      (by rw [List.append_nil, List.append_assoc]; rfl)
      (by rw [List.length_append, length_beBytes]; rfl)
      length_shortPacket
  have hlen : shortFrame.length = 5 + Checked.SPHINX_MIN := by
    unfold shortFrame
    rw [List.length_append, List.length_append, length_beBytes,
      length_shortPacket, List.length_singleton]
    omega
  refine ⟨by omega, by omega, rfl, ?_, ?_⟩
  · rw [hsize, hpayload, length_shortPacket]
    decide
  · rw [hsize, hpayload]
    exact shortPacket_overruns

/-- The incremental reader, on a frame that it lets through. -/
theorem shortFrame_unsafe :
    ¬ ∀ (decoder : Decoder) (data : List UInt8), decoder.Safe data := by
  intro h
  have hsafe := h .tryRead shortFrame
  have hcap : ofBeBytes (slice shortFrame 1 4) ≤ PADDED_MESSAGE_SIZE := by
    rw [size_shortFrame]
    decide
  exact Checked.tryReadMessage_safe.1 hsafe ⟨hcap, shortFrame_overruns⟩

end StaticNet
