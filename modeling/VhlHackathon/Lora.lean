import VhlHackathon.Radio
set_option autoImplicit false

/-!
The radio task: one heartbeat sent, or one packet received, for each call.
-/

namespace VhlHackathon

open Postcard (toLeBytes)

/-- What the radio driver answers during one call of the task. -/
structure RadioDriver where
  /-- `poll_irq` returns Ok -/
  pollIrq : Bool
  readPacket : Option (List UInt8)
  packetRssi : Option Int32
  /-- `transmit_payload` returns Ok -/
  transmitPayload : List UInt8 → Bool

structure LoraOut where
  localHeartbeat : HeartBeat
  remoteHeartbeat : HeartBeat
  onAir : Option (List UInt8)
  result : Bool
  deriving DecidableEq, Repr

/-- `uptime += 1`, wrapping like a build without overflow checks, and the strength of the
last packet received. -/
def HeartBeat.next (hb : HeartBeat) (rssi : Option Int32) : HeartBeat :=
  { uptime := hb.uptime + 1, remoteRssi := rssi.getD (-777) }

/-- `none` where the task panics. -/
def loraTask (c : Crates) (radio : Option RadioDriver) (isRx : Bool)
    (localHeartbeat remoteHeartbeat : HeartBeat) : Option LoraOut :=
  match radio with
  | none => some ⟨localHeartbeat, remoteHeartbeat, none, false⟩
  | some radio =>
    if isRx then
      if radio.pollIrq then
        match radio.readPacket with
        | some packet =>
          match RadioFrame.deserialize c packet with
          | none => none
          | some (.ok frame) =>
            match frame.frameType with
            | .heartBeat hb => some ⟨localHeartbeat, hb, none, true⟩
          | some (.error _) => some ⟨localHeartbeat, remoteHeartbeat, none, false⟩
        | none => some ⟨localHeartbeat, remoteHeartbeat, none, false⟩
      else some ⟨localHeartbeat, remoteHeartbeat, none, false⟩
    else
      let localHeartbeat := localHeartbeat.next radio.packetRssi
      let frame := RadioFrame.new 10 110 (.heartBeat localHeartbeat)
      match frame.serialize c (List.replicate 255 0) with
      | none => none
      | some (.ok buf) =>
        if radio.transmitPayload buf then some ⟨localHeartbeat, remoteHeartbeat, some buf, true⟩
        else some ⟨localHeartbeat, remoteHeartbeat, none, false⟩
      | some (.error _) => some ⟨localHeartbeat, remoteHeartbeat, none, false⟩

theorem loraTask_refused (c : Crates) (radio : RadioDriver) (own far : HeartBeat)
    (h : ∀ packet, radio.readPacket = some packet →
      ∃ e, RadioFrame.deserialize c packet = some (.error e)) :
    loraTask c (some radio) true own far = some ⟨own, far, none, false⟩ := by
  cases hpoll : radio.pollIrq with
  | false => simp [loraTask, hpoll]
  | true =>
    cases hread : radio.readPacket with
    | none => simp [loraTask, hpoll, hread]
    | some packet =>
      obtain ⟨e, refused⟩ := h packet hread
      simp [loraTask, hpoll, hread, refused]

theorem loraTask_accepted (c : Crates) {radio : RadioDriver} (own far hb : HeartBeat)
    {packet : List UInt8} (hpoll : radio.pollIrq = true) (hread : radio.readPacket = some packet)
    {source destination : UInt32} (h : RadioFrame.deserialize c packet
      = some (.ok (.new source destination (.heartBeat hb)))) :
    loraTask c (some radio) true own far = some ⟨own, hb, none, true⟩ := by
  simp [loraTask, hpoll, hread, h, RadioFrame.new]

theorem loraTask_onAir (c : Crates) {radio : RadioDriver} {own far : HeartBeat} {out : LoraOut}
    {packet : List UInt8} (h : loraTask c (some radio) false own far = some out)
    (hair : out.onAir = some packet) :
    packet = c.packet (.new 10 110 (.heartBeat out.localHeartbeat)) := by
  simp only [loraTask, Bool.false_eq_true, if_false] at h
  split at h
  · cases h
  · rename_i sent
    split at h
    · cases h
      cases hair
      exact RadioFrame.serialize_ok c _ sent
    · cases h
      cases hair
  · cases h
    cases hair

theorem corrupted_frame_rejected (c : Crates) (hcrc : c.ReflectedCrc32)
    (source destination : UInt32) (frameType : FrameType) (buf b b' : List UInt8)
    (hb : (RadioFrame.new source destination frameType).serialize c buf = some (.ok b))
    (hlen : b'.length = b.length) (hne : b' ≠ b)
    (hwhere : (∃ k, 4 ≤ k ∧ DifferOnlyIn k (k + 4) b b') ∨ DifferOnlyIn 0 4 b b') :
    (∃ e, RadioFrame.deserialize c b' = some (.error e))
      ∧ ∀ (radio : RadioDriver) (own far : HeartBeat), radio.readPacket = some b' →
        loraTask c (some radio) true own far = some ⟨own, far, none, false⟩ := by
  have sent := RadioFrame.serialize_ok c _ hb
  subst sent
  have refused := RadioFrame.deserialize_corrupted c hcrc _ hlen hne hwhere
  refine ⟨refused, fun radio own far hread => loraTask_refused c radio own far ?_⟩
  intro packet received
  rw [hread] at received
  cases received
  exact refused

theorem corrupted_first_packet_rejected :
    (∃ e, RadioFrame.deserialize crates (firstPacket.set 17 2) = some (.error e))
      ∧ ∀ (radio : RadioDriver) (own far : HeartBeat),
        radio.readPacket = some (firstPacket.set 17 2) →
          loraTask crates (some radio) true own far = some ⟨own, far, none, false⟩ := by
  refine corrupted_frame_rejected crates crates_reflectedCrc32 10 110 (.heartBeat ⟨1, -777⟩)
    (List.replicate 255 0) firstPacket (firstPacket.set 17 2) ?_ ?_ ?_ (.inl ⟨17, ?_, ?_⟩)
  · exact RadioFrame.serialize_room crates _ (by decide +kernel)
  · rw [List.length_set]
  · decide +kernel
  · decide
  · intro i differ
    have here : i = 17 := by
      by_contra other
      exact differ (List.getElem?_set_ne (Ne.symm other)).symm
    omega

/-- The last four trailing bytes are the one word that brings the register back to where
the encoding in front left it. -/
def ClosesCrc (body trailing : List UInt8) : Prop :=
  Crc.word 32 (Crc.bits (trailing.drop (trailing.length - 4)))
    = Crc.closing crc32Check.poly
        (crc32Check.register (body ++ trailing.take (trailing.length - 4)))
        (crc32Check.register body)

instance (body trailing : List UInt8) : Decidable (ClosesCrc body trailing) :=
  inferInstanceAs (Decidable (_ = _))

theorem closesCrc_append (body front : List UInt8) {last : List UInt8} (hlen : last.length = 4) :
    ClosesCrc body (front ++ last) ↔ Crc.word 32 (Crc.bits last)
      = Crc.closing crc32Check.poly (crc32Check.register (body ++ front))
          (crc32Check.register body) := by
  have split : (front ++ last).length - 4 = front.length := by
    rw [List.length_append, hlen]
    omega
  rw [ClosesCrc, split, List.drop_left, List.take_left]

theorem closesCrc_iff_register (body front : List UInt8) {last : List UInt8}
    (hlen : last.length = 4) : ClosesCrc body (front ++ last)
      ↔ crc32Check.register (body ++ front ++ last) = crc32Check.register body := by
  have long : 8 * last.length = 32 := by omega
  have closing := crc32Check.register_eq_iff_closing (by decide) (body ++ front) long
    (crc32Check.register body)
  exact (closesCrc_append body front hlen).trans closing.symm

theorem closesCrc_existsUnique (body front : List UInt8) :
    ∃! last : List UInt8, last.length = 4 ∧ ClosesCrc body (front ++ last) := by
  have long : 8 * 4 = 32 := rfl
  obtain ⟨last, ⟨hlen, same⟩, only⟩ := crc32Check.existsUnique_closing (by decide)
    (body ++ front) long (crc32Check.register body)
  refine ⟨last, ⟨hlen, (closesCrc_iff_register body front hlen).mpr same⟩, ?_⟩
  rintro other ⟨hother, closes⟩
  exact only other ⟨hother, (closesCrc_iff_register body front hother).mp closes⟩

theorem crc32_append_iff (c : Crates) (hcrc : c.ReflectedCrc32) (body trailing : List UInt8)
    (hlen : 4 ≤ trailing.length) :
    c.crc32 (body ++ trailing) = c.crc32 body ↔ ClosesCrc body trailing := by
  have last : (trailing.drop (trailing.length - 4)).length = 4 := by
    rw [List.length_drop]
    omega
  have register := closesCrc_iff_register body (trailing.take (trailing.length - 4)) last
  rw [List.append_assoc, List.take_append_drop] at register
  rw [← UInt32.toBitVec_inj, hcrc, hcrc, crc32Check.digest_eq_iff]
  exact register.symm

theorem RadioFrame.deserialize_padded (c : Crates) (hpost : c.Postcard07) (f : RadioFrame)
    (hmagic : f.magic = radioMagic) (trailing : List UInt8) :
    RadioFrame.deserialize c (c.packet f ++ trailing) = some (
      if c.crc32 (c.putFrame f ++ trailing) = c.crc32 (c.putFrame f) then .ok f
      else .error .crcMismatch) := by
  have enough : 4 ≤ (c.packet f ++ trailing).length := by
    rw [List.length_append, c.length_packet]
    omega
  have front : (c.packet f ++ trailing).take 4 = toLeBytes (c.crc32 (c.putFrame f)) := by
    rw [Crates.packet, List.append_assoc, List.take_left' (Postcard.length_toLeBytes _)]
  have behind : (c.packet f ++ trailing).drop 4 = c.putFrame f ++ trailing := by
    rw [Crates.packet, List.append_assoc, List.drop_left' (Postcard.length_toLeBytes _)]
  have decoded : c.takeFrame ((c.packet f ++ trailing).drop 4) = .ok (f, trailing) := by
    rw [behind, hpost.take, hpost.put, f.reads]
  rw [deserialize_decoded c enough decoded, front, behind, Postcard.fromLeBytes_toLeBytes]
  by_cases checked : c.crc32 (c.putFrame f ++ trailing) = c.crc32 (c.putFrame f) <;>
    simp [checked, hmagic]

theorem heartbeat_from_full_buffer_iff (c : Crates) (hpost : c.Postcard07)
    (hcrc : c.ReflectedCrc32) (sender : RadioDriver) (own far : HeartBeat) (out : LoraOut)
    (packet trailing : List UInt8)
    (hsent : loraTask c (some sender) false own far = some out)
    (hair : out.onAir = some packet) (hlen : (packet ++ trailing).length = 255) :
    (RadioFrame.deserialize c (packet ++ trailing)
        = some (.ok (.new 10 110 (.heartBeat out.localHeartbeat)))
      ∧ ∀ (receiver : RadioDriver) (own' far' : HeartBeat), receiver.pollIrq = true →
        receiver.readPacket = some (packet ++ trailing) →
          loraTask c (some receiver) true own' far'
            = some ⟨own', out.localHeartbeat, none, true⟩)
      ↔ ClosesCrc (packet.drop 4) trailing := by
  have sent := loraTask_onAir c hsent hair
  subst sent
  have room : 4 ≤ trailing.length := by
    rw [List.length_append, c.length_packet, hpost.put, RadioFrame.length_put] at hlen
    omega
  have padded := RadioFrame.deserialize_padded c hpost
    (.new 10 110 (.heartBeat out.localHeartbeat)) rfl trailing
  rw [c.drop_packet, ← crc32_append_iff c hcrc _ _ room]
  constructor
  · rintro ⟨accepted, -⟩
    by_contra differ
    rw [padded, if_neg differ] at accepted
    cases accepted
  · intro same
    rw [if_pos same] at padded
    refine ⟨padded, fun receiver own' far' hpoll hread => ?_⟩
    exact loraTask_accepted c own' far' _ hpoll hread padded

def silentRadio : RadioDriver := ⟨true, none, none, fun _ => true⟩

theorem firstPacket_zeros :
    crc32Check.register (firstPacket.drop 4 ++ List.replicate 226 0) = 2184803307#32 := by
  have sent : crc32Check.register (firstPacket.drop 4) = 2225950817#32 := by decide +kernel
  have first : (Crc.step crc32Check.poly)^[452] 2225950817#32 = 825216032#32 := by
    decide +kernel
  have second : (Crc.step crc32Check.poly)^[452] 825216032#32 = 3226085759#32 := by
    decide +kernel
  have third : (Crc.step crc32Check.poly)^[452] 3226085759#32 = 2012897147#32 := by
    decide +kernel
  have fourth : (Crc.step crc32Check.poly)^[452] 2012897147#32 = 2184803307#32 := by
    decide +kernel
  rw [Crc.Check.register_append, sent, Crc.feed_zeros,
    show 8 * 226 = 452 + (452 + (452 + 452)) from rfl, Function.iterate_add_apply,
    Function.iterate_add_apply, Function.iterate_add_apply, first, second, third, fourth]

theorem first_heartbeat_with_closing_word :
    RadioFrame.deserialize crates (firstPacket ++ (List.replicate 226 0 ++ [158, 79, 21, 54]))
        = some (.ok (.new 10 110 (.heartBeat ⟨1, -777⟩)))
      ∧ ∀ (receiver : RadioDriver) (own' far' : HeartBeat), receiver.pollIrq = true →
        receiver.readPacket = some (firstPacket ++ (List.replicate 226 0 ++ [158, 79, 21, 54])) →
          loraTask crates (some receiver) true own' far' = some ⟨own', ⟨1, -777⟩, none, true⟩ := by
  refine (heartbeat_from_full_buffer_iff crates crates_postcard07 crates_reflectedCrc32 silentRadio
    ⟨0, 0⟩ ⟨0, 0⟩ ⟨⟨1, -777⟩, ⟨0, 0⟩, some firstPacket, true⟩ firstPacket _ ?_ rfl ?_).mpr ?_
  · decide +kernel
  · decide +kernel
  · rw [closesCrc_append _ _ rfl, firstPacket_zeros]
    decide +kernel

theorem first_heartbeat_in_zeroed_buffer :
    loraTask crates (some silentRadio) false ⟨0, 0⟩ ⟨0, 0⟩
        = some ⟨⟨1, -777⟩, ⟨0, 0⟩, some firstPacket, true⟩
      ∧ (firstPacket ++ List.replicate 230 0).length = 255
      ∧ RadioFrame.deserialize crates (firstPacket ++ List.replicate 230 0)
        = some (.error .crcMismatch)
      ∧ loraTask crates
          (some { silentRadio with readPacket := some (firstPacket ++ List.replicate 230 0) })
          true ⟨0, 0⟩ ⟨0, 0⟩
        = some ⟨⟨0, 0⟩, ⟨0, 0⟩, none, false⟩ := by
  have differ : crates.crc32 (firstPacket.drop 4 ++ List.replicate 230 0)
      ≠ crates.crc32 (firstPacket.drop 4) := by
    have zeros : List.replicate 230 (0 : UInt8) = List.replicate 226 0 ++ [0, 0, 0, 0] :=
      List.replicate_add 226 4 0
    have long : 4 ≤ (List.replicate 226 (0 : UInt8) ++ [0, 0, 0, 0]).length := by
      rw [List.length_append, List.length_replicate]
      decide
    rw [ne_eq, zeros, crc32_append_iff crates crates_reflectedCrc32 _ _ long,
      closesCrc_append _ _ rfl, firstPacket_zeros]
    decide +kernel
  have refused : RadioFrame.deserialize crates (firstPacket ++ List.replicate 230 0)
      = some (.error .crcMismatch) := by
    rw [firstPacket, RadioFrame.deserialize_padded crates crates_postcard07 _ rfl]
    rw [firstPacket, crates.drop_packet] at differ
    rw [if_neg differ]
  refine ⟨by decide +kernel, by decide +kernel, refused, ?_⟩
  apply loraTask_refused
  intro packet received
  cases received
  exact ⟨_, refused⟩

end VhlHackathon
