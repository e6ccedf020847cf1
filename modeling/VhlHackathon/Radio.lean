import VhlHackathon.Crc
import VhlHackathon.Postcard
set_option autoImplicit false

/-!
Radio frames: four bytes of CRC, then the postcard encoding of the frame.
-/

namespace VhlHackathon

open Postcard (Reader Reads Local toLeBytes fromLeBytes)

structure HeartBeat where
  uptime : UInt32
  remoteRssi : Int32
  deriving DecidableEq, Repr

inductive FrameType where
  | heartBeat (hb : HeartBeat)
  deriving DecidableEq, Repr

structure RadioFrame where
  magic : Vector UInt8 4
  sourceNodeId : UInt32
  destinationNodeId : UInt32
  frameType : FrameType
  deriving DecidableEq, Repr

def radioMagic : Vector UInt8 4 := #v[42, 32, 176, 21]

def RadioFrame.new (source destination : UInt32) (frameType : FrameType) : RadioFrame :=
  ⟨radioMagic, source, destination, frameType⟩

inductive RadioError where
  | serdesError (e : Postcard.Error)
  | badMagic
  | crcMismatch
  deriving DecidableEq, Repr

/-! What the derived `Serialize` and `Deserialize` make of the format. -/

def HeartBeat.put (hb : HeartBeat) : List UInt8 :=
  toLeBytes hb.uptime ++ toLeBytes hb.remoteRssi.toUInt32

def HeartBeat.take : Reader HeartBeat := do
  let uptime ← Postcard.takeU32
  let remoteRssi ← Postcard.takeU32
  pure ⟨uptime, remoteRssi.toInt32⟩

def FrameType.put : FrameType → List UInt8
  | .heartBeat hb => Postcard.putVarint 0 ++ hb.put

def FrameType.take : Reader FrameType := do
  let variantIndex ← Postcard.takeVarint
  if variantIndex = 0 then do
    let hb ← HeartBeat.take
    pure (.heartBeat hb)
  else .fail .serdeDeCustom

def RadioFrame.put (f : RadioFrame) : List UInt8 :=
  f.magic.toList
    ++ (toLeBytes f.sourceNodeId ++ (toLeBytes f.destinationNodeId ++ f.frameType.put))

def RadioFrame.take : Reader RadioFrame := do
  let magic ← Postcard.takeArray 4
  let sourceNodeId ← Postcard.takeU32
  let destinationNodeId ← Postcard.takeU32
  let frameType ← FrameType.take
  pure ⟨magic, sourceNodeId, destinationNodeId, frameType⟩

theorem HeartBeat.length_put (hb : HeartBeat) : hb.put.length = 8 := by simp [HeartBeat.put]

theorem FrameType.length_put (t : FrameType) : t.put.length = 9 := by
  cases t with
  | heartBeat hb =>
    have index : Postcard.putVarint 0 = [0] := rfl
    simp [FrameType.put, HeartBeat.length_put, index]

theorem RadioFrame.length_put (f : RadioFrame) : f.put.length = 21 := by
  simp [RadioFrame.put, FrameType.length_put]

theorem HeartBeat.reads (hb : HeartBeat) : Reads HeartBeat.take hb.put hb := by
  unfold take put
  exact (Postcard.reads_takeU32 hb.uptime).bind
    ((Postcard.reads_takeU32 hb.remoteRssi.toUInt32).map fun rssi =>
      HeartBeat.mk hb.uptime rssi.toInt32)

theorem FrameType.reads (t : FrameType) : Reads FrameType.take t.put t := by
  cases t with
  | heartBeat hb =>
    unfold take put
    exact (Postcard.reads_takeVarint 0).bind (hb.reads.map FrameType.heartBeat)

theorem RadioFrame.reads (f : RadioFrame) : Reads RadioFrame.take f.put f := by
  unfold take put
  refine (Postcard.reads_takeArray f.magic).bind ?_
  refine (Postcard.reads_takeU32 f.sourceNodeId).bind ?_
  refine (Postcard.reads_takeU32 f.destinationNodeId).bind ?_
  exact f.frameType.reads.map (RadioFrame.mk f.magic f.sourceNodeId f.destinationNodeId)

theorem HeartBeat.take_local : Local HeartBeat.take :=
  Postcard.local_takeU32.bind fun _ => Postcard.local_takeU32.bind fun _ => .pure _

theorem FrameType.take_local : Local FrameType.take := by
  refine Postcard.local_takeVarint.bind fun variantIndex => ?_
  split
  · exact HeartBeat.take_local.bind fun _ => .pure _
  · exact .fail _

theorem RadioFrame.take_local : Local RadioFrame.take := by
  refine (Postcard.local_takeArray 4).bind fun _ => ?_
  refine Postcard.local_takeU32.bind fun _ => ?_
  refine Postcard.local_takeU32.bind fun _ => ?_
  exact FrameType.take_local.bind fun _ => .pure _

/-- What the frames take from the crates postcard and crc_any. -/
structure Crates where
  putFrame : RadioFrame → List UInt8
  takeFrame : Reader RadioFrame
  crc32 : List UInt8 → UInt32

/-- The encoding of postcard 0.7. -/
structure Crates.Postcard07 (c : Crates) : Prop where
  put : ∀ f, c.putFrame f = f.put
  take : ∀ bytes, c.takeFrame bytes = RadioFrame.take bytes

def crc32Check : Crc.Check 32 := ⟨0xEDB88320#32, 0xFFFFFFFF#32, 0xFFFFFFFF#32⟩

def Crates.ReflectedCrc32 (c : Crates) : Prop :=
  ∀ bytes, (c.crc32 bytes).toBitVec = crc32Check.digest bytes

def crates : Crates := ⟨RadioFrame.put, RadioFrame.take, fun bytes => ⟨crc32Check.digest bytes⟩⟩

example : crates.crc32 [49, 50, 51, 52, 53, 54, 55, 56, 57] = 0xCBF43926 := by decide +kernel

theorem crates_postcard07 : crates.Postcard07 := ⟨fun _ => rfl, fun _ => rfl⟩

theorem crates_reflectedCrc32 : crates.ReflectedCrc32 := fun _ => rfl

/-- `postcard::to_slice`: the buffer afterwards and how much of it is used. -/
def Crates.toSlice (c : Crates) (f : RadioFrame) (buf : List UInt8) :
    Except Postcard.Error (List UInt8 × Nat) :=
  let bytes := c.putFrame f
  if bytes.length ≤ buf.length then .ok (bytes ++ buf.drop bytes.length, bytes.length)
  else .error .serializeBufferFull

/-- `none` where a slice is out of range. -/
def RadioFrame.serialize (c : Crates) (f : RadioFrame) (buf : List UInt8) :
    Option (Except RadioError (List UInt8)) :=
  if buf.length < 4 then none
  else
    match c.toSlice f (buf.drop 4) with
    | .error e => some (.error (.serdesError e))
    | .ok (written, usedSize) =>
      let buf := buf.take 4 ++ written
      let crc32 := toLeBytes (c.crc32 ((buf.drop 4).take usedSize))
      let buf := crc32 ++ buf.drop 4
      some (.ok (buf.take (usedSize + 4)))

def RadioFrame.deserialize (c : Crates) (buf : List UInt8) :
    Option (Except RadioError RadioFrame) :=
  if buf.length < 4 then none
  else
    match c.takeFrame (buf.drop 4) with
    | .error e => some (.error (.serdesError e))
    | .ok (frame, _) =>
      let receivedCrc := fromLeBytes (buf.take 4)
      if c.crc32 (buf.drop 4) ≠ receivedCrc then some (.error .crcMismatch)
      else if frame.magic ≠ radioMagic then some (.error .badMagic)
      else some (.ok frame)

/-- A frame as it is sent: the CRC of the encoding in front of it. -/
def Crates.packet (c : Crates) (f : RadioFrame) : List UInt8 :=
  toLeBytes (c.crc32 (c.putFrame f)) ++ c.putFrame f

theorem Crates.length_packet (c : Crates) (f : RadioFrame) :
    (c.packet f).length = 4 + (c.putFrame f).length := by simp [packet]

@[simp] theorem Crates.take_packet (c : Crates) (f : RadioFrame) :
    (c.packet f).take 4 = toLeBytes (c.crc32 (c.putFrame f)) :=
  List.take_left' (Postcard.length_toLeBytes _)

@[simp] theorem Crates.drop_packet (c : Crates) (f : RadioFrame) :
    (c.packet f).drop 4 = c.putFrame f := List.drop_left' (Postcard.length_toLeBytes _)

theorem Crates.toSlice_fits (c : Crates) (f : RadioFrame) {buf : List UInt8}
    (h : (c.putFrame f).length ≤ buf.length) : c.toSlice f buf
      = .ok (c.putFrame f ++ buf.drop (c.putFrame f).length, (c.putFrame f).length) := by
  simp only [toSlice, if_pos h]

theorem Crates.toSlice_full (c : Crates) (f : RadioFrame) {buf : List UInt8}
    (h : buf.length < (c.putFrame f).length) : c.toSlice f buf = .error .serializeBufferFull := by
  simp only [toSlice, if_neg (Nat.not_le.mpr h)]

theorem RadioFrame.serialize_room (c : Crates) (f : RadioFrame) {buf : List UInt8}
    (room : 4 + (c.putFrame f).length ≤ buf.length) :
    f.serialize c buf = some (.ok (c.packet f)) := by
  have enough : ¬ buf.length < 4 := by omega
  have front : (buf.take 4).length = 4 := by simp; omega
  have fits : (c.putFrame f).length ≤ (buf.drop 4).length := by simp; omega
  have behind : ∀ written, (buf.take 4 ++ written).drop 4 = written := fun written =>
    List.drop_left' front
  have packed : ∀ tail, (toLeBytes (c.crc32 (c.putFrame f)) ++ (c.putFrame f ++ tail)).take
      ((c.putFrame f).length + 4) = c.packet f := by
    intro tail
    rw [← List.append_assoc]
    exact List.take_left' (by simp [Nat.add_comm])
  simp only [serialize, enough, if_false, c.toSlice_fits f fits, behind, List.take_left, packed]

theorem RadioFrame.serialize_ok (c : Crates) (f : RadioFrame) {buf packet : List UInt8}
    (h : f.serialize c buf = some (.ok packet)) : packet = c.packet f := by
  rcases Nat.lt_or_ge buf.length (4 + (c.putFrame f).length) with less | room
  · unfold serialize at h
    split at h
    · cases h
    · rename_i enough
      have full : (buf.drop 4).length < (c.putFrame f).length := by simp; omega
      rw [c.toSlice_full f full] at h
      cases h
  · rw [f.serialize_room c room] at h
    cases h
    rfl

theorem RadioFrame.deserialize_undecoded (c : Crates) {buf : List UInt8} {e : Postcard.Error}
    (enough : 4 ≤ buf.length) (h : c.takeFrame (buf.drop 4) = .error e) :
    RadioFrame.deserialize c buf = some (.error (.serdesError e)) := by
  rw [deserialize, if_neg (Nat.not_lt.mpr enough), h]

theorem RadioFrame.deserialize_decoded (c : Crates) {buf rest : List UInt8} {f : RadioFrame}
    (enough : 4 ≤ buf.length) (h : c.takeFrame (buf.drop 4) = .ok (f, rest)) :
    RadioFrame.deserialize c buf = some (
      if c.crc32 (buf.drop 4) ≠ fromLeBytes (buf.take 4) then .error .crcMismatch
      else if f.magic ≠ radioMagic then .error .badMagic
      else .ok f) := by
  rw [deserialize, if_neg (Nat.not_lt.mpr enough), h]
  simp only [apply_ite some]

theorem RadioFrame.deserialize_short (c : Crates) {buf : List UInt8} (short : buf.length < 4) :
    RadioFrame.deserialize c buf = none := by
  rw [deserialize, if_pos short]

theorem RadioFrame.deserialize_isSome (c : Crates) {buf : List UInt8} (enough : 4 ≤ buf.length) :
    ∃ r, RadioFrame.deserialize c buf = some r := by
  rcases decoded : c.takeFrame (buf.drop 4) with e | ⟨f, rest⟩
  · exact ⟨_, deserialize_undecoded c enough decoded⟩
  · exact ⟨_, deserialize_decoded c enough decoded⟩

theorem RadioFrame.deserialize_ok (c : Crates) (buf : List UInt8) (f : RadioFrame) :
    RadioFrame.deserialize c buf = some (.ok f)
      ↔ 4 ≤ buf.length ∧ (∃ rest, c.takeFrame (buf.drop 4) = .ok (f, rest))
        ∧ c.crc32 (buf.drop 4) = fromLeBytes (buf.take 4) ∧ f.magic = radioMagic := by
  constructor
  · intro h
    have enough : 4 ≤ buf.length := by
      by_contra short
      rw [deserialize_short c (Nat.not_le.mp short)] at h
      cases h
    rcases decoded : c.takeFrame (buf.drop 4) with e | ⟨g, rest⟩
    · rw [deserialize_undecoded c enough decoded] at h
      cases h
    · rw [deserialize_decoded c enough decoded] at h
      split at h
      · cases h
      · rename_i hcrc
        split at h
        · cases h
        · rename_i hmagic
          cases h
          exact ⟨enough, ⟨rest, rfl⟩, not_not.mp hcrc, not_not.mp hmagic⟩
  · rintro ⟨enough, ⟨rest, decoded⟩, hcrc, hmagic⟩
    rw [deserialize_decoded c enough decoded, if_neg (not_not.mpr hcrc), if_neg (not_not.mpr hmagic)]

/-! The round trip and what an accepted packet vouches for. -/

theorem RadioFrame.deserialize_packet (c : Crates) (hpost : c.Postcard07) (source destination : UInt32)
    (frameType : FrameType) : RadioFrame.deserialize c (c.packet (.new source destination frameType))
      = some (.ok (.new source destination frameType)) := by
  apply (deserialize_ok c _ _).mpr
  have reads := RadioFrame.reads (.new source destination frameType) []
  rw [List.append_nil] at reads
  refine ⟨by simp [c.length_packet], ⟨[], ?_⟩, ?_, rfl⟩
  · rw [c.drop_packet, hpost.take, hpost.put, reads]
  · rw [c.drop_packet, c.take_packet, Postcard.fromLeBytes_toLeBytes]

theorem radio_frame_round_trip (c : Crates) (hpost : c.Postcard07) (source destination : UInt32)
    (hb : HeartBeat) :
    ∃ packet, (∀ buf : List UInt8,
        4 + (c.putFrame (.new source destination (.heartBeat hb))).length ≤ buf.length →
          (RadioFrame.new source destination (.heartBeat hb)).serialize c buf = some (.ok packet))
      ∧ RadioFrame.deserialize c packet
        = some (.ok (.new source destination (.heartBeat hb))) := by
  refine ⟨c.packet (.new source destination (.heartBeat hb)), ?_, ?_⟩
  · intro buf room
    exact RadioFrame.serialize_room c _ room
  · exact RadioFrame.deserialize_packet c hpost source destination (.heartBeat hb)

theorem radio_frame_round_trip_at_startup :
    ∃ packet, (∀ buf : List UInt8,
        4 + (crates.putFrame (.new 10 110 (.heartBeat ⟨1, -777⟩))).length ≤ buf.length →
          (RadioFrame.new 10 110 (.heartBeat ⟨1, -777⟩)).serialize crates buf = some (.ok packet))
      ∧ RadioFrame.deserialize crates packet = some (.ok (.new 10 110 (.heartBeat ⟨1, -777⟩))) :=
  radio_frame_round_trip crates crates_postcard07 10 110 ⟨1, -777⟩

/-- `used` is what the frame was decoded from, `stretch` what the CRC in front is of. -/
structure RadioFrame.Vouched (c : Crates) (buf : List UInt8) (f : RadioFrame)
    (used stretch : List UInt8) : Prop where
  magic : f.magic = radioMagic
  decoded : ∃ rest, c.takeFrame (buf.drop 4) = .ok (f, rest) ∧ buf.drop 4 = used ++ rest
  whole : c.takeFrame used = .ok (f, [])
  covers : used <+: stretch
  inside : stretch <+: buf.drop 4
  crc : buf.take 4 = toLeBytes (c.crc32 stretch)

theorem RadioFrame.deserialize_vouched (c : Crates) (hpost : c.Postcard07) {buf : List UInt8}
    {f : RadioFrame} (h : RadioFrame.deserialize c buf = some (.ok f)) :
    ∃ used stretch, RadioFrame.Vouched c buf f used stretch := by
  obtain ⟨enough, ⟨rest, decoded⟩, hcrc, hmagic⟩ := (deserialize_ok c buf f).mp h
  have taken : RadioFrame.take (buf.drop 4) = .ok (f, rest) := by rw [← hpost.take, decoded]
  obtain ⟨used, split, reads⟩ := RadioFrame.take_local _ _ _ taken
  have front : (buf.take 4).length = 4 := by simp [enough]
  have alone := reads []
  rw [List.append_nil] at alone
  exact ⟨used, buf.drop 4, hmagic, ⟨rest, decoded, split⟩, by rw [hpost.take, alone],
    ⟨rest, split.symm⟩, List.prefix_rfl, by rw [hcrc, Postcard.toLeBytes_fromLeBytes front]⟩

theorem deserialize_handles_iff (c : Crates) (hpost : c.Postcard07) (buf : List UInt8) :
    ((∃ r, RadioFrame.deserialize c buf = some r)
        ∧ ∀ f, RadioFrame.deserialize c buf = some (.ok f) →
          ∃ used stretch, RadioFrame.Vouched c buf f used stretch)
      ↔ 4 ≤ buf.length := by
  constructor
  · rintro ⟨⟨r, answered⟩, -⟩
    by_contra short
    rw [RadioFrame.deserialize_short c (Nat.not_le.mp short)] at answered
    cases answered
  · intro enough
    exact ⟨RadioFrame.deserialize_isSome c enough, fun f h =>
      RadioFrame.deserialize_vouched c hpost h⟩

def firstPacket : List UInt8 := crates.packet (.new 10 110 (.heartBeat ⟨1, -777⟩))

theorem deserialize_handles_first_packet :
    RadioFrame.deserialize crates firstPacket = some (.ok (.new 10 110 (.heartBeat ⟨1, -777⟩)))
      ∧ (∃ r, RadioFrame.deserialize crates firstPacket = some r)
      ∧ ∀ f, RadioFrame.deserialize crates firstPacket = some (.ok f) →
        ∃ used stretch, RadioFrame.Vouched crates firstPacket f used stretch :=
  ⟨by decide +kernel,
    (deserialize_handles_iff crates crates_postcard07 firstPacket).mpr (by decide +kernel)⟩

theorem deserialize_three_bytes : ¬ ∃ r, RadioFrame.deserialize crates [42, 32, 176] = some r := by
  rintro ⟨r, answered⟩
  cases answered

/-! Corruption. -/

def DifferOnlyIn (lo hi : Nat) (b b' : List UInt8) : Prop :=
  ∀ i, b[i]? ≠ b'[i]? → lo ≤ i ∧ i < hi

theorem DifferOnlyIn.take_eq {lo hi n : Nat} {b b' : List UInt8} (h : DifferOnlyIn lo hi b b')
    (hn : n ≤ lo) : b.take n = b'.take n := by
  apply List.ext_getElem?
  intro i
  rcases Nat.lt_or_ge i n with before | beyond
  · rw [List.getElem?_take_of_lt before, List.getElem?_take_of_lt before]
    by_contra differ
    have inside := h i differ
    omega
  · rw [List.getElem?_take_eq_none beyond, List.getElem?_take_eq_none beyond]

theorem DifferOnlyIn.drop_eq {lo hi n : Nat} {b b' : List UInt8} (h : DifferOnlyIn lo hi b b')
    (hn : hi ≤ n) : b.drop n = b'.drop n := by
  apply List.ext_getElem?
  intro i
  rw [List.getElem?_drop, List.getElem?_drop]
  by_contra differ
  have inside := h (n + i) differ
  omega

theorem DifferOnlyIn.drop {lo hi : Nat} (n : Nat) {b b' : List UInt8}
    (h : DifferOnlyIn (n + lo) (n + hi) b b') : DifferOnlyIn lo hi (b.drop n) (b'.drop n) := by
  intro i differ
  rw [List.getElem?_drop, List.getElem?_drop] at differ
  have inside := h (n + i) differ
  omega

theorem Crates.ReflectedCrc32.burst {c : Crates} (hcrc : c.ReflectedCrc32) {k : Nat}
    {body body' : List UInt8} (hlen : body'.length = body.length) (hne : body' ≠ body)
    (h : DifferOnlyIn k (k + 4) body body') : c.crc32 body' ≠ c.crc32 body := by
  have front := h.take_eq (Nat.le_refl k)
  have back := h.drop_eq (Nat.le_refl (k + 4))
  have parts : ∀ l : List UInt8, l.take k ++ (l.drop k).take 4 ++ l.drop (k + 4) = l := by
    intro l
    rw [List.append_assoc, ← List.drop_drop, List.take_append_drop, List.take_append_drop]
  have burst : (body.drop k).take 4 ≠ (body'.drop k).take 4 := by
    intro same
    apply hne
    rw [← parts body', ← parts body, front, same, back]
  have detected := crc32Check.digest_burst (by decide) (body.take k) (body.drop (k + 4))
    (by simp [hlen]) (by simp; omega) burst
  rw [parts body, front, back, parts body', ← hcrc, ← hcrc] at detected
  exact fun same => detected (by rw [same])

theorem RadioFrame.deserialize_corrupted (c : Crates) (hcrc : c.ReflectedCrc32) (f : RadioFrame)
    {b : List UInt8} (hlen : b.length = (c.packet f).length) (hne : b ≠ c.packet f)
    (hwhere : (∃ k, 4 ≤ k ∧ DifferOnlyIn k (k + 4) (c.packet f) b)
      ∨ DifferOnlyIn 0 4 (c.packet f) b) :
    ∃ e, RadioFrame.deserialize c b = some (.error e) := by
  have enough : 4 ≤ b.length := by
    rw [hlen, c.length_packet]
    omega
  obtain ⟨r, answered⟩ := deserialize_isSome c enough
  rcases r with e | g
  · exact ⟨e, answered⟩
  · exfalso
    obtain ⟨-, -, checked, -⟩ := (deserialize_ok c b g).mp answered
    rcases hwhere with ⟨k, hk, payload⟩ | field
    · obtain ⟨j, rfl⟩ : ∃ j, k = 4 + j := ⟨k - 4, by omega⟩
      have crcKept := payload.take_eq hk
      have body : DifferOnlyIn j (j + 4) _ _ := DifferOnlyIn.drop 4 payload
      rw [← crcKept, c.take_packet, Postcard.fromLeBytes_toLeBytes] at checked
      rw [c.drop_packet] at body
      refine hcrc.burst ?_ ?_ body checked
      · simp [hlen, c.length_packet]
      · intro same
        apply hne
        rw [← List.take_append_drop 4 b, ← crcKept, same, c.take_packet]
        rfl
    · have bodyKept := field.drop_eq (Nat.le_refl 4)
      have front : (b.take 4).length = 4 := by simp [enough]
      rw [← bodyKept, c.drop_packet] at checked
      apply hne
      rw [← List.take_append_drop 4 b, ← bodyKept, ← Postcard.toLeBytes_fromLeBytes front,
        ← checked, c.drop_packet]
      rfl

end VhlHackathon
