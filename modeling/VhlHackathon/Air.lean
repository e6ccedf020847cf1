import VhlHackathon.Station
import Mathlib.Logic.Function.Basic
set_option autoImplicit false

/-!
Any number of stations on one channel. What goes on air may be lost, repeated, delayed and
overtaken, damaged, and read together with whatever the receive buffer held behind it.
-/

namespace VhlHackathon
open Postcard (fromLeBytes)

section
variable {ι : Type} (c : Crates)

/-- Up to four consecutive bytes of a packet changed, or bytes of its CRC. -/
structure Damaged (packet front : List UInt8) : Prop where
  length : front.length = packet.length
  changed : front ≠ packet
  burst : (∃ k, 4 ≤ k ∧ DifferOnlyIn k (k + 4) packet front) ∨ DifferOnlyIn 0 4 packet front

/-- What a receiver may read of a packet: all of it, damaged or not, and behind it whatever
the receive buffer holds. -/
def Arrives (packet b : List UInt8) : Prop :=
  ∃ front trailing, (front = packet ∨ Damaged packet front) ∧ b = front ++ trailing

/-- A heartbeat nobody sent: one of the packets received was damaged, and the bytes found
behind it, which take part in the CRC, happened to make it the one in front. -/
def Crates.Forged (packet : List UInt8) (received : List (List UInt8)) (hb : HeartBeat) : Prop :=
  ∃ front trailing frame, front ++ trailing ∈ received ∧ Damaged packet front ∧ trailing ≠ [] ∧
    c.crc32 ((front ++ trailing).drop 4) = fromLeBytes (front.take 4) ∧
    RadioFrame.deserialize c (front ++ trailing) = some (.ok frame) ∧
    frame.frameType = .heartBeat hb

def Crates.beacon (c : Crates) (hb : HeartBeat) : List UInt8 :=
  c.packet (.new 10 110 (.heartBeat hb))

/-- The stations, and what each has been given to read. No station stores the latter. -/
structure Net (ι : Type) where
  station : ι → Station
  received : ι → List (List UInt8)

def Net.init : Net ι := ⟨fun _ => .init, fun _ => []⟩

/-- What a step reads from the radio: a packet, when the task listens and there is one. -/
def Station.reads (s : Station) : StationAct → List (List UInt8)
  | .loraTask (some radio) => if s.idle = .radio false then radio.readPacket.toList else []
  | _ => []

def netStep [DecidableEq ι] (n : Net ι) (a : ι × StationAct) : Option (Net ι) :=
  (stationStep c (n.station a.1) a.2).map fun s =>
    ⟨Function.update n.station a.1 s,
      Function.update n.received a.1 (n.received a.1 ++ (n.station a.1).reads a.2)⟩

/-- What a radio reads has been sent by another station before, however long ago, and the
display answers Ok. -/
structure overAir (n : Net ι) (a : ι × StationAct) : Prop where
  received : ∀ b ∈ (n.station a.1).reads a.2,
    ∃ j, j ≠ a.1 ∧ ∃ x ∈ (n.station j).log.sent, Arrives (c.beacon x.2) b
  drawn : a.2 ≠ .oledTask false

theorem Arrives.length {packet b : List UInt8} (h : Arrives packet b) :
    packet.length ≤ b.length := by
  obtain ⟨front, trailing, rfl | damaged, rfl⟩ := h
  · simp
  · simp [damaged.length]

theorem Arrives.accepted (hpost : c.Postcard07) (hcrc : c.ReflectedCrc32) {hb hb' : HeartBeat}
    {b : List UInt8} {frame : RadioFrame} {received : List (List UInt8)}
    (h : Arrives (c.beacon hb) b) (reading : b ∈ received)
    (accepted : RadioFrame.deserialize c b = some (.ok frame))
    (beat : frame.frameType = .heartBeat hb') :
    hb' = hb ∨ c.Forged (c.beacon hb) received hb' := by
  obtain ⟨front, trailing, rfl | damaged, rfl⟩ := h
  · left
    rw [Crates.beacon, RadioFrame.deserialize_padded c hpost _ rfl] at accepted
    split at accepted
    · cases accepted
      cases beat
      rfl
    · cases accepted
  · right
    -- on its own a damaged packet is always refused
    have behind : trailing ≠ [] := by
      rintro rfl
      obtain ⟨e, refused⟩ := RadioFrame.deserialize_corrupted c hcrc _ damaged.length
        damaged.changed damaged.burst
      rw [List.append_nil, refused] at accepted
      cases accepted
    have long : 4 ≤ front.length := by
      rw [damaged.length, Crates.beacon, c.length_packet]
      exact Nat.le_add_right _ _
    have checked := ((RadioFrame.deserialize_ok c _ frame).mp accepted).2.2.1
    rw [List.take_append_of_le_length long] at checked
    exact ⟨front, trailing, frame, reading, damaged, behind, checked, accepted, beat⟩

theorem loraTask_panics {radio : Option RadioDriver} {isRx : Bool} {own far : HeartBeat}
    (h : loraTask c radio isRx own far = none) :
    isRx = true ∧ ∃ driver packet, radio = some driver ∧ driver.readPacket = some packet ∧
      packet.length < 4 := by
  cases radio with
  | none => cases h
  | some radio =>
    cases isRx with
    | true =>
      simp only [loraTask, if_true] at h
      split at h
      · split at h
        · rename_i packet read
          split at h
          · rename_i short
            refine ⟨rfl, radio, packet, rfl, read, ?_⟩
            by_contra enough
            obtain ⟨r, answered⟩ := RadioFrame.deserialize_isSome c (Nat.not_lt.mp enough)
            rw [short] at answered
            cases answered
          · cases h
          · cases h
        · cases h
      · cases h
    | false =>
      simp only [loraTask, Bool.false_eq_true, if_false] at h
      split at h
      · rename_i short
        have room : ¬ (List.replicate 255 (0 : UInt8)).length < 4 := by
          rw [List.length_replicate]
          decide
        unfold RadioFrame.serialize at short
        rw [if_neg room] at short
        split at short <;> cases short
      · split at h <;> cases h
      · cases h

theorem sent_kept {s s' : Station} {a : StationAct} (h : stationStep c s a = some s')
    {x : Nat × HeartBeat} (hx : x ∈ s.log.sent) : x ∈ s'.log.sent := by
  cases stationStep_cases c h with
  | ppsSyncTask => exact hx
  | phaseShiftDue scheduled => exact hx
  | phaseShiftTx ready => exact hx
  | ledDue later => exact hx
  | ledTask queued => exact hx
  | takeTxFlag idle => exact hx
  | @loraTask txFlag radio idle =>
    have hran := idleLoraTask_cases c radio txFlag s
    generalize idleLoraTask c radio txFlag s = s' at hran ⊢
    cases hran with
    | panicked short => exact hx
    | nothing quiet => exact hx
    | heard present receiving read accepted beat => exact hx
    | sent present sending => exact List.mem_append_left _ hx
    | failed present sending => exact hx
  | spawnOled idle => exact hx
  | oledTask queued => exact hx
  | undrawn queued => exact hx

def Heard (n : Net ι) (i : ι) : Prop :=
  (n.station i).remoteHeartbeat = ⟨0, 0⟩ ∨
    ∃ j, j ≠ i ∧ ∃ x ∈ (n.station j).log.sent, (n.station i).remoteHeartbeat = x.2 ∨
      c.Forged (c.beacon x.2) (n.received i) (n.station i).remoteHeartbeat

structure NetInv (n : Net ι) : Prop where
  running : ∀ i, (n.station i).panicked = false
  triggered : ∀ i, Triggered (n.station i)
  heard : ∀ i, Heard c n i

theorem Crates.Forged.mono {packet : List UInt8} {received more : List (List UInt8)}
    {hb : HeartBeat} (h : c.Forged packet received hb) (hsub : received ⊆ more) :
    c.Forged packet more hb := by
  obtain ⟨front, trailing, frame, read, rest⟩ := h
  exact ⟨front, trailing, frame, hsub read, rest⟩

theorem station_overAir (hpost : c.Postcard07) (hcrc : c.ReflectedCrc32) {n : Net ι} {i : ι}
    {a : StationAct} {s' : Station} (running : (n.station i).panicked = false)
    (air : overAir c n (i, a)) (h : stationStep c (n.station i) a = some s') :
    s'.panicked = false ∧ (s'.remoteHeartbeat = (n.station i).remoteHeartbeat ∨
      ∃ j, j ≠ i ∧ ∃ x ∈ (n.station j).log.sent, s'.remoteHeartbeat = x.2 ∨
        c.Forged (c.beacon x.2) ((n.station i).reads a) s'.remoteHeartbeat) := by
  cases stationStep_cases c h with
  | ppsSyncTask => exact ⟨running, Or.inl rfl⟩
  | phaseShiftDue scheduled => exact ⟨running, Or.inl rfl⟩
  | phaseShiftTx ready => exact ⟨running, Or.inl rfl⟩
  | ledDue later => exact ⟨running, Or.inl rfl⟩
  | ledTask queued => exact ⟨running, Or.inl rfl⟩
  | takeTxFlag idle => exact ⟨running, Or.inl rfl⟩
  | @loraTask txFlag radio idle =>
    have reading : ∀ {driver packet}, radio = some driver → txFlag = false →
        driver.readPacket = some packet → packet ∈ (n.station i).reads (.loraTask radio) := by
      rintro driver packet rfl rfl read
      simp [Station.reads, idle, read]
    have hran := idleLoraTask_cases c radio txFlag (n.station i)
    generalize idleLoraTask c radio txFlag (n.station i) = s' at hran ⊢
    cases hran with
    | panicked short =>
      obtain ⟨listens, driver, packet, present, read, less⟩ := loraTask_panics c short
      obtain ⟨j, -, x, -, arrives⟩ :=
        air.received packet (reading present (by simpa using listens) read)
      have long := arrives.length
      rw [Crates.beacon, c.length_packet] at long
      omega
    | nothing quiet => exact ⟨running, Or.inl rfl⟩
    | heard present receiving read accepted beat =>
      have new := reading present receiving read
      obtain ⟨j, hj, x, hx, arrives⟩ := air.received _ new
      exact ⟨running, Or.inr ⟨j, hj, x, hx, arrives.accepted c hpost hcrc new accepted beat⟩⟩
    | sent present sending => exact ⟨running, Or.inl rfl⟩
    | failed present sending => exact ⟨running, Or.inl rfl⟩
  | spawnOled idle => exact ⟨running, Or.inl rfl⟩
  | oledTask queued => exact ⟨running, Or.inl rfl⟩
  | undrawn queued => exact absurd rfl air.drawn

theorem netStep_cases [DecidableEq ι] {n n' : Net ι} {a : ι × StationAct}
    (h : netStep c n a = some n') :
    stationStep c (n.station a.1) a.2 = some (n'.station a.1) ∧
      n'.received a.1 = n.received a.1 ++ (n.station a.1).reads a.2 ∧
      ∀ j, j ≠ a.1 → n'.station j = n.station j ∧ n'.received j = n.received j := by
  obtain ⟨s', hs, rfl⟩ := Option.map_eq_some_iff.mp h
  refine ⟨?_, Function.update_self .., fun j hj =>
    ⟨Function.update_of_ne hj .., Function.update_of_ne hj ..⟩⟩
  exact hs.trans (congrArg some (Function.update_self a.1 s' n.station).symm)

theorem netStep_sent [DecidableEq ι] {n n' : Net ι} {a : ι × StationAct}
    (h : netStep c n a = some n') {j : ι} {x : Nat × HeartBeat}
    (hx : x ∈ (n.station j).log.sent) : x ∈ (n'.station j).log.sent := by
  obtain ⟨moved, -, others⟩ := netStep_cases c h
  by_cases hj : j = a.1
  · subst hj
    exact sent_kept c moved hx
  · rwa [(others j hj).1]

theorem heard_step [DecidableEq ι] (hpost : c.Postcard07) (hcrc : c.ReflectedCrc32)
    {n n' : Net ι} {a : ι × StationAct} (running : (n.station a.1).panicked = false)
    (air : overAir c n a) (h : netStep c n a = some n') {k : ι} (hheard : Heard c n k) :
    Heard c n' k := by
  have kept : ∀ {j x}, x ∈ (n.station j).log.sent → x ∈ (n'.station j).log.sent :=
    netStep_sent c h
  obtain ⟨moved, read, others⟩ := netStep_cases c h
  unfold Heard at hheard ⊢
  by_cases hk : k = a.1
  · subst hk
    obtain ⟨-, same | ⟨j, hj, x, hx, new⟩⟩ := station_overAir c hpost hcrc running air moved
    · rw [same, read]
      refine hheard.imp_right fun ⟨j, hj, x, hx, old⟩ => ⟨j, hj, x, kept hx, ?_⟩
      exact old.imp_right fun forged => forged.mono c (List.subset_append_left ..)
    · refine Or.inr ⟨j, hj, x, kept hx, new.imp_right fun forged => ?_⟩
      rw [read]
      exact forged.mono c (List.subset_append_right ..)
  · obtain ⟨station, received⟩ := others k hk
    rw [station, received]
    exact hheard.imp_right fun ⟨j, hj, x, hx, old⟩ => ⟨j, hj, x, kept hx, old⟩

theorem net_step [DecidableEq ι] (hpost : c.Postcard07) (hcrc : c.ReflectedCrc32)
    {n n' : Net ι} {a : ι × StationAct} (hi : NetInv c n) (air : overAir c n a)
    (h : netStep c n a = some n') : NetInv c n' := by
  obtain ⟨moved, -, others⟩ := netStep_cases c h
  obtain ⟨goes, -⟩ := station_overAir c hpost hcrc (hi.running a.1) air moved
  have goesOn : ∀ k, (n'.station k).panicked = false ∧ Triggered (n'.station k) := by
    intro k
    by_cases hk : k = a.1
    · subst hk
      exact ⟨goes, triggered_step c (hi.triggered a.1) moved⟩
    · rw [(others k hk).1]
      exact ⟨hi.running k, hi.triggered k⟩
  exact ⟨fun k => (goesOn k).1, fun k => (goesOn k).2, fun k =>
    heard_step c hpost hcrc (hi.running a.1) air h (hi.heard k)⟩

/-- Over such a channel no station panics, and the remote heartbeat of each is the one of
start-up, one that another station sent at one of its pulses, or one read from such a packet,
received damaged, when the bytes behind it closed its CRC. -/
theorem heard_was_sent [DecidableEq ι] (hpost : c.Postcard07) (hcrc : c.ReflectedCrc32)
    {n : Net ι} (h : Transition.ReachableBy (netStep c) (fun n a => overAir c n a) .init n)
    (i : ι) :
    (n.station i).panicked = false ∧ ((n.station i).remoteHeartbeat = ⟨0, 0⟩ ∨
      ∃ j, j ≠ i ∧ ∃ k rssi, k ≤ (n.station j).log.pulses ∧
        (k, ⟨UInt32.ofNat k, rssi⟩) ∈ (n.station j).log.sent ∧
        ((n.station i).remoteHeartbeat = ⟨UInt32.ofNat k, rssi⟩ ∨
          c.Forged (c.beacon ⟨UInt32.ofNat k, rssi⟩) (n.received i)
            (n.station i).remoteHeartbeat)) := by
  have start : NetInv c (.init : Net ι) :=
    ⟨fun _ => rfl, fun _ => triggered_init, fun _ => Or.inl rfl⟩
  have hi : NetInv c n := h.invariant (netStep c) start
    fun _ _ _ hi air hs => net_step c hpost hcrc hi air hs
  refine ⟨hi.running i, ?_⟩
  rcases hi.heard i with first | ⟨j, hj, ⟨k, uptime, rssi⟩, hx, same⟩
  · exact Or.inl first
  · obtain ⟨hk, huptime⟩ := (hi.triggered j).sent _ hx
    have hpulses : k ≤ (n.station j).log.pulses :=
      hk.trans ((Nat.le_add_right _ _).trans (hi.triggered j).budget)
    simp only at huptime
    subst huptime
    exact Or.inr ⟨j, hj, k, rssi, hpulses, hx, same⟩

end

/-- Nothing is read, and the display answers Ok. -/
def silent (n : Net Bool) (a : Bool × StationAct) : Bool :=
  ((n.station a.1).reads a.2).isEmpty && match a.2 with
    | .oledTask drawn => drawn
    | _ => true

theorem silent_overAir {n : Net Bool} {a : Bool × StationAct} (h : silent n a = true) :
    overAir crates n a := by
  obtain ⟨nothing, drawn⟩ := Bool.and_eq_true_iff.mp h
  refine ⟨fun b hb => ?_, fun undrawn => ?_⟩
  · rw [List.isEmpty_iff.mp nothing] at hb
    cases hb
  · simp [undrawn] at drawn

def reads (packet : List UInt8) : RadioDriver := { silentRadio with readPacket := some packet }

/-- One station's first heartbeat reaches the other damaged, with zeros behind it, and then
as it was sent. -/
def receptions : List (Bool × StationAct) :=
  [(false, .takeTxFlag), (false, .loraTask (some (reads (firstPacket.set 17 2 ++ [0, 0])))),
    (false, .takeTxFlag), (false, .loraTask (some (reads firstPacket))), (false, .spawnOled),
    (false, .oledTask true)]

theorem damaged_set {k : Nat} {b : UInt8} (hk : 4 ≤ k)
    (changed : firstPacket.set k b ≠ firstPacket) : Damaged firstPacket (firstPacket.set k b) := by
  refine ⟨List.length_set, changed, Or.inl ⟨k, hk, fun i differ => ?_⟩⟩
  have here : i = k := by
    by_contra other
    exact differ (List.getElem?_set_ne (Ne.symm other)).symm
  omega

theorem receptions_overAir : ∀ a ∈ receptions, ∀ n : Net Bool,
    (1, ⟨1, -777⟩) ∈ (n.station true).log.sent → overAir crates n a := by
  have arrive : ∀ (n : Net Bool) b, Arrives firstPacket b →
      (1, ⟨1, -777⟩) ∈ (n.station true).log.sent →
        overAir crates n (false, .loraTask (some (reads b))) := by
    intro n b arrives sent
    refine ⟨fun b' read => ?_, nofun⟩
    simp only [Station.reads, reads] at read
    split at read
    · obtain rfl := List.mem_singleton.mp read
      exact ⟨true, Bool.noConfusion, _, sent, arrives⟩
    · cases read
  have damaged : Arrives firstPacket (firstPacket.set 17 2 ++ [0, 0]) :=
    ⟨_, _, Or.inr (damaged_set (by decide) (by decide +kernel)), rfl⟩
  have whole : Arrives firstPacket firstPacket :=
    ⟨_, [], Or.inl rfl, (List.append_nil _).symm⟩
  simp only [receptions, List.forall_mem_cons]
  exact ⟨fun n _ => silent_overAir rfl, fun n => arrive n _ damaged,
    fun n _ => silent_overAir rfl, fun n => arrive n _ whole, fun n _ => silent_overAir rfl,
    fun n _ => silent_overAir rfl, List.forall_mem_nil _⟩

theorem firstHeartbeat_heard :
    ∃ n : Net Bool,
      Transition.ReachableBy (netStep crates) (fun n a => overAir crates n a) .init n ∧
      (n.station false).remoteHeartbeat = ⟨1, -777⟩ ∧
      (n.station false).shown.isSome = true ∧ (n.received false).length = 2 ∧
      (n.station false).panicked = false ∧ ((n.station false).remoteHeartbeat = ⟨0, 0⟩ ∨
        ∃ j, j ≠ false ∧ ∃ k rssi, k ≤ (n.station j).log.pulses ∧
          (k, ⟨UInt32.ofNat k, rssi⟩) ∈ (n.station j).log.sent ∧
            ((n.station false).remoteHeartbeat = ⟨UInt32.ofNat k, rssi⟩ ∨
              crates.Forged (crates.beacon ⟨UInt32.ofNat k, rssi⟩) (n.received false)
                (n.station false).remoteHeartbeat)) := by
  obtain ⟨n, hn, hp⟩ := Transition.exists_reachableBy_of_run (netStep crates) silent .init
    (firstAttempt.map (true, ·))
    (fun n : Net Bool => decide ((1, (⟨1, -777⟩ : HeartBeat)) ∈ (n.station true).log.sent) &&
      (Transition.run (netStep crates) (fun _ _ => true) n receptions).any
        fun n' : Net Bool => decide ((n'.station false).remoteHeartbeat = ⟨1, -777⟩) &&
          ((n'.station false).shown.isSome && decide ((n'.received false).length = 2)))
    (by decide +kernel)
  simp only [Bool.and_eq_true, decide_eq_true_eq] at hp
  obtain ⟨sent, hears⟩ := hp
  obtain ⟨n', more, heard⟩ := Transition.exists_reachableBy_of_acts (netStep crates)
    (fun n : Net Bool => (1, (⟨1, -777⟩ : HeartBeat)) ∈ (n.station true).log.sent)
    (fun _ _ _ sent taken => netStep_sent crates taken sent) n sent receptions _
    receptions_overAir hears
  have reached := (hn.mono (netStep crates) fun _ _ => silent_overAir).trans (netStep crates) more
  simp only [Bool.and_eq_true, decide_eq_true_eq] at heard
  obtain ⟨beat, shown, packets⟩ := heard
  exact ⟨n', reached, beat, shown, packets,
    heard_was_sent crates crates_postcard07 crates_reflectedCrc32 reached false⟩

/-- The accident is possible: 257 is read where one was sent. -/
example : crates.Forged firstPacket [firstPacket.set 18 1 ++ [160, 103, 246, 150]] ⟨257, -777⟩ :=
  ⟨firstPacket.set 18 1, [160, 103, 246, 150], .new 10 110 (.heartBeat ⟨257, -777⟩),
    List.mem_singleton_self _, damaged_set (by decide) (by decide +kernel), nofun,
    by decide +kernel, by decide +kernel, rfl⟩

end VhlHackathon
