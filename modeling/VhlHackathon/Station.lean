import VhlHackathon.Lora
import VhlHackathon.Screen
import VhlHackathon.Transition
set_option autoImplicit false

/-!
One station: the idle loop that runs the radio task, the pulse that triggers a transmission
half a period later, and the tasks of the display and the LED. Tasks of a higher priority
may run between any two steps of the loop.
-/

namespace VhlHackathon

inductive TimerSlot where
  | free
  | scheduled
  | ready
  deriving DecidableEq, Repr

/-- Where `idle` is in its loop: it is about to take the flag, to run `lora_task`, or to
spawn the display task. -/
inductive IdlePoint where
  | top
  | radio (txFlag : Bool)
  | refresh
  deriving DecidableEq, Repr

/-- The instances of `led_task`: those ready to run, in order, and how many are due later.
Only a switch-off is ever scheduled. -/
structure LedSlots where
  ready : List Bool
  later : Nat
  deriving DecidableEq, Repr

structure StationLog where
  pulses : Nat
  attempts : Nat
  /-- the heartbeats that went on air, each with the number of its attempt -/
  sent : List (Nat × HeartBeat)
  /-- a transmission failed since the display was drawn -/
  failed : Bool
  deriving DecidableEq, Repr

structure Station where
  localHeartbeat : HeartBeat
  remoteHeartbeat : HeartBeat
  txFlag : Bool
  phaseShiftTx : TimerSlot
  oledTask : Bool
  ledTask : LedSlots
  ledGreen : Bool
  idle : IdlePoint
  shown : Option (List UInt8)
  panicked : Bool
  log : StationLog
  deriving DecidableEq, Repr

def Station.init : Station where
  localHeartbeat := ⟨0, 0⟩
  remoteHeartbeat := ⟨0, 0⟩
  txFlag := false
  phaseShiftTx := .free
  oledTask := true
  ledTask := ⟨[], 0⟩
  ledGreen := false
  idle := .top
  shown := none
  panicked := false
  log := ⟨0, 0, [], false⟩

/-- `#[task(capacity = 2)]`, spawned instances and scheduled ones together. -/
def LedSlots.free (l : LedSlots) : Bool := decide (l.ready.length + l.later < 2)

def LedSlots.spawn (l : LedSlots) (enable : Bool) : LedSlots :=
  if l.free then { l with ready := l.ready ++ [enable] } else l

def LedSlots.spawnAfter (l : LedSlots) : LedSlots :=
  if l.free then { l with later := l.later + 1 } else l

def ppsSyncTask (s : Station) : Station :=
  { s with
    ledTask := (s.ledTask.spawn true).spawnAfter
    phaseShiftTx := if s.phaseShiftTx = .free then .scheduled else s.phaseShiftTx
    log.pulses := s.log.pulses + 1 }

/-- The display of the station's build: the task of the other one is empty. `drawn` says
whether `draw` and `flush` answered Ok. -/
def oledTask (drawn : Bool) (s : Station) : Station :=
  match oledText s.localHeartbeat s.remoteHeartbeat with
  | none => { s with panicked := true }
  | some text =>
    if drawn then { s with oledTask := false, shown := some text, log.failed := false }
    else { s with panicked := true } -- both answers are unwrapped

inductive StationAct where
  | ppsSyncTask
  | phaseShiftDue
  | phaseShiftTx
  | ledDue
  | ledTask
  | takeTxFlag
  | loraTask (radio : Option RadioDriver)
  | spawnOled
  | oledTask (drawn : Bool)

section
variable (c : Crates)

/-- `lora_task` in the loop. Both heartbeats are locked meanwhile, so that no other task
runs. -/
def idleLoraTask (radio : Option RadioDriver) (txFlag : Bool) (s : Station) : Station :=
  match loraTask c radio (!txFlag) s.localHeartbeat s.remoteHeartbeat with
  | none => { s with panicked := true }
  | some out =>
    let sending := radio.isSome && txFlag
    let attempts := if sending then s.log.attempts + 1 else s.log.attempts
    { s with
      localHeartbeat := out.localHeartbeat
      remoteHeartbeat := out.remoteHeartbeat
      idle := if out.result then .refresh else .top
      log.attempts := attempts
      log.sent := s.log.sent ++ (out.onAir.map fun _ => (attempts, out.localHeartbeat)).toList
      log.failed := s.log.failed || (sending && !out.result) }

def stationStep (s : Station) (a : StationAct) : Option Station :=
  if s.panicked then none
  else
    match a, s.idle with
    | .ppsSyncTask, _ => some (ppsSyncTask s)
    | .phaseShiftDue, _ =>
      if s.phaseShiftTx = .scheduled then some { s with phaseShiftTx := .ready } else none
    | .phaseShiftTx, _ =>
      if s.phaseShiftTx = .ready then some { s with phaseShiftTx := .free, txFlag := true }
      else none
    | .ledDue, _ =>
      if s.ledTask.later = 0 then none
      else some { s with ledTask := ⟨s.ledTask.ready ++ [false], s.ledTask.later - 1⟩ }
    | .ledTask, _ =>
      match s.ledTask.ready with
      | [] => none
      | enable :: ready =>
        some { s with ledTask := ⟨ready, s.ledTask.later⟩, ledGreen := enable }
    | .takeTxFlag, .top => some { s with txFlag := false, idle := .radio s.txFlag }
    | .loraTask radio, .radio txFlag => some (idleLoraTask c radio txFlag s)
    | .spawnOled, .refresh => some { s with oledTask := true, idle := .top }
    | .oledTask drawn, _ => if s.oledTask then some (oledTask drawn s) else none
    | _, _ => none

inductive LoraRan (own far : HeartBeat) : Option RadioDriver → Bool → LoraOut → Prop where
  | nothing {radio : Option RadioDriver} {txFlag : Bool} (quiet : radio = none ∨ txFlag = false) :
      LoraRan own far radio txFlag ⟨own, far, none, false⟩
  | heard {radio : RadioDriver} {packet : List UInt8} {frame : RadioFrame} {hb : HeartBeat}
      (read : radio.readPacket = some packet)
      (accepted : RadioFrame.deserialize c packet = some (.ok frame))
      (beat : frame.frameType = .heartBeat hb) :
      LoraRan own far (some radio) false ⟨own, hb, none, true⟩
  | sent {radio : RadioDriver} (packet : List UInt8) :
      LoraRan own far (some radio) true ⟨own.next radio.packetRssi, far, some packet, true⟩
  | failed {radio : RadioDriver} :
      LoraRan own far (some radio) true ⟨own.next radio.packetRssi, far, none, false⟩

theorem loraTask_ran {radio : Option RadioDriver} {txFlag : Bool} {own far : HeartBeat}
    {out : LoraOut} (h : loraTask c radio (!txFlag) own far = some out) :
    LoraRan c own far radio txFlag out := by
  cases radio with
  | none =>
    cases h
    exact .nothing (Or.inl rfl)
  | some radio =>
    cases txFlag with
    | true =>
      simp only [loraTask, Bool.not_true, Bool.false_eq_true, if_false] at h
      split at h
      · cases h
      · split at h <;> cases h
        · exact .sent _
        · exact .failed
      · cases h
        exact .failed
    | false =>
      simp only [loraTask, Bool.not_false, if_true] at h
      split at h
      · split at h
        · rename_i packet read
          split at h
          · cases h
          · rename_i frame accepted
            rcases beat : frame.frameType with hb
            simp only [beat] at h
            cases h
            exact .heard read accepted beat
          · cases h
            exact .nothing (Or.inr rfl)
        · cases h
          exact .nothing (Or.inr rfl)
      · cases h
        exact .nothing (Or.inr rfl)

inductive StationStepped (s : Station) : StationAct → Station → Prop where
  | ppsSyncTask : StationStepped s .ppsSyncTask (ppsSyncTask s)
  | phaseShiftDue (scheduled : s.phaseShiftTx = .scheduled) :
      StationStepped s .phaseShiftDue { s with phaseShiftTx := .ready }
  | phaseShiftTx (ready : s.phaseShiftTx = .ready) :
      StationStepped s .phaseShiftTx { s with phaseShiftTx := .free, txFlag := true }
  | ledDue (later : s.ledTask.later ≠ 0) : StationStepped s .ledDue
      { s with ledTask := ⟨s.ledTask.ready ++ [false], s.ledTask.later - 1⟩ }
  | ledTask {enable : Bool} {ready : List Bool} (queued : s.ledTask.ready = enable :: ready) :
      StationStepped s .ledTask
        { s with ledTask := ⟨ready, s.ledTask.later⟩, ledGreen := enable }
  | takeTxFlag (idle : s.idle = .top) :
      StationStepped s .takeTxFlag { s with txFlag := false, idle := .radio s.txFlag }
  | loraTask {txFlag : Bool} (radio : Option RadioDriver) (idle : s.idle = .radio txFlag) :
      StationStepped s (.loraTask radio) (idleLoraTask c radio txFlag s)
  | spawnOled (idle : s.idle = .refresh) :
      StationStepped s .spawnOled { s with oledTask := true, idle := .top }
  | oledTask (queued : s.oledTask = true) : StationStepped s (.oledTask true) { s with
      oledTask := false
      shown := oledText s.localHeartbeat s.remoteHeartbeat
      log.failed := false }
  | undrawn (queued : s.oledTask = true) :
      StationStepped s (.oledTask false) { s with panicked := true }

theorem oledTask_eq (drawn : Bool) (s : Station) : oledTask drawn s =
    if drawn then { s with
      oledTask := false
      shown := oledText s.localHeartbeat s.remoteHeartbeat
      log.failed := false }
    else { s with panicked := true } := by
  unfold oledTask
  rw [oledText_eq]

theorem stationStep_cases {s s' : Station} {a : StationAct}
    (h : stationStep c s a = some s') : StationStepped c s a s' := by
  unfold stationStep at h
  split at h
  · cases h
  split at h
  · cases h
    exact .ppsSyncTask
  · split at h
    · rename_i scheduled
      cases h
      exact .phaseShiftDue scheduled
    · cases h
  · split at h
    · rename_i ready
      cases h
      exact .phaseShiftTx ready
    · cases h
  · split at h
    · cases h
    · rename_i later
      cases h
      exact .ledDue later
  · split at h
    · cases h
    · rename_i queued
      cases h
      exact .ledTask queued
  · rename_i idle
    cases h
    exact .takeTxFlag idle
  · rename_i idle
    cases h
    exact .loraTask _ idle
  · rename_i idle
    cases h
    exact .spawnOled idle
  · rename_i drawn
    split at h
    · rename_i queued
      obtain rfl := Option.some.inj h
      rw [oledTask_eq]
      cases drawn with
      | true => exact .oledTask queued
      | false => exact .undrawn queued
    · cases h
  · cases h

inductive IdleRan (s : Station) (radio : Option RadioDriver) (txFlag : Bool) : Station → Prop where
  | panicked (short : loraTask c radio (!txFlag) s.localHeartbeat s.remoteHeartbeat = none) :
      IdleRan s radio txFlag { s with panicked := true }
  | nothing (quiet : radio = none ∨ txFlag = false) :
      IdleRan s radio txFlag { s with idle := .top }
  | heard {driver : RadioDriver} {packet : List UInt8} {frame : RadioFrame} {hb : HeartBeat}
      (present : radio = some driver) (receiving : txFlag = false)
      (read : driver.readPacket = some packet)
      (accepted : RadioFrame.deserialize c packet = some (.ok frame))
      (beat : frame.frameType = .heartBeat hb) :
      IdleRan s radio txFlag { s with remoteHeartbeat := hb, idle := .refresh }
  | sent {driver : RadioDriver} (present : radio = some driver) (sending : txFlag = true) :
      IdleRan s radio txFlag { s with
        localHeartbeat := s.localHeartbeat.next driver.packetRssi
        idle := .refresh
        log.attempts := s.log.attempts + 1
        log.sent := s.log.sent ++
          [(s.log.attempts + 1, s.localHeartbeat.next driver.packetRssi)] }
  | failed {driver : RadioDriver} (present : radio = some driver) (sending : txFlag = true) :
      IdleRan s radio txFlag { s with
        localHeartbeat := s.localHeartbeat.next driver.packetRssi
        idle := .top
        log.attempts := s.log.attempts + 1
        log.failed := true }

theorem idleLoraTask_cases (radio : Option RadioDriver) (txFlag : Bool) (s : Station) :
    IdleRan c s radio txFlag (idleLoraTask c radio txFlag s) := by
  unfold idleLoraTask
  cases ran : loraTask c radio (!txFlag) s.localHeartbeat s.remoteHeartbeat with
  | none => exact .panicked ran
  | some out =>
    have h := loraTask_ran c ran
    cases h with
    | nothing quiet =>
      have still : (radio.isSome && txFlag) = false := by
        rcases quiet with rfl | rfl <;> simp
      simpa [still] using IdleRan.nothing quiet
    | heard read accepted beat => simpa using IdleRan.heard rfl rfl read accepted beat
    | sent packet => simpa using IdleRan.sent rfl rfl
    | failed => simpa using IdleRan.failed rfl rfl

def Station.owed (s : Station) : Nat :=
  (if s.idle = .radio true then 1 else 0) + s.txFlag.toNat +
    if s.phaseShiftTx = .free then 0 else 1

/-- Every attempt was triggered by a pulse of its own, and the counter counts attempts. -/
structure Triggered (s : Station) : Prop where
  budget : s.log.attempts + s.owed ≤ s.log.pulses
  uptime : s.localHeartbeat.uptime = UInt32.ofNat s.log.attempts
  once : s.log.sent.length ≤ s.log.attempts
  order : (s.log.sent.map (·.1)).Pairwise (· < ·)
  sent : ∀ x ∈ s.log.sent, x.1 ≤ s.log.attempts ∧ x.2.uptime = UInt32.ofNat x.1

theorem HeartBeat.next_uptime {hb : HeartBeat} {n : Nat} (h : hb.uptime = UInt32.ofNat n)
    (rssi : Option Int32) : (hb.next rssi).uptime = UInt32.ofNat (n + 1) := by
  rw [HeartBeat.next, h, UInt32.ofNat_add]
  rfl

theorem triggered_idle {s : Station} (hi : Triggered s) {txFlag : Bool}
    (idle : s.idle = .radio txFlag) {s' : Station} {radio : Option RadioDriver}
    (h : IdleRan c s radio txFlag s') : Triggered s' := by
  obtain ⟨hbudget, huptime, honce, horder, hsent⟩ := hi
  have more : ∀ x ∈ s.log.sent, x.1 ≤ s.log.attempts + 1 ∧ x.2.uptime = UInt32.ofNat x.1 :=
    fun x hx => ⟨Nat.le_succ_of_le (hsent x hx).1, (hsent x hx).2⟩
  cases h with
  | panicked short => exact ⟨hbudget, huptime, honce, horder, hsent⟩
  | nothing quiet =>
    refine ⟨?_, huptime, honce, horder, hsent⟩
    simp only [Station.owed, idle] at hbudget ⊢
    simp only [reduceCtorEq, if_false]
    omega
  | heard present receiving read accepted beat =>
    refine ⟨?_, huptime, honce, horder, hsent⟩
    simp only [Station.owed, idle] at hbudget ⊢
    simp only [reduceCtorEq, if_false]
    omega
  | @sent driver present sending =>
    subst sending
    have hnext := HeartBeat.next_uptime huptime driver.packetRssi
    refine ⟨?_, hnext, ?_, ?_, fun x hx => ?_⟩
    · simp only [Station.owed, idle, if_true, reduceCtorEq, if_false] at hbudget ⊢
      omega
    · simp only [List.length_append, List.length_singleton]
      omega
    · rw [List.map_append, List.pairwise_append]
      refine ⟨horder, List.pairwise_singleton _ _, fun k hk l hl => ?_⟩
      obtain ⟨x, hx, rfl⟩ := List.mem_map.mp hk
      obtain rfl := List.mem_singleton.mp hl
      exact Nat.lt_succ_of_le (hsent x hx).1
    · rcases List.mem_append.mp hx with hx | hx
      · exact more x hx
      · obtain rfl := List.mem_singleton.mp hx
        exact ⟨Nat.le_refl _, hnext⟩
  | @failed driver present sending =>
    subst sending
    refine ⟨?_, HeartBeat.next_uptime huptime driver.packetRssi, Nat.le_succ_of_le honce, horder,
      more⟩
    simp only [Station.owed, idle, if_true, reduceCtorEq, if_false] at hbudget ⊢
    omega

theorem triggered_step {s s' : Station} {a : StationAct} (hi : Triggered s)
    (h : stationStep c s a = some s') : Triggered s' := by
  have hbudget := hi.budget
  cases stationStep_cases c h with
  | ppsSyncTask =>
    refine ⟨?_, hi.uptime, hi.once, hi.order, hi.sent⟩
    cases hslot : s.phaseShiftTx <;>
      simp only [Station.owed, ppsSyncTask, hslot, reduceCtorEq, if_true, if_false]
        at hbudget ⊢ <;> omega
  | phaseShiftDue scheduled =>
    refine ⟨?_, hi.uptime, hi.once, hi.order, hi.sent⟩
    simpa [Station.owed, scheduled] using hbudget
  | phaseShiftTx ready =>
    refine ⟨?_, hi.uptime, hi.once, hi.order, hi.sent⟩
    simp only [Station.owed, ready, reduceCtorEq, if_true, if_false] at hbudget ⊢
    simp only [Bool.toNat_true]
    omega
  | ledDue later => exact ⟨hbudget, hi.uptime, hi.once, hi.order, hi.sent⟩
  | ledTask queued => exact ⟨hbudget, hi.uptime, hi.once, hi.order, hi.sent⟩
  | takeTxFlag idle =>
    refine ⟨?_, hi.uptime, hi.once, hi.order, hi.sent⟩
    cases hflag : s.txFlag <;> simpa [Station.owed, idle, hflag] using hbudget
  | loraTask radio idle => exact triggered_idle c hi idle (idleLoraTask_cases c _ _ s)
  | spawnOled idle =>
    refine ⟨?_, hi.uptime, hi.once, hi.order, hi.sent⟩
    simpa [Station.owed, idle] using hbudget
  | oledTask queued => exact ⟨hbudget, hi.uptime, hi.once, hi.order, hi.sent⟩
  | undrawn queued => exact ⟨hbudget, hi.uptime, hi.once, hi.order, hi.sent⟩

theorem triggered_init : Triggered .init :=
  ⟨Nat.le_refl 0, rfl, Nat.le_refl 0, List.Pairwise.nil, by simp [Station.init]⟩

/-- Unless its task is queued or about to be spawned, the display shows the remote
heartbeat of the moment and, if no transmission failed since, the local one. -/
def Shown (s : Station) : Prop :=
  s.oledTask = false → s.idle ≠ .refresh → ∃ localHb, s.shown = oledText localHb s.remoteHeartbeat ∧
    (s.log.failed = false → localHb = s.localHeartbeat)

theorem shown_step {s s' : Station} {a : StationAct} (hi : Shown s)
    (h : stationStep c s a = some s') : Shown s' := by
  cases stationStep_cases c h with
  | ppsSyncTask => exact hi
  | phaseShiftDue scheduled => exact hi
  | phaseShiftTx ready => exact hi
  | ledDue later => exact hi
  | ledTask queued => exact hi
  | takeTxFlag idle =>
    intro free _
    exact hi free (by simp [idle])
  | @loraTask txFlag radio idle =>
    have steady : s.idle ≠ .refresh := by simp [idle]
    have hran := idleLoraTask_cases c radio txFlag s
    generalize idleLoraTask c radio txFlag s = s' at hran ⊢
    cases hran with
    | panicked short => exact hi
    | nothing quiet => exact fun free _ => hi free steady
    | heard present receiving read accepted beat => exact fun _ other => absurd rfl other
    | sent present sending => exact fun _ other => absurd rfl other
    | failed present sending =>
      intro free _
      obtain ⟨localHb, hshown, -⟩ := hi free steady
      exact ⟨localHb, hshown, fun ok => by cases ok⟩
  | spawnOled idle => exact fun free => by cases free
  | oledTask queued =>
    refine fun _ _ => ⟨s.localHeartbeat, ?_, fun _ => rfl⟩
    dsimp only
  | undrawn queued => exact hi

theorem attempts_follow_pulses {s : Station}
    (h : Transition.Reachable (stationStep c) .init s) :
    s.log.attempts ≤ s.log.pulses ∧ s.localHeartbeat.uptime = UInt32.ofNat s.log.attempts ∧
      s.log.sent.length ≤ s.log.attempts ∧ (s.log.sent.map (·.1)).Pairwise (· < ·) ∧
      ∀ x ∈ s.log.sent, x.1 ≤ s.log.attempts ∧ x.2.uptime = UInt32.ofNat x.1 := by
  have hi : Triggered s := h.invariant (stationStep c) triggered_init
    fun _ _ _ hi _ hs => triggered_step c hi hs
  exact ⟨(Nat.le_add_right _ _).trans hi.budget, hi.uptime, hi.once, hi.order, hi.sent⟩

theorem display_up_to_date {s : Station} (h : Transition.Reachable (stationStep c) .init s) :
    Shown s :=
  h.invariant (stationStep c) (fun free => by cases free) fun _ _ _ hi _ hs => shown_step c hi hs

def Station.ledSettled (s : Station) : Bool :=
  (s.ledTask.ready ++ List.replicate s.ledTask.later false).getLastD s.ledGreen

theorem LedSlots.pulse (later : Nat) : ((⟨[], later⟩ : LedSlots).spawn true).spawnAfter =
    if later < 2 then ⟨[true], 1⟩ else ⟨[], later⟩ := by
  match later with
  | 0 => rfl
  | 1 => rfl
  | n+2 =>
    have full : ¬ n + 2 < 2 := by omega
    have none : (⟨[], n + 2⟩ : LedSlots).free = false := by simp [LedSlots.free, full]
    simp [LedSlots.spawn, LedSlots.spawnAfter, none, full]

def ledIdle (s : Station) : StationAct → Bool
  | .ppsSyncTask => s.ledTask.ready.isEmpty
  | _ => true

theorem led_step {s s' : Station} {a : StationAct} (hi : s.ledSettled = false)
    (hok : ledIdle s a = true) (h : stationStep c s a = some s') : s'.ledSettled = false := by
  cases stationStep_cases c h with
  | ppsSyncTask =>
    have hready : s.ledTask.ready = [] := List.isEmpty_iff.mp hok
    rcases hslots : s.ledTask with ⟨ready, later⟩
    rw [hslots] at hready
    obtain rfl : ready = [] := hready
    rw [Station.ledSettled, hslots] at hi
    rw [Station.ledSettled, ppsSyncTask, hslots, LedSlots.pulse]
    by_cases room : later < 2
    · rw [if_pos room]
      rfl
    · rw [if_neg room]
      exact hi
  | phaseShiftDue scheduled => exact hi
  | phaseShiftTx ready => exact hi
  | ledDue later =>
    obtain ⟨n, hn⟩ := Nat.exists_eq_succ_of_ne_zero later
    rw [Station.ledSettled, hn, List.replicate_succ] at hi
    rw [Station.ledSettled, hn]
    simpa using hi
  | ledTask queued =>
    rw [Station.ledSettled, queued, List.cons_append, List.getLastD_cons] at hi
    exact hi
  | takeTxFlag idle => exact hi
  | @loraTask txFlag radio idle =>
    have hran := idleLoraTask_cases c radio txFlag s
    generalize idleLoraTask c radio txFlag s = s' at hran ⊢
    cases hran with
    | panicked short => exact hi
    | nothing quiet => exact hi
    | heard present receiving read accepted beat => exact hi
    | sent present sending => exact hi
    | failed present sending => exact hi
  | spawnOled idle => exact hi
  | oledTask queued => exact hi
  | undrawn queued => exact hi

end

/-- A pulse while the last switch-off waits finds room for its switch-on only. -/
example : (Transition.run (stationStep crates) (fun _ _ => true) .init
    [.ppsSyncTask, .ledTask, .ledDue, .ppsSyncTask, .ledTask, .ledTask]).any
      (fun s => s.ledGreen && decide (s.ledTask = ⟨[], 0⟩)) = true := by decide

def firstAttempt : List StationAct :=
  [.ppsSyncTask, .phaseShiftDue, .phaseShiftTx, .takeTxFlag, .loraTask (some silentRadio)]

theorem firstAttempt_follows_pulse :
    ∃ s, Transition.Reachable (stationStep crates) .init s ∧ s.log.sent = [(1, ⟨1, -777⟩)] ∧
      s.log.attempts ≤ s.log.pulses ∧ s.localHeartbeat.uptime = UInt32.ofNat s.log.attempts ∧
      ∀ x ∈ s.log.sent, x.1 ≤ s.log.attempts ∧ x.2.uptime = UInt32.ofNat x.1 := by
  obtain ⟨s, hs, hp⟩ := Transition.exists_reachable_of_run (stationStep crates) .init firstAttempt
    (fun s => decide (s.log.sent = [(1, ⟨1, -777⟩)])) (by decide +kernel)
  obtain ⟨pulses, uptime, -, -, sent⟩ := attempts_follow_pulses crates hs
  exact ⟨s, hs, of_decide_eq_true hp, pulses, uptime, sent⟩

theorem firstAttempt_shown :
    ∃ s, Transition.Reachable (stationStep crates) .init s ∧ s.log.sent.length = 1 ∧
      s.shown = oledText s.localHeartbeat s.remoteHeartbeat := by
  obtain ⟨s, hs, hp⟩ := Transition.exists_reachable_of_run (stationStep crates) .init
    (firstAttempt ++ [.spawnOled, .oledTask true])
    (fun s => decide (s.log.sent.length = 1) && (!s.oledTask &&
      (decide (s.idle = .top) && !s.log.failed)))
    (by decide +kernel)
  simp only [Bool.and_eq_true, decide_eq_true_eq, Bool.not_eq_true'] at hp
  obtain ⟨sent, free, idle, ok⟩ := hp
  obtain ⟨localHb, shown, same⟩ := display_up_to_date crates hs free (by rw [idle]; decide)
  exact ⟨s, hs, sent, by rw [shown, same ok]⟩

end VhlHackathon
