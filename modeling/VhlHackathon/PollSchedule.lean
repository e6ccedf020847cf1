import VhlHackathon.Transition
import Mathlib.Data.UInt
set_option autoImplicit false

/-!
When smoltcp is polled next. `ethernet_event` turns the answers of `poll_at` into one
advice, and then spawns, reschedules, keeps or cancels the one `smoltcp_poll_at`
instance. Timer expiry and the ETH pend of other parties may come at any time.
-/

namespace VhlHackathon

abbrev Instant := UInt64

/-- `total_micros() as u64`, in ticks of the 200 MHz core clock. -/
def ticks (micros : UInt64) : Instant := micros * 200

structure Clock where
  earlier : Instant → Instant → Bool
  irrefl : ∀ t, earlier t t = false

/-- Instants compare by the sign of their wrapping difference. -/
def Clock.wrapping : Clock where
  earlier a b := decide (a ≠ b) && decide (UInt64.ofNat (2^63 - 1) < a - b)
  irrefl t := by simp

/-- The outstanding `smoltcp_poll_at` instance: in the timer queue, or released to run. -/
structure PollTask where
  marker : UInt32
  due : Instant
  released : Bool
  deriving DecidableEq, Repr

structure PollAtHandle where
  originallyScheduledAt : Instant
  handle : UInt32
  deriving DecidableEq, Repr

/-- The locals of an `ethernet_event` that has taken the handle out: what `poll_at`
answered, the advice, and the handle. -/
structure Activation where
  answers : List (Option UInt64)
  pollAtAdvice : Option Instant
  pollAtHandle : Option PollAtHandle
  deriving DecidableEq, Repr

structure PollState where
  pollAtHandle : Option PollAtHandle
  task : Option PollTask
  tqMarker : UInt32
  ethPended : Bool
  running : Option Activation
  deriving DecidableEq, Repr

def PollState.init : PollState := ⟨none, none, 0, false, none⟩

def maxIterations : Nat := 5

def pollLoop (pollAt : Nat → Option UInt64) : Nat → Nat → Option Instant × List (Option UInt64)
  | 0, _ => (none, [])
  | n+1, i =>
    match pollAt i with
    | some micros =>
      if micros = 0 then
        let (advice, answers) := pollLoop pollAt n (i+1)
        (advice, some micros :: answers)
      else (some (ticks micros), [some micros])
    | none => (none, [none])

def spawnAt (t : Instant) (s : PollState) : Option UInt32 × PollState :=
  match s.task with
  | some _ => (none, s)
  | none =>
    (some s.tqMarker, { s with task := some ⟨s.tqMarker, t, false⟩, tqMarker := s.tqMarker + 1 })

def PollTask.queuedAs (task : PollTask) (marker : UInt32) : Bool :=
  !task.released && task.marker == marker

def rescheduleAt (marker : UInt32) (t : Instant) (s : PollState) : Option UInt32 × PollState :=
  match s.task with
  | some task =>
    if task.queuedAs marker then
      (some s.tqMarker, { s with task := some ⟨s.tqMarker, t, false⟩, tqMarker := s.tqMarker + 1 })
    else (none, { s with tqMarker := s.tqMarker + 1 })
  | none => (none, { s with tqMarker := s.tqMarker + 1 })

def cancel (marker : UInt32) (s : PollState) : PollState :=
  match s.task with
  | some task => if task.queuedAs marker then { s with task := none } else s
  | none => s

def schedulePoll (clock : Clock) (r : Activation) (s : PollState) : PollState :=
  match r.pollAtAdvice with
  | some advised =>
    match r.pollAtHandle with
    | some h =>
      if clock.earlier advised h.originallyScheduledAt then
        let (handle, s') := rescheduleAt h.handle advised s
        { s' with pollAtHandle := handle.map (PollAtHandle.mk advised) }
      else { s with pollAtHandle := some h }
    | none =>
      let (handle, s') := spawnAt advised s
      { s' with pollAtHandle := handle.map (PollAtHandle.mk advised) }
  | none =>
    match r.pollAtHandle with
    | some h => cancel h.handle s
    | none => s

/-- `enter` and `finish` are the two ends of one `ethernet_event`, `smoltcpPollAt` is a
whole run of that task. `otherTimer` is any other use of the timer queue. -/
inductive PollAct where
  | pendEth
  | enter (pollAt : Nat → Option UInt64)
  | finish
  | expire
  | smoltcpPollAt
  | otherTimer

def pollStep (clock : Clock) (s : PollState) : PollAct → Option PollState
  | .pendEth => some { s with ethPended := true }
  | .enter pollAt =>
    if s.ethPended = true ∧ s.running = none then
      let (advice, answers) := pollLoop pollAt maxIterations 0
      some { s with
        ethPended := false
        running := some ⟨answers, advice, s.pollAtHandle⟩
        pollAtHandle := none }
    else none
  | .finish => s.running.map fun r => { schedulePoll clock r s with running := none }
  | .expire =>
    s.task.bind fun task =>
      if task.released then none else some { s with task := some { task with released := true } }
  | .smoltcpPollAt =>
    -- same priority as ethernet_event: never in the middle of one
    if s.running = none ∧ s.task.any (·.released) then
      some { s with task := none, pollAtHandle := none, ethPended := true }
    else none
  | .otherTimer => some { s with tqMarker := s.tqMarker + 1 }

/-- No handle: nothing is in the timer queue. A handle: its instance is outstanding, and
while it is in the queue it is due when the handle says, under the handle's marker. -/
def Owns : Option PollAtHandle → Option PollTask → Prop
  | none, none => True
  | none, some task => task.released = true
  | some _, none => False
  | some h, some task =>
    task.released = true ∨ (task.due = h.originallyScheduledAt ∧ task.marker = h.handle)

def PollState.held (s : PollState) : Option PollAtHandle :=
  match s.running with
  | some r => r.pollAtHandle
  | none => s.pollAtHandle

structure PollInv (s : PollState) : Prop where
  owns : Owns s.held s.task
  takenOut : ∀ r, s.running = some r → s.pollAtHandle = none
  looped : ∀ r, s.running = some r →
    ∃ pollAt, pollLoop pollAt maxIterations 0 = (r.pollAtAdvice, r.answers)

theorem Owns.release {h : Option PollAtHandle} {task : PollTask} (ho : Owns h (some task)) :
    Owns h (some { task with released := true }) := by
  cases h with
  | none => rfl
  | some h => exact Or.inl rfl

theorem Owns.queuedAs {h : PollAtHandle} {task : Option PollTask} (ho : Owns (some h) task) :
    ∃ t, task = some t ∧ (t.released = true ∧ t.queuedAs h.handle = false ∨
      t.released = false ∧ t.due = h.originallyScheduledAt ∧ t.queuedAs h.handle = true) := by
  cases task with
  | none => exact absurd ho id
  | some t =>
    refine ⟨t, rfl, ?_⟩
    cases hr : t.released with
    | true => exact Or.inl ⟨rfl, by simp [PollTask.queuedAs, hr]⟩
    | false =>
      rcases ho with h | ⟨hd, hm⟩
      · rw [hr] at h; cases h
      · exact Or.inr ⟨rfl, hd, by simp [PollTask.queuedAs, hr, hm]⟩

theorem rescheduleAt_queued {marker : UInt32} {s : PollState} {task : PollTask} (t : Instant)
    (ht : s.task = some task) (hq : task.queuedAs marker = true) : rescheduleAt marker t s =
      (some s.tqMarker,
        { s with task := some ⟨s.tqMarker, t, false⟩, tqMarker := s.tqMarker + 1 }) := by
  simp [rescheduleAt, ht, hq]

theorem rescheduleAt_left {marker : UInt32} {s : PollState} {task : PollTask} (t : Instant)
    (ht : s.task = some task) (hq : task.queuedAs marker = false) :
    rescheduleAt marker t s = (none, { s with tqMarker := s.tqMarker + 1 }) := by
  simp [rescheduleAt, ht, hq]

theorem cancel_queued {marker : UInt32} {s : PollState} {task : PollTask}
    (ht : s.task = some task) (hq : task.queuedAs marker = true) :
    cancel marker s = { s with task := none } := by
  simp [cancel, ht, hq]

theorem cancel_left {marker : UInt32} {s : PollState} {task : PollTask}
    (ht : s.task = some task) (hq : task.queuedAs marker = false) : cancel marker s = s := by
  simp [cancel, ht, hq]

theorem schedulePoll_spec (clock : Clock) {r : Activation} {s : PollState}
    (ho : Owns r.pollAtHandle s.task) (htaken : s.pollAtHandle = none) :
    let s' := schedulePoll clock r s
    Owns s'.pollAtHandle s'.task ∧ s'.ethPended = s.ethPended ∧ s'.running = s.running ∧
      (r.pollAtAdvice = none → s'.pollAtHandle = none) ∧
      ((∃ task, s.task = some task ∧ task.released = true) →
        ∃ task, s'.task = some task ∧ task.released = true) ∧
      ((¬ ∃ task, s.task = some task ∧ task.released = true) →
        match r.pollAtAdvice with
        | some advised => ∃ task, s'.task = some task ∧ task.released = false ∧
            clock.earlier advised task.due = false
        | none => s'.task = none) := by
  obtain ⟨answers, advice, handle⟩ := r
  cases advice with
  | some advised =>
    cases handle with
    | some h =>
      obtain ⟨task, ht, hcase⟩ := ho.queuedAs
      simp only [schedulePoll]
      rcases hcase with ⟨hr, hq⟩ | ⟨hr, hd, hq⟩
      · -- the instance has left the timer queue: reschedule_at fails
        rw [rescheduleAt_left advised ht hq]
        cases clock.earlier advised h.originallyScheduledAt <;> simp [Owns, ht, hr]
      · rw [rescheduleAt_queued advised ht hq]
        rw [ht] at ho
        cases he : clock.earlier advised h.originallyScheduledAt with
        | true => simp [Owns, ht, hr, clock.irrefl]
        | false => simp [ht, hr, hd, he, ho]
    | none =>
      simp only [schedulePoll, spawnAt]
      cases ht : s.task with
      | some task =>
        rw [ht] at ho
        have hr : task.released = true := ho
        simp [Owns, ht, hr]
      | none => simp [Owns, clock.irrefl]
  | none =>
    cases handle with
    | some h =>
      obtain ⟨task, ht, hcase⟩ := ho.queuedAs
      simp only [schedulePoll]
      rcases hcase with ⟨hr, hq⟩ | ⟨hr, -, hq⟩
      · rw [cancel_left ht hq]
        simp [htaken, Owns, ht, hr]
      · rw [cancel_queued ht hq]
        simp [htaken, Owns, ht, hr]
    | none =>
      simp only [schedulePoll]
      cases ht : s.task with
      | some task =>
        rw [ht] at ho
        have hr : task.released = true := ho
        simp [htaken, Owns, hr]
      | none => simp [htaken, Owns]

theorem pollStep_inv (clock : Clock) {s s' : PollState} {a : PollAct} (hi : PollInv s)
    (h : pollStep clock s a = some s') : PollInv s' := by
  obtain ⟨ho, ht, hl⟩ := hi
  cases a with
  | pendEth =>
    simp only [pollStep, Option.some.injEq] at h
    subst h
    exact ⟨ho, ht, hl⟩
  | enter pollAt =>
    simp only [pollStep] at h
    split at h
    · rename_i hc
      simp only [Option.some.injEq] at h
      subst h
      refine ⟨?_, fun _ _ => rfl, fun r hr => ?_⟩
      · simpa [PollState.held, hc.2] using ho
      · cases hr; exact ⟨pollAt, rfl⟩
    · cases h
  | finish =>
    simp only [pollStep, Option.map_eq_some_iff] at h
    obtain ⟨r, hr, rfl⟩ := h
    have hown : Owns r.pollAtHandle s.task := by simpa [PollState.held, hr] using ho
    obtain ⟨hs, -⟩ := schedulePoll_spec clock hown (ht r hr)
    exact ⟨hs, fun _ h => (Option.some_ne_none _ h.symm).elim,
      fun _ h => (Option.some_ne_none _ h.symm).elim⟩
  | expire =>
    simp only [pollStep, Option.bind_eq_some_iff] at h
    obtain ⟨task, htask, h⟩ := h
    split at h
    · cases h
    · simp only [Option.some.injEq] at h
      subst h
      rw [htask] at ho
      exact ⟨ho.release, ht, hl⟩
  | smoltcpPollAt =>
    simp only [pollStep] at h
    split at h
    · rename_i hc
      simp only [Option.some.injEq] at h
      subst h
      refine ⟨?_, ?_, ?_⟩
      · simp [PollState.held, hc.1, Owns]
      · intro r hr; rfl
      · intro r hr; rw [hc.1] at hr; cases hr
    · cases h
  | otherTimer =>
    simp only [pollStep, Option.some.injEq] at h
    subst h
    exact ⟨ho, ht, hl⟩

theorem reachable_pollInv (clock : Clock) {s : PollState}
    (h : Transition.Reachable (pollStep clock) .init s) : PollInv s :=
  h.invariant (pollStep clock) ⟨trivial, by simp [PollState.init], by simp [PollState.init]⟩
    fun _ _ _ hi _ hs => pollStep_inv clock hi hs

theorem handle_matches_instance (clock : Clock) {s : PollState}
    (h : Transition.Reachable (pollStep clock) .init s) (hbetween : s.running = none) :
    (s.pollAtHandle = none → ∀ task, s.task = some task → task.released = true) ∧
      ∀ h, s.pollAtHandle = some h → ∃ task, s.task = some task ∧
        (task.released = false → task.due = h.originallyScheduledAt) := by
  have howns : Owns s.pollAtHandle s.task := by
    simpa [PollState.held, hbetween] using (reachable_pollInv clock h).owns
  refine ⟨fun hnone task htask => ?_, fun handle hsome => ?_⟩
  · rw [hnone, htask] at howns
    exact howns
  · rw [hsome] at howns
    obtain ⟨task, htask, ⟨hr, -⟩ | ⟨-, hdue, -⟩⟩ := howns.queuedAs
    · exact ⟨task, htask, fun hq => by rw [hr] at hq; cases hq⟩
    · exact ⟨task, htask, fun _ => hdue⟩

theorem rescheduled_matches :
    ∃ s, Transition.Reachable (pollStep .wrapping) .init s ∧
      s.pollAtHandle = some ⟨200000, 1⟩ ∧ ∃ task, s.task = some task ∧
        (task.released = false → task.due = 200000) := by
  have hs : Transition.Reachable (pollStep .wrapping) .init
      ⟨some ⟨200000, 1⟩, some ⟨1, 200000, false⟩, 2, false, none⟩ :=
    Transition.reachable_of_run _ [.pendEth, .enter fun _ => some 2000, .finish, .pendEth,
      .enter fun _ => some 1000, .finish] (by decide)
  exact ⟨_, hs, rfl, (handle_matches_instance .wrapping hs rfl).2 _ rfl⟩

theorem pollLoop_spec (pollAt : Nat → Option UInt64) (n i : Nat) :
    let r := pollLoop pollAt n i
    (r.1 = none ∧ r.2 = List.replicate n (some 0)) ∨
      (r.1 = none ∧ r.2.getLast? = some none) ∨
      ∃ micros, micros ≠ 0 ∧ r.1 = some (ticks micros) ∧ r.2.getLast? = some (some micros) := by
  induction n generalizing i with
  | zero => exact Or.inl ⟨rfl, rfl⟩
  | succ n ih =>
    simp only [pollLoop]
    cases hp : pollAt i with
    | none => exact Or.inr (Or.inl ⟨rfl, rfl⟩)
    | some micros =>
      by_cases h0 : micros = 0
      · subst h0
        simp only [if_true]
        rcases ih (i+1) with ⟨h1, h2⟩ | ⟨h1, h2⟩ | ⟨m, hm, h1, h2⟩
        · exact Or.inl ⟨h1, by rw [h2, List.replicate_succ]⟩
        · exact Or.inr (Or.inl ⟨h1, by simp [List.getLast?_cons, h2]⟩)
        · exact Or.inr (Or.inr ⟨m, hm, h1, by simp [List.getLast?_cons, h2]⟩)
      · simp only [h0, if_false]
        exact Or.inr (Or.inr ⟨micros, h0, rfl, rfl⟩)

/-- The last answer is served: an instant by a pended interrupt or an instance due no
later, no instant by an empty timer queue. -/
def Scheduled (clock : Clock) (answers : List (Option UInt64)) (s : PollState) : Prop :=
  match answers.getLast? with
  | some (some micros) => s.ethPended = true ∨ ∃ task, s.task = some task ∧
      (task.released = true ∨ clock.earlier (ticks micros) task.due = false)
  | some none => ∀ task, s.task = some task → task.released = true
  | none => True

theorem scheduled_of_released (clock : Clock) (answers : List (Option UInt64)) {s : PollState}
    {task : PollTask} (h : s.task = some task) (hr : task.released = true) :
    Scheduled clock answers s := by
  unfold Scheduled
  split
  · exact Or.inr ⟨task, h, Or.inl hr⟩
  · intro t ht
    rw [h] at ht
    cases ht
    exact hr
  · trivial

theorem poll_scheduled_iff (clock : Clock) {s s' : PollState} {r : Activation}
    (hreach : Transition.Reachable (pollStep clock) .init s) (hr : s.running = some r)
    (hs : pollStep clock s .finish = some s') :
    Scheduled clock r.answers s' ↔
      (r.answers ≠ List.replicate maxIterations (some 0) ∨ s.ethPended = true ∨
        ∃ task, s.task = some task ∧ task.released = true) := by
  obtain ⟨ho, ht, hl⟩ := reachable_pollInv clock hreach
  have hown : Owns r.pollAtHandle s.task := by simpa [PollState.held, hr] using ho
  obtain ⟨-, heth, -, -, hreleased, hqueued⟩ := schedulePoll_spec clock hown (ht r hr)
  obtain ⟨pollAt, hloop⟩ := hl r hr
  have hspec := pollLoop_spec pollAt maxIterations 0
  simp only [hloop] at hspec
  simp only [pollStep, hr, Option.map_some, Option.some.injEq] at hs
  have hs1 : s'.ethPended = s.ethPended := by rw [← hs]; exact heth
  have hs2 : s'.task = (schedulePoll clock r s).task := by rw [← hs]
  rw [← hs2] at hreleased hqueued
  by_cases hc : ∃ task, s.task = some task ∧ task.released = true
  · obtain ⟨task, htask, hrel⟩ := hreleased hc
    exact iff_of_true (scheduled_of_released clock _ htask hrel) (Or.inr (Or.inr hc))
  have hnew := hqueued hc
  have hlast_ne : ∀ {a : Option UInt64}, r.answers.getLast? = some a → a ≠ some 0 →
      r.answers ≠ List.replicate maxIterations (some 0) := by
    intro a hlast hne h
    rw [h] at hlast
    exact hne (by simpa [maxIterations] using hlast.symm)
  rcases hspec with ⟨ha, hans⟩ | ⟨ha, hlast⟩ | ⟨micros, hm, ha, hlast⟩
  · -- every turn was told to poll again at once, and nothing was scheduled
    rw [ha] at hnew
    simp only at hnew
    simp [Scheduled, hans, hnew, hs1, hc, maxIterations]
  · rw [ha] at hnew
    simp only at hnew
    refine iff_of_true ?_ (Or.inl (hlast_ne hlast (by simp)))
    simp [Scheduled, hlast, hnew]
  · rw [ha] at hnew
    obtain ⟨task, htask, -, he⟩ := hnew
    refine iff_of_true ?_ (Or.inl (hlast_ne hlast (by simpa using hm)))
    simp only [Scheduled, hlast]
    exact Or.inr ⟨task, htask, Or.inr he⟩

theorem immediate_answers_dropped :
    ∃ s s' r, Transition.Reachable (pollStep .wrapping) .init s ∧ s.running = some r ∧
      pollStep .wrapping s .finish = some s' ∧ ¬ Scheduled .wrapping r.answers s' := by
  refine ⟨⟨none, none, 0, false, some ⟨List.replicate 5 (some 0), none, none⟩⟩,
    ⟨none, none, 0, false, none⟩, ⟨List.replicate 5 (some 0), none, none⟩, ?_, rfl, rfl, ?_⟩
  · exact Transition.reachable_of_run _ [.pendEth, .enter fun _ => some 0] (by decide)
  · simp [Scheduled]

theorem millisecond_advice_scheduled :
    Scheduled .wrapping [some 1000]
      ⟨some ⟨200000, 0⟩, some ⟨0, 200000, false⟩, 1, false, none⟩ :=
  (poll_scheduled_iff .wrapping
    (s := ⟨none, none, 0, false, some ⟨[some 1000], some 200000, none⟩⟩)
    (r := ⟨[some 1000], some 200000, none⟩)
    (Transition.reachable_of_run _ [.pendEth, .enter fun _ => some 1000] (by decide))
    rfl (by decide)).mpr (Or.inl (by decide))

end VhlHackathon
