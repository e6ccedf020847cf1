import VhlHackathon.System
import VhlHackathon.PollSchedule
set_option autoImplicit false

/-!
The bridge and the poll schedule under one ETH interrupt. Commits to eth_in pend it, and so
does `smoltcp_poll_at`; `ethernet_event` runs above `link_process`, for as many turns as
`poll_at` asks for.
-/

namespace VhlHackathon

/-- What the last `ethernet_event` was answered, and the bridge as its last turn left it.
Nothing of it is stored by the firmware. -/
structure LastEvent where
  answers : List (Option UInt64)
  after : BridgeState

structure Firmware where
  system : SystemState
  poll : PollState
  last : LastEvent

def Firmware.init : Firmware :=
  ⟨.init, { PollState.init with ethPended := true }, ⟨[], .init⟩⟩

/-- `enter` is an `ethernet_event` with its turns, up to where it schedules the next poll. -/
inductive FirmwareAct where
  | system (a : SystemAct)
  | enter (pollAt : Nat → Option UInt64) (turns : List Polled)
  | poll (a : PollAct)

def SystemAct.ofEvent : SystemAct → Bool
  | .bridge (.ethIteration _) => true
  | _ => false

def PollAct.enters : PollAct → Bool
  | .enter _ => true
  | _ => false

/-- A commit to eth_in pends the interrupt; a pass without a reply commits nothing. -/
def SystemState.pendsEth (s : SystemState) : SystemAct → Bool
  | .bridge .replyCommit =>
    match s.bridge.task with
    | .dispatching _ (some _ :: _) _ => true
    | _ => false
  | _ => false

section
variable (pf : Platform) (clock : Clock)

def firmwareStep (f : Firmware) : FirmwareAct → Option Firmware
  | .system a =>
    -- of a lower priority than ethernet_event
    if f.poll.running = none ∧ a.ofEvent = false then
      (systemStep pf f.system a).map fun s => { f with
        system := s
        poll.ethPended := f.poll.ethPended || f.system.pendsEth a }
    else none
  | .enter pollAt turns =>
    let answers := (pollLoop pollAt maxIterations 0).2
    if turns.length = answers.length then
      (pollStep clock f.poll (.enter pollAt)).bind fun poll =>
        (Transition.run (systemStep pf) (fun _ _ => true) f.system
          (turns.map fun p => .bridge (.ethIteration p))).map fun s =>
            ⟨s, poll, ⟨answers, s.bridge⟩⟩
    else none
  | .poll a =>
    if a.enters then none
    else (pollStep clock f.poll a).map fun poll => { f with poll := poll }

inductive FirmwareStepped (f : Firmware) : FirmwareAct → Firmware → Prop where
  | system {a : SystemAct} {s : SystemState} (idle : f.poll.running = none)
      (below : a.ofEvent = false) (taken : systemStep pf f.system a = some s) :
      FirmwareStepped f (.system a)
        { f with system := s, poll.ethPended := f.poll.ethPended || f.system.pendsEth a }
  | enter {pollAt : Nat → Option UInt64} {turns : List Polled} {poll : PollState}
      {s : SystemState} (begun : pollStep clock f.poll (.enter pollAt) = some poll)
      (taken : Transition.run (systemStep pf) (fun _ _ => true) f.system
        (turns.map fun p => .bridge (.ethIteration p)) = some s) :
      FirmwareStepped f (.enter pollAt turns)
        ⟨s, poll, ⟨(pollLoop pollAt maxIterations 0).2, s.bridge⟩⟩
  | poll {a : PollAct} {poll : PollState} (other : a.enters = false)
      (taken : pollStep clock f.poll a = some poll) :
      FirmwareStepped f (.poll a) { f with poll := poll }

theorem firmwareStep_cases {f f' : Firmware} {a : FirmwareAct}
    (h : firmwareStep pf clock f a = some f') : FirmwareStepped pf clock f a f' := by
  cases a with
  | system a =>
    simp only [firmwareStep] at h
    split at h
    · rename_i met
      obtain ⟨s, taken, rfl⟩ := Option.map_eq_some_iff.mp h
      exact .system met.1 met.2 taken
    · cases h
  | enter pollAt turns =>
    simp only [firmwareStep] at h
    split at h
    · obtain ⟨poll, begun, h⟩ := Option.bind_eq_some_iff.mp h
      obtain ⟨s, taken, rfl⟩ := Option.map_eq_some_iff.mp h
      exact .enter begun taken
    · cases h
  | poll a =>
    simp only [firmwareStep] at h
    split at h
    · cases h
    · rename_i other
      obtain ⟨poll, taken, rfl⟩ := Option.map_eq_some_iff.mp h
      exact .poll (by simpa using other) taken

theorem firmware_system {f : Firmware}
    (h : Transition.Reachable (firmwareStep pf clock) .init f) :
    Transition.Reachable (systemStep pf) .init f.system := by
  refine h.project (firmwareStep pf clock) (systemStep pf) (·.system) fun f a f' _ step => ?_
  cases firmwareStep_cases pf clock step with
  | system idle below taken => exact .step .start trivial taken
  | enter begun taken => exact Transition.reachable_of_run (systemStep pf) _ taken
  | poll other taken => exact .start

theorem firmware_poll {f : Firmware}
    (h : Transition.Reachable (firmwareStep pf clock) .init f) :
    Transition.Reachable (pollStep clock) .init f.poll := by
  have pended : Transition.Reachable (pollStep clock) .init Firmware.init.poll :=
    .step .start trivial (a := .pendEth) rfl
  refine pended.trans (pollStep clock) ?_
  refine h.project (firmwareStep pf clock) (pollStep clock) (·.poll) fun f a f' _ step => ?_
  cases firmwareStep_cases pf clock step with
  | @system a s idle below taken =>
    cases hp : f.system.pendsEth a with
    | true => exact .step .start trivial (a := .pendEth) (by simp [pollStep])
    | false => simpa using .start
  | enter begun taken => exact .step .start trivial begun
  | poll other taken => exact .step .start trivial taken

theorem unpended_contents {s s' : SystemState} {a : SystemAct} (hi : StreamInv s.bridge)
    (below : a.ofEvent = false) (unpended : s.pendsEth a = false)
    (h : systemStep pf s a = some s') :
    s'.bridge.ethIn.contents = s.bridge.ethIn.contents ∧
      s'.bridge.log.replies = s.bridge.log.replies := by
  cases a with
  | task task =>
    simp only [systemStep] at h
    split at h
    · obtain ⟨node, -, rfl⟩ := Option.map_eq_some_iff.mp h
      exact ⟨rfl, rfl⟩
    · cases h
  | bridge a =>
    simp only [systemStep] at h
    split at h
    · obtain ⟨b, hb, rfl⟩ := Option.map_eq_some_iff.mp h
      rw [follow_bridge]
      cases bridgeStep_cases pf hb with
      | ethIteration turn => cases below
      | linkStart task spawned => exact ⟨rfl, rfl⟩
      | linkRead shared task =>
        have hread := linkRead_cases pf shared s.bridge
        generalize linkRead pf shared s.bridge = b at hread ⊢
        cases hread <;> exact ⟨rfl, rfl⟩
      | replyGrant task grant => exact ⟨BipBuffer.Ring.contents_grantExact grant, rfl⟩
      | replyRefused task grant => exact ⟨rfl, rfl⟩
      | @replyCommit region pass passes task =>
        cases pass with
        | some bytes => simp [SystemState.pendsEth, task] at unpended
        | none =>
          have pending := hi.pending
          rw [task] at pending
          obtain ⟨g, hg, -⟩ : ∃ g, s.bridge.ethIn.grant = some g ∧ g.size = replyMtu := by
            simpa [LinkTask.granted] using pending
          exact ⟨by simp [BipBuffer.Ring.contents_commit hg], by simp⟩
      | linkFinish task => exact ⟨rfl, rfl⟩
    · cases h

theorem finish_scheduled {s : PollState} {r : Activation} (hi : PollInv s)
    (hr : s.running = some r) : r.answers = List.replicate maxIterations (some 0) ∨
      Scheduled clock r.answers { schedulePoll clock r s with running := none } := by
  have owns : Owns r.pollAtHandle s.task := by simpa [PollState.held, hr] using hi.owns
  obtain ⟨-, -, -, -, released, queued⟩ := schedulePoll_spec clock owns (hi.takenOut r hr)
  obtain ⟨pollAt, loop⟩ := hi.looped r hr
  have spec := pollLoop_spec pollAt maxIterations 0
  simp only [loop] at spec
  by_cases hc : ∃ task, s.task = some task ∧ task.released = true
  · obtain ⟨task, htask, hrel⟩ := released hc
    exact Or.inr (scheduled_of_released clock _ htask hrel)
  have fresh := queued hc
  rcases spec with ⟨-, immediate⟩ | ⟨advice, last⟩ | ⟨micros, -, advice, last⟩
  · exact Or.inl immediate
  · right
    rw [advice] at fresh
    simp only [Scheduled, last]
    intro task htask
    rw [fresh] at htask
    cases htask
  · right
    rw [advice] at fresh
    obtain ⟨task, htask, -, due⟩ := fresh
    simp only [Scheduled, last]
    exact Or.inr ⟨task, htask, Or.inr due⟩

/-- Unless the interrupt is pended, nothing was committed since the last turn, and the timer
serves what `poll_at` answered then. -/
structure Waits (f : Firmware) : Prop where
  committed : f.poll.ethPended = true ∨
    f.system.bridge.ethIn.contents = f.last.after.ethIn.contents ∧
      f.system.bridge.log.replies = f.last.after.log.replies
  answered : ∀ r, f.poll.running = some r → r.answers = f.last.answers
  scheduled : f.poll.running = none → f.poll.ethPended = true ∨
    f.last.answers = List.replicate maxIterations (some 0) ∨
      Scheduled clock f.last.answers f.poll

theorem waits_poll {f : Firmware} {a : PollAct} {poll : PollState} (hi : Waits clock f)
    (inv : PollInv f.poll) (other : a.enters = false)
    (h : pollStep clock f.poll a = some poll) : Waits clock { f with poll := poll } := by
  obtain ⟨committed, answered, scheduled⟩ := hi
  cases a with
  | enter pollAt => cases other
  | pendEth =>
    cases h
    exact ⟨Or.inl rfl, answered, fun _ => Or.inl rfl⟩
  | finish =>
    obtain ⟨r, hr, rfl⟩ := Option.map_eq_some_iff.mp h
    have owns : Owns r.pollAtHandle f.poll.task := by simpa [PollState.held, hr] using inv.owns
    have pended := (schedulePoll_spec clock owns (inv.takenOut r hr)).2.1
    refine ⟨?_, fun _ hr => (by cases hr), fun _ => Or.inr ?_⟩
    · simpa only [pended] using committed
    · rw [← answered r hr]
      exact finish_scheduled clock inv hr
  | expire =>
    obtain ⟨task, htask, h⟩ := Option.bind_eq_some_iff.mp h
    split at h
    · cases h
    · cases h
      refine ⟨committed, answered, fun idle => ?_⟩
      rcases scheduled idle with pended | immediate | -
      · exact Or.inl pended
      · exact Or.inr (Or.inl immediate)
      · exact Or.inr (Or.inr (scheduled_of_released clock _ rfl rfl))
  | smoltcpPollAt =>
    simp only [pollStep] at h
    split at h
    · cases h
      exact ⟨Or.inl rfl, answered, fun _ => Or.inl rfl⟩
    · cases h
  | otherTimer =>
    cases h
    exact ⟨committed, answered, scheduled⟩

theorem waits_step {f f' : Firmware} {a : FirmwareAct} (hi : Waits clock f)
    (stream : StreamInv f.system.bridge) (inv : PollInv f.poll)
    (h : firmwareStep pf clock f a = some f') : Waits clock f' := by
  cases firmwareStep_cases pf clock h with
  | @system a s idle below taken =>
    obtain ⟨committed, answered, scheduled⟩ := hi
    cases pends : f.system.pendsEth a with
    | true => exact ⟨Or.inl (by simp), answered, fun _ => Or.inl (by simp)⟩
    | false =>
      obtain ⟨contents, replies⟩ := unpended_contents pf stream below pends taken
      simp only [Bool.or_false]
      refine ⟨?_, answered, scheduled⟩
      simp only [contents, replies]
      exact committed
  | enter begun taken =>
    simp only [pollStep] at begun
    split at begun
    · cases begun
      exact ⟨Or.inr ⟨rfl, rfl⟩, fun r hr => (by cases hr; rfl), fun idle => (by cases idle)⟩
    · cases begun
  | poll other taken => exact waits_poll clock hi inv other taken

/-- While the ETH interrupt is neither pended nor served, eth_in holds just what the last
turn of `ethernet_event` left there, all it was sent before when it left nothing; and the
timer serves what `poll_at` answered last, except when it asked for a poll at once in every
turn. -/
theorem no_wakeup_lost {f : Firmware} (h : Transition.Reachable (firmwareStep pf clock) .init f)
    (served : f.poll.running = none) (unpended : f.poll.ethPended = false) :
    f.system.bridge.ethIn.contents = f.last.after.ethIn.contents ∧
      f.system.bridge.log.replies = f.last.after.log.replies ∧
      (f.last.after.ethIn.contents = [] →
        f.system.bridge.log.accepted = f.system.bridge.log.replies.flatten) ∧
      (f.last.answers = List.replicate maxIterations (some 0) ∨
        Scheduled clock f.last.answers f.poll) := by
  have waits : Waits clock f := by
    clear served unpended
    induction h with
    | start => exact ⟨Or.inl rfl, fun _ hr => (by cases hr), fun _ => Or.inl rfl⟩
    | step before _ taken ih =>
      exact waits_step pf clock ih (system_stream pf (firmware_system pf clock before))
        (reachable_pollInv clock (firmware_poll pf clock before)) taken
  have quiet : ¬ f.poll.ethPended = true := by simp [unpended]
  obtain ⟨contents, replies⟩ := waits.committed.resolve_left quiet
  refine ⟨contents, replies, fun none => ?_, (waits.scheduled served).resolve_left quiet⟩
  have stream := (system_stream pf (firmware_system pf clock h)).stream
  rw [contents, none, List.map_nil, List.append_nil] at stream
  exact stream

end

def answeredRun : List FirmwareAct :=
  [.enter (fun _ => none) [⟨.accept peer, false, [], false, none⟩], .poll .finish,
    .poll .pendEth, .enter (fun _ => none) [⟨.keep, true, [1], false, none⟩], .poll .finish] ++
  [.linkStart, .linkRead NodeState.init.shared, .replyGrant, .replyCommit, .linkFinish].map
    (.system ∘ .bridge) ++
  [.enter (fun _ => some 1000) [⟨.keep, false, [], true, some 64⟩], .poll .finish]

theorem answeredRun_sent :
    ∃ f, Transition.Reachable (firmwareStep .reader .wrapping) .init f ∧
      f.system.bridge.log.accepted ≠ [] ∧
      f.system.bridge.log.accepted = f.system.bridge.log.replies.flatten ∧
      Scheduled .wrapping [some 1000] f.poll := by
  obtain ⟨f, hf, hp⟩ := Transition.exists_reachable_of_run (firmwareStep .reader .wrapping) .init
    answeredRun
    (fun f => decide (f.poll.running = none) && (!f.poll.ethPended &&
      (decide (f.last.answers = [some 1000]) && (f.last.after.ethIn.contents.isEmpty &&
        !f.system.bridge.log.accepted.isEmpty))))
    (by decide +kernel)
  simp only [Bool.and_eq_true, decide_eq_true_eq, Bool.not_eq_true', List.isEmpty_iff,
    List.isEmpty_eq_false_iff] at hp
  obtain ⟨served, unpended, answers, left, accepted⟩ := hp
  obtain ⟨-, -, sent, scheduled⟩ := no_wakeup_lost .reader .wrapping hf served unpended
  rw [answers] at scheduled
  exact ⟨f, hf, accepted, sent left, scheduled.resolve_left (by decide)⟩

end VhlHackathon
