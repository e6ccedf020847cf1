import VhlHackathon.Server
import VhlHackathon.Handing
import VhlHackathon.Room
set_option autoImplicit false

/-!
The whole bridge: its two byte queues and their tasks, with the resources the handlers and
the side tasks share. Whatever the tasks and the network interleave, it is in a state a
server is in that takes the requests one after another.
-/

namespace VhlHackathon

/-- The request `link_process` works on, the resources it found, and how many passes over
it have run. -/
structure Serving where
  payload : List UInt8
  entry : Shared
  ran : Nat

/-- `run` is what `link_process` has on its stack. -/
structure SystemState where
  bridge : BridgeState
  shared : Shared
  shown : Option Char
  run : Option Serving

def SystemState.init : SystemState := ⟨.init, NodeState.init.shared, none, none⟩

inductive SystemAct where
  | bridge (a : BridgeAct)
  | task (t : SideTask)

section
variable (pf : Platform)

def Serving.shared (r : Serving) : Shared :=
  match pf.decode r.payload with
  | none => r.entry
  | some ev => (xpiDispatch pf.wire (firstGrants r.ran) ev r.entry).st.shared

/-- `link_process` begins with the resources it finds, and every pass moves them on. -/
def SystemState.follow (s : SystemState) (a : BridgeAct) (b : BridgeState) : SystemState :=
  match a with
  | .linkRead shared => { s with
      bridge := b
      run := b.task.region.bind fun _ => b.log.handed.getLast?.map (⟨·, shared, 0⟩) }
  | .replyCommit =>
    let run := s.run.map fun r => { r with ran := r.ran + 1 }
    { s with bridge := b, run := run, shared := (run.map (·.shared pf)).getD s.shared }
  | .ethIteration _ | .linkStart | .replyGrant | .linkFinish => { s with bridge := b }

def BridgeAct.reads (a : BridgeAct) (shared : Shared) : Bool :=
  match a with
  | .linkRead found => found = shared
  | .ethIteration _ | .linkStart | .replyGrant | .replyCommit | .linkFinish => true

/-- The side tasks have the priority of `link_process`, so that they run only between its
activations. -/
def systemStep (s : SystemState) : SystemAct → Option SystemState
  | .bridge a =>
    if a.reads s.shared then (bridgeStep pf s.bridge a).map (s.follow pf a) else none
  | .task t =>
    if s.bridge.task = .idle then
      (nodeStep pf.wire ⟨s.shared, [], []⟩ t.act).map fun node =>
        { s with shared := node.shared, shown := t.draws s.shared.digit s.shown }
    else none

structure Matches (s : SystemState) (t : Server) : Prop where
  shared : s.shared = t.node.shared
  shown : s.shown = t.shown
  requests : s.bridge.log.handed = t.requests
  replies : s.bridge.log.replies = t.replies

/-- Between two activations the system is where the server is. During one it is where the
server gets with room for the passes that have run, and the passes to come are the next
ones, or none when a grant was refused. Whether that may happen is `cut`. -/
inductive Simulates (cut : Prop) (s : SystemState) (t : Server) : Prop where
  | between (task : s.bridge.task.region = none) (now : Matches s t)
  | during {payload : List UInt8} {ran : Nat} {region : List OutCell}
      {next : List (Option (List UInt8))} {granted : Bool}
      (task : s.bridge.task = .dispatching region next granted)
      (run : s.run = some ⟨payload, t.node.shared, ran⟩)
      (passes : next = (dispatchPasses pf t.node.shared payload).drop ran ∨ (next = [] ∧ cut))
      (now : Matches s (t.serve pf payload ran))

theorem serve_shared (t : Server) (payload : List UInt8) (n : Nat) :
    (t.serve pf payload n).node.shared = Serving.shared pf ⟨payload, t.node.shared, n⟩ := by
  unfold Server.serve Serving.shared
  cases pf.decode payload <;> rfl

theorem sideTask_shared (w : Wire) (task : SideTask) {n m : NodeState}
    (same : m.shared = n.shared) : (nodeStep w m task.act).map (·.shared) =
      (nodeStep w n task.act).map (·.shared) := by
  obtain ⟨shared, writes, acknowledged⟩ := m
  obtain rfl := same
  cases task with
  | setDigit =>
    simp only [SideTask.act, nodeStep]
    cases n.shared.setDigit <;> cases n.shared.displayTask <;> rfl
  | asyncTask => cases h : n.shared.asyncTask <;> simp [SideTask.act, nodeStep, h]
  | displayTask drawn =>
    cases drawn <;> cases h : n.shared.displayTask <;> simp [SideTask.act, nodeStep, h]

theorem ethIteration_kept {p : Polled} {s s' : BridgeState} (h : ethIteration pf p s = some s') :
    s'.task = s.task ∧ s'.log.handed = s.log.handed ∧ s'.log.replies = s.log.replies := by
  obtain ⟨htask, hhanded, -⟩ := ethIteration_out pf h
  obtain ⟨s₁, s₂, hs₁, hrx, htx⟩ := ethIteration_cases pf h
  obtain ⟨socket, nextConn, rfl, -⟩ := pollSocket_cases hs₁
  obtain ⟨-, -, -, -, hreplies⟩ := hrx.ethIn pf
  obtain ⟨-, -, hsent⟩ := htx.stream
  exact ⟨htask, hhanded, hsent.trans hreplies⟩

def ServerAct.whole : ServerAct → Prop
  | .serve _ n => n = maxReplyBatches
  | .task _ => True

theorem Simulates.quiet {cut : Prop} {s : SystemState} {t : Server} (hi : Simulates pf cut s t)
    (task : s.bridge.task.region = none) : Matches s t := by
  cases hi with
  | between _ now => exact now
  | during dispatching =>
    rw [dispatching] at task
    cases task

theorem Simulates.serving {cut : Prop} {s : SystemState} {t : Server} {region : List OutCell}
    {next : List (Option (List UInt8))} {granted : Bool} (hi : Simulates pf cut s t)
    (task : s.bridge.task = .dispatching region next granted) :
    ∃ payload ran, s.run = some ⟨payload, t.node.shared, ran⟩ ∧
      (next = (dispatchPasses pf t.node.shared payload).drop ran ∨ (next = [] ∧ cut)) ∧
      Matches s (t.serve pf payload ran) := by
  cases hi with
  | between quiet =>
    rw [task] at quiet
    cases quiet
  | @during payload ran _ _ _ dispatching run passes now =>
    rw [task] at dispatching
    cases dispatching
    exact ⟨payload, ran, run, passes, now⟩

theorem simulates_ethIteration {cut : Prop} {s : SystemState} {t : Server} {p : Polled}
    {b : BridgeState} (hi : Simulates pf cut s t)
    (turn : ethIteration pf p s.bridge = some b) :
    Simulates pf cut (s.follow pf (.ethIteration p) b) t := by
  obtain ⟨htask, hhanded, hreplies⟩ := ethIteration_kept pf turn
  cases hi with
  | between task now =>
    exact .between ((congrArg LinkTask.region htask).trans task)
      ⟨now.shared, now.shown, hhanded.trans now.requests, hreplies.trans now.replies⟩
  | during task run passes now =>
    exact .during (htask.trans task) run passes
      ⟨now.shared, now.shown, hhanded.trans now.requests, hreplies.trans now.replies⟩

theorem simulates_linkRead {cut : Prop} {s : SystemState} {t : Server}
    (task : s.bridge.task = .started) (now : Matches s t) :
    Simulates pf cut (s.follow pf (.linkRead s.shared) (linkRead pf s.shared s.bridge)) t := by
  have hread := linkRead_cases pf s.shared s.bridge
  generalize linkRead pf s.shared s.bridge = b at hread ⊢
  cases hread with
  | nothing empty => exact .between rfl ⟨now.shared, now.shown, now.requests, now.replies⟩
  | malformed nonempty endpoint =>
    refine .between ?_ ⟨now.shared, now.shown, now.requests, now.replies⟩
    simp only [SystemState.follow, task, LinkTask.region]
  | @handed remote n nonempty endpoint =>
    generalize (s.bridge.ethOut.turn.front.map (·.byte)).drop n = payload
    obtain ⟨hshared, hreplies⟩ := serve_ungranted pf t payload
    have first : dispatchPasses pf s.shared payload =
        (dispatchPasses pf t.node.shared payload).drop 0 := by
      rw [now.shared]
      rfl
    refine .during rfl ?_ (Or.inl first) ⟨?_, ?_, ?_, ?_⟩
    · simp [SystemState.follow, LinkTask.region, now.shared]
    · rw [hshared]; exact now.shared
    · rw [serve_shown]; exact now.shown
    · rw [serve_requests, ← now.requests]; rfl
    · rw [hreplies]; exact now.replies

theorem simulates_replyCommit {cut : Prop} {s : SystemState} {t : Server}
    {region : List OutCell} {pass : Option (List UInt8)} {next : List (Option (List UInt8))}
    {b : BridgeState} (hi : Simulates pf cut s t)
    (task : s.bridge.task = .dispatching region (pass :: next) true)
    (task' : b.task = .dispatching region next false)
    (handed : b.log.handed = s.bridge.log.handed)
    (replies : b.log.replies =
      s.bridge.log.replies ++ (pass.map (·.take replyMtu)).toList) :
    Simulates pf cut (s.follow pf .replyCommit b) t := by
  obtain ⟨payload, ran, run, passes, now⟩ := hi.serving pf task
  obtain ⟨hnext, hmore⟩ :=
    firstReplies_succ pf (passes.resolve_right fun none => List.cons_ne_nil _ _ none.1)
  refine .during task' (by simp [SystemState.follow, run]) (Or.inl hnext) ⟨?_, ?_, ?_, ?_⟩
  · rw [serve_shared]
    simp only [SystemState.follow, run, Option.map_some, Option.getD_some]
  · rw [serve_shown, ← serve_shown pf t payload ran]
    exact now.shown
  · rw [serve_requests, ← serve_requests pf t payload ran]
    exact handed.trans now.requests
  · have hbefore := now.replies
    rw [serve_replies] at hbefore ⊢
    rw [hmore, ← List.append_assoc, ← hbefore]
    exact replies

theorem simulates_bridge {cut : Prop} {s : SystemState} {t : Server} {a : BridgeAct}
    {b : BridgeState} (hi : Simulates pf cut s t) (reads : a.reads s.shared = true)
    (room : a = .replyGrant → s.bridge.ethIn.grantExact replyMtu = none → cut)
    (h : bridgeStep pf s.bridge a = some b) :
    ∃ t', Transition.ReachableBy (serverStep pf) (fun _ a => cut ∨ a.whole) t t' ∧
      Simulates pf cut (s.follow pf a b) t' := by
  cases bridgeStep_cases pf h with
  | ethIteration turn => exact ⟨t, .start, simulates_ethIteration pf hi turn⟩
  | linkStart task spawned =>
    have now := hi.quiet pf (by rw [task]; rfl)
    exact ⟨t, .start, .between rfl ⟨now.shared, now.shown, now.requests, now.replies⟩⟩
  | linkRead shared task =>
    obtain rfl : shared = s.shared := of_decide_eq_true reads
    exact ⟨t, .start, simulates_linkRead pf task (hi.quiet pf (by rw [task]; rfl))⟩
  | replyGrant task grant =>
    obtain ⟨payload, ran, run, passes, now⟩ := hi.serving pf task
    exact ⟨t, .start,
      .during rfl run passes ⟨now.shared, now.shown, now.requests, now.replies⟩⟩
  | replyRefused task grant =>
    obtain ⟨payload, ran, run, passes, now⟩ := hi.serving pf task
    exact ⟨t, .start, .during rfl run (Or.inr ⟨rfl, room rfl grant⟩)
      ⟨now.shared, now.shown, now.requests, now.replies⟩⟩
  | replyCommit task => exact ⟨t, .start, simulates_replyCommit pf hi task rfl rfl rfl⟩
  | linkFinish task =>
    obtain ⟨payload, ran, run, passes, now⟩ := hi.serving pf task
    have hstep : Transition.ReachableBy (serverStep pf) (fun _ a => cut ∨ a.whole) t
        (t.serve pf payload ran) := by
      rcases passes with hdrop | ⟨-, hcut⟩
      · -- all passes have run, so the request was served to its end
        have hall := serve_complete pf t payload (List.drop_eq_nil_iff.mp hdrop.symm)
        rw [hall]
        exact .step .start (a := .serve payload maxReplyBatches) (Or.inr rfl) rfl
      · exact .step .start (a := .serve payload ran) (Or.inl hcut) rfl
    exact ⟨_, hstep, .between rfl ⟨now.shared, now.shown, now.requests, now.replies⟩⟩

theorem simulates_step {cut : Prop} {s s' : SystemState} {t : Server} {a : SystemAct}
    (hi : Simulates pf cut s t)
    (room : a = .bridge .replyGrant → s.bridge.ethIn.grantExact replyMtu = none → cut)
    (h : systemStep pf s a = some s') :
    ∃ t', Transition.ReachableBy (serverStep pf) (fun _ a => cut ∨ a.whole) t t' ∧
      Simulates pf cut s' t' := by
  cases a with
  | bridge a =>
    simp only [systemStep] at h
    split at h
    · rename_i reads
      obtain ⟨b, hb, rfl⟩ := Option.map_eq_some_iff.mp h
      exact simulates_bridge pf hi reads (fun ha => room (congrArg _ ha)) hb
    · cases h
  | task task =>
    simp only [systemStep] at h
    split at h
    · rename_i idle
      obtain ⟨n', hn, rfl⟩ := Option.map_eq_some_iff.mp h
      have quiet : s.bridge.task.region = none := by rw [idle]; rfl
      have now := hi.quiet pf quiet
      have hsame := sideTask_shared pf.wire task (n := ⟨s.shared, [], []⟩) now.shared.symm
      rw [hn, Option.map_some] at hsame
      obtain ⟨m', hm, hshared⟩ := Option.map_eq_some_iff.mp hsame
      refine ⟨_, .step .start (a := .task task) (Or.inr trivial) (by rw [serverStep, hm]; rfl), ?_⟩
      exact .between quiet ⟨hshared.symm, by rw [now.shared, now.shown], now.requests, now.replies⟩
    · cases h

theorem follow_bridge (s : SystemState) (a : BridgeAct) (b : BridgeState) :
    (s.follow pf a b).bridge = b := by
  cases a <;> rfl

theorem system_bridge {ok : BridgeState → BridgeAct → Prop} {s : SystemState}
    (h : Transition.ReachableBy (systemStep pf)
      (fun s a => ∀ b, a = .bridge b → ok s.bridge b) .init s) :
    Transition.ReachableBy (bridgeStep pf) ok .init s.bridge := by
  refine h.project (systemStep pf) (bridgeStep pf) (·.bridge) fun s a s' met taken => ?_
  cases a with
  | bridge a =>
    simp only [systemStep] at taken
    split at taken
    · obtain ⟨b, hb, rfl⟩ := Option.map_eq_some_iff.mp taken
      rw [follow_bridge]
      exact .step .start (met a rfl) hb
    · cases taken
  | task task =>
    simp only [systemStep] at taken
    split at taken
    · obtain ⟨n', -, rfl⟩ := Option.map_eq_some_iff.mp taken
      exact .start
    · cases taken

theorem Simulates.matches {s : SystemState} {t : Server} (hi : Simulates pf True s t) :
    ∃ t', Transition.Reachable (serverStep pf) t t' ∧ Matches s t' := by
  cases hi with
  | between task now => exact ⟨t, .start, now⟩
  | @during payload ran _ _ _ task run passes now =>
    exact ⟨_, .step .start trivial (a := .serve payload ran) rfl, now⟩

theorem reachable_stream {ok : BridgeState → BridgeAct → Prop} {s : BridgeState}
    (h : Transition.ReachableBy (bridgeStep pf) ok .init s) : StreamInv s :=
  h.invariant (bridgeStep pf) ⟨rfl, rfl⟩ fun _ _ _ hi _ hs => stream_step pf hi hs

theorem system_stream {s : SystemState} (h : Transition.Reachable (systemStep pf) .init s) :
    StreamInv s.bridge := by
  have hbridge : Transition.Reachable (bridgeStep pf) .init s.bridge :=
    system_bridge pf (h.mono (systemStep pf) fun _ _ _ _ _ => trivial)
  exact reachable_stream pf hbridge

theorem simulates_start (cut : Prop) : Simulates pf cut .init .init :=
  .between rfl ⟨rfl, rfl, rfl, rfl⟩

theorem reachable_server {s : SystemState} (h : Transition.Reachable (systemStep pf) .init s) :
    ∃ t, Transition.Reachable (serverStep pf) .init t ∧ Matches s t := by
  have hsim : ∃ t, Transition.ReachableBy (serverStep pf) (fun _ a => True ∨ a.whole) .init t ∧
      Simulates pf True s t :=
    h.simulation (systemStep pf) (serverStep pf) (Simulates pf True) (simulates_start pf True)
      fun _ _ _ _ hi _ taken => simulates_step pf hi (fun _ _ => trivial) taken
  obtain ⟨t, reached, hsim⟩ := hsim
  obtain ⟨t', more, hmatch⟩ := hsim.matches pf
  exact ⟨t', (reached.mono (serverStep pf) fun _ _ _ => trivial).trans (serverStep pf) more, hmatch⟩

/-- In every state of the bridge the resources, the display, the requests handed to the
decoder and the replies committed are those of a server that took the requests one after
another; and the peers have been sent a prefix of its answers. -/
theorem bridge_refines_server {s : SystemState}
    (h : Transition.Reachable (systemStep pf) .init s) :
    ∃ t, Transition.Reachable (serverStep pf) .init t ∧ Matches s t ∧
      s.bridge.log.accepted <+: t.replies.flatten := by
  obtain ⟨t, reached, same⟩ := reachable_server pf h
  refine ⟨t, reached, same, ?_⟩
  rw [← same.replies, ← (system_stream pf h).stream]
  exact List.prefix_append _ _

def servedRun : List SystemAct :=
  .task (.displayTask true) :: (connect peer :: receive [1] :: serve ++ [transmit 3]).map .bridge

theorem servedRun_refines :
    ∃ s t, Transition.Reachable (systemStep .reader) .init s ∧ s.bridge.log.accepted.length = 3 ∧
      Transition.Reachable (serverStep .reader) .init t ∧ Matches s t ∧
      s.bridge.log.accepted <+: t.replies.flatten := by
  obtain ⟨s, hs, hp⟩ := Transition.exists_reachable_of_run (systemStep .reader) .init servedRun
    (fun s => decide (s.bridge.log.accepted.length = 3)) (by decide +kernel)
  obtain ⟨t, reached, same, sent⟩ := bridge_refines_server .reader hs
  exact ⟨s, t, hs, of_decide_eq_true hp, reached, same, sent⟩

def inTurn (s : SystemState) : SystemAct → Bool
  | .bridge a => oneByOne pf s.bridge a && roomForReplies pf s.bridge a
  | .task _ => true

structure InTurn (s : BridgeState) : Prop where
  handing : HandingInv pf s
  room : ReplyRoom s

theorem inTurn_start : InTurn pf .init :=
  ⟨⟨⟨rfl, rfl, rfl, by simp [BridgeState.init, LinkTask.region]⟩, Nat.zero_le _,
    by simp [BridgeState.init]⟩, ⟨rfl, rfl⟩, BipBuffer.Ring.tight_empty _,
    fun _ _ _ hd => by cases hd⟩

theorem inTurn_step {s s' : SystemState} {a : SystemAct} (hi : InTurn pf s.bridge)
    (hok : inTurn pf s a = true) (h : systemStep pf s a = some s') : InTurn pf s'.bridge := by
  cases a with
  | bridge a =>
    obtain ⟨hone, hroom⟩ := Bool.and_eq_true_iff.mp hok
    simp only [systemStep] at h
    split at h
    · obtain ⟨b, hb, rfl⟩ := Option.map_eq_some_iff.mp h
      rw [follow_bridge]
      exact ⟨handing_step pf hi.handing hone hb, replyRoom_step pf hi.room hroom hb⟩
    · cases h
  | task task =>
    simp only [systemStep] at h
    split at h
    · obtain ⟨n', -, rfl⟩ := Option.map_eq_some_iff.mp h
      exact hi
    · cases h

theorem replyGrant_passes {s b : BridgeState} (h : bridgeStep pf s .replyGrant = some b) :
    ∃ region pass passes, s.task = .dispatching region (pass :: passes) false := by
  rcases htask : s.task with - | - | ⟨region, passes, granted⟩
  · simp [bridgeStep, htask] at h
  · simp [bridgeStep, htask] at h
  · cases passes with
    | nil => cases granted <;> simp [bridgeStep, htask] at h
    | cons pass passes =>
      cases granted with
      | false => exact ⟨region, pass, passes, rfl⟩
      | true => simp [bridgeStep, htask] at h

theorem inTurn_granted {s s' : SystemState} {a : SystemAct} (hi : InTurn pf s.bridge)
    (h : systemStep pf s a = some s') (ha : a = .bridge .replyGrant)
    (refused : s.bridge.ethIn.grantExact replyMtu = none) : False := by
  subst ha
  simp only [systemStep, BridgeAct.reads, if_true] at h
  obtain ⟨b, hb, -⟩ := Option.map_eq_some_iff.mp h
  obtain ⟨region, pass, passes, task⟩ := replyGrant_passes pf hb
  obtain ⟨wgr, hwgr⟩ := hi.room.given task
  rw [refused] at hwgr
  cases hwgr

theorem serve_prefix (t : Server) (payload : List UInt8) (n : Nat) :
    (t.serve pf payload n).replies <+: (t.serve pf payload maxReplyBatches).replies := by
  rcases Nat.le_total n maxReplyBatches with hle | hle
  · rw [serve_replies, serve_replies, List.prefix_append_right_inj]
    exact ((List.take_prefix_take_left hle).filterMap id).map _
  · rw [serve_complete pf t payload ((dispatchPasses_le pf _ _).trans hle)]

theorem reachable_inTurn {s : SystemState}
    (h : Transition.ReachableBy (systemStep pf) (fun s a => inTurn pf s a = true) .init s) :
    InTurn pf s.bridge :=
  h.invariant (systemStep pf) (inTurn_start pf) fun _ _ _ hi hok taken =>
    inTurn_step pf hi hok taken

theorem reachable_whole {s : SystemState}
    (h : Transition.ReachableBy (systemStep pf) (fun s a => inTurn pf s a = true) .init s) :
    ∃ t, Transition.ReachableBy (serverStep pf) (fun _ a => a.whole) .init t ∧
      t.requests = s.bridge.log.handed ∧ s.bridge.log.accepted <+: t.replies.flatten ∧
      (s.bridge.task = .idle → Matches s t) := by
  have hsim : ∃ t, Transition.ReachableBy (serverStep pf) (fun _ a => False ∨ a.whole) .init t ∧
      Simulates pf False s t ∧ InTurn pf s.bridge :=
    h.simulation (systemStep pf) (serverStep pf)
      (fun s t => Simulates pf False s t ∧ InTurn pf s.bridge)
      ⟨simulates_start pf False, inTurn_start pf⟩ fun s a s' t hi hok taken => by
        obtain ⟨t', more, hsim⟩ := simulates_step pf hi.1 (inTurn_granted pf hi.2 taken) taken
        exact ⟨t', more, hsim, inTurn_step pf hi.2 hok taken⟩
  obtain ⟨t, reached, hsim, hi⟩ := hsim
  have hwhole : Transition.ReachableBy (serverStep pf) (fun _ a => a.whole) .init t :=
    reached.mono (serverStep pf) fun _ _ hw => hw.resolve_left False.elim
  have haccepted : s.bridge.log.accepted <+: s.bridge.log.replies.flatten := by
    rw [← hi.room.stream.stream]
    exact List.prefix_append _ _
  cases hsim with
  | between task now =>
    rw [now.replies] at haccepted
    exact ⟨t, hwhole, now.requests.symm, haccepted, fun _ => now⟩
  | @during payload ran _ _ _ task run passes now =>
    rw [now.replies] at haccepted
    refine ⟨t.serve pf payload maxReplyBatches, .step hwhole (a := .serve payload _) rfl rfl,
      ?_, haccepted.trans ?_, fun idle => ?_⟩
    · rw [now.requests, serve_requests, serve_requests]
    · obtain ⟨more, hmore⟩ := serve_prefix pf t payload ran
      rw [← hmore, List.flatten_append]
      exact List.prefix_append _ _
    · rw [idle] at task
      cases task

theorem answers_in_full {s : SystemState}
    (h : Transition.ReachableBy (systemStep pf) (fun s a => inTurn pf s a = true) .init s) :
    ∃ t, Transition.ReachableBy (serverStep pf) (fun _ a => a.whole) .init t ∧
      t.requests = s.bridge.log.handed ∧
      t.requests = (s.bridge.log.records.take t.requests.length).map (·.payload) ∧
      s.bridge.log.accepted <+: t.replies.flatten ∧ (s.bridge.task = .idle → Matches s t) := by
  obtain ⟨t, reached, requests, sent, same⟩ := reachable_whole pf h
  refine ⟨t, reached, requests, ?_, sent, same⟩
  rw [requests]
  exact (reachable_inTurn pf h).handing.once.handed

end

theorem servedRun_in_full :
    ∃ s t, Transition.ReachableBy (systemStep .reader) (fun s a => inTurn .reader s a = true)
        .init s ∧ s.bridge.log.accepted.length = 3 ∧
      Transition.ReachableBy (serverStep .reader) (fun _ a => a.whole) .init t ∧ Matches s t ∧
      s.bridge.log.accepted <+: t.replies.flatten := by
  obtain ⟨s, hs, hp⟩ := Transition.exists_reachableBy_of_run (systemStep .reader)
    (inTurn .reader) .init servedRun
    (fun s => decide (s.bridge.log.accepted.length = 3) && decide (s.bridge.task = .idle))
    (by decide +kernel)
  simp only [Bool.and_eq_true, decide_eq_true_eq] at hp
  obtain ⟨t, reached, -, -, sent, same⟩ := answers_in_full .reader hs
  exact ⟨s, t, hs, hp.1, reached, same hp.2, sent⟩

end VhlHackathon
