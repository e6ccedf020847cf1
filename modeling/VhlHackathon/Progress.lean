import VhlHackathon.Framing
import VhlHackathon.System
import Mathlib.Algebra.Order.BigOperators.Group.List
import Mathlib.Algebra.Order.Ring.Nat
set_option autoImplicit false

/-!
What `link_process` has left to do. Every step it takes is paid for by a received record and
none waits for another task; what it hands to the decoder is answered within bounds; and in
every fair run in which nothing more comes in, all committed replies go out.
-/

namespace VhlHackathon
open BipBuffer BipBuffer.Ring

def BridgeAct.ofLink : BridgeAct → Bool
  | .ethIteration _ => false
  | .linkStart | .linkRead _ | .replyGrant | .replyCommit | .linkFinish => true

/-- The most steps one activation takes: the start, the read, a grant and a commit for each
pass, and the release. -/
def activationSteps : Nat := 2 * maxReplyBatches + 3

def LinkTask.stepsLeft : LinkTask → Nat
  | .idle => 0
  | .started => 2 * maxReplyBatches + 2
  | .dispatching _ passes granted => 2 * passes.length + if granted then 0 else 1

/-- Those and the ones of the activation that is spawned. -/
def BridgeState.stepsLeft (s : BridgeState) : Nat :=
  if s.panicked then 0
  else s.task.stepsLeft + if s.linkSpawned then activationSteps else 0

section
variable (pf : Platform)

theorem step_running {s s' : BridgeState} {a : BridgeAct} (h : bridgeStep pf s a = some s') :
    s.panicked = false := by
  cases hp : s.panicked with
  | false => rfl
  | true => simp [bridgeStep, hp] at h

theorem ethIteration_stepsLeft {p : Polled} {s s' : BridgeState} (running : s.panicked = false)
    (h : ethIteration pf p s = some s') :
    s'.stepsLeft + activationSteps * s.log.records.length ≤
      s.stepsLeft + activationSteps * s'.log.records.length := by
  obtain ⟨task, -, ⟨-, spawned, records⟩ | ⟨r, place, -, spawned, records, -⟩⟩ :=
    ethIteration_out pf h
  · unfold BridgeState.stepsLeft
    rw [task, spawned, records, running, ethIteration_panicked pf h, running]
  · have hone : activationSteps * (s.log.records.length + 1) =
        activationSteps * s.log.records.length + activationSteps := Nat.mul_succ _ _
    unfold BridgeState.stepsLeft
    rw [task, spawned, records, running, ethIteration_panicked pf h, running,
      List.length_append, List.length_singleton, hone]
    simp only [if_true, Bool.false_eq_true, if_false]
    omega

theorem linkRead_stepsLeft {s : BridgeState} (shared : Shared) (running : s.panicked = false)
    (task : s.task = .started) :
    (linkRead pf shared s).stepsLeft + 1 ≤ s.stepsLeft := by
  have hpasses := dispatchPasses_le pf shared
  have hread := linkRead_cases pf shared s
  generalize linkRead pf shared s = s' at hread ⊢
  unfold BridgeState.stepsLeft
  cases hread with
  | nothing empty =>
    simp only [running, task, LinkTask.stepsLeft, Bool.false_eq_true, if_false]
    omega
  | malformed nonempty endpoint =>
    simp only [running, task, LinkTask.stepsLeft, Bool.false_eq_true, if_false, if_true]
    omega
  | @handed remote n nonempty endpoint =>
    have hle := hpasses ((s.ethOut.turn.front.map (·.byte)).drop n)
    simp only [running, task, LinkTask.stepsLeft, Bool.false_eq_true, if_false]
    omega

theorem step_pays {s s' : BridgeState} {a : BridgeAct} (h : bridgeStep pf s a = some s') :
    a.ofLink.toNat + s'.stepsLeft + activationSteps * s.log.records.length ≤
      s.stepsLeft + activationSteps * s'.log.records.length := by
  have running := step_running pf h
  cases bridgeStep_cases pf h with
  | ethIteration turn =>
    simp only [BridgeAct.ofLink, Bool.toNat_false, Nat.zero_add]
    exact ethIteration_stepsLeft pf running turn
  | linkStart task spawned =>
    simp only [BridgeAct.ofLink, BridgeState.stepsLeft, LinkTask.stepsLeft, running, task,
      spawned, activationSteps, Bool.toNat_true, Bool.false_eq_true, if_false, if_true]
    omega
  | linkRead shared task =>
    have hle := linkRead_stepsLeft pf shared running task
    have hrecords : (linkRead pf shared s).log.records = s.log.records :=
      (linkRead_out pf task shared).2.1
    rw [hrecords]
    simp only [BridgeAct.ofLink, Bool.toNat_true]
    omega
  | replyGrant task grant =>
    simp only [BridgeAct.ofLink, BridgeState.stepsLeft, LinkTask.stepsLeft, running, task,
      Bool.toNat_true, Bool.false_eq_true, if_false, if_true]
    omega
  | replyRefused task grant =>
    obtain ⟨region, pass, passes, task'⟩ := replyGrant_passes pf h
    simp only [BridgeAct.ofLink, BridgeState.stepsLeft, LinkTask.stepsLeft, running, task',
      List.length_cons, List.length_nil, Bool.toNat_true, Bool.false_eq_true, if_false]
    omega
  | replyCommit task =>
    simp only [BridgeAct.ofLink, BridgeState.stepsLeft, LinkTask.stepsLeft, running, task,
      List.length_cons, Bool.toNat_true, Bool.false_eq_true, if_false, if_true]
    omega
  | linkFinish task =>
    simp only [BridgeAct.ofLink, BridgeState.stepsLeft, LinkTask.stepsLeft, running, task,
      List.length_nil, Bool.toNat_true, Bool.false_eq_true, if_false]
    omega

def GrantUsed (s : BridgeState) : Prop := ∀ region, s.task ≠ .dispatching region [] true

theorem grantUsed_step {s s' : BridgeState} {a : BridgeAct} (hi : GrantUsed s)
    (h : bridgeStep pf s a = some s') : GrantUsed s' := by
  intro region after
  cases bridgeStep_cases pf h with
  | ethIteration turn =>
    rw [(ethIteration_out pf turn).1] at after
    exact hi region after
  | linkStart task spawned => cases after
  | linkRead shared task =>
    have hread := linkRead_cases pf shared s
    generalize linkRead pf shared s = s' at hread after
    cases hread with
    | nothing empty => cases after
    | malformed nonempty endpoint => exact hi region after
    | handed nonempty endpoint => exact Bool.false_ne_true (congrArg LinkTask.granted after)
  | replyGrant task grant =>
    obtain ⟨region', pass, passes, task'⟩ := replyGrant_passes pf h
    rw [task] at task'
    cases task'
    cases after
  | replyRefused task grant => cases after
  | replyCommit task => cases after
  | linkFinish task => cases after

theorem reachable_grantUsed {s : BridgeState}
    (h : Transition.Reachable (bridgeStep pf) .init s) : GrantUsed s :=
  h.invariant (bridgeStep pf) (fun _ task => by cases task)
    fun _ _ _ hi _ hs => grantUsed_step pf hi hs

/-- Whatever the other task did, a step of `link_process` is enabled while one is left. The
next read finds the dispatcher's state that `shared` says. -/
theorem link_enabled {s : BridgeState} (shared : Shared) (hi : GrantUsed s)
    (left : s.stepsLeft ≠ 0) :
    ∃ a, a.ofLink = true ∧ (∀ found, a = .linkRead found → found = shared) ∧
      (bridgeStep pf s a).isSome = true := by
  have running : s.panicked = false := by
    cases hp : s.panicked with
    | false => rfl
    | true => simp [BridgeState.stepsLeft, hp] at left
  rcases htask : s.task with - | - | ⟨region, - | ⟨pass, passes⟩, granted⟩
  · have spawned : s.linkSpawned = true := by
      by_contra none
      simp [BridgeState.stepsLeft, running, htask, LinkTask.stepsLeft, none] at left
    exact ⟨.linkStart, rfl, by simp, by simp [bridgeStep, running, htask, spawned]⟩
  · exact ⟨.linkRead shared, rfl, by simp, by simp [bridgeStep, running, htask]⟩
  · cases granted with
    | false => exact ⟨.linkFinish, rfl, by simp, by simp [bridgeStep, running, htask]⟩
    | true => exact absurd htask (hi region)
  · cases granted with
    | false =>
      -- a refused grant ends the passes, which is a step too
      refine ⟨.replyGrant, rfl, by simp, ?_⟩
      cases hgrant : s.ethIn.grantExact replyMtu <;>
        simp [bridgeStep, running, htask, hgrant]
    | true => exact ⟨.replyCommit, rfl, by simp, by simp [bridgeStep, running, htask]⟩

theorem link_steps_paid {as : List BridgeAct} {s : BridgeState} (shared : Shared)
    (h : Transition.run (bridgeStep pf) (fun _ _ => true) .init as = some s) :
    as.countP BridgeAct.ofLink + s.stepsLeft ≤ activationSteps * s.log.records.length ∧
      (s.stepsLeft ≠ 0 → ∃ a, a.ofLink = true ∧
        (∀ found, a = .linkRead found → found = shared) ∧ (bridgeStep pf s a).isSome = true) := by
  have paid := Transition.run_pays (bridgeStep pf) BridgeAct.ofLink BridgeState.stepsLeft
    (fun s => activationSteps * s.log.records.length) (fun _ _ _ _ hs => step_pays pf hs) h
  have reached := Transition.reachable_of_run (bridgeStep pf) as h
  refine ⟨?_, fun left => link_enabled pf shared (reachable_grantUsed pf reached) left⟩
  simpa [BridgeState.init, BridgeState.stepsLeft, LinkTask.stepsLeft] using paid

def RepliesTo (payload : List UInt8) (replies : List (List UInt8)) : Prop :=
  ∃ shared n, replies = firstReplies pf shared payload n

theorem RepliesTo.short {payload : List UInt8} {replies : List (List UInt8)}
    (h : RepliesTo pf payload replies) :
    replies.length ≤ maxReplyBatches ∧ ∀ r ∈ replies, r.length ≤ replyMtu := by
  obtain ⟨shared, n, rfl⟩ := h
  constructor
  · rw [firstReplies, List.length_map]
    exact (List.length_filterMap_le _ _).trans
      ((List.length_take_le' _ _).trans (dispatchPasses_le pf shared payload))
  · intro r hr
    obtain ⟨bytes, -, rfl⟩ := List.mem_map.mp hr
    exact List.length_take_le _ _

theorem length_flatten_le {α : Type*} {ls : List (List α)} {k : Nat}
    (h : ∀ l ∈ ls, l.length ≤ k) : ls.flatten.length ≤ k * ls.length := by
  have hsum := List.sum_le_card_nsmul (ls.map List.length) k fun n hn => by
    obtain ⟨l, hl, rfl⟩ := List.mem_map.mp hn
    exact h l hl
  rw [List.length_map] at hsum
  rw [List.length_flatten, Nat.mul_comm]
  exact hsum

/-- The replies committed, in a group for each buffer handed to the decoder. The last group
grows while its buffer is being served. -/
inductive Grouped (s : BridgeState) : Prop where
  | between {groups : List (List (List UInt8))} (quiet : s.task.region = none)
      (answered : List.Forall₂ (RepliesTo pf) s.log.handed groups)
      (replies : s.log.replies = groups.flatten)
  | during {earlier : List (List UInt8)} {groups : List (List (List UInt8))}
      {payload : List UInt8} {shared : Shared} {ran : Nat} {region : List OutCell}
      {next : List (Option (List UInt8))} {granted : Bool}
      (task : s.task = .dispatching region next granted)
      (handed : s.log.handed = earlier ++ [payload])
      (answered : List.Forall₂ (RepliesTo pf) earlier groups)
      (passes : next = (dispatchPasses pf shared payload).drop ran ∨ next = [])
      (replies : s.log.replies = groups.flatten ++ firstReplies pf shared payload ran)

theorem Grouped.groups {s : BridgeState} (h : Grouped pf s) :
    ∃ groups, List.Forall₂ (RepliesTo pf) s.log.handed groups ∧
      s.log.replies = groups.flatten := by
  cases h with
  | between quiet answered replies => exact ⟨_, answered, replies⟩
  | @during earlier groups payload shared ran _ _ _ _ handed answered _ replies =>
    refine ⟨groups ++ [firstReplies pf shared payload ran], ?_, ?_⟩
    · rw [handed]
      exact List.rel_append answered (.cons ⟨shared, ran, rfl⟩ .nil)
    · rw [replies, List.flatten_append, List.flatten_singleton]

theorem Grouped.serving {s : BridgeState} {region : List OutCell}
    {next : List (Option (List UInt8))} {granted : Bool} (h : Grouped pf s)
    (task : s.task = .dispatching region next granted) :
    ∃ earlier groups payload shared ran, s.log.handed = earlier ++ [payload] ∧
      List.Forall₂ (RepliesTo pf) earlier groups ∧
      (next = (dispatchPasses pf shared payload).drop ran ∨ next = []) ∧
      s.log.replies = groups.flatten ++ firstReplies pf shared payload ran := by
  cases h with
  | between quiet =>
    rw [task] at quiet
    cases quiet
  | during dispatching handed answered passes replies =>
    rw [task] at dispatching
    cases dispatching
    exact ⟨_, _, _, _, _, handed, answered, passes, replies⟩

theorem grouped_step {s s' : BridgeState} {a : BridgeAct} (hi : Grouped pf s)
    (h : bridgeStep pf s a = some s') : Grouped pf s' := by
  cases bridgeStep_cases pf h with
  | ethIteration turn =>
    obtain ⟨htask, hhanded, hreplies⟩ := ethIteration_kept pf turn
    cases hi with
    | between quiet answered replies =>
      exact .between (by rwa [htask]) (by rwa [hhanded]) (hreplies.trans replies)
    | during task handed answered passes replies =>
      exact .during (htask.trans task) (hhanded.trans handed) answered passes
        (hreplies.trans replies)
  | linkStart task spawned =>
    obtain ⟨groups, answered, replies⟩ := hi.groups
    exact .between rfl answered replies
  | linkRead shared task =>
    obtain ⟨groups, answered, replies⟩ := hi.groups
    have hread := linkRead_cases pf shared s
    generalize linkRead pf shared s = s' at hread ⊢
    cases hread with
    | nothing empty => exact .between rfl answered replies
    | malformed nonempty endpoint =>
      exact .between (by simp [task, LinkTask.region]) answered replies
    | @handed remote n nonempty endpoint =>
      generalize (s.ethOut.turn.front.map (·.byte)).drop n = payload
      have first : s.log.replies = groups.flatten ++ firstReplies pf shared payload 0 :=
        replies.trans (List.append_nil _).symm
      exact .during rfl rfl answered (Or.inl rfl) first
  | replyGrant task grant =>
    obtain ⟨_, _, _, _, _, handed, answered, passes, replies⟩ := hi.serving pf task
    exact .during rfl handed answered passes replies
  | replyRefused task grant =>
    obtain ⟨_, _, _, _, _, handed, answered, -, replies⟩ := hi.serving pf task
    exact .during rfl handed answered (Or.inr rfl) replies
  | @replyCommit region pass next task =>
    obtain ⟨earlier, groups, payload, shared, ran, handed, answered, passes, replies⟩ :=
      hi.serving pf task
    obtain ⟨hnext, hmore⟩ :=
      firstReplies_succ pf (passes.resolve_right (List.cons_ne_nil _ _))
    have now : s.log.replies ++ (pass.map (·.take replyMtu)).toList =
        groups.flatten ++ firstReplies pf shared payload (ran + 1) := by
      rw [replies, hmore, List.append_assoc]
    exact .during rfl handed answered (Or.inl hnext) now
  | linkFinish task =>
    obtain ⟨groups, answered, replies⟩ := hi.groups
    exact .between rfl answered replies

/-- The buffers handed to the decoder, and those the activations begun or spawned can still
hand to it, are paid for by records. -/
def HandedPaid (s : BridgeState) : Prop :=
  s.log.handed.length + s.pending ≤ s.log.records.length

theorem handedPaid_step {s s' : BridgeState} {a : BridgeAct} (hi : HandedPaid s)
    (h : bridgeStep pf s a = some s') : HandedPaid s' := by
  unfold HandedPaid BridgeState.pending at hi ⊢
  cases bridgeStep_cases pf h with
  | ethIteration turn =>
    obtain ⟨task, handed, ⟨-, spawned, records⟩ | ⟨r, place, -, spawned, records, -⟩⟩ :=
      ethIteration_out pf turn
    · rwa [task, handed, spawned, records]
    · rw [task, handed, spawned, records, List.length_append, List.length_singleton]
      simp only [if_true]
      omega
  | linkStart task spawned => simpa [task, spawned] using hi
  | linkRead shared task =>
    have hread := linkRead_cases pf shared s
    generalize linkRead pf shared s = s' at hread ⊢
    rw [if_pos task] at hi
    cases hread with
    | nothing empty =>
      simp only [reduceCtorEq, if_false]
      omega
    | malformed nonempty endpoint => simpa only [if_pos task] using hi
    | handed nonempty endpoint =>
      simp only [reduceCtorEq, if_false, List.length_append, List.length_singleton]
      omega
  | replyGrant task grant => simpa [task] using hi
  | replyRefused task grant => simpa [task] using hi
  | replyCommit task => simpa [task] using hi
  | linkFinish task => simpa [task] using hi

theorem replies_paid {s : BridgeState} (h : Transition.Reachable (bridgeStep pf) .init s) :
    ∃ groups, List.Forall₂ (RepliesTo pf) s.log.handed groups ∧
      s.log.replies = groups.flatten ∧
      (∀ g ∈ groups, g.length ≤ maxReplyBatches ∧ (∀ r ∈ g, r.length ≤ replyMtu) ∧
        g.flatten.length ≤ replyMtu * maxReplyBatches) ∧
      s.log.accepted <+: groups.flatten.flatten ∧
      s.log.handed.length ≤ s.log.records.length ∧
      s.log.replies.length ≤ maxReplyBatches * s.log.records.length ∧
      s.log.accepted.length ≤ replyMtu * (maxReplyBatches * s.log.records.length) := by
  have hgrouped : Grouped pf s := h.invariant (bridgeStep pf) (.between rfl .nil rfl)
    fun _ _ _ hi _ hs => grouped_step pf hi hs
  have hpaid : HandedPaid s := h.invariant (bridgeStep pf) (Nat.le_refl 0)
    fun _ _ _ hi _ hs => handedPaid_step pf hi hs
  obtain ⟨groups, answered, replies⟩ := hgrouped.groups
  have short : List.Forall₂ (fun g payload => (g.length ≤ maxReplyBatches ∧
      ∀ r ∈ g, r.length ≤ replyMtu) ∧ RepliesTo pf payload g) groups s.log.handed :=
    List.Forall₂.flip (answered.imp fun _ _ given => ⟨given.short pf, given⟩)
  have each := ((List.forall₂_and_left ..).mp short).1
  have handed : s.log.handed.length ≤ s.log.records.length := (Nat.le_add_right _ _).trans hpaid
  have count : s.log.replies.length ≤ maxReplyBatches * s.log.records.length := by
    have grouped := length_flatten_le fun g hg => (each g hg).1
    rw [← replies, ← answered.length_eq] at grouped
    exact grouped.trans (Nat.mul_le_mul_left _ handed)
  have sent : s.log.accepted <+: s.log.replies.flatten := by
    rw [← (reachable_stream pf h).stream]
    exact List.prefix_append _ _
  have bytes : s.log.replies.flatten.length ≤ replyMtu * s.log.replies.length := by
    refine length_flatten_le fun r hr => ?_
    rw [replies] at hr
    obtain ⟨g, hg, hr⟩ := List.mem_flatten.mp hr
    exact (each g hg).2 r hr
  refine ⟨groups, answered, replies, fun g hg => ⟨(each g hg).1, (each g hg).2, ?_⟩,
    replies ▸ sent, handed, count, sent.length_le.trans (bytes.trans (Nat.mul_le_mul_left _ count))⟩
  exact (length_flatten_le (each g hg).2).trans (Nat.mul_le_mul_left _ (each g hg).1)

/-- Nothing more is received, and the connection stays. -/
def BridgeAct.winds : BridgeAct → Prop
  | .ethIteration p => p.change = .keep ∧ p.dequeued = []
  | .linkStart | .linkRead _ | .replyGrant | .replyCommit | .linkFinish => True

def BridgeAct.sends : BridgeAct → Bool
  | .ethIteration p => p.canSend && decide (0 < p.sent.getD 0)
  | .linkStart | .linkRead _ | .replyGrant | .replyCommit | .linkFinish => false

theorem winds_turn {p : Polled} {s s' : BridgeState} (running : s.panicked = false)
    (winds : (BridgeAct.ethIteration p).winds) (h : ethIteration pf p s = some s') :
    s' = handleTcpTx p.canSend p.sent s := by
  obtain ⟨keep, nothing⟩ := winds
  have received : (if p.newData then handleTcpRx pf p.recv s else s) = s := by
    unfold Polled.dequeued at nothing
    cases hnew : p.newData with
    | false => rfl
    | true =>
      rw [hnew, if_pos rfl] at nothing
      rw [if_pos rfl, nothing]
      rfl
  simp only [ethIteration, keep, pollSocket, Option.map_some, received, running,
    Bool.false_eq_true, if_false, Option.some.injEq] at h
  exact h.symm

structure Winding (s₀ s : BridgeState) : Prop where
  reached : Transition.Reachable (bridgeStep pf) .init s
  socket : s.socket = s₀.socket
  records : s.log.records = s₀.log.records
  replies : s₀.log.replies <+: s.log.replies

theorem winding_step {s₀ s s' : BridgeState} {a : BridgeAct} (hi : Winding pf s₀ s)
    (winds : a.winds) (h : bridgeStep pf s a = some s') : Winding pf s₀ s' := by
  obtain ⟨reached, socket, records, replies⟩ := hi
  have running := step_running pf h
  have reached' := reached.step trivial h
  cases bridgeStep_cases pf h with
  | @ethIteration p _ turn =>
    obtain rfl := winds_turn pf running winds turn
    have htx := handleTcpTx_cases p.canSend p.sent s
    generalize handleTcpTx p.canSend p.sent s = s' at htx reached' ⊢
    cases htx with
    | nothing => exact ⟨reached', socket, records, replies⟩
    | failed connected => exact ⟨reached', socket, records, replies⟩
    | sent written connected => exact ⟨reached', socket, records, replies⟩
  | linkStart task spawned => exact ⟨reached', socket, records, replies⟩
  | linkRead shared task =>
    have hread := linkRead_cases pf shared s
    generalize linkRead pf shared s = s' at hread reached' ⊢
    cases hread with
    | nothing empty => exact ⟨reached', socket, records, replies⟩
    | malformed nonempty endpoint => exact ⟨reached', socket, records, replies⟩
    | handed nonempty endpoint => exact ⟨reached', socket, records, replies⟩
  | replyGrant task grant => exact ⟨reached', socket, records, replies⟩
  | replyRefused task grant => exact ⟨reached', socket, records, replies⟩
  | replyCommit task =>
    exact ⟨reached', socket, records, replies.trans (List.prefix_append _ _)⟩
  | linkFinish task => exact ⟨reached', socket, records, replies⟩

theorem at_rest {s : BridgeState} (running : s.panicked = false) (hi : GrantUsed s)
    (none : s.stepsLeft = 0) : s.task = .idle ∧ s.linkSpawned = false := by
  simp only [BridgeState.stepsLeft, running, Bool.false_eq_true, if_false,
    Nat.add_eq_zero_iff] at none
  obtain ⟨noSteps, noSpawn⟩ := none
  constructor
  · rcases htask : s.task with - | - | ⟨region, passes, granted⟩
    · rfl
    · simp [htask, LinkTask.stepsLeft] at noSteps
    · cases granted with
      | false => simp [htask, LinkTask.stepsLeft] at noSteps
      | true =>
        obtain rfl : passes = [] := by simpa [htask, LinkTask.stepsLeft] using noSteps
        exact absurd htask (hi region)
  · by_contra spawned
    simp [spawned, activationSteps] at noSpawn

theorem handleTcpTx_contents (canSend : Bool) (sent : Option Nat) {s : BridgeState} {c : Conn}
    (connected : s.socket = some c) :
    (handleTcpTx canSend sent s).ethIn.contents.length ≤ s.ethIn.contents.length ∧
      (canSend = true → 0 < sent.getD 0 → s.ethIn.contents ≠ [] →
        (handleTcpTx canSend sent s).ethIn.contents.length < s.ethIn.contents.length) := by
  cases canSend with
  | false => simp [handleTcpTx, connected]
  | true =>
    cases sent with
    | none => simp [handleTcpTx, connected, contents_turn]
    | some written =>
      have left := congrArg List.length (take_append_contents_release s.ethIn.turn written)
      rw [contents_turn, List.length_append, List.length_take] at left
      simp only [handleTcpTx, connected, if_true, Option.getD_some]
      refine ⟨by omega, fun _ positive some => ?_⟩
      have offered : s.ethIn.turn.front.length ≠ 0 := fun none =>
        some ((turn_front_eq_nil_iff s.ethIn).mp (List.length_eq_zero_iff.mp none))
      omega

section
variable {s₀ : BridgeState} (e : Transition.Execution (bridgeStep pf) (fun _ a => a.winds) s₀)

/-- Neither task waits for ever: again and again `link_process` takes a step or has none to
take, and again and again the socket takes a byte or there is none to send. -/
structure Fair : Prop where
  link : ∀ n, ∃ m ≥ n, (e.act m).ofLink = true ∨
    ∀ a, a.ofLink = true → bridgeStep pf (e.state m) a = none
  socket : ∀ n, ∃ m ≥ n, (e.act m).sends = true ∨ (e.state m).ethIn.contents = []

variable {pf e}
variable (h : Transition.Reachable (bridgeStep pf) .init s₀)
include h

theorem execution_winding (n : Nat) : Winding pf s₀ (e.state n) :=
  (e.reached n).invariant (bridgeStep pf) ⟨h, rfl, rfl, List.prefix_refl _⟩
    fun _ _ _ hi winds taken => winding_step pf hi winds taken

theorem execution_pays (n : Nat) :
    (e.act n).ofLink.toNat + (e.state (n + 1)).stepsLeft ≤ (e.state n).stepsLeft := by
  have paid := step_pays pf (e.taken n)
  rw [(execution_winding h n).records, (execution_winding h (n + 1)).records] at paid
  omega

theorem link_runs_out (fair : Fair pf e) : ∃ N, ∀ n ≥ N, (e.state n).stepsLeft = 0 := by
  have never : ∀ n ≥ 0, (e.state (n + 1)).stepsLeft ≤ (e.state n).stepsLeft := fun n _ =>
    (Nat.le_add_left _ _).trans (execution_pays h n)
  refine (e.runs_out BridgeState.stepsLeft never fun n _ left => ?_).imp fun _ out => out.2
  obtain ⟨m, hm, taken | disabled⟩ := fair.link n
  · have paid := execution_pays (e := e) h m
    have fallen := e.falls BridgeState.stepsLeft never (Nat.zero_le n) hm
    rw [taken, Bool.toNat_true] at paid
    exact ⟨m + 1, Nat.le_succ_of_le hm, by omega⟩
  · refine ⟨m, hm, ?_⟩
    by_contra less
    have some : (e.state m).stepsLeft ≠ 0 := by omega
    obtain ⟨a, link, -, enabled⟩ := link_enabled pf .init
      (reachable_grantUsed pf (execution_winding h m).reached) some
    rw [disabled a link] at enabled
    cases enabled

/-- With nothing left to `link_process` the loop alone moves on. -/
theorem rest_turn {n : Nat} (rest : (e.state n).stepsLeft = 0) : ∃ p,
    e.act n = .ethIteration p ∧ e.state (n + 1) = handleTcpTx p.canSend p.sent (e.state n) := by
  have none : (e.act n).ofLink = false := by
    by_contra link
    have paid := execution_pays (e := e) h n
    rw [Bool.not_eq_false] at link
    rw [link, rest, Bool.toNat_true] at paid
    omega
  have taken := e.taken n
  have winds := e.met n
  cases hact : e.act n with
  | ethIteration p =>
    rw [hact] at taken winds
    refine ⟨p, rfl, winds_turn pf (step_running pf taken) winds ?_⟩
    simpa only [bridgeStep, step_running pf taken, Bool.false_eq_true, if_false] using taken
  | linkStart | linkRead | replyGrant | replyCommit | linkFinish =>
    rw [hact] at none
    cases none

theorem socket_runs_out (fair : Fair pf e) {c : Conn} (connected : s₀.socket = some c) {N : Nat}
    (rest : ∀ n ≥ N, (e.state n).stepsLeft = 0) :
    ∃ M ≥ N, ∀ n ≥ M, (e.state n).ethIn.contents.length = 0 := by
  have still (n : Nat) : (e.state n).socket = some c :=
    (execution_winding h n).socket.trans connected
  have never : ∀ n ≥ N, (e.state (n + 1)).ethIn.contents.length ≤
      (e.state n).ethIn.contents.length := by
    intro n hn
    obtain ⟨p, -, next⟩ := rest_turn h (rest n hn)
    rw [next]
    exact (handleTcpTx_contents p.canSend p.sent (still n)).1
  refine e.runs_out (·.ethIn.contents.length) never fun n hn left => ?_
  obtain ⟨m, hm, sends | empty⟩ := fair.socket n
  · have fallen := e.falls (·.ethIn.contents.length) never hn hm
    by_cases gone : (e.state m).ethIn.contents = []
    · exact ⟨m, hm, by rw [gone]; exact Nat.pos_of_ne_zero left⟩
    obtain ⟨p, hact, next⟩ := rest_turn h (rest m (hn.trans hm))
    rw [hact] at sends
    obtain ⟨canSend, positive⟩ := Bool.and_eq_true_iff.mp sends
    have less := (handleTcpTx_contents p.canSend p.sent (still m)).2 canSend
      (of_decide_eq_true positive) gone
    rw [← next] at less
    exact ⟨m + 1, Nat.le_succ_of_le hm, by omega⟩
  · exact ⟨m, hm, by rw [empty]; exact Nat.pos_of_ne_zero left⟩

end

end

theorem begunActivation_paid :
    ∃ s, Transition.run (bridgeStep .reader) (fun _ _ => true) .init
        [connect peer, receive [1], .linkStart] = some s ∧ s.stepsLeft = 18 ∧
      List.countP BridgeAct.ofLink [connect peer, receive [1], .linkStart] + s.stepsLeft ≤
        activationSteps * s.log.records.length ∧
      ∃ a, a.ofLink = true ∧ (∀ found, a = .linkRead found → found = .init) ∧
        (bridgeStep .reader s a).isSome = true := by
  have ends : (Transition.run (bridgeStep .reader) (fun _ _ => true) .init
      [connect peer, receive [1], .linkStart]).any (fun s => s.stepsLeft = 18) = true := by
    decide +kernel
  obtain ⟨s, hs, hp⟩ := (Option.any_eq_true ..).mp ends
  have left : s.stepsLeft = 18 := of_decide_eq_true hp
  obtain ⟨paid, enabled⟩ := link_steps_paid .reader .init hs
  exact ⟨s, hs, left, paid, enabled (by rw [left]; decide)⟩

theorem servedRequest_repliesPaid :
    ∃ s groups, Transition.Reachable (bridgeStep .reader) .init s ∧ s.log.replies.length = 2 ∧
      List.Forall₂ (RepliesTo .reader) s.log.handed groups ∧ s.log.replies = groups.flatten ∧
      (∀ g ∈ groups, g.length ≤ maxReplyBatches ∧ (∀ r ∈ g, r.length ≤ replyMtu) ∧
        g.flatten.length ≤ replyMtu * maxReplyBatches) ∧
      s.log.accepted <+: groups.flatten.flatten ∧
      s.log.handed.length ≤ s.log.records.length ∧
      s.log.replies.length ≤ maxReplyBatches * s.log.records.length ∧
      s.log.accepted.length ≤ replyMtu * (maxReplyBatches * s.log.records.length) := by
  obtain ⟨s, hs, hp⟩ := Transition.exists_reachable_of_run (bridgeStep .reader) .init
    (connect peer :: receive [1] :: serve ++ transmit 3 :: receive [1] :: serve)
    (fun s => decide (s.log.replies.length = 2)) (by decide +kernel)
  obtain ⟨groups, paid⟩ := replies_paid .reader hs
  exact ⟨s, groups, hs, of_decide_eq_true hp, paid⟩

def AtRest (c : Conn) (s : BridgeState) : Prop :=
  s.panicked = false ∧ s.socket = some c ∧ s.task = .idle ∧ s.linkSpawned = false

theorem transmit_again {s : BridgeState} {c : Conn} (hi : AtRest c s) :
    (transmit 1).winds ∧ ∃ s', bridgeStep .reader s (transmit 1) = some s' ∧ AtRest c s' := by
  obtain ⟨running, connected, idle, unspawned⟩ := hi
  refine ⟨⟨rfl, rfl⟩, handleTcpTx true (some 1) s, ?_, ?_⟩
  · simp [bridgeStep, transmit, ethIteration, pollSocket, running]
  · simp [AtRest, handleTcpTx, connected, running, idle, unspawned]

def servedBetweenTurns : List BridgeAct :=
  [.linkStart, transmit 1, .linkRead .init, .replyGrant, transmit 1, .replyCommit, transmit 1,
    .linkFinish]

end VhlHackathon
