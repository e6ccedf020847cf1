import VhlHackathon.Transmit
set_option autoImplicit false

/-!
Room in the two queues. A ring loses memory where it is inverted, but less than two of its
largest grants: up to a fill level that leaves these free, a chunk that is received is
queued and a reply gets its grant.
-/

namespace VhlHackathon
open BipBuffer BipBuffer.Ring

section
variable (pf : Platform)

/-- The most `recv` can return at once: the size of the socket's receive buffer. -/
def tcpServerRxData : Nat := 128

def recvFits (_ : BridgeState) : BridgeAct → Bool
  | .ethIteration p => decide (p.recv.length ≤ tcpServerRxData)
  | _ => true

def maxRxGrant : Nat := tcpServerRxData + sizeOfIpEndpointL pf.protoIpv6 + 1

theorem rxGrantSize_le {buf : List UInt8} (h : buf.length ≤ tcpServerRxData) :
    rxGrantSize pf buf ≤ maxRxGrant pf := by
  unfold rxGrantSize maxRxGrant
  omega

theorem dequeued_length_le {p : Polled} (h : p.recv.length ≤ tcpServerRxData) :
    p.dequeued.length ≤ tcpServerRxData := by
  unfold Polled.dequeued
  split
  · exact h
  · exact Nat.zero_le _

/-- Between steps nothing is granted on eth_out, and its inversions came from chunks. -/
structure RxRoom (s : BridgeState) : Prop where
  free : s.ethOut.grant = none
  tight : s.ethOut.Tight (maxRxGrant pf)

theorem rxRoom_received {s s' : BridgeState} {buf : List UInt8} (hi : RxRoom pf s)
    (hle : buf.length ≤ tcpServerRxData) (h : Received pf s buf s') : RxRoom pf s' := by
  cases h with
  | nothing empty => exact hi
  | lost nonempty refused => exact ⟨hi.free, hi.tight⟩
  | queued nonempty record grant =>
    obtain ⟨p, -, -, hg, -⟩ := grantExact_eq_some grant
    exact ⟨(commit_spec hg _).1,
      (hi.tight.grantExact (rxGrantSize_le pf hle) grant).commit _⟩

theorem rxRoom_ethIteration {p : Polled} {s s' : BridgeState} (hi : RxRoom pf s)
    (hle : p.recv.length ≤ tcpServerRxData) (h : ethIteration pf p s = some s') :
    RxRoom pf s' := by
  obtain ⟨s₁, s₂, hs₁, hrx, htx⟩ := ethIteration_cases pf h
  obtain ⟨socket, nextConn, rfl, -⟩ := pollSocket_cases hs₁
  have hmid : RxRoom pf s₂ := by
    refine rxRoom_received pf ?_ (dequeued_length_le hle) hrx
    exact ⟨hi.free, hi.tight⟩
  cases htx with
  | nothing => exact hmid
  | failed socket => exact ⟨hmid.free, hmid.tight⟩
  | sent written socket => exact ⟨hmid.free, hmid.tight⟩

theorem rxRoom_step {s s' : BridgeState} {a : BridgeAct} (hi : RxRoom pf s)
    (hok : recvFits s a = true) (h : bridgeStep pf s a = some s') : RxRoom pf s' := by
  cases bridgeStep_cases pf h with
  | ethIteration turn => exact rxRoom_ethIteration pf hi (of_decide_eq_true hok) turn
  | linkRead shared task =>
    have hturn : RxRoom pf { s with ethOut := s.ethOut.turn } :=
      ⟨by rw [grant_turn]; exact hi.free, hi.tight.turn⟩
    have hread := linkRead_cases pf shared s
    generalize linkRead pf shared s = s' at hread ⊢
    cases hread with
    | nothing empty => exact ⟨hturn.free, hturn.tight⟩
    | malformed nonempty endpoint => exact ⟨hturn.free, hturn.tight⟩
    | handed nonempty endpoint => exact ⟨hturn.free, hturn.tight⟩
  | linkStart task spawned => exact ⟨hi.free, hi.tight⟩
  | replyGrant task grant => exact ⟨hi.free, hi.tight⟩
  | replyRefused task grant => exact ⟨hi.free, hi.tight⟩
  | replyCommit task => exact ⟨hi.free, hi.tight⟩
  | linkFinish task => exact ⟨hi.free, hi.tight.release _⟩

theorem chunk_queued {s s' : BridgeState} {p : Polled} {r : Record}
    (h : Transition.ReachableBy (bridgeStep pf) (fun s a => recvFits s a = true) .init s)
    (room : s.ethOut.contents.length + 2 * maxRxGrant pf ≤ 512)
    (fits : p.recv.length ≤ tcpServerRxData) (received : p.dequeued ≠ [])
    (record : rxRecord pf ((pollSocket p.change s).bind (·.socket)) p.dequeued = some r)
    (taken : bridgeStep pf s (.ethIteration p) = some s') :
    s'.log.records = s.log.records ++ [r] ∧ s'.linkSpawned = true := by
  have hi : RxRoom pf s := h.invariant (bridgeStep pf) ⟨rfl, tight_empty _⟩
    fun _ _ _ hi hok hs => rxRoom_step pf hi hok hs
  obtain ⟨wgr, hwgr⟩ := hi.tight.granted hi.free
    (rxGrantSize_le pf (dequeued_length_le fits)) room
  cases bridgeStep_cases pf taken with
  | ethIteration turn =>
    obtain ⟨s₁, s₂, hs₁, hrx, htx⟩ := ethIteration_cases pf turn
    rw [hs₁, Option.bind_some] at record
    obtain ⟨socket, nextConn, rfl, -⟩ := pollSocket_cases hs₁
    have hqueued : s₂.log.records = s.log.records ++ [r] ∧ s₂.linkSpawned = true := by
      cases hrx with
      | nothing empty => exact absurd empty received
      | lost nonempty refused =>
        rw [record, Option.bind_some, hwgr] at refused
        cases refused
      | queued nonempty same grant =>
        rw [record] at same
        cases same
        exact ⟨rfl, rfl⟩
    cases htx with
    | nothing => exact hqueued
    | failed socket => exact hqueued
    | sent written socket => exact hqueued

theorem firstChunk_queued :
    ∃ s s', Transition.ReachableBy (bridgeStep .mute) (fun s a => recvFits s a = true) .init s ∧
      bridgeStep .mute s (receive [1, 2]) = some s' ∧ s'.linkSpawned = true ∧
      s'.log.records = s.log.records ++ [⟨0, ⟨.ipv4 #v[192, 168, 0, 2], 49152⟩, [1, 2]⟩] := by
  obtain ⟨s, hs, hp⟩ := Transition.exists_reachableBy_of_run (bridgeStep .mute) recvFits .init
    [connect peer]
    (fun s => decide (s.ethOut.contents.length + 2 * maxRxGrant .mute ≤ 512) &&
      (decide (s.socket = some ⟨0, peer⟩) && (bridgeStep .mute s (receive [1, 2])).isSome))
    (by decide +kernel)
  simp only [Bool.and_eq_true, decide_eq_true_eq] at hp
  obtain ⟨room, socket, enabled⟩ := hp
  obtain ⟨s', taken⟩ := Option.isSome_iff_exists.mp enabled
  obtain ⟨queued, spawned⟩ := chunk_queued .mute hs room (p := ⟨.keep, true, [1, 2], false, none⟩)
    (r := ⟨0, ⟨.ipv4 #v[192, 168, 0, 2], 49152⟩, [1, 2]⟩) (by decide) (by decide)
    (by simp [pollSocket, socket, Polled.dequeued]; rfl) taken
  exact ⟨s, s', hs, taken, spawned, queued⟩

/-- As many replies as an event's batches have room behind what is queued, with two grants
to spare for an inversion. -/
def roomForReplies (s : BridgeState) : BridgeAct → Bool
  | .linkRead shared =>
    match (linkRead pf shared s).task with
    | .dispatching _ passes _ =>
      decide (s.ethIn.contents.length + replyMtu * passes.length + replyMtu ≤ 512)
    | .idle | .started => true
  | _ => true

structure ReplyRoom (s : BridgeState) : Prop where
  stream : StreamInv s
  tight : s.ethIn.Tight replyMtu
  room : ∀ region passes granted, s.task = .dispatching region passes granted →
    s.ethIn.contents.length + replyMtu * passes.length + replyMtu ≤ 512

theorem Transmitted.room {s s' : BridgeState} (h : Transmitted s s') {size : Nat}
    (ht : s.ethIn.Tight size) :
    s'.ethIn.Tight size ∧ s'.ethIn.contents.length ≤ s.ethIn.contents.length := by
  have hturn := congrArg List.length (contents_turn s.ethIn)
  cases h with
  | nothing => exact ⟨ht, Nat.le_refl _⟩
  | failed socket => exact ⟨ht.turn, hturn.le⟩
  | sent written socket =>
    refine ⟨ht.turn.release _, ?_⟩
    have hsplit := congrArg List.length
      (take_append_contents_release s.ethIn.turn written)
    rw [List.length_append, hturn] at hsplit
    simp only
    omega

theorem replyRoom_step {s s' : BridgeState} {a : BridgeAct} (hi : ReplyRoom s)
    (hok : roomForReplies pf s a = true) (h : bridgeStep pf s a = some s') : ReplyRoom s' := by
  obtain ⟨hstream, htight, hroom⟩ := hi
  have hstream' := stream_step pf hstream h
  cases bridgeStep_cases pf h with
  | ethIteration turn =>
    have htask := (ethIteration_out pf turn).1
    obtain ⟨s₁, s₂, hs₁, hrx, htx⟩ := ethIteration_cases pf turn
    obtain ⟨socket, nextConn, rfl, -⟩ := pollSocket_cases hs₁
    obtain ⟨hin, -⟩ := hrx.ethIn pf
    obtain ⟨htight', hle⟩ := htx.room (by rw [hin]; exact htight)
    refine ⟨hstream', htight', fun region passes granted hd => ?_⟩
    rw [hin] at hle
    have hbefore := hroom region passes granted (htask.symm.trans hd)
    exact (Nat.add_le_add_right (Nat.add_le_add_right hle _) _).trans hbefore
  | linkStart task spawned => exact ⟨hstream', htight, fun _ _ _ hd => by cases hd⟩
  | linkRead shared task =>
    have hread := linkRead_cases pf shared s
    have hlater := hok
    simp only [roomForReplies] at hlater
    generalize linkRead pf shared s = s' at hread hstream' hlater ⊢
    cases hread with
    | nothing empty => exact ⟨hstream', htight, fun _ _ _ hd => by cases hd⟩
    | malformed nonempty endpoint =>
      refine ⟨hstream', htight, fun _ _ _ hd => ?_⟩
      rw [task] at hd
      cases hd
    | handed nonempty endpoint =>
      refine ⟨hstream', htight, fun region passes granted hd => ?_⟩
      cases hd
      exact of_decide_eq_true hlater
  | replyGrant task grant =>
    refine ⟨hstream', htight.grantExact (Nat.le_refl _) grant, fun region passes granted hd => ?_⟩
    cases hd
    rw [contents_grantExact grant]
    exact hroom _ _ _ task
  | replyRefused task grant =>
    refine ⟨hstream', htight, fun region passes granted hd => ?_⟩
    cases hd
    have hbefore := hroom _ _ _ task
    simp only [List.length_nil]
    omega
  | @replyCommit region pass passes task =>
    refine ⟨hstream', htight.commit _, fun region passes granted hd => ?_⟩
    cases hd
    have hbefore := hroom _ _ _ task
    have hpending := hstream.pending
    rw [task] at hpending
    obtain ⟨g, hg, hsize⟩ : ∃ g, s.ethIn.grant = some g ∧ g.size = replyMtu := by
      simpa [LinkTask.granted] using hpending
    rw [contents_commit hg, List.length_append, List.length_take, hsize]
    rw [List.length_cons] at hbefore
    simp only [replyMtu] at hbefore ⊢
    omega
  | linkFinish task => exact ⟨hstream', htight, fun _ _ _ hd => by cases hd⟩

theorem reachable_replyRoom {s : BridgeState}
    (h : Transition.ReachableBy (bridgeStep pf) (fun s a => roomForReplies pf s a = true)
      .init s) : ReplyRoom s :=
  h.invariant (bridgeStep pf)
    ⟨⟨rfl, rfl⟩, tight_empty _, fun _ _ _ hd => by cases hd⟩
    fun _ _ _ hi hok hs => replyRoom_step pf hi hok hs

theorem ReplyRoom.given {s : BridgeState} (hi : ReplyRoom s) {region : List OutCell}
    {pass : Option (List UInt8)} {passes : List (Option (List UInt8))}
    (task : s.task = .dispatching region (pass :: passes) false) :
    ∃ wgr, s.ethIn.grantExact replyMtu = some wgr := by
  have hpending := hi.stream.pending
  rw [task] at hpending
  have hfree : s.ethIn.grant = none := by
    simpa [LinkTask.granted] using hpending
  refine hi.tight.granted hfree (Nat.le_refl _) ?_
  have hroom := hi.room _ _ _ task
  rw [List.length_cons] at hroom
  simp only [replyMtu] at hroom ⊢
  omega

theorem reply_grants_given {s : BridgeState} {region : List OutCell}
    {pass : Option (List UInt8)} {passes : List (Option (List UInt8))}
    (h : Transition.ReachableBy (bridgeStep pf) (fun s a => roomForReplies pf s a = true)
      .init s)
    (task : s.task = .dispatching region (pass :: passes) false) :
    ∃ wgr, s.ethIn.grantExact replyMtu = some wgr :=
  (reachable_replyRoom pf h).given task

end

def LinkTask.passes : LinkTask → List (Option (List UInt8))
  | .dispatching _ passes _ => passes
  | .idle | .started => []

theorem firstReply_given :
    ∃ s, Transition.ReachableBy (bridgeStep .reader)
        (fun s a => roomForReplies .reader s a = true) .init s ∧
      s.task.region.isSome = true ∧ ∃ wgr, s.ethIn.grantExact replyMtu = some wgr := by
  obtain ⟨s, hs, hp⟩ := Transition.exists_reachableBy_of_run (bridgeStep .reader)
    (roomForReplies .reader) .init
    [connect peer, receive [1], .linkStart, .linkRead .init]
    (fun s => !s.task.passes.isEmpty && !s.task.granted) (by decide +kernel)
  cases htask : s.task with
  | idle => simp [htask, LinkTask.passes] at hp
  | started => simp [htask, LinkTask.passes] at hp
  | dispatching region passes granted =>
    simp only [htask, LinkTask.passes, LinkTask.granted, Bool.and_eq_true, Bool.not_eq_true',
      List.isEmpty_eq_false_iff] at hp
    obtain ⟨left, rfl⟩ := hp
    obtain ⟨pass, passes, rfl⟩ := List.exists_cons_of_ne_nil left
    exact ⟨s, hs, by rw [htask]; rfl, reply_grants_given .reader hs htask⟩

end VhlHackathon
