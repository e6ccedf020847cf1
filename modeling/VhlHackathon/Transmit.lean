import VhlHackathon.Isolation
set_option autoImplicit false

/-!
The byte stream towards the peer. What the socket accepted and what is still in eth_in
together are the committed replies in commit order, whatever the two tasks interleave.
-/

namespace VhlHackathon
open BipBuffer BipBuffer.Ring

def LinkTask.granted : LinkTask → Bool
  | .dispatching _ _ granted => granted
  | .idle | .started => false

/-- No byte is lost, duplicated or reordered, and a grant of the reply size is pending
exactly while the dispatcher holds one. -/
structure StreamInv (s : BridgeState) : Prop where
  stream : s.log.accepted ++ s.ethIn.contents.map (·.byte) = s.log.replies.flatten
  pending : s.ethIn.grant.map (·.size) = if s.task.granted then some replyMtu else none

theorem Transmitted.stream {s s' : BridgeState} (h : Transmitted s s') :
    s'.log.accepted ++ s'.ethIn.contents.map (·.byte) =
        s.log.accepted ++ s.ethIn.contents.map (·.byte) ∧
      s'.ethIn.grant = s.ethIn.grant ∧ s'.log.replies = s.log.replies := by
  have hturn : s.ethIn.turn.contents = s.ethIn.contents := contents_turn s.ethIn
  have hgrant : s.ethIn.turn.grant = s.ethIn.grant := grant_turn s.ethIn
  cases h with
  | nothing => exact ⟨rfl, rfl, rfl⟩
  | failed socket =>
    -- the read grant is dropped, nothing is released
    refine ⟨?_, hgrant, rfl⟩
    simp only [hturn]
  | sent written socket =>
    refine ⟨?_, hgrant, rfl⟩
    have hsplit : s.ethIn.turn.front.take written ++
        (s.ethIn.turn.release written).contents = s.ethIn.contents := by
      rw [← hturn, take_append_contents_release]
    rw [← hsplit, List.map_append, List.append_assoc]

theorem ethIteration_stream (pf : Platform) {p : Polled} {s s' : BridgeState} (hi : StreamInv s)
    (h : ethIteration pf p s = some s') : StreamInv s' := by
  obtain ⟨hstream, hpending⟩ := hi
  have htask : s'.task = s.task := (ethIteration_out pf h).1
  obtain ⟨s₁, s₂, hs₁, hrx, htx⟩ := ethIteration_cases pf h
  obtain ⟨socket, nextConn, rfl, -⟩ := pollSocket_cases hs₁
  obtain ⟨hin, -, -, haccepted, hreplies⟩ := hrx.ethIn pf
  obtain ⟨t1, t2, t3⟩ := htx.stream
  rw [hin, haccepted] at t1
  rw [hin] at t2
  exact ⟨by rw [t1, t3, hreplies]; exact hstream, by rw [t2, htask]; exact hpending⟩

theorem stream_step (pf : Platform) {s s' : BridgeState} {a : BridgeAct} (hi : StreamInv s)
    (h : bridgeStep pf s a = some s') : StreamInv s' := by
  obtain ⟨hstream, hpending⟩ := hi
  cases bridgeStep_cases pf h with
  | ethIteration turn => exact ethIteration_stream pf ⟨hstream, hpending⟩ turn
  | linkStart task spawned =>
    rw [task] at hpending
    exact ⟨hstream, hpending⟩
  | linkRead shared task =>
    rw [task] at hpending
    have hread := linkRead_cases pf shared s
    generalize linkRead pf shared s = s' at hread ⊢
    cases hread with
    | nothing empty => exact ⟨hstream, hpending⟩
    | malformed nonempty endpoint => exact ⟨hstream, by rw [task]; exact hpending⟩
    | handed nonempty endpoint => exact ⟨hstream, hpending⟩
  | replyGrant task grant =>
    obtain ⟨p, -, -, hg, -⟩ := grantExact_eq_some grant
    refine ⟨?_, by simp [hg, LinkTask.granted]⟩
    rw [contents_grantExact grant]
    exact hstream
  | replyRefused task grant =>
    rw [task] at hpending
    exact ⟨hstream, hpending⟩
  | @replyCommit region pass passes task =>
    rw [task] at hpending
    obtain ⟨g, hg, hsize⟩ : ∃ g, s.ethIn.grant = some g ∧ g.size = replyMtu := by
      simpa [LinkTask.granted] using hpending
    refine ⟨?_, by simp [(commit_spec hg _).1, LinkTask.granted]⟩
    rw [contents_commit hg, hsize, List.map_append, ← List.append_assoc, hstream,
      List.flatten_append]
    -- an abandoned batch commits nothing
    cases pass with
    | none => simp
    | some bytes => simp [List.map_take, Function.comp_def]
  | linkFinish task =>
    rw [task] at hpending
    exact ⟨hstream, hpending⟩

theorem accepted_prefix_replies (pf : Platform) {s : BridgeState}
    (h : Transition.Reachable (bridgeStep pf) .init s) :
    s.log.accepted <+: s.log.replies.flatten := by
  have hi : StreamInv s := h.invariant (bridgeStep pf) ⟨rfl, rfl⟩
    fun _ _ _ hi _ hs => stream_step pf hi hs
  rw [← hi.stream]
  exact List.prefix_append _ _

theorem partialWrite_prefix :
    ∃ s, Transition.Reachable (bridgeStep .reader) .init s ∧ s.log.accepted.length = 3 ∧
      s.log.accepted <+: s.log.replies.flatten := by
  obtain ⟨s, hs, hp⟩ := Transition.exists_reachable_of_run (bridgeStep .reader) .init
    (connect peer :: receive [1] :: serve ++
      [transmit 3, .ethIteration ⟨.keep, false, [], true, none⟩])
    (fun s => decide (s.log.accepted.length = 3)) (by decide +kernel)
  exact ⟨s, hs, of_decide_eq_true hp, accepted_prefix_replies .reader hs⟩

end VhlHackathon
