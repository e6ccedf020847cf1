import VhlHackathon.Handing
set_option autoImplicit false

/-!
What is in eth_out: whole records, one after the other, from the place where the next read
starts. A region therefore opens with a header `handle_tcp_rx` wrote, however records were
committed, read and released, and the bytes of a record that was not queued are gone.
-/

namespace VhlHackathon
open BipBuffer BipBuffer.Ring

section
variable (pf : Platform)

/-- The front part and the back part hold the cells of the last records, oldest first. -/
def Framed (records : List Record) (front back : List OutCell) : Prop :=
  ∃ done fs bs, records = done ++ fs ++ bs ∧ front = fs.flatMap (Record.cells pf) ∧
    back = bs.flatMap (Record.cells pf)

theorem framed_empty (records : List Record) : Framed pf records [] [] :=
  ⟨records, [], [], by simp, rfl, rfl⟩

theorem flatMap_cells_nil {records : List Record} (h : [] = records.flatMap (Record.cells pf)) :
    records = [] := by
  cases records with
  | nil => rfl
  | cons r rest =>
    rw [List.flatMap_cons] at h
    exact absurd (List.append_eq_nil_iff.mp h.symm).1 (cells_ne_nil pf r)

theorem Framed.push_front {records : List Record} {front : List OutCell}
    (h : Framed pf records front []) (r : Record) :
    Framed pf (records ++ [r]) (front ++ r.cells pf) [] := by
  obtain ⟨done, fs, bs, rfl, rfl, hback⟩ := h
  obtain rfl := flatMap_cells_nil pf hback
  exact ⟨done, fs ++ [r], [], by simp, by simp, rfl⟩

theorem Framed.push_back {records : List Record} {front back : List OutCell}
    (h : Framed pf records front back) (r : Record) :
    Framed pf (records ++ [r]) front (back ++ r.cells pf) := by
  obtain ⟨done, fs, bs, rfl, rfl, rfl⟩ := h
  exact ⟨done, fs, bs ++ [r], by simp, rfl, by simp⟩

theorem Framed.drop_front {records : List Record} {front back : List OutCell}
    (h : Framed pf records front back) : Framed pf records [] back := by
  obtain ⟨done, fs, bs, rfl, rfl, rfl⟩ := h
  exact ⟨done ++ fs, [], bs, by simp, rfl, rfl⟩

theorem Framed.turn {records : List Record} {ring : Ring OutCell 512}
    (h : Framed pf records ring.front (ring.back.getD [])) :
    Framed pf records ring.turn.front (ring.turn.back.getD []) := by
  rcases turn_spec ring with ⟨hsame, -⟩ | ⟨b, hf, hb, -, hf', hb', -⟩
  · rw [hsame]; exact h
  · rw [hf, hb] at h
    obtain ⟨done, fs, bs, hrec, hfront, hback⟩ := h
    obtain rfl := flatMap_cells_nil pf hfront
    rw [hf', hb']
    exact ⟨done, bs, [], by simpa using hrec, hback, rfl⟩

theorem ethIteration_panicked {p : Polled} {s s' : BridgeState}
    (h : ethIteration pf p s = some s') : s'.panicked = s.panicked := by
  obtain ⟨s₁, s₂, hs₁, hrx, htx⟩ := ethIteration_cases pf h
  obtain ⟨socket, nextConn, rfl, -⟩ := pollSocket_cases hs₁
  have htx' : s'.panicked = s₂.panicked := by cases htx <;> rfl
  rw [htx']
  cases hrx <;> rfl

theorem framed_region {records : List Record} {region back : List OutCell}
    (h : Framed pf records region back) (hne : region ≠ [])
    (hend : ∀ r ∈ records, ∃ addr, IpEndpointL.tryFrom pf.protoIpv6 addr = some r.endpoint) :
    ∃ r ∈ records, ∃ n later,
      region.map (·.byte) = pf.ssmarshal.serialize r.endpoint ++ (r.payload ++ later) ∧
      pf.ssmarshal.deserialize (region.map (·.byte)) = some (r.endpoint, n) ∧
      (region.map (·.byte)).drop n = r.payload ++ later := by
  obtain ⟨done, fs, bs, rfl, rfl, -⟩ := h
  cases fs with
  | nil => exact absurd rfl hne
  | cons r rest =>
    have hmem : r ∈ done ++ r :: rest ++ bs := by simp
    obtain ⟨addr, he⟩ := hend r hmem
    have hbytes : ((r :: rest).flatMap (Record.cells pf)).map (·.byte) =
        pf.ssmarshal.serialize r.endpoint ++
          (r.payload ++ (rest.flatMap (Record.cells pf)).map (·.byte)) := by
      simp [Record.cells, Function.comp_def]
    refine ⟨r, hmem, (pf.ssmarshal.serialize r.endpoint).length, _, hbytes, ?_, ?_⟩
    · rw [hbytes]; exact pf.ssmarshal.deserialize_serialize he _
    · rw [hbytes, List.drop_left]

structure FramingInv (s : BridgeState) : Prop where
  framed : Framed pf s.log.records s.unreadFront s.unreadBack
  held : s.held ≤ s.ethOut.front.length
  endpoints : ∀ r ∈ s.log.records, ∃ addr, IpEndpointL.tryFrom pf.protoIpv6 addr = some r.endpoint
  noPanic : s.panicked = false

theorem framed_commit {s s' : BridgeState} {r : Record} {place : Place}
    (hf : Framed pf s.log.records s.unreadFront s.unreadBack)
    (hheld : s.held ≤ s.ethOut.front.length) (task : s'.task = s.task)
    (records : s'.log.records = s.log.records ++ [r])
    (queue : Appended place s.ethOut (r.cells pf) s'.ethOut) :
    Framed pf s'.log.records s'.unreadFront s'.unreadBack := by
  have hh : s'.held = s.held := by simp [BridgeState.held, task]
  unfold BridgeState.unreadFront BridgeState.unreadBack at hf ⊢
  rw [hh, records]
  cases place with
  | front =>
    obtain ⟨hb, hfront, hb'⟩ := queue
    rw [hb] at hf
    rw [hfront, hb', List.drop_append_of_le_length hheld]
    exact hf.push_front pf r
  | back =>
    obtain ⟨b, hb, hfront, hb'⟩ := queue
    rw [hb] at hf
    rw [hfront, hb']
    exact hf.push_back pf r
  | wrap =>
    obtain ⟨hb, hfront, hb'⟩ := queue
    rw [hb] at hf
    rw [hfront, hb']
    exact hf.push_back pf r

theorem framed_read {s : BridgeState} (hi : FramingInv pf s) (task : s.task = .started)
    (shared : Shared) : FramingInv pf (linkRead pf shared s) := by
  obtain ⟨hf, hheld, hend, hpanic⟩ := hi
  have hzero : s.held = 0 := by simp [BridgeState.held, LinkTask.region, task]
  rw [BridgeState.unreadFront, hzero, List.drop_zero] at hf
  have hturn : Framed pf s.log.records s.ethOut.turn.front (s.ethOut.turn.back.getD []) :=
    hf.turn pf
  have hread := linkRead_cases pf shared s
  generalize linkRead pf shared s = s' at hread ⊢
  cases hread with
  | nothing empty =>
    refine ⟨?_, Nat.zero_le _, hend, hpanic⟩
    rw [empty] at hturn
    simpa [BridgeState.unreadFront, BridgeState.unreadBack, BridgeState.held, LinkTask.region,
      empty] using hturn
  | malformed nonempty endpoint =>
    obtain ⟨r, -, n, later, -, hdes, -⟩ := framed_region pf hturn nonempty hend
    rw [endpoint] at hdes
    cases hdes
  | handed nonempty endpoint =>
    refine ⟨?_, Nat.le_refl _, hend, hpanic⟩
    simpa [BridgeState.unreadFront, BridgeState.unreadBack, BridgeState.held,
      LinkTask.region] using hturn.drop_front

theorem framing_step {s s' : BridgeState} {a : BridgeAct} (hi : FramingInv pf s)
    (h : bridgeStep pf s a = some s') : FramingInv pf s' := by
  have hpanic : s'.panicked = false := by
    cases bridgeStep_cases pf h with
    | ethIteration turn => rw [ethIteration_panicked pf turn]; exact hi.noPanic
    | linkRead shared task => exact (framed_read pf hi task shared).noPanic
    | linkStart task spawned => exact hi.noPanic
    | replyGrant task grant => exact hi.noPanic
    | replyRefused task grant => exact hi.noPanic
    | replyCommit task => exact hi.noPanic
    | linkFinish task => exact hi.noPanic
  obtain ⟨hf, hheld, hend, hbefore⟩ := hi
  cases bridgeStep_out pf h with
  | quiet queue spawned records handed region started =>
    have hh : s'.held = s.held := (regions_congr queue region).1
    refine ⟨?_, by rw [hh, queue]; exact hheld, by rw [records]; exact hend, hpanic⟩
    rw [records, BridgeState.unreadFront, BridgeState.unreadBack, hh, queue]
    exact hf
  | commit r place committed spawned records handed task queue =>
    refine ⟨framed_commit pf hf hheld task records queue,
      (unreadRegions_appended queue hheld task (cells_ne_nil pf r)).1, fun q hq => ?_, hpanic⟩
    rw [records, List.mem_append, List.mem_singleton] at hq
    rcases hq with hq | rfl
    · exact hend q hq
    · exact commits_endpoint pf committed
  | start spawned task after =>
    subst after
    refine ⟨?_, Nat.zero_le _, hend, hpanic⟩
    simpa [BridgeState.unreadFront, BridgeState.unreadBack, BridgeState.held, LinkTask.region,
      task] using hf
  | read task after =>
    subst after
    exact framed_read pf ⟨hf, hheld, hend, hbefore⟩ task _
  | finish task after =>
    subst after
    refine ⟨?_, Nat.zero_le _, hend, hpanic⟩
    simpa [BridgeState.unreadFront, BridgeState.unreadBack, BridgeState.held, LinkTask.region,
      task, release] using hf

theorem reachable_framing {s : BridgeState}
    (h : Transition.Reachable (bridgeStep pf) .init s) : FramingInv pf s :=
  h.invariant (bridgeStep pf)
    ⟨framed_empty pf [], Nat.zero_le _, by simp [BridgeState.init], rfl⟩
    fun _ _ _ hi _ hs => framing_step pf hi hs

theorem regions_framed {s : BridgeState} (h : Transition.Reachable (bridgeStep pf) .init s) :
    s.panicked = false ∧
      (∀ buf r, rxRecord pf s.socket buf = some r →
        (pf.ssmarshal.serialize r.endpoint).length + buf.length ≤ rxGrantSize pf buf) ∧
      (s.task = .started → s.ethOut.turn.front ≠ [] → ∃ r ∈ s.log.records, ∃ n later,
        s.ethOut.turn.front.map (·.byte) =
            pf.ssmarshal.serialize r.endpoint ++ (r.payload ++ later) ∧
        pf.ssmarshal.deserialize (s.ethOut.turn.front.map (·.byte)) =
          some (r.endpoint, n) ∧
        (s.ethOut.turn.front.map (·.byte)).drop n = r.payload ++ later) := by
  obtain ⟨hf, -, hend, hpanic⟩ := reachable_framing pf h
  refine ⟨hpanic, fun buf r hr => ?_, fun task hne => ?_⟩
  · have hle := rxRecord_fits pf hr
    obtain ⟨c, -, -, -, rfl⟩ := rxRecord_spec pf hr
    simpa [Record.cells] using hle
  · have hzero : s.held = 0 := by simp [BridgeState.held, LinkTask.region, task]
    rw [BridgeState.unreadFront, hzero, List.drop_zero] at hf
    exact framed_region pf (hf.turn pf) hne hend

def Kept (s : BridgeState) : Prop := s.log.records.flatMap (·.payload) = s.log.dequeued

instance (s : BridgeState) : Decidable (Kept s) := inferInstanceAs (Decidable (_ = _))

/-- A turn that dequeues bytes finds an endpoint that converts and room in eth_out. -/
def queues (s : BridgeState) : BridgeAct → Bool
  | .ethIteration p => !p.newData || decide (p.recv = []) || (commits pf s p).isSome
  | _ => true

structure KeptInv (s : BridgeState) : Prop where
  kept : Kept s
  noGrant : s.ethOut.grant = none

theorem kept_turn {p : Polled} {s s' : BridgeState} (hi : KeptInv s)
    (hok : queues pf s (.ethIteration p) = true) (h : ethIteration pf p s = some s') :
    KeptInv s' := by
  obtain ⟨hk, hgrant⟩ := hi
  obtain ⟨s₁, s₂, hs₁, hrx, htx⟩ := ethIteration_cases pf h
  have hqueued : p.dequeued ≠ [] → ∃ r place, commits pf s p = some (r, place) := by
    intro hne
    obtain ⟨⟨r, place⟩, hc⟩ : ∃ c, commits pf s p = some c := by
      unfold Polled.dequeued at hne
      cases hn : p.newData with
      | false => simp [hn] at hne
      | true =>
        simp only [hn, if_true] at hne
        simpa [queues, hn, hne, Option.isSome_iff_exists] using hok
    exact ⟨r, place, hc⟩
  have hkept : KeptInv s₂ := by
    simp only [commits_iff, hs₁, Option.bind_some] at hqueued
    obtain ⟨socket, nextConn, rfl, -⟩ := pollSocket_cases hs₁
    cases hrx with
    | nothing empty => exact ⟨hk, hgrant⟩
    | lost nonempty refused =>
      -- there is a record and room for it, so it was not refused
      obtain ⟨r, place, -, hr, hp⟩ := hqueued nonempty
      obtain ⟨wgr, hw⟩ := grantExact_of_place hgrant hp
      rw [hr] at refused
      exact absurd (hw.symm.trans refused) (by simp)
    | @queued r wgr nonempty record grant =>
      obtain ⟨_, -, -, hg, -, -, -⟩ := grantExact_eq_some grant
      obtain ⟨_, -, -, -, hpayload⟩ := rxRecord_spec pf record
      refine ⟨?_, (commit_spec hg _).1⟩
      change (s.log.records ++ [r]).flatMap (·.payload) = s.log.dequeued ++ p.dequeued
      rw [List.flatMap_append, show s.log.records.flatMap (·.payload) = _ from hk, ← hpayload]
      simp
  cases htx with
  | nothing => exact hkept
  | failed socket => exact ⟨hkept.kept, hkept.noGrant⟩
  | sent written socket => exact ⟨hkept.kept, hkept.noGrant⟩

theorem kept_step {s s' : BridgeState} {a : BridgeAct} (hi : KeptInv s)
    (hok : queues pf s a = true) (h : bridgeStep pf s a = some s') : KeptInv s' := by
  obtain ⟨hk, hgrant⟩ := hi
  cases bridgeStep_cases pf h with
  | ethIteration turn => exact kept_turn pf ⟨hk, hgrant⟩ hok turn
  | linkStart task spawned => exact ⟨hk, hgrant⟩
  | linkRead shared task =>
    have hturn : s.ethOut.turn.grant = none := by rw [grant_turn]; exact hgrant
    have hread := linkRead_cases pf shared s
    generalize linkRead pf shared s = s' at hread ⊢
    cases hread <;> exact ⟨hk, hturn⟩
  | replyGrant task grant => exact ⟨hk, hgrant⟩
  | replyRefused task grant => exact ⟨hk, hgrant⟩
  | replyCommit task => exact ⟨hk, hgrant⟩
  | linkFinish task => exact ⟨hk, hgrant⟩

theorem queued_kept {s : BridgeState}
    (h : Transition.ReachableBy (bridgeStep pf) (fun s a => queues pf s a = true) .init s) :
    Kept s :=
  (h.invariant (I := KeptInv) (bridgeStep pf) ⟨rfl, rfl⟩
    fun _ _ _ hi hok hs => kept_step pf hi hok hs).kept

end

/-- Three chunks of 128 bytes leave no room for a fourth. -/
def filledRun : List BridgeAct :=
  connect peer :: (List.range 4).map fun n => receive (List.replicate 128 (UInt8.ofNat n))

theorem filledRun_loses :
    ∃ s, Transition.Reachable (bridgeStep .mute) .init s ∧ ¬ Kept s := by
  obtain ⟨s, hs, hp⟩ := Transition.exists_reachable_of_run (bridgeStep .mute) .init filledRun
    (fun s => decide ¬ Kept s) (by decide +kernel)
  exact ⟨s, hs, of_decide_eq_true hp⟩

theorem twoChunks_kept :
    ∃ s, Transition.ReachableBy (bridgeStep .mute) (fun s a => queues .mute s a = true) .init s ∧
      s.log.dequeued = [1, 2, 3] ∧ Kept s := by
  obtain ⟨s, hs, hp⟩ := Transition.exists_reachableBy_of_run (bridgeStep .mute)
    (queues .mute) .init (connect peer :: receive [1, 2] :: drain ++ [receive [3]])
    (fun s => decide (s.log.dequeued = [1, 2, 3])) (by decide +kernel)
  exact ⟨s, hs, of_decide_eq_true hp, queued_kept .mute hs⟩

theorem coalesced_framed :
    ∃ s, Transition.Reachable (bridgeStep .mute) .init s ∧ s.panicked = false ∧
      ∃ r ∈ s.log.records, ∃ n later,
        (s.ethOut.turn.front.map (·.byte)).drop n = r.payload ++ later := by
  obtain ⟨s, hs, hp⟩ := Transition.exists_reachable_of_run (bridgeStep .mute) .init
    [connect peer, receive [1, 2], receive [3], .linkStart]
    (fun s => decide (s.task = .started) && decide (s.ethOut.turn.front ≠ []))
    (by decide +kernel)
  simp only [Bool.and_eq_true, decide_eq_true_eq] at hp
  obtain ⟨hpanic, -, hregion⟩ := regions_framed .mute hs
  obtain ⟨r, hr, n, later, -, -, hdrop⟩ := hregion hp.1 hp.2
  exact ⟨s, hs, hpanic, r, hr, n, later, hdrop⟩

end VhlHackathon
