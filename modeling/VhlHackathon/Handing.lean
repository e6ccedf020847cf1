import VhlHackathon.Stranding
set_option autoImplicit false

/-!
Whether each record reaches the decoder on its own. One activation reads one region and
takes all of it for one record, so a record must be alone in the region it is put in.
-/

namespace VhlHackathon
open BipBuffer BipBuffer.Ring

section
variable (pf : Platform)

/-- The payloads handed to the decoder are those of the first records, one each and in
order. What the next reads return is the later records, one each, with an activation
pending for each; and a region being dispatched is the record handed over last. -/
structure HandedOnce (s : BridgeState) : Prop where
  handed : s.log.handed = (s.log.records.take s.log.handed.length).map (·.payload)
  unread : s.unreadRegions = (s.log.records.drop s.log.handed.length).map (·.cells pf)
  pending : s.log.records.length = s.log.handed.length + s.pending
  dispatching : ∀ region, s.task.region = some region →
    some region = (s.log.records.take s.log.handed.length).getLast?.map (·.cells pf)

/-- Records are committed only while the spawn slot is free, and not behind unread bytes. -/
def oneByOne (s : BridgeState) : BridgeAct → Bool
  | .ethIteration p =>
    match commits pf s p with
    | some (_, place) => !s.linkSpawned && decide (s.unreadAt place = [])
    | none => true
  | _ => true

structure HandingInv (s : BridgeState) : Prop where
  once : HandedOnce pf s
  held : s.held ≤ s.ethOut.front.length
  endpoints : ∀ r ∈ s.log.records, ∃ addr, IpEndpointL.tryFrom pf.protoIpv6 addr = some r.endpoint

theorem commits_endpoint {s : BridgeState} {p : Polled} {r : Record} {place : Place}
    (h : commits pf s p = some (r, place)) :
    ∃ addr, IpEndpointL.tryFrom pf.protoIpv6 addr = some r.endpoint := by
  obtain ⟨-, hr, -⟩ := (commits_iff pf r place).mp h
  obtain ⟨c, -, he, -⟩ := rxRecord_spec pf hr
  exact ⟨c.remote, he⟩

theorem region_payload {r : Record}
    (h : ∃ addr, IpEndpointL.tryFrom pf.protoIpv6 addr = some r.endpoint) :
    ∃ n, pf.ssmarshal.deserialize ((r.cells pf).map (·.byte)) = some (r.endpoint, n) ∧
      ((r.cells pf).map (·.byte)).drop n = r.payload := by
  obtain ⟨addr, he⟩ := h
  have hbytes : (r.cells pf).map (·.byte) = pf.ssmarshal.serialize r.endpoint ++ r.payload := by
    simp [Record.cells, Function.comp_def]
  refine ⟨(pf.ssmarshal.serialize r.endpoint).length, ?_, ?_⟩
  · rw [hbytes]; exact pf.ssmarshal.deserialize_serialize he r.payload
  · rw [hbytes, List.drop_left]

theorem handing_commit {s s' : BridgeState} {p : Polled} {r : Record} {place : Place}
    (hi : HandingInv pf s) (hfree : s.linkSpawned = false) (hat : s.unreadAt place = [])
    (committed : commits pf s p = some (r, place)) (spawned : s'.linkSpawned = true)
    (records : s'.log.records = s.log.records ++ [r]) (handed : s'.log.handed = s.log.handed)
    (task : s'.task = s.task) (queue : Appended place s.ethOut (r.cells pf) s'.ethOut) :
    HandingInv pf s' := by
  obtain ⟨⟨hhanded, hunread, hpending, hdispatching⟩, hheld, hendpoints⟩ := hi
  have hle : s.log.handed.length ≤ s.log.records.length := by omega
  obtain ⟨hh, hnew, -⟩ := unreadRegions_appended queue hheld task (cells_ne_nil pf r)
  have htake : (s.log.records ++ [r]).take s.log.handed.length =
      s.log.records.take s.log.handed.length := List.take_append_of_le_length hle
  refine ⟨⟨?_, ?_, ?_, ?_⟩, hh, ?_⟩
  · rw [handed, records, htake]; exact hhanded
  · rw [hnew hat, handed, records, List.drop_append_of_le_length hle, hunread]
    simp
  · simp [handed, records, BridgeState.pending, spawned, task, hpending, hfree]
    omega
  · rw [task, handed, records, htake]; exact hdispatching
  · intro q hq
    rw [records, List.mem_append, List.mem_singleton] at hq
    rcases hq with hq | rfl
    · exact hendpoints q hq
    · exact commits_endpoint pf committed

theorem handing_read {s : BridgeState} (hi : HandingInv pf s) (task : s.task = .started)
    (shared : Shared) : HandingInv pf (linkRead pf shared s) := by
  obtain ⟨⟨hhanded, hunread, hpending, -⟩, -, hendpoints⟩ := hi
  obtain ⟨hs, hrec, -, hcase⟩ := linkRead_out pf task shared
  simp only [BridgeState.pending, task, if_true] at hpending
  obtain ⟨r, later, hdrop⟩ : ∃ r later, s.log.records.drop s.log.handed.length = r :: later := by
    refine List.exists_cons_of_length_pos ?_
    rw [List.length_drop]
    omega
  rw [hdrop, List.map_cons] at hunread
  obtain ⟨n, hdes, hpayload⟩ := region_payload pf
    (hendpoints r (List.mem_of_mem_drop (hdrop ▸ List.mem_cons_self ..)))
  rcases hcase with ⟨hnone, -⟩ | ⟨region, rest, hr, hfront, hd⟩
  · rw [hnone] at hunread; cases hunread
  rw [hunread, List.cons.injEq] at hr
  obtain ⟨rfl, rfl⟩ := hr
  rw [hdes] at hd
  obtain ⟨hrest, hregion, ht, hh⟩ := hd
  rw [hpayload] at hh
  have hlen : (linkRead pf shared s).log.handed.length = s.log.handed.length + 1 := by
    rw [hh, List.length_append]; rfl
  have htake : s.log.records.take (s.log.handed.length + 1) =
      s.log.records.take s.log.handed.length ++ [r] := by
    have h0 : s.log.records[s.log.handed.length]? = some r := by
      rw [← List.head?_drop, hdrop]; rfl
    rw [List.take_add_one, h0]
    rfl
  refine ⟨⟨?_, ?_, ?_, ?_⟩, ?_, by rw [hrec]; exact hendpoints⟩
  · rw [hlen, hrec, htake, List.map_append, ← hhanded, hh]
    rfl
  · rw [hlen, hrec, hrest, ← List.drop_drop, hdrop]
    rfl
  · rw [hlen, hrec]
    simp only [BridgeState.pending, hs, ht, if_false]
    omega
  · intro region hreg
    rw [hregion] at hreg
    rw [hlen, hrec, htake, ← hreg, List.getLast?_append]
    rfl
  · rw [BridgeState.held, hregion, ← hfront]
    exact Nat.le_refl _

theorem handing_step {s s' : BridgeState} {a : BridgeAct} (hi : HandingInv pf s)
    (hok : oneByOne pf s a = true) (h : bridgeStep pf s a = some s') : HandingInv pf s' := by
  cases bridgeStep_out pf h with
  | quiet queue spawned records handed region started =>
    obtain ⟨⟨hhanded, hunread, hpending, hdispatching⟩, hheld, hendpoints⟩ := hi
    obtain ⟨hh, hr⟩ := regions_congr queue region
    have hp : s'.pending = s.pending := by simp [BridgeState.pending, spawned, started]
    refine ⟨⟨?_, ?_, ?_, ?_⟩, ?_, ?_⟩
    · rw [handed, records]; exact hhanded
    · rw [hr, handed, records]; exact hunread
    · rw [handed, records, hp]; exact hpending
    · rw [region, handed, records]; exact hdispatching
    · rw [hh, queue]; exact hheld
    · rw [records]; exact hendpoints
  | commit r place committed spawned records handed task queue =>
    obtain ⟨hfree, hat⟩ : s.linkSpawned = false ∧ s.unreadAt place = [] := by
      simpa [oneByOne, committed] using hok
    exact handing_commit pf hi hfree hat committed spawned records handed task queue
  | start spawned task after =>
    subst after
    obtain ⟨⟨hhanded, hunread, hpending, -⟩, -, hendpoints⟩ := hi
    refine ⟨⟨hhanded, ?_, ?_, by simp [LinkTask.region]⟩, Nat.zero_le _, hendpoints⟩
    · rw [← hunread]
      simp [BridgeState.unreadRegions, BridgeState.unreadFront, BridgeState.unreadBack,
        BridgeState.held, LinkTask.region, task]
    · simpa [BridgeState.pending, spawned, task] using hpending
  | read task after =>
    subst after
    exact handing_read pf hi task _
  | finish task after =>
    subst after
    obtain ⟨⟨hhanded, hunread, hpending, -⟩, -, hendpoints⟩ := hi
    refine ⟨⟨hhanded, ?_, ?_, by simp [LinkTask.region]⟩, Nat.zero_le _, hendpoints⟩
    · rw [← hunread]
      simp [BridgeState.unreadRegions, BridgeState.unreadFront, BridgeState.unreadBack,
        BridgeState.held, LinkTask.region, task, release]
    · simpa [BridgeState.pending, task] using hpending

theorem one_by_one_handedOnce {s : BridgeState}
    (h : Transition.ReachableBy (bridgeStep pf) (fun s a => oneByOne pf s a = true) .init s) :
    HandedOnce pf s :=
  (h.invariant (I := HandingInv pf) (bridgeStep pf)
    ⟨⟨rfl, rfl, rfl, by simp [BridgeState.init, LinkTask.region]⟩, Nat.zero_le _,
      by simp [BridgeState.init]⟩
    fun _ _ _ hi hok hs => handing_step pf hi hok hs).once

end

def coalescedRun : List BridgeAct :=
  connect peer :: receive [1, 2] :: receive [3] :: drain

theorem coalescedRun_merged :
    ∃ s, Transition.Reachable (bridgeStep .mute) .init s ∧
      s.log.records.map (·.payload) = [[1, 2], [3]] ∧
      s.log.handed = [[1, 2, 0, 192, 168, 0, 2, 0, 192, 3]] ∧ s.ethOut.contents = [] ∧
      ¬ HandedOnce .mute s := by
  obtain ⟨s, hs, hp⟩ := Transition.exists_reachable_of_run (bridgeStep .mute) .init
    coalescedRun
    (fun s => decide (s.log.records.map (·.payload) = [[1, 2], [3]]) &&
      decide (s.log.handed = [[1, 2, 0, 192, 168, 0, 2, 0, 192, 3]]) &&
        decide (s.ethOut.contents = []))
    (by decide +kernel)
  simp only [Bool.and_eq_true, decide_eq_true_eq] at hp
  obtain ⟨⟨hrec, hhanded⟩, hempty⟩ := hp
  refine ⟨s, hs, hrec, hhanded, hempty, fun h => ?_⟩
  have hpay := h.handed
  rw [List.map_take, hrec, hhanded] at hpay
  exact absurd hpay (by decide)

theorem twoChunks_handedOnce :
    ∃ s, Transition.ReachableBy (bridgeStep .mute) (fun s a => oneByOne .mute s a = true) .init s ∧
      s.log.handed = [[1, 2], [3]] ∧ HandedOnce .mute s := by
  obtain ⟨s, hs, hp⟩ := Transition.exists_reachableBy_of_run (bridgeStep .mute)
    (oneByOne .mute) .init (connect peer :: receive [1, 2] :: drain ++ receive [3] :: drain)
    (fun s => decide (s.log.handed = [[1, 2], [3]])) (by decide +kernel)
  exact ⟨s, hs, of_decide_eq_true hp, one_by_one_handedOnce .mute hs⟩

end VhlHackathon
