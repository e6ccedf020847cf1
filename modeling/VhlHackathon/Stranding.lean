import VhlHackathon.EthOut
set_option autoImplicit false

/-!
Whether a committed record can be left in eth_out with nobody coming to read it. A spawn
that finds the slot taken is lost, so the activation in the slot must be able to reach
the new record; it cannot when the record opens a second region behind an unread one.
-/

namespace VhlHackathon
open BipBuffer BipBuffer.Ring

section
variable (pf : Platform)

/-- No record is committed to the start of the ring while its tail is unread and the spawn
slot is taken, unless the last activation has begun and not read yet. -/
def keepsUp (s : BridgeState) : BridgeAct → Bool
  | .ethIteration p =>
    match commits pf s p with
    | some (_, .wrap) =>
      !s.linkSpawned || decide (s.task = .started) || decide (s.unreadFront = [])
    | _ => true
  | _ => true

structure Served (s : BridgeState) : Prop where
  held : s.held ≤ s.ethOut.front.length
  nonempty : ∀ b, s.ethOut.back = some b → b ≠ []
  covered : s.unreadRegions.length ≤ s.pending

theorem commit_covered {s s' : BridgeState} {items : List OutCell} {place : Place}
    (hi : Served s) (hq : Appended place s.ethOut items s'.ethOut) (hnew : s.unreadAt place = [])
    (hok : place = .wrap → s.linkSpawned = false ∨ s.task = .started ∨ s.unreadFront = []) :
    s.unreadRegions.length + 1 ≤ 1 + if s.task = .started then 1 else 0 := by
  have hcov := hi.covered
  unfold BridgeState.pending at hcov
  cases place with
  | front =>
    have hr : s.unreadRegions = [] := by
      have hf : s.unreadFront = [] := hnew
      simp [BridgeState.unreadRegions, BridgeState.unreadBack, hq.1, hf]
    rw [hr]
    simp
  | back =>
    obtain ⟨b, hb, -, -⟩ := hq
    have hnil : b = [] := by simpa [BridgeState.unreadAt, BridgeState.unreadBack, hb] using hnew
    exact absurd hnil (hi.nonempty b hb)
  | wrap =>
    have hr : s.unreadRegions = [s.unreadFront].filter (· ≠ []) := by
      simp [BridgeState.unreadRegions, BridgeState.unreadBack, hq.1, List.filter_cons]
    have hle : s.unreadRegions.length ≤ 1 := by
      rw [hr]; exact List.length_filter_le _ _
    rcases hok rfl with h | h | h
    · simp only [h] at hcov
      simp at hcov
      omega
    · simp only [h, if_true]
      omega
    · rw [hr, h]
      simp

theorem served_commit {s s' : BridgeState} {p : Polled} {r : Record} {place : Place}
    (hi : Served s) (hok : keepsUp pf s (.ethIteration p) = true)
    (committed : commits pf s p = some (r, place)) (spawned : s'.linkSpawned = true)
    (task : s'.task = s.task) (queue : Appended place s.ethOut (r.cells pf) s'.ethOut) :
    Served s' := by
  obtain ⟨hheld, hnew, hold⟩ := unreadRegions_appended queue hi.held task (cells_ne_nil pf r)
  have hpending : s'.pending = 1 + if s.task = .started then 1 else 0 := by
    simp [BridgeState.pending, spawned, task]
  refine ⟨hheld, ?_, ?_⟩
  · intro b hb
    cases place with
    | front => rw [queue.2.2] at hb; cases hb
    | back =>
      obtain ⟨c, -, -, hc⟩ := queue
      rw [hc] at hb
      cases hb
      simp [cells_ne_nil pf]
    | wrap => rw [queue.2.2] at hb; cases hb; exact cells_ne_nil pf r
  · rw [hpending]
    by_cases hat : s.unreadAt place = []
    · rw [hnew hat, List.length_append]
      refine commit_covered hi queue hat fun hw => ?_
      subst hw
      simpa [keepsUp, committed, or_assoc] using hok
    · rw [hold hat]
      have hcov := hi.covered
      unfold BridgeState.pending at hcov
      split at hcov <;> omega

theorem served_read {s : BridgeState} (hi : Served s) (task : s.task = .started)
    (shared : Shared) : Served (linkRead pf shared s) := by
  have hcov := hi.covered
  simp only [BridgeState.pending, task, if_true] at hcov
  obtain ⟨hs, -, hq, hcase⟩ := linkRead_out pf task shared
  have hback : ∀ b, (linkRead pf shared s).ethOut.back = some b → b ≠ [] := by
    rw [hq]
    rcases turn_spec s.ethOut with ⟨ht, -⟩ | ⟨b, -, -, -, -, hb', -⟩
    · rw [ht]; exact hi.nonempty
    · intro c hc; rw [hb'] at hc; cases hc
  rcases hcase with ⟨-, hr, ht, -⟩ | ⟨region, rest, hr, hfront, hd⟩
  · exact ⟨by simp [BridgeState.held, LinkTask.region, ht], hback, by simp [hr]⟩
  rw [hr, List.length_cons] at hcov
  split at hd
  · obtain ⟨ht, hr'⟩ := hd
    refine ⟨by simp [BridgeState.held, LinkTask.region, ht], hback, ?_⟩
    rw [hr', hr]
    simpa [BridgeState.pending, ht, hs] using hcov
  · obtain ⟨hr', hregion, ht, -⟩ := hd
    refine ⟨by simp [BridgeState.held, hregion, hfront], hback, ?_⟩
    rw [hr']
    simp only [BridgeState.pending, hs, ht, if_false]
    omega

theorem served_step {s s' : BridgeState} {a : BridgeAct} (hi : Served s)
    (hok : keepsUp pf s a = true) (h : bridgeStep pf s a = some s') : Served s' := by
  cases bridgeStep_out pf h with
  | quiet queue spawned records handed region started =>
    obtain ⟨hheld, hregions⟩ := regions_congr queue region
    refine ⟨by rw [hheld, queue]; exact hi.held, by rw [queue]; exact hi.nonempty, ?_⟩
    rw [hregions]
    simpa [BridgeState.pending, spawned, started] using hi.covered
  | commit r place committed spawned records handed task queue =>
    exact served_commit pf hi hok committed spawned task queue
  | start spawned task after =>
    subst after
    have hcov := hi.covered
    simp only [BridgeState.pending, spawned, task] at hcov
    refine ⟨Nat.zero_le _, hi.nonempty, ?_⟩
    simpa [BridgeState.pending, BridgeState.unreadRegions, BridgeState.unreadFront,
      BridgeState.unreadBack, BridgeState.held, LinkTask.region, task] using hcov
  | read task after =>
    subst after
    exact served_read pf hi task _
  | finish task after =>
    subst after
    refine ⟨Nat.zero_le _, hi.nonempty, ?_⟩
    simpa [BridgeState.pending, BridgeState.unreadRegions, BridgeState.unreadFront,
      BridgeState.unreadBack, BridgeState.held, LinkTask.region, task, release] using hi.covered

theorem kept_up_not_stranded {s : BridgeState}
    (h : Transition.ReachableBy (bridgeStep pf) (fun s a => keepsUp pf s a = true) .init s)
    (hspawn : s.linkSpawned = false) (hidle : s.task = .idle) : s.ethOut.contents = [] := by
  have hi : Served s := h.invariant (bridgeStep pf)
    ⟨Nat.zero_le _, by simp [BridgeState.init, empty], Nat.zero_le _⟩
    fun _ _ _ hi hok hs => served_step pf hi hok hs
  have hcov := hi.covered
  simp only [BridgeState.pending, hspawn, hidle] at hcov
  have hnil : s.unreadRegions = [] := List.length_eq_zero_iff.mp (by simpa using hcov)
  have hfront : s.unreadFront = s.ethOut.front := by
    simp [BridgeState.unreadFront, BridgeState.held, LinkTask.region, hidle]
  simp [BridgeState.unreadRegions, hfront] at hnil
  rw [contents, hnil.1]
  exact hnil.2

end

def Platform.mute : Platform := ⟨false, .littleEndian false, .small, fun _ => none, fun _ => []⟩

def peer : IpEndpoint := ⟨.ipv4 #v[192, 168, 0, 2], 49152⟩

def receive (buf : List UInt8) : BridgeAct :=
  .ethIteration ⟨.keep, true, buf, false, none⟩

def connect (remote : IpEndpoint) : BridgeAct :=
  .ethIteration ⟨.accept remote, false, [], false, none⟩

def drain : List BridgeAct := [.linkStart, .linkRead .init, .linkFinish]

/-- Three full chunks move the ring's positions to 405. The next chunk still fits behind
them; the one after it does not, wraps, and its spawn finds the slot taken. -/
def wrappedRun : List BridgeAct :=
  connect peer :: (receive (List.replicate 128 1) :: drain) ++
    (receive (List.replicate 128 2) :: drain) ++ (receive (List.replicate 128 3) :: drain) ++
      receive (List.replicate 50 4) :: receive (List.replicate 128 5) :: drain

theorem wrappedRun_stranded :
    ∃ s, Transition.Reachable (bridgeStep .mute) .init s ∧
      ¬ (s.linkSpawned = false → s.task = .idle → s.ethOut.contents = []) := by
  obtain ⟨s, hs, hp⟩ := Transition.exists_reachable_of_run (bridgeStep .mute) .init wrappedRun
    (fun s => !s.linkSpawned && decide (s.task = .idle) && decide (s.ethOut.contents ≠ []))
    (by decide +kernel)
  simp only [Bool.and_eq_true, Bool.not_eq_true', decide_eq_true_eq] at hp
  exact ⟨s, hs, fun h => hp.2 (h hp.1.1 hp.1.2)⟩

/-- The same five chunks, but the fifth arrives when the activation of the fourth has begun:
it wraps behind the unread fourth, and its spawn is not lost. -/
def keptUpRun : List BridgeAct :=
  connect peer :: (receive (List.replicate 128 1) :: drain) ++
    (receive (List.replicate 128 2) :: drain) ++ (receive (List.replicate 128 3) :: drain) ++
      receive (List.replicate 50 4) :: .linkStart :: receive (List.replicate 128 5) ::
        .linkRead .init :: .linkFinish :: drain

theorem keptUpRun_not_stranded :
    ∃ s, Transition.ReachableBy (bridgeStep .mute) (fun s a => keepsUp .mute s a = true) .init s ∧
      s.log.records.length = 5 ∧ s.log.handed.length = 5 ∧ s.ethOut.contents = [] := by
  obtain ⟨s, hs, hp⟩ := Transition.exists_reachableBy_of_run (bridgeStep .mute)
    (keepsUp .mute) .init keptUpRun
    (fun s => !s.linkSpawned && decide (s.task = .idle) &&
      decide (s.log.records.length = 5 ∧ s.log.handed.length = 5))
    (by decide +kernel)
  simp only [Bool.and_eq_true, Bool.not_eq_true', decide_eq_true_eq] at hp
  exact ⟨s, hs, hp.2.1, hp.2.2, kept_up_not_stranded .mute hs hp.1.1 hp.1.2⟩

end VhlHackathon
