import VhlHackathon.Bridge
set_option autoImplicit false

/-!
The queue from `handle_tcp_rx` to `link_process`: which records each activation finds in
the region it reads, and whether one is left for every region.
-/

namespace VhlHackathon
open BipBuffer BipBuffer.Ring

def LinkTask.region : LinkTask → Option (List OutCell)
  | .dispatching region _ _ => some region
  | .idle | .started => none

def BridgeState.held (s : BridgeState) : Nat := (s.task.region.getD []).length

def BridgeState.unreadFront (s : BridgeState) : List OutCell := s.ethOut.front.drop s.held

def BridgeState.unreadBack (s : BridgeState) : List OutCell := s.ethOut.back.getD []

/-- What the next reads return, one region each. -/
def BridgeState.unreadRegions (s : BridgeState) : List (List OutCell) :=
  [s.unreadFront, s.unreadBack].filter (· ≠ [])

/-- The activations of `link_process` that are still to read. -/
def BridgeState.pending (s : BridgeState) : Nat :=
  (if s.linkSpawned then 1 else 0) + if s.task = .started then 1 else 0

def BridgeState.unreadAt (s : BridgeState) : Place → List OutCell
  | .front => s.unreadFront
  | .back => s.unreadBack
  | .wrap => []

section
variable (pf : Platform)

def commits (s : BridgeState) (p : Polled) : Option (Record × Place) :=
  if p.newData = true ∧ p.recv ≠ [] then
    (rxRecord pf ((pollSocket p.change s).bind (·.socket)) p.recv).bind fun r =>
      (s.ethOut.place (rxGrantSize pf p.recv)).map (r, ·)
  else none

theorem cells_ne_nil (r : Record) : r.cells pf ≠ [] := by
  simp [Record.cells, pf.ssmarshal.serialize_ne_nil]

theorem commits_iff {p : Polled} {s : BridgeState} (r : Record) (place : Place) :
    commits pf s p = some (r, place) ↔ p.dequeued ≠ [] ∧
      rxRecord pf ((pollSocket p.change s).bind (·.socket)) p.dequeued = some r ∧
        s.ethOut.place (rxGrantSize pf p.dequeued) = some place := by
  unfold commits Polled.dequeued
  cases p.newData with
  | false => simp
  | true =>
    by_cases hb : p.recv = []
    · simp [hb]
    · simp [hb, Option.bind_eq_some_iff, Option.map_eq_some_iff]

theorem Received.out {s s' : BridgeState} {buf : List UInt8} (h : Received pf s buf s') :
    s'.task = s.task ∧ s'.log.handed = s.log.handed ∧
      ((s'.ethOut = s.ethOut ∧ s'.linkSpawned = s.linkSpawned ∧
          s'.log.records = s.log.records) ∨
        ∃ r p, buf ≠ [] ∧ rxRecord pf s.socket buf = some r ∧
          s.ethOut.place (rxGrantSize pf buf) = some p ∧ s'.linkSpawned = true ∧
          s'.log.records = s.log.records ++ [r] ∧
          Appended p s.ethOut (r.cells pf) s'.ethOut) := by
  cases h with
  | nothing empty => exact ⟨rfl, rfl, Or.inl ⟨rfl, rfl, rfl⟩⟩
  | lost nonempty refused => exact ⟨rfl, rfl, Or.inl ⟨rfl, rfl, rfl⟩⟩
  | @queued r wgr nonempty record grant =>
    obtain ⟨p, hp, happ⟩ := append_spec grant (rxRecord_fits pf record)
    exact ⟨rfl, rfl, Or.inr ⟨r, p, nonempty, record, hp, rfl, rfl, happ⟩⟩

theorem ethIteration_out {p : Polled} {s s' : BridgeState} (h : ethIteration pf p s = some s') :
    s'.task = s.task ∧ s'.log.handed = s.log.handed ∧
      ((s'.ethOut = s.ethOut ∧ s'.linkSpawned = s.linkSpawned ∧
          s'.log.records = s.log.records) ∨
        ∃ r place, commits pf s p = some (r, place) ∧ s'.linkSpawned = true ∧
          s'.log.records = s.log.records ++ [r] ∧
          Appended place s.ethOut (r.cells pf) s'.ethOut) := by
  obtain ⟨s₁, s₂, hs₁, hrx, htx⟩ := ethIteration_cases pf h
  have hout := hrx.out pf
  obtain ⟨socket, nextConn, rfl, -⟩ := pollSocket_cases hs₁
  have hturn : s₂.task = s.task ∧ s₂.log.handed = s.log.handed ∧
      ((s₂.ethOut = s.ethOut ∧ s₂.linkSpawned = s.linkSpawned ∧
          s₂.log.records = s.log.records) ∨
        ∃ r place, commits pf s p = some (r, place) ∧ s₂.linkSpawned = true ∧
          s₂.log.records = s.log.records ++ [r] ∧
          Appended place s.ethOut (r.cells pf) s₂.ethOut) := by
    refine ⟨hout.1, hout.2.1, hout.2.2.imp_right ?_⟩
    rintro ⟨r, place, hne, hr, hp, hspawn, hrec, happ⟩
    exact ⟨r, place, (commits_iff pf r place).mpr ⟨hne, by rw [hs₁]; exact hr, hp⟩, hspawn, hrec,
      happ⟩
  -- what is sent leaves this side as it is
  cases htx with
  | nothing => exact hturn
  | failed socket => exact hturn
  | sent written socket => exact hturn

/-- A commit makes a new region exactly when nothing unread is in front of it. -/
theorem unreadRegions_appended {s s' : BridgeState} {place : Place} {items : List OutCell}
    (happ : Appended place s.ethOut items s'.ethOut) (hheld : s.held ≤ s.ethOut.front.length)
    (htask : s'.task = s.task) (hne : items ≠ []) :
    s'.held ≤ s'.ethOut.front.length ∧
      (s.unreadAt place = [] → s'.unreadRegions = s.unreadRegions ++ [items]) ∧
      (s.unreadAt place ≠ [] → s'.unreadRegions.length = s.unreadRegions.length) := by
  have hh : s'.held = s.held := by simp [BridgeState.held, htask]
  unfold BridgeState.unreadAt BridgeState.unreadRegions BridgeState.unreadFront
    BridgeState.unreadBack
  rw [hh]
  cases place with
  | front =>
    obtain ⟨hb, hf, hb'⟩ := happ
    rw [hf, hb, hb', List.drop_append_of_le_length hheld]
    refine ⟨by rw [List.length_append]; omega, fun h => ?_, fun h => ?_⟩
    · simp [h, hne]
    · simp [h]
  | back =>
    obtain ⟨b, hb, hf, hb'⟩ := happ
    rw [hf, hb, hb']
    refine ⟨hheld, fun h => ?_, fun h => ?_⟩
    · simp only [Option.getD_some] at h
      subst h
      by_cases hd : s.ethOut.front.drop s.held = [] <;> simp [hd, hne]
    · simp only [Option.getD_some] at h
      by_cases hd : s.ethOut.front.drop s.held = [] <;> simp [hd, h]
  | wrap =>
    obtain ⟨hb, hf, hb'⟩ := happ
    rw [hf, hb, hb']
    refine ⟨hheld, fun _ => ?_, fun h => absurd rfl h⟩
    by_cases hd : s.ethOut.front.drop s.held = [] <;> simp [hd, hne]

theorem regions_congr {s s' : BridgeState} (hq : s'.ethOut = s.ethOut)
    (hr : s'.task.region = s.task.region) :
    s'.held = s.held ∧ s'.unreadRegions = s.unreadRegions := by
  simp [BridgeState.unreadRegions, BridgeState.unreadFront, BridgeState.unreadBack,
    BridgeState.held, hq, hr]

theorem turn_regions {s : BridgeState} (hheld : s.held = 0) :
    s.unreadRegions = [s.ethOut.turn.front, s.ethOut.turn.back.getD []].filter (· ≠ []) ∧
      (s.ethOut.turn.front = [] → s.unreadRegions = []) := by
  have hregions : s.unreadRegions =
      [s.ethOut.front, s.ethOut.back.getD []].filter (· ≠ []) := by
    simp [BridgeState.unreadRegions, BridgeState.unreadFront, BridgeState.unreadBack, hheld]
  refine ⟨?_, fun h => ?_⟩
  · rw [hregions]
    rcases turn_spec s.ethOut with ⟨h, -⟩ | ⟨b, hf, hb, -, hf', hb', -⟩
    · rw [h]
    · by_cases hn : b = [] <;> simp [hf, hb, hf', hb', hn]
  · have hc := (turn_front_eq_nil_iff s.ethOut).mp h
    simp only [contents, List.append_eq_nil_iff] at hc
    rw [hregions]
    simp [hc.1, hc.2]

theorem linkRead_out {s : BridgeState} (hs : s.task = .started) (shared : Shared) :
    let s' := linkRead pf shared s
    s'.linkSpawned = s.linkSpawned ∧ s'.log.records = s.log.records ∧
      s'.ethOut = s.ethOut.turn ∧
      ((s.unreadRegions = [] ∧ s'.unreadRegions = [] ∧ s'.task = .idle ∧
          s'.log.handed = s.log.handed) ∨
        ∃ region rest, s.unreadRegions = region :: rest ∧ region = s'.ethOut.front ∧
          match pf.ssmarshal.deserialize (region.map (·.byte)) with
          | none => s'.task = .started ∧ s'.unreadRegions = s.unreadRegions
          | some (_, n) => s'.unreadRegions = rest ∧ s'.task.region = some region ∧
              s'.task ≠ .started ∧
              s'.log.handed = s.log.handed ++ [(region.map (·.byte)).drop n]) := by
  have hheld : s.held = 0 := by simp [BridgeState.held, LinkTask.region, hs]
  obtain ⟨hregions, hnil⟩ := turn_regions hheld
  have hread := linkRead_cases pf shared s
  generalize linkRead pf shared s = s' at hread ⊢
  have hsplit : s.ethOut.turn.front ≠ [] → s.unreadRegions =
      s.ethOut.turn.front :: [s.ethOut.turn.back.getD []].filter (· ≠ []) := by
    intro hf
    rw [hregions, List.filter_cons, if_pos (by simpa using hf)]
  cases hread with
  | nothing empty =>
    have hr := hnil empty
    rw [hr] at hregions
    refine ⟨rfl, rfl, rfl, Or.inl ⟨hr, ?_, rfl, rfl⟩⟩
    simpa [BridgeState.unreadRegions, BridgeState.unreadFront, BridgeState.unreadBack,
      BridgeState.held, LinkTask.region] using hregions.symm
  | malformed nonempty endpoint =>
    refine ⟨rfl, rfl, rfl, Or.inr ⟨_, _, hsplit nonempty, rfl, ?_⟩⟩
    simp only [endpoint]
    refine ⟨hs, ?_⟩
    rw [hregions]
    simp [BridgeState.unreadRegions, BridgeState.unreadFront, BridgeState.unreadBack,
      BridgeState.held, LinkTask.region, hs]
  | handed nonempty endpoint =>
    refine ⟨rfl, rfl, rfl, Or.inr ⟨_, _, hsplit nonempty, rfl, ?_⟩⟩
    simp only [endpoint]
    refine ⟨?_, rfl, by simp, trivial⟩
    simp [BridgeState.unreadRegions, BridgeState.unreadFront, BridgeState.unreadBack,
      BridgeState.held, LinkTask.region]

inductive OutStep (s s' : BridgeState) : BridgeAct → Prop where
  | quiet {a : BridgeAct} (queue : s'.ethOut = s.ethOut)
      (spawned : s'.linkSpawned = s.linkSpawned) (records : s'.log.records = s.log.records)
      (handed : s'.log.handed = s.log.handed) (region : s'.task.region = s.task.region)
      (started : s'.task = .started ↔ s.task = .started) : OutStep s s' a
  | commit {p : Polled} (r : Record) (place : Place)
      (committed : commits pf s p = some (r, place)) (spawned : s'.linkSpawned = true)
      (records : s'.log.records = s.log.records ++ [r])
      (handed : s'.log.handed = s.log.handed) (task : s'.task = s.task)
      (queue : Appended place s.ethOut (r.cells pf) s'.ethOut) : OutStep s s' (.ethIteration p)
  | start (spawned : s.linkSpawned = true) (task : s.task = .idle)
      (after : s' = { s with linkSpawned := false, task := .started }) : OutStep s s' .linkStart
  | read {shared : Shared} (task : s.task = .started) (after : s' = linkRead pf shared s) :
      OutStep s s' (.linkRead shared)
  | finish {region : List OutCell} (task : s.task = .dispatching region [] false)
      (after : s' = { s with ethOut := s.ethOut.release region.length, task := .idle }) :
      OutStep s s' .linkFinish

theorem bridgeStep_out {s s' : BridgeState} {a : BridgeAct}
    (h : bridgeStep pf s a = some s') : OutStep pf s s' a := by
  cases bridgeStep_cases pf h with
  | ethIteration turn =>
    obtain ⟨ht, hh, ⟨hq, hs, hr⟩ | ⟨r, place, hc, hs, hr, happ⟩⟩ := ethIteration_out pf turn
    · exact .quiet hq hs hr hh (by rw [ht]) (by rw [ht])
    · exact .commit r place hc hs hr hh ht happ
  | linkStart task spawned => exact .start spawned task rfl
  | linkRead shared task => exact .read task rfl
  | replyGrant task grant =>
    exact .quiet rfl rfl rfl rfl (by simp [LinkTask.region, task]) (by simp [task])
  | replyRefused task grant =>
    exact .quiet rfl rfl rfl rfl (by simp [LinkTask.region, task]) (by simp [task])
  | replyCommit task =>
    exact .quiet rfl rfl rfl rfl (by simp [LinkTask.region, task]) (by simp [task])
  | linkFinish task => exact .finish task rfl

end

end VhlHackathon
