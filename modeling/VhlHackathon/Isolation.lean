import VhlHackathon.Stranding
set_option autoImplicit false

/-!
Who gets a reply. The requester's endpoint travels with the request through eth_out, but
eth_in is a queue of plain bytes that outlives connections, so a byte goes to whoever is
connected when it is sent.
-/

namespace VhlHackathon
open BipBuffer BipBuffer.Ring

/-- A reply byte belongs to a connection: its request was read from records of it alone. -/
def InCell.belongs (cell : InCell) (c : Conn) : Prop :=
  cell.origin ≠ [] ∧ ∀ o ∈ cell.origin, o = c.id

instance (cell : InCell) (c : Conn) : Decidable (cell.belongs c) :=
  inferInstanceAs (Decidable (_ ∧ _))

def Isolated (s : BridgeState) : Prop := ∀ x ∈ s.log.passed, x.2.belongs x.1

instance (s : BridgeState) : Decidable (Isolated s) :=
  inferInstanceAs (Decidable (∀ x ∈ s.log.passed, _))

/-- A connection is accepted only while eth_in is empty, and while one is up only replies
to records received on it are committed. -/
def isolates (s : BridgeState) : BridgeAct → Bool
  | .ethIteration p =>
    match p.change with
    | .accept _ => decide (s.ethIn.contents = [])
    | .keep | .close => true
  | .replyCommit =>
    match s.socket, s.task with
    | some c, .dispatching region (some _ :: _) _ => region.all fun cell => cell.conn == c.id
    | _, _ => true
  | _ => true

section
variable (pf : Platform)

theorem Received.ethIn {s s' : BridgeState} {buf : List UInt8} (h : Received pf s buf s') :
    s'.ethIn = s.ethIn ∧ s'.socket = s.socket ∧ s'.log.passed = s.log.passed ∧
      s'.log.accepted = s.log.accepted ∧ s'.log.replies = s.log.replies := by
  cases h <;> exact ⟨rfl, rfl, rfl, rfl, rfl⟩

theorem Transmitted.ethIn {s s' : BridgeState} (h : Transmitted s s') :
    s'.socket = s.socket ∧ (∀ cell ∈ s'.ethIn.contents, cell ∈ s.ethIn.contents) ∧
      ∀ x ∈ s'.log.passed, x ∈ s.log.passed ∨ s.socket = some x.1 ∧ x.2 ∈ s.ethIn.contents := by
  have hturn : ∀ cell ∈ s.ethIn.turn.contents, cell ∈ s.ethIn.contents := by
    intro cell hc
    rwa [contents_turn] at hc
  have hpassed : ∀ c, s.socket = some c → ∀ x ∈ s.log.passed ++ s.ethIn.turn.front.map (c, ·),
      x ∈ s.log.passed ∨ s.socket = some x.1 ∧ x.2 ∈ s.ethIn.contents := by
    intro c hs x hx
    refine (List.mem_append.mp hx).imp_right fun hx => ?_
    obtain ⟨cell, hc, rfl⟩ := List.mem_map.mp hx
    exact ⟨hs, hturn cell (List.mem_append_left _ hc)⟩
  cases h with
  | nothing => exact ⟨rfl, fun _ h => h, fun _ h => Or.inl h⟩
  | failed socket => exact ⟨rfl, hturn, hpassed _ socket⟩
  | sent written socket =>
    refine ⟨rfl, fun cell hc => hturn cell ?_, hpassed _ socket⟩
    rw [← take_append_contents_release s.ethIn.turn written]
    exact List.mem_append_right _ hc

structure IsolationInv (s : BridgeState) : Prop where
  isolated : Isolated s
  queued : ∀ c, s.socket = some c → ∀ cell ∈ s.ethIn.contents, cell.belongs c
  region : ∀ region, s.task.region = some region → region ≠ []

theorem ethIteration_isolated {p : Polled} {s s' : BridgeState} (hi : IsolationInv s)
    (hok : isolates s (.ethIteration p) = true) (h : ethIteration pf p s = some s') :
    IsolationInv s' := by
  have htask := (ethIteration_out pf h).1
  obtain ⟨s₁, s₂, hs₁, hrx, htx⟩ := ethIteration_cases pf h
  obtain ⟨socket, nextConn, rfl, hsocket⟩ := pollSocket_cases hs₁
  have hqueued : ∀ c, socket = some c → ∀ cell ∈ s.ethIn.contents, cell.belongs c := by
    intro c hc cell hcell
    rcases hsocket c hc with ⟨-, hc'⟩ | ⟨remote, hacc⟩
    · exact hi.queued c hc' cell hcell
    · simp only [isolates, hacc, decide_eq_true_eq] at hok
      rw [hok] at hcell
      cases hcell
  obtain ⟨hin, hconn, hpassed, -, -⟩ := hrx.ethIn pf
  obtain ⟨t1, t2, t3⟩ := htx.ethIn
  rw [hin] at t2 t3
  rw [hconn] at t1 t3
  refine ⟨fun x hx => ?_, fun c hc cell hcell => ?_, by rw [htask]; exact hi.region⟩
  · rcases t3 x hx with hx | ⟨hc, hcell⟩
    · rw [hpassed] at hx; exact hi.isolated x hx
    · exact hqueued x.1 hc x.2 hcell
  · rw [t1] at hc
    exact hqueued c hc cell (t2 cell hcell)

theorem isolation_step {s s' : BridgeState} {a : BridgeAct} (hi : IsolationInv s)
    (hok : isolates s a = true) (h : bridgeStep pf s a = some s') : IsolationInv s' := by
  obtain ⟨hiso, hqueued, hregion⟩ := hi
  cases bridgeStep_cases pf h with
  | ethIteration turn => exact ethIteration_isolated pf ⟨hiso, hqueued, hregion⟩ hok turn
  | linkStart task spawned => exact ⟨hiso, hqueued, by simp [LinkTask.region]⟩
  | linkRead shared task =>
    have hread := linkRead_cases pf shared s
    generalize linkRead pf shared s = s' at hread ⊢
    cases hread with
    | nothing empty => exact ⟨hiso, hqueued, by simp [LinkTask.region]⟩
    | malformed nonempty endpoint => exact ⟨hiso, hqueued, hregion⟩
    | handed nonempty endpoint =>
      refine ⟨hiso, hqueued, fun region hr => ?_⟩
      cases hr
      exact nonempty
  | replyGrant task grant =>
    rw [task] at hregion
    refine ⟨hiso, fun c hc cell hcell => ?_, hregion⟩
    change cell ∈ Ring.contents _ at hcell
    rw [contents_grantExact grant] at hcell
    exact hqueued c hc cell hcell
  | replyRefused task grant =>
    rw [task] at hregion
    exact ⟨hiso, hqueued, hregion⟩
  | @replyCommit region pass passes task =>
    rw [task] at hregion
    refine ⟨hiso, fun c hc cell hcell => ?_, hregion⟩
    rcases mem_contents_commit hcell with hcell | hcell
    · exact hqueued c hc cell hcell
    -- a byte of the reply: every record its request was read from is the connection's
    obtain ⟨byte, hbyte, rfl⟩ := List.mem_map.mp hcell
    cases pass with
    | none => cases hbyte
    | some bytes =>
      have hs : s.socket = some c := hc
      simp only [isolates, hs, task, List.all_eq_true, beq_iff_eq] at hok
      refine ⟨by simpa using hregion region rfl, fun o ho => ?_⟩
      obtain ⟨out, hout, rfl⟩ := List.mem_map.mp ho
      exact hok out hout
  | linkFinish task => exact ⟨hiso, hqueued, by simp [LinkTask.region]⟩

theorem isolated_replies {s : BridgeState}
    (h : Transition.ReachableBy (bridgeStep pf) (fun s a => isolates s a = true) .init s) :
    Isolated s :=
  (h.invariant (I := IsolationInv) (bridgeStep pf)
    ⟨by simp [Isolated, BridgeState.init], by simp [BridgeState.init],
      by simp [BridgeState.init, LinkTask.region]⟩
    fun _ _ _ hi hok hs => isolation_step pf hi hok hs).isolated

end

/-- A platform on which every payload is a read of /digit, and replies have their length. -/
def Platform.reader : Platform where
  protoIpv6 := false
  ssmarshal := .littleEndian false
  wire := .small
  decode _ := some ⟨3, 3, 0, ⟨[[1]], 3⟩, .read⟩
  encode r := List.replicate ((r.nibbles + 1) / 2) 0

def disconnect : BridgeAct := .ethIteration ⟨.close, false, [], false, none⟩

def transmit (n : Nat) : BridgeAct := .ethIteration ⟨.keep, false, [], true, some n⟩

def serve : List BridgeAct :=
  [.linkStart, .linkRead .init, .replyGrant, .replyCommit, .linkFinish]

def reconnectRun : List BridgeAct :=
  connect peer :: receive [1] :: serve ++
    [disconnect, connect ⟨.ipv4 #v[192, 168, 0, 3], 49153⟩, transmit 64]

theorem reconnectRun_leaks :
    ∃ s, Transition.Reachable (bridgeStep .reader) .init s ∧ ¬ Isolated s := by
  obtain ⟨s, hs, hp⟩ := Transition.exists_reachable_of_run (bridgeStep .reader) .init
    reconnectRun (fun s => decide ¬ Isolated s) (by decide +kernel)
  exact ⟨s, hs, of_decide_eq_true hp⟩

theorem oneConnection_isolated :
    ∃ s, Transition.ReachableBy (bridgeStep .reader) (fun s a => isolates s a = true) .init s ∧
      s.log.passed ≠ [] ∧ Isolated s := by
  obtain ⟨s, hs, hp⟩ := Transition.exists_reachableBy_of_run (bridgeStep .reader)
    isolates .init (connect peer :: receive [1] :: serve ++ [transmit 64])
    (fun s => decide (s.log.passed ≠ [])) (by decide +kernel)
  exact ⟨s, hs, of_decide_eq_true hp, isolated_replies .reader hs⟩

end VhlHackathon
