import VhlHackathon.Dispatch
import VhlHackathon.Endpoint
import VhlHackathon.BipBuffer
import VhlHackathon.Transition
set_option autoImplicit false

/-!
The two tasks between the TCP socket and the dispatcher and the two byte queues between
them. `ethernet_event` has the higher priority: one turn of its loop is one step, and may
come between any two steps of `link_process`.
-/

namespace VhlHackathon
open BipBuffer

/-- The feature flag, and the parts outside the repository: the serialisers of endpoints and
of replies, the event decoder and the reply encoder. -/
structure Platform where
  protoIpv6 : Bool
  ssmarshal : Ssmarshal protoIpv6
  wire : Wire
  decode : List UInt8 → Option Event
  encode : Reply → List UInt8

section
variable (pf : Platform)

/-- A byte of eth_out with the connection it came from. -/
structure OutCell where
  byte : UInt8
  conn : Nat
  deriving DecidableEq, Repr

/-- A byte of eth_in with the connections of the records its request was read from. -/
structure InCell where
  byte : UInt8
  origin : List Nat
  deriving DecidableEq, Repr

structure Conn where
  id : Nat
  remote : IpEndpoint
  deriving DecidableEq, Repr

structure Record where
  conn : Nat
  endpoint : IpEndpointL
  payload : List UInt8
  deriving DecidableEq, Repr

def Record.cells (r : Record) : List OutCell :=
  (pf.ssmarshal.serialize r.endpoint ++ r.payload).map (OutCell.mk · r.conn)

/-- `link_process`: its body has begun, or it holds a region of eth_out and has dispatcher
passes left, the first of them with or without its write grant. -/
inductive LinkTask where
  | idle
  | started
  | dispatching (region : List OutCell) (passes : List (Option (List UInt8))) (granted : Bool)
  deriving DecidableEq, Repr

/-- What happened so far. Nothing of it is stored by the firmware. -/
structure Log where
  dequeued : List UInt8
  records : List Record
  handed : List (List UInt8)
  replies : List (List UInt8)
  passed : List (Conn × InCell)
  accepted : List UInt8
  deriving DecidableEq, Repr

structure BridgeState where
  ethOut : Ring OutCell 512
  ethIn : Ring InCell 512
  linkSpawned : Bool
  task : LinkTask
  socket : Option Conn
  nextConn : Nat
  panicked : Bool
  log : Log

def BridgeState.init : BridgeState :=
  ⟨.empty, .empty, false, .idle, none, 0, false, ⟨[], [], [], [], [], []⟩⟩

def rxGrantSize (buf : List UInt8) : Nat := buf.length + sizeOfIpEndpointL pf.protoIpv6 + 1

def rxRecord (socket : Option Conn) (buf : List UInt8) : Option Record :=
  socket.bind fun c => (IpEndpointL.tryFrom pf.protoIpv6 c.remote).map (Record.mk c.id · buf)

/-- `buf` is what `recv` dequeues, empty when there is nothing to receive. -/
def handleTcpRx (buf : List UInt8) (s : BridgeState) : BridgeState :=
  if buf = [] then s
  else
    let s := { s with log.dequeued := s.log.dequeued ++ buf }
    match rxRecord pf s.socket buf with
    | none => s -- wrong endpoint address
    | some r =>
      match s.ethOut.grantExact (rxGrantSize pf buf) with
      | none => s -- grant failed
      | some wgr =>
        if (r.cells pf).length ≤ rxGrantSize pf buf then
          { s with
            ethOut := wgr.commit (r.cells pf)
            linkSpawned := true
            log.records := s.log.records ++ [r] }
        else { s with panicked := true }

/-- `sent` is the answer of `send_slice`, `none` its error. -/
def handleTcpTx (canSend : Bool) (sent : Option Nat) (s : BridgeState) : BridgeState :=
  match s.socket with
  | none => s
  | some c =>
    if canSend then
      let rgr := s.ethIn.turn
      let s := { s with
        ethIn := rgr
        log.passed := s.log.passed ++ rgr.front.map (c, ·) }
      match sent with
      | some written =>
        { s with
          ethIn := rgr.release written
          log.accepted := s.log.accepted ++ (rgr.front.take written).map (·.byte) }
      | none => s
    else s

/-- What a poll of the interface does to the socket. A connection is accepted by a socket
that went back to listening in an earlier turn. -/
inductive SocketChange where
  | keep
  | accept (remote : IpEndpoint)
  | close
  deriving DecidableEq, Repr

structure Polled where
  change : SocketChange
  newData : Bool
  recv : List UInt8
  canSend : Bool
  sent : Option Nat
  deriving DecidableEq, Repr

def pollSocket (change : SocketChange) (s : BridgeState) : Option BridgeState :=
  match change with
  | .keep => some s
  | .accept remote =>
    if s.socket = none then
      some { s with socket := some ⟨s.nextConn, remote⟩, nextConn := s.nextConn + 1 }
    else none
  | .close => if s.socket.isSome then some { s with socket := none } else none

def ethIteration (p : Polled) (s : BridgeState) : Option BridgeState :=
  (pollSocket p.change s).map fun s =>
    let s := if p.newData then handleTcpRx pf p.recv s else s
    if s.panicked then s else handleTcpTx p.canSend p.sent s

/-- The passes of the dispatcher over a payload that take a write grant: the bytes each
commits, or nothing. -/
def dispatchPasses (shared : Shared) (payload : List UInt8) : List (Option (List UInt8)) :=
  match pf.decode payload with
  | none => []
  | some ev =>
    (xpiDispatch pf.wire (fun _ => true) ev shared).st.iterations.filterMap fun it =>
      if it.ahead.batchLen = 0 then none else some (it.reply.map pf.encode)

def linkRead (shared : Shared) (s : BridgeState) : BridgeState :=
  let rgr := s.ethOut.turn
  let s := { s with ethOut := rgr }
  if rgr.front = [] then { s with task := .idle }
  else
    let bytes := rgr.front.map (·.byte)
    match pf.ssmarshal.deserialize bytes with
    | none => { s with panicked := true }
    | some (_, endpointSize) =>
      let buf := bytes.drop endpointSize
      { s with
        task := .dispatching rgr.front (dispatchPasses pf shared buf) false
        log.handed := s.log.handed ++ [buf] }

inductive BridgeAct where
  | ethIteration (p : Polled)
  | linkStart
  | linkRead (shared : Shared)
  | replyGrant
  | replyCommit
  | linkFinish
  deriving DecidableEq, Repr

/-- Grants are refused with InternalBbqueueError, which ends the dispatcher's run. -/
def bridgeStep (s : BridgeState) (a : BridgeAct) : Option BridgeState :=
  if s.panicked then none
  else
    match a, s.task with
    | .ethIteration p, _ => ethIteration pf p s
    | .linkStart, .idle =>
      if s.linkSpawned then some { s with linkSpawned := false, task := .started } else none
    | .linkRead shared, .started => some (linkRead pf shared s)
    | .replyGrant, .dispatching region (pass :: passes) false =>
      match s.ethIn.grantExact replyMtu with
      | some wgr => some { s with ethIn := wgr, task := .dispatching region (pass :: passes) true }
      | none => some { s with task := .dispatching region [] false }
    | .replyCommit, .dispatching region (pass :: passes) true =>
      let bytes := pass.getD []
      some { s with
        ethIn := s.ethIn.commit (bytes.map (InCell.mk · (region.map (·.conn))))
        task := .dispatching region passes false
        log.replies := s.log.replies ++ (pass.map (·.take replyMtu)).toList }
    | .linkFinish, .dispatching region [] false =>
      some { s with ethOut := s.ethOut.release region.length, task := .idle }
    | _, _ => none

inductive BridgeStep (s : BridgeState) : BridgeAct → BridgeState → Prop where
  | ethIteration {p : Polled} {s' : BridgeState} (turn : ethIteration pf p s = some s') :
      BridgeStep s (.ethIteration p) s'
  | linkStart (task : s.task = .idle) (spawned : s.linkSpawned = true) :
      BridgeStep s .linkStart { s with linkSpawned := false, task := .started }
  | linkRead (shared : Shared) (task : s.task = .started) :
      BridgeStep s (.linkRead shared) (linkRead pf shared s)
  | replyGrant {region : List OutCell} {passes : List (Option (List UInt8))}
      {wgr : Ring InCell 512} (task : s.task = .dispatching region passes false)
      (grant : s.ethIn.grantExact replyMtu = some wgr) :
      BridgeStep s .replyGrant
        { s with ethIn := wgr, task := .dispatching region passes true }
  | replyRefused {region : List OutCell} {passes : List (Option (List UInt8))}
      (task : s.task = .dispatching region passes false)
      (grant : s.ethIn.grantExact replyMtu = none) :
      BridgeStep s .replyGrant { s with task := .dispatching region [] false }
  | replyCommit {region : List OutCell} {pass : Option (List UInt8)}
      {passes : List (Option (List UInt8))}
      (task : s.task = .dispatching region (pass :: passes) true) :
      BridgeStep s .replyCommit { s with
        ethIn := s.ethIn.commit ((pass.getD []).map (InCell.mk · (region.map (·.conn))))
        task := .dispatching region passes false
        log.replies := s.log.replies ++ (pass.map (·.take replyMtu)).toList }
  | linkFinish {region : List OutCell} (task : s.task = .dispatching region [] false) :
      BridgeStep s .linkFinish
        { s with ethOut := s.ethOut.release region.length, task := .idle }

theorem bridgeStep_cases {s s' : BridgeState} {a : BridgeAct}
    (h : bridgeStep pf s a = some s') : BridgeStep pf s a s' := by
  unfold bridgeStep at h
  split at h
  · cases h
  split at h
  · exact .ethIteration h
  · rename_i ht
    split at h
    · rename_i hs
      cases h
      exact .linkStart ht hs
    · cases h
  · rename_i ht
    cases h
    exact .linkRead _ ht
  · rename_i ht
    split at h
    · rename_i hg
      cases h
      exact .replyGrant ht hg
    · rename_i hg
      cases h
      exact .replyRefused ht hg
  · rename_i ht
    cases h
    exact .replyCommit ht
  · rename_i ht
    cases h
    exact .linkFinish ht
  · cases h

theorem pollSocket_cases {change : SocketChange} {s s' : BridgeState}
    (h : pollSocket change s = some s') :
    ∃ socket nextConn, s' = { s with socket := socket, nextConn := nextConn } ∧
      ∀ c, socket = some c → (change = .keep ∧ s.socket = some c) ∨
        ∃ remote, change = .accept remote := by
  unfold pollSocket at h
  split at h
  · cases h
    exact ⟨_, _, rfl, fun c hc => Or.inl ⟨rfl, hc⟩⟩
  · split at h <;> cases h
    exact ⟨_, _, rfl, fun _ _ => Or.inr ⟨_, rfl⟩⟩
  · split at h <;> cases h
    exact ⟨_, _, rfl, fun _ hc => by cases hc⟩

theorem rxRecord_spec {socket : Option Conn} {buf : List UInt8} {r : Record}
    (h : rxRecord pf socket buf = some r) :
    ∃ c, socket = some c ∧ IpEndpointL.tryFrom pf.protoIpv6 c.remote = some r.endpoint ∧
      r.conn = c.id ∧ r.payload = buf := by
  simp only [rxRecord, Option.bind_eq_some_iff, Option.map_eq_some_iff] at h
  obtain ⟨c, hc, endpoint, he, rfl⟩ := h
  exact ⟨c, hc, he, rfl, rfl⟩

theorem rxRecord_fits {socket : Option Conn} {buf : List UInt8} {r : Record}
    (h : rxRecord pf socket buf = some r) : (r.cells pf).length ≤ rxGrantSize pf buf := by
  obtain ⟨c, -, he, -, rfl⟩ := rxRecord_spec pf h
  have hle := pf.ssmarshal.length_le he
  simp only [Record.cells, rxGrantSize, List.length_map, List.length_append]
  omega

inductive Received (s : BridgeState) (buf : List UInt8) : BridgeState → Prop where
  | nothing (empty : buf = []) : Received s buf s
  | lost (nonempty : buf ≠ []) (refused : (rxRecord pf s.socket buf).bind
        (fun _ => s.ethOut.grantExact (rxGrantSize pf buf)) = none) :
      Received s buf { s with log.dequeued := s.log.dequeued ++ buf }
  | queued {r : Record} {wgr : Ring OutCell 512} (nonempty : buf ≠ [])
      (record : rxRecord pf s.socket buf = some r)
      (grant : s.ethOut.grantExact (rxGrantSize pf buf) = some wgr) :
      Received s buf { s with
        ethOut := wgr.commit (r.cells pf)
        linkSpawned := true
        log.dequeued := s.log.dequeued ++ buf
        log.records := s.log.records ++ [r] }

theorem handleTcpRx_cases (buf : List UInt8) (s : BridgeState) :
    Received pf s buf (handleTcpRx pf buf s) := by
  unfold handleTcpRx
  by_cases hb : buf = []
  · rw [if_pos hb]
    exact .nothing hb
  simp only [hb, if_false]
  cases hr : rxRecord pf s.socket buf with
  | none => exact .lost hb (by rw [hr]; rfl)
  | some r =>
    cases hg : s.ethOut.grantExact (rxGrantSize pf buf) with
    | none => exact .lost hb (by rw [hr]; exact hg)
    | some wgr =>
      simp only [rxRecord_fits pf hr, if_true]
      exact .queued hb hr hg

inductive Transmitted (s : BridgeState) : BridgeState → Prop where
  | nothing : Transmitted s s
  | failed {c : Conn} (socket : s.socket = some c) :
      Transmitted s { s with
        ethIn := s.ethIn.turn
        log.passed := s.log.passed ++ s.ethIn.turn.front.map (c, ·) }
  | sent {c : Conn} (written : Nat) (socket : s.socket = some c) :
      Transmitted s { s with
        ethIn := s.ethIn.turn.release written
        log.passed := s.log.passed ++ s.ethIn.turn.front.map (c, ·)
        log.accepted := s.log.accepted ++ (s.ethIn.turn.front.take written).map (·.byte) }

theorem handleTcpTx_cases (canSend : Bool) (sent : Option Nat) (s : BridgeState) :
    Transmitted s (handleTcpTx canSend sent s) := by
  unfold handleTcpTx
  split
  · exact .nothing
  · rename_i c hs
    cases canSend with
    | false => exact .nothing
    | true =>
      cases sent with
      | none => exact .failed hs
      | some written => exact .sent written hs

def Polled.dequeued (p : Polled) : List UInt8 := if p.newData then p.recv else []

theorem ethIteration_cases {p : Polled} {s s' : BridgeState}
    (h : ethIteration pf p s = some s') :
    ∃ s₁ s₂, pollSocket p.change s = some s₁ ∧ Received pf s₁ p.dequeued s₂ ∧
      Transmitted s₂ s' := by
  simp only [ethIteration, Option.map_eq_some_iff] at h
  obtain ⟨s₁, hs₁, rfl⟩ := h
  have hrx : Received pf s₁ p.dequeued (if p.newData then handleTcpRx pf p.recv s₁ else s₁) := by
    unfold Polled.dequeued
    cases p.newData with
    | false => exact .nothing rfl
    | true => exact handleTcpRx_cases pf p.recv s₁
  generalize (if p.newData then handleTcpRx pf p.recv s₁ else s₁) = s₂ at hrx ⊢
  refine ⟨s₁, s₂, hs₁, hrx, ?_⟩
  split
  · exact .nothing
  · exact handleTcpTx_cases p.canSend p.sent _

inductive LinkReads (s : BridgeState) (shared : Shared) : BridgeState → Prop where
  | nothing (empty : s.ethOut.turn.front = []) :
      LinkReads s shared { s with ethOut := s.ethOut.turn, task := .idle }
  | malformed (nonempty : s.ethOut.turn.front ≠ [])
      (endpoint : pf.ssmarshal.deserialize (s.ethOut.turn.front.map (·.byte)) =
        none) :
      LinkReads s shared { s with ethOut := s.ethOut.turn, panicked := true }
  | handed {remote : IpEndpointL} {n : Nat} (nonempty : s.ethOut.turn.front ≠ [])
      (endpoint : pf.ssmarshal.deserialize (s.ethOut.turn.front.map (·.byte)) =
        some (remote, n)) :
      LinkReads s shared { s with
        ethOut := s.ethOut.turn
        task := .dispatching s.ethOut.turn.front
          (dispatchPasses pf shared ((s.ethOut.turn.front.map (·.byte)).drop n)) false
        log.handed := s.log.handed ++ [(s.ethOut.turn.front.map (·.byte)).drop n] }

theorem linkRead_cases (shared : Shared) (s : BridgeState) :
    LinkReads pf s shared (linkRead pf shared s) := by
  unfold linkRead
  by_cases hf : s.ethOut.turn.front = []
  · simp only [hf, if_true]
    exact .nothing hf
  · simp only [hf, if_false]
    split
    · rename_i hd
      exact .malformed hf hd
    · rename_i remote n hd
      exact .handed hf hd

end

end VhlHackathon
