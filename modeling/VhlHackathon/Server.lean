import VhlHackathon.Bridge
import VhlHackathon.Node
set_option autoImplicit false

/-!
What the bridge is for: a server that takes one request after another, runs it to its end
and appends the answers to one stream. Of the platform it keeps only that the room for
replies may run out in the middle of a request.
-/

namespace VhlHackathon

def firstGrants (n : Nat) (k : Nat) : Bool := decide (k < n)

/-- The passes of a run that take a grant: the reply each commits, or nothing. -/
def passes (its : List Iteration) : List (Option Reply) :=
  its.filterMap fun it => if it.ahead.batchLen = 0 then none else some it.reply

@[simp] theorem passes_nil : passes [] = [] := rfl

theorem passes_cons (it : Iteration) (its : List Iteration) : passes (it :: its) =
    if it.ahead.batchLen = 0 then passes its else it.reply :: passes its := by
  unfold passes
  rw [List.filterMap_cons]
  split <;> split <;> simp_all

section
variable (w : Wire) (ev : Event)

def DispState.idlePass (st : DispState) : DispState :=
  let la := lookahead w ev.kind.discriminant ev.uris st.look
  { st with look := la.pos, iterations := st.iterations ++ [⟨st.look, st.exec, la, [], none⟩] }

theorem xpiIteration_empty (granted : Bool) {st : DispState}
    (h : (lookahead w ev.kind.discriminant ev.uris st.look).batchLen = 0) :
    xpiIteration w ev granted st = (.stop, st.idlePass w ev) := by
  simp [xpiIteration, h, DispState.idlePass]

theorem xpiIteration_refused {st : DispState}
    (h : (lookahead w ev.kind.discriminant ev.uris st.look).batchLen ≠ 0) :
    xpiIteration w ev false st = (.fail (.err .internalBbqueueError), st.idlePass w ev) := by
  simp [xpiIteration, h, DispState.idlePass]

theorem xpiIteration_logs (granted : Bool) (st : DispState) : ∃ it,
    it.ahead = lookahead w ev.kind.discriminant ev.uris st.look ∧
      (xpiIteration w ev granted st).2.iterations = st.iterations ++ [it] := by
  unfold xpiIteration
  dsimp only
  repeat' split
  all_goals exact ⟨_, rfl, rfl⟩

theorem dispatchLoop_logs (grants : Nat → Bool) (fuel k : Nat) (st : DispState) :
    ∃ its, (dispatchLoop w ev grants fuel k st).2.iterations = st.iterations ++ its ∧
      its.length ≤ fuel := by
  induction fuel generalizing k st with
  | zero => exact ⟨[], by simp [dispatchLoop], Nat.le_refl 0⟩
  | succ fuel ih =>
    obtain ⟨it, -, hlog⟩ := xpiIteration_logs w ev (grants k) st
    rcases hr : xpiIteration w ev (grants k) st with ⟨flow, st'⟩
    rw [hr] at hlog
    change st'.iterations = _ at hlog
    cases flow with
    | next =>
      obtain ⟨its, hits, hle⟩ := ih (k + 1) st'
      refine ⟨it :: its, ?_, Nat.succ_le_succ hle⟩
      simp only [dispatchLoop, hr, hits, hlog, List.append_assoc, List.singleton_append]
    | stop => exact ⟨[it], by simpa only [dispatchLoop, hr] using hlog, by simp⟩
    | fail e => exact ⟨[it], by simpa only [dispatchLoop, hr] using hlog, by simp⟩

theorem dispatchLoop_first (fuel k : Nat) {st : DispState} {it : Iteration}
    (logged : (xpiIteration w ev true st).2.iterations = st.iterations ++ [it]) :
    ∃ its, (dispatchLoop w ev (fun _ => true) (fuel + 1) k st).2.iterations =
      st.iterations ++ it :: its := by
  rcases hr : xpiIteration w ev true st with ⟨flow, st'⟩
  rw [hr] at logged
  change st'.iterations = _ at logged
  cases flow with
  | next =>
    obtain ⟨its, hits, -⟩ := dispatchLoop_logs w ev (fun _ => true) fuel (k + 1) st'
    refine ⟨its, ?_⟩
    simp only [dispatchLoop, hr, hits, logged, List.append_assoc, List.singleton_append]
  | stop => exact ⟨[], by simpa only [dispatchLoop, hr] using logged⟩
  | fail e => exact ⟨[], by simpa only [dispatchLoop, hr] using logged⟩

/-- A run whose grants end after `m` more passes commits what the first `m` of these passes
commit when none is refused, and is that same run when there are no more. -/
theorem dispatchLoop_cut (fuel k m : Nat) (st : DispState) :
    ∃ its itsCut,
      (dispatchLoop w ev (fun _ => true) fuel k st).2.iterations = st.iterations ++ its ∧
      (dispatchLoop w ev (firstGrants (k + m)) fuel k st).2.iterations =
        st.iterations ++ itsCut ∧
      itsCut.filterMap (·.reply) = ((passes its).take m).filterMap id ∧
      ((passes its).length ≤ m → dispatchLoop w ev (firstGrants (k + m)) fuel k st =
        dispatchLoop w ev (fun _ => true) fuel k st) := by
  induction fuel generalizing k m st with
  | zero => exact ⟨[], [], by simp [dispatchLoop]⟩
  | succ fuel ih =>
    by_cases hempty : (lookahead w ev.kind.discriminant ev.uris st.look).batchLen = 0
    · simp only [dispatchLoop, xpiIteration_empty w ev _ hempty]
      exact ⟨_, _, rfl, rfl, by simp [passes_cons, hempty], fun _ => trivial⟩
    obtain ⟨it, hahead, hlog⟩ := xpiIteration_logs w ev true st
    have hgrant : it.ahead.batchLen ≠ 0 := by rw [hahead]; exact hempty
    cases m with
    | zero =>
      have hno : firstGrants (k + 0) k = false := by simp [firstGrants]
      have hcut : dispatchLoop w ev (firstGrants (k + 0)) (fuel + 1) k st =
          (.err .internalBbqueueError, st.idlePass w ev) := by
        simp only [dispatchLoop, hno, xpiIteration_refused w ev hempty]
      -- of the other run all that matters is that its first pass takes a grant
      obtain ⟨its, hits⟩ := dispatchLoop_first w ev fuel k hlog
      refine ⟨it :: its, _, hits, by rw [hcut]; rfl, by simp, fun hle => ?_⟩
      rw [passes_cons, if_neg hgrant, List.length_cons] at hle
      omega
    | succ m =>
      have hyes : firstGrants (k + (m + 1)) k = true := by simp [firstGrants]
      have hnext : k + (m + 1) = k + 1 + m := by omega
      rcases hr : xpiIteration w ev true st with ⟨flow, st'⟩
      rw [hr] at hlog
      change st'.iterations = _ at hlog
      cases flow with
      | next =>
        obtain ⟨its, itsCut, h1, h2, h3, h4⟩ := ih (k + 1) m st'
        rw [← hnext] at h2 h4
        refine ⟨it :: its, it :: itsCut, ?_, ?_, ?_, fun hle => ?_⟩
        · simp only [dispatchLoop, hr, h1, hlog, List.append_assoc, List.singleton_append]
        · simp only [dispatchLoop, hyes, hr, h2, hlog, List.append_assoc, List.singleton_append]
        · rw [passes_cons, if_neg hgrant, List.take_succ_cons]
          cases hreply : it.reply <;> simpa [hreply] using h3
        · rw [passes_cons, if_neg hgrant, List.length_cons] at hle
          simp only [dispatchLoop, hyes, hr]
          exact h4 (by omega)
      | stop =>
        simp only [dispatchLoop, hyes, hr]
        refine ⟨[it], [it], hlog, hlog, ?_, fun _ => trivial⟩
        cases hreply : it.reply <;> simp [passes_cons, hgrant, hreply]
      | fail e =>
        simp only [dispatchLoop, hyes, hr]
        refine ⟨[it], [it], hlog, hlog, ?_, fun _ => trivial⟩
        cases hreply : it.reply <;> simp [passes_cons, hgrant, hreply]

theorem xpiDispatch_cut (n : Nat) (s : Shared) :
    (xpiDispatch w (firstGrants n) ev s).st.committed =
        ((passes (xpiDispatch w (fun _ => true) ev s).st.iterations).take n).filterMap id ∧
      ((passes (xpiDispatch w (fun _ => true) ev s).st.iterations).length ≤ n →
        xpiDispatch w (firstGrants n) ev s = xpiDispatch w (fun _ => true) ev s) := by
  obtain ⟨its, itsCut, h1, h2, h3, h4⟩ := dispatchLoop_cut w ev maxReplyBatches 0 n
    ⟨0, 0, s, false, []⟩
  rw [Nat.zero_add] at h2 h4
  simp only [List.nil_append] at h1 h2
  have hfull : (xpiDispatch w (fun _ => true) ev s).st.iterations = its := h1
  have hcut : (xpiDispatch w (firstGrants n) ev s).st.iterations = itsCut := h2
  rw [hfull]
  refine ⟨by rw [DispState.committed, hcut, h3], fun hle => ?_⟩
  simp only [xpiDispatch, h4 hle]

theorem xpiDispatch_ungranted (s : Shared) :
    (xpiDispatch w (firstGrants 0) ev s).st.shared = s := by
  change (dispatchLoop w ev (firstGrants 0) (7 + 1) 0 ⟨0, 0, s, false, []⟩).2.shared = s
  have hno : firstGrants 0 0 = false := rfl
  by_cases hempty : (lookahead w ev.kind.discriminant ev.uris 0).batchLen = 0
  · rw [dispatchLoop, hno, xpiIteration_empty w ev _ hempty]
    rfl
  · rw [dispatchLoop, hno, xpiIteration_refused w ev hempty]
    rfl

theorem passes_le (s : Shared) :
    (passes (xpiDispatch w (fun _ => true) ev s).st.iterations).length ≤ maxReplyBatches := by
  obtain ⟨its, hits, hle⟩ := dispatchLoop_logs w ev (fun _ => true) maxReplyBatches 0
    ⟨0, 0, s, false, []⟩
  have hall : (xpiDispatch w (fun _ => true) ev s).st.iterations = its := hits
  rw [hall]
  exact (List.length_filterMap_le _ _).trans hle

theorem xpiDispatch_enough (s : Shared) :
    xpiDispatch w (firstGrants maxReplyBatches) ev s = xpiDispatch w (fun _ => true) ev s :=
  (xpiDispatch_cut w ev maxReplyBatches s).2 (passes_le w ev s)

end

/-- The character `display_task` draws: `(digit + '0' as u8) as char`, wrapping like a build
without overflow checks. -/
def digitChar (digit : UInt8) : Char := Char.ofNat (digit + 48).toNat

inductive SideTask where
  | setDigit | asyncTask | displayTask (drawn : Bool)
  deriving DecidableEq, Repr

def SideTask.act : SideTask → NodeAct
  | .setDigit => .setDigit
  | .asyncTask => .asyncTask
  | .displayTask drawn => .displayTask drawn

def SideTask.draws (t : SideTask) (digit : UInt8) (shown : Option Char) : Option Char :=
  match t with
  | .displayTask _ => some (digitChar digit)
  | .setDigit | .asyncTask => shown

/-- The node with what its display shows, the requests it took and the answers it gave. -/
structure Server where
  node : NodeState
  shown : Option Char
  requests : List (List UInt8)
  replies : List (List UInt8)

def Server.init : Server := ⟨.init, none, [], []⟩

section
variable (pf : Platform)

/-- One request from its bytes to its answers, with room for the passes up to `n`. What does
not decode is dropped. -/
def Server.serve (t : Server) (payload : List UInt8) (n : Nat) : Server :=
  match pf.decode payload with
  | none => { t with requests := t.requests ++ [payload] }
  | some ev => { t with
      node := t.node.ran pf.wire (firstGrants n) ev
      requests := t.requests ++ [payload]
      replies := t.replies ++
        (xpiDispatch pf.wire (firstGrants n) ev t.node.shared).st.committed.map
          fun r => (pf.encode r).take replyMtu }

inductive ServerAct where
  | serve (payload : List UInt8) (n : Nat)
  | task (t : SideTask)

def serverStep (t : Server) : ServerAct → Option Server
  | .serve payload n => some (t.serve pf payload n)
  | .task task =>
    (nodeStep pf.wire t.node task.act).map fun node =>
      { t with node := node, shown := task.draws t.node.shared.digit t.shown }

@[simp] theorem serve_requests (t : Server) (payload : List UInt8) (n : Nat) :
    (t.serve pf payload n).requests = t.requests ++ [payload] := by
  unfold Server.serve
  split <;> rfl

@[simp] theorem serve_shown (t : Server) (payload : List UInt8) (n : Nat) :
    (t.serve pf payload n).shown = t.shown := by
  unfold Server.serve
  split <;> rfl

theorem dispatchPasses_eq {payload : List UInt8} {ev : Event} (h : pf.decode payload = some ev)
    (s : Shared) : dispatchPasses pf s payload =
      (passes (xpiDispatch pf.wire (fun _ => true) ev s).st.iterations).map
        (Option.map pf.encode) := by
  unfold dispatchPasses passes
  rw [h, List.map_filterMap]
  simp only [apply_ite (Option.map (Option.map pf.encode)), Option.map_none, Option.map_some]

/-- The replies of the first `n` passes over a buffer, each cut to its grant. -/
def firstReplies (shared : Shared) (payload : List UInt8) (n : Nat) : List (List UInt8) :=
  (((dispatchPasses pf shared payload).take n).filterMap id).map (·.take replyMtu)

theorem firstReplies_succ {shared : Shared} {payload : List UInt8} {ran : Nat}
    {pass : Option (List UInt8)} {next : List (Option (List UInt8))}
    (h : pass :: next = (dispatchPasses pf shared payload).drop ran) :
    next = (dispatchPasses pf shared payload).drop (ran + 1) ∧
      firstReplies pf shared payload (ran + 1) =
        firstReplies pf shared payload ran ++ (pass.map (·.take replyMtu)).toList := by
  constructor
  · rw [← List.drop_drop, ← h]
    rfl
  · have hpass : (dispatchPasses pf shared payload)[ran]? = some pass := by
      rw [← List.head?_drop, ← h]
      rfl
    unfold firstReplies
    rw [List.take_add_one, hpass, List.filterMap_append, List.map_append]
    cases pass <;> rfl

theorem serve_replies (t : Server) (payload : List UInt8) (n : Nat) :
    (t.serve pf payload n).replies = t.replies ++ firstReplies pf t.node.shared payload n := by
  unfold Server.serve firstReplies
  split
  · rename_i hd
    simp [dispatchPasses, hd]
  · rename_i ev hd
    rw [dispatchPasses_eq pf hd, (xpiDispatch_cut pf.wire ev n t.node.shared).1]
    simp only [← List.map_take, List.filterMap_map, List.map_filterMap]
    congr 1
    apply List.filterMap_congr
    intro pass _
    cases pass <;> rfl

theorem serve_ungranted (t : Server) (payload : List UInt8) :
    (t.serve pf payload 0).node.shared = t.node.shared ∧
      (t.serve pf payload 0).replies = t.replies := by
  refine ⟨?_, by rw [serve_replies]; simp [firstReplies]⟩
  unfold Server.serve
  split
  · rfl
  · exact xpiDispatch_ungranted pf.wire _ _

theorem serve_complete (t : Server) (payload : List UInt8) {n : Nat}
    (h : (dispatchPasses pf t.node.shared payload).length ≤ n) :
    t.serve pf payload n = t.serve pf payload maxReplyBatches := by
  unfold Server.serve
  split
  · rfl
  · rename_i ev hd
    rw [dispatchPasses_eq pf hd, List.length_map] at h
    have hn := (xpiDispatch_cut pf.wire ev n t.node.shared).2 h
    simp only [NodeState.ran, hn, xpiDispatch_enough]

theorem dispatchPasses_le (s : Shared) (payload : List UInt8) :
    (dispatchPasses pf s payload).length ≤ maxReplyBatches := by
  cases hd : pf.decode payload with
  | none => simp [dispatchPasses, hd]
  | some ev =>
    rw [dispatchPasses_eq pf hd, List.length_map]
    exact passes_le pf.wire ev s

end

end VhlHackathon
