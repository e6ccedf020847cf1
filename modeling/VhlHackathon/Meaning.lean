import VhlHackathon.Interpreter
import VhlHackathon.Display
set_option autoImplicit false

/-!
The bridge with nothing left of queues, grants, batches and budgets: a request is its URIs,
interpreted one after another, and its answer is their results.
-/

namespace VhlHackathon

structure Meaning where
  shared : Shared
  shown : Option Char
  answered : List (Event × List (Except XpiError NibbleBuf))

def Meaning.init : Meaning := ⟨NodeState.init.shared, none, []⟩

inductive MeaningAct where
  | request (ev : Event)
  | task (t : SideTask)

/-- Replies to the sender, under the id of the request, with these results in this order. -/
structure AnsweredBy (x : Event × List (Except XpiError NibbleBuf)) (replies : List Reply) :
    Prop where
  addressed : ∀ r ∈ replies, r.destination = x.1.source ∧ r.requestId = x.1.requestId
  results : (replies.flatMap (·.results)).map (·.result) = x.2

section
variable (w : Wire) (ev : Event)

/-- The kinds the dispatcher does not serve are not answered. -/
def interpretEvent (s : Shared) : List (Except XpiError NibbleBuf) × Shared :=
  match ev.kind with
  | .other => ([], s)
  | .call _ | .write _ | .read => interpret w ev.kind 0 ev.uris s

def meaningStep (m : Meaning) : MeaningAct → Option Meaning
  | .request ev =>
    some { m with
      shared := (interpretEvent w ev m.shared).2
      answered := m.answered ++ [(ev, (interpretEvent w ev m.shared).1)] }
  | .task task =>
    (nodeStep w ⟨m.shared, [], []⟩ task.act).map fun node =>
      { m with shared := node.shared, shown := task.draws m.shared.digit m.shown }

/-- The arguments are aligned and no asynchronous call lacks its own, the batches reach every
URI, and the reply of each fits its grant. -/
structure Regular : Prop where
  aligned : alignedRun w ev fun _ => true
  given : ∀ pos uri, ev.uris[pos]? = some uri → hintOf w ev uri = .deferred →
    pos < ev.kind.args.length
  reaches : (requestBatches w ev).flatMap (·.items) = ev.uris
  fits : ∀ sg ∈ requestBatches w ev, replyLength w ev sg ≤ 2 * replyMtu

theorem perform_all (k : Nat) {bs : List Batch} (fits : ∀ b ∈ bs, b.fits w ev) :
    (perform w ev (fun _ => true) k bs).status = .ok := by
  induction bs generalizing k with
  | nil => rfl
  | cons b rest ih =>
    obtain ⟨first, others⟩ := List.forall_mem_cons.mp fits
    simp only [perform, first, Bool.true_eq_false, if_false, if_true]
    exact ih (k + 1) others

theorem Regular.served {w : Wire} {ev : Event} (regular : Regular w ev) (hk : ev.kind ≠ .other)
    (s : Shared) : (xpiDispatch w (fun _ => true) ev s).status = .ok ∧
      ev.uris.take (xpiDispatch w (fun _ => true) ev s).st.steps.length = ev.uris := by
  obtain ⟨hstatus, hsteps, -⟩ := xpiDispatch_perform w ev hk (fun _ => true) s
  have ok : (perform w ev (fun _ => true) 0 (schedule w ev maxReplyBatches 0 s)).status = .ok :=
    perform_all w ev 0 fun b hb => by
      obtain ⟨k, hget⟩ := List.mem_iff_getElem?.mp hb
      exact (fits_iff w ev hk hb).mpr
        (regular.fits _ (List.mem_of_getElem? (segment_get w ev hget)))
  refine ⟨hstatus.trans ok, ?_⟩
  rw [hsteps, (perform_ok w ev ok).1, ← schedule_uris, schedule_items]
  exact regular.reaches

theorem committed_addressed (hk : ev.kind ≠ .other) {grants : Nat → Bool} {s : Shared} {r : Reply}
    (hr : r ∈ (xpiDispatch w grants ev s).st.committed) :
    r.destination = ev.source ∧ r.requestId = ev.requestId := by
  obtain ⟨done, rest, part, -, -, -, -, committed, -⟩ :=
    perform_split w ev grants 0 (schedule w ev maxReplyBatches 0 s)
  rw [(xpiDispatch_perform w ev hk grants s).2.2.1, committed] at hr
  obtain ⟨b, -, hreply⟩ := List.mem_filterMap.mp hr
  obtain ⟨-, rfl⟩ := (Batch.reply_iff w ev).mp hreply
  exact ⟨rfl, rfl⟩

theorem regular_answered (regular : ev.kind = .other ∨ Regular w ev) (s : Shared) :
    let r := xpiDispatch w (fun _ => true) ev s
    AnsweredBy (ev, (interpretEvent w ev s).1) r.st.committed ∧
      r.st.shared = (interpretEvent w ev s).2 := by
  intro r
  by_cases hk : ev.kind = .other
  · have silent : r.st.committed = [] := xpiDispatch_silent w ev hk (fun _ => true) s
    have meaning : interpretEvent w ev s = ([], s) := by simp only [interpretEvent, hk]
    rw [silent, meaning]
    exact ⟨⟨fun _ hr => (by cases hr), rfl⟩, (xpiDispatch_other w ev hk _ s).1⟩
  have regular := regular.resolve_left hk
  obtain ⟨ok, all⟩ := regular.served hk s
  have whole := run_interpreted w ev hk s regular.aligned
  rw [all] at whole
  have meaning : interpretEvent w ev s = interpret w ev.kind 0 ev.uris s := by
    unfold interpretEvent
    split
    · contradiction
    all_goals rfl
  rw [meaning, ← whole]
  refine ⟨⟨fun _ hr => committed_addressed w ev hk hr, ?_⟩, rfl⟩
  rw [ok_entries w ev hk regular.aligned ok fun pos uri _ => regular.given pos uri]

end

section
variable (pf : Platform)

structure Means (t : Server) (m : Meaning) (replies : List (List Reply)) : Prop where
  shared : t.node.shared = m.shared
  shown : t.shown = m.shown
  requests : m.answered.map (·.1) = t.requests.filterMap pf.decode
  answered : List.Forall₂ AnsweredBy m.answered replies
  replies : t.replies = replies.flatten.map fun r => (pf.encode r).take replyMtu

theorem means_serve {t : Server} {m : Meaning} {replies : List (List Reply)} {payload : List UInt8}
    (hi : Means pf t m replies)
    (regular : ∀ ev, pf.decode payload = some ev → ev.kind = .other ∨ Regular pf.wire ev) :
    ∃ m' replies', Transition.Reachable (meaningStep pf.wire) m m' ∧
      Means pf (t.serve pf payload maxReplyBatches) m' replies' := by
  unfold Server.serve
  split
  · rename_i undecoded
    refine ⟨m, replies, .start, hi.shared, hi.shown, ?_, hi.answered, hi.replies⟩
    rw [hi.requests, List.filterMap_append]
    simp [undecoded]
  · rename_i ev decoded
    obtain ⟨answered, left⟩ := regular_answered pf.wire ev (regular ev decoded) t.node.shared
    rw [hi.shared] at answered left
    refine ⟨_, replies ++ [(xpiDispatch pf.wire (fun _ => true) ev m.shared).st.committed],
      .step .start trivial (a := .request ev) rfl, ?_, hi.shown, ?_, ?_, ?_⟩
    · rw [← left, NodeState.ran, xpiDispatch_enough, hi.shared]
    · rw [List.map_append, hi.requests, List.filterMap_append]
      simp [decoded]
    · exact List.rel_append hi.answered (.cons answered .nil)
    · rw [xpiDispatch_enough, hi.shared, hi.replies]
      simp

theorem means_step {t t' : Server} {m : Meaning} {replies : List (List Reply)} {a : ServerAct}
    (hi : Means pf t m replies) (whole : a.whole)
    (regular : ∀ payload ∈ t'.requests, ∀ ev, pf.decode payload = some ev →
      ev.kind = .other ∨ Regular pf.wire ev) (h : serverStep pf t a = some t') :
    ∃ m' replies', Transition.Reachable (meaningStep pf.wire) m m' ∧ Means pf t' m' replies' := by
  cases a with
  | serve payload n =>
    obtain rfl : n = maxReplyBatches := whole
    cases h
    exact means_serve pf hi (regular payload (by simp))
  | task task =>
    obtain ⟨node, hnode, rfl⟩ := Option.map_eq_some_iff.mp h
    have same := sideTask_shared pf.wire task (n := t.node) (m := ⟨m.shared, [], []⟩)
      hi.shared.symm
    rw [hnode, Option.map_some] at same
    obtain ⟨node', hnode', hshared⟩ := Option.map_eq_some_iff.mp same
    refine ⟨{ m with shared := node'.shared, shown := task.draws m.shared.digit m.shown }, replies,
      .step .start trivial (a := .task task) (by rw [meaningStep, hnode']; rfl), hshared.symm, ?_,
      hi.requests, hi.answered, hi.replies⟩
    rw [hi.shown, hi.shared]

theorem requests_step {t t' : Server} {a : ServerAct} (h : serverStep pf t a = some t') :
    t.requests <+: t'.requests := by
  cases a with
  | serve payload n =>
    cases h
    rw [serve_requests]
    exact List.prefix_append _ _
  | task task =>
    obtain ⟨node, -, rfl⟩ := Option.map_eq_some_iff.mp h
    exact List.prefix_refl _

theorem whole_means {t : Server}
    (h : Transition.ReachableBy (serverStep pf) (fun _ a => a.whole) .init t)
    (regular : ∀ payload ∈ t.requests, ∀ ev, pf.decode payload = some ev →
      ev.kind = .other ∨ Regular pf.wire ev) :
    ∃ m replies, Transition.Reachable (meaningStep pf.wire) .init m ∧ Means pf t m replies := by
  induction h with
  | start => exact ⟨.init, [], .start, rfl, rfl, rfl, .nil, rfl⟩
  | step before whole taken ih =>
    obtain ⟨m, replies, reached, hi⟩ :=
      ih fun payload hp => regular payload ((requests_step pf taken).subset hp)
    obtain ⟨m', replies', more, hi'⟩ := means_step pf hi whole regular taken
    exact ⟨m', replies', reached.trans (meaningStep pf.wire) more, hi'⟩

end

end VhlHackathon
