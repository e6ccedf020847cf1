import VhlHackathon.FlatRead
import VhlHackathon.Node
import VhlHackathon.Points
set_option autoImplicit false

/-!
What the replies to one request say, taken together: whose they are, in which order the
results stand, and what the results of reads and of /sync are, however far the run got.
-/

namespace VhlHackathon

section
variable (w : Wire) (ev : Event)

theorem dispatchLoop_silent (hk : ev.kind = .other) (grants : Nat → Bool) (n k : Nat)
    (st : DispState) : (dispatchLoop w ev grants n k st).2.committed = st.committed := by
  induction n generalizing k st with
  | zero => rfl
  | succ n ih =>
    have pass : (xpiIteration w ev (grants k) st).2.committed = st.committed := by
      unfold xpiIteration
      dsimp only
      split
      · simp [DispState.committed]
      · split
        · simp [DispState.committed]
        · split
          · simp [DispState.committed]
          · simp [buildKind, hk, DispState.committed]
    simp only [dispatchLoop]
    split
    · rename_i st' hr
      rw [hr] at pass
      rw [ih (k + 1) st', pass]
    · rename_i st' hr
      rw [hr] at pass
      exact pass
    · rename_i e st' hr
      rw [hr] at pass
      exact pass

theorem xpiDispatch_silent (hk : ev.kind = .other) (grants : Nat → Bool) (s : Shared) :
    (xpiDispatch w grants ev s).st.committed = [] :=
  dispatchLoop_silent w ev hk grants maxReplyBatches 0 ⟨0, 0, s, false, []⟩

theorem entries_owners (steps : List Step) :
    ((steps.flatMap (·.entries)).map (·.owner)).Sublist (steps.map (·.pos)) := by
  induction steps with
  | nil => exact List.Sublist.refl _
  | cons st rest ih =>
    rw [List.flatMap_cons, List.map_append, List.map_cons]
    cases hentry : st.act.entry with
    | none =>
      simp only [Step.entries, hentry, Option.map_none, Option.toList_none, List.map_nil,
        List.nil_append]
      exact ih.cons _
    | some result =>
      simp only [Step.entries, hentry, Option.map_some, Option.toList_some, List.map_cons,
        List.map_nil, List.singleton_append]
      exact ih.cons_cons _

theorem replies_entries (bs : List Batch) :
    ((bs.filterMap (·.reply w ev)).flatMap (·.results)).Sublist
      ((bs.flatMap (·.steps)).flatMap (·.entries)) := by
  induction bs with
  | nil => exact List.Sublist.refl _
  | cons b rest ih =>
    rw [List.flatMap_cons, List.flatMap_append]
    cases hreply : b.reply w ev with
    | none =>
      rw [List.filterMap_cons_none hreply]
      exact ih.trans (List.sublist_append_right _ _)
    | some r =>
      rw [List.filterMap_cons_some hreply, List.flatMap_cons]
      obtain ⟨-, rfl⟩ := (Batch.reply_iff w ev).mp hreply
      exact (List.Sublist.refl _).append ih

theorem committed_entries (hk : ev.kind ≠ .other) (grants : Nat → Bool) (s : Shared) :
    ((xpiDispatch w grants ev s).st.committed.flatMap (·.results)).Sublist
      (((schedule w ev maxReplyBatches 0 s).flatMap (·.steps)).flatMap (·.entries)) := by
  obtain ⟨done, rest, part, split, -, -, -, committed, -⟩ :=
    perform_split w ev grants 0 (schedule w ev maxReplyBatches 0 s)
  rw [(xpiDispatch_perform w ev hk grants s).2.2.1, committed, split, List.flatMap_append,
    List.flatMap_append]
  exact (replies_entries w ev done).trans (List.sublist_append_left _ _)

/-- Over all replies to a request, the results stand in the order of its URIs, at most one
for each; and every reply is addressed to the sender of the request and carries the request's
id, priority and resource set. -/
theorem results_in_order (grants : Nat → Bool) (s : Shared) :
    (((xpiDispatch w grants ev s).st.committed.flatMap (·.results)).map (·.owner)).Pairwise
        (· < ·) ∧
      ∀ r ∈ (xpiDispatch w grants ev s).st.committed,
        r.source = 1 ∧ r.destination = ev.source ∧ r.requestId = ev.requestId ∧
          r.priority = ev.priority ∧ r.resourceSet = ev.resourceSet ∧
          r.kind = resultsKind ev.kind ∧ r.nibbles ≤ 2 * replyMtu ∧
          ∀ e ∈ r.results, e.owner < ev.uris.length := by
  by_cases hk : ev.kind = .other
  · rw [xpiDispatch_silent w ev hk]
    exact ⟨.nil, fun r hr => by cases hr⟩
  have owners := ((committed_entries w ev hk grants s).map Entry.owner).trans
    (entries_owners ((schedule w ev maxReplyBatches 0 s).flatMap (·.steps)))
  constructor
  · rw [schedule_pos] at owners
    exact List.Pairwise.sublist owners List.pairwise_lt_range'
  · intro r hr
    obtain ⟨k, b, hb, answered, hreply⟩ := (mem_committed_iff w ev hk grants s r).mp hr
    have fits := ((answerable_iff w ev hk grants s k).mp answered k (Nat.le_refl k)).2 b hb
    obtain ⟨-, rfl⟩ := (Batch.reply_iff w ev).mp hreply
    refine ⟨rfl, rfl, rfl, rfl, rfl, rfl, fits, fun e he => ?_⟩
    have mem : e.owner ∈ ((schedule w ev maxReplyBatches 0 s).flatMap (·.steps)).map (·.pos) :=
      owners.subset (List.mem_map.mpr ⟨e, List.mem_flatMap.mpr ⟨_, hr, he⟩, rfl⟩)
    obtain ⟨st, hst, same⟩ := List.mem_map.mp mem
    obtain ⟨b, -, s', before, uri, after, -, hsplit, rfl⟩ := mem_schedule_steps w ev hst
    rw [← same]
    exact (List.getElem?_eq_some_iff.mp (batchAt_get w ev hsplit).1).1

theorem committed_step (hk : ev.kind ≠ .other) {grants : Nat → Bool} {s : Shared} {r : Reply}
    {e : Entry} (hr : r ∈ (xpiDispatch w grants ev s).st.committed) (he : e ∈ r.results) :
    ∃ st ∈ (schedule w ev maxReplyBatches 0 s).flatMap (·.steps), e.owner = st.pos ∧
      st.act.entry = some e.result := by
  have mem := (committed_entries w ev hk grants s).subset
    (List.mem_flatMap.mpr ⟨r, hr, he⟩)
  obtain ⟨st, hst, hentry⟩ := List.mem_flatMap.mp mem
  obtain ⟨result, hres, rfl⟩ : ∃ result, st.act.entry = some result ∧ e = ⟨st.pos, result⟩ := by
    simpa [Step.entries, eq_comm] using hentry
  exact ⟨st, hst, rfl, hres⟩

theorem Linked.unchanged {s : Shared} {steps : List Step} (h : Linked s steps)
    (same : ∀ st ∈ steps, st.post = st.pre) : ∀ st ∈ steps, st.pre = s := by
  induction steps generalizing s with
  | nil => exact fun st hst => by cases hst
  | cons first rest ih =>
    obtain ⟨hfirst, hrest⟩ := List.forall_mem_cons.mp same
    obtain ⟨hpre, hlinked⟩ := h
    refine List.forall_mem_cons.mpr ⟨hpre, ?_⟩
    rw [hfirst, hpre] at hlinked
    exact ih hlinked hrest

theorem read_results (hk : ev.kind = .read) {grants : Nat → Bool} {s : Shared} {r : Reply}
    {e : Entry} {uri : Uri} (hr : r ∈ (xpiDispatch w grants ev s).st.committed)
    (he : e ∈ r.results) (hu : ev.uris[e.owner]? = some uri) :
    e.result = readReference w s.digit uri := by
  have steps : ∀ st ∈ (schedule w ev maxReplyBatches 0 s).flatMap (·.steps), ∃ uri,
      ev.uris[st.pos]? = some uri ∧ st.act.entry = some (readReference w st.pre.digit uri) ∧
        st.post = st.pre := by
    intro st hst
    obtain ⟨b, -, s', before, uri, after, -, hsplit, rfl⟩ := mem_schedule_steps w ev hst
    obtain ⟨hentries, hpost⟩ := read_step w ev hk (b.start + before.length)
      (takenArgs (plan w ev b.start 0 s' before)) (endShared s' (plan w ev b.start 0 s' before))
      uri
    refine ⟨uri, (batchAt_get w ev hsplit).1, ?_, hpost⟩
    simp [Step.entries] at hentries
    exact hentries
  have found := Linked.unchanged (schedule_linked w ev maxReplyBatches 0 s) fun st hst => by
    obtain ⟨uri, -, -, hpost⟩ := steps st hst
    exact hpost
  obtain ⟨st, hst, owner, hentry⟩ := committed_step w ev (by simp [hk]) hr he
  obtain ⟨uri', hget, hres, -⟩ := steps st hst
  rw [owner, hget, Option.some.injEq] at hu
  subst hu
  rw [hres, Option.some.injEq, found st hst] at hentry
  exact hentry.symm

theorem sync_results {args : List NibbleBuf} (hk : ev.kind = .call args) (grants : Nat → Bool)
    (s : Shared) {r : Reply} {e : Entry} (hr : r ∈ (xpiDispatch w grants ev s).st.committed)
    (he : e ∈ r.results) (uri : ev.uris[e.owner]? = some [5]) :
    (pairedArg w ev e.owner = none ∧ e.result = .error .noArgumentsProvided) ∨
      ∃ a, pairedArg w ev e.owner = some a ∧ ((a.length < 16 ∧ e.result = .error .nibbleBuf) ∨
        ∃ p1 p2 rest, a = p1.serVlu4 w ++ p2.serVlu4 w ++ rest ∧
          e.result = .ok ((sync p1 p2).serVlu4 w) ∧
          Point.desVlu4 w ((sync p1 p2).serVlu4 w) = some (sync p1 p2, [])) := by
  have takes : ev.kind.takesArgs = true := by simp [hk, EventKind.takesArgs]
  obtain ⟨st, hst, owner, hres⟩ := committed_step w ev (takesArgs_ne_other ev takes) hr he
  obtain ⟨uri', s', hget, -, hact⟩ := schedule_step_act w ev takes hst
  rw [owner] at uri ⊢
  rw [uri, Option.some.injEq] at hget
  subst hget
  cases harg : pairedArg w ev st.pos with
  | none =>
    have ok : accepted w ev [5] = true := (accepted_call_iff w ev hk [5]).mpr (Or.inl rfl)
    rw [hact, harg, answer_noArgs w ev takes ok, Act.entry, Option.some.injEq] at hres
    exact Or.inl ⟨rfl, hres.symm⟩
  | some a =>
    rw [hact, harg, answer_sync w ev hk, Act.entry, Option.some.injEq] at hres
    refine Or.inr ⟨a, rfl, ?_⟩
    cases points : desPoints w a with
    | none =>
      simp only [dispatchCall, points] at hres
      exact Or.inl ⟨desPoints_short w points, hres.symm⟩
    | some p =>
      obtain ⟨p1, p2⟩ := p
      obtain ⟨rest, rfl⟩ := (desPoints_eq_some_iff w a p1 p2).mp points
      have room : ((sync p1 p2).serVlu4 w).length ≤ 8 := by simp
      simp only [dispatchCall, points, room, if_true] at hres
      exact Or.inr ⟨p1, p2, rest, rfl, hres.symm,
        (exact_desVlu4 w _ _ _).mpr (List.append_nil _).symm⟩

end

def onePair : Event :=
  ⟨3, 3, 0, ⟨[[5]], 3⟩, .call [Point.serVlu4 .small ⟨7, 2⟩ ++ Point.serVlu4 .small ⟨1, 3⟩]⟩

theorem onePair_summed :
    ∃ r ∈ (xpiDispatch .small (fun _ => true) onePair .init).st.committed, ∃ e ∈ r.results,
      e.result = .ok (Point.serVlu4 .small ⟨8, 5⟩) ∧
      ((pairedArg .small onePair e.owner = none ∧ e.result = .error .noArgumentsProvided) ∨
        ∃ a, pairedArg .small onePair e.owner = some a ∧
          ((a.length < 16 ∧ e.result = .error .nibbleBuf) ∨
            ∃ p1 p2 rest, a = p1.serVlu4 .small ++ p2.serVlu4 .small ++ rest ∧
              e.result = .ok ((sync p1 p2).serVlu4 .small) ∧
              Point.desVlu4 .small ((sync p1 p2).serVlu4 .small) = some (sync p1 p2, []))) := by
  have answered : (xpiDispatch .small (fun _ => true) onePair .init).st.committed.any (fun r =>
      r.results.any fun e => decide (e = ⟨0, .ok (Point.serVlu4 .small ⟨8, 5⟩)⟩)) = true := by
    decide +kernel
  obtain ⟨r, hr, found⟩ := List.any_eq_true.mp answered
  obtain ⟨e, he, same⟩ := List.any_eq_true.mp found
  obtain rfl := of_decide_eq_true same
  exact ⟨r, hr, _, he, rfl, sync_results .small onePair rfl _ _ hr he rfl⟩

end VhlHackathon
