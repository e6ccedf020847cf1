import VhlHackathon.Replies
set_option autoImplicit false

/-!
The two iterators of `xpi_dispatch` run in lock step: every pass looks ahead at exactly
the URIs it then executes, and what follows for the arms that should not be reached.
-/

namespace VhlHackathon

def Act.answered : Act → Option (Except XpiError NibbleBuf)
  | .ran _ r | .deferred _ r => some r
  | .rejected _ | .noArgs => none

def Consecutive : Nat → List Iteration → Prop
  | _, [] => True
  | pos, it :: rest => it.look = pos ∧ Consecutive it.ahead.pos rest

section
variable (w : Wire) (ev : Event)

/-- A pass whose iterators agree: the first `batchLen` slots of the look-ahead table hold the
hints of the URIs the execute iterator yields, inside the slots and the budget. -/
structure Iteration.Sound (it : Iteration) : Prop where
  lock : it.look = it.exec
  stop : it.ahead.pos = it.look + it.ahead.batchLen
  slots : it.ahead.batchLen ≤ maxReplyBatchLen
  budget : it.ahead.left +
    (((ev.uris.drop it.look).take it.ahead.batchLen).map (hintCost w ev)).sum = replyNibbles
  table : ∀ i < it.ahead.batchLen, ∃ uri, ev.uris[it.exec + i]? = some uri ∧
    it.ahead.table[i]? = some (some (hintOf w ev uri))
  steps : ∀ i st, it.steps[i]? = some st → i < it.ahead.batchLen ∧ st.pos = it.exec + i ∧
    it.ahead.table[i]? = some st.hint
  routed : ∀ st ∈ it.steps, st.accepted = true → ∀ r ∈ st.act.answered,
    r ≠ .error .badUri ∧ r ≠ .error .notAMethod
  reply : ∀ r ∈ it.reply, r.results ≠ []

theorem stepAt_routed (hk : ev.kind ≠ .other) (pos argPos : Nat) (s : Shared) (uri : Uri) :
    let st := stepAt w ev pos argPos s uri
    st.accepted = true → ∀ r ∈ st.act.answered, r ≠ .error .badUri ∧ r ≠ .error .notAMethod := by
  intro st hacc r hr
  have ha : accepted w ev uri = true := hacc
  have h := answer_answered w ev hk uri ev.kind.args[argPos]? s
  change r ∈ (answer w ev uri ev.kind.args[argPos]? s).1.answered at hr
  generalize answer w ev uri ev.kind.args[argPos]? s = r at h hr
  generalize ev.kind.args[argPos]? = arg at h
  rw [accepted, hintOf] at ha
  cases h with
  | rejected arg hint => cases hr
  | noArgs takes hint => cases hr
  | sync kind a =>
    rw [kind] at ha
    cases hr
    exact dispatchCall_routed w [5] a _ _ ha
  | async kind a =>
    rw [kind] at ha
    cases hr
    exact dispatchCall_routed w [6] a _ _ ha
  | digit kind a =>
    rw [kind] at ha
    cases hr
    have hroute := dispatchWrite_routed w [1] a s ha
    revert hroute
    cases (dispatchWrite w [1] a s).1 <;> simp [Except.map]
  | read kind arg =>
    rw [kind] at ha
    cases hr
    exact dispatchRead_routed w [1] _ s ha

theorem reply_nonempty (hk : ev.kind ≠ .other) {pos : Nat} {s : Shared} {r : Reply}
    (hr : (batchOf w ev pos s).reply w ev = some r) : r.results ≠ [] := by
  obtain ⟨himm, rfl⟩ := (Batch.reply_iff w ev).mp hr
  obtain ⟨uri, hu, hi⟩ := List.countP_pos_iff.mp (Nat.pos_of_ne_zero himm)
  obtain ⟨before, after, hsplit⟩ := List.append_of_mem hu
  have hst : stepAt w ev (pos + before.length) (takenArgs (plan w ev pos 0 s before))
      (endShared s (plan w ev pos 0 s before)) uri ∈ (batchOf w ev pos s).steps := by
    have hb : batchAt w ev pos = before ++ uri :: after := hsplit
    simp only [batchOf, hb, plan_append, plan, List.mem_append, List.mem_cons, Nat.zero_add]
    exact Or.inr (Or.inl trivial)
  generalize hg : stepAt w ev (pos + before.length) _ _ uri = st at hst
  have hentry : st.act.entry ≠ none := by
    rw [← hg, Ne, stepAt_entry_none_iff w ev hk]
    rintro ⟨hd, -⟩
    rw [hd] at hi
    cases hi
  obtain ⟨e, he⟩ := Option.ne_none_iff_exists'.mp hentry
  refine List.ne_nil_of_mem (a := ⟨st.pos, e⟩) (List.mem_flatMap.mpr ⟨st, hst, ?_⟩)
  simp [Step.entries, he]

theorem lookahead_batchLen (pos : Nat) :
    (lookahead w ev.kind.discriminant ev.uris pos).batchLen = (batchAt w ev pos).length := by
  simpa using (lookahead_looked w ev pos).batchLen

theorem batchAt_take (pos : Nat) :
    (ev.uris.drop pos).take (batchAt w ev pos).length = batchAt w ev pos := by
  have h := Packing.batch_append_drop (hintCost w ev) maxReplyBatchLen replyNibbles
    (ev.uris.drop pos)
  conv_lhs => rw [← h]
  simp [batchAt]

theorem lookahead_slot {pos i : Nat} {uri : Uri} (hu : (batchAt w ev pos)[i]? = some uri) :
    ev.uris[pos + i]? = some uri ∧
      (lookahead w ev.kind.discriminant ev.uris pos).table[i]? =
        some (some (hintOf w ev uri)) := by
  have hlt := (List.getElem?_eq_some_iff.mp hu).1
  constructor
  · rwa [← batchAt_take, List.getElem?_take_of_lt hlt, List.getElem?_drop] at hu
  · have h := congrArg (·[i]?) (lookahead_table w ev pos)
    simpa only [lookahead_batchLen, List.getElem?_take_of_lt hlt, List.getElem?_map, hu,
      Option.map_some] using h

theorem batchOf_step {pos i : Nat} {s : Shared} {st : Step}
    (h : (batchOf w ev pos s).steps[i]? = some st) :
    ∃ uri argPos s', (batchAt w ev pos)[i]? = some uri ∧
      st = stepAt w ev (pos + i) argPos s' uri := by
  have hlt := (List.getElem?_eq_some_iff.mp h).1
  rw [batchOf_steps_length] at hlt
  change i < (batchAt w ev pos).length at hlt
  have hsplit : batchAt w ev pos = (batchAt w ev pos).take i ++
      (batchAt w ev pos)[i] :: (batchAt w ev pos).drop (i+1) := by simp
  have hi : ((batchAt w ev pos).take i).length = i :=
    List.length_take_of_le (Nat.le_of_lt hlt)
  change (plan w ev pos 0 s (batchAt w ev pos))[i]? = some st at h
  rw [hsplit, plan_append, List.getElem?_append_right (by rw [plan_length, hi])] at h
  simp [hi, plan] at h
  exact ⟨_, _, _, List.getElem?_eq_getElem hlt, h.symm⟩

theorem iterationAt_sound (hk : ev.kind ≠ .other) (pos : Nat) (s : Shared) {steps : List Step}
    {reply : Option Reply} (hsteps : steps <+: (batchOf w ev pos s).steps)
    (hreply : reply = none ∨ reply = (batchOf w ev pos s).reply w ev) :
    (iterationAt w ev pos steps reply).Sound w ev := by
  have hla := lookahead_looked w ev pos
  have hlen := lookahead_batchLen w ev pos
  constructor
  · rfl
  · change _ = pos + (lookahead w ev.kind.discriminant ev.uris pos).batchLen
    rw [hlen]
    exact hla.pos
  · change (lookahead w ev.kind.discriminant ev.uris pos).batchLen ≤ _
    rw [hlen]
    exact Packing.batch_length_le _ _ _ _
  · change (lookahead w ev.kind.discriminant ev.uris pos).left + (((ev.uris.drop pos).take
      (lookahead w ev.kind.discriminant ev.uris pos).batchLen).map _).sum = _
    rw [hlen, batchAt_take]
    exact hla.left
  · intro i hi
    change i < (lookahead w ev.kind.discriminant ev.uris pos).batchLen at hi
    rw [hlen] at hi
    exact ⟨_, lookahead_slot w ev (List.getElem?_eq_getElem hi)⟩
  · intro i st hst
    obtain ⟨t, ht⟩ := hsteps
    have hst' : (batchOf w ev pos s).steps[i]? = some st := by
      rw [← ht]
      exact List.getElem?_append_left (List.getElem?_eq_some_iff.mp hst).1 ▸ hst
    obtain ⟨uri, argPos, s', hu, rfl⟩ := batchOf_step w ev hst'
    refine ⟨?_, rfl, (lookahead_slot w ev hu).2⟩
    change i < (lookahead w ev.kind.discriminant ev.uris pos).batchLen
    rw [hlen]
    exact (List.getElem?_eq_some_iff.mp hu).1
  · intro st hst
    obtain ⟨i, hi⟩ := List.getElem?_of_mem (hsteps.subset hst)
    obtain ⟨uri, argPos, s', -, rfl⟩ := batchOf_step w ev hi
    exact stepAt_routed w ev hk _ _ _ _
  · intro r hr
    rcases hreply with rfl | rfl
    · cases hr
    · exact reply_nonempty w ev hk hr

theorem dispatchLoop_last {grants : Nat → Bool} {n k : Nat} {st : DispState}
    {r : Flow × DispState} (hr : xpiIteration w ev (grants k) st = r) (hne : r.1 ≠ .next) :
    (dispatchLoop w ev grants (n+1) k st).2 = r.2 := by
  simp only [dispatchLoop, hr]
  obtain ⟨flow, st'⟩ := r
  cases flow with
  | next => exact absurd rfl hne
  | stop => rfl
  | fail e => rfl

theorem dispatchLoop_passes (hk : ev.kind ≠ .other) (grants : Nat → Bool) (n k : Nat)
    (st : DispState) (hlock : st.look = st.exec) :
    ∃ its, (dispatchLoop w ev grants n k st).2.iterations = st.iterations ++ its ∧
      its.length ≤ n ∧ Consecutive st.exec its ∧ ∀ it ∈ its, it.Sound w ev := by
  induction n generalizing k st with
  | zero => exact ⟨[], by simp [dispatchLoop], Nat.le_refl 0, trivial, by simp⟩
  | succ n ih =>
    have hsound : ∀ {steps : List Step} {reply : Option Reply},
        steps <+: (batchOf w ev st.exec st.shared).steps →
        (reply = none ∨ reply = (batchOf w ev st.exec st.shared).reply w ev) →
        (iterationAt w ev st.exec steps reply).Sound w ev :=
      iterationAt_sound w ev hk st.exec st.shared
    have hstop : (lookahead w ev.kind.discriminant ev.uris st.exec).pos =
        st.exec + (batchOf w ev st.exec st.shared).uris.length :=
      (lookahead_looked w ev st.exec).pos
    generalize hb : batchOf w ev st.exec st.shared = b at hsound hstop
    obtain ⟨hempty, hrefused, hfit, hcut⟩ := xpiIteration_spec w ev hk (grants k) hlock hb
    -- the last pass of a run
    have hlast : ∀ {r : Flow × DispState} {it : Iteration},
        (xpiIteration w ev (grants k) st = r) → r.1 ≠ .next →
        r.2.iterations = st.iterations ++ [it] → it.look = st.exec → it.Sound w ev →
        ∃ its, (dispatchLoop w ev grants (n+1) k st).2.iterations = st.iterations ++ its ∧
          its.length ≤ n+1 ∧ Consecutive st.exec its ∧ ∀ it ∈ its, it.Sound w ev := by
      intro r it hr hne hits hlook hs
      refine ⟨[it], ?_, by simp, ⟨hlook, trivial⟩, by simpa using hs⟩
      rw [dispatchLoop_last w ev hr hne, hits]
    by_cases hu : b.uris = []
    · exact hlast (hempty hu) (by simp) rfl rfl (hsound List.nil_prefix (Or.inl rfl))
    cases hg : grants k with
    | false =>
      exact hlast (hrefused hu hg) (by simp) rfl rfl (hsound List.nil_prefix (Or.inl rfl))
    | true =>
      by_cases hf : b.fits w ev
      · have hs := hsound (List.prefix_refl b.steps) (Or.inr rfl)
        have hpass := hfit hu hg hf
        by_cases hro : (lookahead w ev.kind.discriminant ev.uris st.exec).runOut = true
        · rw [if_pos hro] at hpass
          exact hlast hpass (by simp) rfl rfl hs
        · rw [if_neg hro] at hpass
          obtain ⟨its, h1, h2, h3, h4⟩ := ih (k+1) {
            look := st.exec + b.uris.length
            exec := st.exec + b.uris.length
            shared := endShared st.shared b.steps
            ethPended := st.ethPended || (b.reply w ev).isSome
            iterations := st.iterations ++
              [iterationAt w ev st.exec b.steps (b.reply w ev)] } rfl
          refine ⟨iterationAt w ev st.exec b.steps (b.reply w ev) :: its, ?_, ?_, ⟨rfl, ?_⟩, ?_⟩
          · simp only [dispatchLoop, hpass, h1]
            simp
          · exact Nat.succ_le_succ h2
          · rw [show (iterationAt w ev st.exec b.steps (b.reply w ev)).ahead.pos = _ from hstop]
            exact h3
          · intro it hit
            rcases List.mem_cons.mp hit with rfl | hit
            · exact hs
            · exact h4 it hit
      · exact hlast (hcut hu hg hf) (by simp) rfl rfl
          (hsound (b.cut_prefix w ev) (Or.inl rfl))

/-- What the dispatcher's control flow promises of a whole run. -/
structure LockStep (o : Outcome) : Prop where
  passes : o.st.iterations.length ≤ maxReplyBatches
  consecutive : Consecutive 0 o.st.iterations
  sound : ∀ it ∈ o.st.iterations, it.Sound w ev
  noPanic : o.status ≠ .panic
  noInternal : o.status ≠ .err .internal
  skipped : o.status = .ok →
    (o.skipped = true ↔ ∃ pos < ev.uris.length, ∀ st ∈ o.st.steps, st.pos ≠ pos)

theorem xpiDispatch_lockStep (hk : ev.kind ≠ .other) (grants : Nat → Bool) (s : Shared) :
    LockStep w ev (xpiDispatch w grants ev s) := by
  obtain ⟨its, h1, h2, h3, h4⟩ := dispatchLoop_passes w ev hk grants maxReplyBatches 0
    ⟨0, 0, s, false, []⟩ rfl
  have hits : (xpiDispatch w grants ev s).st.iterations = its := h1
  obtain ⟨hstatus, hsteps, -, -, hskip⟩ := xpiDispatch_perform w ev hk grants s
  have hend : (xpiDispatch w grants ev s).status ≠ .panic ∧
      (xpiDispatch w grants ev s).status ≠ .err .internal := by
    obtain ⟨_, _, _, -, -, -, -, -, hcase⟩ := perform_split w ev grants 0
      (schedule w ev maxReplyBatches 0 s)
    rw [hstatus]
    rcases hcase with ⟨-, -, h⟩ | ⟨_, _, -, -, -, h⟩ | ⟨_, _, -, -, -, -, h⟩ <;> simp [h]
  refine ⟨by rw [hits]; exact h2, by rw [hits]; exact h3, by rw [hits]; exact h4,
    hend.1, hend.2, fun hok => ?_⟩
  have hcovered := covered_iff (run_pos w ev hk hok) ev.uris.length
  rw [hstatus] at hok
  rw [hskip, ← hsteps]
  simp only [hok, true_and, decide_eq_true_eq, ← Nat.not_le, ← hcovered]
  push Not
  rfl

end

theorem maskedWrite_lockStep :
    LockStep .small maskedWrite (xpiDispatch .small (fun _ => true) maskedWrite .init) :=
  xpiDispatch_lockStep .small maskedWrite (by decide) (fun _ => true) .init

end VhlHackathon
