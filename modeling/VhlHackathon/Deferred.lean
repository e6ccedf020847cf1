import VhlHackathon.Effects
set_option autoImplicit false

/-!
Deferred calls: which of them occupy the async task's slot, which get an error entry,
and which leave no trace at all.
-/

namespace VhlHackathon

section
variable (w : Wire) (ev : Event)

def Step.asks (st : Step) : Option (Point × Point) :=
  match st.act with
  | .deferred arg _ => desPoints w arg
  | _ => none

def Step.spawned (st : Step) : Bool :=
  (st.asks w).isSome && st.pre.asyncTask.isNone && decide (st.post.asyncTask = st.asks w)

theorem asyncTask_step {args : List NibbleBuf} (hk : ev.kind = .call args)
    (pos argPos : Nat) (s : Shared) (uri : Uri) :
    let st := stepAt w ev pos argPos s uri
    st.post.asyncTask = st.pre.asyncTask.or (st.asks w) := by
  have h := answer_answered w ev (by simp [hk]) uri ev.kind.args[argPos]? s
  simp only [stepAt]
  generalize answer w ev uri ev.kind.args[argPos]? s = r at h ⊢
  generalize ev.kind.args[argPos]? = arg at h
  cases h with
  | rejected arg hint => simp [Step.asks]
  | noArgs takes hint => simp [Step.asks]
  | sync kind a => simp [Step.asks]
  | async kind a =>
    cases hd : desPoints w a with
    | none => simp [Step.asks, dispatchCall, hd]
    | some p => cases hq : s.asyncTask <;> simp [Step.asks, dispatchCall, hd, hq]
  | digit kind a => cases hk.symm.trans kind
  | read kind arg => cases hk.symm.trans kind

theorem asyncTask_free_iff {s : Shared} {steps : List Step} (hl : Linked s steps)
    (hstep : ∀ st ∈ steps, st.post.asyncTask = st.pre.asyncTask.or (st.asks w)) :
    (endShared s steps).asyncTask = none ↔
      s.asyncTask = none ∧ ∀ st ∈ steps, st.asks w = none := by
  induction steps generalizing s with
  | nil => simp [endShared]
  | cons st rest ih =>
    obtain ⟨hpre, hl⟩ := hl
    have hi := ih hl fun t ht => hstep t (List.mem_cons_of_mem _ ht)
    have hst := hstep st (List.mem_cons_self ..)
    change (endShared st.post rest).asyncTask = none ↔ _
    rw [hi, hst, hpre, Option.or_eq_none_iff]
    simp [and_assoc]

def asksAt (pos : Nat) : Option (Point × Point) :=
  if (ev.uris[pos]?).any (fun uri => decide (hintOf w ev uri = .deferred)) then
    (pairedArg w ev pos).bind (desPoints w)
  else none

theorem asks_eq {args : List NibbleBuf} (hk : ev.kind = .call args) {s : Shared} {st : Step}
    (hst : st ∈ (schedule w ev maxReplyBatches 0 s).flatMap (·.steps)) :
    st.asks w = asksAt w ev st.pos := by
  obtain ⟨uri, s', hget, -, hact⟩ :=
    schedule_step_act w ev (by simp [hk, EventKind.takesArgs]) hst
  have h := answer_answered w ev (by simp [hk]) uri (pairedArg w ev st.pos) s'
  unfold Step.asks asksAt
  rw [hact, hget]
  generalize answer w ev uri (pairedArg w ev st.pos) s' = r at h ⊢
  generalize pairedArg w ev st.pos = arg at h ⊢
  cases h with
  | rejected arg hint => simp [hint]
  | noArgs takes hint => simp
  | sync kind a => simp [hintOf, deferred_iff]
  | async kind a => simp [hintOf, deferred_iff, kind, EventKind.discriminant]
  | digit kind a => cases hk.symm.trans kind
  | read kind arg => cases hk.symm.trans kind

theorem schedule_split {s : Shared} {st : Step}
    (hst : st ∈ (schedule w ev maxReplyBatches 0 s).flatMap (·.steps)) :
    ∃ before after, (schedule w ev maxReplyBatches 0 s).flatMap (·.steps) =
        before ++ st :: after ∧
      before.map (·.pos) = List.range st.pos ∧ st.pre = endShared s before := by
  obtain ⟨before, after, hsplit⟩ := List.append_of_mem hst
  have hl := schedule_linked w ev maxReplyBatches 0 s
  have hp := schedule_pos w ev maxReplyBatches 0 s
  rw [hsplit] at hl hp
  rw [linked_append] at hl
  rw [List.map_append, List.map_cons] at hp
  obtain ⟨k, -, hbefore, hafter⟩ := List.range'_eq_append_iff.mp hp.symm
  obtain ⟨hk, -, -⟩ := List.range'_eq_cons_iff.mp hafter.symm
  refine ⟨before, after, hsplit, ?_, hl.2.1⟩
  rw [hbefore, List.range_eq_range', ← hk]
  simp

theorem spawned_iff {args : List NibbleBuf} (hk : ev.kind = .call args) {s : Shared} {st : Step}
    (hst : st ∈ (schedule w ev maxReplyBatches 0 s).flatMap (·.steps)) :
    st.spawned w = true ↔ (asksAt w ev st.pos).isSome ∧ s.asyncTask = none ∧
      ∀ j < st.pos, asksAt w ev j = none := by
  have hlaw : ∀ t ∈ (schedule w ev maxReplyBatches 0 s).flatMap (·.steps),
      t.post.asyncTask = t.pre.asyncTask.or (t.asks w) := by
    intro t ht
    obtain ⟨-, -, s', before, uri, after, -, -, rfl⟩ := mem_schedule_steps w ev ht
    exact asyncTask_step w ev hk _ _ _ _
  obtain ⟨before, after, hsplit, hpos, hpre⟩ := schedule_split w ev hst
  have hbefore : ∀ t ∈ before, t ∈ (schedule w ev maxReplyBatches 0 s).flatMap (·.steps) := by
    intro t ht; rw [hsplit]; simp [ht]
  have hl : Linked s before := by
    have h := schedule_linked w ev maxReplyBatches 0 s
    rw [hsplit, linked_append] at h
    exact h.1
  have hfree := asyncTask_free_iff w hl fun t ht => hlaw t (hbefore t ht)
  have hasks : (∀ t ∈ before, t.asks w = none) ↔ ∀ j < st.pos, asksAt w ev j = none := by
    constructor
    · intro h j hj
      have hmem : j ∈ before.map (·.pos) := by rw [hpos]; exact List.mem_range.mpr hj
      obtain ⟨t, ht, rfl⟩ := List.mem_map.mp hmem
      rw [← asks_eq w ev hk (hbefore t ht)]
      exact h t ht
    · intro h t ht
      have hmem : t.pos ∈ before.map (·.pos) := List.mem_map_of_mem ht
      rw [hpos, List.mem_range] at hmem
      rw [asks_eq w ev hk (hbefore t ht)]
      exact h t.pos hmem
  rw [← hasks, ← hfree, ← hpre, ← asks_eq w ev hk hst]
  have hpost := hlaw st hst
  unfold Step.spawned
  cases ha : st.asks w <;> cases hq : st.pre.asyncTask <;> simp_all

theorem deferred_act (hk : ev.kind ≠ .other) {s : Shared} {st : Step} {uri : Uri}
    (hst : st ∈ (schedule w ev maxReplyBatches 0 s).flatMap (·.steps))
    (hget : ev.uris[st.pos]? = some uri) (hd : hintOf w ev uri = .deferred) :
    (pairedArg w ev st.pos = none → st.act = .noArgs) ∧
      ((pairedArg w ev st.pos).isSome → st.act.entry = none) := by
  obtain ⟨rfl, hcall⟩ := (deferred_iff w uri ev.kind.discriminant).mp hd
  obtain ⟨args, hargs⟩ : ∃ args, ev.kind = .call args := by
    cases hkd : ev.kind <;> simp_all [EventKind.discriminant]
  have hta : ev.kind.takesArgs = true := by simp [hargs, EventKind.takesArgs]
  obtain ⟨uri', s', hget', -, hact⟩ := schedule_step_act w ev hta hst
  rw [hget] at hget'
  obtain rfl := Option.some.inj hget'
  refine ⟨fun h => ?_, fun h => ?_⟩
  · rw [hact, h, answer_noArgs w ev hta (by simp [accepted, hd, ReplySizeHint.accepts])]
  · obtain ⟨a, ha⟩ := Option.isSome_iff_exists.mp h
    rw [hact, ha, answer_async w ev hargs]
    rfl

/-- A deferred call leaves a trace: one successful spawn, or a committed error. -/
def DispState.keeps (st : DispState) (pos : Nat) : Prop :=
  st.steps.countP (fun t => t.pos == pos && t.spawned w) = 1 ∨
    ∃ r ∈ st.committed, r.kind = .callResults ∧
      ∃ e ∈ r.results, e.owner = pos ∧ e.result.isOk = false

instance (st : DispState) (pos : Nat) : Decidable (st.keeps w pos) :=
  inferInstanceAs (Decidable (_ ∨ ∃ r ∈ st.committed, _ ∧ ∃ e ∈ r.results, _))

/-- The URI is in one of the batches. With an argument: it decodes, the slot was free and
no deferred URI before it asked for it. Without: the batch has an immediate URI. -/
def keptAt (s : Shared) (pos : Nat) : Prop :=
  ∃ sg ∈ requestBatches w ev, sg.start ≤ pos ∧ pos < sg.stop ∧
    match pairedArg w ev pos with
    | some a => (desPoints w a).isSome ∧ s.asyncTask = none ∧ ∀ j < pos, asksAt w ev j = none
    | none => immediateReplies w ev sg ≠ 0

theorem countP_pos_one {steps : List Step} (hn : (steps.map (·.pos)).Nodup) {st : Step}
    (hst : st ∈ steps) (p : Step → Bool) :
    steps.countP (fun t => t.pos == st.pos && p t) = if p st then 1 else 0 := by
  obtain ⟨before, after, rfl⟩ := List.append_of_mem hst
  simp only [List.map_append, List.map_cons, List.nodup_append, List.nodup_cons] at hn
  have h1 : before.countP (fun t => t.pos == st.pos && p t) = 0 := by
    refine List.countP_eq_zero.mpr fun t ht => ?_
    have hne := hn.2.2 t.pos (List.mem_map_of_mem ht) st.pos (List.mem_cons_self ..)
    simp [hne]
  have h2 : after.countP (fun t => t.pos == st.pos && p t) = 0 := by
    refine List.countP_eq_zero.mpr fun t ht => ?_
    have hne : t.pos ≠ st.pos := fun h => hn.2.1.1 (h ▸ List.mem_map_of_mem ht)
    simp [hne]
  rw [List.countP_append, List.countP_cons, h1, h2]
  simp

theorem segment_step {s : Shared} {sg : Packing.Segment Uri} (hsg : sg ∈ requestBatches w ev)
    {pos : Nat} (hle : sg.start ≤ pos) (hlt : pos < sg.stop) :
    ∃ b ∈ schedule w ev maxReplyBatches 0 s, sg = b.segment ∧
      ∃ st ∈ b.steps, st.pos = pos := by
  rw [requestBatches, ← schedule_segments w ev _ _ s] at hsg
  obtain ⟨b, hb, rfl⟩ := List.mem_map.mp hsg
  have hlen := (schedule_batch w ev hb).2.1
  change pos < b.start + b.uris.length at hlt
  exact ⟨b, hb, rfl, batch_step w ev hb hle (by omega)⟩

theorem step_segment {s : Shared} {b : Batch} (hb : b ∈ schedule w ev maxReplyBatches 0 s)
    {st : Step} (hst : st ∈ b.steps) :
    b.segment ∈ requestBatches w ev ∧ b.segment.start ≤ st.pos ∧ st.pos < b.segment.stop := by
  have hlen := (schedule_batch w ev hb).2.1
  obtain ⟨m, hm, rfl⟩ := List.getElem_of_mem hst
  rw [batch_pos w ev hb hm]
  refine ⟨?_, Nat.le_add_right _ _, ?_⟩
  · rw [requestBatches, ← schedule_segments w ev _ _ s]
    exact List.mem_map_of_mem hb
  · change b.start + m < b.start + b.uris.length
    omega

theorem spawned_once_iff {args : List NibbleBuf} (hk : ev.kind = .call args) (s : Shared)
    (pos : Nat) :
    ((schedule w ev maxReplyBatches 0 s).flatMap (·.steps)).countP
        (fun t => t.pos == pos && t.spawned w) = 1 ↔
      (∃ sg ∈ requestBatches w ev, sg.start ≤ pos ∧ pos < sg.stop) ∧
        (asksAt w ev pos).isSome ∧ s.asyncTask = none ∧ ∀ j < pos, asksAt w ev j = none := by
  have hnodup := schedule_pos_nodup w ev maxReplyBatches 0 s
  constructor
  · intro hone
    obtain ⟨st, hst, hp⟩ := List.countP_pos_iff.mp (by rw [hone]; exact Nat.one_pos)
    simp only [Bool.and_eq_true, beq_iff_eq] at hp
    obtain ⟨rfl, hsp⟩ := hp
    obtain ⟨b, hb, hbst⟩ := List.mem_flatMap.mp hst
    exact ⟨⟨b.segment, step_segment w ev hb hbst⟩, (spawned_iff w ev hk hst).mp hsp⟩
  · rintro ⟨⟨sg, hsg, hle, hlt⟩, hasks⟩
    obtain ⟨b, hb, rfl, st, hbst, rfl⟩ := segment_step w ev (s := s) hsg hle hlt
    have hst := List.mem_flatMap.mpr ⟨b, hb, hbst⟩
    rw [countP_pos_one hnodup hst, (spawned_iff w ev hk hst).mpr hasks]
    rfl

theorem error_committed_iff {args : List NibbleBuf} (hk : ev.kind = .call args) (s : Shared)
    {pos : Nat} {uri : Uri} (hget : ev.uris[pos]? = some uri) (hd : hintOf w ev uri = .deferred) :
    (∃ r ∈ (schedule w ev maxReplyBatches 0 s).filterMap (·.reply w ev),
        r.kind = .callResults ∧ ∃ e ∈ r.results, e.owner = pos ∧ e.result.isOk = false) ↔
      ∃ sg ∈ requestBatches w ev, sg.start ≤ pos ∧ pos < sg.stop ∧
        pairedArg w ev pos = none ∧ immediateReplies w ev sg ≠ 0 := by
  have hno : ev.kind ≠ .other := by simp [hk]
  constructor
  · rintro ⟨r, hr, -, e, he, rfl, -⟩
    obtain ⟨b, hb, hbr⟩ := List.mem_filterMap.mp hr
    obtain ⟨himm, rfl⟩ := (Batch.reply_iff w ev).mp hbr
    obtain ⟨st, hbst, hown⟩ := List.mem_flatMap.mp he
    obtain ⟨hentry, howner⟩ : st.act.entry ≠ none ∧ e.owner = st.pos := by
      unfold Step.entries at hown
      cases hr : st.act.entry <;> simp [hr] at hown
      exact ⟨by simp, by rw [hown]⟩
    rw [howner] at hget ⊢
    have hst := List.mem_flatMap.mpr ⟨b, hb, hbst⟩
    obtain ⟨h1, h2, h3⟩ := step_segment w ev hb hbst
    refine ⟨b.segment, h1, h2, h3, ?_, himm⟩
    by_contra hp
    exact hentry ((deferred_act w ev hno hst hget hd).2 (Option.isSome_iff_ne_none.mpr hp))
  · rintro ⟨sg, hsg, hle, hlt, hp, himm⟩
    obtain ⟨b, hb, rfl, st, hbst, rfl⟩ := segment_step w ev (s := s) hsg hle hlt
    have hst := List.mem_flatMap.mpr ⟨b, hb, hbst⟩
    have hact := (deferred_act w ev hno hst hget hd).1 hp
    have hreply := (Batch.reply_iff w ev).mpr ⟨himm, rfl⟩
    refine ⟨_, List.mem_filterMap.mpr ⟨b, hb, hreply⟩, by simp [hk, resultsKind],
      ⟨st.pos, .error .noArgumentsProvided⟩, List.mem_flatMap.mpr ⟨st, hbst, ?_⟩, rfl, rfl⟩
    simp [Step.entries, hact, Act.entry]

theorem keeps_iff {args : List NibbleBuf} (hk : ev.kind = .call args) {grants : Nat → Bool}
    {s : Shared} (hok : (xpiDispatch w grants ev s).status = .ok) {pos : Nat} {uri : Uri}
    (hget : ev.uris[pos]? = some uri) (hd : hintOf w ev uri = .deferred) :
    (xpiDispatch w grants ev s).st.keeps w pos ↔ keptAt w ev s pos := by
  have hno : ev.kind ≠ .other := by simp [hk]
  obtain ⟨hstat, hsteps, hcom, -, -⟩ := xpiDispatch_perform w ev hno grants s
  rw [hstat] at hok
  obtain ⟨hall, hreplies⟩ := perform_ok w ev hok
  have hdec : asksAt w ev pos = (pairedArg w ev pos).bind (desPoints w) := by
    simp [asksAt, hget, hd]
  unfold DispState.keeps keptAt
  rw [hsteps, hcom, hall, hreplies, spawned_once_iff w ev hk,
    error_committed_iff w ev hk s hget hd, hdec]
  cases pairedArg w ev pos with
  | none => simp
  | some a =>
    simp only [Option.bind_some, reduceCtorEq, false_and, and_false, exists_false, or_false]
    constructor
    · rintro ⟨⟨sg, hsg, hle, hlt⟩, hasks⟩
      exact ⟨sg, hsg, hle, hlt, hasks⟩
    · rintro ⟨sg, hsg, hle, hlt, hasks⟩
      exact ⟨⟨sg, hsg, hle, hlt⟩, hasks⟩

theorem deferred_kept_iff {args : List NibbleBuf} (hk : ev.kind = .call args)
    (grants : Nat → Bool) (s : Shared) (hok : (xpiDispatch w grants ev s).status = .ok) :
    (∀ pos uri, ev.uris[pos]? = some uri → hintOf w ev uri = .deferred →
        (xpiDispatch w grants ev s).st.keeps w pos) ↔
      ∀ pos uri, ev.uris[pos]? = some uri → hintOf w ev uri = .deferred →
        keptAt w ev s pos :=
  forall₄_congr fun _ _ hget hd => keeps_iff w ev hk hok hget hd

end

def asyncTwice : Event where
  source := 3
  requestId := 3
  priority := 0
  resourceSet := ⟨[[6], [6]], 9⟩
  kind := .call (List.replicate 2 (List.replicate 16 (nibble 1)))

theorem asyncTwice_lost :
    (xpiDispatch .small (fun _ => true) asyncTwice .init).status = .ok ∧
      ¬ ∀ pos uri, asyncTwice.uris[pos]? = some uri → hintOf .small asyncTwice uri = .deferred →
        (xpiDispatch .small (fun _ => true) asyncTwice .init).st.keeps .small pos := by
  refine ⟨by decide +kernel, fun h => ?_⟩
  have hlost : ¬ (xpiDispatch .small (fun _ => true) asyncTwice .init).st.keeps .small 1 := by
    decide +kernel
  exact hlost (h 1 [6] rfl (by decide))

/-- A call of /sync and two of /async, with arguments for the first two. -/
def mixedCall : Event :=
  ⟨3, 3, 0, ⟨[[5], [6], [6]], 8⟩, .call (List.replicate 2 (List.replicate 16 (nibble 1)))⟩

theorem mixedCall_kept :
    (xpiDispatch .small (fun _ => true) mixedCall .init).status = .ok ∧
      (xpiDispatch .small (fun _ => true) mixedCall .init).st.steps.map (·.spawned .small) =
        [false, true, false] ∧
      (xpiDispatch .small (fun _ => true) mixedCall .init).st.committed.flatMap
        (·.results.map (·.owner)) = [0, 2] ∧
      ∀ pos uri, mixedCall.uris[pos]? = some uri → hintOf .small mixedCall uri = .deferred →
        (xpiDispatch .small (fun _ => true) mixedCall .init).st.keeps .small pos := by
  refine ⟨by decide +kernel, by decide +kernel, by decide +kernel, (deferred_kept_iff .small
    mixedCall rfl (fun _ => true) .init (by decide +kernel)).mpr fun pos uri hget hd => ?_⟩
  match pos with
  | 0 =>
    cases hget
    exact absurd hd (by decide)
  | 1 =>
    have none : ∀ j < 1, asksAt .small mixedCall j = none := by decide +kernel
    have pair : pairedArg .small mixedCall 1 = some (List.replicate 16 (nibble 1)) := by
      decide +kernel
    refine ⟨⟨0, [[5], [6], [6]]⟩, by decide +kernel, by decide, by decide, ?_⟩
    rw [pair]
    exact ⟨by decide, rfl, none⟩
  | 2 =>
    have pair : pairedArg .small mixedCall 2 = none := by decide +kernel
    refine ⟨⟨0, [[5], [6], [6]]⟩, by decide +kernel, by decide, by decide, ?_⟩
    rw [pair]
    exact (by decide : immediateReplies .small mixedCall ⟨0, [[5], [6], [6]]⟩ ≠ 0)
  | pos + 3 => cases hget

end VhlHackathon
