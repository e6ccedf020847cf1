import VhlHackathon.Answers
import VhlHackathon.Effects
set_option autoImplicit false

/-!
What a request means, without hints, batches, budgets and iterators: its URIs one after
another, each with the argument at its own position. Where the arguments are aligned, the
dispatcher's run is the interpretation of the URIs it gets to.
-/

namespace VhlHackathon

def interpretUri (w : Wire) (kind : EventKind) (uri : Uri)
    (arg : Option NibbleBuf) (s : Shared) : Option (Except XpiError NibbleBuf) × Shared :=
  match kind, uri, arg with
  | .read, [1], _ => (some (.ok (w.putU8 s.digit)), s)
  | .write _, [1], none | .call _, [5], none | .call _, [6], none =>
    (some (.error .noArgumentsProvided), s)
  | .write _, [1], some value =>
    match w.desU32 value with
    | none => (some (.error .nibbleBuf), s)
    | some digit =>
      (some (.ok []), { s with digit := digit.toUInt8, displayTask := spawn s.displayTask () })
  | .call _, [5], some args =>
    match desPoints w args with
    | none => (some (.error .nibbleBuf), s)
    | some (p1, p2) => (some (.ok ((sync p1 p2).serVlu4 w)), s)
  | .call _, [6], some args =>
    -- answered later, if ever
    match desPoints w args with
    | none => (none, s)
    | some points => (none, { s with asyncTask := spawn s.asyncTask points })
  | _, [], _ | _, [1], _ | _, [5], _ | _, [6], _ => (some (.error .operationNotSupported), s)
  | _, _ :: _, _ => (some (.error .badUri), s)

def interpret (w : Wire) (kind : EventKind) :
    Nat → List Uri → Shared → List (Except XpiError NibbleBuf) × Shared
  | _, [], s => ([], s)
  | pos, uri :: rest, s =>
    let first := interpretUri w kind uri kind.args[pos]? s
    let others := interpret w kind (pos + 1) rest first.2
    (first.1.toList ++ others.1, others.2)

section
variable (w : Wire) (ev : Event)

theorem interpretUri_rejected {uri : Uri} {maxSize rawSize : SerDesSize} {e : XpiError}
    (hint : hintOf w ev uri = .immediate maxSize rawSize (.error e)) (arg : Option NibbleBuf)
    (s : Shared) : interpretUri w ev.kind uri arg s = (some (.error e), s) := by
  rw [hintOf] at hint
  generalize ev.kind = kind at hint
  unfold replySizeHint at hint
  repeat' split at hint
  all_goals simp_all [notSupported, badUri]
  all_goals obtain ⟨-, -, rfl⟩ := hint
  all_goals cases kind <;> simp_all [interpretUri, EventKind.discriminant]

theorem answer_interprets (hk : ev.kind ≠ .other) (uri : Uri) (arg : Option NibbleBuf)
    (s : Shared) :
    ((answer w ev uri arg s).1.entry, (answer w ev uri arg s).2) =
      interpretUri w ev.kind uri arg s := by
  have h := answer_answered w ev hk uri arg s
  generalize answer w ev uri arg s = r at h ⊢
  cases h with
  | rejected arg hint => exact (interpretUri_rejected w ev hint arg s).symm
  | noArgs takes accepts =>
    cases kind : ev.kind with
    | call args =>
      rcases (accepted_call_iff w ev kind uri).mp accepts with rfl | rfl <;> rfl
    | write values =>
      obtain rfl := (accepted_write_iff w ev kind uri).mp accepts
      rfl
    | read => simp [kind, EventKind.takesArgs] at takes
    | other => exact absurd kind hk
  | sync kind a =>
    rw [kind]
    cases points : desPoints w a with
    | none => simp [Act.entry, dispatchCall, interpretUri, points]
    | some p =>
      simp [Act.entry, dispatchCall, interpretUri, points]
  | async kind a =>
    rw [kind]
    cases points : desPoints w a <;> simp [Act.entry, dispatchCall, interpretUri, points]
  | digit kind a =>
    rw [kind]
    cases value : w.desU32 a <;>
      simp [Act.entry, dispatchWrite, interpretUri, value, Except.map]
  | read kind arg =>
    rw [kind]
    simp [Act.entry, dispatchRead, interpretUri]

theorem interpretUri_async {uri : Uri} (hint : hintOf w ev uri = .deferred) (a : NibbleBuf)
    (s : Shared) : (interpretUri w ev.kind uri (some a) s).1 = none := by
  obtain ⟨rfl, call⟩ := (deferred_iff w uri ev.kind.discriminant).mp hint
  cases kind : ev.kind with
  | call args => cases points : desPoints w a <;> simp [interpretUri, points]
  | write values => simp [kind, EventKind.discriminant] at call
  | read => simp [kind, EventKind.discriminant] at call
  | other => simp [kind, EventKind.discriminant] at call

/-- Every accepted URI the run gets to is paired with the argument at its own position. -/
def alignedRun (grants : Nat → Bool) : Prop :=
  ∀ pos, executes w ev grants pos → acceptedAt w ev pos = true →
    pairedIndex w ev pos < ev.kind.args.length → ev.kind.args[pos]? = pairedArg w ev pos

theorem interpretUri_paired (hk : ev.kind ≠ .other) {s : Shared} {st : Step}
    (hst : st ∈ (schedule w ev maxReplyBatches 0 s).flatMap (·.steps))
    (aligned : acceptedAt w ev st.pos = true → pairedIndex w ev st.pos < ev.kind.args.length →
      ev.kind.args[st.pos]? = pairedArg w ev st.pos) :
    ∃ uri, ev.uris[st.pos]? = some uri ∧
      (st.act.entry, st.post) =
        interpretUri w ev.kind uri ev.kind.args[st.pos]? st.pre := by
  obtain ⟨b, -, s', before, uri, after, -, hsplit, hstep⟩ := mem_schedule_steps w ev hst
  have position := (batchAt_get w ev hsplit).1
  have same : st.pos = b.start + before.length := by rw [hstep]; rfl
  have answered : (st.act.entry, st.post) =
      interpretUri w ev.kind uri ev.kind.args[st.argPos]? st.pre := by
    rw [← answer_interprets w ev hk, hstep]
    rfl
  rw [same] at aligned ⊢
  refine ⟨uri, position, answered.trans ?_⟩
  by_cases accepts : accepted w ev uri = true
  · by_cases takes : ev.kind.takesArgs = true
    · obtain ⟨-, -, -, -, paired, le⟩ := schedule_step_arg w ev takes hst
      rw [same] at paired le
      rw [paired]
      by_cases inside : pairedIndex w ev (b.start + before.length) < ev.kind.args.length
      · rw [aligned (by simp [acceptedAt, position, accepts]) inside]
      · -- the list is used up, by position as by rank
        have past : ev.kind.args.length ≤ b.start + before.length := by omega
        rw [pairedArg, List.getElem?_eq_none_iff.mpr (Nat.not_lt.mp inside),
          List.getElem?_eq_none_iff.mpr past]
    · cases kind : ev.kind with
      | call args => simp [kind, EventKind.takesArgs] at takes
      | write values => simp [kind, EventKind.takesArgs] at takes
      | read => rfl
      | other => exact absurd kind hk
  · obtain ⟨maxSize, rawSize, e, hint⟩ := hintOf_rejected w ev (by simpa using accepts)
    rw [interpretUri_rejected w ev hint, interpretUri_rejected w ev hint]

theorem steps_interpret {pos : Nat} {s : Shared} {steps : List Step} (linked : Linked s steps)
    (positions : steps.map (·.pos) = List.range' pos steps.length)
    (each : ∀ st ∈ steps, ∃ uri, ev.uris[st.pos]? = some uri ∧
      (st.act.entry, st.post) =
        interpretUri w ev.kind uri ev.kind.args[st.pos]? st.pre) :
    ((steps.flatMap (·.entries)).map (·.result), endShared s steps) =
      interpret w ev.kind pos ((ev.uris.drop pos).take steps.length) s := by
  induction steps generalizing pos s with
  | nil => rfl
  | cons st rest ih =>
    obtain ⟨pre, linked⟩ := linked
    rw [List.map_cons, List.length_cons, List.range'_succ, List.cons.injEq] at positions
    obtain ⟨here, positions⟩ := positions
    obtain ⟨⟨uri, hget, answered⟩, each⟩ := List.forall_mem_cons.mp each
    rw [here] at hget answered
    rw [pre] at answered
    have found : (ev.uris.drop pos).take (rest.length + 1) =
        uri :: (ev.uris.drop (pos + 1)).take rest.length := by
      obtain ⟨inside, rfl⟩ := List.getElem?_eq_some_iff.mp hget
      rw [List.drop_eq_getElem_cons inside, List.take_succ_cons]
    have others := ih linked positions each
    have entries : (st.entries.map (·.result)) = st.act.entry.toList := by
      cases h : st.act.entry <;> simp [Step.entries, h]
    rw [List.length_cons, found, interpret, ← answered]
    dsimp only
    rw [← others, List.flatMap_cons, List.map_append, entries]
    rfl

theorem run_positions (hk : ev.kind ≠ .other) (grants : Nat → Bool) (s : Shared) :
    (xpiDispatch w grants ev s).st.steps.map (·.pos) =
      List.range' 0 (xpiDispatch w grants ev s).st.steps.length := by
  obtain ⟨rest, split⟩ :=
    perform_steps_of_schedule w ev grants 0 (schedule w ev maxReplyBatches 0 s)
  have all := schedule_pos w ev maxReplyBatches 0 s
  rw [← split, List.map_append, List.length_append, ← List.range'_append_1] at all
  rw [(xpiDispatch_perform w ev hk grants s).2.1]
  exact (List.append_inj all (by simp)).1

theorem replies_say_all {bs : List Batch}
    (h : ∀ b ∈ bs, b.immediate w ev = 0 → b.entries = []) :
    (bs.filterMap (·.reply w ev)).flatMap (·.results) = bs.flatMap (·.entries) := by
  induction bs with
  | nil => rfl
  | cons b rest ih =>
    obtain ⟨hb, hrest⟩ := List.forall_mem_cons.mp h
    rw [List.flatMap_cons]
    by_cases none : b.immediate w ev = 0
    · have silent : b.reply w ev = Option.none := if_pos none
      rw [List.filterMap_cons_none silent, ih hrest, hb none, List.nil_append]
    · rw [List.filterMap_cons_some ((Batch.reply_iff w ev).mpr ⟨none, rfl⟩), List.flatMap_cons,
        ih hrest]

theorem deferred_silent {s : Shared} {b : Batch}
    (hb : b ∈ schedule w ev maxReplyBatches 0 s)
    (given : ∀ st ∈ b.steps, ∀ uri, ev.uris[st.pos]? = some uri → hintOf w ev uri = .deferred →
      st.act.entry = none) (none : b.immediate w ev = 0) : b.entries = [] := by
  refine List.flatMap_eq_nil_iff.mpr fun st hst => ?_
  obtain ⟨s', hbs, -, -⟩ := mem_schedule w ev hb
  have hst' := hst
  rw [hbs] at hst'
  obtain ⟨before, uri, after, hsplit, hstep⟩ := mem_plan w ev hst'
  have position : ev.uris[st.pos]? = some uri := by
    rw [hstep]
    exact (batchAt_get w ev hsplit).1
  have member : uri ∈ b.uris := by
    rw [hbs]
    change uri ∈ batchAt w ev b.start
    rw [hsplit]
    exact List.mem_append_right before List.mem_cons_self
  have deferred : hintOf w ev uri = .deferred := by
    have notImmediate := List.countP_eq_zero.mp none uri member
    cases hint : hintOf w ev uri with
    | deferred => rfl
    | immediate maxSize rawSize result => simp [hint, ReplySizeHint.isImmediate] at notImmediate
  simp [Step.entries, given st hst uri position deferred]

theorem run_step_interpreted (hk : ev.kind ≠ .other) {grants : Nat → Bool} {s : Shared}
    (aligned : alignedRun w ev grants) {st : Step}
    (ran : st ∈ (xpiDispatch w grants ev s).st.steps) :
    ∃ uri, ev.uris[st.pos]? = some uri ∧
      (st.act.entry, st.post) =
        interpretUri w ev.kind uri ev.kind.args[st.pos]? st.pre :=
  interpretUri_paired w ev hk (run_steps_subset w ev hk ran)
    (aligned st.pos ((executes_iff w ev hk grants s st.pos).mpr ⟨st, ran, rfl⟩))

theorem run_interpreted (hk : ev.kind ≠ .other) {grants : Nat → Bool} (s : Shared)
    (aligned : alignedRun w ev grants) :
    (((xpiDispatch w grants ev s).st.steps.flatMap (·.entries)).map (·.result),
        (xpiDispatch w grants ev s).st.shared) =
      interpret w ev.kind 0
        (ev.uris.take (xpiDispatch w grants ev s).st.steps.length) s := by
  have whole := steps_interpret w ev (run_linked w ev hk grants s)
    (run_positions w ev hk grants s) fun st ran => run_step_interpreted w ev hk aligned ran
  obtain ⟨-, hsteps, -, hshared, -⟩ := xpiDispatch_perform w ev hk grants s
  have left : (xpiDispatch w grants ev s).st.shared =
      endShared s (xpiDispatch w grants ev s).st.steps := by
    rw [hshared, ← hsteps]
  rw [left]
  exact whole

theorem ok_entries (hk : ev.kind ≠ .other) {grants : Nat → Bool} {s : Shared}
    (aligned : alignedRun w ev grants) (ok : (xpiDispatch w grants ev s).status = .ok)
    (given : ∀ pos uri, executes w ev grants pos → ev.uris[pos]? = some uri →
      hintOf w ev uri = .deferred → pos < ev.kind.args.length) :
    (xpiDispatch w grants ev s).st.committed.flatMap (·.results) =
      (xpiDispatch w grants ev s).st.steps.flatMap (·.entries) := by
  obtain ⟨hstatus, hsteps, hcom, -, -⟩ := xpiDispatch_perform w ev hk grants s
  rw [hstatus] at ok
  obtain ⟨all, replies⟩ := perform_ok w ev ok
  rw [hcom, replies, hsteps, all, List.flatMap_assoc]
  refine replies_say_all w ev fun b hb => deferred_silent w ev hb fun st hst uri hget hd => ?_
  have ran : st ∈ (xpiDispatch w grants ev s).st.steps := by
    rw [hsteps, all]
    exact List.mem_flatMap.mpr ⟨b, hb, hst⟩
  obtain ⟨uri', hget', answered⟩ := run_step_interpreted w ev hk aligned ran
  rw [hget, Option.some.injEq] at hget'
  subst hget'
  have inside := given st.pos uri ((executes_iff w ev hk grants s st.pos).mpr ⟨st, ran, rfl⟩)
    hget hd
  rw [List.getElem?_eq_getElem inside] at answered
  exact (congrArg Prod.fst answered).trans (interpretUri_async w ev hd _ st.pre)

/-- Where the arguments are aligned, a run of the dispatcher, with its batches, budgets and
grants, leaves the resources that interpreting the URIs it got to leaves; and if it returns
Ok and no asynchronous call lacks its argument, the results it committed are those of the
interpretation. -/
theorem dispatch_interprets (hk : ev.kind ≠ .other) (grants : Nat → Bool) (s : Shared)
    (aligned : alignedRun w ev grants) :
    let r := xpiDispatch w grants ev s
    let meaning := interpret w ev.kind 0 (ev.uris.take r.st.steps.length) s
    r.st.shared = meaning.2 ∧
      (r.status = .ok →
        (∀ pos uri, executes w ev grants pos → ev.uris[pos]? = some uri →
          hintOf w ev uri = .deferred → pos < ev.kind.args.length) →
        (r.st.committed.flatMap (·.results)).map (·.result) = meaning.1) := by
  intro r meaning
  have whole := run_interpreted w ev hk s aligned
  refine ⟨congrArg Prod.snd whole, fun ok given => ?_⟩
  rw [ok_entries w ev hk aligned ok given]
  exact congrArg Prod.fst whole

end

def twoCalls : Event where
  source := 3
  requestId := 3
  priority := 0
  resourceSet := ⟨[[5], [6]], 6⟩
  kind := .call [Point.serVlu4 .small ⟨7, 2⟩ ++ Point.serVlu4 .small ⟨1, 3⟩,
    Point.serVlu4 .small ⟨1, 1⟩ ++ Point.serVlu4 .small ⟨2, 2⟩]

theorem twoCalls_interpreted :
    let r := xpiDispatch .small (fun _ => true) twoCalls .init
    let meaning := interpret .small twoCalls.kind 0 (twoCalls.uris.take r.st.steps.length)
      .init
    r.st.steps.length = 2 ∧ r.st.shared.asyncTask = some (⟨1, 1⟩, ⟨2, 2⟩) ∧
      r.st.shared = meaning.2 ∧
      (r.st.committed.flatMap (·.results)).map (·.result) = meaning.1 ∧
      meaning.1 = [.ok (Point.serVlu4 .small ⟨8, 5⟩)] := by
  have aligned : alignedRun .small twoCalls fun _ => true := by
    intro pos _ accepts _
    match pos with
    | 0 => decide +kernel
    | 1 => decide +kernel
    | pos + 2 => simp [acceptedAt, Event.uris, twoCalls] at accepts
  obtain ⟨left, results⟩ :=
    dispatch_interprets .small twoCalls (by decide) (fun _ => true) .init aligned
  refine ⟨by decide +kernel, by decide +kernel, left, results (by decide +kernel) ?_,
    by decide +kernel⟩
  intro pos uri _ hget _
  exact (List.getElem?_eq_some_iff.mp hget).1

end VhlHackathon
