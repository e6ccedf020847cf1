import VhlHackathon.Steps
set_option autoImplicit false

/-!
What a request makes the dispatcher do, read off the request alone: which URIs share a
batch, which argument each is paired with, and how long a batch's reply gets.
-/

namespace VhlHackathon

section
variable (w : Wire) (ev : Event)

def acceptedBetween (start pos : Nat) : Nat :=
  ((ev.uris.drop start).take (pos - start)).countP (accepted w ev)

/-- The index of the argument a URI is paired with: its rank among the accepted URIs of
its own batch, since every batch starts the argument list anew. -/
def pairedIndex (pos : Nat) : Nat :=
  acceptedBetween w ev (batchStart w ev maxReplyBatches 0 pos) pos

def acceptedAt (pos : Nat) : Bool := ev.uris[pos]?.any (accepted w ev)

def pairedArg (pos : Nat) : Option NibbleBuf := ev.kind.args[pairedIndex w ev pos]?

theorem acceptedBetween_le (start pos : Nat) (h : start ≤ pos) :
    acceptedBetween w ev start pos ≤ pos := by
  have h1 : acceptedBetween w ev start pos ≤ ((ev.uris.drop start).take (pos - start)).length :=
    List.countP_le_length
  have h2 := List.length_take_le (pos - start) (ev.uris.drop start)
  omega

theorem schedule_step_arg (hk : ev.kind.takesArgs = true) {s : Shared} {st : Step}
    (h : st ∈ (schedule w ev maxReplyBatches 0 s).flatMap (·.steps)) :
    ∃ uri s', ev.uris[st.pos]? = some uri ∧ st = stepAt w ev st.pos st.argPos s' uri ∧
      ev.kind.args[st.argPos]? = pairedArg w ev st.pos ∧ pairedIndex w ev st.pos ≤ st.pos := by
  obtain ⟨b, hb, s', before, uri, after, hbs, hsplit, rfl⟩ := mem_schedule_steps w ev h
  have hlt : b.start + before.length < b.start + (batchAt w ev b.start).length := by
    rw [hsplit]; simp
  have hstart := batchStart_eq w ev hb (Nat.le_add_right _ _) hlt
  have hpair : pairedIndex w ev (b.start + before.length) = before.countP (accepted w ev) := by
    rw [pairedIndex, hstart, acceptedBetween, Nat.add_sub_cancel_left,
      (batchAt_get w ev hsplit).2]
  have htaken := plan_taken w ev hk b.start 0 s' before (Nat.zero_le _)
  rw [Nat.zero_add, Nat.zero_add] at htaken
  refine ⟨uri, _, (batchAt_get w ev hsplit).1, rfl, ?_, ?_⟩
  · simp only [stepAt, pairedArg, hpair, htaken]
    rcases Nat.le_total (before.countP (accepted w ev)) ev.kind.args.length with hle | hle
    · rw [Nat.min_eq_left hle]
    · rw [Nat.min_eq_right hle, List.getElem?_eq_none_iff.mpr hle,
        List.getElem?_eq_none_iff.mpr (Nat.le_refl _)]
  · simp only [stepAt]
    rw [pairedIndex, hstart]
    exact acceptedBetween_le w ev _ _ (Nat.le_add_right _ _)

theorem schedule_step_act (hk : ev.kind.takesArgs = true) {s : Shared} {st : Step}
    (h : st ∈ (schedule w ev maxReplyBatches 0 s).flatMap (·.steps)) :
    ∃ uri s', ev.uris[st.pos]? = some uri ∧ st.hint = some (hintOf w ev uri) ∧
      st.act = (answer w ev uri (pairedArg w ev st.pos) s').1 := by
  obtain ⟨uri, s', hget, hstep, harg, -⟩ := schedule_step_arg w ev hk h
  refine ⟨uri, s', hget, by rw [hstep]; rfl, ?_⟩
  rw [← harg]
  conv_lhs => rw [hstep]
  rfl

/-- The nibbles of the result entry for a URI next to its argument, if it gets one. -/
def entryNibbles (uri : Uri) (arg : Option NibbleBuf) : Option Nat :=
  match hintOf w ev uri, ev.kind, arg with
  | .immediate _ _ (.error e), _, _ => some (w.errLen e)
  | .immediate _ _ (.ok _), .call _, some argsNrd =>
    some (if (desPoints w argsNrd).isSome then w.okSlice 8 else w.errLen .nibbleBuf)
  | .immediate _ _ (.ok _), .write _, some valueNrd =>
    some (if (w.desU32 valueNrd).isSome then w.okUnit else w.errLen .nibbleBuf)
  | .immediate _ _ (.ok _), .read, _ => some (w.okSlice 2)
  | .deferred, _, some _ => none
  | _, _, _ => some (w.errLen .noArgumentsProvided)

theorem stepAt_entryNibbles (hk : ev.kind ≠ .other) (pos argPos : Nat) (s : Shared) (uri : Uri) :
    (stepAt w ev pos argPos s uri).act.entry.map (kindCost w ev.kind) =
      entryNibbles w ev uri ev.kind.args[argPos]? := by
  have h := answer_answered w ev hk uri ev.kind.args[argPos]? s
  simp only [stepAt]
  generalize answer w ev uri ev.kind.args[argPos]? s = r at h ⊢
  generalize ev.kind.args[argPos]? = arg at h ⊢
  cases h with
  | rejected arg hint =>
    cases hkd : ev.kind <;>
      simp [entryNibbles, hint, Act.entry, kindCost, Wire.sliceEntry, Wire.unitEntry]
  | noArgs takes hint =>
    cases hkd : ev.kind with
    | call args =>
      rcases (accepted_call_iff w ev hkd uri).mp hint with rfl | rfl <;>
        simp [entryNibbles, hintOf, hkd, EventKind.discriminant, replySizeHint, Act.entry,
          kindCost, Wire.sliceEntry]
    | write values =>
      obtain rfl := (accepted_write_iff w ev hkd uri).mp hint
      simp [entryNibbles, hintOf, hkd, EventKind.discriminant, replySizeHint, Act.entry,
        kindCost, Wire.unitEntry]
    | read => simp [hkd, EventKind.takesArgs] at takes
    | other => simp [hkd, EventKind.takesArgs] at takes
  | sync kind a =>
    cases hd : desPoints w a <;>
      simp [entryNibbles, hintOf, kind, EventKind.discriminant, replySizeHint, Act.entry,
        kindCost, Wire.sliceEntry, dispatchCall, hd, Point.length_serVlu4]
  | async kind a =>
    simp [entryNibbles, hintOf, kind, EventKind.discriminant, replySizeHint, Act.entry]
  | digit kind a =>
    cases hd : w.desU32 a <;>
      simp [entryNibbles, hintOf, kind, EventKind.discriminant, replySizeHint, Act.entry,
        kindCost, Wire.unitEntry, dispatchWrite, hd, Except.map]
  | read kind arg =>
    simp [entryNibbles, hintOf, kind, EventKind.discriminant, replySizeHint, Act.entry,
      kindCost, Wire.sliceEntry, dispatchRead]

def uriNibbles (pos : Nat) : Option Nat :=
  ev.uris[pos]?.bind fun uri => entryNibbles w ev uri (pairedArg w ev pos)

theorem schedule_step_nibbles (hk : ev.kind ≠ .other) {s : Shared} {st : Step}
    (h : st ∈ (schedule w ev maxReplyBatches 0 s).flatMap (·.steps)) :
    st.act.entry.map (kindCost w ev.kind) = uriNibbles w ev st.pos := by
  by_cases hta : ev.kind.takesArgs = true
  · obtain ⟨uri, s', hget, hst, harg, -⟩ := schedule_step_arg w ev hta h
    rw [uriNibbles, hget, Option.bind_some, ← harg]
    conv_lhs => rw [hst]
    exact stepAt_entryNibbles w ev hk _ _ _ _
  · obtain ⟨b, -, s', before, uri, after, -, hsplit, rfl⟩ := mem_schedule_steps w ev h
    have hargs : ev.kind.args = [] := by
      cases hkd : ev.kind <;> simp_all [EventKind.takesArgs, EventKind.args]
    rw [stepAt_entryNibbles w ev hk, uriNibbles, pairedArg, hargs]
    simp only [stepAt, (batchAt_get w ev hsplit).1, Option.bind_some, List.getElem?_nil]

def requestBatches : List (Packing.Segment Uri) :=
  Packing.segments (hintCost w ev) maxReplyBatchLen replyNibbles ev.uris maxReplyBatches 0

def Batch.segment (b : Batch) : Packing.Segment Uri := ⟨b.start, b.uris⟩

theorem schedule_segments (n pos : Nat) (s : Shared) :
    (schedule w ev n pos s).map Batch.segment =
      Packing.segments (hintCost w ev) maxReplyBatchLen replyNibbles ev.uris n pos := by
  induction n generalizing pos s with
  | zero => rfl
  | succ n ih =>
    have hu : (batchOf w ev pos s).uris = Packing.batch (hintCost w ev) maxReplyBatchLen
        replyNibbles (ev.uris.drop pos) := rfl
    simp only [schedule, Packing.segments, hu]
    split
    · rfl
    · simp only [List.map_cons, ih]
      rfl

theorem schedule_items (n pos : Nat) (s : Shared) :
    (schedule w ev n pos s).flatMap (·.uris) =
      (Packing.segments (hintCost w ev) maxReplyBatchLen replyNibbles ev.uris n pos).flatMap
        (·.items) := by
  rw [← schedule_segments w ev n pos s, List.flatMap_map]
  rfl

theorem schedule_steps_length (n pos : Nat) (s : Shared) :
    ((schedule w ev n pos s).flatMap (·.steps)).length =
      ((schedule w ev n pos s).flatMap (·.uris)).length := by
  rw [List.length_flatMap, List.length_flatMap]
  refine congrArg List.sum (List.map_congr_left fun b hb => ?_)
  exact (schedule_batch w ev hb).2.1

theorem schedule_uris (s : Shared) :
    (schedule w ev maxReplyBatches 0 s).flatMap (·.uris) =
      ev.uris.take ((schedule w ev maxReplyBatches 0 s).flatMap (·.steps)).length := by
  have hprefix := Packing.segments_prefix (hintCost w ev) maxReplyBatchLen replyNibbles
    maxReplyBatches ev.uris 0
  rw [← schedule_items w ev maxReplyBatches 0 s, List.drop_zero] at hprefix
  rw [schedule_steps_length]
  exact List.prefix_iff_eq_take.mp hprefix

theorem requestBatches_get {k : Nat} (s : Shared) {sg : Packing.Segment Uri} :
    (requestBatches w ev)[k]? = some sg ↔
      ∃ b, (schedule w ev maxReplyBatches 0 s)[k]? = some b ∧ b.segment = sg := by
  rw [requestBatches, ← schedule_segments w ev _ _ s, List.getElem?_map, Option.map_eq_some_iff]

theorem segment_get {k : Nat} {s : Shared} {b : Batch}
    (h : (schedule w ev maxReplyBatches 0 s)[k]? = some b) :
    (requestBatches w ev)[k]? = some b.segment :=
  (requestBatches_get w ev s).mpr ⟨b, h, rfl⟩

def replyCosts (sg : Packing.Segment Uri) : List (Option Nat) :=
  (List.range' sg.start sg.items.length).map (uriNibbles w ev)

def replyLength (sg : Packing.Segment Uri) : Nat :=
  fixedNibbles w ev + ((replyCosts w ev sg).map (·.getD 0)).sum +
    w.vecLen ((replyCosts w ev sg).countP (·.isSome)) + w.tail

def immediateReplies (sg : Packing.Segment Uri) : Nat :=
  sg.items.countP fun uri => (hintOf w ev uri).isImmediate

/-- How many URIs of a batch are dispatched before its reply is full. -/
def dispatched (sg : Packing.Segment Uri) : Nat :=
  if fixedNibbles w ev ≤ 2 * replyMtu then
    Packing.tried (2 * replyMtu) (fixedNibbles w ev) ((replyCosts w ev sg).map (·.getD 0))
  else 0

theorem batch_costs (hk : ev.kind ≠ .other) {s : Shared} {b : Batch}
    (hb : b ∈ schedule w ev maxReplyBatches 0 s) :
    b.steps.map (fun st => st.act.entry.map (kindCost w ev.kind)) =
      replyCosts w ev b.segment := by
  unfold replyCosts Batch.segment
  rw [← (schedule_batch w ev hb).2.2, List.map_map]
  refine List.map_congr_left fun st hst => ?_
  exact schedule_step_nibbles w ev hk (List.mem_flatMap.mpr ⟨b, hb, hst⟩)

theorem batch_nibbles (hk : ev.kind ≠ .other) {s : Shared} {b : Batch}
    (hb : b ∈ schedule w ev maxReplyBatches 0 s) :
    b.nibbles w ev = replyLength w ev b.segment := by
  have hsum : (b.steps.map (stepNibbles w ev)).sum =
      ((replyCosts w ev b.segment).map (·.getD 0)).sum := by
    rw [← batch_costs w ev hk hb, List.map_map]; rfl
  have hcount : b.entries.length = (replyCosts w ev b.segment).countP (·.isSome) := by
    rw [← batch_costs w ev hk hb, Batch.entries, entries_length, List.countP_map]
    refine List.countP_congr fun st _ => ?_
    simp
  rw [Batch.nibbles, replyLength, hsum, hcount]

theorem fits_iff (hk : ev.kind ≠ .other) {s : Shared} {b : Batch}
    (hb : b ∈ schedule w ev maxReplyBatches 0 s) :
    b.fits w ev ↔ replyLength w ev b.segment ≤ 2 * replyMtu := by
  rw [Batch.fits, batch_nibbles w ev hk hb]

theorem fits_get_iff (hk : ev.kind ≠ .other) (s : Shared) (k : Nat) :
    (∀ sg ∈ (requestBatches w ev)[k]?, replyLength w ev sg ≤ 2 * replyMtu) ↔
      ∀ b ∈ (schedule w ev maxReplyBatches 0 s)[k]?, b.fits w ev := by
  constructor
  · intro h b hb
    exact (fits_iff w ev hk (List.mem_of_getElem? hb)).mpr (h _ (segment_get w ev hb))
  · intro h sg hsg
    obtain ⟨b, hb, rfl⟩ := (requestBatches_get w ev s).mp hsg
    exact (fits_iff w ev hk (List.mem_of_getElem? hb)).mp (h b hb)

theorem untilFull_eq_take (used : Nat) (steps : List Step) :
    untilFull w ev used steps =
      steps.take (Packing.tried (2 * replyMtu) used (steps.map (stepNibbles w ev))) := by
  induction steps generalizing used with
  | nil => rfl
  | cons st rest ih =>
    simp only [untilFull, List.map_cons, Packing.tried]
    split
    · rw [ih, List.take_succ_cons]
    · simp

theorem batch_cut (hk : ev.kind ≠ .other) {s : Shared} {b : Batch}
    (hb : b ∈ schedule w ev maxReplyBatches 0 s) :
    b.cut w ev = b.steps.take (dispatched w ev b.segment) := by
  have hcosts : b.steps.map (stepNibbles w ev) =
      (replyCosts w ev b.segment).map (·.getD 0) := by
    rw [← batch_costs w ev hk hb, List.map_map]; rfl
  unfold Batch.cut dispatched
  split
  · rw [untilFull_eq_take, hcosts]
  · rfl

/-- The run gets as far as the `k`-th batch: every grant up to it is given and every
earlier reply fits. -/
def reached (grants : Nat → Bool) (k : Nat) : Prop :=
  (∀ j ≤ k, grants j = true) ∧
    ∀ j < k, ∀ sg ∈ (requestBatches w ev)[j]?, replyLength w ev sg ≤ 2 * replyMtu

def executes (grants : Nat → Bool) (pos : Nat) : Prop :=
  ∃ k sg, (requestBatches w ev)[k]? = some sg ∧ reached w ev grants k ∧
    sg.start ≤ pos ∧ pos < sg.start + dispatched w ev sg

theorem reached_iff (hk : ev.kind ≠ .other) (grants : Nat → Bool) (s : Shared) (k : Nat) :
    reached w ev grants k ↔ (∀ j ≤ k, grants j = true) ∧
      ∀ j < k, ∀ b ∈ (schedule w ev maxReplyBatches 0 s)[j]?, b.fits w ev :=
  and_congr_right fun _ => forall₂_congr fun j _ => fits_get_iff w ev hk s j

theorem batch_pos {n pos : Nat} {s : Shared} {b : Batch} (hb : b ∈ schedule w ev n pos s)
    {m : Nat} (hm : m < b.steps.length) : b.steps[m].pos = b.start + m := by
  obtain ⟨-, hlen, hpos⟩ := schedule_batch w ev hb
  have h := congrArg (·[m]?) hpos
  simpa [hm, List.getElem?_range' (hlen ▸ hm)] using h

theorem batch_step {n p : Nat} {s : Shared} {b : Batch} (hb : b ∈ schedule w ev n p s)
    {pos : Nat} (hle : b.start ≤ pos) (hlt : pos < b.start + b.steps.length) :
    ∃ st ∈ b.steps, st.pos = pos := by
  have hm : pos - b.start < b.steps.length := by omega
  refine ⟨b.steps[pos - b.start], List.getElem_mem hm, ?_⟩
  rw [batch_pos w ev hb hm]
  omega

theorem dispatched_le {n pos : Nat} {s : Shared} {b : Batch} (hb : b ∈ schedule w ev n pos s) :
    dispatched w ev b.segment ≤ b.steps.length := by
  have hlen := (schedule_batch w ev hb).2.1
  unfold dispatched
  split
  · refine (Packing.tried_le_length _ _ _).trans ?_
    simp [replyCosts, Batch.segment, hlen]
  · omega

theorem executes_iff (hk : ev.kind ≠ .other) (grants : Nat → Bool) (s : Shared) (pos : Nat) :
    executes w ev grants pos ↔ ∃ st ∈ (xpiDispatch w grants ev s).st.steps, st.pos = pos := by
  rw [(xpiDispatch_perform w ev hk grants s).2.1]
  simp only [mem_perform_steps_iff]
  constructor
  · rintro ⟨k, sg, hsg, hr, hle, hlt⟩
    obtain ⟨b, hb, rfl⟩ := (requestBatches_get w ev s).mp hsg
    have hmem := List.mem_of_getElem? hb
    have hd := dispatched_le w ev hmem
    obtain ⟨hg, hf⟩ := (reached_iff w ev hk grants s k).mp hr
    change b.start ≤ pos at hle
    change pos < b.start + _ at hlt
    have hi : pos - b.start < b.steps.length := by omega
    refine ⟨b.steps[pos - b.start], ⟨k, b, hb, hg, hf, ?_⟩, ?_⟩
    · rw [batch_cut w ev hk hmem]
      exact List.mem_take_iff_getElem.mpr ⟨pos - b.start, by omega, rfl⟩
    · rw [batch_pos w ev hmem hi]
      omega
  · rintro ⟨st, ⟨k, b, hb, hg, hf, hst⟩, rfl⟩
    have hmem := List.mem_of_getElem? hb
    rw [batch_cut w ev hk hmem] at hst
    obtain ⟨m, hm, rfl⟩ := List.mem_take_iff_getElem.mp hst
    rw [batch_pos w ev hmem (by omega)]
    exact ⟨k, b.segment, segment_get w ev hb,
      (reached_iff w ev hk grants s k).mpr ⟨hg, hf⟩, Nat.le_add_right _ _,
      Nat.add_lt_add_left (by omega) _⟩

end

end VhlHackathon
