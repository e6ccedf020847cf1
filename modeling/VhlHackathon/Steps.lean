import VhlHackathon.Perform
set_option autoImplicit false

/-!
What the steps of a schedule look like: which answer a URI gets, where its step
stands in the request, and which argument it was paired with.
-/

namespace VhlHackathon

def Linked : Shared → List Step → Prop
  | _, [] => True
  | s, st :: rest => st.pre = s ∧ Linked st.post rest

theorem linked_append (s : Shared) (xs ys : List Step) :
    Linked s (xs ++ ys) ↔ Linked s xs ∧ Linked (endShared s xs) ys := by
  induction xs generalizing s with
  | nil => simp [Linked, endShared]
  | cons st rest ih =>
    simp only [List.cons_append, Linked, ih, and_assoc, endShared, List.foldl_cons]

section
variable (w : Wire) (ev : Event)

theorem hintOf_rejected {uri : Uri} (h : accepted w ev uri = false) :
    ∃ maxSize rawSize e, hintOf w ev uri = .immediate maxSize rawSize (.error e) := by
  unfold accepted at h
  cases hh : hintOf w ev uri with
  | immediate maxSize rawSize r =>
    cases r with
    | ok _ => simp [hh, ReplySizeHint.accepts] at h
    | error e => exact ⟨maxSize, rawSize, e, rfl⟩
  | deferred => simp [hh, ReplySizeHint.accepts] at h

theorem answer_error (hk : ev.kind ≠ .other) {uri : Uri} {maxSize rawSize : SerDesSize}
    {e : XpiError} (h : hintOf w ev uri = .immediate maxSize rawSize (.error e))
    (arg : Option NibbleBuf) (s : Shared) : answer w ev uri arg s = (.rejected e, s) := by
  unfold answer
  rw [h]
  cases hkd : ev.kind with
  | call args => rfl
  | write values => rfl
  | read => rfl
  | other => exact absurd hkd hk

theorem accepted_call_iff {args : List NibbleBuf} (hk : ev.kind = .call args) (uri : Uri) :
    accepted w ev uri = true ↔ uri = [5] ∨ uri = [6] := by
  simp [accepted, hintOf, accepts_iff, hk, EventKind.discriminant]

theorem accepted_write_iff {values : List NibbleBuf} (hk : ev.kind = .write values)
    (uri : Uri) : accepted w ev uri = true ↔ uri = [1] := by
  simp [accepted, hintOf, accepts_iff, hk, EventKind.discriminant]

theorem accepted_read_iff (hk : ev.kind = .read) (uri : Uri) :
    accepted w ev uri = true ↔ uri = [1] := by
  simp [accepted, hintOf, accepts_iff, hk, EventKind.discriminant]

/-- Call and Write pair their accepted URIs with arguments, Read does not. -/
def EventKind.takesArgs : EventKind → Bool
  | .call _ | .write _ => true
  | .read | .other => false

theorem answer_noArgs {uri : Uri} (hk : ev.kind.takesArgs = true)
    (h : accepted w ev uri = true) (s : Shared) :
    answer w ev uri none s = (.noArgs, s) := by
  unfold answer
  cases hkd : ev.kind with
  | call args =>
    rcases (accepted_call_iff w ev hkd uri).mp h with rfl | rfl <;>
      simp [hintOf, hkd, EventKind.discriminant, replySizeHint, kindArm, callArm]
  | write values =>
    obtain rfl := (accepted_write_iff w ev hkd uri).mp h
    simp [hintOf, hkd, EventKind.discriminant, replySizeHint, kindArm, writeArm]
  | read => simp [hkd, EventKind.takesArgs] at hk
  | other => simp [hkd, EventKind.takesArgs] at hk

theorem answer_sync {args : List NibbleBuf} (hk : ev.kind = .call args) (a : NibbleBuf)
    (s : Shared) :
    answer w ev [5] (some a) s = (.ran (some a) (dispatchCall w [5] a 8 s).1, s) := by
  have hs : (dispatchCall w [5] a 8 s).2 = s := by
    cases hd : desPoints w a with
    | none => simp [dispatchCall, hd]
    | some p => simp [dispatchCall, hd]
  simp [answer, hintOf, hk, EventKind.discriminant, replySizeHint, kindArm, callArm,
    SerDesSize.upperBound, hs]

theorem answer_async {args : List NibbleBuf} (hk : ev.kind = .call args) (a : NibbleBuf)
    (s : Shared) :
    answer w ev [6] (some a) s =
      (.deferred a (dispatchCall w [6] a 0 s).1, (dispatchCall w [6] a 0 s).2) := by
  simp [answer, hintOf, hk, EventKind.discriminant, replySizeHint, kindArm, callArm]

theorem answer_digit {values : List NibbleBuf} (hk : ev.kind = .write values) (a : NibbleBuf)
    (s : Shared) :
    answer w ev [1] (some a) s =
      (.ran (some a) ((dispatchWrite w [1] a s).1.map fun _ => []),
        (dispatchWrite w [1] a s).2) := by
  simp [answer, hintOf, hk, EventKind.discriminant, replySizeHint, kindArm, writeArm]

theorem answer_read (hk : ev.kind = .read) (arg : Option NibbleBuf) (s : Shared) :
    answer w ev [1] arg s = (.ran none (dispatchRead w [1] 2 s), s) := by
  simp [answer, hintOf, hk, EventKind.discriminant, replySizeHint, kindArm, readArm,
    SerDesSize.upperBound]

theorem takesArgs_ne_other (hk : ev.kind.takesArgs = true) : ev.kind ≠ .other := by
  intro h; simp [h, EventKind.takesArgs] at hk

/-- What a URI can be answered next to an argument: a case for each arm that is reached. -/
inductive Answered (s : Shared) : Uri → Option NibbleBuf → Act × Shared → Prop where
  | rejected {uri : Uri} {maxSize rawSize : SerDesSize} {e : XpiError} (arg : Option NibbleBuf)
      (hint : hintOf w ev uri = .immediate maxSize rawSize (.error e)) :
      Answered s uri arg (.rejected e, s)
  | noArgs {uri : Uri} (takes : ev.kind.takesArgs = true) (hint : accepted w ev uri = true) :
      Answered s uri none (.noArgs, s)
  | sync {args : List NibbleBuf} (kind : ev.kind = .call args) (a : NibbleBuf) :
      Answered s [5] (some a) (.ran (some a) (dispatchCall w [5] a 8 s).1, s)
  | async {args : List NibbleBuf} (kind : ev.kind = .call args) (a : NibbleBuf) :
      Answered s [6] (some a)
        (.deferred a (dispatchCall w [6] a 0 s).1, (dispatchCall w [6] a 0 s).2)
  | digit {values : List NibbleBuf} (kind : ev.kind = .write values) (a : NibbleBuf) :
      Answered s [1] (some a) (.ran (some a) ((dispatchWrite w [1] a s).1.map fun _ => []),
        (dispatchWrite w [1] a s).2)
  | read (kind : ev.kind = .read) (arg : Option NibbleBuf) :
      Answered s [1] arg (.ran none (dispatchRead w [1] 2 s), s)

theorem answer_answered (hk : ev.kind ≠ .other) (uri : Uri) (arg : Option NibbleBuf)
    (s : Shared) : Answered w ev s uri arg (answer w ev uri arg s) := by
  by_cases ha : accepted w ev uri = true
  · cases hkd : ev.kind with
    | call args =>
      have hta : ev.kind.takesArgs = true := by simp [hkd, EventKind.takesArgs]
      cases arg with
      | none => rw [answer_noArgs w ev hta ha]; exact .noArgs hta ha
      | some a =>
        rcases (accepted_call_iff w ev hkd uri).mp ha with rfl | rfl
        · rw [answer_sync w ev hkd]; exact .sync hkd a
        · rw [answer_async w ev hkd]; exact .async hkd a
    | write values =>
      have hta : ev.kind.takesArgs = true := by simp [hkd, EventKind.takesArgs]
      cases arg with
      | none => rw [answer_noArgs w ev hta ha]; exact .noArgs hta ha
      | some a =>
        obtain rfl := (accepted_write_iff w ev hkd uri).mp ha
        rw [answer_digit w ev hkd]; exact .digit hkd a
    | read =>
      obtain rfl := (accepted_read_iff w ev hkd uri).mp ha
      rw [answer_read w ev hkd]; exact .read hkd arg
    | other => exact absurd hkd hk
  · obtain ⟨maxSize, rawSize, e, hh⟩ := hintOf_rejected w ev (by simpa using ha)
    rw [answer_error w ev hk hh]; exact .rejected arg hh

/-- An accepted URI is passed the argument it is paired with, and told when there is none. -/
theorem answer_arg (hk : ev.kind.takesArgs = true) (uri : Uri) (arg : Option NibbleBuf)
    (s : Shared) :
    (answer w ev uri arg s).1.arg = (if accepted w ev uri = true then arg else none) ∧
      ((answer w ev uri arg s).1 = .noArgs ↔ accepted w ev uri = true ∧ arg = none) := by
  have h := answer_answered w ev (takesArgs_ne_other ev hk) uri arg s
  generalize answer w ev uri arg s = r at h ⊢
  cases h with
  | rejected arg hint => simp [accepted, hint, ReplySizeHint.accepts, Act.arg]
  | noArgs takes hint => simp [hint, Act.arg]
  | sync kind a => simp [(accepted_call_iff w ev kind [5]).mpr (Or.inl rfl), Act.arg]
  | async kind a => simp [(accepted_call_iff w ev kind [6]).mpr (Or.inr rfl), Act.arg]
  | digit kind a => simp [(accepted_write_iff w ev kind [1]).mpr rfl, Act.arg]
  | read kind arg => simp [kind, EventKind.takesArgs] at hk

theorem Act.taken_eq (act : Act) : act.taken = if act.arg.isSome then 1 else 0 := by
  cases act with
  | ran arg r => cases arg <;> rfl
  | rejected e => rfl
  | noArgs => rfl
  | deferred arg r => rfl

def takenArgs (steps : List Step) : Nat := (steps.map (·.act.taken)).sum

theorem plan_append (pos argPos : Nat) (s : Shared) (xs ys : List Uri) :
    plan w ev pos argPos s (xs ++ ys) =
      plan w ev pos argPos s xs ++
        plan w ev (pos + xs.length) (argPos + takenArgs (plan w ev pos argPos s xs))
          (endShared s (plan w ev pos argPos s xs)) ys := by
  induction xs generalizing pos argPos s with
  | nil => simp [plan, takenArgs, endShared]
  | cons uri rest ih =>
    simp [plan, ih, takenArgs, endShared, Nat.add_assoc, Nat.add_comm 1]

theorem mem_plan {pos argPos : Nat} {s : Shared} {uris : List Uri} {st : Step}
    (h : st ∈ plan w ev pos argPos s uris) :
    ∃ before uri after, uris = before ++ uri :: after ∧
      st = stepAt w ev (pos + before.length)
        (argPos + takenArgs (plan w ev pos argPos s before))
        (endShared s (plan w ev pos argPos s before)) uri := by
  induction uris generalizing pos argPos s with
  | nil => simp [plan] at h
  | cons u rest ih =>
    simp only [plan, List.mem_cons] at h
    rcases h with rfl | h
    · exact ⟨[], u, rest, rfl, by simp [plan, takenArgs, endShared]⟩
    · obtain ⟨before, uri, after, rfl, hst⟩ := ih h
      refine ⟨u :: before, uri, after, rfl, ?_⟩
      rw [hst]
      simp [plan, takenArgs, endShared, Nat.add_assoc, Nat.add_comm 1]

theorem plan_pos (pos argPos : Nat) (s : Shared) (uris : List Uri) :
    (plan w ev pos argPos s uris).map (·.pos) = List.range' pos uris.length := by
  induction uris generalizing pos argPos s with
  | nil => rfl
  | cons uri rest ih => simp [plan, ih, stepAt, List.range'_succ]

/-- The argument iterator advances once for each accepted URI until the list ends. -/
theorem plan_taken (hk : ev.kind.takesArgs = true) (pos argPos : Nat) (s : Shared)
    (uris : List Uri) (h : argPos ≤ ev.kind.args.length) :
    argPos + takenArgs (plan w ev pos argPos s uris) =
      min (argPos + uris.countP (accepted w ev)) ev.kind.args.length := by
  induction uris generalizing pos argPos s with
  | nil => simp [plan, takenArgs, h]
  | cons uri rest ih =>
    have hcons : takenArgs (plan w ev pos argPos s (uri :: rest)) =
        (stepAt w ev pos argPos s uri).act.taken +
          takenArgs (plan w ev (pos+1) (argPos + (stepAt w ev pos argPos s uri).act.taken)
            (stepAt w ev pos argPos s uri).post rest) := by
      simp [plan, takenArgs]
    rw [hcons, List.countP_cons]
    have htaken : (stepAt w ev pos argPos s uri).act.taken =
        if accepted w ev uri = true ∧ argPos < ev.kind.args.length then 1 else 0 := by
      rw [Act.taken_eq]
      simp only [stepAt, (answer_arg w ev hk uri _ s).1]
      by_cases ha : accepted w ev uri = true <;> simp [ha]
    have hi := ih (pos+1) (argPos + (stepAt w ev pos argPos s uri).act.taken)
      (stepAt w ev pos argPos s uri).post (by rw [htaken]; split <;> omega)
    rw [← Nat.add_assoc, hi, htaken]
    by_cases ha : accepted w ev uri = true <;> by_cases hlt : argPos < ev.kind.args.length <;>
      simp [ha, hlt] <;> omega

theorem batchAt_get {start : Nat} {before : List Uri} {uri : Uri} {after : List Uri}
    (h : batchAt w ev start = before ++ uri :: after) :
    ev.uris[start + before.length]? = some uri ∧
      (ev.uris.drop start).take before.length = before := by
  obtain ⟨t, ht⟩ := Packing.batch_prefix (hintCost w ev) maxReplyBatchLen replyNibbles
    (ev.uris.drop start)
  change batchAt w ev start ++ t = _ at ht
  rw [h] at ht
  refine ⟨?_, ?_⟩
  · have hget : (ev.uris.drop start)[before.length]? = some uri := by
      rw [← ht]; simp
    simpa using hget
  · rw [← ht]; simp

theorem mem_schedule {n pos : Nat} {s : Shared} {b : Batch} (h : b ∈ schedule w ev n pos s) :
    ∃ s', b = batchOf w ev b.start s' ∧ pos ≤ b.start ∧ b.uris ≠ [] := by
  induction n generalizing pos s with
  | zero => simp [schedule] at h
  | succ n ih =>
    simp only [schedule] at h
    by_cases hu : (batchOf w ev pos s).uris = []
    · simp [hu] at h
    · simp only [hu, if_false, List.mem_cons] at h
      rcases h with rfl | h
      · exact ⟨s, rfl, Nat.le_refl _, hu⟩
      · obtain ⟨s', hb, hle, hne⟩ := ih h
        exact ⟨s', hb, by omega, hne⟩

theorem schedule_batch {n pos : Nat} {s : Shared} {b : Batch} (h : b ∈ schedule w ev n pos s) :
    b.uris = batchAt w ev b.start ∧ b.steps.length = b.uris.length ∧
      b.steps.map (·.pos) = List.range' b.start b.uris.length := by
  obtain ⟨s', hbs, -, -⟩ := mem_schedule w ev h
  rw [hbs]
  exact ⟨rfl, plan_length w ev _ _ _ _, plan_pos w ev _ _ _ _⟩

def batchStart : Nat → Nat → Nat → Nat
  | 0, pos, _ => pos
  | n+1, pos, i =>
    if i < pos + (batchAt w ev pos).length then pos
    else batchStart n (pos + (batchAt w ev pos).length) i

theorem batchStart_eq {n pos i : Nat} {s : Shared} {b : Batch}
    (h : b ∈ schedule w ev n pos s) (hi : b.start ≤ i)
    (hlt : i < b.start + (batchAt w ev b.start).length) : batchStart w ev n pos i = b.start := by
  induction n generalizing pos s with
  | zero => simp [schedule] at h
  | succ n ih =>
    simp only [schedule] at h
    by_cases hu : (batchOf w ev pos s).uris = []
    · simp [hu] at h
    · simp only [hu, if_false, List.mem_cons] at h
      rcases h with rfl | h
      · have hlt' : i < pos + (batchAt w ev pos).length := hlt
        simp [batchStart, hlt', batchOf]
      · obtain ⟨s', -, hle, -⟩ := mem_schedule w ev h
        have hnot : ¬ i < pos + (batchAt w ev pos).length := by
          have hle' : pos + (batchAt w ev pos).length ≤ b.start := hle
          omega
        simp only [batchStart, hnot, if_false]
        exact ih h

theorem perform_steps_of_schedule (grants : Nat → Bool) (k : Nat) (bs : List Batch) :
    (perform w ev grants k bs).steps <+: bs.flatMap (·.steps) := by
  induction bs generalizing k with
  | nil => simp [perform]
  | cons b rest ih =>
    by_cases hg : grants k = false
    · simp [perform, hg]
    · by_cases hf : b.fits w ev
      · simpa [perform, hg, hf] using ih (k+1)
      · simpa [perform, hg, hf] using (b.cut_prefix w ev).trans (List.prefix_append _ _)

theorem mem_schedule_steps {n pos : Nat} {s : Shared} {st : Step}
    (h : st ∈ (schedule w ev n pos s).flatMap (·.steps)) :
    ∃ b ∈ schedule w ev n pos s, ∃ s' before uri after,
      b = batchOf w ev b.start s' ∧ batchAt w ev b.start = before ++ uri :: after ∧
      st = stepAt w ev (b.start + before.length) (takenArgs (plan w ev b.start 0 s' before))
        (endShared s' (plan w ev b.start 0 s' before)) uri := by
  obtain ⟨b, hb, hst⟩ := List.mem_flatMap.mp h
  obtain ⟨s', hbs, -, -⟩ := mem_schedule w ev hb
  rw [hbs] at hst
  obtain ⟨before, uri, after, hsplit, hstep⟩ := mem_plan w ev hst
  exact ⟨b, hb, s', before, uri, after, hbs, hsplit, by simpa using hstep⟩

theorem run_steps_subset (hk : ev.kind ≠ .other) {grants : Nat → Bool} {s : Shared} {st : Step}
    (h : st ∈ (xpiDispatch w grants ev s).st.steps) :
    st ∈ (schedule w ev maxReplyBatches 0 s).flatMap (·.steps) := by
  rw [(xpiDispatch_perform w ev hk grants s).2.1] at h
  exact (perform_steps_of_schedule w ev grants 0 _).subset h

theorem schedule_pos (n pos : Nat) (s : Shared) :
    ((schedule w ev n pos s).flatMap (·.steps)).map (·.pos) =
      List.range' pos ((schedule w ev n pos s).flatMap (·.steps)).length := by
  induction n generalizing pos s with
  | zero => simp [schedule]
  | succ n ih =>
    simp only [schedule]
    by_cases hu : (batchOf w ev pos s).uris = []
    · simp [hu]
    · have hb : (batchOf w ev pos s).steps.map (·.pos) =
          List.range' pos (batchOf w ev pos s).uris.length := plan_pos w ev _ _ _ _
      simp only [hu, if_false, List.flatMap_cons, List.map_append, List.length_append, hb, ih,
        batchOf_steps_length]
      rw [List.range'_append_1]

theorem schedule_pos_nodup (n pos : Nat) (s : Shared) :
    (((schedule w ev n pos s).flatMap (·.steps)).map (·.pos)).Nodup := by
  rw [schedule_pos]; exact List.nodup_range'

theorem run_pos (hk : ev.kind ≠ .other) {grants : Nat → Bool} {s : Shared}
    (hok : (xpiDispatch w grants ev s).status = .ok) :
    (xpiDispatch w grants ev s).st.steps.map (·.pos) =
      List.range' 0 (xpiDispatch w grants ev s).st.steps.length := by
  obtain ⟨hstatus, hsteps, -⟩ := xpiDispatch_perform w ev hk grants s
  rw [hstatus] at hok
  rw [hsteps, (perform_ok w ev hok).1]
  exact schedule_pos w ev maxReplyBatches 0 s

theorem covered_iff {steps : List Step}
    (hpos : steps.map (·.pos) = List.range' 0 steps.length) (n : Nat) :
    (∀ pos < n, ∃ st ∈ steps, st.pos = pos) ↔ n ≤ steps.length := by
  have hmem : ∀ pos, (∃ st ∈ steps, st.pos = pos) ↔ pos < steps.length := by
    intro pos
    rw [← List.mem_map, hpos, List.mem_range'_1]
    omega
  simp only [hmem]
  constructor
  · intro h
    by_contra hlt
    exact absurd (h steps.length (by omega)) (Nat.lt_irrefl _)
  · intro h pos hlt
    omega

theorem plan_linked (pos argPos : Nat) (s : Shared) (uris : List Uri) :
    Linked s (plan w ev pos argPos s uris) := by
  induction uris generalizing pos argPos s with
  | nil => trivial
  | cons uri rest ih => exact ⟨rfl, ih _ _ _⟩

theorem schedule_linked (n pos : Nat) (s : Shared) :
    Linked s ((schedule w ev n pos s).flatMap (·.steps)) := by
  induction n generalizing pos s with
  | zero => trivial
  | succ n ih =>
    simp only [schedule]
    split
    · trivial
    · rw [List.flatMap_cons, linked_append]
      exact ⟨plan_linked w ev _ _ _ _, ih _ _⟩

theorem endShared_same {α : Type} (f : Shared → α) {s : Shared} {steps : List Step}
    (hl : Linked s steps) (hstep : ∀ st ∈ steps, f st.post = f st.pre) :
    f (endShared s steps) = f s := by
  induction steps generalizing s with
  | nil => rfl
  | cons st rest ih =>
    obtain ⟨hpre, hl⟩ := hl
    obtain ⟨hst, hrest⟩ := List.forall_mem_cons.mp hstep
    change f (endShared st.post rest) = f s
    rw [ih hl hrest, hst, hpre]

theorem run_linked (hk : ev.kind ≠ .other) (grants : Nat → Bool) (s : Shared) :
    Linked s (xpiDispatch w grants ev s).st.steps := by
  obtain ⟨t, ht⟩ := perform_steps_of_schedule w ev grants 0 (schedule w ev maxReplyBatches 0 s)
  have hl := schedule_linked w ev maxReplyBatches 0 s
  rw [← ht, linked_append] at hl
  rw [(xpiDispatch_perform w ev hk grants s).2.1]
  exact hl.1

theorem entries_length (steps : List Step) :
    (steps.flatMap (·.entries)).length = steps.countP fun st => st.act.entry.isSome := by
  induction steps with
  | nil => rfl
  | cons st rest ih =>
    rw [List.flatMap_cons, List.length_append, ih, List.countP_cons, Nat.add_comm]
    cases h : st.act.entry <;> simp [Step.entries, h]

end

end VhlHackathon
