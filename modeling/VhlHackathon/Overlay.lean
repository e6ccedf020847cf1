import VhlHackathon.Node
set_option autoImplicit false

/-!
What a run does to the shared resources is one overlay over whatever it finds: the last
digit stored and the first task spawned into each slot. Overlays compose and applying one
twice is applying it once, so that a request delivered again changes nothing.
-/

namespace VhlHackathon

structure Overlay where
  digit : Option UInt8
  asyncTask : Option (Point × Point)
  displayTask : Option Unit
  deriving DecidableEq, Repr

namespace Overlay

def empty : Overlay := ⟨none, none, none⟩

/-- The last store wins, and the first spawn. -/
def apply (o : Overlay) (s : Shared) : Shared :=
  { s with
    digit := o.digit.getD s.digit
    asyncTask := s.asyncTask.or o.asyncTask
    displayTask := s.displayTask.or o.displayTask }

def andThen (o p : Overlay) : Overlay :=
  ⟨p.digit.or o.digit, o.asyncTask.or p.asyncTask, o.displayTask.or p.displayTask⟩

@[simp] theorem apply_empty (s : Shared) : empty.apply s = s := by simp [apply, empty]

@[simp] theorem apply_andThen (o p : Overlay) (s : Shared) :
    (o.andThen p).apply s = p.apply (o.apply s) := by
  cases hp : p.digit <;> simp [apply, andThen, hp, Option.or_assoc]

@[simp] theorem empty_andThen (o : Overlay) : empty.andThen o = o := by simp [andThen, empty]

theorem andThen_assoc (o p q : Overlay) : (o.andThen p).andThen q = o.andThen (p.andThen q) := by
  simp [andThen, Option.or_assoc]

theorem apply_apply (o : Overlay) (s : Shared) : o.apply (o.apply s) = o.apply s := by
  cases ho : o.digit <;> simp [apply, ho, Option.or_assoc]

def Draws (o : Overlay) : Prop := o.displayTask = none → o.digit = none

theorem draws_empty : empty.Draws := fun _ => rfl

theorem Draws.andThen {o p : Overlay} (ho : o.Draws) (hp : p.Draws) : (o.andThen p).Draws := by
  intro h
  obtain ⟨h1, h2⟩ := Option.or_eq_none_iff.mp h
  exact Option.or_eq_none_iff.mpr ⟨hp h2, ho h1⟩

end Overlay

section
variable (w : Wire) (ev : Event)

def Act.overlay (kind : EventKind) (act : Act) : Overlay :=
  match kind, act with
  | .write _, .ran (some valueNrd) (.ok _) =>
    { Overlay.empty with digit := (w.desU32 valueNrd).map (·.toUInt8), displayTask := some () }
  | .call _, .deferred argsNrd (.ok _) => { Overlay.empty with asyncTask := desPoints w argsNrd }
  | _, _ => .empty

def overlayOf (kind : EventKind) : List Act → Overlay
  | [] => .empty
  | act :: rest => (act.overlay w kind).andThen (overlayOf kind rest)

theorem overlayOf_append (kind : EventKind) (xs ys : List Act) :
    overlayOf w kind (xs ++ ys) = (overlayOf w kind xs).andThen (overlayOf w kind ys) := by
  induction xs with
  | nil => simp [overlayOf]
  | cons act rest ih => rw [List.cons_append, overlayOf, overlayOf, ih, Overlay.andThen_assoc]

/-- The steps a run begins with make no difference when they have been done before. -/
theorem overlayOf_prefix (kind : EventKind) {xs ys : List Act} (h : xs <+: ys) (s : Shared) :
    (overlayOf w kind ys).apply ((overlayOf w kind xs).apply s) =
      (overlayOf w kind ys).apply s := by
  obtain ⟨rest, rfl⟩ := h
  rw [overlayOf_append, Overlay.apply_andThen, Overlay.apply_apply, Overlay.apply_andThen]

theorem Act.overlay_draws (kind : EventKind) (act : Act) : (act.overlay w kind).Draws := by
  unfold Act.overlay
  split
  · intro h
    cases h
  · exact fun _ => rfl
  · exact Overlay.draws_empty

theorem overlayOf_draws (kind : EventKind) (acts : List Act) : (overlayOf w kind acts).Draws := by
  induction acts with
  | nil => exact Overlay.draws_empty
  | cons act rest ih => exact (act.overlay_draws w kind).andThen ih

theorem stepAt_overlay (hk : ev.kind ≠ .other) (pos argPos : Nat) (s : Shared) (uri : Uri) :
    let st := stepAt w ev pos argPos s uri
    st.post = (st.act.overlay w ev.kind).apply st.pre := by
  have h := answer_answered w ev hk uri ev.kind.args[argPos]? s
  simp only [stepAt]
  generalize answer w ev uri ev.kind.args[argPos]? s = r at h ⊢
  generalize ev.kind.args[argPos]? = arg at h
  cases h with
  | rejected arg hint => cases hkd : ev.kind <;> simp [Act.overlay]
  | noArgs takes hint => cases hkd : ev.kind <;> simp [Act.overlay]
  | sync kind a => simp [kind, Act.overlay]
  | async kind a =>
    cases hd : desPoints w a with
    | none => simp [kind, Act.overlay, dispatchCall, hd]
    | some p =>
      cases hq : s.asyncTask <;>
        simp [kind, Act.overlay, dispatchCall, hd, Overlay.apply, Overlay.empty, hq]
  | digit kind a =>
    cases hd : w.desU32 a with
    | none => simp [kind, Act.overlay, dispatchWrite, hd, Except.map]
    | some n =>
      cases hq : s.displayTask <;>
        simp [kind, Act.overlay, dispatchWrite, hd, Except.map, Overlay.apply, Overlay.empty, hq]
  | read kind arg => simp [kind, Act.overlay]

theorem linked_overlay {s : Shared} {steps : List Step} (hl : Linked s steps)
    (hstep : ∀ st ∈ steps, st.post = (st.act.overlay w ev.kind).apply st.pre) :
    endShared s steps = (overlayOf w ev.kind (steps.map (·.act))).apply s := by
  induction steps generalizing s with
  | nil => exact (Overlay.apply_empty s).symm
  | cons st rest ih =>
    obtain ⟨hpre, hl⟩ := hl
    obtain ⟨hst, hrest⟩ := List.forall_mem_cons.mp hstep
    change endShared st.post rest = _
    rw [ih hl hrest, hst, hpre, List.map_cons, overlayOf, Overlay.apply_andThen]

theorem run_overlay (grants : Nat → Bool) (s : Shared) :
    (xpiDispatch w grants ev s).st.shared =
      (overlayOf w ev.kind ((xpiDispatch w grants ev s).st.steps.map (·.act))).apply s := by
  by_cases hk : ev.kind = .other
  · obtain ⟨h1, h2⟩ := xpiDispatch_other w ev hk grants s
    rw [h1, h2]
    exact (Overlay.apply_empty s).symm
  · obtain ⟨-, hsteps, -, hshared, -⟩ := xpiDispatch_perform w ev hk grants s
    rw [hshared, ← hsteps]
    refine linked_overlay w ev (run_linked w ev hk grants s) fun st hst => ?_
    obtain ⟨-, -, s', before, uri, after, -, -, rfl⟩ :=
      mem_schedule_steps w ev (run_steps_subset w ev hk hst)
    exact stepAt_overlay w ev hk _ _ _ _

theorem run_draws (grants : Nat → Bool) (s : Shared)
    (free : (xpiDispatch w grants ev s).st.shared.displayTask = none) :
    s.displayTask = none ∧ (xpiDispatch w grants ev s).st.shared.digit = s.digit := by
  rw [run_overlay] at free ⊢
  obtain ⟨hbefore, hnone⟩ := Option.or_eq_none_iff.mp free
  exact ⟨hbefore, by simp [Overlay.apply, overlayOf_draws w ev.kind _ hnone]⟩

/-! What a call or a write is answered does not depend on the resources. -/

theorem dispatchCall_answer (uri : Uri) (argsNrd : NibbleBuf) (room : Nat) (s s' : Shared) :
    (dispatchCall w uri argsNrd room s).1 = (dispatchCall w uri argsNrd room s').1 := by
  unfold dispatchCall
  split
  · rfl
  · rfl
  · rfl
  · cases w.desU32 argsNrd <;> rfl
  · cases desPoints w argsNrd with
    | none => rfl
    | some p =>
      by_cases hroom : 8 ≤ room <;> simp [hroom]
  · cases desPoints w argsNrd <;> rfl
  · rfl

theorem dispatchWrite_answer (uri : Uri) (valueNrd : NibbleBuf) (s s' : Shared) :
    (dispatchWrite w uri valueNrd s).1 = (dispatchWrite w uri valueNrd s').1 := by
  unfold dispatchWrite
  split
  · rfl
  · cases w.desU32 valueNrd <;> rfl
  · rfl
  · rfl
  · rfl
  · rfl

theorem answer_act (hk : ev.kind ≠ .read) (uri : Uri) (arg : Option NibbleBuf) (s s' : Shared) :
    (answer w ev uri arg s).1 = (answer w ev uri arg s').1 := by
  unfold answer
  cases hkd : ev.kind with
  | call args =>
    simp only [kindArm, callArm]
    split
    · cases arg with
      | none => rfl
      | some a => simp [dispatchCall_answer w uri a _ s s']
    · rfl
    · cases arg with
      | none => rfl
      | some a => simp [dispatchCall_answer w uri a _ s s']
    · rfl
  | write values =>
    simp only [kindArm, writeArm]
    split
    · cases arg with
      | none => rfl
      | some a => simp [dispatchWrite_answer w uri a s s']
    · rfl
    · rfl
    · rfl
  | read => exact absurd hkd hk
  | other => rfl

def Step.outline (st : Step) : Nat × Act := (st.pos, st.act)

def Batch.outline (b : Batch) : Nat × List Uri × List (Nat × Act) :=
  (b.start, b.uris, b.steps.map (·.outline))

theorem plan_outline (hk : ev.kind ≠ .read) (pos argPos : Nat) (s s' : Shared) (uris : List Uri) :
    (plan w ev pos argPos s uris).map (·.outline) =
      (plan w ev pos argPos s' uris).map (·.outline) := by
  induction uris generalizing pos argPos s s' with
  | nil => rfl
  | cons uri rest ih =>
    have hact : (stepAt w ev pos argPos s uri).act = (stepAt w ev pos argPos s' uri).act :=
      answer_act w ev hk uri _ s s'
    have hout : (stepAt w ev pos argPos s uri).outline = (stepAt w ev pos argPos s' uri).outline :=
      congrArg (pos, ·) hact
    simp only [plan, List.map_cons, hact, hout]
    rw [ih (pos+1) _ _ (stepAt w ev pos argPos s' uri).post]

theorem schedule_outline (hk : ev.kind ≠ .read) (n pos : Nat) (s s' : Shared) :
    (schedule w ev n pos s).map (·.outline) = (schedule w ev n pos s').map (·.outline) := by
  induction n generalizing pos s s' with
  | zero => rfl
  | succ n ih =>
    simp only [schedule]
    have huris : (batchOf w ev pos s).uris = (batchOf w ev pos s').uris := rfl
    rw [huris]
    split
    · rfl
    · rw [List.map_cons, List.map_cons, ih _ _ (endShared s' (batchOf w ev pos s').steps)]
      simp only [Batch.outline, batchOf, plan_outline w ev hk pos 0 s s']

theorem stepNibbles_outline {steps steps' : List Step}
    (h : steps.map (·.outline) = steps'.map (·.outline)) :
    steps.map (stepNibbles w ev) = steps'.map (stepNibbles w ev) := by
  have hfun : ∀ l : List Step, l.map (stepNibbles w ev) = (l.map (·.outline)).map
      fun o => (o.2.entry.map (kindCost w ev.kind)).getD 0 := by
    intro l
    rw [List.map_map]
    rfl
  rw [hfun, hfun, h]

theorem entries_outline {steps steps' : List Step}
    (h : steps.map (·.outline) = steps'.map (·.outline)) :
    steps.flatMap (·.entries) = steps'.flatMap (·.entries) := by
  have hfun : ∀ l : List Step, l.flatMap (·.entries) = (l.map (·.outline)).flatMap
      fun o => (o.2.entry.map (Entry.mk o.1)).toList := by
    intro l
    rw [List.flatMap_map]
    rfl
  rw [hfun, hfun, h]

theorem untilFull_outline (used : Nat) {steps steps' : List Step}
    (h : steps.map (·.outline) = steps'.map (·.outline)) :
    (untilFull w ev used steps).map (·.outline) =
      (untilFull w ev used steps').map (·.outline) := by
  induction steps generalizing used steps' with
  | nil =>
    rw [List.map_nil, eq_comm, List.map_eq_nil_iff] at h
    rw [h]
  | cons st rest ih =>
    cases steps' with
    | nil => cases h
    | cons st' rest' =>
      have hnib := stepNibbles_outline w ev h
      simp only [List.map_cons, List.cons.injEq] at h hnib
      simp only [untilFull, hnib.1]
      split
      · simp only [List.map_cons, h.1, ih _ h.2]
      · simp only [List.map_cons, h.1, List.map_nil]

theorem Batch.outline_spec {b c : Batch} (h : b.outline = c.outline) :
    b.reply w ev = c.reply w ev ∧ (b.fits w ev ↔ c.fits w ev) ∧
      b.steps.map (·.outline) = c.steps.map (·.outline) ∧
      (b.cut w ev).map (·.outline) = (c.cut w ev).map (·.outline) := by
  simp only [Batch.outline, Prod.mk.injEq] at h
  obtain ⟨-, huris, hsteps⟩ := h
  have hentries : b.entries = c.entries := entries_outline hsteps
  have hnib : b.nibbles w ev = c.nibbles w ev := by
    rw [Batch.nibbles, Batch.nibbles, hentries, stepNibbles_outline w ev hsteps]
  refine ⟨?_, ?_, hsteps, ?_⟩
  · rw [Batch.reply, Batch.reply, Batch.immediate, Batch.immediate, huris, hentries, hnib]
  · rw [Batch.fits, Batch.fits, hnib]
  · rw [Batch.cut, Batch.cut]
    split
    · exact untilFull_outline w ev _ hsteps
    · rfl

theorem perform_outline (grants : Nat → Bool) (k : Nat) {bs cs : List Batch}
    (h : bs.map (·.outline) = cs.map (·.outline)) :
    (perform w ev grants k bs).status = (perform w ev grants k cs).status ∧
      (perform w ev grants k bs).committed = (perform w ev grants k cs).committed ∧
      (perform w ev grants k bs).steps.map (·.outline) =
        (perform w ev grants k cs).steps.map (·.outline) := by
  induction bs generalizing k cs with
  | nil =>
    rw [List.map_nil, eq_comm, List.map_eq_nil_iff] at h
    rw [h]
    exact ⟨rfl, rfl, rfl⟩
  | cons b bs ih =>
    cases cs with
    | nil => cases h
    | cons c cs =>
      simp only [List.map_cons, List.cons.injEq] at h
      obtain ⟨hreply, hfits, hsteps, hcut⟩ := Batch.outline_spec w ev h.1
      obtain ⟨h1, h2, h3⟩ := ih (k+1) h.2
      simp only [perform, hfits]
      split
      · exact ⟨rfl, rfl, rfl⟩
      · split
        · exact ⟨h1, by rw [hreply, h2], by rw [List.map_append, List.map_append, hsteps, h3]⟩
        · exact ⟨rfl, rfl, hcut⟩

theorem perform_fewer {fewer grants : Nat → Bool} (hle : ∀ k, fewer k = true → grants k = true)
    (k : Nat) (bs : List Batch) :
    (perform w ev fewer k bs).steps <+: (perform w ev grants k bs).steps := by
  induction bs generalizing k with
  | nil => exact List.prefix_rfl
  | cons b bs ih =>
    simp only [perform]
    cases hf : fewer k with
    | false =>
      rw [if_pos rfl]
      exact List.nil_prefix
    | true =>
      simp only [hle k hf, Bool.true_eq_false, if_false]
      split
      · exact (List.prefix_append_right_inj _).mpr (ih (k+1))
      · exact List.prefix_rfl

theorem read_shared (hk : ev.kind = .read) (grants : Nat → Bool) (s : Shared) :
    (xpiDispatch w grants ev s).st.shared = s := by
  have hempty : ∀ acts : List Act, overlayOf w .read acts = .empty := by
    intro acts
    induction acts with
    | nil => rfl
    | cons act rest ih => rw [overlayOf, ih]; rfl
  rw [run_overlay w ev grants s, hk, hempty, Overlay.apply_empty]

/-- An event that was run before with fewer grants, or the same, is answered as if it had
not been, and leaves what it leaves then. -/
theorem xpiDispatch_again {fewer grants : Nat → Bool}
    (hle : ∀ k, fewer k = true → grants k = true) (s : Shared) :
    let again := xpiDispatch w grants ev (xpiDispatch w fewer ev s).st.shared
    let o := xpiDispatch w grants ev s
    again.st.shared = o.st.shared ∧ again.status = o.status ∧
      again.st.committed = o.st.committed := by
  intro again o
  by_cases hread : ev.kind = .read
  · have hrun : again = o := by
      change xpiDispatch w grants ev (xpiDispatch w fewer ev s).st.shared = o
      rw [read_shared w ev hread]
    rw [hrun]
    exact ⟨rfl, rfl, rfl⟩
  by_cases hother : ev.kind = .other
  · have hrun : again = o := by
      change xpiDispatch w grants ev (xpiDispatch w fewer ev s).st.shared = o
      rw [(xpiDispatch_other w ev hother fewer s).1]
    rw [hrun]
    exact ⟨rfl, rfl, rfl⟩
  obtain ⟨-, r2, -⟩ := xpiDispatch_perform w ev hother fewer s
  obtain ⟨s1, s2, s3, -⟩ := xpiDispatch_perform w ev hother grants s
  obtain ⟨t1, t2, t3, -⟩ := xpiDispatch_perform w ev hother grants
    (xpiDispatch w fewer ev s).st.shared
  obtain ⟨h1, h2, h3⟩ := perform_outline w ev grants 0 (schedule_outline w ev hread
    maxReplyBatches 0 (xpiDispatch w fewer ev s).st.shared s)
  have hacts : again.st.steps.map (·.act) = o.st.steps.map (·.act) := by
    have hfun : ∀ l : List Step, l.map (·.act) = (l.map (·.outline)).map (·.2) := by
      intro l
      rw [List.map_map]
      rfl
    rw [hfun, hfun, t2, s2, h3]
  have hbegins : (xpiDispatch w fewer ev s).st.steps.map (·.act) <+: o.st.steps.map (·.act) := by
    rw [r2, s2]
    exact (perform_fewer w ev hle 0 _).map _
  refine ⟨?_, by rw [t1, s1, h1], by rw [t3, s3, h2]⟩
  rw [run_overlay w ev grants _, hacts, run_overlay w ev fewer s, overlayOf_prefix w _ hbegins,
    ← run_overlay w ev grants s]

structure Delivery where
  grants : Nat → Bool
  event : Event

def deliver : Shared → List Delivery → Shared × List (Status × List Reply)
  | s, [] => (s, [])
  | s, d :: rest =>
    let o := xpiDispatch w d.grants d.event s
    let (s', answers) := deliver o.st.shared rest
    (s', (o.status, o.st.committed) :: answers)

/-- A delivery, and the grants of the attempts at it that came before and whose answers
nobody waited for. -/
structure Retried where
  before : List (Nat → Bool)
  last : Delivery

/-- The earlier attempts got no grant that the last one did not get. -/
def Retried.improving (r : Retried) : Prop :=
  ∀ fewer ∈ r.before, ∀ k, fewer k = true → r.last.grants k = true

def deliverRetried : Shared → List Retried → Shared × List (Status × List Reply)
  | s, [] => (s, [])
  | s, r :: rest =>
    let found := r.before.foldl (fun s g => (xpiDispatch w g r.last.event s).st.shared) s
    let o := xpiDispatch w r.last.grants r.last.event found
    let (s', answers) := deliverRetried o.st.shared rest
    (s', (o.status, o.st.committed) :: answers)

theorem attempts_again (grants : Nat → Bool) (before : List (Nat → Bool))
    (hle : ∀ fewer ∈ before, ∀ k, fewer k = true → grants k = true) (s : Shared) :
    let found := before.foldl (fun s g => (xpiDispatch w g ev s).st.shared) s
    let again := xpiDispatch w grants ev found
    let o := xpiDispatch w grants ev s
    again.st.shared = o.st.shared ∧ again.status = o.status ∧
      again.st.committed = o.st.committed := by
  induction before generalizing s with
  | nil => exact ⟨rfl, rfl, rfl⟩
  | cons fewer rest ih =>
    obtain ⟨hfewer, hrest⟩ := List.forall_mem_cons.mp hle
    obtain ⟨h1, h2, h3⟩ := ih hrest (xpiDispatch w fewer ev s).st.shared
    obtain ⟨g1, g2, g3⟩ := xpiDispatch_again w ev hfewer s
    exact ⟨h1.trans g1, h2.trans g2, h3.trans g3⟩

theorem retries_invisible (s : Shared) (requests : List Retried)
    (h : ∀ r ∈ requests, r.improving) :
    deliverRetried w s requests = deliver w s (requests.map (·.last)) := by
  induction requests generalizing s with
  | nil => rfl
  | cons r rest ih =>
    obtain ⟨himproving, hrest⟩ := List.forall_mem_cons.mp h
    obtain ⟨h1, h2, h3⟩ := attempts_again w r.last.event r.last.grants r.before himproving s
    simp only [List.map_cons, deliverRetried, deliver]
    rw [h1, h2, h3, ih _ hrest]

end

theorem secondAttempt_complete :
    let last : Delivery := ⟨fun _ => true, maskedWrite⟩
    deliverRetried .small .init [⟨[fun k => decide (k < 1)], last⟩] =
        deliver .small .init [last] ∧
      (deliver .small .init [last]).2.map (·.2.length) = [2] := by
  refine ⟨retries_invisible .small .init [⟨[fun k => decide (k < 1)], ⟨_, maskedWrite⟩⟩] ?_,
    by decide +kernel⟩
  simp [Retried.improving]

end VhlHackathon
