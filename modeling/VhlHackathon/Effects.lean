import VhlHackathon.Replies
set_option autoImplicit false

/-!
What a run does besides answering: stores to the shared digit and spawns of the async
task, and whether the requester hears of them.
-/

namespace VhlHackathon

section
variable (w : Wire) (ev : Event)

/-- The handler ran and answered Ok: for a Write, `dispatch_write` stored the digit. -/
def Step.stored (st : Step) : Bool :=
  match st.act with
  | .ran _ (.ok _) => true
  | _ => false

def reported (committed : List Reply) (pos : Nat) : Prop :=
  ∃ r ∈ committed, r.kind = .writeResults ∧ ∃ e ∈ r.results, e.owner = pos

instance (committed : List Reply) (pos : Nat) : Decidable (reported committed pos) :=
  inferInstanceAs (Decidable (∃ r ∈ committed, _ ∧ ∃ e ∈ r.results, _))

def acknowledgedAt (committed : List Reply) (pos : Nat) : Prop :=
  ∃ r ∈ committed, r.kind = .writeResults ∧
    ∃ e ∈ r.results, e.owner = pos ∧ e.result.isOk = true

instance (committed : List Reply) (pos : Nat) : Decidable (acknowledgedAt committed pos) :=
  inferInstanceAs (Decidable (∃ r ∈ committed, _ ∧ ∃ e ∈ r.results, _))

theorem acknowledgedAt.reported {committed : List Reply} {pos : Nat}
    (h : acknowledgedAt committed pos) : reported committed pos := by
  obtain ⟨r, hr, hkind, e, he, hown, -⟩ := h
  exact ⟨r, hr, hkind, e, he, hown⟩

theorem entry_owner_mem {steps : List Step} {e : Entry} (he : e ∈ steps.flatMap (·.entries)) :
    e.owner ∈ steps.map (·.pos) := by
  obtain ⟨st, hst, hmem⟩ := List.mem_flatMap.mp he
  refine List.mem_map.mpr ⟨st, hst, ?_⟩
  unfold Step.entries at hmem
  cases hr : st.act.entry <;> simp [hr] at hmem
  rw [hmem]

def storesAt (pos : Nat) : Bool :=
  acceptedAt w ev pos && (pairedArg w ev pos).any fun a => (w.desU32 a).isSome

theorem stored_eq {values : List NibbleBuf} (hk : ev.kind = .write values) {s : Shared}
    {st : Step} (hst : st ∈ (schedule w ev maxReplyBatches 0 s).flatMap (·.steps)) :
    st.stored = storesAt w ev st.pos := by
  obtain ⟨uri, s', hget, -, hact⟩ :=
    schedule_step_act w ev (by simp [hk, EventKind.takesArgs]) hst
  have hacc : acceptedAt w ev st.pos = accepted w ev uri := by simp [acceptedAt, hget]
  have h := answer_answered w ev (by simp [hk]) uri (pairedArg w ev st.pos) s'
  unfold Step.stored storesAt
  rw [hact, hacc]
  generalize answer w ev uri (pairedArg w ev st.pos) s' = r at h ⊢
  generalize pairedArg w ev st.pos = arg at h ⊢
  cases h with
  | rejected arg hint => simp [accepted, hint, ReplySizeHint.accepts]
  | noArgs takes hint => simp
  | sync kind a => cases hk.symm.trans kind
  | async kind a => cases hk.symm.trans kind
  | digit kind a =>
    cases hd : w.desU32 a <;>
      simp [dispatchWrite, hd, Except.map, (accepted_write_iff w ev kind [1]).mpr rfl]
  | read kind arg => cases hk.symm.trans kind

theorem segment_unique {s : Shared} {b c : Batch} (hb : b ∈ schedule w ev maxReplyBatches 0 s)
    (hc : c ∈ schedule w ev maxReplyBatches 0 s) {st t : Step} (hst : st ∈ b.steps)
    (ht : t ∈ c.steps) (hpos : st.pos = t.pos) : b.segment = c.segment := by
  have hstart : ∀ {d : Batch} {u : Step}, d ∈ schedule w ev maxReplyBatches 0 s → u ∈ d.steps →
      batchStart w ev maxReplyBatches 0 u.pos = d.start ∧ d.uris = batchAt w ev d.start := by
    intro d u hd hu
    obtain ⟨huris, hlen, -⟩ := schedule_batch w ev hd
    obtain ⟨m, hm, rfl⟩ := List.getElem_of_mem hu
    rw [batch_pos w ev hd hm]
    exact ⟨batchStart_eq w ev hd (by omega) (by rw [← huris]; omega), huris⟩
  obtain ⟨h1, h2⟩ := hstart hb hst
  obtain ⟨h3, h4⟩ := hstart hc ht
  have heq : b.start = c.start := by rw [← h1, ← h3, hpos]
  unfold Batch.segment
  rw [h2, h4, heq]

theorem owner_batch (hk : ev.kind ≠ .other) {grants : Nat → Bool} {s : Shared} {b : Batch}
    {st : Step} (hb : b ∈ schedule w ev maxReplyBatches 0 s) (hst : st ∈ b.steps) {r : Reply}
    {e : Entry} (hr : r ∈ (xpiDispatch w grants ev s).st.committed) (he : e ∈ r.results)
    (hown : e.owner = st.pos) :
    ∃ k c, (schedule w ev maxReplyBatches 0 s)[k]? = some c ∧ answerable w ev grants k ∧
      c.reply w ev = some r ∧ c.segment = b.segment := by
  obtain ⟨k, c, hc, ha, hcr⟩ := (mem_committed_iff w ev hk grants s r).mp hr
  obtain ⟨-, rfl⟩ := (Batch.reply_iff w ev).mp hcr
  obtain ⟨t, ht, htp⟩ := List.mem_map.mp (entry_owner_mem he)
  exact ⟨k, c, hc, ha, hcr,
    segment_unique w ev (List.mem_of_getElem? hc) hb ht hst (htp.trans hown)⟩

theorem reported_fits (hk : ev.kind ≠ .other) {grants : Nat → Bool} {s : Shared} {b : Batch}
    {st : Step} (hb : b ∈ schedule w ev maxReplyBatches 0 s) (hst : st ∈ b.steps)
    (h : reported (xpiDispatch w grants ev s).st.committed st.pos) :
    replyLength w ev b.segment ≤ 2 * replyMtu := by
  obtain ⟨r, hr, -, e, he, hown⟩ := h
  obtain ⟨k, c, hc, ha, -, hseg⟩ := owner_batch w ev hk hb hst hr he hown
  rw [← hseg]
  exact (ha k (Nat.le_refl k)).2 c.segment (segment_get w ev hc)

theorem stored_acknowledged {values : List NibbleBuf} (hk : ev.kind = .write values)
    {grants : Nat → Bool} {s : Shared} {k : Nat} {b : Batch} {st : Step}
    (hb : (schedule w ev maxReplyBatches 0 s)[k]? = some b) (ha : answerable w ev grants k)
    (hst : st ∈ b.steps) (hstored : st.stored = true) :
    acknowledgedAt (xpiDispatch w grants ev s).st.committed st.pos := by
  have hno : ev.kind ≠ .other := by simp [hk]
  have himm := batch_immediate w ev (by simp [hk, EventKind.discriminant])
    (List.mem_of_getElem? hb)
  have hreply := (Batch.reply_iff w ev).mpr ⟨himm, rfl⟩
  refine ⟨_, (mem_committed_iff w ev hno grants s _).mpr ⟨k, b, hb, ha, hreply⟩, ?_, ?_⟩
  · simp [hk, resultsKind]
  · unfold Step.stored at hstored
    split at hstored
    · rename_i arg v hact
      refine ⟨⟨st.pos, .ok v⟩, List.mem_flatMap.mpr ⟨st, hst, ?_⟩, rfl, rfl⟩
      simp [Step.entries, hact, Act.entry]
    · cases hstored

theorem write_one {value : NibbleBuf} (hk : ev.kind = .write [value]) (hu : ev.uris = [[1]])
    (hroom : ∀ r, fixedNibbles w ev + w.unitEntry r + w.vecLen 1 + w.tail ≤ 2 * replyMtu)
    (grants : Nat → Bool) (s : Shared) :
    let r := xpiDispatch w grants ev s
    let d := dispatchWrite w [1] value s
    (grants 0 = false → r.st.shared = s ∧ r.st.committed = []) ∧
      (grants 0 = true → r.st.shared = d.2 ∧
        (acknowledgedAt r.st.committed 0 ↔ d.1.isOk = true)) := by
  have hcost : hintCost w ev [1] ≤ replyNibbles := by
    rw [hintCost, hintOf, hk]
    exact Nat.le_of_ble_eq_true rfl
  obtain ⟨hrefused, hgranted⟩ := dispatch_one w ev (by simp [hk]) hu hcost grants s
  have hact : ((stepAt w ev 0 0 s [1]).act, (stepAt w ev 0 0 s [1]).post) =
      (.ran (some value) ((dispatchWrite w [1] value s).1.map fun _ => []),
        (dispatchWrite w [1] value s).2) := by
    rw [← answer_digit w ev hk, stepAt, hk]
    rfl
  have hpos : (stepAt w ev 0 0 s [1]).pos = 0 := rfl
  generalize stepAt w ev 0 0 s [1] = st at hgranted hact hpos
  generalize dispatchWrite w [1] value s = d at hact
  simp only [Prod.mk.injEq] at hact
  obtain ⟨hact, hpost⟩ := hact
  have hentries : (⟨0, [[1]], [st]⟩ : Batch).entries = [⟨0, d.1.map fun _ => []⟩] := by
    simp [Batch.entries, Step.entries, hact, hpos, Act.entry]
  have hfit : (⟨0, [[1]], [st]⟩ : Batch).fits w ev := by
    have hnib : stepNibbles w ev st = w.unitEntry (d.1.map fun _ => []) := by
      rw [stepNibbles, hact, hk]
      rfl
    rw [Batch.fits, Batch.nibbles, hentries]
    simpa [hnib] using hroom (d.1.map fun _ => [])
  have himm : (⟨0, [[1]], [st]⟩ : Batch).immediate w ev ≠ 0 := by
    simp [Batch.immediate, hintOf, hk, EventKind.discriminant, replySizeHint,
      ReplySizeHint.isImmediate]
  refine ⟨hrefused, fun hg => ?_⟩
  obtain ⟨hshared, hcom⟩ := hgranted hg hfit
  refine ⟨hshared.trans hpost, ?_⟩
  rw [acknowledgedAt, hcom, (Batch.reply_iff w ev).mpr ⟨himm, rfl⟩, hentries, hk]
  cases hd : d.1 <;> simp [resultsKind, Except.map, Except.isOk, Except.toBool]

/-- No batch that is reached and whose reply does not fit stores anything. -/
def givesUpNoStore (grants : Nat → Bool) : Prop :=
  ∀ k sg, (requestBatches w ev)[k]? = some sg → reached w ev grants k →
    2 * replyMtu < replyLength w ev sg →
      ∀ pos, sg.start ≤ pos → pos < sg.start + dispatched w ev sg → storesAt w ev pos = false

theorem stores_acknowledged {values : List NibbleBuf} (hk : ev.kind = .write values)
    {grants : Nat → Bool} {s : Shared} (h : givesUpNoStore w ev grants) {st : Step}
    (hst : st ∈ (xpiDispatch w grants ev s).st.steps) (hstored : st.stored = true) :
    acknowledgedAt (xpiDispatch w grants ev s).st.committed st.pos := by
  have hno : ev.kind ≠ .other := by simp [hk]
  have hsch := run_steps_subset w ev hno hst
  rw [(xpiDispatch_perform w ev hno grants s).2.1, mem_perform_steps_iff] at hst
  obtain ⟨k, b, hb, hg, hf, hcut⟩ := hst
  have hbm := List.mem_of_getElem? hb
  by_cases hfit : b.fits w ev
  · have ha : answerable w ev grants k := by
      refine (answerable_iff w ev hno grants s k).mpr fun j hj => ⟨hg j hj, fun c hc => ?_⟩
      rcases Nat.lt_or_eq_of_le hj with hlt | rfl
      · exact hf j hlt c hc
      · rw [hb] at hc; cases hc; exact hfit
    exact stored_acknowledged w ev hk hb ha ((b.cut_prefix w ev).subset hcut) hstored
  · -- a reply that does not fit: nothing may have been stored
    have hr := (reached_iff w ev hno grants s k).mpr ⟨hg, hf⟩
    rw [batch_cut w ev hno hbm] at hcut
    obtain ⟨m, hm, rfl⟩ := List.mem_take_iff_getElem.mp hcut
    have hlong : 2 * replyMtu < replyLength w ev b.segment :=
      Nat.lt_of_not_le fun hle => hfit ((fits_iff w ev hno hbm).mpr hle)
    have hs := h k b.segment (segment_get w ev hb) hr hlong (b.start + m)
      (Nat.le_add_right _ _) (Nat.add_lt_add_left (by omega) _)
    rw [stored_eq w ev hk hsch, batch_pos w ev hbm (by omega), hs] at hstored
    cases hstored

theorem executed_reported_iff {values : List NibbleBuf} (hk : ev.kind = .write values)
    (grants : Nat → Bool) (s : Shared) :
    (∀ st ∈ (xpiDispatch w grants ev s).st.steps, st.stored = true →
        reported (xpiDispatch w grants ev s).st.committed st.pos) ↔
      ∀ k sg, (requestBatches w ev)[k]? = some sg → reached w ev grants k →
        2 * replyMtu < replyLength w ev sg →
          ∀ pos, sg.start ≤ pos → pos < sg.start + dispatched w ev sg →
            storesAt w ev pos = false := by
  have hno : ev.kind ≠ .other := by simp [hk]
  constructor
  · intro h k sg hsg hr hlong pos hle hlt
    by_contra hs
    obtain ⟨st, hst, rfl⟩ :=
      (executes_iff w ev hno grants s pos).mp ⟨k, sg, hsg, hr, hle, hlt⟩
    have hsch := run_steps_subset w ev hno hst
    have hrep := h st hst (by rw [stored_eq w ev hk hsch]; simpa using hs)
    -- the batch the position lies in is the one whose reply does not fit
    obtain ⟨b, hb, rfl⟩ := (requestBatches_get w ev s).mp hsg
    have hbm := List.mem_of_getElem? hb
    have hdis := dispatched_le w ev hbm
    obtain ⟨t, ht, hpos⟩ := batch_step w ev hbm hle (Nat.lt_of_lt_of_le hlt (by
      change b.start + _ ≤ b.start + _
      omega))
    rw [← hpos] at hrep
    have hfit := reported_fits w ev hno hbm ht hrep
    omega
  · intro h st hst hstored
    exact (stores_acknowledged w ev hk h hst hstored).reported

end

/-- A write of 27 URIs listed one by one: header, node set and resource set leave six
nibbles of the reply, and the third result overflows it. -/
def listedWrites : Event where
  source := 3
  requestId := 3
  priority := 0
  resourceSet := ⟨List.replicate 27 [1], 2 + 4*27⟩
  kind := .write (List.replicate 27 [nibble 7])

theorem listedWrites_unreported :
    ¬ ∀ st ∈ (xpiDispatch .small (fun _ => true) listedWrites .init).st.steps,
      st.stored = true →
        reported (xpiDispatch .small (fun _ => true) listedWrites .init).st.committed st.pos := by
  decide +kernel

def twentyWrites : Event where
  source := 3
  requestId := 3
  priority := 0
  resourceSet := ⟨List.replicate 20 [1], 27⟩
  kind := .write ((List.range 20).map fun n => [nibble (n % 8)])

theorem twentyWrites_reported :
    (xpiDispatch .small (fun _ => true) twentyWrites .init).st.steps.countP (·.stored) = 20 ∧
      ∀ st ∈ (xpiDispatch .small (fun _ => true) twentyWrites .init).st.steps,
        st.stored = true →
          reported (xpiDispatch .small (fun _ => true) twentyWrites .init).st.committed
            st.pos := by
  refine ⟨by decide +kernel, ?_⟩
  refine (executed_reported_iff .small twentyWrites rfl _ _).mpr fun k sg hsg _ hlong => ?_
  have hall : ∀ c ∈ requestBatches .small twentyWrites,
      replyLength .small twentyWrites c ≤ 2 * replyMtu := by decide +kernel
  have hfit := hall sg (List.mem_of_getElem? hsg)
  omega

end VhlHackathon
