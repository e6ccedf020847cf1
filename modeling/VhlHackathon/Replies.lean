import VhlHackathon.Alignment
set_option autoImplicit false

/-!
The replies of a run: which of them are committed, when they fit the grant, and when
their results belong to the URIs of the resource set they carry.
-/

namespace VhlHackathon

section
variable (w : Wire) (ev : Event)

def answerable (grants : Nat → Bool) (k : Nat) : Prop :=
  ∀ j ≤ k, grants j = true ∧
    ∀ sg ∈ (requestBatches w ev)[j]?, replyLength w ev sg ≤ 2 * replyMtu

theorem answerable_iff (hk : ev.kind ≠ .other) (grants : Nat → Bool) (s : Shared) (k : Nat) :
    answerable w ev grants k ↔ ∀ j ≤ k, grants j = true ∧
      ∀ b ∈ (schedule w ev maxReplyBatches 0 s)[j]?, b.fits w ev :=
  forall₂_congr fun j _ => and_congr_right fun _ => fits_get_iff w ev hk s j

theorem mem_committed_iff (hk : ev.kind ≠ .other) (grants : Nat → Bool) (s : Shared) (r : Reply) :
    r ∈ (xpiDispatch w grants ev s).st.committed ↔
      ∃ k b, (schedule w ev maxReplyBatches 0 s)[k]? = some b ∧ answerable w ev grants k ∧
        b.reply w ev = some r := by
  rw [(xpiDispatch_perform w ev hk grants s).2.2.1]
  simp only [answerable_iff w ev hk grants s]
  generalize schedule w ev maxReplyBatches 0 s = bs
  obtain ⟨done, rest, part, hbs, hg, hf, -, hc, hend⟩ := perform_split w ev grants 0 bs
  simp only [Nat.zero_add] at hg hend
  rw [hc, List.mem_filterMap]
  constructor
  · rintro ⟨b, hb, hr⟩
    obtain ⟨k, hk, rfl⟩ := List.getElem_of_mem hb
    refine ⟨k, done[k], by rw [hbs, List.getElem?_append_left hk, List.getElem?_eq_getElem hk],
      fun j hj => ⟨hg j (by omega), fun c hc => ?_⟩, hr⟩
    rw [hbs, List.getElem?_append_left (by omega)] at hc
    exact hf c (List.mem_of_getElem? hc)
  · rintro ⟨k, b, hb, ha, hr⟩
    by_cases hk : k < done.length
    · rw [hbs, List.getElem?_append_left hk] at hb
      exact ⟨b, List.mem_of_getElem? hb, hr⟩
    -- the run did not get as far as batch k
    obtain ⟨hgk, hfk⟩ := ha done.length (by omega)
    rcases hend with ⟨rfl, -, -⟩ | ⟨c, rest', rfl, hno, -⟩ | ⟨c, rest', rfl, -, hno, -⟩
    · have hlt := (List.getElem?_eq_some_iff.mp hb).1
      rw [hbs, List.append_nil] at hlt
      omega
    · rw [hno] at hgk; cases hgk
    · refine absurd (hfk c ?_) hno
      rw [hbs]; simp

theorem perform_nibbleBuf_iff (grants : Nat → Bool) (bs : List Batch) :
    (perform w ev grants 0 bs).status ≠ .err .nibbleBuf ↔
      ∀ k b, bs[k]? = some b → (∀ j ≤ k, grants j = true) → b.fits w ev := by
  obtain ⟨done, rest, part, hbs, hg, hf, -, -, hend⟩ := perform_split w ev grants 0 bs
  simp only [Nat.zero_add] at hg hend
  constructor
  · intro hst k b hb hgk
    by_cases hlt : k < done.length
    · rw [hbs, List.getElem?_append_left hlt] at hb
      exact hf b (List.mem_of_getElem? hb)
    rcases hend with ⟨rfl, -, -⟩ | ⟨c, rest', rfl, hno, -⟩ | ⟨c, rest', rfl, -, -, -, herr⟩
    · have hlt' := (List.getElem?_eq_some_iff.mp hb).1
      rw [hbs, List.append_nil] at hlt'
      omega
    · have hgd := hgk done.length (by omega)
      rw [hno] at hgd; cases hgd
    · exact absurd herr hst
  · intro hall herr
    rcases hend with ⟨-, -, hok⟩ | ⟨c, rest', rfl, hno, -, hbb⟩ | ⟨c, rest', rfl, hgd, hno, -⟩
    · rw [hok] at herr; cases herr
    · rw [hbb] at herr; cases herr
    · refine hno (hall done.length c (by rw [hbs]; simp) fun j hj => ?_)
      rcases Nat.lt_or_eq_of_le hj with hlt | rfl
      · exact hg j hlt
      · exact hgd

theorem replies_fit_iff (hk : ev.kind ≠ .other) (grants : Nat → Bool) (s : Shared) :
    (xpiDispatch w grants ev s).status ≠ .err .nibbleBuf ↔
      ∀ k sg, (requestBatches w ev)[k]? = some sg → (∀ j ≤ k, grants j = true) →
        replyLength w ev sg ≤ 2 * replyMtu := by
  rw [(xpiDispatch_perform w ev hk grants s).1, perform_nibbleBuf_iff]
  constructor
  · intro h k sg hsg hg
    obtain ⟨b, hb, rfl⟩ := (requestBatches_get w ev s).mp hsg
    exact (fits_iff w ev hk (List.mem_of_getElem? hb)).mp (h k b hb hg)
  · intro h k b hb hg
    exact (fits_iff w ev hk (List.mem_of_getElem? hb)).mpr (h k _ (segment_get w ev hb) hg)

def listedReads : Event where
  source := 3
  requestId := 3
  priority := 0
  resourceSet := ⟨List.replicate 30 [1], 2 + 4*30⟩
  kind := .read

theorem listedReads_overflow :
    ¬ (xpiDispatch .small (fun _ => true) listedReads .init).status ≠ .err .nibbleBuf := by
  decide +kernel

/-- Reads of `/0` up to `/(n-1)`, a mask of a nibble for every four of them. -/
def maskedReads (n : Nat) : Event where
  source := 3
  requestId := 3
  priority := 0
  resourceSet := ⟨(List.range n).map fun k => [UInt32.ofNat k], 4 + (n + 3) / 4⟩
  kind := .read

theorem maskedReads_fit :
    (requestBatches .small (maskedReads 40)).map (·.items.length) = [16, 16, 8] ∧
      (xpiDispatch .small (fun _ => true) (maskedReads 40) .init).status ≠ .err .nibbleBuf := by
  refine ⟨by decide +kernel,
    (replies_fit_iff .small (maskedReads 40) nofun _ _).mpr fun k sg hsg _ => ?_⟩
  have hall : ∀ c ∈ requestBatches .small (maskedReads 40),
      replyLength .small (maskedReads 40) c ≤ 2 * replyMtu := by decide +kernel
  exact hall sg (List.mem_of_getElem? hsg)

/-- Only calls are deferred, so any other batch commits a reply. -/
theorem batch_immediate (hcall : ev.kind.discriminant ≠ .call) {n pos : Nat} {s : Shared}
    {b : Batch} (hb : b ∈ schedule w ev n pos s) : b.immediate w ev ≠ 0 := by
  obtain ⟨-, -, -, hne⟩ := mem_schedule w ev hb
  have hall : ∀ uri, (hintOf w ev uri).isImmediate = true := by
    intro uri
    have hd : hintOf w ev uri ≠ .deferred := by simp [hintOf, deferred_iff, hcall]
    cases hh : hintOf w ev uri with
    | immediate maxSize rawSize r => rfl
    | deferred => exact absurd hh hd
  obtain ⟨uri, hu⟩ := List.exists_mem_of_ne_nil _ hne
  have hpos : 0 < b.immediate w ev := List.countP_pos_iff.mpr ⟨uri, hu, hall uri⟩
  omega

theorem stepAt_entry_none_iff (hk : ev.kind ≠ .other) (pos argPos : Nat) (s : Shared)
    (uri : Uri) :
    (stepAt w ev pos argPos s uri).act.entry = none ↔
      hintOf w ev uri = .deferred ∧ argPos < ev.kind.args.length := by
  have harg : argPos < ev.kind.args.length ↔ ev.kind.args[argPos]?.isSome = true := by simp
  have h := answer_answered w ev hk uri ev.kind.args[argPos]? s
  rw [harg]
  simp only [stepAt]
  generalize answer w ev uri ev.kind.args[argPos]? s = r at h ⊢
  generalize ev.kind.args[argPos]? = arg at h ⊢
  cases h with
  | rejected arg hint => simp [hint, Act.entry]
  | noArgs takes hint => simp [Act.entry]
  | sync kind a => simp [hintOf, deferred_iff, Act.entry]
  | async kind a => simp [hintOf, deferred_iff, kind, EventKind.discriminant, Act.entry]
  | digit kind a => simp [hintOf, deferred_iff, Act.entry]
  | read kind arg => simp [hintOf, deferred_iff, Act.entry]

theorem entries_owner (steps : List Step) (h : ∀ st ∈ steps, st.act.entry.isSome = true) :
    (steps.flatMap (·.entries)).map (·.owner) = steps.map (·.pos) := by
  induction steps with
  | nil => rfl
  | cons st rest ih =>
    obtain ⟨r, hr⟩ := Option.isSome_iff_exists.mp (h st (by simp))
    have hi := ih fun st hst => h st (by simp [hst])
    simp [Step.entries, hr] at hi ⊢
    exact hi

theorem batch_entries_iff (hk : ev.kind ≠ .other) (start : Nat) (s : Shared) :
    (∀ st ∈ (batchOf w ev start s).steps, st.act.entry.isSome = true) ↔
      ∀ before uri after, batchAt w ev start = before ++ uri :: after →
        hintOf w ev uri = .deferred →
          ev.kind.args.length ≤ before.countP (accepted w ev) := by
  have hstep : ∀ before uri, hintOf w ev uri = .deferred →
      (((stepAt w ev (start + before.length) (takenArgs (plan w ev start 0 s before))
        (endShared s (plan w ev start 0 s before)) uri).act.entry.isSome = true) ↔
          ev.kind.args.length ≤ before.countP (accepted w ev)) := by
    intro before uri hd
    have hta : ev.kind.takesArgs = true := by
      have hcall := ((deferred_iff w uri ev.kind.discriminant).mp hd).2
      cases hkd : ev.kind <;> simp_all [EventKind.discriminant, EventKind.takesArgs]
    have htaken := plan_taken w ev hta start 0 s before (Nat.zero_le _)
    rw [Nat.zero_add, Nat.zero_add] at htaken
    rw [← Option.ne_none_iff_isSome, Ne, stepAt_entry_none_iff w ev hk, htaken]
    simp only [hd, true_and]
    omega
  constructor
  · intro hall before uri after hsplit hd
    refine (hstep before uri hd).mp (hall _ ?_)
    simp only [batchOf, hsplit, plan_append, plan, List.mem_append, List.mem_cons, Nat.zero_add]
    exact Or.inr (Or.inl trivial)
  · intro hall st hst
    obtain ⟨before, uri, after, hsplit, rfl⟩ := mem_plan w ev hst
    rw [Nat.zero_add]
    by_cases hd : hintOf w ev uri = .deferred
    · exact (hstep before uri hd).mpr (hall before uri after hsplit hd)
    · rw [← Option.ne_none_iff_isSome, Ne, stepAt_entry_none_iff w ev hk]
      exact fun h => hd h.1

/-- Entry `k` is the result of URI `k` of the resource set in the same reply, for as
many entries as there are URIs. -/
def Reply.attributable (r : Reply) : Prop :=
  r.results.map (·.owner) = List.range r.resourceSet.uris.length

instance (r : Reply) : Decidable r.attributable := inferInstanceAs (Decidable (_ = _))

theorem batchAt_length_le (start : Nat) :
    (batchAt w ev start).length ≤ ev.uris.length - start := by
  have h := (Packing.batch_prefix (hintCost w ev) maxReplyBatchLen replyNibbles
    (ev.uris.drop start)).length_le
  simpa [batchAt] using h

theorem batchAt_zero_iff :
    batchAt w ev 0 = ev.uris ↔
      ev.uris.length ≤ maxReplyBatchLen ∧ (ev.uris.map (hintCost w ev)).sum ≤ replyNibbles :=
  Packing.batch_eq_self_iff (hintCost w ev) maxReplyBatchLen replyNibbles ev.uris

theorem schedule_one {uri : Uri} (hu : ev.uris = [uri]) (hc : hintCost w ev uri ≤ replyNibbles)
    (s : Shared) :
    schedule w ev maxReplyBatches 0 s = [⟨0, [uri], [stepAt w ev 0 0 s uri]⟩] := by
  have hfirst : batchAt w ev 0 = [uri] := by
    rw [← hu, batchAt_zero_iff, hu]
    exact ⟨by simp [maxReplyBatchLen], by simpa using hc⟩
  have hb : batchOf w ev 0 s = ⟨0, [uri], [stepAt w ev 0 0 s uri]⟩ := by
    simp [batchOf, hfirst, plan]
  have hrest : batchAt w ev 1 = [] := by
    rw [batchAt.eq_1, hu]
    exact Packing.batch_nil _ _ _
  have hnil : (batchOf w ev 1 (stepAt w ev 0 0 s uri).post).uris = [] := hrest
  have hend : endShared s [stepAt w ev 0 0 s uri] = (stepAt w ev 0 0 s uri).post := rfl
  simp only [maxReplyBatches, schedule, hb]
  simp [hend, hnil]

theorem dispatch_one {uri : Uri} (hk : ev.kind ≠ .other) (hu : ev.uris = [uri])
    (hc : hintCost w ev uri ≤ replyNibbles) (grants : Nat → Bool) (s : Shared) :
    let r := xpiDispatch w grants ev s
    let b : Batch := ⟨0, [uri], [stepAt w ev 0 0 s uri]⟩
    (grants 0 = false → r.st.shared = s ∧ r.st.committed = []) ∧
      (grants 0 = true → b.fits w ev → r.st.shared = (stepAt w ev 0 0 s uri).post ∧
        r.st.committed = (b.reply w ev).toList) := by
  obtain ⟨-, -, hcom, hshared, -⟩ := xpiDispatch_perform w ev hk grants s
  rw [schedule_one w ev hu hc] at hcom hshared
  refine ⟨fun hg => ?_, fun hg hf => ?_⟩
  · simp only [perform, hg, if_true] at hcom hshared
    exact ⟨hshared, hcom⟩
  · simp only [perform, hg, hf, if_true, Bool.true_eq_false, if_false, List.append_nil]
      at hcom hshared
    exact ⟨hshared, hcom⟩

theorem schedule_single (h : batchAt w ev 0 = ev.uris) {n : Nat} {s : Shared} {b : Batch}
    (hb : b ∈ schedule w ev n 0 s) : b.start = 0 := by
  cases n with
  | zero => simp [schedule] at hb
  | succ n =>
    simp only [schedule] at hb
    by_cases hu : (batchOf w ev 0 s).uris = []
    · simp [hu] at hb
    · simp only [hu, if_false, List.mem_cons] at hb
      rcases hb with rfl | hb
      · rfl
      · obtain ⟨s', hbs, hle, hne⟩ := mem_schedule w ev hb
        have hlen := batchAt_length_le w ev b.start
        have hle' : 0 + (batchAt w ev 0).length ≤ b.start := hle
        rw [h] at hle'
        have hnil : batchAt w ev b.start = [] := List.length_eq_zero_iff.mp (by omega)
        rw [hbs] at hne
        exact absurd hnil hne

theorem attributable_iff (hk : ev.kind ≠ .other) {n : Nat} {s : Shared} {b : Batch} {r : Reply}
    (hb : b ∈ schedule w ev n 0 s) (hr : b.reply w ev = some r) :
    r.attributable ↔ batchAt w ev 0 = ev.uris ∧
      ∀ before uri after, ev.uris = before ++ uri :: after → hintOf w ev uri = .deferred →
        ev.kind.args.length ≤ before.countP (accepted w ev) := by
  obtain ⟨s', hbs, -, hne⟩ := mem_schedule w ev hb
  obtain ⟨-, rfl⟩ := (Batch.reply_iff w ev).mp hr
  have hle := batchAt_length_le w ev b.start
  obtain ⟨huris, hlen, hpos⟩ := schedule_batch w ev hb
  rw [← hlen] at hpos
  rw [huris] at hlen
  have hnonempty : 0 < (batchAt w ev b.start).length := by
    rw [hbs] at hne; exact List.length_pos_iff.mpr hne
  unfold Reply.attributable Batch.entries
  constructor
  · intro h
    -- as many entries as URIs: the batch is the whole request and every step left one
    have hcount := congrArg List.length h
    rw [List.length_map, entries_length, List.length_range] at hcount
    have hcle := List.countP_le_length (p := fun st : Step => st.act.entry.isSome) (l := b.steps)
    change _ = ev.uris.length at hcount
    have hstart : b.start = 0 := by omega
    have hall : ∀ st ∈ b.steps, st.act.entry.isSome = true := by
      have hfull : b.steps.countP (fun st => st.act.entry.isSome) = b.steps.length := by omega
      simpa using List.countP_eq_length.mp hfull
    rw [hstart] at hlen hle hbs
    have hone : batchAt w ev 0 = ev.uris := by
      have hp : batchAt w ev 0 <+: ev.uris := Packing.batch_prefix _ _ _ _
      exact hp.eq_of_length (by omega)
    refine ⟨hone, ?_⟩
    rw [hbs] at hall
    have hd := (batch_entries_iff w ev hk 0 s').mp hall
    rwa [hone] at hd
  · rintro ⟨hone, hd⟩
    have hstart := schedule_single w ev hone hb
    rw [hstart] at hlen hbs hpos
    have hall : ∀ st ∈ b.steps, st.act.entry.isSome = true := by
      rw [hbs]; exact (batch_entries_iff w ev hk 0 s').mpr (by rwa [hone])
    rw [entries_owner _ hall, hpos, hlen, hone, List.range_eq_range']

theorem results_attributable_iff (hk : ev.kind ≠ .other) (grants : Nat → Bool) (s : Shared) :
    (∀ r ∈ (xpiDispatch w grants ev s).st.committed, r.attributable) ↔
      (∀ k sg, (requestBatches w ev)[k]? = some sg → answerable w ev grants k →
        immediateReplies w ev sg = 0) ∨
      (ev.uris.length ≤ maxReplyBatchLen ∧ (ev.uris.map (hintCost w ev)).sum ≤ replyNibbles ∧
        ∀ before uri after, ev.uris = before ++ uri :: after → hintOf w ev uri = .deferred →
          ev.kind.args.length ≤ before.countP (accepted w ev)) := by
  rw [← and_assoc, ← batchAt_zero_iff]
  constructor
  · intro hall
    by_cases hnone : ∀ k sg, (requestBatches w ev)[k]? = some sg → answerable w ev grants k →
        immediateReplies w ev sg = 0
    · exact Or.inl hnone
    · right
      simp only [not_forall] at hnone
      obtain ⟨k, sg, hsg, ha, himm⟩ := hnone
      obtain ⟨b, hb, rfl⟩ := (requestBatches_get w ev s).mp hsg
      have hr := (Batch.reply_iff w ev).mpr ⟨himm, rfl⟩
      have hatt := hall _ ((mem_committed_iff w ev hk grants s _).mpr ⟨k, b, hb, ha, hr⟩)
      exact (attributable_iff w ev hk (List.mem_of_getElem? hb) hr).mp hatt
  · rintro (hnone | hone) r hr <;>
      obtain ⟨k, b, hb, ha, hbr⟩ := (mem_committed_iff w ev hk grants s r).mp hr
    · have himm : b.immediate w ev = 0 := hnone k b.segment (segment_get w ev hb) ha
      exact absurd himm ((Batch.reply_iff w ev).mp hbr).1
    · exact (attributable_iff w ev hk (List.mem_of_getElem? hb) hbr).mpr hone

end

theorem maskedWrite_unattributable :
    ¬ ∀ r ∈ (xpiDispatch .small (fun _ => true) maskedWrite .init).st.committed,
      r.attributable := by
  decide +kernel

theorem maskedReads_attributable :
    (xpiDispatch .small (fun _ => true) (maskedReads 16) .init).st.committed.map
        (·.results.length) = [16] ∧
      ∀ r ∈ (xpiDispatch .small (fun _ => true) (maskedReads 16) .init).st.committed,
        r.attributable := by
  refine ⟨by decide +kernel, (results_attributable_iff .small (maskedReads 16) nofun _ _).mpr
    (Or.inr ⟨by decide +kernel, by decide +kernel, fun before uri after _ deferred => ?_⟩)⟩
  cases ((deferred_iff .small uri .read).mp deferred).2

end VhlHackathon
