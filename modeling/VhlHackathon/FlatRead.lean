import VhlHackathon.Replies
set_option autoImplicit false

/-!
What a read answers, without batches: one entry for each URI, whatever iterators, hints
and budgets make of the request.
-/

namespace VhlHackathon

def readReference (w : Wire) (digit : UInt8) : Uri → Except XpiError NibbleBuf
  | [1] => .ok (w.putU8 digit)
  | [] | [5] | [6] => .error .operationNotSupported
  | _ => .error .badUri

section
variable (w : Wire) (ev : Event)

theorem hint_error_read {uri : Uri} {maxSize rawSize : SerDesSize} {e : XpiError}
    (h : replySizeHint w uri .read = .immediate maxSize rawSize (.error e)) (digit : UInt8) :
    readReference w digit uri = .error e := by
  unfold replySizeHint at h
  repeat' split at h
  all_goals simp_all [notSupported, badUri]
  all_goals obtain ⟨-, -, rfl⟩ := h
  all_goals simp_all [readReference]

theorem read_step (hk : ev.kind = .read) (pos argPos : Nat) (s : Shared) (uri : Uri) :
    let st := stepAt w ev pos argPos s uri
    st.entries.map (·.result) = [readReference w s.digit uri] ∧ st.post = s := by
  have h := answer_answered w ev (by simp [hk]) uri ev.kind.args[argPos]? s
  simp only [stepAt, Step.entries]
  generalize answer w ev uri ev.kind.args[argPos]? s = r at h ⊢
  generalize ev.kind.args[argPos]? = arg at h
  cases h with
  | rejected arg hint =>
    rw [hintOf, hk] at hint
    simp [Act.entry, hint_error_read w hint]
  | noArgs takes hint => simp [hk, EventKind.takesArgs] at takes
  | sync kind a => cases hk.symm.trans kind
  | async kind a => cases hk.symm.trans kind
  | digit kind a => cases hk.symm.trans kind
  | read kind arg => simp [Act.entry, dispatchRead, readReference]

theorem plan_read (hk : ev.kind = .read) (pos argPos : Nat) (s : Shared) (uris : List Uri) :
    ((plan w ev pos argPos s uris).flatMap (·.entries)).map (·.result) =
        uris.map (readReference w s.digit) ∧
      endShared s (plan w ev pos argPos s uris) = s := by
  induction uris generalizing pos argPos with
  | nil => exact ⟨rfl, rfl⟩
  | cons uri rest ih =>
    obtain ⟨hentries, hpost⟩ := read_step w ev hk pos argPos s uri
    obtain ⟨h1, h2⟩ := ih (pos+1) (argPos + (stepAt w ev pos argPos s uri).act.taken)
    constructor
    · simp only [plan, List.flatMap_cons, List.map_append, hentries, hpost, h1, List.map_cons,
        List.singleton_append]
    · simpa [plan, endShared, hpost] using h2

theorem schedule_read (hk : ev.kind = .read) (n pos : Nat) (s : Shared) :
    (((schedule w ev n pos s).flatMap (·.entries)).map (·.result) =
        ((schedule w ev n pos s).flatMap (·.uris)).map (readReference w s.digit)) ∧
      endShared s ((schedule w ev n pos s).flatMap (·.steps)) = s := by
  induction n generalizing pos with
  | zero => exact ⟨rfl, rfl⟩
  | succ n ih =>
    simp only [schedule]
    split
    · exact ⟨rfl, rfl⟩
    · obtain ⟨hentries, hend⟩ := plan_read w ev hk pos 0 s (batchAt w ev pos)
      have hsteps : endShared s (batchOf w ev pos s).steps = s := hend
      obtain ⟨h1, h2⟩ := ih (pos + (batchOf w ev pos s).uris.length)
      rw [hsteps]
      constructor
      · rw [List.flatMap_cons, List.flatMap_cons, List.map_append, List.map_append, h1]
        exact congrArg (· ++ _) hentries
      · rw [List.flatMap_cons, endShared_append, hsteps]
        exact h2

theorem replies_results {bs : List Batch} (h : ∀ b ∈ bs, b.immediate w ev ≠ 0) :
    (bs.filterMap (·.reply w ev)).flatMap (·.results) = bs.flatMap (·.entries) := by
  induction bs with
  | nil => rfl
  | cons b rest ih =>
    obtain ⟨hb, hrest⟩ := List.forall_mem_cons.mp h
    rw [List.filterMap_cons, (Batch.reply_iff w ev).mpr ⟨hb, rfl⟩]
    simp only [List.flatMap_cons, ih hrest]

/-- A read that returns Ok commits, batch by batch, the reference answers of the URIs it
executed, which are the first of the request, and leaves the resources alone. -/
theorem reads_flat (hk : ev.kind = .read) (grants : Nat → Bool) (s : Shared)
    (hok : (xpiDispatch w grants ev s).status = .ok) :
    let r := (xpiDispatch w grants ev s).st
    (r.committed.flatMap (·.results)).map (·.result) =
        (ev.uris.take r.steps.length).map (readReference w s.digit) ∧
      r.steps.map (·.pos) = List.range r.steps.length ∧
      (∀ reply ∈ r.committed, reply.kind = .readResults) ∧ r.shared = s := by
  have hno : ev.kind ≠ .other := by simp [hk]
  obtain ⟨hstatus, hsteps, hcom, hshared, -⟩ := xpiDispatch_perform w ev hno grants s
  have hpos := run_pos w ev hno hok
  rw [hstatus] at hok
  obtain ⟨hall, hreplies⟩ := perform_ok w ev hok
  obtain ⟨hentries, hend⟩ := schedule_read w ev hk maxReplyBatches 0 s
  have himm : ∀ b ∈ schedule w ev maxReplyBatches 0 s, b.immediate w ev ≠ 0 :=
    fun b hb => batch_immediate w ev (by simp [hk, EventKind.discriminant]) hb
  intro r
  refine ⟨?_, ?_, fun reply hr => ?_, ?_⟩
  · change (r.committed.flatMap (·.results)).map (·.result) = _
    rw [hcom, hreplies, replies_results w ev himm, hentries, schedule_uris, hsteps, hall]
  · rw [List.range_eq_range']
    exact hpos
  · rw [hcom, hreplies] at hr
    obtain ⟨b, -, hbr⟩ := List.mem_filterMap.mp hr
    obtain ⟨-, rfl⟩ := (Batch.reply_iff w ev).mp hbr
    simp [hk, resultsKind]
  · change (xpiDispatch w grants ev s).st.shared = s
    rw [hshared, hall]
    exact hend

end

def seventeenReads : Event where
  source := 3
  requestId := 3
  priority := 0
  resourceSet := ⟨[] :: (List.range 16).map (fun n => [UInt32.ofNat n]), 5⟩
  kind := .read

theorem seventeenReads_flat :
    (xpiDispatch .small (fun _ => true) seventeenReads .init).st.committed.length = 2 ∧
      ((xpiDispatch .small (fun _ => true) seventeenReads .init).st.committed.flatMap
        (·.results)).map (·.result) =
          (seventeenReads.uris.take 17).map (readReference .small 0) := by
  obtain ⟨h, -, -, -⟩ := reads_flat .small seventeenReads rfl (fun _ => true) .init
    (by decide +kernel)
  refine ⟨by decide +kernel, h.trans ?_⟩
  have hlen : (xpiDispatch .small (fun _ => true) seventeenReads .init).st.steps.length = 17 := by
    decide +kernel
  rw [hlen]
  rfl

end VhlHackathon
