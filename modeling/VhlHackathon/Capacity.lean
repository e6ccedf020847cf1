import VhlHackathon.Replies
set_option autoImplicit false

/-!
How many URIs a run gets to. Eight batches hold 128 URIs only if their hints leave room
for sixteen in each: a request is served to its end exactly when its URIs can be divided
into eight groups within the slots and the budget.
-/

namespace VhlHackathon

section
variable (w : Wire) (ev : Event)

/-- The URIs are at most eight consecutive groups of at most sixteen, with hints that ask for
at most 96 nibbles in each. -/
def Servable : Prop :=
  Packing.Divides (hintCost w ev) maxReplyBatchLen replyNibbles maxReplyBatches ev.uris

theorem served_iff (hk : ev.kind ≠ .other) (grants : Nat → Bool) (s : Shared)
    (hok : (xpiDispatch w grants ev s).status = .ok) :
    ((∀ pos < ev.uris.length, ∃ st ∈ (xpiDispatch w grants ev s).st.steps, st.pos = pos) ∧
        (xpiDispatch w grants ev s).skipped = false) ↔ Servable w ev := by
  obtain ⟨hstatus, hsteps, -, -, hskip⟩ := xpiDispatch_perform w ev hk grants s
  have hcovered := covered_iff (run_pos w ev hk hok) ev.uris.length
  have hlen := schedule_steps_length w ev maxReplyBatches 0 s
  rw [hstatus] at hok
  rw [schedule_items, ← (perform_ok w ev hok).1, ← hsteps] at hlen
  rw [hskip, ← hsteps]
  generalize (xpiDispatch w grants ev s).st.steps = steps at hcovered hlen ⊢
  have hdivides : Servable w ev ↔ ev.uris.length ≤ steps.length := by
    have hcover := Packing.segments_cover_iff (hintCost w ev) maxReplyBatchLen replyNibbles
      maxReplyBatches ev.uris 0
    have hprefix := Packing.segments_prefix (hintCost w ev) maxReplyBatchLen replyNibbles
      maxReplyBatches ev.uris 0
    rw [List.drop_zero] at hcover hprefix
    rw [Servable, ← hcover, hlen]
    constructor
    · intro h
      rw [h]
    · intro h
      exact hprefix.eq_of_length_le h
  rw [hcovered, hdivides, hok]
  simp

theorem capacity_iff (hk : ev.kind ≠ .other) (grants : Nat → Bool) (s : Shared)
    (hok : (xpiDispatch w grants ev s).status = .ok) :
    (ev.uris.length ≤ maxReplyBatchLen * maxReplyBatches →
        (∀ pos < ev.uris.length, ∃ st ∈ (xpiDispatch w grants ev s).st.steps, st.pos = pos) ∧
          (xpiDispatch w grants ev s).skipped = false) ↔
      (ev.uris.length ≤ maxReplyBatchLen * maxReplyBatches → Servable w ev) :=
  imp_congr_right fun _ => served_iff w ev hk grants s hok

end

/-- A call of 65 times `/5`, listed as child indices of the root, without arguments. -/
def manySyncs : Event where
  source := 3
  requestId := 3
  priority := 0
  resourceSet := ⟨List.replicate 65 [5], 72⟩
  kind := .call []

theorem manySyncs_skipped :
    (xpiDispatch .small (fun _ => true) manySyncs .init).status = .ok ∧
      ¬ (manySyncs.uris.length ≤ maxReplyBatchLen * maxReplyBatches →
        (∀ pos < manySyncs.uris.length,
          ∃ st ∈ (xpiDispatch .small (fun _ => true) manySyncs .init).st.steps, st.pos = pos) ∧
          (xpiDispatch .small (fun _ => true) manySyncs .init).skipped = false) := by
  decide +kernel

theorem maskedReads_served :
    (xpiDispatch .small (fun _ => true) (maskedReads 128) .init).skipped = false ∧
      ∀ pos < 128, ∃ st ∈ (xpiDispatch .small (fun _ => true) (maskedReads 128) .init).st.steps,
        st.pos = pos := by
  have servable : Servable .small (maskedReads 128) :=
    ⟨(List.range 8).map fun g => (List.range 16).map fun i => [UInt32.ofNat (16 * g + i)],
      by decide +kernel, by decide +kernel, by decide +kernel⟩
  obtain ⟨hall, hskip⟩ := (capacity_iff .small (maskedReads 128) nofun (fun _ => true) .init
    (by decide +kernel)).mpr (fun _ => servable) (by decide +kernel)
  exact ⟨hskip, hall⟩

end VhlHackathon
