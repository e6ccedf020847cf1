import VhlHackathon.Request
set_option autoImplicit false

/-!
Which argument a URI is paired with. The argument iterator is made anew for every
batch and stands still at URIs the look-ahead refused, so a URI gets the entry at its
rank among the accepted URIs of its own batch.
-/

namespace VhlHackathon

section
variable (w : Wire) (ev : Event)

def Step.accepted (st : Step) : Bool := st.hint.any (·.accepts)

/-- A handler that runs for the URI at position `i` is passed argument `i`, and an
accepted URI is told NoArgumentsProvided exactly when there is no argument `i`. -/
def Step.aligned (st : Step) : Prop :=
  (st.act.arg.isSome = true → ev.kind.args[st.pos]? = st.act.arg) ∧
    (st.accepted = true → (st.act = .noArgs ↔ ev.kind.args.length ≤ st.pos))

instance (st : Step) : Decidable (st.aligned ev) := inferInstanceAs (Decidable (_ ∧ _))

theorem aligned_iff (hk : ev.kind.takesArgs = true) {s : Shared} {st : Step}
    (hst : st ∈ (schedule w ev maxReplyBatches 0 s).flatMap (·.steps)) :
    st.aligned ev ↔ (acceptedAt w ev st.pos = true →
      pairedIndex w ev st.pos < ev.kind.args.length →
        ev.kind.args[st.pos]? = pairedArg w ev st.pos) := by
  obtain ⟨-, -, -, -, -, hle⟩ := schedule_step_arg w ev hk hst
  obtain ⟨uri, s', hget, hhint, hact⟩ := schedule_step_act w ev hk hst
  have hacc : st.accepted = accepted w ev uri := by rw [Step.accepted, hhint]; rfl
  have hat : acceptedAt w ev st.pos = accepted w ev uri := by simp [acceptedAt, hget]
  obtain ⟨h1, h2⟩ := answer_arg w ev hk uri (pairedArg w ev st.pos) s'
  rw [← hact] at h1 h2
  unfold Step.aligned
  rw [hacc, hat, h1, h2]
  cases ha : accepted w ev uri with
  | false => simp
  | true =>
    cases hp : pairedArg w ev st.pos with
    | some a =>
      -- the handler ran with the argument at the paired index
      have hlt := (List.getElem?_eq_some_iff.mp hp).1
      simp only [Option.isSome_some, if_true, forall_const, hlt, reduceCtorEq, and_false,
        false_iff, Nat.not_le]
      exact ⟨fun h => h.1, fun h => ⟨h, (List.getElem?_eq_some_iff.mp h).1⟩⟩
    | none =>
      -- the list was used up
      have hge := List.getElem?_eq_none_iff.mp hp
      simp only [if_true, Option.isSome_none, Bool.false_eq_true, false_implies, true_and,
        forall_const, and_self, true_iff]
      exact ⟨fun _ h => by omega, fun _ => by omega⟩

theorem arguments_aligned_iff (hk : ev.kind.takesArgs = true) (grants : Nat → Bool)
    (s : Shared) :
    (∀ st ∈ (xpiDispatch w grants ev s).st.steps, st.aligned ev) ↔
      ∀ pos, executes w ev grants pos → acceptedAt w ev pos = true →
        pairedIndex w ev pos < ev.kind.args.length →
          ev.kind.args[pos]? = pairedArg w ev pos := by
  have hno := takesArgs_ne_other ev hk
  constructor
  · intro h pos he
    obtain ⟨st, hst, rfl⟩ := (executes_iff w ev hno grants s pos).mp he
    exact (aligned_iff w ev hk (run_steps_subset w ev hno hst)).mp (h st hst)
  · intro h st hst
    exact (aligned_iff w ev hk (run_steps_subset w ev hno hst)).mpr
      (h st.pos ((executes_iff w ev hno grants s st.pos).mpr ⟨st, hst, rfl⟩))

end

def twoWrites : Event := ⟨3, 3, 0, ⟨[[1], [1]], 9⟩, .write [[nibble 1], [nibble 2]]⟩

theorem twoWrites_aligned :
    (xpiDispatch .small (fun _ => true) twoWrites .init).st.steps.length = 2 ∧
      ∀ st ∈ (xpiDispatch .small (fun _ => true) twoWrites .init).st.steps,
        st.aligned twoWrites := by
  refine ⟨by decide +kernel, ?_⟩
  refine (arguments_aligned_iff .small twoWrites rfl _ _).mpr fun pos _ hacc _ => ?_
  match pos with
  | 0 => decide +kernel
  | 1 => decide +kernel
  | pos+2 => simp [acceptedAt, Event.uris, twoWrites] at hacc

/-- A write to `/0` up to `/16`, a mask that enumerates 17 children, and then to `/1`
again, with a value of its own for each of the 18. -/
def maskedWrite : Event where
  source := 3
  requestId := 3
  priority := 0
  resourceSet := ⟨(List.range 17).map (fun n => [UInt32.ofNat n]) ++ [[1]], 9⟩
  kind := .write ((List.range 18).map fun n => [nibble (n % 8)])

theorem maskedWrite_misaligned :
    ¬ ∀ st ∈ (xpiDispatch .small (fun _ => true) maskedWrite .init).st.steps,
      st.aligned maskedWrite := by
  decide +kernel

end VhlHackathon
