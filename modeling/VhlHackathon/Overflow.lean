import VhlHackathon.Node
set_option autoImplicit false

/-!
The arithmetic of fixed width that requests lead to: the reply budget of the look-ahead,
the sums of /sync, and the character the display task makes of the digit.
-/

namespace VhlHackathon

inductive FixedOp where
  | addU16 (a b : UInt16)
  | addU8 (a b : UInt8)
  | subUsize (a b : Nat)
  deriving DecidableEq, Repr

/-- The result is the exact one: no overflow, no underflow. -/
def FixedOp.InRange : FixedOp → Prop
  | .addU16 a b => a.toNat + b.toNat < 2 ^ 16
  | .addU8 a b => a.toNat + b.toNat < 2 ^ 8
  | .subUsize a b => b ≤ a

instance : (op : FixedOp) → Decidable op.InRange
  | .addU16 a b => inferInstanceAs (Decidable (a.toNat + b.toNat < 2 ^ 16))
  | .addU8 a b => inferInstanceAs (Decidable (a.toNat + b.toNat < 2 ^ 8))
  | .subUsize a b => inferInstanceAs (Decidable (b ≤ a))

def syncOps (p1 p2 : Point) : List FixedOp := [.addU16 p1.x p2.x, .addU16 p1.y p2.y]

theorem sync_exact_iff (p1 p2 : Point) : (∀ op ∈ syncOps p1 p2, op.InRange) ↔
    (sync p1 p2).x.toNat = p1.x.toNat + p2.x.toNat ∧
      (sync p1 p2).y.toNat = p1.y.toNat + p2.y.toNat := by
  have hx := p1.x.toNat_lt
  have hy := p1.y.toNat_lt
  have hx' := p2.x.toNat_lt
  have hy' := p2.y.toNat_lt
  simp only [syncOps, List.forall_mem_cons, FixedOp.InRange, sync, UInt16.toNat_add,
    List.not_mem_nil, false_implies, implies_true, and_true]
  constructor
  · rintro ⟨h, h'⟩
    omega
  · rintro ⟨h, h'⟩
    omega

def displayTaskOps (digit : UInt8) : List FixedOp := [.addU8 digit 48]

def dispatchCallOps (w : Wire) (uri : Uri) (argsNrd : NibbleBuf) : List FixedOp :=
  match uri with
  | 5 :: _ =>
    match desPoints w argsNrd with
    | none => []
    | some (p1, p2) => syncOps p1 p2
  | _ => []

def Step.ops (w : Wire) (ev : Event) (st : Step) : List FixedOp :=
  match ev.kind, ev.uris[st.pos]?, st.act.arg with
  | .call _, some uri, some argsNrd => dispatchCallOps w uri argsNrd
  | _, _, _ => []

/-- `(REPLY_MTU - 5) * 2 - 10 - 2 - 10` -/
def replyNibblesOps : List FixedOp :=
  [.subUsize replyMtu 5, .subUsize ((replyMtu - 5) * 2) 10,
    .subUsize ((replyMtu - 5) * 2 - 10) 2, .subUsize ((replyMtu - 5) * 2 - 10 - 2) 10]

def lookaheadOps (w : Wire) (k : XpiEventDiscriminant) (uris : List Uri) (pos : Nat) :
    List FixedOp :=
  replyNibblesOps ++ (lookahead w k uris pos).charges.map fun c => .subUsize c.1 c.2

theorem lookaheadLoop_charges (w : Wire) (k : XpiEventDiscriminant) (uris : List Uri)
    (idxs : List Nat) {la : Lookahead} (h : ∀ c ∈ la.charges, c.2 ≤ c.1) :
    ∀ c ∈ (lookaheadLoop w k uris idxs la).charges, c.2 ≤ c.1 := by
  induction idxs generalizing la with
  | nil => exact h
  | cons idx rest ih =>
    unfold lookaheadLoop
    split
    · exact h
    · dsimp only
      split
      · split
        · rename_i fits
          refine ih fun c hc => ?_
          rcases List.mem_append.mp hc with old | new
          · exact h c old
          · obtain rfl := List.mem_singleton.mp new
            exact fits
        · exact h
      · exact ih h

theorem lookaheadOps_inRange (w : Wire) (k : XpiEventDiscriminant) (uris : List Uri) (pos : Nat) :
    ∀ op ∈ lookaheadOps w k uris pos, op.InRange := by
  have start : ∀ op ∈ replyNibblesOps, op.InRange := by decide
  intro op hop
  rcases List.mem_append.mp hop with hop | hop
  · exact start op hop
  · obtain ⟨c, hc, rfl⟩ := List.mem_map.mp hop
    exact lookaheadLoop_charges w k uris _ (by simp) c hc

section
variable (w : Wire) (ev : Event)

def eventOps (grants : Nat → Bool) (s : Shared) : List FixedOp :=
  (xpiDispatch w grants ev s).st.iterations.flatMap
      (fun it => lookaheadOps w ev.kind.discriminant ev.uris it.look)
    ++ (xpiDispatch w grants ev s).st.steps.flatMap (Step.ops w ev)

/-- With the display tasks spawned for the digits it stores. -/
def consequences (grants : Nat → Bool) (s : Shared) : List FixedOp :=
  eventOps w ev grants s ++
    ((digitWrites w ev.kind (xpiDispatch w grants ev s).st.steps).filter (·.ok)).flatMap
      fun d => displayTaskOps d.after

/-- The arguments paired with a URI stay in range: neither sum of /sync reaches 65536, and
what /digit keeps of its value is at most 207. -/
def InRangeAt (pos : Nat) : Prop :=
  match ev.kind, ev.uris[pos]?, pairedArg w ev pos with
  | .call _, some [5], some argsNrd => ∀ p ∈ desPoints w argsNrd,
    p.1.x.toNat + p.2.x.toNat < 65536 ∧ p.1.y.toNat + p.2.y.toNat < 65536
  | .write _, some [1], some valueNrd => ∀ n ∈ w.desU32 valueNrd, n.toUInt8.toNat ≤ 207
  | _, _, _ => True

instance (pos : Nat) : Decidable (InRangeAt w ev pos) := by
  unfold InRangeAt
  split
  · exact Option.decidableForallMem _
  · exact Option.decidableForallMem _
  · infer_instance

theorem syncOps_inRange_iff (p1 p2 : Point) : (∀ op ∈ syncOps p1 p2, op.InRange) ↔
    p1.x.toNat + p2.x.toNat < 65536 ∧ p1.y.toNat + p2.y.toNat < 65536 := by
  simp [syncOps, FixedOp.InRange]

theorem displayTaskOps_inRange_iff (digit : UInt8) :
    (∀ op ∈ displayTaskOps digit, op.InRange) ↔ digit.toNat ≤ 207 := by
  simp only [displayTaskOps, List.forall_mem_singleton, FixedOp.InRange]
  change digit.toNat + 48 < 256 ↔ _
  omega

theorem dispatchCallOps_sync_iff (argsNrd : NibbleBuf) :
    (∀ op ∈ dispatchCallOps w [5] argsNrd, op.InRange) ↔ ∀ p ∈ desPoints w argsNrd,
      p.1.x.toNat + p.2.x.toNat < 65536 ∧ p.1.y.toNat + p.2.y.toNat < 65536 := by
  unfold dispatchCallOps
  cases desPoints w argsNrd with
  | none => simp
  | some p => simpa using syncOps_inRange_iff p.1 p.2

theorem inRangeAt_rejected {pos : Nat} {uri : Uri} (hget : ev.uris[pos]? = some uri)
    (h : accepted w ev uri ≠ true) : InRangeAt w ev pos := by
  unfold InRangeAt
  split
  · rename_i hk hsync harg
    rw [hget] at hsync
    cases hsync
    exact absurd ((accepted_call_iff w ev hk [5]).mpr (Or.inl rfl)) h
  · rename_i hk hdigit harg
    rw [hget] at hdigit
    cases hdigit
    exact absurd ((accepted_write_iff w ev hk [1]).mpr rfl) h
  · trivial

theorem call_ops_iff {args : List NibbleBuf} (hk : ev.kind = .call args) {s : Shared} {st : Step}
    (hst : st ∈ (schedule w ev maxReplyBatches 0 s).flatMap (·.steps)) :
    (∀ op ∈ st.ops w ev, op.InRange) ↔ InRangeAt w ev st.pos := by
  have hta : ev.kind.takesArgs = true := by simp [hk, EventKind.takesArgs]
  obtain ⟨uri, s', hget, -, hact⟩ := schedule_step_act w ev hta hst
  have harg := (answer_arg w ev hta uri (pairedArg w ev st.pos) s').1
  rw [← hact] at harg
  by_cases ha : accepted w ev uri = true
  · rw [if_pos ha] at harg
    unfold Step.ops InRangeAt
    rw [hk, hget, harg]
    rcases (accepted_call_iff w ev hk uri).mp ha with rfl | rfl
    · cases pairedArg w ev st.pos with
      | none => simp
      | some a => exact dispatchCallOps_sync_iff w a
    · cases pairedArg w ev st.pos <;> simp [dispatchCallOps]
  · rw [if_neg ha] at harg
    have none : st.ops w ev = [] := by
      unfold Step.ops
      rw [hk, hget, harg]
    simp [none, inRangeAt_rejected w ev hget ha]

theorem write_digit_iff {values : List NibbleBuf} (hk : ev.kind = .write values) {s : Shared}
    {st : Step} (hst : st ∈ (schedule w ev maxReplyBatches 0 s).flatMap (·.steps)) :
    (∀ d ∈ st.digitWrite w ev.kind, d.ok = true → d.after.toNat ≤ 207)
      ↔ InRangeAt w ev st.pos := by
  have hta : ev.kind.takesArgs = true := by simp [hk, EventKind.takesArgs]
  obtain ⟨uri, s', hget, hstep, harg, -⟩ := schedule_step_arg w ev hta hst
  have hact : (st.act, st.post) = answer w ev uri (pairedArg w ev st.pos) s' := by
    rw [← harg]
    conv_lhs => rw [hstep]
    rfl
  by_cases ha : accepted w ev uri = true
  · obtain rfl := (accepted_write_iff w ev hk uri).mp ha
    unfold InRangeAt
    rw [hk, hget]
    cases hpair : pairedArg w ev st.pos with
    | none =>
      rw [hpair, answer_noArgs w ev hta ha] at hact
      simp [Step.digitWrite, (Prod.mk.inj hact).1]
    | some a =>
      rw [hpair, answer_digit w ev hk] at hact
      obtain ⟨act, post⟩ := Prod.mk.inj hact
      cases hd : w.desU32 a with
      | none => simp [Step.digitWrite, act, hd]
      | some n =>
        simp [Step.digitWrite, act, post, hd, dispatchWrite, Except.map, Except.isOk,
          Except.toBool]
  · obtain ⟨maxSize, rawSize, e, hh⟩ := hintOf_rejected w ev (by simpa using ha)
    rw [answer_error w ev (takesArgs_ne_other ev hta) hh] at hact
    have none : st.digitWrite w ev.kind = none := by
      simp [Step.digitWrite, (Prod.mk.inj hact).1]
    simp [none, inRangeAt_rejected w ev hget ha]

theorem step_inRange_iff (hk : ev.kind ≠ .other) {s : Shared} {st : Step}
    (hst : st ∈ (schedule w ev maxReplyBatches 0 s).flatMap (·.steps)) :
    ((∀ op ∈ st.ops w ev, op.InRange) ∧
        ∀ d ∈ st.digitWrite w ev.kind, d.ok = true → d.after.toNat ≤ 207)
      ↔ InRangeAt w ev st.pos := by
  cases hkd : ev.kind with
  | call args =>
    have none : st.digitWrite w (.call args) = none := rfl
    simp [none, call_ops_iff w ev hkd hst]
  | write values =>
    have none : st.ops w ev = [] := by simp [Step.ops, hkd]
    rw [← hkd, none, write_digit_iff w ev hkd hst]
    simp
  | read =>
    have none : st.digitWrite w .read = none := rfl
    simp [Step.ops, InRangeAt, none, hkd]
  | other => exact absurd hkd hk

theorem budget_inRange (iterations : List Iteration) (op : FixedOp) (hop : op ∈ iterations.flatMap
    fun it => lookaheadOps w ev.kind.discriminant ev.uris it.look) : op.InRange := by
  obtain ⟨it, -, hop⟩ := List.mem_flatMap.mp hop
  exact lookaheadOps_inRange w _ _ _ op hop

theorem consequences_steps_iff (grants : Nat → Bool) (s : Shared) :
    (∀ op ∈ consequences w ev grants s, op.InRange)
      ↔ ∀ st ∈ (xpiDispatch w grants ev s).st.steps, (∀ op ∈ st.ops w ev, op.InRange) ∧
        ∀ d ∈ st.digitWrite w ev.kind, d.ok = true → d.after.toNat ≤ 207 := by
  constructor
  · intro h st hst
    refine ⟨fun op hop => h op ?_, fun d hd hok => ?_⟩
    · exact List.mem_append_left _ (List.mem_append_right _ (List.mem_flatMap.mpr ⟨st, hst, hop⟩))
    · refine (displayTaskOps_inRange_iff d.after).mp fun op hop => h op ?_
      refine List.mem_append_right _ (List.mem_flatMap.mpr ⟨d, ?_, hop⟩)
      exact List.mem_filter.mpr ⟨List.mem_flatMap.mpr ⟨st, hst, Option.mem_toList.mpr hd⟩, hok⟩
  · intro h op hop
    rcases List.mem_append.mp hop with hop | hop
    · rcases List.mem_append.mp hop with hop | hop
      · exact budget_inRange w ev _ op hop
      · obtain ⟨st, hst, hop⟩ := List.mem_flatMap.mp hop
        exact (h st hst).1 op hop
    · obtain ⟨d, hd, hop⟩ := List.mem_flatMap.mp hop
      obtain ⟨hd, hok⟩ := List.mem_filter.mp hd
      obtain ⟨st, hst, hd⟩ := List.mem_flatMap.mp hd
      exact (displayTaskOps_inRange_iff d.after).mpr
        ((h st hst).2 d (Option.mem_toList.mp hd) hok) op hop

theorem consequences_inRange_iff (grants : Nat → Bool) (s : Shared) :
    (∀ op ∈ consequences w ev grants s, op.InRange)
      ↔ ∀ pos, executes w ev grants pos → InRangeAt w ev pos := by
  rw [consequences_steps_iff]
  by_cases hk : ev.kind = .other
  · have none := (xpiDispatch_other w ev hk grants s).2
    simp [none, InRangeAt, hk]
  · constructor
    · intro h pos hpos
      obtain ⟨st, hst, rfl⟩ := (executes_iff w ev hk grants s pos).mp hpos
      exact (step_inRange_iff w ev hk (run_steps_subset w ev hk hst)).mp (h st hst)
    · intro h st hst
      apply (step_inRange_iff w ev hk (run_steps_subset w ev hk hst)).mpr
      exact h st.pos ((executes_iff w ev hk grants s st.pos).mpr ⟨st, hst, rfl⟩)

theorem inRangeAt_digit {values : List NibbleBuf} (hk : ev.kind = .write values) {pos : Nat}
    {n : UInt32} (ha : acceptedAt w ev pos = true)
    (hp : (pairedArg w ev pos).bind w.desU32 = some n) (h : InRangeAt w ev pos) :
    n.toUInt8.toNat ≤ 207 := by
  obtain ⟨a, hpair, hdec⟩ := Option.bind_eq_some_iff.mp hp
  obtain ⟨uri, hget, hacc⟩ := (Option.any_eq_true _ _).mp ha
  obtain rfl := (accepted_write_iff w ev hk uri).mp hacc
  unfold InRangeAt at h
  rw [hk, hget, hpair] at h
  exact h n hdec

def nodeOps (s : NodeState) : NodeAct → List FixedOp
  | .event grants ev => eventOps w ev grants s.shared
  | .displayTask _ => displayTaskOps s.shared.digit
  | .setDigit | .asyncTask => []

def inRange : NodeAct → Prop
  | .event grants ev => ∀ pos, executes w ev grants pos → InRangeAt w ev pos
  | .setDigit | .asyncTask | .displayTask _ => True

theorem inRange_event {ev : Event} (grants : Nat → Bool)
    (h : ∀ pos < ev.uris.length, InRangeAt w ev pos) : inRange w (.event grants ev) := by
  intro pos _
  by_cases inside : pos < ev.uris.length
  · exact h pos inside
  · have none : ev.uris[pos]? = none := List.getElem?_eq_none_iff.mpr (Nat.not_lt.mp inside)
    simp [InRangeAt, none]

/-- The digit can be shown, and nobody ever asked for set_digit. -/
structure Showable (s : NodeState) : Prop where
  digit : s.shared.digit.toNat ≤ 207
  idle : s.shared.setDigit = none

theorem showable_nodeStep {s s' : NodeState} {a : NodeAct} (hi : Showable s)
    (hok : inRange w a) (h : nodeStep w s a = some s') : Showable s' := by
  obtain ⟨hdigit, hidle⟩ := hi
  cases nodeStep_cases h with
  | event grants ev =>
    obtain ⟨hset, hstored, -⟩ := run_digit w ev grants s.shared
    refine ⟨?_, hset.trans hidle⟩
    change (xpiDispatch w grants ev s.shared).st.shared.digit.toNat ≤ 207
    rw [hstored]
    cases hlast : lastOk (digitWrites w ev.kind (xpiDispatch w grants ev s.shared).st.steps) with
    | none => exact hdigit
    | some n =>
      obtain ⟨d, hd, rfl⟩ := lastOk_mem hlast
      obtain ⟨⟨values, hk⟩, pos, he, ha, hp⟩ := digitWrite_executes w ev hd
      exact inRangeAt_digit w ev hk ha hp (hok pos he)
  | setDigit asked =>
    rw [hidle] at asked
    cases asked
  | asyncTask => exact ⟨hdigit, hidle⟩
  | displayTask => exact ⟨hdigit, hidle⟩

theorem request_arithmetic :
    (∀ grants ev s, (∀ op ∈ consequences w ev grants s, op.InRange)
        ↔ inRange w (.event grants ev)) ∧
      (∀ s a, Transition.ReachableBy (nodeStep w) (fun _ a => inRange w a) .init s →
        inRange w a → ∀ op ∈ nodeOps w s a, op.InRange) ∧
      ∀ p1 p2, (∀ op ∈ syncOps p1 p2, op.InRange) ↔
        (sync p1 p2).x.toNat = p1.x.toNat + p2.x.toNat ∧
          (sync p1 p2).y.toNat = p1.y.toNat + p2.y.toNat := by
  refine ⟨fun grants ev s => consequences_inRange_iff w ev grants s, ?_, sync_exact_iff⟩
  intro s a hs ha op hop
  have showable : Showable s := hs.invariant (nodeStep w) ⟨by decide, rfl⟩
    fun _ _ _ hi hok hstep => showable_nodeStep w hi hok hstep
  cases a with
  | event grants ev =>
    have quiet := (consequences_inRange_iff w ev grants s.shared).mpr ha
    exact quiet op (List.mem_append_left _ hop)
  | displayTask drawn => exact (displayTaskOps_inRange_iff _).mpr showable.digit op hop
  | setDigit => cases hop
  | asyncTask => cases hop

end

def wrappingCall : Event :=
  ⟨3, 3, 0, ⟨[[5]], 3⟩, .call [[nibble 15, nibble 15, nibble 15, nibble 15, nibble 0, nibble 0,
    nibble 0, nibble 0, nibble 0, nibble 0, nibble 0, nibble 1, nibble 0, nibble 0, nibble 0,
    nibble 0]]⟩

def darkDigit : Event :=
  ⟨3, 4, 0, ⟨[[1]], 3⟩, .write [[nibble 11, nibble 10, nibble 0]]⟩

theorem wrappingCall_overflows :
    FixedOp.addU16 65535 1 ∈ nodeOps .small .init (.event (fun _ => true) wrappingCall) ∧
      ¬ (FixedOp.addU16 65535 1).InRange ∧
      (xpiDispatch .small (fun _ => true) wrappingCall .init).st.committed.flatMap (·.results)
        = [⟨0, .ok (Point.serVlu4 .small ⟨0, 0⟩)⟩] ∧
      FixedOp.addU8 208 48 ∈ consequences .small darkDigit (fun _ => true) .init ∧
      ¬ (FixedOp.addU8 208 48).InRange := by
  decide +kernel

theorem busyRun_showable :
    ∃ s, Transition.Reachable (nodeStep .small) .init s ∧ s.shared.digit = 7 ∧
      (∀ op ∈ nodeOps .small s (.displayTask true), op.InRange) ∧
      FixedOp.addU16 0x1111 0x1111 ∈ nodeOps .small s (.event (fun _ => true) mixedCall) ∧
      ∀ op ∈ nodeOps .small s (.event (fun _ => true) mixedCall), op.InRange := by
  have writes : inRange .small (.event (fun _ => true) twoDigits) :=
    inRange_event .small _ (by decide +kernel)
  have write : inRange .small (.event (fun _ => true) oneWrite) :=
    inRange_event .small _ (by decide +kernel)
  have call : inRange .small (.event (fun _ => true) mixedCall) :=
    inRange_event .small _ (by decide +kernel)
  have met : ∀ a ∈ busyRun, ∀ _ : NodeState, True → inRange .small a := by
    simp only [busyRun, List.forall_mem_cons]
    exact ⟨fun _ _ => trivial, fun _ _ => writes, fun _ _ => call, fun _ _ => trivial,
      fun _ _ => trivial, fun _ _ => write, fun _ _ _ _ => trivial, fun _ _ => trivial,
      List.forall_mem_nil _⟩
  obtain ⟨s, hs, hp⟩ := Transition.exists_reachableBy_of_acts (nodeStep .small)
    (fun _ => True) (fun _ _ _ _ _ => trivial) .init trivial busyRun
    (fun s => decide (s.shared.digit = 7) && decide (FixedOp.addU16 0x1111 0x1111 ∈
      nodeOps .small s (.event (fun _ => true) mixedCall)))
    met (by decide +kernel)
  simp only [Bool.and_eq_true, decide_eq_true_eq] at hp
  obtain ⟨-, every, -⟩ := request_arithmetic .small
  exact ⟨s, hs.mono (nodeStep .small) fun _ _ _ => trivial, hp.1,
    every s (.displayTask true) hs trivial, hp.2, every s _ hs call⟩

end VhlHackathon
