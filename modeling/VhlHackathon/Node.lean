import VhlHackathon.Deferred
import VhlHackathon.Transition
set_option autoImplicit false

/-!
The node over many events: the dispatcher, and the tasks its handlers spawn. What is
followed through a run is the shared digit and the writes to it.
-/

namespace VhlHackathon

/-- A write to /digit whose value decoded: the integer, whether the result entry is Ok,
and the digit before and after. -/
structure DigitWrite where
  value : UInt32
  ok : Bool
  before : UInt8
  after : UInt8
  deriving DecidableEq, Repr

def Step.digitWrite (w : Wire) (kind : EventKind) (st : Step) : Option DigitWrite :=
  match kind, st.act with
  | .write _, .ran (some valueNrd) r =>
    (w.desU32 valueNrd).map (DigitWrite.mk · r.isOk st.pre.digit st.post.digit)
  | _, _ => none

def digitWrites (w : Wire) (kind : EventKind) (steps : List Step) : List DigitWrite :=
  steps.flatMap fun st => (st.digitWrite w kind).toList

def lastOk (writes : List DigitWrite) : Option UInt32 :=
  (writes.filter (·.ok)).getLast?.map (·.value)

@[simp] theorem lastOk_nil : lastOk [] = none := rfl

theorem lastOk_mem {writes : List DigitWrite} {n : UInt32} (h : lastOk writes = some n) :
    ∃ d ∈ writes, d.value = n := by
  obtain ⟨d, hd, hn⟩ := Option.map_eq_some_iff.mp h
  exact ⟨d, (List.mem_filter.mp (List.mem_of_getLast? hd)).1, hn⟩

theorem lastOk_append (xs ys : List DigitWrite) :
    lastOk (xs ++ ys) = (lastOk ys).or (lastOk xs) := by
  unfold lastOk
  rw [List.filter_append, List.getLast?_append]
  cases (ys.filter (·.ok)).getLast? <;> rfl

/-- `writes` are all that were executed, `acknowledged` those whose Ok was committed in a
reply. Neither is stored by the firmware. -/
structure NodeState where
  shared : Shared
  writes : List DigitWrite
  acknowledged : List DigitWrite
  deriving DecidableEq, Repr

def NodeState.init : NodeState := ⟨{ Shared.init with displayTask := some () }, [], []⟩

/-- `drawn`: every `draw` of the display task and its `flush` answered Ok. -/
inductive NodeAct where
  | event (grants : Nat → Bool) (ev : Event)
  | setDigit
  | asyncTask
  | displayTask (drawn : Bool)

def nodeStep (w : Wire) (s : NodeState) : NodeAct → Option NodeState
  | .event grants ev =>
    let st := (xpiDispatch w grants ev s.shared).st
    let acknowledged := st.steps.filter fun t => decide (acknowledgedAt st.committed t.pos)
    some ⟨st.shared, s.writes ++ digitWrites w ev.kind st.steps,
      s.acknowledged ++ digitWrites w ev.kind acknowledged⟩
  | .setDigit =>
    match s.shared.setDigit, s.shared.displayTask with
    | some digit, none =>
      some { s with
        shared := { s.shared with digit := digit, setDigit := none, displayTask := some () } }
    | some _, some _ => none -- the display task's spawn is unwrapped
    | none, _ => none
  | .asyncTask =>
    s.shared.asyncTask.map fun _ => { s with shared := { s.shared with asyncTask := none } }
  | .displayTask drawn =>
    if drawn then
      s.shared.displayTask.map fun _ => { s with shared := { s.shared with displayTask := none } }
    else none -- and so are the answers of the display

def NodeState.ran (w : Wire) (s : NodeState) (grants : Nat → Bool) (ev : Event) : NodeState :=
  let st := (xpiDispatch w grants ev s.shared).st
  let acknowledged := st.steps.filter fun t => decide (acknowledgedAt st.committed t.pos)
  ⟨st.shared, s.writes ++ digitWrites w ev.kind st.steps,
    s.acknowledged ++ digitWrites w ev.kind acknowledged⟩

inductive NodeStepped (w : Wire) (s : NodeState) : NodeAct → NodeState → Prop where
  | event (grants : Nat → Bool) (ev : Event) :
      NodeStepped w s (.event grants ev) (s.ran w grants ev)
  | setDigit {digit : UInt8} (asked : s.shared.setDigit = some digit)
      (free : s.shared.displayTask = none) : NodeStepped w s .setDigit
        { s with shared := { s.shared with
          digit := digit, setDigit := none, displayTask := some () } }
  | asyncTask (queued : s.shared.asyncTask.isSome) :
      NodeStepped w s .asyncTask { s with shared := { s.shared with asyncTask := none } }
  | displayTask (queued : s.shared.displayTask.isSome) :
      NodeStepped w s (.displayTask true) { s with shared := { s.shared with displayTask := none } }

theorem nodeStep_cases {w : Wire} {s s' : NodeState} {a : NodeAct}
    (h : nodeStep w s a = some s') : NodeStepped w s a s' := by
  cases a with
  | event grants ev =>
    cases h
    exact .event grants ev
  | setDigit =>
    simp only [nodeStep] at h
    split at h
    · rename_i digit asked free
      cases h
      exact .setDigit asked free
    · cases h
    · cases h
  | asyncTask =>
    obtain ⟨_, queued, rfl⟩ := Option.map_eq_some_iff.mp h
    exact .asyncTask (by rw [queued]; rfl)
  | displayTask drawn =>
    cases drawn with
    | false => cases h
    | true =>
      obtain ⟨_, queued, rfl⟩ := Option.map_eq_some_iff.mp h
      exact .displayTask (by rw [queued]; rfl)

section
variable (w : Wire) (ev : Event)

/-- The one handler that stores the digit is behind a write to /digit, and the one that
spawns set_digit is behind no hint. -/
theorem digit_step (hk : ev.kind ≠ .other) (pos argPos : Nat) (s : Shared) (uri : Uri) :
    let st := stepAt w ev pos argPos s uri
    st.post.setDigit = st.pre.setDigit ∧
      st.post.digit =
        ((lastOk (st.digitWrite w ev.kind).toList).map (·.toUInt8)).getD st.pre.digit ∧
      ∀ d ∈ st.digitWrite w ev.kind, d.ok = true := by
  have h := answer_answered w ev hk uri ev.kind.args[argPos]? s
  simp only [stepAt, Step.digitWrite]
  generalize answer w ev uri ev.kind.args[argPos]? s = r at h ⊢
  generalize ev.kind.args[argPos]? = arg at h
  cases h with
  | rejected arg hint => cases hkd : ev.kind <;> simp
  | noArgs takes hint => cases hkd : ev.kind <;> simp
  | sync kind a => simp [kind]
  | async kind a => cases hd : desPoints w a <;> simp [kind, dispatchCall, hd]
  | digit kind a =>
    cases hd : w.desU32 a <;>
      simp [kind, dispatchWrite, hd, Except.map, Except.isOk, Except.toBool, lastOk]
  | read kind arg => simp [kind]

theorem scheduled_digit (hk : ev.kind ≠ .other) {s : Shared} {st : Step}
    (hst : st ∈ (schedule w ev maxReplyBatches 0 s).flatMap (·.steps)) :
    st.post.setDigit = st.pre.setDigit ∧
      st.post.digit =
        ((lastOk (st.digitWrite w ev.kind).toList).map (·.toUInt8)).getD st.pre.digit ∧
      ∀ d ∈ st.digitWrite w ev.kind, d.ok = true := by
  obtain ⟨-, -, s', before, uri, after, -, -, rfl⟩ := mem_schedule_steps w ev hst
  exact digit_step w ev hk _ _ _ _

theorem linked_digit (kind : EventKind) {s : Shared} {steps : List Step} (hl : Linked s steps)
    (hstep : ∀ st ∈ steps, st.post.digit =
      ((lastOk (st.digitWrite w kind).toList).map (·.toUInt8)).getD st.pre.digit) :
    (endShared s steps).digit =
      ((lastOk (digitWrites w kind steps)).map (·.toUInt8)).getD s.digit := by
  induction steps generalizing s with
  | nil => rfl
  | cons st rest ih =>
    obtain ⟨hpre, hl⟩ := hl
    obtain ⟨hst, hrest⟩ := List.forall_mem_cons.mp hstep
    change (endShared st.post rest).digit = _
    rw [ih hl hrest, hst, hpre, digitWrites, digitWrites, List.flatMap_cons, lastOk_append]
    cases lastOk (rest.flatMap fun st => (st.digitWrite w kind).toList) <;> rfl

theorem dispatchLoop_other (hk : ev.kind = .other) (grants : Nat → Bool) (n k : Nat)
    (st : DispState) :
    (dispatchLoop w ev grants n k st).2.shared = st.shared ∧
      (dispatchLoop w ev grants n k st).2.steps = st.steps := by
  induction n generalizing k st with
  | zero => exact ⟨rfl, rfl⟩
  | succ n ih =>
    have hpass : (xpiIteration w ev (grants k) st).2.shared = st.shared ∧
        (xpiIteration w ev (grants k) st).2.steps = st.steps := by
      unfold xpiIteration
      dsimp only
      split
      · simp [DispState.steps]
      · split
        · simp [DispState.steps]
        · split
          · simp [DispState.steps]
          · simp [buildKind, hk, DispState.steps]
    simp only [dispatchLoop]
    split
    · rename_i st' hr
      rw [hr] at hpass
      rw [(ih (k+1) st').1, (ih (k+1) st').2]
      exact hpass
    · rename_i st' hr
      rw [hr] at hpass
      exact hpass
    · rename_i e st' hr
      rw [hr] at hpass
      exact hpass

theorem xpiDispatch_other (hk : ev.kind = .other) (grants : Nat → Bool) (s : Shared) :
    (xpiDispatch w grants ev s).st.shared = s ∧ (xpiDispatch w grants ev s).st.steps = [] :=
  dispatchLoop_other w ev hk grants maxReplyBatches 0 ⟨0, 0, s, false, []⟩

theorem run_digit (grants : Nat → Bool) (s : Shared) :
    let st := (xpiDispatch w grants ev s).st
    st.shared.setDigit = s.setDigit ∧
      st.shared.digit = ((lastOk (digitWrites w ev.kind st.steps)).map (·.toUInt8)).getD s.digit ∧
      ∀ d ∈ digitWrites w ev.kind st.steps, d.ok = true := by
  by_cases hk : ev.kind = .other
  · obtain ⟨h1, h2⟩ := xpiDispatch_other w ev hk grants s
    simp only [h1, h2]
    exact ⟨trivial, rfl, by simp [digitWrites]⟩
  · intro st
    have hlaw : ∀ t ∈ st.steps, t.post.setDigit = t.pre.setDigit ∧
        t.post.digit =
          ((lastOk (t.digitWrite w ev.kind).toList).map (·.toUInt8)).getD t.pre.digit ∧
        ∀ d ∈ t.digitWrite w ev.kind, d.ok = true :=
      fun t ht => scheduled_digit w ev hk (run_steps_subset w ev hk ht)
    have hl : Linked s st.steps := run_linked w ev hk grants s
    obtain ⟨-, hsteps, -, hshared, -⟩ := xpiDispatch_perform w ev hk grants s
    rw [← hsteps] at hshared
    have hend : st.shared = endShared s st.steps := hshared
    refine ⟨?_, ?_, fun d hd => ?_⟩
    · rw [hend]
      exact endShared_same (·.setDigit) hl fun t ht => (hlaw t ht).1
    · rw [hend]
      exact linked_digit w ev.kind hl fun t ht => (hlaw t ht).2.1
    · obtain ⟨t, ht, hmem⟩ := List.mem_flatMap.mp hd
      exact (hlaw t ht).2.2 d (Option.mem_toList.mp hmem)

theorem digitWrite_some {kind : EventKind} {st : Step} {d : DigitWrite}
    (h : st.digitWrite w kind = some d) :
    ∃ values valueNrd r, kind = .write values ∧ st.act = .ran (some valueNrd) r ∧
      w.desU32 valueNrd = some d.value ∧ d.ok = r.isOk := by
  unfold Step.digitWrite at h
  split at h
  · rename_i values valueNrd r hact
    obtain ⟨n, hn, rfl⟩ := Option.map_eq_some_iff.mp h
    exact ⟨values, valueNrd, r, rfl, hact, hn, rfl⟩
  · cases h

theorem digitWrite_executes {grants : Nat → Bool} {s : Shared} {d : DigitWrite}
    (hd : d ∈ digitWrites w ev.kind (xpiDispatch w grants ev s).st.steps) :
    (∃ values, ev.kind = .write values) ∧ ∃ pos, executes w ev grants pos ∧
      acceptedAt w ev pos = true ∧ (pairedArg w ev pos).bind w.desU32 = some d.value := by
  obtain ⟨st, hst, hmem⟩ := List.mem_flatMap.mp hd
  obtain ⟨values, valueNrd, r, hkd, hact, hn, -⟩ :=
    digitWrite_some w (Option.mem_toList.mp hmem)
  have hta : ev.kind.takesArgs = true := by simp [hkd, EventKind.takesArgs]
  have hno := takesArgs_ne_other ev hta
  obtain ⟨uri, s', hget, -, hact'⟩ :=
    schedule_step_act w ev hta (run_steps_subset w ev hno hst)
  -- the handler ran, so the URI was accepted and paired with the value
  have harg := (answer_arg w ev hta uri (pairedArg w ev st.pos) s').1
  rw [← hact', hact] at harg
  by_cases ha : accepted w ev uri = true
  · rw [if_pos ha] at harg
    refine ⟨⟨values, hkd⟩, st.pos, (executes_iff w ev hno grants s st.pos).mpr ⟨st, hst, rfl⟩,
      by simp [acceptedAt, hget, ha], ?_⟩
    rw [← harg]
    exact hn
  · rw [if_neg ha] at harg
    cases harg

/-- The digit is the integer of the last of the writes whose entry is Ok, and a write that
does not fit the property got an error and left the digit alone. -/
structure Follows (digit : UInt8) (writes : List DigitWrite) : Prop where
  last : digit.toNat = ((lastOk writes).map (·.toNat)).getD 0
  wide : ∀ d ∈ writes, 256 ≤ d.value.toNat → d.ok = false ∧ d.after = d.before

def fitsDigit : NodeAct → Prop
  | .event grants ev => ∀ values, ev.kind = .write values → ∀ pos n, executes w ev grants pos →
      acceptedAt w ev pos = true → (pairedArg w ev pos).bind w.desU32 = some n → n.toNat < 256
  | .setDigit | .asyncTask | .displayTask _ => True

/-- No reply of a write is given up after a store. -/
def reportsStores : NodeAct → Prop
  | .event grants ev => ∀ values, ev.kind = .write values → givesUpNoStore w ev grants
  | .setDigit | .asyncTask | .displayTask _ => True

structure DigitInv (s : NodeState) : Prop where
  digit : s.shared.digit.toNat = ((lastOk s.writes).map (·.toNat)).getD 0
  fits : ∀ d ∈ s.writes, d.value.toNat < 256
  idle : s.shared.setDigit = none

theorem digit_nodeStep {s s' : NodeState} {a : NodeAct} (hi : DigitInv s)
    (hok : fitsDigit w a) (h : nodeStep w s a = some s') : DigitInv s' := by
  obtain ⟨hdigit, hfits, hidle⟩ := hi
  cases nodeStep_cases h with
  | event grants ev =>
    obtain ⟨hset, hstored, -⟩ := run_digit w ev grants s.shared
    have hnew : ∀ d ∈ digitWrites w ev.kind (xpiDispatch w grants ev s.shared).st.steps,
        d.value.toNat < 256 := by
      intro d hd
      obtain ⟨⟨values, hkd⟩, pos, he, ha, hp⟩ := digitWrite_executes w ev hd
      exact hok values hkd pos d.value he ha hp
    refine ⟨?_, fun d hd => ?_, hset.trans hidle⟩
    · change (xpiDispatch w grants ev s.shared).st.shared.digit.toNat
        = ((lastOk (_ ++ _)).map _).getD 0
      rw [hstored, lastOk_append]
      cases hl : lastOk (digitWrites w ev.kind (xpiDispatch w grants ev s.shared).st.steps) with
      | none => exact hdigit
      | some n =>
        have hn : n.toNat < 256 := by
          obtain ⟨d, hd, rfl⟩ := lastOk_mem hl
          exact hnew d hd
        simp [Nat.mod_eq_of_lt hn]
    · exact (List.mem_append.mp hd).elim (hfits d) (hnew d)
  | setDigit asked =>
    rw [hidle] at asked
    cases asked
  | asyncTask => exact ⟨hdigit, hfits, hidle⟩
  | displayTask => exact ⟨hdigit, hfits, hidle⟩

theorem DigitInv.follows {s : NodeState} (hi : DigitInv s) : Follows s.shared.digit s.writes := by
  refine ⟨hi.digit, fun d hd hwide => ?_⟩
  have hfit := hi.fits d hd
  omega

theorem digitWrites_acknowledged {grants : Nat → Bool} {s : Shared}
    (h : ∀ values, ev.kind = .write values → givesUpNoStore w ev grants) :
    digitWrites w ev.kind ((xpiDispatch w grants ev s).st.steps.filter fun t =>
        decide (acknowledgedAt (xpiDispatch w grants ev s).st.committed t.pos)) =
      digitWrites w ev.kind (xpiDispatch w grants ev s).st.steps := by
  have hall : ∀ d ∈ digitWrites w ev.kind (xpiDispatch w grants ev s).st.steps, d.ok = true :=
    (run_digit w ev grants s).2.2
  have hmem : ∀ t ∈ (xpiDispatch w grants ev s).st.steps, t.digitWrite w ev.kind ≠ none →
      acknowledgedAt (xpiDispatch w grants ev s).st.committed t.pos := by
    intro t ht hne
    obtain ⟨d, hd⟩ := Option.ne_none_iff_exists'.mp hne
    have hok := hall d (List.mem_flatMap.mpr ⟨t, ht, Option.mem_toList.mpr hd⟩)
    obtain ⟨values, valueNrd, r, hkd, hact, -, hr⟩ := digitWrite_some w hd
    refine stores_acknowledged w ev hkd (h values hkd) ht ?_
    cases r with
    | ok v => simp [Step.stored, hact]
    | error e => rw [hr] at hok; cases hok
  generalize (xpiDispatch w grants ev s).st.steps = steps at hmem
  generalize (xpiDispatch w grants ev s).st.committed = committed at hmem
  clear hall
  induction steps with
  | nil => rfl
  | cons t rest ih =>
    obtain ⟨ht, hrest⟩ := List.forall_mem_cons.mp hmem
    have hi := ih hrest
    by_cases hd : t.digitWrite w ev.kind = none
    · rw [List.filter_cons]
      unfold digitWrites at hi ⊢
      split <;> simp [hd, hi]
    · rw [List.filter_cons, if_pos (by simpa using ht hd)]
      unfold digitWrites at hi ⊢
      rw [List.flatMap_cons, List.flatMap_cons, hi]

theorem acknowledged_nodeStep {s s' : NodeState} {a : NodeAct} (hi : s.acknowledged = s.writes)
    (hok : reportsStores w a) (h : nodeStep w s a = some s') : s'.acknowledged = s'.writes := by
  cases nodeStep_cases h with
  | event grants ev =>
    change s.acknowledged ++ _ = s.writes ++ _
    rw [hi, digitWrites_acknowledged w ev hok]
  | setDigit => exact hi
  | asyncTask => exact hi
  | displayTask => exact hi

/-- In runs whose writes all fit the property, the digit follows the writes executed; where
also no reply is given up after a store, it follows the writes acknowledged. -/
theorem digit_follows {s : NodeState} :
    (Transition.ReachableBy (nodeStep w) (fun _ a => fitsDigit w a) .init s →
        Follows s.shared.digit s.writes) ∧
      (Transition.ReachableBy (nodeStep w) (fun _ a => fitsDigit w a ∧ reportsStores w a)
          .init s → Follows s.shared.digit s.acknowledged) := by
  have hfits : Transition.ReachableBy (nodeStep w) (fun _ a => fitsDigit w a) .init s →
      DigitInv s := fun h =>
    h.invariant (nodeStep w) ⟨rfl, by simp [NodeState.init], rfl⟩
      fun _ _ _ hi hok hs => digit_nodeStep w hi hok hs
  refine ⟨fun h => (hfits h).follows, fun h => ?_⟩
  have hi := (hfits (h.mono (nodeStep w) fun _ _ hok => hok.1)).follows
  have hsame : s.acknowledged = s.writes :=
    h.invariant (I := fun s => s.acknowledged = s.writes) (nodeStep w) rfl
      fun _ _ _ hi hok hs => acknowledged_nodeStep w hi hok.2 hs
  rw [hsame]
  exact hi

end

def wideWrite : Event :=
  ⟨3, 3, 0, ⟨[[1]], 3⟩, .write [[nibble 12, nibble 13, nibble 4]]⟩

theorem wideWrite_truncated :
    ∃ s, Transition.Reachable (nodeStep .small) .init s ∧
      s.acknowledged = [⟨300, true, 0, 44⟩] ∧ s.writes = s.acknowledged ∧
      ¬ Follows s.shared.digit s.writes := by
  obtain ⟨s, hs, hp⟩ := Transition.exists_reachable_of_run (nodeStep .small) .init
    [.event (fun _ => true) wideWrite]
    (fun s => decide (s.acknowledged = [⟨300, true, 0, 44⟩]) && decide (s.writes = s.acknowledged))
    (by decide +kernel)
  simp only [Bool.and_eq_true, decide_eq_true_eq] at hp
  refine ⟨s, hs, hp.1, hp.2, fun h => ?_⟩
  have hwide := h.wide ⟨300, true, 0, 44⟩ (by rw [hp.2, hp.1]; simp) (by decide)
  exact absurd hwide.1 (by decide)

theorem fitsDigit_event {w : Wire} {ev : Event} (grants : Nat → Bool)
    (h : ∀ pos < ev.uris.length,
      ((pairedArg w ev pos).bind w.desU32).all (fun n => decide (n.toNat < 256)) = true) :
    fitsDigit w (.event grants ev) := by
  intro values _ pos n _ accepts value
  obtain ⟨uri, hget, -⟩ := (Option.any_eq_true _ _).mp accepts
  have small := h pos (List.getElem?_eq_some_iff.mp hget).1
  rw [value] at small
  exact of_decide_eq_true small

theorem reportsStores_event {w : Wire} {ev : Event} (grants : Nat → Bool)
    (h : ∀ sg ∈ requestBatches w ev, replyLength w ev sg ≤ 2 * replyMtu) :
    reportsStores w (.event grants ev) := by
  intro values _ k sg hsg _ long
  have fits := h sg (List.mem_of_getElem? hsg)
  omega

def oneWrite : Event := ⟨3, 3, 0, ⟨[[1]], 3⟩, .write [[nibble 7]]⟩

def twoDigits : Event := ⟨3, 3, 0, ⟨[[1], [5], [1]], 8⟩, .write [[nibble 5], [nibble 2]]⟩

def busyRun : List NodeAct :=
  [.displayTask true, .event (fun _ => true) twoDigits, .event (fun _ => true) mixedCall,
    .displayTask true, .asyncTask, .event (fun _ => true) oneWrite,
    .event (fun _ => true) (maskedReads 16), .displayTask true]

theorem busyRun_follows :
    ∃ s, Transition.Reachable (nodeStep .small) .init s ∧ s.shared.digit = 7 ∧
      s.acknowledged.map (·.value) = [5, 2, 7] ∧
      Follows s.shared.digit s.writes ∧ Follows s.shared.digit s.acknowledged := by
  have writes : fitsDigit .small (.event (fun _ => true) twoDigits) ∧
      reportsStores .small (.event (fun _ => true) twoDigits) :=
    ⟨fitsDigit_event _ (by decide +kernel), reportsStores_event _ (by decide +kernel)⟩
  have write : fitsDigit .small (.event (fun _ => true) oneWrite) ∧
      reportsStores .small (.event (fun _ => true) oneWrite) :=
    ⟨fitsDigit_event _ (by decide +kernel), reportsStores_event _ (by decide +kernel)⟩
  have met : ∀ a ∈ busyRun, ∀ _ : NodeState, True →
      fitsDigit .small a ∧ reportsStores .small a := by
    simp only [busyRun, List.forall_mem_cons]
    exact ⟨fun _ _ => ⟨trivial, trivial⟩, fun _ _ => writes, fun _ _ => ⟨nofun, nofun⟩,
      fun _ _ => ⟨trivial, trivial⟩, fun _ _ => ⟨trivial, trivial⟩, fun _ _ => write,
      fun _ _ => ⟨nofun, nofun⟩, fun _ _ => ⟨trivial, trivial⟩, List.forall_mem_nil _⟩
  obtain ⟨s, hs, hp⟩ := Transition.exists_reachableBy_of_acts (nodeStep .small)
    (fun _ => True) (fun _ _ _ _ _ => trivial) .init trivial busyRun
    (fun s => decide (s.shared.digit = 7) && decide (s.acknowledged.map (·.value) = [5, 2, 7]))
    met (by decide +kernel)
  simp only [Bool.and_eq_true, decide_eq_true_eq] at hp
  exact ⟨s, hs.mono (nodeStep .small) fun _ _ _ => trivial, hp.1, hp.2,
    (digit_follows .small).1 (hs.mono (nodeStep .small) fun _ _ ok => ok.1),
    (digit_follows .small).2 hs⟩

end VhlHackathon
