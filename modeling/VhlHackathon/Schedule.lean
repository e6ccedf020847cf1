import VhlHackathon.Dispatch
import VhlHackathon.Packing
set_option autoImplicit false

/-!
What a request asks of the dispatcher, stated without iterators, writer or grants:
its URIs are packed greedily into batches and each URI of a batch gets one step.
The dispatcher performs this schedule up to the first grant or reply that fails.
-/

namespace VhlHackathon

section
variable (w : Wire) (ev : Event)

def hintOf (uri : Uri) : ReplySizeHint := replySizeHint w uri ev.kind.discriminant

def accepted (uri : Uri) : Bool := (hintOf w ev uri).accepts

def hintCost (uri : Uri) : Nat := (hintOf w ev uri).reserved

def batchAt (pos : Nat) : List Uri :=
  Packing.batch (hintCost w ev) maxReplyBatchLen replyNibbles (ev.uris.drop pos)

def Lookahead.take (la : Lookahead) (i : Nat) (uri : Uri) : Lookahead :=
  { la with
    pos := la.pos + 1
    table := la.table.set i (some (hintOf w ev uri))
    batchLen := la.batchLen + 1
    immediate := la.immediate + if (hintOf w ev uri).isImmediate then 1 else 0
    left := la.left - hintCost w ev uri
    charges := la.charges ++
      if (hintOf w ev uri).isImmediate then [(la.left, hintCost w ev uri)] else [] }

theorem lookaheadLoop_cons {la : Lookahead} {uri : Uri} (i : Nat) (rest : List Nat)
    (hu : ev.uris[la.pos]? = some uri) :
    lookaheadLoop w ev.kind.discriminant ev.uris (i :: rest) la =
      if hintCost w ev uri ≤ la.left then
        lookaheadLoop w ev.kind.discriminant ev.uris rest (la.take w ev i uri)
      else la := by
  simp only [lookaheadLoop, hu, Lookahead.take, hintCost, hintOf]
  split
  · rename_i maxSize rawSize r hh
    simp [hh, upperBound_eq maxSize la.left, ReplySizeHint.reserved, ReplySizeHint.isImmediate]
  · rename_i hh
    simp [hh, ReplySizeHint.reserved, ReplySizeHint.isImmediate]

/-- What `n` turns of the look-ahead loop make of `la`, with `i` slots taken before. -/
structure Looked (n i : Nat) (la la' : Lookahead) (seg : List Uri) : Prop where
  pos : la'.pos = la.pos + seg.length
  batchLen : la'.batchLen = i + seg.length
  table : la'.table.take (i + seg.length) =
    la.table.take i ++ seg.map fun uri => some (hintOf w ev uri)
  immediate : la'.immediate = la.immediate + seg.countP fun uri => (hintOf w ev uri).isImmediate
  left : la'.left + (seg.map (hintCost w ev)).sum = la.left
  runOut : la'.runOut =
    (la.runOut || decide (seg.length < n ∧ seg.length = (ev.uris.drop la.pos).length))

theorem Looked.nil {n i : Nat} {la : Lookahead} (hb : la.batchLen = i)
    (hr : ¬ (0 < n ∧ 0 = (ev.uris.drop la.pos).length)) : Looked w ev n i la la [] := by
  constructor <;> simp_all

theorem Looked.cons {n i : Nat} {la la' : Lookahead} {seg : List Uri} {uri : Uri}
    (ht : i < la.table.length) (hle : hintCost w ev uri ≤ la.left)
    (hd : ev.uris.drop la.pos = uri :: ev.uris.drop (la.pos+1))
    (h : Looked w ev n (i+1) (la.take w ev i uri) la' seg) :
    Looked w ev (n+1) i la la' (uri :: seg) := by
  have hset : (la.table.set i (some (hintOf w ev uri))).take (i+1) =
      la.table.take i ++ [some (hintOf w ev uri)] := by
    rw [List.take_add_one, List.take_set_of_le (Nat.le_refl i), List.getElem?_set_self ht]
    rfl
  have hi : i + (seg.length+1) = i + 1 + seg.length := by omega
  constructor
  · have hp := h.pos
    simp only [Lookahead.take] at hp
    simp only [List.length_cons]; omega
  · have hb := h.batchLen
    simp only [List.length_cons]; omega
  · have htab := h.table
    simp only [Lookahead.take, hset] at htab
    simp only [List.length_cons, hi, htab, List.map_cons, List.append_assoc,
      List.cons_append, List.nil_append]
  · have him := h.immediate
    simp only [Lookahead.take] at him
    simp only [List.countP_cons]; omega
  · have hl := h.left
    simp only [Lookahead.take] at hl
    simp only [List.map_cons, List.sum_cons]; omega
  · have hr := h.runOut
    simp only [Lookahead.take] at hr
    simp [hr, hd]

theorem lookaheadLoop_looked (n i : Nat) (la : Lookahead) (hb : la.batchLen = i)
    (ht : la.table.length = i+n) :
    Looked w ev n i la (lookaheadLoop w ev.kind.discriminant ev.uris (List.range' i n) la)
      (Packing.batch (hintCost w ev) n la.left (ev.uris.drop la.pos)) := by
  induction n generalizing i la with
  | zero => exact Looked.nil w ev hb (by omega)
  | succ n ih =>
    rw [List.range'_succ]
    cases hu : ev.uris[la.pos]? with
    | none =>
      have hd : ev.uris.drop la.pos = [] :=
        List.drop_eq_nil_iff.mpr (List.getElem?_eq_none_iff.mp hu)
      simp only [lookaheadLoop, hu, hd, Packing.batch]
      constructor <;> simp [hd, hb]
    | some uri =>
      obtain ⟨hlt, hget⟩ := List.getElem?_eq_some_iff.mp hu
      have hd : ev.uris.drop la.pos = uri :: ev.uris.drop (la.pos+1) := by
        rw [List.drop_eq_getElem_cons hlt, hget]
      rw [lookaheadLoop_cons w ev i _ hu, hd, Packing.batch]
      by_cases hle : hintCost w ev uri ≤ la.left
      · simp only [hle, if_true]
        exact Looked.cons w ev (by omega) hle hd
          (ih (i+1) (la.take w ev i uri) (by simp [Lookahead.take, hb])
            (by simp [Lookahead.take, ht]; omega))
      · simp only [hle, if_false]
        exact Looked.nil w ev hb (by simp [hd])

theorem lookahead_looked (pos : Nat) :
    Looked w ev maxReplyBatchLen 0
      ⟨pos, List.replicate maxReplyBatchLen none, false, 0, 0, replyNibbles, []⟩
      (lookahead w ev.kind.discriminant ev.uris pos) (batchAt w ev pos) := by
  rw [lookahead, List.range_eq_range']
  exact lookaheadLoop_looked w ev maxReplyBatchLen 0 _ rfl (by simp)

def kindArm : EventKind → Arm
  | .call _ => callArm w
  | .write _ => writeArm w
  | .read => readArm w
  | .other => fun _ _ _ _ => none

def kindCost : EventKind → Except XpiError NibbleBuf → Nat
  | .write _ => w.unitEntry
  | .call _ | .read | .other => w.sliceEntry

def resultsKind : EventKind → XpiEventDiscriminant
  | .call _ => .callResults
  | .write _ => .writeResults
  | .read => .readResults
  | .other => .other

theorem buildKind_eq (hk : ev.kind ≠ .other) (hints : List (Option ReplySizeHint))
    (st : SetState) :
    buildKind w ev hints st = some (resultsKind ev.kind, closeReply w
      (setLoop (kindArm w ev.kind) (kindCost w ev.kind) ev.uris ev.kind.args hints st)) := by
  unfold buildKind
  cases h : ev.kind with
  | call args => rfl
  | write values => rfl
  | read => rfl
  | other => exact absurd h hk

/-- What the handlers make of one URI, next to the argument it is paired with. -/
def answer (uri : Uri) (arg : Option NibbleBuf) (s : Shared) : Act × Shared :=
  (kindArm w ev.kind (some (hintOf w ev uri)) uri arg s).getD (.noArgs, s)

theorem arm_eq_answer (hk : ev.kind ≠ .other) (uri : Uri) (arg : Option NibbleBuf)
    (s : Shared) :
    kindArm w ev.kind (some (hintOf w ev uri)) uri arg s = some (answer w ev uri arg s) := by
  have hd := deferred_iff w uri ev.kind.discriminant
  have hs : (kindArm w ev.kind (some (hintOf w ev uri)) uri arg s).isSome := by
    unfold hintOf
    cases hkd : ev.kind with
    | call args =>
      simp only [kindArm, callArm]
      repeat' split
      all_goals simp_all
    | write values =>
      simp only [kindArm, writeArm]
      rw [hkd] at hd
      repeat' split
      all_goals simp_all [EventKind.discriminant]
    | read =>
      simp only [kindArm, readArm]
      rw [hkd] at hd
      repeat' split
      all_goals simp_all [EventKind.discriminant]
    | other => exact absurd hkd hk
  obtain ⟨r, hr⟩ := Option.isSome_iff_exists.mp hs
  simp [answer, hr]

def stepAt (pos argPos : Nat) (s : Shared) (uri : Uri) : Step :=
  let a := answer w ev uri ev.kind.args[argPos]? s
  ⟨pos, argPos, some (hintOf w ev uri), a.1, s, a.2⟩

/-- The steps a batch asks for, from a URI position, an argument position and the
resources it finds. -/
def plan : Nat → Nat → Shared → List Uri → List Step
  | _, _, _, [] => []
  | pos, argPos, s, uri :: rest =>
    let st := stepAt w ev pos argPos s uri
    st :: plan (pos+1) (argPos + st.act.taken) st.post rest

@[simp] theorem plan_length (pos argPos : Nat) (s : Shared) (uris : List Uri) :
    (plan w ev pos argPos s uris).length = uris.length := by
  induction uris generalizing pos argPos s with
  | nil => rfl
  | cons uri rest ih => simp [plan, ih]

def endShared (s : Shared) (steps : List Step) : Shared := steps.foldl (fun _ st => st.post) s

def stepNibbles (st : Step) : Nat := ((st.act.entry.map (kindCost w ev.kind)).getD 0)

/-- The steps that run when `used` nibbles are taken: up to the first that overflows,
whose handler has run by then. -/
def untilFull : Nat → List Step → List Step
  | _, [] => []
  | used, st :: rest =>
    if used + stepNibbles w ev st ≤ 2 * replyMtu then
      st :: untilFull (used + stepNibbles w ev st) rest
    else [st]

theorem untilFull_prefix (used : Nat) (steps : List Step) :
    untilFull w ev used steps <+: steps := by
  induction steps generalizing used with
  | nil => exact List.nil_prefix
  | cons st rest ih =>
    by_cases h : used + stepNibbles w ev st ≤ 2 * replyMtu
    · simpa [untilFull, h] using ih (used + stepNibbles w ev st)
    · simp [untilFull, h]

theorem untilFull_all (used : Nat) (steps : List Step)
    (h : used + (steps.map (stepNibbles w ev)).sum ≤ 2 * replyMtu) :
    untilFull w ev used steps = steps := by
  induction steps generalizing used with
  | nil => rfl
  | cons st rest ih =>
    simp only [List.map_cons, List.sum_cons] at h
    have hst : used + stepNibbles w ev st ≤ 2 * replyMtu := by omega
    simp [untilFull, hst, ih (used + stepNibbles w ev st) (by omega)]

def SetState.after (st : SetState) (used : Nat) (steps : List Step) : SetState :=
  { pos := st.pos + steps.length
    argPos := st.argPos + (steps.map (·.act.taken)).sum
    used := used
    entries := st.entries ++ steps.flatMap (·.entries)
    shared := endShared st.shared steps
    steps := st.steps ++ steps }

@[simp] theorem SetState.after_after (st : SetState) (u v : Nat) (xs ys : List Step) :
    (st.after u xs).after v ys = st.after v (xs ++ ys) := by
  simp [SetState.after, endShared]; omega

theorem setLoop_cons (hk : ev.kind ≠ .other) {uri : Uri} {st : SetState}
    (hints : List (Option ReplySizeHint)) (hget : ev.uris[st.pos]? = some uri)
    (hu : st.used ≤ 2 * replyMtu) :
    setLoop (kindArm w ev.kind) (kindCost w ev.kind) ev.uris ev.kind.args
        (some (hintOf w ev uri) :: hints) st =
      let step := stepAt w ev st.pos st.argPos st.shared uri
      if st.used + stepNibbles w ev step ≤ 2 * replyMtu then
        setLoop (kindArm w ev.kind) (kindCost w ev.kind) ev.uris ev.kind.args hints
          (st.after (st.used + stepNibbles w ev step) [step])
      else (.err .nibbleBuf, st.log step) := by
  simp only [setLoop, hget, arm_eq_answer w ev hk]
  cases he : (answer w ev uri ev.kind.args[st.argPos]? st.shared).1.entry with
  | none =>
    simp [stepNibbles, stepAt, he, hu, SetState.log, SetState.after, endShared, Step.entries]
  | some r =>
    by_cases hle : st.used + kindCost w ev.kind r ≤ 2 * replyMtu
    · simp [stepNibbles, stepAt, he, put, hle, SetState.log, SetState.after, endShared,
        Step.entries]
    · simp [stepNibbles, stepAt, he, put, hle]

theorem setLoop_plan (hk : ev.kind ≠ .other) (seg : List Uri) (st : SetState)
    (hseg : seg <+: ev.uris.drop st.pos) (hu : st.used ≤ 2 * replyMtu) :
    let steps := plan w ev st.pos st.argPos st.shared seg
    let total := st.used + (steps.map (stepNibbles w ev)).sum
    let r := setLoop (kindArm w ev.kind) (kindCost w ev.kind) ev.uris ev.kind.args
      (seg.map fun uri => some (hintOf w ev uri)) st
    (total ≤ 2 * replyMtu → r = (.ok, st.after total steps)) ∧
      (2 * replyMtu < total → r.1 = .err .nibbleBuf ∧
        r.2.steps = st.steps ++ untilFull w ev st.used steps ∧
        r.2.shared = endShared st.shared (untilFull w ev st.used steps) ∧
        r.2.pos = st.pos + (untilFull w ev st.used steps).length) := by
  induction seg generalizing st with
  | nil =>
    simp only [plan, List.map_nil, List.sum_nil, setLoop]
    refine ⟨fun _ => by simp [SetState.after, endShared], fun h => by omega⟩
  | cons uri rest ih =>
    have hget : ev.uris[st.pos]? = some uri := by
      obtain ⟨t, ht⟩ := hseg
      have h0 : (ev.uris.drop st.pos)[0]? = some uri := by rw [← ht]; rfl
      simpa using h0
    have hrest : rest <+: ev.uris.drop (st.pos+1) := by
      obtain ⟨t, ht⟩ := hseg
      refine ⟨t, ?_⟩
      have h1 : (ev.uris.drop st.pos).drop 1 = rest ++ t := by rw [← ht]; rfl
      simpa [Nat.add_comm] using h1.symm
    simp only [plan, List.map_cons, List.sum_cons]
    rw [setLoop_cons w ev hk _ hget hu]
    generalize stepAt w ev st.pos st.argPos st.shared uri = step
    by_cases hle : st.used + stepNibbles w ev step ≤ 2 * replyMtu
    · have hi := ih (st.after (st.used + stepNibbles w ev step) [step])
        (by simpa [SetState.after] using hrest) hle
      -- the state after the turn is where the rest of the plan starts
      have hplan : plan w ev (st.after (st.used + stepNibbles w ev step) [step]).pos
            (st.after (st.used + stepNibbles w ev step) [step]).argPos
            (st.after (st.used + stepNibbles w ev step) [step]).shared rest =
          plan w ev (st.pos+1) (st.argPos + step.act.taken) step.post rest := by
        simp [SetState.after, endShared]
      have hused : (st.after (st.used + stepNibbles w ev step) [step]).used =
          st.used + stepNibbles w ev step := rfl
      simp only [hplan, hused] at hi
      simp only [hle, if_true, untilFull]
      refine ⟨fun ht => ?_, fun ht => ?_⟩
      · rw [hi.1 (by omega), SetState.after_after, List.singleton_append, Nat.add_assoc]
      · obtain ⟨h1, h2, h3, h4⟩ := hi.2 (by omega)
        refine ⟨h1, ?_, ?_, ?_⟩
        · rw [h2]; simp [SetState.after]
        · rw [h3]; simp [SetState.after, endShared]
        · rw [h4]; simp [SetState.after]; omega
    · simp only [hle, if_false, untilFull]
      refine ⟨fun ht => by omega, fun _ => ⟨trivial, rfl, rfl, rfl⟩⟩

structure Batch where
  start : Nat
  uris : List Uri
  steps : List Step
  deriving DecidableEq, Repr

def batchOf (pos : Nat) (s : Shared) : Batch :=
  ⟨pos, batchAt w ev pos, plan w ev pos 0 s (batchAt w ev pos)⟩

def Batch.entries (b : Batch) : List Entry := b.steps.flatMap (·.entries)

def Batch.immediate (b : Batch) : Nat := b.uris.countP fun uri => (hintOf w ev uri).isImmediate

def fixedNibbles : Nat := w.header + w.nodeSet ev.source + ev.resourceSet.nibbles

def Batch.nibbles (b : Batch) : Nat :=
  fixedNibbles w ev + (b.steps.map (stepNibbles w ev)).sum + w.vecLen b.entries.length + w.tail

def Batch.fits (b : Batch) : Prop := b.nibbles w ev ≤ 2 * replyMtu

instance (b : Batch) : Decidable (b.fits w ev) := inferInstanceAs (Decidable (_ ≤ _))

def Batch.reply (b : Batch) : Option Reply :=
  if b.immediate w ev = 0 then none
  else some ⟨1, ev.source, ev.requestId, ev.priority, ev.resourceSet, resultsKind ev.kind,
    b.entries, b.nibbles w ev⟩

theorem Batch.reply_iff {b : Batch} {r : Reply} :
    b.reply w ev = some r ↔ b.immediate w ev ≠ 0 ∧
      r = ⟨1, ev.source, ev.requestId, ev.priority, ev.resourceSet, resultsKind ev.kind,
        b.entries, b.nibbles w ev⟩ := by
  unfold Batch.reply
  split
  · simp_all
  · simp_all [eq_comm]

/-- The steps that run before a reply that does not fit is given up. -/
def Batch.cut (b : Batch) : List Step :=
  if fixedNibbles w ev ≤ 2 * replyMtu then untilFull w ev (fixedNibbles w ev) b.steps else []

theorem Batch.cut_prefix (b : Batch) : b.cut w ev <+: b.steps := by
  unfold Batch.cut
  split
  · exact untilFull_prefix w ev _ _
  · exact List.nil_prefix

theorem Batch.cut_of_fits {b : Batch} (h : b.fits w ev) : b.cut w ev = b.steps := by
  unfold Batch.fits Batch.nibbles at h
  have hfix : fixedNibbles w ev ≤ 2 * replyMtu := by omega
  simpa [Batch.cut, hfix] using untilFull_all w ev _ b.steps (by omega)

theorem startReply_eq :
    startReply w ev =
      if fixedNibbles w ev ≤ 2 * replyMtu then some (fixedNibbles w ev) else none := by
  unfold startReply fixedNibbles put
  by_cases h1 : w.header ≤ 2 * replyMtu
  · by_cases h2 : w.header + w.nodeSet ev.source ≤ 2 * replyMtu
    · simp [h1, h2]
    · have h3 : ¬ w.header + w.nodeSet ev.source + ev.resourceSet.nibbles ≤ 2 * replyMtu := by
        omega
      simp [h1, h2, h3]
  · have h3 : ¬ w.header + w.nodeSet ev.source + ev.resourceSet.nibbles ≤ 2 * replyMtu := by
      omega
    simp [h1, h3]

theorem closeReply_ok (st : SetState) : closeReply w (.ok, st) =
    if st.used + w.vecLen st.entries.length + w.tail ≤ 2 * replyMtu then
      (.ok, { st with used := st.used + w.vecLen st.entries.length + w.tail })
    else (.err .nibbleBuf, st) := by
  unfold closeReply put
  by_cases hv : st.used + w.vecLen st.entries.length ≤ 2 * replyMtu
  · by_cases ht : st.used + w.vecLen st.entries.length + w.tail ≤ 2 * replyMtu <;> simp [hv, ht]
  · have ht : ¬ st.used + w.vecLen st.entries.length + w.tail ≤ 2 * replyMtu := by omega
    simp [hv, ht]

theorem buildKind_spec (hk : ev.kind ≠ .other) {pos : Nat} {s : Shared} {b : Batch}
    (hb : batchOf w ev pos s = b) (hfix : fixedNibbles w ev ≤ 2 * replyMtu) :
    ∃ r, buildKind w ev (b.uris.map fun uri => some (hintOf w ev uri))
        ⟨pos, 0, fixedNibbles w ev, [], s, []⟩ = some (resultsKind ev.kind, r) ∧
      (b.fits w ev → r.1 = .ok ∧ r.2.pos = pos + b.uris.length ∧
        r.2.used = b.nibbles w ev ∧ r.2.entries = b.entries ∧
        r.2.shared = endShared s b.steps ∧ r.2.steps = b.steps) ∧
      (¬ b.fits w ev → r.1 = .err .nibbleBuf ∧ r.2.steps = b.cut w ev ∧
        r.2.shared = endShared s (b.cut w ev) ∧ r.2.pos = pos + (b.cut w ev).length) := by
  refine ⟨_, buildKind_eq w ev hk _ _, ?_⟩
  have hseg : b.uris <+: ev.uris.drop pos := by
    rw [← hb]; exact Packing.batch_prefix _ _ _ _
  have hloop := setLoop_plan w ev hk b.uris ⟨pos, 0, fixedNibbles w ev, [], s, []⟩ hseg hfix
  have hsteps : plan w ev pos 0 s b.uris = b.steps := by rw [← hb]; rfl
  simp only [hsteps] at hloop
  have hcut : b.cut w ev = untilFull w ev (fixedNibbles w ev) b.steps := by
    simp [Batch.cut, hfix]
  rw [hcut]
  by_cases htot : fixedNibbles w ev + (b.steps.map (stepNibbles w ev)).sum ≤ 2 * replyMtu
  · have hall := untilFull_all w ev _ _ htot
    have hlen : b.steps.length = b.uris.length := by simp [← hsteps]
    rw [hloop.1 htot, hall, closeReply_ok]
    by_cases hfit : b.fits w ev
    · have room : fixedNibbles w ev + (b.steps.map (stepNibbles w ev)).sum +
          w.vecLen (b.steps.flatMap (·.entries)).length + w.tail ≤ 2 * replyMtu := hfit
      refine ⟨fun _ => ?_, fun hn => absurd hfit hn⟩
      rw [if_pos (by simpa only [SetState.after, List.nil_append] using room)]
      simp [SetState.after, hlen, Batch.entries, Batch.nibbles]
    · have full : ¬ fixedNibbles w ev + (b.steps.map (stepNibbles w ev)).sum +
          w.vecLen (b.steps.flatMap (·.entries)).length + w.tail ≤ 2 * replyMtu := hfit
      refine ⟨fun h => absurd h hfit, fun _ => ?_⟩
      rw [if_neg (by simpa only [SetState.after, List.nil_append] using full)]
      simp [SetState.after]
  · obtain ⟨h1, h2, h3, h4⟩ := hloop.2 (by omega)
    have hnfit : ¬ b.fits w ev := by unfold Batch.fits Batch.nibbles; omega
    refine ⟨fun h => absurd h hnfit, fun _ => ?_⟩
    generalize setLoop (kindArm w ev.kind) (kindCost w ev.kind) ev.uris ev.kind.args
      (b.uris.map fun uri => some (hintOf w ev uri))
      ⟨pos, 0, fixedNibbles w ev, [], s, []⟩ = r at h1 h2 h3 h4 ⊢
    obtain ⟨status, r⟩ := r
    simp only at h1 h2 h3 h4
    subst h1
    simp [closeReply, h2, h3, h4]

end

end VhlHackathon
