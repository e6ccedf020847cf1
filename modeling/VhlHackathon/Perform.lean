import VhlHackathon.Schedule
set_option autoImplicit false

/-!
The dispatcher refines its schedule: the loops of `xpi_dispatch` do exactly what
performing the scheduled batches one after another does.
-/

namespace VhlHackathon

section
variable (w : Wire) (ev : Event)

def schedule : Nat → Nat → Shared → List Batch
  | 0, _, _ => []
  | n+1, pos, s =>
    let b := batchOf w ev pos s
    if b.uris = [] then []
    else b :: schedule n (pos + b.uris.length) (endShared s b.steps)

structure Performed where
  status : Status
  steps : List Step
  committed : List Reply
  deriving DecidableEq, Repr

/-- Performs batch `k` and the ones after it: refused grants and replies that do not fit
end the run. -/
def perform (grants : Nat → Bool) : Nat → List Batch → Performed
  | _, [] => ⟨.ok, [], []⟩
  | k, b :: rest =>
    if grants k = false then ⟨.err .internalBbqueueError, [], []⟩
    else if b.fits w ev then
      let p := perform grants (k+1) rest
      ⟨p.status, b.steps ++ p.steps, (b.reply w ev).toList ++ p.committed⟩
    else ⟨.err .nibbleBuf, b.cut w ev, []⟩

def iterationAt (pos : Nat) (steps : List Step) (reply : Option Reply) : Iteration :=
  ⟨pos, pos, lookahead w ev.kind.discriminant ev.uris pos, steps, reply⟩

theorem lookahead_table (pos : Nat) :
    (lookahead w ev.kind.discriminant ev.uris pos).table.take
        (lookahead w ev.kind.discriminant ev.uris pos).batchLen =
      (batchAt w ev pos).map fun uri => some (hintOf w ev uri) := by
  have h := lookahead_looked w ev pos
  have hb := h.batchLen
  have ht := h.table
  simp only [Nat.zero_add] at hb ht
  rw [hb, ht]
  simp

/-- What one pass of the outer loop can do when the iterators are in lock step. -/
theorem xpiIteration_spec (hk : ev.kind ≠ .other) (granted : Bool) {st : DispState}
    (hlock : st.look = st.exec) {b : Batch} (hb : batchOf w ev st.exec st.shared = b) :
    let r := xpiIteration w ev granted st
    (b.uris = [] → r = (.stop, { st with
        iterations := st.iterations ++ [iterationAt w ev st.exec [] none] })) ∧
      (b.uris ≠ [] → granted = false → r = (.fail (.err .internalBbqueueError), { st with
        look := st.exec + b.uris.length
        iterations := st.iterations ++ [iterationAt w ev st.exec [] none] })) ∧
      (b.uris ≠ [] → granted = true → b.fits w ev →
        r = (if (lookahead w ev.kind.discriminant ev.uris st.exec).runOut then .stop else .next, {
          look := st.exec + b.uris.length
          exec := st.exec + b.uris.length
          shared := endShared st.shared b.steps
          ethPended := st.ethPended || (b.reply w ev).isSome
          iterations := st.iterations ++ [iterationAt w ev st.exec b.steps (b.reply w ev)] })) ∧
      (b.uris ≠ [] → granted = true → ¬ b.fits w ev →
        r = (.fail (.err .nibbleBuf), {
          look := st.exec + b.uris.length
          exec := st.exec + (b.cut w ev).length
          shared := endShared st.shared (b.cut w ev)
          ethPended := st.ethPended
          iterations := st.iterations ++ [iterationAt w ev st.exec (b.cut w ev) none] })) := by
  have hla := lookahead_looked w ev st.exec
  have hpos := hla.pos
  have hlen := hla.batchLen
  have himm := hla.immediate
  have htab := lookahead_table w ev st.exec
  have hu : batchAt w ev st.exec = b.uris := by rw [← hb]; rfl
  simp only [xpiIteration, hlock, iterationAt]
  generalize lookahead w ev.kind.discriminant ev.uris st.exec = la at hpos hlen himm htab ⊢
  simp only [hu, Nat.zero_add] at hpos hlen himm htab
  change la.immediate = b.immediate w ev at himm
  refine ⟨fun h => ?_, fun h hg => ?_, fun h hg hf => ?_, fun h hg hf => ?_⟩
  · have h0 : la.batchLen = 0 := by rw [hlen, h]; rfl
    simp [h0, hpos, h]
  · have h0 : la.batchLen ≠ 0 := by rw [hlen]; simpa using h
    simp [h0, hg, hpos]
  · have h0 : la.batchLen ≠ 0 := by rw [hlen]; simpa using h
    have hfix : fixedNibbles w ev ≤ 2 * replyMtu := by
      unfold Batch.fits Batch.nibbles at hf; omega
    obtain ⟨⟨status, set⟩, hbuild, hok, -⟩ := buildKind_spec w ev hk hb hfix
    obtain ⟨h1, h2, h3, h4, h5, h6⟩ := hok hf
    simp only at h1 h2 h3 h4 h5 h6
    subst h1
    simp only [startReply_eq, hfix, if_true, htab, hbuild, h0, hg, h2, h3, h4, h5, h6]
    by_cases hz : b.immediate w ev = 0
    · simp [himm, hz, hpos, Batch.reply]
    · simp [himm, hz, hpos, Batch.reply]
  · have h0 : la.batchLen ≠ 0 := by rw [hlen]; simpa using h
    by_cases hfix : fixedNibbles w ev ≤ 2 * replyMtu
    · obtain ⟨⟨status, set⟩, hbuild, -, hno⟩ := buildKind_spec w ev hk hb hfix
      obtain ⟨h1, h2, h3, h4⟩ := hno hf
      simp only at h1 h2 h3 h4
      subst h1
      simp [startReply_eq, hfix, htab, hbuild, h0, hg, h2, h3, h4, hpos]
    · have hcut : b.cut w ev = [] := by simp [Batch.cut, hfix]
      simp [startReply_eq, hfix, h0, hg, hpos, hcut, endShared]

@[simp] theorem endShared_append (s : Shared) (xs ys : List Step) :
    endShared s (xs ++ ys) = endShared (endShared s xs) ys := by simp [endShared]

@[simp] theorem batchOf_steps_length (pos : Nat) (s : Shared) :
    (batchOf w ev pos s).steps.length = (batchOf w ev pos s).uris.length := by simp [batchOf]

theorem schedule_runOut (n pos : Nat) (s s' : Shared)
    (h : (lookahead w ev.kind.discriminant ev.uris pos).runOut = true) :
    schedule w ev n (pos + (batchOf w ev pos s).uris.length) s' = [] := by
  have hr := (lookahead_looked w ev pos).runOut
  rw [h] at hr
  simp only [Bool.false_or, Bool.true_eq, decide_eq_true_eq, List.length_drop] at hr
  have hd : ev.uris.drop (pos + (batchAt w ev pos).length) = [] := by
    rw [List.drop_eq_nil_iff]; omega
  cases n with
  | zero => rfl
  | succ n =>
    have hnil : batchAt w ev (pos + (batchAt w ev pos).length) = [] := by
      rw [batchAt.eq_1 w ev (pos + _), hd, Packing.batch_nil]
    simp only [schedule]
    exact if_pos hnil

theorem filterMap_reply_append (its : List Iteration) (it : Iteration) :
    (its ++ [it]).filterMap (·.reply) = its.filterMap (·.reply) ++ it.reply.toList := by
  cases h : it.reply <;> simp [h]

theorem dispatchLoop_perform (hk : ev.kind ≠ .other) (grants : Nat → Bool) (n k : Nat)
    (st : DispState) (hlock : st.look = st.exec) :
    let p := perform w ev grants k (schedule w ev n st.exec st.shared)
    let r := dispatchLoop w ev grants n k st
    r.1 = p.status ∧ r.2.steps = st.steps ++ p.steps ∧
      r.2.committed = st.committed ++ p.committed ∧
      r.2.shared = endShared st.shared p.steps ∧
      (p.status = .ok → r.2.look = st.exec + p.steps.length) := by
  induction n generalizing k st with
  | zero => simp [schedule, perform, dispatchLoop, endShared, hlock]
  | succ n ih =>
    generalize hb : batchOf w ev st.exec st.shared = b
    obtain ⟨hempty, hrefused, hfit, hcut⟩ := xpiIteration_spec w ev hk (grants k) hlock hb
    simp only [schedule, hb, dispatchLoop]
    by_cases hu : b.uris = []
    · rw [hempty hu]
      simp [hu, perform, DispState.steps, DispState.committed, iterationAt, endShared, hlock]
    by_cases hg : grants k = false
    · rw [hrefused hu hg]
      simp [hu, hg, perform, DispState.steps, DispState.committed, iterationAt, endShared]
    have hg' : grants k = true := by simpa using hg
    by_cases hf : b.fits w ev
    · rw [hfit hu hg' hf]
      have hlen : b.steps.length = b.uris.length := by rw [← hb]; simp
      simp only [hu, if_false, perform, hg', hf, if_true, Bool.true_eq_false]
      by_cases hro : (lookahead w ev.kind.discriminant ev.uris st.exec).runOut = true
      · have hnil := schedule_runOut w ev n st.exec st.shared (endShared st.shared b.steps) hro
        rw [hb] at hnil
        simp only [hro, if_true, hnil, perform]
        refine ⟨trivial, ?_, ?_, ?_, fun _ => ?_⟩
        · simp [DispState.steps, iterationAt]
        · simp only [DispState.committed, filterMap_reply_append, iterationAt, List.append_nil]
        · simp
        · simp [hlen]
      · obtain ⟨h1, h2, h3, h4, h5⟩ := ih (k+1) {
          look := st.exec + b.uris.length
          exec := st.exec + b.uris.length
          shared := endShared st.shared b.steps
          ethPended := st.ethPended || (b.reply w ev).isSome
          iterations := st.iterations ++ [iterationAt w ev st.exec b.steps (b.reply w ev)] } rfl
        simp only [hro]
        refine ⟨h1, ?_, ?_, ?_, fun hok => ?_⟩
        · refine h2.trans ?_
          simp [DispState.steps, iterationAt]
        · refine h3.trans ?_
          simp only [DispState.committed, filterMap_reply_append, iterationAt, List.append_assoc]
        · refine h4.trans ?_
          simp
        · refine (h5 hok).trans ?_
          simp [hlen]; omega
    · rw [hcut hu hg' hf]
      simp [hu, hg, hf, perform, DispState.steps, DispState.committed, iterationAt]

theorem xpiDispatch_perform (hk : ev.kind ≠ .other) (grants : Nat → Bool) (s : Shared) :
    let p := perform w ev grants 0 (schedule w ev maxReplyBatches 0 s)
    let r := xpiDispatch w grants ev s
    r.status = p.status ∧ r.st.steps = p.steps ∧ r.st.committed = p.committed ∧
      r.st.shared = endShared s p.steps ∧
      r.skipped = decide (p.status = .ok ∧ p.steps.length < ev.uris.length) := by
  obtain ⟨h1, h2, h3, h4, h5⟩ := dispatchLoop_perform w ev hk grants maxReplyBatches 0
    ⟨0, 0, s, false, []⟩ rfl
  refine ⟨h1, h2, h3, h4, ?_⟩
  simp only [xpiDispatch, h1]
  by_cases hok : (perform w ev grants 0 (schedule w ev maxReplyBatches 0 s)).status = .ok
  · have h5 := h5 hok
    simp only [Nat.zero_add] at h5
    simp [hok, h5]
  · simp [hok]

theorem perform_split (grants : Nat → Bool) (k : Nat) (bs : List Batch) :
    ∃ done rest part, bs = done ++ rest ∧ (∀ j < done.length, grants (k+j) = true) ∧
      (∀ b ∈ done, b.fits w ev) ∧
      (perform w ev grants k bs).steps = done.flatMap (·.steps) ++ part ∧
      (perform w ev grants k bs).committed = done.filterMap (·.reply w ev) ∧
      ((rest = [] ∧ part = [] ∧ (perform w ev grants k bs).status = .ok) ∨
        (∃ b rest', rest = b :: rest' ∧ grants (k + done.length) = false ∧ part = [] ∧
          (perform w ev grants k bs).status = .err .internalBbqueueError) ∨
        (∃ b rest', rest = b :: rest' ∧ grants (k + done.length) = true ∧ ¬ b.fits w ev ∧
          part = b.cut w ev ∧ (perform w ev grants k bs).status = .err .nibbleBuf)) := by
  induction bs generalizing k with
  | nil => exact ⟨[], [], [], rfl, by simp, by simp, rfl, rfl, Or.inl ⟨rfl, rfl, rfl⟩⟩
  | cons b bs ih =>
    by_cases hg : grants k = false
    · refine ⟨[], b :: bs, [], rfl, by simp, by simp, ?_, ?_,
        Or.inr (Or.inl ⟨b, bs, rfl, hg, rfl, ?_⟩)⟩
        <;> simp [perform, hg]
    have hg' : grants k = true := by simpa using hg
    by_cases hf : b.fits w ev
    · obtain ⟨done, rest, part, h1, h2, h3, h4, h5, h6⟩ := ih (k+1)
      refine ⟨b :: done, rest, part, by rw [h1]; rfl, ?_, ?_, ?_, ?_, ?_⟩
      · intro j hj
        cases j with
        | zero => exact hg'
        | succ j =>
          have hgj := h2 j (by simpa using hj)
          rwa [show k + (j+1) = k + 1 + j by omega]
      · intro c hc
        rcases List.mem_cons.mp hc with rfl | hc
        · exact hf
        · exact h3 c hc
      · simp [perform, hg', hf, h4]
      · cases hr : b.reply w ev <;> simp [perform, hg', hf, h5, hr]
      · simpa [perform, hg', hf, Nat.add_assoc, Nat.add_comm 1] using h6
    · refine ⟨[], b :: bs, b.cut w ev, rfl, by simp, by simp, ?_, ?_,
        Or.inr (Or.inr ⟨b, bs, rfl, hg', hf, rfl, ?_⟩)⟩ <;> simp [perform, hg', hf]

theorem mem_perform_steps_iff (grants : Nat → Bool) (bs : List Batch) (st : Step) :
    st ∈ (perform w ev grants 0 bs).steps ↔
      ∃ k b, bs[k]? = some b ∧ (∀ j ≤ k, grants j = true) ∧
        (∀ j < k, ∀ c ∈ bs[j]?, c.fits w ev) ∧ st ∈ b.cut w ev := by
  obtain ⟨done, rest, part, hbs, hg, hf, hsteps, -, hend⟩ := perform_split w ev grants 0 bs
  simp only [Nat.zero_add] at hg hend
  have hdone : ∀ {k}, k < done.length → ∀ c ∈ bs[k]?, c ∈ done ∧ c.fits w ev := by
    intro k hk c hc
    rw [hbs, List.getElem?_append_left hk] at hc
    exact ⟨List.mem_of_getElem? hc, hf c (List.mem_of_getElem? hc)⟩
  rw [hsteps, List.mem_append]
  constructor
  · rintro (h | h)
    · obtain ⟨b, hb, hst⟩ := List.mem_flatMap.mp h
      obtain ⟨k, hk, rfl⟩ := List.getElem_of_mem hb
      refine ⟨k, done[k], ?_, fun j hj => hg j (by omega),
        fun j hj c hc => (hdone (by omega) c hc).2, ?_⟩
      · rw [hbs, List.getElem?_append_left hk, List.getElem?_eq_getElem hk]
      · rwa [Batch.cut_of_fits w ev (hf _ hb)]
    · rcases hend with ⟨-, rfl, -⟩ | ⟨b, rest', -, -, rfl, -⟩ | ⟨b, rest', rfl, hgd, -, rfl, -⟩
      · cases h
      · cases h
      · refine ⟨done.length, b, by rw [hbs]; simp, fun j hj => ?_,
          fun j hj c hc => (hdone hj c hc).2, h⟩
        rcases Nat.lt_or_eq_of_le hj with hlt | rfl
        · exact hg j hlt
        · exact hgd
  · rintro ⟨k, b, hb, hgk, hfk, hst⟩
    by_cases hk : k < done.length
    · obtain ⟨hmem, hfit⟩ := hdone hk b hb
      rw [Batch.cut_of_fits w ev hfit] at hst
      exact Or.inl (List.mem_flatMap.mpr ⟨b, hmem, hst⟩)
    right
    rcases hend with ⟨rfl, -, -⟩ | ⟨c, rest', -, hno, -⟩ | ⟨c, rest', rfl, -, hno, rfl, -⟩
    · have hlt := (List.getElem?_eq_some_iff.mp hb).1
      rw [hbs, List.append_nil] at hlt
      omega
    · have hgd := hgk done.length (by omega)
      rw [hno] at hgd; cases hgd
    · have hc : bs[done.length]? = some c := by rw [hbs]; simp
      rcases Nat.lt_or_eq_of_le (Nat.le_of_not_lt hk) with hlt | rfl
      · exact absurd (hfk _ hlt c hc) hno
      · rw [hc] at hb; cases hb; exact hst

theorem perform_ok {grants : Nat → Bool} {k : Nat} {bs : List Batch}
    (h : (perform w ev grants k bs).status = .ok) :
    (perform w ev grants k bs).steps = bs.flatMap (·.steps) ∧
      (perform w ev grants k bs).committed = bs.filterMap (·.reply w ev) := by
  obtain ⟨done, rest, part, hbs, -, -, hsteps, hcom, hend⟩ := perform_split w ev grants k bs
  rcases hend with ⟨rfl, rfl, -⟩ | ⟨b, rest', -, -, -, hst⟩ | ⟨b, rest', -, -, -, -, hst⟩
  · rw [hsteps, hcom, hbs]
    simp
  · rw [hst] at h; cases h
  · rw [hst] at h; cases h

end

end VhlHackathon
