import Mathlib.Logic.Function.Iterate
import Mathlib.Order.Basic
set_option autoImplicit false

/-!
Guarded step functions, the states their runs reach, and their runs without an end. `ok`
restricts the steps a run may take, so that runs which meet a condition throughout can be
spoken about.
-/

namespace Transition

variable {σ α : Type*} (step : σ → α → Option σ)

/-- States reached from `s₀` by steps that all meet `ok`. -/
inductive ReachableBy (ok : σ → α → Prop) (s₀ : σ) : σ → Prop where
  | start : ReachableBy ok s₀ s₀
  | step {s s' : σ} {a : α} (before : ReachableBy ok s₀ s) (met : ok s a)
      (taken : step s a = some s') : ReachableBy ok s₀ s'

abbrev Reachable (s₀ : σ) : σ → Prop := ReachableBy step (fun _ _ => True) s₀

theorem ReachableBy.invariant {ok : σ → α → Prop} {s₀ s : σ} {I : σ → Prop}
    (h : ReachableBy step ok s₀ s) (start : I s₀)
    (keep : ∀ s a s', I s → ok s a → step s a = some s' → I s') : I s := by
  induction h with
  | start => exact start
  | step _ met taken ih => exact keep _ _ _ ih met taken

theorem ReachableBy.mono {ok ok' : σ → α → Prop} {s₀ s : σ}
    (himp : ∀ s a, ok s a → ok' s a) (h : ReachableBy step ok s₀ s) :
    ReachableBy step ok' s₀ s := by
  induction h with
  | start => exact .start
  | step _ met taken ih => exact .step ih (himp _ _ met) taken

theorem ReachableBy.trans {ok : σ → α → Prop} {s₀ s t : σ} (h : ReachableBy step ok s₀ s)
    (h' : ReachableBy step ok s t) : ReachableBy step ok s₀ t := by
  induction h' with
  | start => exact h
  | step _ met taken ih => exact .step ih met taken

theorem ReachableBy.project {τ β : Type*} (step' : τ → β → Option τ) {ok : σ → α → Prop}
    {ok' : τ → β → Prop} {s₀ s : σ} (part : σ → τ) (h : ReachableBy step ok s₀ s)
    (moves : ∀ s a s', ok s a → step s a = some s' →
      ReachableBy step' ok' (part s) (part s')) : ReachableBy step' ok' (part s₀) (part s) := by
  induction h with
  | start => exact .start
  | step _ met taken ih => exact ih.trans step' (moves _ _ _ met taken)

/-- A machine whose steps another one can answer from every related state, with some steps
of its own or none, reaches only what is related to a state the other reaches. -/
theorem ReachableBy.simulation {τ β : Type*} (step' : τ → β → Option τ) {ok : σ → α → Prop}
    {ok' : τ → β → Prop} {s₀ s : σ} {t₀ : τ} (R : σ → τ → Prop) (h : ReachableBy step ok s₀ s)
    (start : R s₀ t₀)
    (answer : ∀ s a s' t, R s t → ok s a → step s a = some s' →
      ∃ t', ReachableBy step' ok' t t' ∧ R s' t') :
    ∃ t, ReachableBy step' ok' t₀ t ∧ R s t := by
  induction h with
  | start => exact ⟨t₀, .start, start⟩
  | step _ met taken ih =>
    obtain ⟨t, reached, related⟩ := ih
    obtain ⟨t', more, related'⟩ := answer _ _ _ t related met taken
    exact ⟨t', reached.trans step' more, related'⟩

def run (ok : σ → α → Bool) : σ → List α → Option σ
  | s, [] => some s
  | s, a :: as => if ok s a then (step s a).bind (run ok · as) else none

theorem reachableBy_of_run {ok : σ → α → Bool} {s₀ s s' : σ} {as : List α}
    (hs : ReachableBy step (fun s a => ok s a = true) s₀ s)
    (h : run step ok s as = some s') : ReachableBy step (fun s a => ok s a = true) s₀ s' := by
  induction as generalizing s with
  | nil =>
    simp only [run, Option.some.injEq] at h
    exact h ▸ hs
  | cons a as ih =>
    simp only [run] at h
    split at h
    · rename_i met
      obtain ⟨t, ht, h⟩ := Option.bind_eq_some_iff.mp h
      exact ih (.step hs met ht) h
    · cases h

theorem exists_reachableBy_of_acts {ok : σ → α → Prop} (I : σ → Prop)
    (keep : ∀ s a s', I s → step s a = some s' → I s') (s₀ : σ) (start : I s₀) (as : List α)
    (p : σ → Bool) (met : ∀ a ∈ as, ∀ s, I s → ok s a)
    (h : (run step (fun _ _ => true) s₀ as).any p = true) :
    ∃ s, ReachableBy step ok s₀ s ∧ p s = true := by
  induction as generalizing s₀ with
  | nil => exact ⟨s₀, .start, h⟩
  | cons a as ih =>
    obtain ⟨first, rest⟩ := List.forall_mem_cons.mp met
    rw [run, if_pos rfl] at h
    cases taken : step s₀ a with
    | none => simp [taken] at h
    | some t =>
      rw [taken, Option.bind_some] at h
      obtain ⟨s, more, hp⟩ := ih t (keep s₀ a t start taken) rest h
      exact ⟨s, (ReachableBy.step .start (first s₀ start) taken).trans step more, hp⟩

theorem reachable_of_run {s₀ s : σ} (as : List α)
    (h : run step (fun _ _ => true) s₀ as = some s) : Reachable step s₀ s :=
  (reachableBy_of_run step .start h).mono step fun _ _ _ => trivial

/-- When every step pays for itself from what it finds in the bank and what it earns, so
does every run. -/
theorem run_pays {ok : σ → α → Bool} (counted : α → Bool) (bank earned : σ → Nat)
    (pays : ∀ s a s', ok s a = true → step s a = some s' →
      (counted a).toNat + bank s' + earned s ≤ bank s + earned s') {s s' : σ} {as : List α}
    (h : run step ok s as = some s') :
    as.countP counted + bank s' + earned s ≤ bank s + earned s' := by
  induction as generalizing s with
  | nil =>
    simp only [run, Option.some.injEq] at h
    subst h
    simp
  | cons a as ih =>
    simp only [run] at h
    split at h
    · rename_i met
      obtain ⟨t, ht, h⟩ := Option.bind_eq_some_iff.mp h
      have first := pays s a t met ht
      have rest := ih h
      rw [List.countP_cons]
      cases hc : counted a <;> simp only [hc, Bool.toNat_true, Bool.toNat_false,
        if_true, Bool.false_eq_true, if_false] at first ⊢ <;> omega
    · cases h

theorem exists_reachableBy_of_run (ok : σ → α → Bool) (s₀ : σ) (as : List α) (p : σ → Bool)
    (h : (run step ok s₀ as).any p = true) :
    ∃ s, ReachableBy step (fun s a => ok s a = true) s₀ s ∧ p s = true := by
  cases hr : run step ok s₀ as with
  | none => simp [hr] at h
  | some s =>
    rw [hr] at h
    exact ⟨s, reachableBy_of_run step .start hr, h⟩

theorem exists_reachable_of_run (s₀ : σ) (as : List α) (p : σ → Bool)
    (h : (run step (fun _ _ => true) s₀ as).any p = true) :
    ∃ s, Reachable step s₀ s ∧ p s = true := by
  obtain ⟨s, hs, hp⟩ := exists_reachableBy_of_run step _ s₀ as p h
  exact ⟨s, hs.mono step fun _ _ _ => trivial, hp⟩

/-! Runs without an end. -/

structure Execution (ok : σ → α → Prop) (s₀ : σ) where
  state : Nat → σ
  act : Nat → α
  start : state 0 = s₀
  met : ∀ n, ok (state n) (act n)
  taken : ∀ n, step (state n) (act n) = some (state (n + 1))

section
variable {step} {ok : σ → α → Prop} {s₀ : σ} (e : Execution step ok s₀)

theorem Execution.reached (n : Nat) : ReachableBy step ok s₀ (e.state n) := by
  induction n with
  | zero => rw [e.start]; exact .start
  | succ n ih => exact .step ih (e.met n) (e.taken n)

theorem Execution.pays (counted : α → Bool) (left : σ → Nat)
    (pays : ∀ n, (counted (e.act n)).toNat + left (e.state (n + 1)) ≤ left (e.state n)) (n : Nat) :
    (List.range n).countP (fun k => counted (e.act k)) + left (e.state n) ≤ left s₀ := by
  induction n with
  | zero => simp [e.start]
  | succ n ih =>
    have now := pays n
    have more : (List.range (n + 1)).countP (fun k => counted (e.act k)) =
        (List.range n).countP (fun k => counted (e.act k)) + (counted (e.act n)).toNat := by
      rw [List.range_succ, List.countP_append, List.countP_singleton]
      cases counted (e.act n) <;> rfl
    omega

theorem Execution.falls (left : σ → Nat) {N : Nat}
    (never : ∀ n ≥ N, left (e.state (n + 1)) ≤ left (e.state n)) {n m : Nat} (hn : N ≤ n)
    (hm : n ≤ m) : left (e.state m) ≤ left (e.state n) := by
  induction hm with
  | refl => exact Nat.le_refl _
  | step hm ih => exact Nat.le_trans (never _ (Nat.le_trans hn hm)) ih

/-- What no step adds to, and what is brought down as long as it is left, is gone for good. -/
theorem Execution.runs_out (left : σ → Nat) {N : Nat}
    (never : ∀ n ≥ N, left (e.state (n + 1)) ≤ left (e.state n))
    (again : ∀ n ≥ N, left (e.state n) ≠ 0 → ∃ m ≥ n, left (e.state m) < left (e.state n)) :
    ∃ M ≥ N, ∀ n ≥ M, left (e.state n) = 0 := by
  induction hleft : left (e.state N) using Nat.strongRecOn generalizing N with
  | _ k ih =>
    by_cases gone : left (e.state N) = 0
    · refine ⟨N, Nat.le_refl N, fun n hn => ?_⟩
      have fallen := e.falls left never (Nat.le_refl N) hn
      omega
    · obtain ⟨m, hm, less⟩ := again N (Nat.le_refl N) gone
      obtain ⟨M, hM, rest⟩ := ih (left (e.state m)) (hleft ▸ less)
        (fun n hn => never n (Nat.le_trans hm hn)) (fun n hn => again n (Nat.le_trans hm hn)) rfl
      exact ⟨M, Nat.le_trans hm hM, rest⟩

end

def Execution.cons {ok : σ → α → Prop} {s t : σ} {a : α} (met : ok s a)
    (taken : step s a = some t) (e : Execution step ok t) : Execution step ok s where
  state := fun | 0 => s | n + 1 => e.state n
  act := fun | 0 => a | n + 1 => e.act n
  start := rfl
  met := fun | 0 => met | n + 1 => e.met n
  taken := fun | 0 => taken.trans (congrArg some e.start.symm) | n + 1 => e.taken n

theorem exists_execution_of_again {ok : σ → α → Prop} {J : σ → Prop} {b : α}
    (again : ∀ s, J s → ok s b ∧ ∃ s', step s b = some s' ∧ J s') {s : σ} (hs : J s) :
    ∃ e : Execution step ok s, ∀ n, e.act n = b ∧ J (e.state n) := by
  have stays : ∀ n, J ((fun s => (step s b).getD s)^[n] s) := by
    intro n
    induction n with
    | zero => exact hs
    | succ n ih =>
      obtain ⟨-, s', taken, hs'⟩ := again _ ih
      rw [Function.iterate_succ_apply', taken]
      exact hs'
  refine ⟨⟨fun n => (fun s => (step s b).getD s)^[n] s, fun _ => b, rfl,
    fun n => (again _ (stays n)).1, fun n => ?_⟩, fun n => ⟨rfl, stays n⟩⟩
  obtain ⟨-, s', taken, -⟩ := again _ (stays n)
  rw [Function.iterate_succ_apply', taken, Option.getD_some]

theorem exists_execution_of_run {ok : σ → α → Prop} {J : σ → Prop} {b : α}
    (again : ∀ s, J s → ok s b ∧ ∃ s', step s b = some s' ∧ J s') {s t : σ} {as : List α}
    (met : ∀ a ∈ as, ∀ s, ok s a) (h : run step (fun _ _ => true) s as = some t) (ht : J t) :
    ∃ e : Execution step ok s, ∀ n ≥ as.length, e.act n = b ∧ J (e.state n) := by
  induction as generalizing s with
  | nil =>
    obtain rfl : s = t := Option.some.inj h
    obtain ⟨e, he⟩ := exists_execution_of_again step again ht
    exact ⟨e, fun n _ => he n⟩
  | cons a as ih =>
    obtain ⟨first, others⟩ := List.forall_mem_cons.mp met
    rw [run, if_pos rfl] at h
    obtain ⟨s', taken, more⟩ := Option.bind_eq_some_iff.mp h
    obtain ⟨e, he⟩ := ih others more
    refine ⟨e.cons step (first s) taken, fun n hn => ?_⟩
    cases n with
    | zero => cases hn
    | succ n => exact he n (Nat.le_of_succ_le_succ hn)

end Transition
