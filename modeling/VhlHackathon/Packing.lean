import Mathlib.Data.List.Basic
import Mathlib.Data.List.Infix
import Mathlib.Algebra.BigOperators.Group.List.Basic
import Mathlib.Algebra.GroupWithZero.Nat
set_option autoImplicit false

/-!
Greedy packing of a list into consecutive batches. A batch takes items from the
front while a slot is free and the budget covers the next item; packing repeats
this on what is left, a bounded number of times.
-/

namespace Packing

variable {α : Type*} (cost : α → Nat)

def batch : Nat → Nat → List α → List α
  | 0, _, _ => []
  | _+1, _, [] => []
  | n+1, b, x :: xs => if cost x ≤ b then x :: batch n (b - cost x) xs else []

@[simp] theorem batch_nil (n b : Nat) : batch cost n b [] = [] := by
  cases n <;> rfl

theorem batch_prefix (n b : Nat) (xs : List α) : batch cost n b xs <+: xs := by
  induction n generalizing b xs with
  | zero => exact List.nil_prefix
  | succ n ih =>
    cases xs with
    | nil => exact List.nil_prefix
    | cons x xs =>
      by_cases h : cost x ≤ b
      · simpa [batch, h] using ih (b - cost x) xs
      · simp [batch, h]

theorem batch_append_drop (n b : Nat) (xs : List α) :
    batch cost n b xs ++ xs.drop (batch cost n b xs).length = xs := by
  obtain ⟨t, ht⟩ := batch_prefix cost n b xs
  generalize batch cost n b xs = p at ht
  subst ht
  rw [List.drop_left]

theorem batch_length_le (n b : Nat) (xs : List α) : (batch cost n b xs).length ≤ n := by
  induction n generalizing b xs with
  | zero => simp [batch]
  | succ n ih =>
    cases xs with
    | nil => simp
    | cons x xs =>
      by_cases h : cost x ≤ b
      · simpa [batch, h] using ih (b - cost x) xs
      · simp [batch, h]

theorem batch_eq_self_iff (n b : Nat) (xs : List α) :
    batch cost n b xs = xs ↔ xs.length ≤ n ∧ (xs.map cost).sum ≤ b := by
  induction n generalizing b xs with
  | zero => cases xs <;> simp [batch]
  | succ n ih =>
    cases xs with
    | nil => simp
    | cons x xs =>
      by_cases h : cost x ≤ b
      · simp only [batch, h, if_true, List.cons.injEq, true_and, ih, List.length_cons,
          List.map_cons, List.sum_cons]
        omega
      · simp only [batch, h, if_false, List.map_cons, List.sum_cons, List.length_cons]
        constructor
        · intro hn; cases hn
        · intro hc; omega

theorem batch_cost_le (n b : Nat) (xs : List α) : ((batch cost n b xs).map cost).sum ≤ b := by
  induction n generalizing b xs with
  | zero => simp [batch]
  | succ n ih =>
    cases xs with
    | nil => simp
    | cons x xs =>
      by_cases h : cost x ≤ b
      · have hi := ih (b - cost x) xs
        simp only [batch, h, if_true, List.map_cons, List.sum_cons]
        omega
      · simp [batch, h]

theorem batch_longest {n b : Nat} {p xs : List α} (hp : p <+: xs) (hlen : p.length ≤ n)
    (hcost : (p.map cost).sum ≤ b) : p.length ≤ (batch cost n b xs).length := by
  induction n generalizing b p xs with
  | zero => omega
  | succ n ih =>
    cases p with
    | nil => exact Nat.zero_le _
    | cons x p =>
      obtain ⟨t, rfl⟩ := hp
      simp only [List.map_cons, List.sum_cons, List.length_cons] at hcost hlen
      have hx : cost x ≤ b := by omega
      have hi := ih (b := b - cost x) (List.prefix_append p t) (by omega) (by omega)
      simp only [List.cons_append, batch, hx, if_true, List.length_cons]
      omega

def Divides (slots budget k : Nat) (xs : List α) : Prop :=
  ∃ groups : List (List α), groups.flatten = xs ∧ groups.length ≤ k ∧
    ∀ g ∈ groups, g.length ≤ slots ∧ (g.map cost).sum ≤ budget

theorem divides_zero_iff (slots budget : Nat) (xs : List α) :
    Divides cost slots budget 0 xs ↔ xs = [] := by
  constructor
  · rintro ⟨groups, rfl, hk, -⟩
    rw [List.length_eq_zero_iff.mp (Nat.le_zero.mp hk)]
    rfl
  · rintro rfl
    exact ⟨[], rfl, Nat.le_refl 0, by simp⟩

theorem Divides.drop {slots budget k : Nat} {xs : List α} (h : Divides cost slots budget k xs)
    (n : Nat) : Divides cost slots budget k (xs.drop n) := by
  obtain ⟨groups, rfl, hk, hlim⟩ := h
  induction groups generalizing n k with
  | nil => exact ⟨[], by simp, Nat.zero_le k, by simp⟩
  | cons g rest ih =>
    obtain ⟨hg, hrest⟩ := List.forall_mem_cons.mp hlim
    by_cases hn : n ≤ g.length
    · have hsub : (g.drop n).length ≤ g.length ∧ ((g.drop n).map cost).sum ≤ (g.map cost).sum := by
        refine ⟨by simp, ?_⟩
        have hsum := congrArg (fun l => (l.map cost).sum) (List.take_append_drop n g)
        simp only [List.map_append, List.sum_append] at hsum
        omega
      refine ⟨g.drop n :: rest, ?_, hk, List.forall_mem_cons.mpr ⟨⟨?_, ?_⟩, hrest⟩⟩
      · rw [List.flatten_cons, List.flatten_cons, List.drop_append_of_le_length hn]
      · exact hsub.1.trans hg.1
      · exact hsub.2.trans hg.2
    · have hlen : rest.length ≤ k := by
        simp only [List.length_cons] at hk
        omega
      obtain ⟨groups, hflat, hk', hlim'⟩ := ih (n - g.length) hlen hrest
      have hgone : g.drop n = [] := List.drop_of_length_le (by omega)
      refine ⟨groups, ?_, hk', hlim'⟩
      rw [hflat, List.flatten_cons, List.drop_append, hgone, List.nil_append]

/-- Taking the greedy batch first is never worse than any other first group. -/
theorem divides_succ_iff (slots budget k : Nat) (xs : List α) :
    Divides cost slots budget (k+1) xs ↔
      Divides cost slots budget k (xs.drop (batch cost slots budget xs).length) := by
  constructor
  · rintro ⟨groups, rfl, hk, hlim⟩
    cases groups with
    | nil => exact ⟨[], by simp, Nat.zero_le k, by simp⟩
    | cons g rest =>
      obtain ⟨⟨hlen, hcost⟩, hrest⟩ := List.forall_mem_cons.mp hlim
      have hlong := batch_longest cost (List.prefix_append g rest.flatten) hlen hcost
      have hdiv : Divides cost slots budget k rest.flatten :=
        ⟨rest, rfl, Nat.le_of_succ_le_succ hk, hrest⟩
      rw [List.flatten_cons, List.drop_append, List.drop_of_length_le hlong, List.nil_append]
      exact hdiv.drop cost _
  · rintro ⟨groups, hflat, hk, hlim⟩
    refine ⟨batch cost slots budget xs :: groups, ?_, Nat.succ_le_succ hk,
      List.forall_mem_cons.mpr ⟨⟨batch_length_le cost _ _ _, batch_cost_le cost _ _ _⟩, hlim⟩⟩
    rw [List.flatten_cons, hflat, batch_append_drop]

theorem Divides.eq_nil {slots budget k : Nat} {xs : List α} (h : Divides cost slots budget k xs)
    (hb : batch cost slots budget xs = []) : xs = [] := by
  induction k with
  | zero => exact (divides_zero_iff cost slots budget xs).mp h
  | succ k ih =>
    rw [divides_succ_iff, hb, List.length_nil, List.drop_zero] at h
    exact ih h

structure Segment (α : Type*) where
  start : Nat
  items : List α
  deriving DecidableEq, Repr

abbrev Segment.stop {α : Type*} (sg : Segment α) : Nat := sg.start + sg.items.length

/-- At most `k` batches from a position on, each packed from what the ones before it left. -/
def segments (slots budget : Nat) (xs : List α) : Nat → Nat → List (Segment α)
  | 0, _ => []
  | k+1, pos =>
    let items := batch cost slots budget (xs.drop pos)
    if items = [] then []
    else ⟨pos, items⟩ :: segments slots budget xs k (pos + items.length)

theorem segments_prefix (slots budget k : Nat) (xs : List α) (pos : Nat) :
    (segments cost slots budget xs k pos).flatMap (·.items) <+: xs.drop pos := by
  induction k generalizing pos with
  | zero => exact List.nil_prefix
  | succ k ih =>
    simp only [segments]
    split
    · exact List.nil_prefix
    · obtain ⟨t, ht⟩ := ih (pos + (batch cost slots budget (xs.drop pos)).length)
      refine ⟨t, ?_⟩
      rw [List.flatMap_cons, List.append_assoc, ht, ← List.drop_drop, batch_append_drop]

/-- Greedy packing takes the whole list exactly when the list can be divided at all. -/
theorem segments_cover_iff (slots budget k : Nat) (xs : List α) (pos : Nat) :
    (segments cost slots budget xs k pos).flatMap (·.items) = xs.drop pos ↔
      Divides cost slots budget k (xs.drop pos) := by
  induction k generalizing pos with
  | zero =>
    rw [divides_zero_iff]
    exact eq_comm
  | succ k ih =>
    simp only [segments]
    by_cases hnil : batch cost slots budget (xs.drop pos) = []
    · rw [if_pos hnil]
      constructor
      · intro h
        rw [List.flatMap_nil] at h
        rw [← h]
        exact ⟨[], rfl, Nat.zero_le _, by simp⟩
      · intro h
        exact (h.eq_nil cost hnil).symm
    · rw [if_neg hnil, List.flatMap_cons, divides_succ_iff, List.drop_drop, ← ih,
        ← List.drop_drop]
      have hsplit := batch_append_drop cost slots budget (xs.drop pos)
      constructor
      · intro h
        exact List.append_cancel_left (h.trans hsplit.symm)
      · intro h
        exact (congrArg (batch cost slots budget (xs.drop pos) ++ ·) h).trans hsplit

def tried (limit : Nat) : Nat → List Nat → Nat
  | _, [] => 0
  | used, c :: cs => if used + c ≤ limit then tried limit (used + c) cs + 1 else 1

theorem tried_le_length (limit used : Nat) (cs : List Nat) :
    tried limit used cs ≤ cs.length := by
  induction cs generalizing used with
  | nil => exact Nat.le_refl 0
  | cons c cs ih =>
    simp only [tried, List.length_cons]
    split
    · exact Nat.succ_le_succ (ih _)
    · omega

end Packing
