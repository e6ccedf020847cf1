import Mathlib.Data.List.Basic
set_option autoImplicit false

/-!
Readers that take a value from the front of their input, and the writers they belong to.
-/

namespace Codec

variable {σ α β γ : Type*}

/-- The reader accepts what the writer writes, whatever follows it, and nothing else. -/
def Exact (get : List σ → Option (α × List σ)) (put : α → List σ) : Prop :=
  ∀ input a rest, get input = some (a, rest) ↔ input = put a ++ rest

variable {get₁ : List σ → Option (α × List σ)} {put₁ : α → List σ}
  {get₂ : List σ → Option (β × List σ)} {put₂ : β → List σ}

theorem Exact.pair (first : Exact get₁ put₁) (second : Exact get₂ put₂) (make : α → β → γ)
    (left : γ → α) (right : γ → β) (parts : ∀ a b, left (make a b) = a ∧ right (make a b) = b)
    (whole : ∀ c, make (left c) (right c) = c) :
    Exact (fun input => (get₁ input).bind fun x => (get₂ x.2).map fun y => (make x.1 y.1, y.2))
      (fun c => put₁ (left c) ++ put₂ (right c)) := by
  intro input c rest
  dsimp only
  constructor
  · intro h
    obtain ⟨⟨a, mid⟩, ha, h⟩ := Option.bind_eq_some_iff.mp h
    obtain ⟨⟨b, rest'⟩, hb, h⟩ := Option.map_eq_some_iff.mp h
    simp only [Prod.mk.injEq] at h
    obtain ⟨rfl, rfl⟩ := h
    obtain ⟨hleft, hright⟩ := parts a b
    rw [hleft, hright, (first input a mid).mp ha, (second mid b rest').mp hb, List.append_assoc]
  · rintro rfl
    have ha := (first _ (left c) (put₂ (right c) ++ rest)).mpr (List.append_assoc _ _ _)
    have hb := (second _ (right c) rest).mpr rfl
    rw [ha, Option.bind_some, hb, Option.map_some, whole]

theorem Exact.pair_isSome (first : Exact get₁ put₁) {n m : Nat}
    (size : ∀ a, (put₁ a).length = n) (left : ∀ input, n ≤ input.length → (get₁ input).isSome)
    (right : ∀ input, m ≤ input.length → (get₂ input).isSome) (make : α → β → γ)
    (input : List σ) (enough : n + m ≤ input.length) :
    ((get₁ input).bind fun x => (get₂ x.2).map fun y => (make x.1 y.1, y.2)).isSome := by
  obtain ⟨⟨a, rest⟩, ha⟩ := Option.isSome_iff_exists.mp (left input (by omega))
  have split := congrArg List.length ((first input a rest).mp ha)
  rw [List.length_append, size] at split
  rw [ha, Option.bind_some, Option.isSome_map]
  exact right rest (by omega)

end Codec
