import VhlHackathon.Xpi
set_option autoImplicit false

/-!
What the handlers of /sync and /async make of their argument: the two points it opens with.
-/

namespace VhlHackathon
open Codec

section
variable (w : Wire)

theorem Point.desVlu4_eq (nrd : NibbleBuf) : Point.desVlu4 w nrd =
    (w.getU16Be nrd).bind fun x => (w.getU16Be x.2).map fun y => (⟨x.1, y.1⟩, y.2) := by
  unfold Point.desVlu4
  cases w.getU16Be nrd with
  | none => rfl
  | some x =>
    simp only [Option.bind_eq_bind, Option.bind_some]
    cases w.getU16Be x.2 <;> rfl

theorem desPoints_eq (nrd : NibbleBuf) : desPoints w nrd =
    ((Point.desVlu4 w nrd).bind fun x => (Point.desVlu4 w x.2).map fun y => ((x.1, y.1), y.2)).map
      (·.1) := by
  unfold desPoints
  cases Point.desVlu4 w nrd with
  | none => rfl
  | some x =>
    simp only [Option.bind_eq_bind, Option.bind_some]
    cases Point.desVlu4 w x.2 <;> rfl

theorem exact_desVlu4 : Exact (Point.desVlu4 w) (Point.serVlu4 w) := by
  intro nrd p rest
  rw [Point.desVlu4_eq]
  exact w.exact_u16Be.pair w.exact_u16Be Point.mk Point.x Point.y (fun _ _ => ⟨rfl, rfl⟩)
    (fun _ => rfl) nrd p rest

/-- The handlers read two points, and leave what follows them. -/
theorem desPoints_eq_some_iff (nrd : NibbleBuf) (p1 p2 : Point) :
    desPoints w nrd = some (p1, p2) ↔ ∃ rest, nrd = p1.serVlu4 w ++ p2.serVlu4 w ++ rest := by
  have pair := (exact_desVlu4 w).pair (exact_desVlu4 w) Prod.mk Prod.fst Prod.snd
    (fun _ _ => ⟨rfl, rfl⟩) fun _ => rfl
  rw [desPoints_eq, Option.map_eq_some_iff]
  constructor
  · rintro ⟨⟨points, rest⟩, h, rfl⟩
    exact ⟨rest, (pair nrd (p1, p2) rest).mp h⟩
  · rintro ⟨rest, h⟩
    exact ⟨((p1, p2), rest), (pair nrd (p1, p2) rest).mpr h, rfl⟩

theorem desVlu4_isSome (nrd : NibbleBuf) (enough : 8 ≤ nrd.length) :
    (Point.desVlu4 w nrd).isSome = true := by
  rw [Point.desVlu4_eq]
  exact w.exact_u16Be.pair_isSome w.length_putU16Be w.getU16Be_isSome w.getU16Be_isSome Point.mk
    nrd enough

theorem desPoints_short {nrd : NibbleBuf} (h : desPoints w nrd = none) : nrd.length < 16 := by
  by_contra enough
  have some := (exact_desVlu4 w).pair_isSome (Point.length_serVlu4 w) (desVlu4_isSome w)
    (desVlu4_isSome w) Prod.mk nrd (Nat.not_lt.mp enough)
  rw [desPoints_eq, Option.map_eq_none_iff] at h
  rw [h] at some
  cases some

end

end VhlHackathon
