import VhlHackathon.Codec
import Mathlib.Data.UInt
set_option autoImplicit false

/-!
Data of the bridge firmware's dispatcher: events, hints, handler arguments and
the resources the handlers share. The xPI serialiser itself is not part of the
repository; `Wire` names what the dispatcher gets from it.
-/

namespace VhlHackathon

abbrev Nibble := Fin 16

def nibble (n : Nat) : Nibble := Fin.ofNat 16 n

abbrev NibbleBuf := List Nibble
abbrev Uri := List UInt32
abbrev NodeId := Nat

/-- The errors the dispatcher names, and `nibbleBuf` for every serialiser error
that `?` converts. -/
inductive XpiError where
  | internalBbqueueError
  | noArgumentsProvided
  | internal
  | badUri
  | notAMethod
  | operationNotSupported
  | nibbleBuf
  deriving DecidableEq, Repr

inductive XpiEventDiscriminant where
  | call | write | read | callResults | writeResults | readResults | other
  deriving DecidableEq, Repr

inductive EventKind where
  | call (argsSet : List NibbleBuf)
  | write (values : List NibbleBuf)
  | read
  | other
  deriving DecidableEq, Repr

def EventKind.discriminant : EventKind → XpiEventDiscriminant
  | .call _ => .call
  | .write _ => .write
  | .read => .read
  | .other => .other

def EventKind.args : EventKind → List NibbleBuf
  | .call args => args
  | .write values => values
  | .read | .other => []

/-- What a resource set is to the dispatcher: the URIs of `flat_iter`, and the
nibbles `ser_vlu4` writes. -/
structure ResourceSet where
  uris : List Uri
  nibbles : Nat
  deriving DecidableEq, Repr

structure Event where
  source : NodeId
  requestId : Nat
  priority : Nat
  resourceSet : ResourceSet
  kind : EventKind
  deriving DecidableEq, Repr

abbrev Event.uris (ev : Event) : List Uri := ev.resourceSet.uris

inductive SerDesSize where
  | sized (nibbles : Nat)
  deriving DecidableEq, Repr

def SerDesSize.upperBound : SerDesSize → Nat → Nat
  | .sized n, _ => n

inductive ReplySizeHint where
  | immediate (maxSize rawSize : SerDesSize) (preliminaryResult : Except XpiError Unit)
  | deferred
  deriving DecidableEq, Repr

structure Point where
  x : UInt16
  y : UInt16
  deriving DecidableEq, Repr

/-- The xPI serialiser: nibble counts of the parts of a reply, and the numbers handlers and
client read and write. A `u8` takes two nibbles; a `u16` four, which are read back as it. -/
structure Wire where
  header : Nat
  nodeSet : NodeId → Nat
  okUnit : Nat
  okSlice : Nat → Nat
  errLen : XpiError → Nat
  vecLen : Nat → Nat
  tail : Nat
  desU32 : NibbleBuf → Option UInt32
  putU8 : UInt8 → NibbleBuf
  putU16Be : UInt16 → NibbleBuf
  getU16Be : NibbleBuf → Option (UInt16 × NibbleBuf)
  length_putU8 : ∀ v, (putU8 v).length = 2
  length_putU16Be : ∀ v, (putU16Be v).length = 4
  exact_u16Be : Codec.Exact getU16Be putU16Be
  getU16Be_isSome : ∀ nrd : NibbleBuf, 4 ≤ nrd.length → (getU16Be nrd).isSome = true

attribute [simp] Wire.length_putU8 Wire.length_putU16Be

/-- Three value bits and one continuation bit per nibble, most significant group first. -/
def desVlu4 (acc : UInt32) : NibbleBuf → Option UInt32
  | [] => none
  | n :: rest =>
    let value := acc * 8 + UInt32.ofNat (n.val % 8)
    if n.val < 8 then some value else desVlu4 value rest

def putU8 (v : UInt8) : NibbleBuf := [nibble (v.toNat / 16), nibble v.toNat]

def putU16Be (v : UInt16) : NibbleBuf :=
  [nibble (v.toNat / 4096), nibble (v.toNat / 256), nibble (v.toNat / 16), nibble v.toNat]

def getU16Be : NibbleBuf → Option (UInt16 × NibbleBuf)
  | a :: b :: c :: d :: rest =>
    some (.ofNat (((a.val * 16 + b.val) * 16 + c.val) * 16 + d.val), rest)
  | _ => none

theorem exact_u16Be : Codec.Exact getU16Be putU16Be := by
  intro nrd v rest
  constructor
  · intro h
    match nrd, h with
    | a :: b :: c :: d :: rest, h =>
      have ha := a.isLt
      have hb := b.isLt
      have hc := c.isLt
      have hd := d.isLt
      cases h
      have value : (UInt16.ofNat (((a.val * 16 + b.val) * 16 + c.val) * 16 + d.val)).toNat =
          ((a.val * 16 + b.val) * 16 + c.val) * 16 + d.val :=
        UInt16.toNat_ofNat_of_lt' (by simp only [UInt16.size]; omega)
      simp only [putU16Be, value, List.cons_append, List.nil_append, List.cons.injEq, and_true]
      refine ⟨?_, ?_, ?_, ?_⟩ <;> apply Fin.ext <;> simp only [nibble, Fin.val_ofNat] <;> omega
  · rintro rfl
    have hv := v.toNat_lt
    simp only [putU16Be, List.cons_append, List.nil_append, getU16Be, nibble, Fin.val_ofNat,
      Option.some.injEq, Prod.mk.injEq, and_true]
    apply UInt16.toNat_inj.mp
    rw [UInt16.toNat_ofNat']
    omega

theorem getU16Be_isSome (nrd : NibbleBuf) (enough : 4 ≤ nrd.length) :
    (getU16Be nrd).isSome = true :=
  match nrd, enough with
  | _ :: _ :: _ :: _ :: _, _ => rfl

def Wire.small : Wire where
  header := 10
  nodeSet _ := 2
  okUnit := 3
  okSlice n := n + 3
  errLen _ := 2
  vecLen _ := 2
  tail := 2
  desU32 := desVlu4 0
  putU8 := VhlHackathon.putU8
  putU16Be := VhlHackathon.putU16Be
  getU16Be := VhlHackathon.getU16Be
  length_putU8 _ := rfl
  length_putU16Be _ := rfl
  exact_u16Be := VhlHackathon.exact_u16Be
  getU16Be_isSome := VhlHackathon.getU16Be_isSome

section
variable (w : Wire)

def Point.desVlu4 (nrd : NibbleBuf) : Option (Point × NibbleBuf) := do
  let (x, rest) ← w.getU16Be nrd
  let (y, rest) ← w.getU16Be rest
  pure (⟨x, y⟩, rest)

def Point.serVlu4 (p : Point) : NibbleBuf := w.putU16Be p.x ++ w.putU16Be p.y

@[simp] theorem Point.length_serVlu4 (p : Point) : (p.serVlu4 w).length = 8 := by
  simp [Point.serVlu4]

/-- The two arguments of /sync and /async. Nibbles after them are only warned about. -/
def desPoints (nrd : NibbleBuf) : Option (Point × Point) := do
  let (p1, rest) ← Point.desVlu4 w nrd
  let (p2, _) ← Point.desVlu4 w rest
  pure (p1, p2)

end

/-- The shared digit and the one-slot input queues of the tasks the handlers spawn. -/
structure Shared where
  digit : UInt8
  setDigit : Option UInt8
  asyncTask : Option (Point × Point)
  displayTask : Option Unit
  deriving DecidableEq, Repr

def Shared.init : Shared := ⟨0, none, none, none⟩

def spawn {α : Type} (slot : Option α) (input : α) : Option α :=
  match slot with
  | none => some input
  | some queued => some queued

@[simp] theorem spawn_none {α : Type} (input : α) : spawn none input = some input := rfl

@[simp] theorem spawn_some {α : Type} (queued input : α) :
    spawn (some queued) input = some queued := rfl

end VhlHackathon
