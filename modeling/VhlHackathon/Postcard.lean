import Mathlib.Data.UInt
import Mathlib.Data.Vector.Basic
set_option autoImplicit false

/-!
The byte format of postcard 0.7 and readers of it: integers of fixed width little-endian,
arrays as their elements, an enum as the varint of the variant's index in front of the
variant's own data. A reader takes what it needs from the front and hands on the rest.
-/

namespace Postcard

inductive Error where
  | serializeBufferFull
  | deserializeUnexpectedEnd
  | deserializeBadVarint
  | serdeDeCustom
  deriving DecidableEq, Repr

/-! Little-endian bytes. -/

def leBytes : Nat → Nat → List UInt8
  | 0, _ => []
  | n + 1, v => UInt8.ofNat v :: leBytes n (v / 256)

def ofLeBytes : List UInt8 → Nat
  | [] => 0
  | b :: bs => b.toNat + 256 * ofLeBytes bs

@[simp] theorem length_leBytes (n v : Nat) : (leBytes n v).length = n := by
  induction n generalizing v with
  | zero => rfl
  | succ n ih => simp [leBytes, ih]

theorem ofLeBytes_leBytes {n v : Nat} (h : v < 256 ^ n) : ofLeBytes (leBytes n v) = v := by
  induction n generalizing v with
  | zero =>
    have none : v = 0 := by simpa using h
    simp [leBytes, ofLeBytes, none]
  | succ n ih =>
    have higher : v / 256 < 256 ^ n := by
      rw [Nat.div_lt_iff_lt_mul (by decide), ← Nat.pow_succ]
      exact h
    rw [leBytes, ofLeBytes, ih higher, UInt8.toNat_ofNat']
    omega

theorem ofLeBytes_lt (bs : List UInt8) : ofLeBytes bs < 256 ^ bs.length := by
  induction bs with
  | nil => decide
  | cons b bs ih =>
    have low := b.toNat_lt
    rw [ofLeBytes, List.length_cons, Nat.pow_succ]
    omega

theorem leBytes_ofLeBytes (bs : List UInt8) : leBytes bs.length (ofLeBytes bs) = bs := by
  induction bs with
  | nil => rfl
  | cons b bs ih =>
    have low := b.toNat_lt
    have head : UInt8.ofNat (b.toNat + 256 * ofLeBytes bs) = b := by
      apply UInt8.toNat_inj.mp
      rw [UInt8.toNat_ofNat']
      omega
    have tail : (b.toNat + 256 * ofLeBytes bs) / 256 = ofLeBytes bs := by omega
    rw [List.length_cons, leBytes, ofLeBytes, head, tail, ih]

def toLeBytes (v : UInt32) : List UInt8 := leBytes 4 v.toNat

def fromLeBytes (bs : List UInt8) : UInt32 := UInt32.ofNat (ofLeBytes bs)

@[simp] theorem length_toLeBytes (v : UInt32) : (toLeBytes v).length = 4 := length_leBytes 4 _

@[simp] theorem fromLeBytes_toLeBytes (v : UInt32) : fromLeBytes (toLeBytes v) = v := by
  rw [fromLeBytes, toLeBytes, ofLeBytes_leBytes (by simpa using v.toNat_lt), UInt32.ofNat_toNat]

theorem toLeBytes_fromLeBytes {bs : List UInt8} (h : bs.length = 4) :
    toLeBytes (fromLeBytes bs) = bs := by
  have bound : ofLeBytes bs < 2 ^ 32 := by
    have below := ofLeBytes_lt bs
    rw [h] at below
    exact below
  rw [toLeBytes, fromLeBytes, UInt32.toNat_ofNat_of_lt' bound, ← h, leBytes_ofLeBytes]

/-! Readers. -/

def Reader (α : Type) : Type := List UInt8 → Except Error (α × List UInt8)

instance : Monad Reader where
  pure a := fun bytes => .ok (a, bytes)
  bind read next := fun bytes =>
    match read bytes with
    | .ok (a, rest) => next a rest
    | .error e => .error e

def Reader.fail {α : Type} (e : Error) : Reader α := fun _ => .error e

variable {α β : Type}

theorem Reader.bind_ok {read : Reader α} {next : α → Reader β} {bytes rest : List UInt8} {b : β} :
    (read >>= next) bytes = .ok (b, rest)
      ↔ ∃ a mid, read bytes = .ok (a, mid) ∧ next a mid = .ok (b, rest) := by
  change (match read bytes with | .ok (a, mid) => next a mid | .error e => .error e) = _ ↔ _
  rcases read bytes with e | ⟨a, mid⟩ <;> simp

/-- The bytes `used` are read as `a`, whatever follows them. -/
def Reads (read : Reader α) (used : List UInt8) (a : α) : Prop :=
  ∀ rest, read (used ++ rest) = .ok (a, rest)

/-- What is read depends on nothing behind the bytes taken. -/
def Local (read : Reader α) : Prop :=
  ∀ bytes a rest, read bytes = .ok (a, rest) → ∃ used, bytes = used ++ rest ∧ Reads read used a

theorem Reads.pure (a : α) : Reads (pure a : Reader α) [] a := fun _ => rfl

theorem Reads.bind {read : Reader α} {next : α → Reader β} {xs ys : List UInt8} {a : α} {b : β}
    (first : Reads read xs a) (second : Reads (next a) ys b) :
    Reads (read >>= next) (xs ++ ys) b := by
  intro rest
  rw [List.append_assoc]
  exact Reader.bind_ok.mpr ⟨a, ys ++ rest, first _, second rest⟩

theorem Reads.map {read : Reader α} {xs : List UInt8} {a : α} (first : Reads read xs a)
    (f : α → β) : Reads (read >>= fun a => Pure.pure (f a)) xs (f a) := by
  intro rest
  exact Reader.bind_ok.mpr ⟨a, rest, first rest, rfl⟩

theorem Local.pure (a : α) : Local (pure a : Reader α) := by
  intro bytes b rest h
  cases h
  exact ⟨[], rfl, Reads.pure a⟩

theorem Local.fail (e : Error) : Local (Reader.fail e : Reader α) := nofun

theorem Local.bind {read : Reader α} {next : α → Reader β} (first : Local read)
    (second : ∀ a, Local (next a)) : Local (read >>= next) := by
  intro bytes b rest h
  obtain ⟨a, mid, ha, hb⟩ := Reader.bind_ok.mp h
  obtain ⟨xs, rfl, readsFirst⟩ := first _ _ _ ha
  obtain ⟨ys, rfl, readsSecond⟩ := second a _ _ _ hb
  exact ⟨xs ++ ys, (List.append_assoc ..).symm, readsFirst.bind readsSecond⟩

/-! What the format is made of. -/

def takeArray (n : Nat) : Reader (Vector UInt8 n) := fun bytes =>
  if h : n ≤ bytes.length then .ok (⟨(bytes.take n).toArray, by simp [h]⟩, bytes.drop n)
  else .error .deserializeUnexpectedEnd

theorem reads_takeArray {n : Nat} (v : Vector UInt8 n) : Reads (takeArray n) v.toList v := by
  intro rest
  have taken : (v.toList ++ rest).take n = v.toList := by simp
  have back : v.toList.toArray = v.toArray := rfl
  simp [takeArray, taken, back]

theorem local_takeArray (n : Nat) : Local (takeArray n) := by
  intro bytes v rest h
  unfold takeArray at h
  split at h
  · rename_i room
    cases h
    refine ⟨bytes.take n, (List.take_append_drop n bytes).symm, ?_⟩
    exact reads_takeArray (⟨(bytes.take n).toArray, by simp [room]⟩ : Vector UInt8 n)
  · cases h

def takeU32 : Reader UInt32 := do
  let raw ← takeArray 4
  pure (fromLeBytes raw.toList)

theorem local_takeU32 : Local takeU32 := (local_takeArray 4).bind fun _ => .pure _

theorem reads_takeU32 (v : UInt32) : Reads takeU32 (toLeBytes v) v := by
  have raw := reads_takeArray (⟨(toLeBytes v).toArray, by simp⟩ : Vector UInt8 4)
  have value := raw.map fun bytes => fromLeBytes bytes.toList
  have back : fromLeBytes (⟨(toLeBytes v).toArray, by simp⟩ : Vector UInt8 4).toList = v :=
    fromLeBytes_toLeBytes v
  rw [back] at value
  exact value

def takeByte : Reader UInt8
  | [] => .error .deserializeUnexpectedEnd
  | b :: rest => .ok (b, rest)

theorem reads_takeByte (b : UInt8) : Reads takeByte [b] b := fun _ => rfl

theorem local_takeByte : Local takeByte
  | b :: bytes, _, _, h => by
    cases h
    exact ⟨[b], rfl, reads_takeByte b⟩

/-- Bytes of a varint on a target whose `usize` has 32 bits. -/
def varintMax : Nat := 5

/-- The bytes up to the first one without a continuation bit, at most `n` of them. -/
def takeVarintBytes : Nat → Reader (List UInt8)
  | 0 => .fail .deserializeBadVarint
  | n + 1 => do
    let b ← takeByte
    if b &&& 0x80 = 0 then pure [b]
    else do
      let bs ← takeVarintBytes n
      pure (b :: bs)

def varintValue (bytes : List UInt8) : UInt32 :=
  bytes.foldr (fun b out => (out <<< 7) ||| (b &&& 0x7F).toUInt32) 0

def takeVarint : Reader UInt32 := do
  let bytes ← takeVarintBytes varintMax
  pure (varintValue bytes)

def putVarintBytes : Nat → UInt32 → List UInt8
  | 0, _ => []
  | n + 1, v =>
    if v < 128 then [v.toUInt8] else (v.toUInt8 ||| 0x80) :: putVarintBytes n (v >>> 7)

def putVarint (v : UInt32) : List UInt8 := putVarintBytes varintMax v

theorem local_takeVarintBytes (n : Nat) : Local (takeVarintBytes n) := by
  induction n with
  | zero => exact .fail _
  | succ n ih =>
    refine local_takeByte.bind fun b => ?_
    split
    · exact .pure _
    · exact ih.bind fun _ => .pure _

theorem local_takeVarint : Local takeVarint := (local_takeVarintBytes _).bind fun _ => .pure _

theorem byte_continued : ∀ b : BitVec 8, (b ||| 0x80#8) &&& 0x80#8 ≠ 0#8 := by decide

theorem byte_last : ∀ b : BitVec 8, b < 0x80#8 → b &&& 0x80#8 = 0#8 := by decide

theorem byte_payload : ∀ b : BitVec 8, (b ||| 0x80#8) &&& 0x7F#8 = b &&& 0x7F#8 := by decide

theorem toNat_shift_or (out : UInt32) (b : UInt8) :
    ((out <<< 7) ||| (b &&& 0x7F).toUInt32).toNat = out.toNat * 128 % 2 ^ 32 + b.toNat % 128 := by
  have low : (b &&& 0x7F).toUInt32.toNat = b.toNat % 128 := by
    rw [UInt8.toNat_toUInt32, UInt8.toNat_and]
    exact Nat.and_two_pow_sub_one_eq_mod b.toNat 7
  have high : (out <<< 7).toNat = 2 ^ 7 * (out.toNat % 2 ^ 25) := by
    rw [UInt32.toNat_shiftLeft]
    change out.toNat <<< 7 % 2 ^ 32 = _
    rw [Nat.shiftLeft_eq]
    omega
  have disjoint := Nat.two_pow_add_eq_or_of_lt (show b.toNat % 128 < 2 ^ 7 by omega)
    (out.toNat % 2 ^ 25)
  rw [UInt32.toNat_or, low, high, ← disjoint]
  omega

theorem toNat_shift_seven (v : UInt32) : (v >>> 7).toNat = v.toNat / 128 := by
  rw [UInt32.toNat_shiftRight]
  exact Nat.shiftRight_eq_div_pow _ 7

theorem shift_seven_lt {n : Nat} {v : UInt32} (h : v.toNat < 128 ^ (n + 1)) :
    (v >>> 7).toNat < 128 ^ n := by
  rw [toNat_shift_seven, Nat.div_lt_iff_lt_mul (by decide), ← Nat.pow_succ]
  exact h

theorem last_byte {v : UInt32} (h : v < 128) : v.toUInt8 &&& 0x80 = 0 := by
  have small : v.toNat < 128 := h
  apply UInt8.toBitVec_inj.mp
  apply byte_last
  apply BitVec.lt_def.mpr
  change v.toUInt8.toNat < 128
  rw [UInt32.toNat_toUInt8]
  omega

theorem continued_byte (b : UInt8) : (b ||| 0x80) &&& 0x80 ≠ 0 := fun zero =>
  byte_continued b.toBitVec (UInt8.toBitVec_inj.mpr zero)

theorem reads_takeVarintBytes {n : Nat} {v : UInt32} (hpos : 0 < n) (h : v.toNat < 128 ^ n) :
    Reads (takeVarintBytes n) (putVarintBytes n v) (putVarintBytes n v) := by
  induction n generalizing v with
  | zero => omega
  | succ n ih =>
    unfold putVarintBytes takeVarintBytes
    split
    · rename_i last
      refine (reads_takeByte v.toUInt8).bind ?_
      rw [if_pos (last_byte last)]
      exact Reads.pure _
    · rename_i more
      have positive : 0 < n := by
        have large : 128 ≤ v.toNat := Nat.not_lt.mp more
        rcases n with - | n
        · simp at h
          omega
        · omega
      have tail := ih positive (shift_seven_lt h)
      refine (reads_takeByte (v.toUInt8 ||| 0x80)).bind ?_
      rw [if_neg (continued_byte _)]
      exact tail.map _

theorem varintValue_putVarintBytes {n : Nat} {v : UInt32} (h : v.toNat < 128 ^ n) :
    varintValue (putVarintBytes n v) = v := by
  induction n generalizing v with
  | zero =>
    have none : v.toNat = 0 := by simpa using h
    exact (UInt32.toNat_inj.mp none).symm
  | succ n ih =>
    unfold putVarintBytes
    split
    · rename_i last
      have small : v.toNat < 128 := last
      apply UInt32.toNat_inj.mp
      change (((0 : UInt32) <<< 7) ||| (v.toUInt8 &&& 0x7F).toUInt32).toNat = v.toNat
      rw [toNat_shift_or, UInt32.toNat_toUInt8]
      change 0 * 128 % 2 ^ 32 + _ = _
      omega
    · have tail := ih (shift_seven_lt h)
      have payload : (v.toUInt8 ||| 0x80) &&& 0x7F = v.toUInt8 &&& 0x7F :=
        UInt8.toBitVec_inj.mp (byte_payload _)
      have bound := v.toNat_lt
      change ((varintValue (putVarintBytes n (v >>> 7)) <<< 7)
        ||| ((v.toUInt8 ||| 0x80) &&& 0x7F).toUInt32) = v
      apply UInt32.toNat_inj.mp
      rw [tail, payload, toNat_shift_or, toNat_shift_seven, UInt32.toNat_toUInt8]
      omega

theorem reads_takeVarint (v : UInt32) : Reads takeVarint (putVarint v) v := by
  have fits : v.toNat < 128 ^ varintMax := by
    have bound := v.toNat_lt
    unfold varintMax
    omega
  have value := (reads_takeVarintBytes (by decide) fits).map varintValue
  rw [varintValue_putVarintBytes fits] at value
  exact value

end Postcard
