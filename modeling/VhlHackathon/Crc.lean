import Mathlib.Data.BitVec
import Mathlib.Logic.Function.Iterate
set_option autoImplicit false

/-!
Cyclic redundancy checks as the run of a reflected shift register: bits enter at the low
end, and the polynomial is added whenever a one leaves there. Every clock can be undone
as long as the polynomial has its highest bit, so that two messages which differ only
within one register's length of bits always leave different remainders.
-/

namespace Crc

variable {w : Nat} (poly : BitVec w)

/-- One clock of the register. -/
def step (r : BitVec w) : BitVec w :=
  if r.getLsbD 0 then (r >>> 1) ^^^ poly else r >>> 1

/-- The clock backwards: the highest bit says whether the polynomial was added. -/
def unstep (r : BitVec w) : BitVec w :=
  if r.msb then ((r ^^^ poly) <<< 1) ^^^ 1#w else r <<< 1

theorem step_xor (a b : BitVec w) : step poly (a ^^^ b) = step poly a ^^^ step poly b := by
  unfold step
  rw [BitVec.getLsbD_xor, BitVec.ushiftRight_xor_distrib]
  cases ha : a.getLsbD 0 <;> cases hb : b.getLsbD 0 <;> simp
  · ac_rfl
  · ac_rfl
  · rw [BitVec.xor_assoc, ← BitVec.xor_assoc poly, BitVec.xor_comm poly, BitVec.xor_assoc,
      BitVec.xor_self, BitVec.xor_zero]

theorem shiftLeft_ushiftRight_one {x : BitVec w} (h : x.msb = false) : (x <<< 1) >>> 1 = x := by
  apply BitVec.eq_of_getLsbD_eq
  intro i hi
  rw [BitVec.msb_eq_getLsbD_last] at h
  rcases Nat.lt_or_ge (i + 1) w with lower | last
  · simp [Nat.add_comm 1 i, lower, hi]
  · have top : i = w - 1 := by omega
    subst top
    simp [h]

theorem ushiftRight_shiftLeft_one (x : BitVec w) :
    (x >>> 1) <<< 1 = if x.getLsbD 0 then x ^^^ 1#w else x := by
  apply BitVec.eq_of_getLsbD_eq
  intro i hi
  cases i with
  | zero => cases h : x.getLsbD 0 <;> simp_all
  | succ i =>
    have above : (1#w).getLsbD (i + 1) = false := by simp
    cases h : x.getLsbD 0 <;> simp_all [Nat.add_comm 1 i]

variable {poly}

theorem unstep_step (hpoly : poly.msb = true) : Function.LeftInverse (unstep poly) (step poly) := by
  intro r
  have top : (r >>> 1).msb = false := by simp [BitVec.msb_ushiftRight]
  unfold step unstep
  cases h : r.getLsbD 0 with
  | false => simp [top, ushiftRight_shiftLeft_one, h]
  | true =>
    simp only [if_true, BitVec.msb_xor, top, hpoly, Bool.false_xor, BitVec.xor_assoc,
      BitVec.xor_self, BitVec.xor_zero, ushiftRight_shiftLeft_one, h]

theorem step_unstep (hpoly : poly.msb = true) : Function.RightInverse (unstep poly) (step poly) := by
  intro r
  unfold unstep
  cases h : r.msb with
  | false =>
    have low : (r <<< 1).getLsbD 0 = false := by simp
    simp only [step, Bool.false_eq_true, if_false, low, shiftLeft_ushiftRight_one h]
  | true =>
    have rest : (r ^^^ poly).msb = false := by simp [h, hpoly]
    have positive : 0 < w := by
      cases w with
      | zero => simp [BitVec.eq_nil r] at h
      | succ => omega
    have low : ((r ^^^ poly) <<< 1 ^^^ 1#w).getLsbD 0 = true := by simp [positive]
    have gone : 1#w >>> 1 = 0#w := by
      apply BitVec.eq_of_getLsbD_eq
      simp
    simp only [step, if_true, low, BitVec.ushiftRight_xor_distrib, shiftLeft_ushiftRight_one rest,
      gone, BitVec.xor_zero, BitVec.xor_assoc, BitVec.xor_self]

theorem step_injective (hpoly : poly.msb = true) : Function.Injective (step poly) :=
  (unstep_step hpoly).injective

variable (poly)

/-- The bits of a message as a word, the first of them lowest. -/
def word (w : Nat) (bits : List Bool) : BitVec w := (BitVec.ofBoolListLE bits).setWidth w

def feed : BitVec w → List Bool → BitVec w
  | r, [] => r
  | r, b :: bits => feed (step poly (r ^^^ word w [b])) bits

theorem getLsbD_word (bits : List Bool) (i : Nat) :
    (word w bits).getLsbD i = (decide (i < w) && bits.getD i false) := by
  simp [word]

@[simp] theorem getElem_word (bits : List Bool) (i : Nat) (hi : i < w) :
    (word w bits)[i] = bits.getD i false := by
  rw [← BitVec.getLsbD_eq_getElem, getLsbD_word, decide_eq_true hi, Bool.true_and]

@[simp] theorem word_nil : word w [] = 0#w := by
  apply BitVec.eq_of_getLsbD_eq
  intro i hi
  simp [hi]

theorem word_cons (b : Bool) (bits : List Bool) :
    word w (b :: bits) = word w [b] ^^^ (word w bits) <<< 1 := by
  apply BitVec.eq_of_getLsbD_eq
  intro i hi
  cases i with
  | zero => simp [hi]
  | succ i => simp [hi]

theorem word_shift {bits : List Bool} (hlen : bits.length < w) :
    step poly ((word w bits) <<< 1) = word w bits := by
  have low : ((word w bits) <<< 1).getLsbD 0 = false := by simp
  have top : (word w bits).msb = false := by
    have past : bits[w - 1]? = none := List.getElem?_eq_none (by omega)
    rw [BitVec.msb_eq_getLsbD_last, getLsbD_word, List.getD_eq_getElem?_getD, past]
    simp
  simp only [step, low, Bool.false_eq_true, if_false, shiftLeft_ushiftRight_one top]

theorem word_injective {bits bits' : List Bool} (hsame : bits.length = bits'.length)
    (hlen : bits.length ≤ w) (h : word w bits = word w bits') : bits = bits' := by
  apply List.ext_getElem hsame
  intro i hi hi'
  have inside : i < w := by omega
  have bit : (word w bits).getLsbD i = (word w bits').getLsbD i := by rw [h]
  rw [getLsbD_word, getLsbD_word] at bit
  simpa [inside, hi, hi'] using bit

@[simp] theorem feed_nil (r : BitVec w) : feed poly r [] = r := rfl

theorem feed_append (r : BitVec w) (xs ys : List Bool) :
    feed poly r (xs ++ ys) = feed poly (feed poly r xs) ys := by
  induction xs generalizing r with
  | nil => rfl
  | cons x xs ih => exact ih _

theorem feed_word (r : BitVec w) (bits : List Bool) (hlen : bits.length ≤ w) :
    feed poly r bits = (step poly)^[bits.length] (r ^^^ word w bits) := by
  induction bits generalizing r with
  | nil => simp
  | cons b bits ih =>
    have shorter : bits.length < w := hlen
    have clocked : step poly (r ^^^ word w (b :: bits))
        = step poly (r ^^^ word w [b]) ^^^ word w bits := by
      rw [word_cons, ← BitVec.xor_assoc, step_xor, word_shift poly shorter]
    rw [List.length_cons, Function.iterate_succ_apply, clocked]
    exact ih _ shorter.le

variable {poly}

theorem feed_injective (hpoly : poly.msb = true) (bits : List Bool) :
    Function.Injective (feed poly · bits) := by
  induction bits with
  | nil => exact Function.injective_id
  | cons b bits ih =>
    intro r r' h
    have clocked := step_injective hpoly (ih h)
    exact (BitVec.xor_left_inj _).mp clocked

/-- A burst of at most `w` bits is always detected. -/
theorem feed_burst (hpoly : poly.msb = true) (r : BitVec w) (front : List Bool)
    {burst burst' : List Bool} (back : List Bool) (hsame : burst.length = burst'.length)
    (hlen : burst.length ≤ w) (hne : burst ≠ burst') :
    feed poly r (front ++ burst ++ back) ≠ feed poly r (front ++ burst' ++ back) := by
  intro h
  rw [feed_append, feed_append _ _ (front ++ burst')] at h
  have before := feed_injective hpoly back h
  rw [feed_append, feed_append, feed_word poly _ burst hlen,
    feed_word poly _ burst' (hsame ▸ hlen), hsame] at before
  have same := (step_injective hpoly).iterate _ before
  exact hne (word_injective hsame hlen ((BitVec.xor_right_inj _).mp same))

/-- The one word of the register's length that leads from `r` to `target`. -/
def closing (poly r target : BitVec w) : BitVec w := r ^^^ (unstep poly)^[w] target

theorem feed_eq_iff_closing (hpoly : poly.msb = true) (r target : BitVec w) {bits : List Bool}
    (hlen : bits.length = w) :
    feed poly r bits = target ↔ word w bits = closing poly r target := by
  have undo := (unstep_step hpoly).iterate w
  have redo := (step_unstep hpoly).iterate w
  rw [feed_word poly r bits hlen.le, hlen, closing]
  constructor
  · intro h
    rw [← h, undo, ← BitVec.xor_assoc, BitVec.xor_self, BitVec.zero_xor]
  · intro h
    rw [h, ← BitVec.xor_assoc, BitVec.xor_self, BitVec.zero_xor, redo]

/-! Messages of bytes, the lowest bit of each first. -/

def byteBits (b : UInt8) : List Bool := (List.range 8).map b.toBitVec.getLsbD

def bits (bytes : List UInt8) : List Bool := bytes.flatMap byteBits

@[simp] theorem bits_nil : bits [] = [] := rfl

@[simp] theorem bits_cons (b : UInt8) (bytes : List UInt8) :
    bits (b :: bytes) = byteBits b ++ bits bytes := rfl

@[simp] theorem bits_append (xs ys : List UInt8) : bits (xs ++ ys) = bits xs ++ bits ys := by
  simp [bits]

@[simp] theorem length_byteBits (b : UInt8) : (byteBits b).length = 8 := by simp [byteBits]

@[simp] theorem length_bits (bytes : List UInt8) : (bits bytes).length = 8 * bytes.length := by
  induction bytes with
  | nil => rfl
  | cons b bytes ih => simp [ih]; omega

theorem byteBits_injective : Function.Injective byteBits := by
  intro a b h
  apply UInt8.toBitVec_inj.mp
  apply BitVec.eq_of_getLsbD_eq
  intro i hi
  exact (List.map_inj_left.mp h) i (List.mem_range.mpr hi)

theorem bits_injective {xs ys : List UInt8} (h : bits xs = bits ys) : xs = ys := by
  induction xs generalizing ys with
  | nil =>
    have none : 8 * ys.length = 0 := by rw [← length_bits, ← h]; rfl
    exact (List.eq_nil_of_length_eq_zero (by omega)).symm
  | cons x xs ih =>
    cases ys with
    | nil =>
      have none : 8 * (x :: xs).length = 0 := by rw [← length_bits, h]; rfl
      simp at none
    | cons y ys =>
      obtain ⟨first, others⟩ := List.append_inj h (by simp)
      rw [byteBits_injective first, ih others]

def bytes : Nat → BitVec w → List UInt8
  | 0, _ => []
  | n + 1, x => ⟨x.setWidth 8⟩ :: bytes n (x >>> 8)

@[simp] theorem length_bytes (n : Nat) (x : BitVec w) : (bytes n x).length = n := by
  induction n generalizing x with
  | zero => rfl
  | succ n ih => rw [bytes, List.length_cons, ih]

theorem bits_bytes (n : Nat) (x : BitVec w) :
    bits (bytes n x) = (List.range (8 * n)).map x.getLsbD := by
  induction n generalizing x with
  | zero => rfl
  | succ n ih =>
    have low : byteBits ⟨x.setWidth 8⟩ = (List.range 8).map x.getLsbD := by
      apply List.map_congr_left
      intro i hi
      have inside := List.mem_range.mp hi
      simp [inside]
    have high : (List.range (8 * n)).map (x >>> 8).getLsbD
        = (List.range (8 * n)).map (x.getLsbD ∘ (8 + ·)) := by
      apply List.map_congr_left
      intro i _
      simp
    rw [bytes, bits_cons, low, ih, high, ← List.map_map, ← List.map_append, ← List.range_add]
    congr 2
    omega

theorem word_bytes {n : Nat} (hn : 8 * n = w) (x : BitVec w) : word w (bits (bytes n x)) = x := by
  apply BitVec.eq_of_getLsbD_eq
  intro i hi
  rw [getLsbD_word, bits_bytes]
  simp [hi, hn]

theorem feed_zeros (poly r : BitVec w) (n : Nat) :
    feed poly r (bits (List.replicate n 0)) = (step poly)^[8 * n] r := by
  induction n generalizing r with
  | zero => rfl
  | succ n ih =>
    have clocked : feed poly r (byteBits 0) = (step poly)^[8] r := by
      simp [byteBits, feed, List.range, List.range.loop, word, BitVec.ofBoolListLE]
    rw [List.replicate_succ, bits_cons, feed_append, clocked, ih, ← Function.iterate_add_apply]
    rfl

/-- A check: its polynomial, what the register starts from and what is added at the end. -/
structure Check (w : Nat) where
  poly : BitVec w
  start : BitVec w
  final : BitVec w

def Check.register (c : Check w) (bytes : List UInt8) : BitVec w :=
  feed c.poly c.start (bits bytes)

def Check.digest (c : Check w) (bytes : List UInt8) : BitVec w := c.register bytes ^^^ c.final

theorem Check.digest_eq_iff (c : Check w) (xs ys : List UInt8) :
    c.digest xs = c.digest ys ↔ c.register xs = c.register ys := BitVec.xor_left_inj _

theorem Check.register_append (c : Check w) (xs ys : List UInt8) :
    c.register (xs ++ ys) = feed c.poly (c.register xs) (bits ys) := by
  rw [register, bits_append, feed_append]
  rfl

theorem Check.register_eq_iff_closing (c : Check w) (hpoly : c.poly.msb = true)
    (front : List UInt8) {last : List UInt8} (hlen : 8 * last.length = w) (target : BitVec w) :
    c.register (front ++ last) = target
      ↔ word w (bits last) = closing c.poly (c.register front) target := by
  rw [register_append]
  exact feed_eq_iff_closing hpoly _ _ (by rw [length_bits, hlen])

theorem Check.existsUnique_closing (c : Check w) (hpoly : c.poly.msb = true)
    (front : List UInt8) {n : Nat} (hn : 8 * n = w) (target : BitVec w) :
    ∃! last : List UInt8, last.length = n ∧ c.register (front ++ last) = target := by
  refine ⟨bytes n (closing c.poly (c.register front) target), ⟨length_bytes _ _, ?_⟩, ?_⟩
  · apply (c.register_eq_iff_closing hpoly front (by rw [length_bytes, hn]) target).mpr
    exact word_bytes hn _
  · rintro last ⟨hlen, hlast⟩
    have closed := (c.register_eq_iff_closing hpoly front (by rw [hlen, hn]) target).mp hlast
    rw [← word_bytes hn (closing c.poly (c.register front) target)] at closed
    refine bits_injective (word_injective ?_ ?_ closed)
    · rw [length_bits, length_bits, hlen, length_bytes]
    · rw [length_bits, hlen, hn]

theorem Check.digest_burst (c : Check w) (hpoly : c.poly.msb = true) (front back : List UInt8)
    {burst burst' : List UInt8} (hsame : burst.length = burst'.length)
    (hlen : 8 * burst.length ≤ w) (hne : burst ≠ burst') :
    c.digest (front ++ burst ++ back) ≠ c.digest (front ++ burst' ++ back) := by
  intro h
  rw [c.digest_eq_iff] at h
  simp only [register, bits_append] at h
  refine feed_burst hpoly c.start (bits front) (bits back) ?_ ?_ ?_ h
  · rw [length_bits, length_bits, hsame]
  · rw [length_bits]
    exact hlen
  · exact fun same => hne (bits_injective same)

end Crc
