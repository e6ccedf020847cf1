import Mathlib.Data.Vector.Basic
import Mathlib.Data.UInt
set_option autoImplicit false

/-!
The endpoint header of a queued record: how it is converted from the socket's endpoint,
and what the byte form it has in front of the payload has to satisfy.
-/

namespace VhlHackathon

inductive IpAddress where
  | unspecified
  | ipv4 (bytes : Vector UInt8 4)
  | ipv6 (bytes : Vector UInt8 16)
  deriving DecidableEq, Repr

structure IpEndpoint where
  addr : IpAddress
  port : UInt16
  deriving DecidableEq, Repr

inductive IpAddressL where
  | ipv4 (bytes : Vector UInt8 4)
  | ipv6 (bytes : Vector UInt8 16)
  deriving DecidableEq, Repr

structure IpEndpointL where
  addr : IpAddressL
  port : UInt16
  deriving DecidableEq, Repr

section
variable (protoIpv6 : Bool)

def IpAddressL.tryFrom : IpAddress → Option IpAddressL
  | .unspecified => none
  | .ipv4 v4 => some (.ipv4 v4)
  | .ipv6 v6 => if protoIpv6 then some (.ipv6 v6) else none

def IpEndpointL.tryFrom (value : IpEndpoint) : Option IpEndpointL :=
  (IpAddressL.tryFrom protoIpv6 value.addr).map (IpEndpointL.mk · value.port)

/-- `size_of::<IpEndpointL>()`: without the second variant the address has no tag. -/
def sizeOfIpEndpointL : Nat := if protoIpv6 then 20 else 6

def IpAddressL.size : IpAddressL → Nat
  | .ipv4 _ => 4
  | .ipv6 _ => 16

/-- The serialiser of the header: a discriminant of one byte and the fields without padding,
from which the endpoint is read back whatever follows. -/
structure Ssmarshal where
  serialize : IpEndpointL → List UInt8
  deserialize : List UInt8 → Option (IpEndpointL × Nat)
  length_serialize : ∀ e, (serialize e).length = 1 + e.addr.size + 2
  deserialize_serialize : ∀ {addr e}, IpEndpointL.tryFrom protoIpv6 addr = some e → ∀ rest,
    deserialize (serialize e ++ rest) = some (e, (serialize e).length)

section
variable {protoIpv6} (ser : Ssmarshal protoIpv6)

theorem Ssmarshal.serialize_ne_nil (endpoint : IpEndpointL) : ser.serialize endpoint ≠ [] := by
  intro empty
  have length := ser.length_serialize endpoint
  rw [empty, List.length_nil] at length
  omega

/-- The byte form is at most one byte longer than the value in memory: the discriminant a
single-variant address does not store. -/
theorem Ssmarshal.length_le {addr : IpEndpoint} {endpoint : IpEndpointL}
    (h : IpEndpointL.tryFrom protoIpv6 addr = some endpoint) :
    (ser.serialize endpoint).length ≤ sizeOfIpEndpointL protoIpv6 + 1 := by
  rw [ser.length_serialize]
  obtain ⟨a, port⟩ := addr
  simp only [IpEndpointL.tryFrom, Option.map_eq_some_iff] at h
  obtain ⟨al, hal, rfl⟩ := h
  cases a with
  | unspecified => cases hal
  | ipv4 v4 =>
    cases hal
    cases protoIpv6 <;> simp [IpAddressL.size, sizeOfIpEndpointL]
  | ipv6 v6 =>
    cases hp : protoIpv6 <;> simp [IpAddressL.tryFrom, hp] at hal
    cases hal
    simp [IpAddressL.size, sizeOfIpEndpointL]

end

def IpEndpointL.bytes (endpoint : IpEndpointL) : List UInt8 :=
  let port := [.ofNat endpoint.port.toNat, .ofNat (endpoint.port.toNat / 256)]
  match endpoint.addr with
  | .ipv4 v4 => 0 :: v4.toList ++ port
  | .ipv6 v6 => 1 :: v6.toList ++ port

def takeVector (n : Nat) (bytes : List UInt8) : Option (Vector UInt8 n) :=
  if h : (bytes.take n).length = n then some ⟨(bytes.take n).toArray, by simpa using h⟩ else none

def IpEndpointL.ofBytes (region : List UInt8) : Option (IpEndpointL × Nat) := do
  let tag ← region[0]?
  let (addr, n) ←
    if tag = 0 then (takeVector 4 (region.drop 1)).map fun v4 => (IpAddressL.ipv4 v4, 5)
    else if tag = 1 ∧ protoIpv6 = true then
      (takeVector 16 (region.drop 1)).map fun v6 => (IpAddressL.ipv6 v6, 17)
    else none
  let lo ← region[n]?
  let hi ← region[n+1]?
  pure (⟨addr, .ofNat (lo.toNat + 256 * hi.toNat)⟩, n + 2)

theorem takeVector_append {n : Nat} (v : Vector UInt8 n) (rest : List UInt8) :
    takeVector n (v.toList ++ rest) = some v := by
  have h : (v.toList ++ rest).take n = v.toList := by
    rw [List.take_append_of_le_length (by simp), List.take_of_length_le (by simp)]
  have hlen : ((v.toList ++ rest).take n).length = n := by rw [h]; simp
  rw [takeVector, dif_pos hlen]
  simp only [h, Option.some.injEq]
  exact Vector.toList_inj.mp (by simp)

theorem port_bytes (port : UInt16) :
    UInt16.ofNat ((UInt8.ofNat port.toNat).toNat + 256 * (UInt8.ofNat (port.toNat / 256)).toNat)
      = port := by
  have hlt := port.toNat_lt
  apply UInt16.toNat_inj.mp
  simp
  omega

theorem getElem?_after {n : Nat} (tag : UInt8) (v : Vector UInt8 n) (rest : List UInt8) (i : Nat) :
    (tag :: (v.toList ++ rest))[n+1+i]? = rest[i]? := by
  rw [show n+1+i = n+i+1 by omega, List.getElem?_cons_succ,
    List.getElem?_append_right (by simp)]
  simp

theorem ofBytes_bytes {addr : IpEndpoint} {endpoint : IpEndpointL}
    (h : IpEndpointL.tryFrom protoIpv6 addr = some endpoint) (rest : List UInt8) :
    IpEndpointL.ofBytes protoIpv6 (endpoint.bytes ++ rest) =
      some (endpoint, endpoint.bytes.length) := by
  obtain ⟨a, port⟩ := endpoint
  generalize hlo : UInt8.ofNat port.toNat = lo
  generalize hhi : UInt8.ofNat (port.toNat / 256) = hi
  have hport : UInt16.ofNat (lo.toNat + 256 * hi.toNat) = port := by
    rw [← hlo, ← hhi, port_bytes]
  cases a with
  | ipv4 v4 =>
    have hs : (IpEndpointL.mk (.ipv4 v4) port).bytes ++ rest =
        0 :: (v4.toList ++ (lo :: hi :: rest)) := by
      simp [IpEndpointL.bytes, ← hlo, ← hhi]
    have h0 := getElem?_after 0 v4 (lo :: hi :: rest) 0
    have h1 := getElem?_after 0 v4 (lo :: hi :: rest) 1
    rw [hs]
    simp only [IpEndpointL.ofBytes, List.getElem?_cons_zero, Option.bind_eq_bind,
      Option.bind_some, if_true, List.drop_succ_cons, List.drop_zero, takeVector_append,
      Option.map_some, h0, h1]
    simpa [IpEndpointL.bytes] using hport
  | ipv6 v6 =>
    have hf : protoIpv6 = true := by
      unfold IpEndpointL.tryFrom at h
      cases ha : addr.addr <;> simp [ha, IpAddressL.tryFrom] at h
      exact h.1
    have hs : (IpEndpointL.mk (.ipv6 v6) port).bytes ++ rest =
        1 :: (v6.toList ++ (lo :: hi :: rest)) := by
      simp [IpEndpointL.bytes, ← hlo, ← hhi]
    have h0 := getElem?_after 1 v6 (lo :: hi :: rest) 0
    have h1 := getElem?_after 1 v6 (lo :: hi :: rest) 1
    have htag : (1 : UInt8) ≠ 0 := by decide
    rw [hs]
    simp only [IpEndpointL.ofBytes, List.getElem?_cons_zero, Option.bind_eq_bind,
      Option.bind_some, htag, hf, and_self, if_true, if_false, List.drop_succ_cons,
      List.drop_zero, takeVector_append, Option.map_some, h0, h1]
    simpa [IpEndpointL.bytes] using hport

def Ssmarshal.littleEndian : Ssmarshal protoIpv6 where
  serialize := IpEndpointL.bytes
  deserialize := IpEndpointL.ofBytes protoIpv6
  length_serialize := by
    rintro ⟨addr, port⟩
    cases addr <;> simp [IpEndpointL.bytes, IpAddressL.size, Nat.add_comm]
  deserialize_serialize := ofBytes_bytes protoIpv6

end

end VhlHackathon
