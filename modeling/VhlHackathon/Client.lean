import VhlHackathon.Effects
set_option autoImplicit false

/-!
The client of the bridge: the requests its methods submit, the filter each waits with, and
what it makes of the results; and whether the two ends write the digit the same way.
-/

namespace VhlHackathon

/-- What a method of the client returns. `failed` is every error of its own. -/
inductive CallOutcome where
  | unit
  | digit (d : UInt8)
  | point (p : Point)
  | remote (e : XpiError)
  | failed
  deriving DecidableEq, Repr

structure EventFilter where
  src : NodeId
  dst : NodeId
  kind : XpiEventDiscriminant
  requestId : Nat
  deriving DecidableEq, Repr

def EventFilter.accepts (f : EventFilter) (r : Reply) : Bool :=
  r.source == f.src && r.destination == f.dst && r.kind == f.kind && r.requestId == f.requestId

structure ClientCall where
  event : Event
  filter : EventFilter
  finish : List (Except XpiError NibbleBuf) → CallOutcome

structure Client where
  localId : NodeId
  wire : Wire
  uriNibbles : Uri → Nat

namespace Client
variable (c : Client)

/-- The steps the methods share. They all submit under the same request id. -/
def request (dstNodeId : NodeId) (resourceSet : ResourceSet) (kind : EventKind)
    (replyKind : XpiEventDiscriminant)
    (finish : List (Except XpiError NibbleBuf) → CallOutcome) : ClientCall where
  event := ⟨c.localId, 3, 0, resourceSet, kind⟩
  filter := ⟨dstNodeId, c.localId, replyKind, 3⟩
  finish := finish

def uri (uri : Uri) : ResourceSet := ⟨[uri], c.uriNibbles uri⟩

def finishOne (ok : NibbleBuf → CallOutcome) : List (Except XpiError NibbleBuf) → CallOutcome
  | [.ok result] => ok result
  | [.error e] => .remote e
  | _ => .failed

def callSync (p1 p2 : Point) : ClientCall :=
  c.request 0 (c.uri [0, 11, 2, 0]) (.call [p1.serVlu4 c.wire ++ p2.serVlu4 c.wire]) .callResults
    (finishOne fun result => ((Point.desVlu4 c.wire result).map (CallOutcome.point ·.1)).getD .failed)

def call1Unit (uri : Uri) : ClientCall :=
  c.request 0 (c.uri uri) (.call [[]]) .callResults (finishOne fun _ => .unit)

def callManyUnit (multiUri : ResourceSet) : ClientCall :=
  c.request 0 multiUri (.call [[], []]) .callResults fun _ => .unit

def writeDigit (digit : UInt8) : ClientCall :=
  c.request 1 (c.uri [1]) (.write [c.wire.putU8 digit]) .writeResults (finishOne fun _ => .unit)

def readDigit : ClientCall :=
  c.request 0 (c.uri [1]) .read .readResults
    (finishOne fun result => ((c.wire.desU32 result).map (CallOutcome.digit ·.toUInt8)).getD .failed)

end Client

theorem desVlu4_putU8 (v : UInt8) :
    (desVlu4 0 (putU8 v)).map (·.toNat) =
      if v.toNat / 16 < 8 then some (v.toNat / 16)
      else if v.toNat % 16 < 8 then some ((v.toNat / 16 - 8) * 8 + v.toNat % 16)
      else none := by
  have hlt : v.toNat / 16 < 16 := by
    have h := v.toNat_lt
    omega
  have hhi : (nibble (v.toNat / 16)).val = v.toNat / 16 := Nat.mod_eq_of_lt hlt
  have hlo : (nibble v.toNat).val = v.toNat % 16 := rfl
  by_cases h1 : v.toNat / 16 < 8
  · have hmod : v.toNat / 16 % 8 = v.toNat / 16 := Nat.mod_eq_of_lt h1
    simp [putU8, desVlu4, hhi, h1, hmod]
    omega
  · by_cases h2 : v.toNat % 16 < 8
    · simp [putU8, desVlu4, hhi, hlo, h1, h2]
      omega
    · simp [putU8, desVlu4, hhi, hlo, h1, h2]

theorem desVlu4_putU8_none_iff (v : UInt8) :
    desVlu4 0 (putU8 v) = none ↔ 8 ≤ v.toNat / 16 ∧ 8 ≤ v.toNat % 16 := by
  have h := desVlu4_putU8 v
  rw [← Option.map_eq_none_iff (f := fun n : UInt32 => n.toNat), h]
  split
  · simp; omega
  · split <;> simp <;> omega

theorem desVlu4_putU8_eq_iff (v : UInt8) :
    (desVlu4 0 (putU8 v)).map (·.toUInt8) = some v ↔ v = 0 := by
  have h := desVlu4_putU8 v
  constructor
  · intro heq
    obtain ⟨n, hn, hnv⟩ := Option.map_eq_some_iff.mp heq
    have hv : v.toNat = n.toNat % 256 := by rw [← hnv]; rfl
    rw [hn, Option.map_some] at h
    apply UInt8.toNat_inj.mp
    change v.toNat = 0
    split at h
    · rw [Option.some.inj h, Nat.mod_eq_of_lt (by omega)] at hv
      omega
    · split at h
      · rw [Option.some.inj h] at hv
        omega
      · cases h
  · rintro rfl
    decide

section
variable (c : Client)

/-- The firmware's run for a `write_digit`, next to the answers of its `grant_exact`. -/
def Client.written (x : (Nat → Bool) × UInt8) (s : Shared) : Outcome :=
  xpiDispatch c.wire x.1 (c.writeDigit x.2).event s

def Client.readBack (s : Shared) : CallOutcome := c.readDigit.finish [dispatchRead c.wire [1] 2 s]

def Client.roomForWrite : Prop :=
  ∀ r, c.wire.header + c.wire.nodeSet c.localId + c.uriNibbles [1] + c.wire.unitEntry r +
    c.wire.vecLen 1 + c.wire.tail ≤ 2 * replyMtu

/-- Every digit on the way reads back as itself, and is the one a write passed when that
write was answered Ok. -/
def Client.digitAgrees (s : Shared) : List ((Nat → Bool) × UInt8) → Prop
  | [] => c.readBack s = .digit s.digit
  | x :: rest => c.readBack s = .digit s.digit ∧
    (acknowledgedAt (c.written x s).st.committed 0 →
      (c.written x s).st.shared.digit = x.2) ∧
    Client.digitAgrees (c.written x s).st.shared rest

theorem written_spec (hroom : c.roomForWrite) (x : (Nat → Bool) × UInt8) (s : Shared) :
    let r := c.written x s
    let d := dispatchWrite c.wire [1] (c.wire.putU8 x.2) s
    (x.1 0 = false → r.st.shared = s ∧ r.st.committed = []) ∧
      (x.1 0 = true → r.st.shared = d.2 ∧
        (acknowledgedAt r.st.committed 0 ↔ d.1.isOk = true)) :=
  write_one c.wire (c.writeDigit x.2).event rfl rfl hroom x.1 s

theorem readBack_iff (hw : c.wire.desU32 = desVlu4 0) (hput : c.wire.putU8 = putU8) (s : Shared) :
    c.readBack s = .digit s.digit ↔ s.digit = 0 := by
  have hread : c.readBack s =
      ((desVlu4 0 (putU8 s.digit)).map (CallOutcome.digit ·.toUInt8)).getD .failed := by
    rw [Client.readBack, dispatchRead_digit, hput, ← hw]
    rfl
  rw [hread, ← desVlu4_putU8_eq_iff]
  cases desVlu4 0 (putU8 s.digit) with
  | none => simp
  | some n => simp

theorem digit_agrees_iff (hw : c.wire.desU32 = desVlu4 0) (hput : c.wire.putU8 = putU8)
    (hroom : c.roomForWrite) (s : Shared) (history : List ((Nat → Bool) × UInt8)) :
    c.digitAgrees s history ↔ s.digit = 0 ∧ ∀ x ∈ history, x.1 0 = true →
      x.2 = 0 ∨ (8 ≤ x.2.toNat / 16 ∧ 8 ≤ x.2.toNat % 16) := by
  induction history generalizing s with
  | nil => simp [Client.digitAgrees, readBack_iff c hw hput]
  | cons x rest ih =>
    obtain ⟨hrefused, hgranted⟩ := written_spec c hroom x s
    simp only [Client.digitAgrees, readBack_iff c hw hput, ih, List.forall_mem_cons]
    refine and_congr_right fun hzero => ?_
    by_cases hg : x.1 0 = true
    · obtain ⟨hshared, hack⟩ := hgranted hg
      rw [hack, hshared]
      have hnone := desVlu4_putU8_none_iff x.2
      have hsome := desVlu4_putU8_eq_iff x.2
      cases hd : desVlu4 0 (putU8 x.2) with
      | none =>
        have hres := hnone.mp hd
        simp [dispatchWrite, hw, hput, hd, hzero, hg, hres, Except.isOk, Except.toBool]
      | some n =>
        have hres : ¬ (8 ≤ x.2.toNat / 16 ∧ 8 ≤ x.2.toNat % 16) := by
          rw [← hnone, hd]; simp
        rw [hd, Option.map_some, Option.some.injEq] at hsome
        have hzero' : n.toUInt8 = x.2 ∧ n.toUInt8 = 0 ↔ x.2 = 0 :=
          ⟨fun h => hsome.mp h.1, fun h => ⟨hsome.mpr h, (hsome.mpr h).trans h⟩⟩
        simp [dispatchWrite, hw, hput, hd, hg, hres, Except.isOk, Except.toBool]
        rw [← and_assoc, hzero']
    · obtain ⟨hshared, hcom⟩ := hrefused (by simpa using hg)
      simp [hshared, hcom, hg, hzero, acknowledgedAt]

end

def smallClient : Client := ⟨3, .small, fun uri => 2 + uri.length⟩

theorem fiveWritten_disagrees : ¬ smallClient.digitAgrees .init [(fun _ => true, 5)] := by
  intro h
  have hack : acknowledgedAt (smallClient.written (fun _ => true, 5) .init).st.committed 0 := by
    decide +kernel
  exact absurd (h.2.1 hack) (by decide +kernel)

theorem zeroWritten_agrees : smallClient.digitAgrees .init [(fun _ => true, 0)] := by
  have hroom : smallClient.roomForWrite := by
    intro r
    cases r <;> simp [smallClient, Wire.small, Wire.unitEntry, replyMtu]
  exact (digit_agrees_iff smallClient rfl rfl hroom .init _).mpr ⟨rfl, by simp⟩

end VhlHackathon
