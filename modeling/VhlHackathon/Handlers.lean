import VhlHackathon.Xpi
set_option autoImplicit false

/-!
The hand-written resource tree: `reply_size_hint`, which decides before anything
runs, and the three dispatch functions that run a handler.
-/

namespace VhlHackathon

/-- /main/sync, wrapping like a build without overflow checks. -/
def sync (p1 p2 : Point) : Point := ⟨p1.x + p2.x, p1.y + p2.y⟩

/-- `room` is the number of nibbles the result writer was given. -/
def dispatchCall (w : Wire) (uri : Uri) (argsNrd : NibbleBuf) (room : Nat) (s : Shared) :
    Except XpiError NibbleBuf × Shared :=
  match uri with
  | [] => (.error .badUri, s)
  | 0 :: _ | 1 :: _ => (.error .notAMethod, s)
  | 2 :: _ =>
    match w.desU32 argsNrd with
    | none => (.error .nibbleBuf, s)
    | some a => (.ok [], { s with setDigit := spawn s.setDigit a.toUInt8 })
  | 5 :: _ =>
    match desPoints w argsNrd with
    | none => (.error .nibbleBuf, s)
    | some (p1, p2) =>
      let r := (sync p1 p2).serVlu4 w
      if r.length ≤ room then (.ok r, s) else (.error .nibbleBuf, s)
  | 6 :: _ =>
    match desPoints w argsNrd with
    | none => (.error .nibbleBuf, s)
    | some (p1, p2) => (.ok [], { s with asyncTask := spawn s.asyncTask (p1, p2) })
  | _ :: _ => (.error .badUri, s)

def dispatchWrite (w : Wire) (uri : Uri) (valueNrd : NibbleBuf) (s : Shared) :
    Except XpiError Unit × Shared :=
  match uri with
  | [] => (.error .badUri, s)
  | 1 :: _ =>
    match w.desU32 valueNrd with
    | none => (.error .nibbleBuf, s)
    | some digit =>
      (.ok (), { s with digit := digit.toUInt8, displayTask := spawn s.displayTask () })
  | 2 :: _ | 5 :: _ | 6 :: _ => (.error .notAMethod, s)
  | _ :: _ => (.error .badUri, s)

def dispatchRead (w : Wire) (uri : Uri) (room : Nat) (s : Shared) : Except XpiError NibbleBuf :=
  match uri with
  | [] => .error .badUri
  | 1 :: _ =>
    let value := w.putU8 s.digit
    if value.length ≤ room then .ok value else .error .nibbleBuf
  | 2 :: _ | 5 :: _ | 6 :: _ => .error .notAMethod
  | _ :: _ => .error .badUri

theorem dispatchRead_digit (w : Wire) (s : Shared) :
    dispatchRead w [1] 2 s = .ok (w.putU8 s.digit) := by simp [dispatchRead]

def notSupported (w : Wire) : ReplySizeHint :=
  .immediate (.sized (w.errLen .operationNotSupported)) (.sized 0)
    (.error .operationNotSupported)

def badUri (w : Wire) : ReplySizeHint :=
  .immediate (.sized (w.errLen .badUri)) (.sized 0) (.error .badUri)

def replySizeHint (w : Wire) (uri : Uri) (eventKind : XpiEventDiscriminant) : ReplySizeHint :=
  match uri with
  | [] => notSupported w
  | 1 :: rest =>
    match rest with
    | [] =>
      match eventKind with
      | .write => .immediate (.sized 3) (.sized 0) (.ok ())
      | .read => .immediate (.sized (2+3)) (.sized 2) (.ok ())
      | _ => notSupported w
    | _ :: _ => badUri w
  | 5 :: rest =>
    match rest with
    | [] =>
      match eventKind with
      | .call => .immediate (.sized (8+3)) (.sized 8) (.ok ())
      | _ => notSupported w
    | _ :: _ => badUri w
  | 6 :: rest =>
    match rest with
    | [] =>
      match eventKind with
      | .call => .deferred
      | _ => notSupported w
    | _ :: _ => badUri w
  | _ :: _ => badUri w

/-- The hints under which a handler runs: a preliminary Ok, or Deferred. -/
def ReplySizeHint.accepts : ReplySizeHint → Bool
  | .immediate _ _ (.ok _) | .deferred => true
  | .immediate _ _ (.error _) => false

def ReplySizeHint.isImmediate : ReplySizeHint → Bool
  | .immediate _ _ _ => true
  | .deferred => false

def ReplySizeHint.reserved : ReplySizeHint → Nat
  | .immediate maxSize _ _ => maxSize.upperBound 0
  | .deferred => 0

theorem upperBound_eq (size : SerDesSize) (a : Nat) :
    size.upperBound a = size.upperBound 0 := by cases size; rfl

theorem accepts_iff (w : Wire) (uri : Uri) (k : XpiEventDiscriminant) :
    (replySizeHint w uri k).accepts = true ↔
      (uri = [1] ∧ (k = .write ∨ k = .read)) ∨ (uri = [5] ∧ k = .call) ∨
        (uri = [6] ∧ k = .call) := by
  unfold replySizeHint
  repeat' split
  all_goals simp_all [ReplySizeHint.accepts, notSupported, badUri]

theorem deferred_iff (w : Wire) (uri : Uri) (k : XpiEventDiscriminant) :
    replySizeHint w uri k = .deferred ↔ uri = [6] ∧ k = .call := by
  unfold replySizeHint
  repeat' split
  all_goals simp_all [notSupported, badUri]

theorem dispatchCall_routed (w : Wire) (uri : Uri) (argsNrd : NibbleBuf) (room : Nat)
    (s : Shared) (h : (replySizeHint w uri .call).accepts = true) :
    (dispatchCall w uri argsNrd room s).1 ≠ .error .badUri ∧
      (dispatchCall w uri argsNrd room s).1 ≠ .error .notAMethod := by
  rcases (accepts_iff w uri .call).mp h with ⟨-, hk | hk⟩ | ⟨rfl, -⟩ | ⟨rfl, -⟩
  · cases hk
  · cases hk
  · unfold dispatchCall
    cases desPoints w argsNrd with
    | none => simp
    | some p => by_cases hr : 8 ≤ room <;> simp [hr]
  · unfold dispatchCall
    cases desPoints w argsNrd <;> simp

theorem dispatchWrite_routed (w : Wire) (uri : Uri) (valueNrd : NibbleBuf) (s : Shared)
    (h : (replySizeHint w uri .write).accepts = true) :
    (dispatchWrite w uri valueNrd s).1 ≠ .error .badUri ∧
      (dispatchWrite w uri valueNrd s).1 ≠ .error .notAMethod := by
  rcases (accepts_iff w uri .write).mp h with ⟨rfl, -⟩ | ⟨-, hk⟩ | ⟨-, hk⟩
  · unfold dispatchWrite
    cases w.desU32 valueNrd <;> simp
  · cases hk
  · cases hk

theorem dispatchRead_routed (w : Wire) (uri : Uri) (room : Nat) (s : Shared)
    (h : (replySizeHint w uri .read).accepts = true) :
    dispatchRead w uri room s ≠ .error .badUri ∧
      dispatchRead w uri room s ≠ .error .notAMethod := by
  rcases (accepts_iff w uri .read).mp h with ⟨rfl, -⟩ | ⟨-, hk⟩ | ⟨-, hk⟩
  · by_cases hr : 2 ≤ room <;> simp [dispatchRead, hr]
  · cases hk
  · cases hk

def errorOf {α : Type} : Except XpiError α → Option XpiError
  | .ok _ => none
  | .error e => some e

def dispatchError (w : Wire) (k : XpiEventDiscriminant) (uri : Uri) (nrd : NibbleBuf)
    (room : Nat) (s : Shared) : Option XpiError :=
  match k with
  | .call => errorOf (dispatchCall w uri nrd room s).1
  | .write => errorOf (dispatchWrite w uri nrd s).1
  | .read => errorOf (dispatchRead w uri room s)
  | .callResults | .writeResults | .readResults | .other => none

def routes (w : Wire) (k : XpiEventDiscriminant) (uri : Uri) (nrd : NibbleBuf) (room : Nat)
    (s : Shared) : Prop :=
  dispatchError w k uri nrd room s ≠ some .badUri ∧
    dispatchError w k uri nrd room s ≠ some .notAMethod

/-- The first ids a dispatch function has a handler for. It looks at no further ids. -/
def handlerIds : XpiEventDiscriminant → List UInt32
  | .call => [2, 5, 6]
  | .write | .read => [1]
  | .callResults | .writeResults | .readResults | .other => []

theorem dispatchCall_error_iff (w : Wire) (uri : Uri) (nrd : NibbleBuf) (room : Nat)
    (s : Shared) : routes w .call uri nrd room s ↔ ∃ id ∈ uri.head?, id ∈ handlerIds .call := by
  simp only [routes, dispatchError, dispatchCall]
  split
  · simp [errorOf]
  · simp [errorOf, handlerIds]
  · simp [errorOf, handlerIds]
  · cases w.desU32 nrd <;> simp [errorOf, handlerIds]
  · cases desPoints w nrd with
    | none => simp [errorOf, handlerIds]
    | some p => by_cases hr : 8 ≤ room <;>
        simp [hr, errorOf, handlerIds]
  · cases desPoints w nrd <;> simp [errorOf, handlerIds]
  · rename_i id rest h0 h1 h2 h5 h6
    simp_all [errorOf, handlerIds]

theorem dispatchWrite_error_iff (w : Wire) (uri : Uri) (nrd : NibbleBuf) (room : Nat)
    (s : Shared) : routes w .write uri nrd room s ↔ ∃ id ∈ uri.head?, id ∈ handlerIds .write := by
  simp only [routes, dispatchError, dispatchWrite]
  split
  · simp [errorOf]
  · cases w.desU32 nrd <;> simp [errorOf, handlerIds]
  · simp [errorOf, handlerIds]
  · simp [errorOf, handlerIds]
  · simp [errorOf, handlerIds]
  · rename_i id rest h1 h2 h5 h6
    simp_all [errorOf, handlerIds]

theorem dispatchRead_error_iff (w : Wire) (uri : Uri) (nrd : NibbleBuf) (room : Nat)
    (s : Shared) : routes w .read uri nrd room s ↔ ∃ id ∈ uri.head?, id ∈ handlerIds .read := by
  simp only [routes, dispatchError, dispatchRead]
  split
  · simp [errorOf]
  · by_cases hr : 2 ≤ room <;> simp [hr, errorOf, handlerIds]
  · simp [errorOf, handlerIds]
  · simp [errorOf, handlerIds]
  · simp [errorOf, handlerIds]
  · rename_i id rest h1 h2 h5 h6
    simp_all [errorOf, handlerIds]

theorem hint_agrees_iff (w : Wire) {k : XpiEventDiscriminant}
    (hk : k = .call ∨ k = .write ∨ k = .read) (uri : Uri) (nrd : NibbleBuf) (room : Nat)
    (s : Shared) :
    ((replySizeHint w uri k).accepts = true ↔ routes w k uri nrd room s) ↔
      (k = .call → ∀ rest, uri ≠ 2 :: rest ∧ (uri = 5 :: rest ∨ uri = 6 :: rest → rest = [])) ∧
        (k ≠ .call → ∀ rest, uri = 1 :: rest → rest = []) := by
  have hroutes : routes w k uri nrd room s ↔ ∃ id ∈ uri.head?, id ∈ handlerIds k := by
    rcases hk with rfl | rfl | rfl
    · exact dispatchCall_error_iff w uri nrd room s
    · exact dispatchWrite_error_iff w uri nrd room s
    · exact dispatchRead_error_iff w uri nrd room s
  rw [accepts_iff, hroutes]
  cases uri with
  | nil => simp
  | cons id rest =>
    rcases hk with rfl | rfl | rfl
    · by_cases h2 : id = 2
      · simp [h2, handlerIds]
      · by_cases h5 : id = 5
        · simp [h5, handlerIds]
        · by_cases h6 : id = 6 <;> simp [h2, h5, h6, handlerIds]
    · by_cases h1 : id = 1 <;> simp [h1, handlerIds]
    · by_cases h1 : id = 1 <;> simp [h1, handlerIds]

theorem setDigit_unreachable :
    ¬ ((replySizeHint .small [2] .call).accepts = true ↔
      routes .small .call [2] [nibble 5] 0 .init) := by
  rw [accepts_iff, dispatchCall_error_iff]
  decide

theorem sync_agrees :
    (replySizeHint .small [5] .call).accepts = true ↔ routes .small .call [5] [] 8 .init :=
  (hint_agrees_iff .small (Or.inl rfl) [5] [] 8 .init).mpr (by simp)

end VhlHackathon
