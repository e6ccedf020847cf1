import VhlHackathon.Answers
import VhlHackathon.Correlation
set_option autoImplicit false

/-!
What reaches the client's callers at all, whatever is delayed or lost: `main` waits for
updates of a subscription, and its methods for the replies their filters let through.
-/

namespace VhlHackathon

theorem ClientMethod.isWrite_iff {method : ClientMethod} :
    method.isWrite = true ↔ ∃ digit, method = .writeDigit digit := by
  cases method <;> simp [ClientMethod.isWrite]

section
variable (c : Client)

/-- The Subscribe event of `observe_one`. Its kind and the kinds of its answers are among
those the model has as `other`. -/
def Client.observeOne : Event := ⟨c.localId, 3, 0, c.uri [2], .other⟩

def Client.observes (r : Reply) : Bool :=
  r.source == 0 && r.destination == c.localId && r.kind == .other &&
    r.resourceSet.uris.contains [2] && r.requestId == 3

/-- The client with its observer. `updates` are the replies to its Subscribe events that
are on their way, `values` what `main` logs. -/
structure Observing where
  session : Session
  listening : Bool
  subscribes : Nat
  updates : List Reply
  values : List UInt8

def Observing.init : Observing := ⟨.init, false, 0, [], []⟩

def Observing.offer (o : Observing) (r : Reply) : Observing :=
  if o.listening && c.observes r then { o with values := o.values ++ [1] } else o

def Observing.overhear (o : Observing) : SessionAct → Observing
  | .arrive k => o.session.replies[k]?.elim o fun sent => o.offer c sent.reply
  | _ => o

inductive ObservingAct where
  | session (a : SessionAct)
  | observeOne
  | deliverSubscribe (grants : Nat → Bool)
  | updateArrives (k : Nat)

def observingStep (o : Observing) : ObservingAct → Option Observing
  | .session a => (sessionStep c o.session a).map fun session => { o.overhear c a with session }
  | .observeOne => some { o with listening := true, subscribes := o.subscribes + 1 }
  | .deliverSubscribe grants =>
    if 0 < o.subscribes then
      let st := (xpiDispatch c.wire grants c.observeOne o.session.shared).st
      some { o with
        session.shared := st.shared
        subscribes := o.subscribes - 1
        updates := o.updates ++ st.committed }
    else none
  | .updateArrives k =>
    o.updates[k]?.map fun r => { o with updates := o.updates.eraseIdx k }.offer c r

theorem offer_produced {method : ClientMethod} {r : Reply} (hr : c.produced method r)
    (o : Observing) : o.offer c r = o := by
  obtain ⟨grants, s, hr⟩ := hr
  have source := ((results_in_order c.wire _ grants s).2 r hr).1
  simp [Observing.offer, Client.observes, source]

theorem overhear_produced {o : Observing}
    (hsent : ∀ sent ∈ o.session.replies, c.produced sent.request.method sent.reply)
    (a : SessionAct) : o.overhear c a = o := by
  cases a with
  | arrive k =>
    rw [Observing.overhear]
    cases hk : o.session.replies[k]? with
    | none => rfl
    | some sent => exact offer_produced c (hsent sent (List.mem_of_getElem? hk)) o
  | _ => rfl

def Client.writeResult (digit : UInt8) : Except XpiError NibbleBuf :=
  if (c.wire.desU32 (c.wire.putU8 digit)).isSome then .ok [] else .error .nibbleBuf

theorem produced_write {digit : UInt8} {r : Reply} (hr : c.produced (.writeDigit digit) r) :
    r.results.map (·.result) = [c.writeResult digit] := by
  obtain ⟨grants, s, hr⟩ := hr
  have hk : (c.writeDigit digit).event.kind = .write [c.wire.putU8 digit] := rfl
  have cost : hintCost c.wire (c.writeDigit digit).event [1] ≤ replyNibbles := by
    rw [hintCost, hintOf, hk]
    exact Nat.le_of_ble_eq_true rfl
  obtain ⟨k, b, hb, -, hreply⟩ :=
    (mem_committed_iff c.wire _ (callOf_supported c (.writeDigit digit)) grants s r).mp hr
  change (schedule c.wire (c.writeDigit digit).event maxReplyBatches 0 s)[k]? = some b at hb
  rw [schedule_one c.wire _ rfl cost] at hb
  obtain rfl := List.mem_singleton.mp (List.mem_of_getElem? hb)
  obtain ⟨-, rfl⟩ := (Batch.reply_iff c.wire _).mp hreply
  have act : (stepAt c.wire (c.writeDigit digit).event 0 0 s [1]).act =
      .ran (some (c.wire.putU8 digit))
        ((dispatchWrite c.wire [1] (c.wire.putU8 digit) s).1.map fun _ => []) :=
    congrArg Prod.fst (answer_digit c.wire (c.writeDigit digit).event hk (c.wire.putU8 digit) s)
  simp only [Batch.entries, List.flatMap_singleton, Step.entries, act, Act.entry,
    Option.map_some, Option.toList_some, List.map_singleton, Client.writeResult, dispatchWrite]
  cases c.wire.desU32 (c.wire.putU8 digit) <;> rfl

/-- A call fails, or is a `write_digit` that returns the answer to a `write_digit`. -/
def Client.writesOnly (x : Returned) : Prop :=
  x.outcome = .failed ∨ ∃ digit sent digit', x.request.method = .writeDigit digit ∧
    x.got = some sent ∧ sent.request.method = .writeDigit digit' ∧
    x.outcome = Client.finishOne (fun _ => .unit) [c.writeResult digit']

structure ObservingInv (o : Observing) : Prop where
  produced : ∀ sent ∈ o.session.replies, c.produced sent.request.method sent.reply
  updates : o.updates = []
  values : o.values = []
  returned : ∀ x ∈ o.session.returned, c.writesOnly x

theorem writesOnly_receive {s : Session} {sent : Sent}
    (hsent : c.produced sent.request.method sent.reply)
    (hi : ∀ x ∈ s.returned, c.writesOnly x) :
    (s.receive c sent).replies = s.replies ∧ ∀ x ∈ (s.receive c sent).returned, c.writesOnly x := by
  unfold Session.receive
  split
  · exact ⟨rfl, hi⟩
  · rename_i p waits
    split
    · rename_i accepts
      refine ⟨rfl, fun x hx => ?_⟩
      rcases List.mem_append.mp hx with old | new
      · exact hi x old
      · obtain rfl := List.mem_singleton.mp new
        obtain ⟨writes, written⟩ := accepts_produced c hsent accepts
        obtain ⟨digit, hmethod⟩ := ClientMethod.isWrite_iff.mp writes
        obtain ⟨digit', hmethod'⟩ := ClientMethod.isWrite_iff.mp written
        refine Or.inr ⟨digit, sent, digit', hmethod, rfl, hmethod', ?_⟩
        rw [hmethod'] at hsent
        simp only [hmethod, Client.callOf, produced_write c hsent]
        rfl
    · exact ⟨rfl, hi⟩

theorem writesOnly_step {s s' : Session} {a : SessionAct}
    (hsent : ∀ sent ∈ s.replies, c.produced sent.request.method sent.reply)
    (hi : ∀ x ∈ s.returned, c.writesOnly x) (h : sessionStep c s a = some s') :
    (∀ sent ∈ s'.replies, c.produced sent.request.method sent.reply) ∧
      ∀ x ∈ s'.returned, c.writesOnly x := by
  cases a with
  | call method =>
    simp only [sessionStep] at h
    split at h <;> cases h
    exact ⟨hsent, hi⟩
  | deliver request grants =>
    simp only [sessionStep] at h
    split at h <;> cases h
    refine ⟨fun sent hmem => ?_, hi⟩
    rcases List.mem_append.mp hmem with old | new
    · exact hsent sent old
    · obtain ⟨r, hr, rfl⟩ := List.mem_map.mp new
      exact ⟨grants, s.shared, hr⟩
  | elsewhere shared =>
    cases h
    exact ⟨hsent, hi⟩
  | arrive k =>
    obtain ⟨sent, hk, rfl⟩ := Option.map_eq_some_iff.mp h
    obtain ⟨kept, returned⟩ := writesOnly_receive c
      (s := { s with replies := s.replies.eraseIdx k }) (hsent sent (List.mem_of_getElem? hk)) hi
    refine ⟨?_, returned⟩
    rw [kept]
    exact fun t ht => hsent t ((List.eraseIdx_sublist _ _).subset ht)
  | timeout =>
    obtain ⟨p, -, rfl⟩ := Option.map_eq_some_iff.mp h
    refine ⟨hsent, fun x hx => ?_⟩
    rcases List.mem_append.mp hx with old | new
    · exact hi x old
    · obtain rfl := List.mem_singleton.mp new
      exact Or.inl rfl

theorem observing_step {o o' : Observing} {a : ObservingAct} (hi : ObservingInv c o)
    (h : observingStep c o a = some o') : ObservingInv c o' := by
  obtain ⟨produced, updates, values, returned⟩ := hi
  cases a with
  | session a =>
    obtain ⟨s', hs, rfl⟩ := Option.map_eq_some_iff.mp h
    obtain ⟨produced', returned'⟩ := writesOnly_step c produced returned hs
    rw [overhear_produced c produced a]
    exact ⟨produced', updates, values, returned'⟩
  | observeOne =>
    cases h
    exact ⟨produced, updates, values, returned⟩
  | deliverSubscribe grants =>
    simp only [observingStep] at h
    split at h <;> cases h
    have none : (xpiDispatch c.wire grants c.observeOne o.session.shared).st.committed = [] :=
      xpiDispatch_silent c.wire _ rfl grants _
    exact ⟨produced, by rw [updates, none]; rfl, values, returned⟩
  | updateArrives k =>
    obtain ⟨r, hr, -⟩ := Option.map_eq_some_iff.mp h
    rw [updates] at hr
    cases hr

theorem client_hears {o : Observing}
    (h : Transition.Reachable (observingStep c) .init o) :
    o.values = [] ∧ ∀ x ∈ o.session.returned, c.writesOnly x := by
  have hi : ObservingInv c o := h.invariant (observingStep c)
    ⟨by simp [Observing.init, Session.init], rfl, rfl, by simp [Observing.init, Session.init]⟩
    fun _ _ _ hi _ hs => observing_step c hi hs
  exact ⟨hi.values, hi.returned⟩

end

theorem observedWrites_heard :
    ∃ o, Transition.Reachable (observingStep smallClient) .init o ∧ o.listening = true ∧
      o.session.returned.map (·.outcome) = [.unit, .remote .nibbleBuf, .failed] ∧
      o.values = [] ∧ ∀ x ∈ o.session.returned, smallClient.writesOnly x := by
  obtain ⟨o, ho, hp⟩ := Transition.exists_reachable_of_run (observingStep smallClient) .init
    [.observeOne, .deliverSubscribe (fun _ => true),
      .session (.call (.writeDigit 7)),
      .session (.deliver ⟨0, .writeDigit 7⟩ fun _ => true), .session (.arrive 0),
      .session (.call (.writeDigit 0x88)),
      .session (.deliver ⟨1, .writeDigit 0x88⟩ fun _ => true), .session (.arrive 0),
      .session (.call .readDigit),
      .session (.deliver ⟨2, .readDigit⟩ fun _ => true), .session (.arrive 0),
      .session .timeout]
    (fun o => o.listening &&
      decide (o.session.returned.map (·.outcome) = [.unit, .remote .nibbleBuf, .failed]))
    (by decide +kernel)
  simp only [Bool.and_eq_true, decide_eq_true_eq] at hp
  exact ⟨o, ho, hp.1, hp.2, client_hears smallClient ho⟩

end VhlHackathon
