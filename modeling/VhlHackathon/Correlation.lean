import VhlHackathon.Client
import VhlHackathon.Transition
set_option autoImplicit false

/-!
One client's calls, one after another, over a link that delays what it carries: which
reply each call returns with.
-/

namespace VhlHackathon

inductive ClientMethod where
  | writeDigit (digit : UInt8)
  | readDigit
  | callSync (p1 p2 : Point)
  | call1Unit (uri : Uri)
  | callManyUnit (multiUri : ResourceSet)
  deriving DecidableEq, Repr

def ClientMethod.isWrite : ClientMethod → Bool
  | .writeDigit _ => true
  | _ => false

def Client.callOf (c : Client) : ClientMethod → ClientCall
  | .writeDigit digit => c.writeDigit digit
  | .readDigit => c.readDigit
  | .callSync p1 p2 => c.callSync p1 p2
  | .call1Unit uri => c.call1Unit uri
  | .callManyUnit multiUri => c.callManyUnit multiUri

/-- A call under way. The number tells calls apart and is not on the wire. -/
structure Pending where
  number : Nat
  method : ClientMethod
  deriving DecidableEq, Repr

/-- A reply and the request the firmware produced it for. -/
structure Sent where
  request : Pending
  reply : Reply
  deriving DecidableEq, Repr

structure Returned where
  request : Pending
  got : Option Sent
  outcome : CallOutcome
  deriving DecidableEq, Repr

structure Session where
  shared : Shared
  made : Nat
  waiting : Option Pending
  requests : List Pending
  replies : List Sent
  returned : List Returned
  deriving DecidableEq, Repr

def Session.init : Session := ⟨.init, 0, none, [], [], []⟩

/-- `elsewhere` is whatever the tasks and other requests make of the shared resources. -/
inductive SessionAct where
  | call (method : ClientMethod)
  | deliver (request : Pending) (grants : Nat → Bool)
  | elsewhere (shared : Shared)
  | arrive (k : Nat)
  | timeout

/-- `filter_one` on an event that has come in. It is dropped when nobody waits for it. -/
def Session.receive (c : Client) (s : Session) (sent : Sent) : Session :=
  match s.waiting with
  | none => s
  | some p =>
    if (c.callOf p.method).filter.accepts sent.reply then
      { s with
        waiting := none
        returned := s.returned ++ [⟨p, some sent,
          (c.callOf p.method).finish (sent.reply.results.map (·.result))⟩] }
    else s

def sessionStep (c : Client) (s : Session) : SessionAct → Option Session
  | .call method =>
    if s.waiting = none then
      some { s with
        made := s.made + 1
        waiting := some ⟨s.made, method⟩
        requests := s.requests ++ [⟨s.made, method⟩] }
    else none
  | .deliver request grants =>
    if request ∈ s.requests then
      let st := (xpiDispatch c.wire grants (c.callOf request.method).event s.shared).st
      some { s with
        shared := st.shared
        requests := s.requests.erase request
        replies := s.replies ++ st.committed.map (Sent.mk request) }
    else none
  | .elsewhere shared => some { s with shared := shared }
  | .arrive k =>
    s.replies[k]?.map fun sent => { s with replies := s.replies.eraseIdx k }.receive c sent
  | .timeout =>
    s.waiting.map fun p =>
      { s with waiting := none, returned := s.returned ++ [⟨p, none, .failed⟩] }

section
variable (c : Client)

def Client.produced (method : ClientMethod) (r : Reply) : Prop :=
  ∃ grants s, r ∈ (xpiDispatch c.wire grants (c.callOf method).event s).st.committed

def Client.ownReply (x : Returned) : Prop :=
  x.outcome ≠ .failed → ∃ r, x.got = some ⟨x.request, r⟩ ∧ c.produced x.request.method r ∧
    x.outcome = (c.callOf x.request.method).finish (r.results.map (·.result))

def timely (s : Session) : SessionAct → Bool
  | .arrive k => s.replies[k]?.all fun sent => s.waiting.all fun p =>
      !(p.method.isWrite && sent.request.method.isWrite) || sent.request == p
  | _ => true

theorem callOf_supported (method : ClientMethod) : (c.callOf method).event.kind ≠ .other := by
  cases method <;> exact EventKind.noConfusion

/-- A filter lets through what the firmware sends only where both are about a
`write_digit`: the other methods wait for a source that is not the firmware's. -/
theorem accepts_produced {method requested : ClientMethod} {r : Reply}
    (hr : c.produced requested r) (ha : (c.callOf method).filter.accepts r = true) :
    method.isWrite = true ∧ requested.isWrite = true := by
  obtain ⟨grants, s, hr⟩ := hr
  obtain ⟨_, b, -, -, hbr⟩ :=
    (mem_committed_iff c.wire _ (callOf_supported c requested) grants s r).mp hr
  obtain ⟨-, rfl⟩ := (Batch.reply_iff c.wire _).mp hbr
  simp only [EventFilter.accepts, Bool.and_eq_true, beq_iff_eq] at ha
  obtain ⟨⟨⟨hsrc, -⟩, hkind⟩, -⟩ := ha
  have hwrite : method.isWrite = true := by
    cases method with
    | writeDigit digit => rfl
    | readDigit => cases hsrc
    | callSync p1 p2 => cases hsrc
    | call1Unit uri => cases hsrc
    | callManyUnit multiUri => cases hsrc
  refine ⟨hwrite, ?_⟩
  cases method with
  | writeDigit digit =>
    cases requested with
    | writeDigit d => rfl
    | readDigit => cases hkind
    | callSync p1 p2 => cases hkind
    | call1Unit uri => cases hkind
    | callManyUnit multiUri => cases hkind
  | _ => cases hwrite

structure SessionInv (s : Session) : Prop where
  replies : ∀ sent ∈ s.replies, c.produced sent.request.method sent.reply
  returned : ∀ x ∈ s.returned, c.ownReply x

theorem SessionInv.receive {s : Session} {sent : Sent} (hi : SessionInv c s)
    (hsent : c.produced sent.request.method sent.reply)
    (hown : ∀ p ∈ s.waiting, p.method.isWrite = true → sent.request.method.isWrite = true →
      sent.request = p) : SessionInv c (s.receive c sent) := by
  unfold Session.receive
  split
  · exact hi
  · rename_i p hp
    split
    · rename_i ha
      refine ⟨hi.replies, fun x hx => ?_⟩
      rcases List.mem_append.mp hx with hx | hx
      · exact hi.returned x hx
      · obtain rfl := List.mem_singleton.mp hx
        intro _
        -- the filter let the reply through, so both calls are writes, and timing makes them one
        obtain ⟨h1, h2⟩ := accepts_produced c hsent ha
        obtain rfl := hown p hp h1 h2
        exact ⟨sent.reply, rfl, hsent, rfl⟩
    · exact hi

theorem sessionInv_step {s s' : Session} {a : SessionAct} (hi : SessionInv c s)
    (hok : timely s a = true) (h : sessionStep c s a = some s') : SessionInv c s' := by
  cases a with
  | call method =>
    simp only [sessionStep] at h
    split at h <;> cases h
    exact ⟨hi.replies, hi.returned⟩
  | deliver request grants =>
    simp only [sessionStep] at h
    split at h <;> cases h
    refine ⟨fun sent hsent => ?_, hi.returned⟩
    rcases List.mem_append.mp hsent with hsent | hsent
    · exact hi.replies sent hsent
    · obtain ⟨r, hr, rfl⟩ := List.mem_map.mp hsent
      exact ⟨grants, s.shared, hr⟩
  | elsewhere shared =>
    cases h
    exact ⟨hi.replies, hi.returned⟩
  | arrive k =>
    obtain ⟨sent, hk, rfl⟩ := Option.map_eq_some_iff.mp h
    have hrest : SessionInv c { s with replies := s.replies.eraseIdx k } :=
      ⟨fun t ht => hi.replies t ((List.eraseIdx_sublist _ _).subset ht), hi.returned⟩
    refine hrest.receive c (hi.replies sent (List.mem_of_getElem? hk)) fun p hp h1 h2 => ?_
    change s.waiting = some p at hp
    simpa [timely, hk, hp, h1, h2] using hok
  | timeout =>
    obtain ⟨p, -, rfl⟩ := Option.map_eq_some_iff.mp h
    refine ⟨hi.replies, fun x hx => ?_⟩
    rcases List.mem_append.mp hx with hx | hx
    · exact hi.returned x hx
    · obtain rfl := List.mem_singleton.mp hx
      exact fun hne => absurd rfl hne

theorem returns_own_reply {s : Session}
    (h : Transition.ReachableBy (sessionStep c) (fun s a => timely s a = true) .init s) :
    ∀ x ∈ s.returned, c.ownReply x := by
  have hi : SessionInv c s := h.invariant (sessionStep c)
    ⟨by simp [Session.init], by simp [Session.init]⟩
    fun _ _ _ hi hok hs => sessionInv_step c hi hok hs
  exact hi.returned

end

theorem lateReply_returned :
    ∃ s, Transition.Reachable (sessionStep smallClient) .init s ∧
      ∃ x ∈ s.returned, x.outcome = .unit ∧ x.request = ⟨1, .writeDigit 2⟩ ∧
        ¬ smallClient.ownReply x := by
  obtain ⟨s, hs, hp⟩ := Transition.exists_reachable_of_run (sessionStep smallClient) .init
    [.call (.writeDigit 1), .deliver ⟨0, .writeDigit 1⟩ (fun _ => true), .timeout,
      .call (.writeDigit 2), .arrive 0]
    (fun s => s.returned.any fun x => decide (x.outcome = .unit) &&
      decide (x.request = ⟨1, .writeDigit 2⟩) &&
        decide (x.got.map (·.request) = some ⟨0, .writeDigit 1⟩))
    (by decide +kernel)
  obtain ⟨x, hx, hp⟩ := List.any_eq_true.mp hp
  simp only [Bool.and_eq_true, decide_eq_true_eq] at hp
  obtain ⟨⟨hout, hreq⟩, hgot⟩ := hp
  refine ⟨s, hs, x, hx, hout, hreq, fun hown => ?_⟩
  obtain ⟨r, hr, -, -⟩ := hown (by simp [hout])
  simp [hr, hreq] at hgot

theorem promptReply_returned :
    ∃ s, Transition.Reachable (sessionStep smallClient) .init s ∧
      s.returned.map (·.outcome) = [.unit] ∧ ∀ x ∈ s.returned, smallClient.ownReply x := by
  obtain ⟨s, hs, hp⟩ := Transition.exists_reachableBy_of_run (sessionStep smallClient) timely .init
    [.call (.writeDigit 1), .deliver ⟨0, .writeDigit 1⟩ (fun _ => true), .arrive 0]
    (fun s => decide (s.returned.map (·.outcome) = [.unit])) (by decide +kernel)
  exact ⟨s, hs.mono (sessionStep smallClient) fun _ _ _ => trivial, of_decide_eq_true hp,
    returns_own_reply smallClient hs⟩

end VhlHackathon
