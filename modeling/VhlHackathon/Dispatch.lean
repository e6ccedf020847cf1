import VhlHackathon.Handlers
set_option autoImplicit false

/-!
`xpi_dispatch`: a look-ahead iterator cuts the URIs of a request into batches, an
execute iterator runs each batch into one reply. Iterators are positions in the
URI list. Steps and iterations are logged so that runs can be spoken about.
-/

namespace VhlHackathon

def maxReplyBatchLen : Nat := 16
def maxReplyBatches : Nat := 8
def replyMtu : Nat := 64

def replyNibbles : Nat := (replyMtu - 5) * 2 - 10 - 2 - 10

inductive Act where
  | rejected (e : XpiError)
  | noArgs
  | ran (arg : Option NibbleBuf) (r : Except XpiError NibbleBuf)
  | deferred (arg : NibbleBuf) (r : Except XpiError NibbleBuf)
  deriving DecidableEq, Repr

def Act.entry : Act → Option (Except XpiError NibbleBuf)
  | .rejected e => some (.error e)
  | .noArgs => some (.error .noArgumentsProvided)
  | .ran _ r => some r
  | .deferred _ _ => none

def Act.taken : Act → Nat
  | .ran (some _) _ | .deferred _ _ => 1
  | .ran none _ | .rejected _ | .noArgs => 0

def Act.arg : Act → Option NibbleBuf
  | .ran arg _ => arg
  | .deferred arg _ => some arg
  | .rejected _ | .noArgs => none

structure Step where
  pos : Nat
  argPos : Nat
  hint : Option ReplySizeHint
  act : Act
  pre : Shared
  post : Shared
  deriving DecidableEq, Repr

/-- `owner` is the position of the URI the entry answers. It is not on the wire. -/
structure Entry where
  owner : Nat
  result : Except XpiError NibbleBuf
  deriving DecidableEq, Repr

def Step.entries (st : Step) : List Entry :=
  (st.act.entry.map (Entry.mk st.pos)).toList

abbrev Arm := Option ReplySizeHint → Uri → Option NibbleBuf → Shared → Option (Act × Shared)

/-- The match of `dispatch_call_set`. `none` is its `Err(XpiError::Internal)` arm. -/
def callArm (w : Wire) : Arm := fun hint uri arg s =>
  match hint with
  | some (.immediate _ rawSize (.ok _)) =>
    match arg with
    | some argsNrd =>
      let (r, s') := dispatchCall w uri argsNrd (rawSize.upperBound 0) s
      some (.ran (some argsNrd) r, s')
    | none => some (.noArgs, s)
  | some (.immediate _ _ (.error e)) => some (.rejected e, s)
  | some .deferred =>
    match arg with
    | some argsNrd =>
      let (r, s') := dispatchCall w uri argsNrd 0 s
      some (.deferred argsNrd r, s')
    | none => some (.noArgs, s)
  | none => none

def writeArm (w : Wire) : Arm := fun hint uri arg s =>
  match hint with
  | some (.immediate _ _ (.ok _)) =>
    match arg with
    | some valueNrd =>
      let (r, s') := dispatchWrite w uri valueNrd s
      some (.ran (some valueNrd) (r.map fun _ => []), s')
    | none => some (.noArgs, s)
  | some (.immediate _ _ (.error e)) => some (.rejected e, s)
  | some .deferred | none => none

def readArm (w : Wire) : Arm := fun hint uri _ s =>
  match hint with
  | some (.immediate _ rawSize (.ok _)) =>
    some (.ran none (dispatchRead w uri (rawSize.upperBound 0) s), s)
  | some (.immediate _ _ (.error e)) => some (.rejected e, s)
  | some .deferred | none => none

def Wire.sliceEntry (w : Wire) : Except XpiError NibbleBuf → Nat
  | .ok slice => w.okSlice slice.length
  | .error e => w.errLen e

def Wire.unitEntry (w : Wire) : Except XpiError NibbleBuf → Nat
  | .ok _ => w.okUnit
  | .error e => w.errLen e

def put (used cost : Nat) : Option Nat :=
  if used + cost ≤ 2 * replyMtu then some (used + cost) else none

inductive Status where
  | ok
  | err (e : XpiError)
  | panic
  deriving DecidableEq, Repr

structure SetState where
  pos : Nat
  argPos : Nat
  used : Nat
  entries : List Entry
  shared : Shared
  steps : List Step
  deriving DecidableEq, Repr

def SetState.log (st : SetState) (step : Step) : SetState :=
  { st with
    pos := st.pos + 1
    argPos := st.argPos + step.act.taken
    shared := step.post
    steps := st.steps ++ [step] }

def setLoop (arm : Arm) (cost : Except XpiError NibbleBuf → Nat) (uris : List Uri)
    (args : List NibbleBuf) : List (Option ReplySizeHint) → SetState → Status × SetState
  | [], st => (.ok, st)
  | hint :: rest, st =>
    match uris[st.pos]? with
    | none => (.panic, st) -- expect("")
    | some uri =>
      match arm hint uri args[st.argPos]? st.shared with
      | none => (.err .internal, st)
      | some (act, shared) =>
        let step : Step := ⟨st.pos, st.argPos, hint, act, st.shared, shared⟩
        match act.entry with
        | none => setLoop arm cost uris args rest (st.log step)
        | some r =>
          match put st.used (cost r) with
          | none => (.err .nibbleBuf, st.log step) -- the handler has run by now
          | some used =>
            setLoop arm cost uris args rest
              { st.log step with used := used, entries := st.entries ++ [⟨st.pos, r⟩] }

/-- `vb.finish()` and the tail `build_kind_with` writes after its closure. -/
def closeReply (w : Wire) : Status × SetState → Status × SetState
  | (.ok, st) =>
    match (put st.used (w.vecLen st.entries.length)).bind (put · w.tail) with
    | some used => (.ok, { st with used := used })
    | none => (.err .nibbleBuf, st)
  | r => r

def dispatchCallSet (w : Wire) (uris : List Uri) (lookahead : List (Option ReplySizeHint))
    (argsSet : List NibbleBuf) (st : SetState) : Status × SetState :=
  closeReply w (setLoop (callArm w) w.sliceEntry uris argsSet lookahead st)

def dispatchWriteSet (w : Wire) (uris : List Uri) (lookahead : List (Option ReplySizeHint))
    (values : List NibbleBuf) (st : SetState) : Status × SetState :=
  closeReply w (setLoop (writeArm w) w.unitEntry uris values lookahead st)

def dispatchReadSet (w : Wire) (uris : List Uri) (lookahead : List (Option ReplySizeHint))
    (st : SetState) : Status × SetState :=
  closeReply w (setLoop (readArm w) w.sliceEntry uris [] lookahead st)

/-- `charges` logs the operands of the budget's subtractions. -/
structure Lookahead where
  pos : Nat
  table : List (Option ReplySizeHint)
  runOut : Bool
  batchLen : Nat
  immediate : Nat
  left : Nat
  charges : List (Nat × Nat)
  deriving DecidableEq, Repr

def lookaheadLoop (w : Wire) (k : XpiEventDiscriminant) (uris : List Uri) :
    List Nat → Lookahead → Lookahead
  | [], la => la
  | idx :: rest, la =>
    match uris[la.pos]? with
    | none => { la with runOut := true }
    | some uri =>
      let hint := replySizeHint w uri k
      match hint with
      | .immediate maxSize _ _ =>
        let upperBound := maxSize.upperBound la.left
        if upperBound ≤ la.left then
          lookaheadLoop w k uris rest
            { la with
              pos := la.pos + 1
              table := la.table.set idx (some hint)
              batchLen := la.batchLen + 1
              immediate := la.immediate + 1
              left := la.left - upperBound
              charges := la.charges ++ [(la.left, upperBound)] }
        else la
      | .deferred =>
        lookaheadLoop w k uris rest
          { la with
            pos := la.pos + 1
            table := la.table.set idx (some hint)
            batchLen := la.batchLen + 1 }

def lookahead (w : Wire) (k : XpiEventDiscriminant) (uris : List Uri) (pos : Nat) : Lookahead :=
  lookaheadLoop w k uris (List.range maxReplyBatchLen)
    ⟨pos, List.replicate maxReplyBatchLen none, false, 0, 0, replyNibbles, []⟩

structure Reply where
  source : NodeId
  destination : NodeId
  requestId : Nat
  priority : Nat
  resourceSet : ResourceSet
  kind : XpiEventDiscriminant
  results : List Entry
  nibbles : Nat
  deriving DecidableEq, Repr

structure Iteration where
  look : Nat
  exec : Nat
  ahead : Lookahead
  steps : List Step
  reply : Option Reply
  deriving DecidableEq, Repr

structure DispState where
  look : Nat
  exec : Nat
  shared : Shared
  ethPended : Bool
  iterations : List Iteration
  deriving DecidableEq, Repr

def DispState.steps (st : DispState) : List Step := st.iterations.flatMap (·.steps)

def DispState.committed (st : DispState) : List Reply := st.iterations.filterMap (·.reply)

inductive Flow where
  | next
  | stop
  | fail (e : Status)
  deriving DecidableEq, Repr

/-- Header, node set and a copy of the request's resource set. -/
def startReply (w : Wire) (ev : Event) : Option Nat :=
  ((put 0 w.header).bind (put · (w.nodeSet ev.source))).bind (put · ev.resourceSet.nibbles)

def buildKind (w : Wire) (ev : Event) (hints : List (Option ReplySizeHint)) (st : SetState) :
    Option (XpiEventDiscriminant × Status × SetState) :=
  match ev.kind with
  | .call args => some (.callResults, dispatchCallSet w ev.uris hints args st)
  | .write values => some (.writeResults, dispatchWriteSet w ev.uris hints values st)
  | .read => some (.readResults, dispatchReadSet w ev.uris hints st)
  | .other => none

/-- One pass of the outer loop. `granted` is the answer of `grant_exact`. -/
def xpiIteration (w : Wire) (ev : Event) (granted : Bool) (st : DispState) : Flow × DispState :=
  let la := lookahead w ev.kind.discriminant ev.uris st.look
  let log (steps : List Step) (reply : Option Reply) : DispState :=
    { st with
      look := la.pos
      iterations := st.iterations ++ [⟨st.look, st.exec, la, steps, reply⟩] }
  let flow := if la.runOut ∨ la.batchLen = 0 then Flow.stop else Flow.next
  if la.batchLen = 0 then (flow, log [] none)
  else if granted = false then (.fail (.err .internalBbqueueError), log [] none)
  else
    match startReply w ev with
    | none => (.fail (.err .nibbleBuf), log [] none)
    | some used =>
      match buildKind w ev (la.table.take la.batchLen) ⟨st.exec, 0, used, [], st.shared, []⟩ with
      | none => (.next, log [] none)
      | some (kind, .ok, set) =>
        if la.immediate = 0 then
          (flow, { log set.steps none with exec := set.pos, shared := set.shared })
        else
          let reply : Reply := ⟨1, ev.source, ev.requestId, ev.priority, ev.resourceSet, kind,
            set.entries, set.used⟩
          (flow, { log set.steps (some reply) with
            exec := set.pos, shared := set.shared, ethPended := true })
      | some (_, e, set) =>
        (.fail e, { log set.steps none with exec := set.pos, shared := set.shared })

/-- `grants k` is the answer of `grant_exact` in pass `k`. -/
def dispatchLoop (w : Wire) (ev : Event) (grants : Nat → Bool) :
    Nat → Nat → DispState → Status × DispState
  | 0, _, st => (.ok, st)
  | n+1, k, st =>
    match xpiIteration w ev (grants k) st with
    | (.next, st') => dispatchLoop w ev grants n (k+1) st'
    | (.stop, st') => (.ok, st')
    | (.fail e, st') => (e, st')

structure Outcome where
  status : Status
  skipped : Bool
  st : DispState
  deriving DecidableEq, Repr

def xpiDispatch (w : Wire) (grants : Nat → Bool) (ev : Event) (s : Shared) : Outcome :=
  let (status, st) := dispatchLoop w ev grants maxReplyBatches 0 ⟨0, 0, s, false, []⟩
  ⟨status, status = .ok ∧ (ev.uris[st.look]?).isSome, st⟩

end VhlHackathon
