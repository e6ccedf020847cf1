import VhlHackathon.Answers
import VhlHackathon.System
import VhlHackathon.Overlay
set_option autoImplicit false

/-!
The digit as a register: what the display shows, unless its task is queued, and what every
read returns is the last write that was executed, in whatever order requests, tasks and
network events came.
-/

namespace VhlHackathon

def digitAfter (writes : List DigitWrite) : UInt8 :=
  ((lastOk writes).map (·.toUInt8)).getD 0

section
variable (pf : Platform)

/-- The display is up to date or its task is queued; the digit is the last one written, and
nobody ever asked for set_digit. -/
structure Drawn (t : Server) : Prop where
  digit : t.node.shared.digit = digitAfter t.node.writes
  shown : t.node.shared.displayTask = none → t.shown = some (digitChar t.node.shared.digit)
  idle : t.node.shared.setDigit = none

theorem drawn_ran (w : Wire) (ev : Event) {t : Server} (hi : Drawn t) (grants : Nat → Bool)
    (requests replies : List (List UInt8)) :
    Drawn ⟨t.node.ran w grants ev, t.shown, requests, replies⟩ := by
  obtain ⟨hdigit, hshown, hidle⟩ := hi
  obtain ⟨hset, hstored, -⟩ := run_digit w ev grants t.node.shared
  refine ⟨?_, fun free => ?_, hset.trans hidle⟩
  · change (xpiDispatch w grants ev t.node.shared).st.shared.digit = digitAfter (_ ++ _)
    rw [hstored, digitAfter, lastOk_append]
    cases lastOk (digitWrites w ev.kind (xpiDispatch w grants ev t.node.shared).st.steps) with
    | none => exact hdigit
    | some n => rfl
  · obtain ⟨hbefore, hsame⟩ := run_draws w ev grants t.node.shared free
    change t.shown = some (digitChar (xpiDispatch w grants ev t.node.shared).st.shared.digit)
    rw [hsame]
    exact hshown hbefore

theorem drawn_step {t t' : Server} {a : ServerAct} (hi : Drawn t)
    (h : serverStep pf t a = some t') : Drawn t' := by
  cases a with
  | serve payload n =>
    cases h
    unfold Server.serve
    split
    · exact ⟨hi.digit, hi.shown, hi.idle⟩
    · exact drawn_ran pf.wire _ hi _ _ _
  | task task =>
    obtain ⟨node, hnode, rfl⟩ := Option.map_eq_some_iff.mp h
    obtain ⟨hdigit, hshown, hidle⟩ := hi
    cases task with
    | setDigit =>
      cases nodeStep_cases hnode with
      | setDigit asked =>
        rw [hidle] at asked
        cases asked
    | asyncTask =>
      cases nodeStep_cases hnode with
      | asyncTask => exact ⟨hdigit, hshown, hidle⟩
    | displayTask drawn =>
      cases nodeStep_cases hnode with
      | displayTask => exact ⟨hdigit, fun _ => rfl, hidle⟩

theorem reachable_drawn {t : Server} (h : Transition.Reachable (serverStep pf) .init t) :
    Drawn t :=
  h.invariant (serverStep pf) ⟨rfl, fun free => (by cases free), rfl⟩
    fun _ _ _ hi _ hs => drawn_step pf hi hs

/-- Whatever the tasks and the network interleave: while display_task is not queued, the
display shows the character of the last digit written by the requests taken so far. -/
theorem display_shows_last_write {s : SystemState}
    (h : Transition.Reachable (systemStep pf) .init s) (drawn : s.shared.displayTask = none) :
    ∃ t, Transition.Reachable (serverStep pf) .init t ∧ Matches s t ∧
      s.shown = some (digitChar (digitAfter t.node.writes)) := by
  obtain ⟨t, reached, same⟩ := reachable_server pf h
  obtain ⟨hdigit, hshown, -⟩ := reachable_drawn pf reached
  rw [same.shared] at drawn
  exact ⟨t, reached, same, by rw [same.shown, hshown drawn, hdigit]⟩

theorem reads_last_write {s : SystemState} (h : Transition.Reachable (systemStep pf) .init s)
    {ev : Event} (hk : ev.kind = .read) {grants : Nat → Bool} {r : Reply} {e : Entry}
    (hr : r ∈ (xpiDispatch pf.wire grants ev s.shared).st.committed) (he : e ∈ r.results)
    (uri : ev.uris[e.owner]? = some [1]) :
    ∃ t, Transition.Reachable (serverStep pf) .init t ∧ Matches s t ∧
      e.result = .ok (pf.wire.putU8 (digitAfter t.node.writes)) := by
  obtain ⟨t, reached, same⟩ := reachable_server pf h
  refine ⟨t, reached, same, ?_⟩
  rw [read_results pf.wire ev hk hr he uri, same.shared, (reachable_drawn pf reached).digit]
  rfl

end

def Platform.writer : Platform := { Platform.reader with decode := fun _ => some oneWrite }

theorem seven_shown :
    ∃ s, Transition.Reachable (systemStep .writer) .init s ∧ s.shown = some '7' ∧
      ∃ t, Transition.Reachable (serverStep .writer) .init t ∧ Matches s t ∧
        t.requests = [[1]] ∧ s.shown = some (digitChar (digitAfter t.node.writes)) := by
  obtain ⟨s, hs, hp⟩ := Transition.exists_reachable_of_run (systemStep .writer) .init
    ((connect peer :: receive [1] :: [.linkStart, .linkRead NodeState.init.shared, .replyGrant,
      .replyCommit, .linkFinish]).map .bridge ++ [.task (.displayTask true)])
    (fun s => decide (s.shown = some '7') && (decide (s.shared.displayTask = none) &&
      decide (s.bridge.log.handed = [[1]])))
    (by decide +kernel)
  simp only [Bool.and_eq_true, decide_eq_true_eq] at hp
  obtain ⟨hshown, hdrawn, hhanded⟩ := hp
  obtain ⟨t, reached, same, shows⟩ := display_shows_last_write .writer hs hdrawn
  exact ⟨s, hs, hshown, t, reached, same, same.requests.symm.trans hhanded, shows⟩

def oneRead : Event := ⟨3, 3, 0, ⟨[[1]], 3⟩, .read⟩

theorem seven_read :
    ∃ s, Transition.Reachable (systemStep .writer) .init s ∧
      ∃ r ∈ (xpiDispatch .small (fun _ => true) oneRead s.shared).st.committed,
        ∃ e ∈ r.results, e.result = .ok (putU8 7) ∧
          ∃ t, Transition.Reachable (serverStep .writer) .init t ∧ Matches s t ∧
            e.result = .ok (putU8 (digitAfter t.node.writes)) := by
  obtain ⟨s, hs, hp⟩ := Transition.exists_reachable_of_run (systemStep .writer) .init
    ([connect peer, receive [1], .linkStart, .linkRead NodeState.init.shared, .replyGrant,
      .replyCommit].map .bridge)
    (fun s => (xpiDispatch .small (fun _ => true) oneRead s.shared).st.committed.any fun r =>
      r.results.any fun e => decide (e = ⟨0, .ok (putU8 7)⟩))
    (by decide +kernel)
  obtain ⟨r, hr, found⟩ := List.any_eq_true.mp hp
  obtain ⟨e, he, same⟩ := List.any_eq_true.mp found
  obtain rfl := of_decide_eq_true same
  exact ⟨s, hs, r, hr, _, he, rfl, reads_last_write .writer hs rfl hr he rfl⟩

end VhlHackathon
