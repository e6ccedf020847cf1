import Mathlib.Data.List.Basic
set_option autoImplicit false

/-!
A bipartite byte ring with one producer and one consumer. The producer asks for a
contiguous grant and commits a prefix of it; the consumer reads one contiguous region and
releases a prefix of that. When a grant does not fit behind the last committed item, the
ring is inverted: what follows is stored from the start of the memory, in front of the
consumer, who turns to it only when everything before the inversion is consumed.
-/

namespace BipBuffer

/-- Where a grant goes: behind the front part, behind the back part of an inverted ring,
or to the start of the memory, which inverts it. -/
inductive Place where
  | front | back | wrap
  deriving DecidableEq, Repr

structure Grant where
  wraps : Bool
  size : Nat
  deriving DecidableEq, Repr

def Grant.Fits (capacity read front : Nat) (back : Option Nat) (g : Grant) : Prop :=
  match g.wraps, back with
  | true, some _ => False
  | true, none => g.size < read
  | false, some b => b + g.size < read
  | false, none => read + front + g.size ≤ capacity

/-- `front` starts at index `read`, `back` at index 0 when the ring is inverted. -/
structure Ring (α : Type*) (capacity : Nat) where
  read : Nat
  front : List α
  back : Option (List α)
  grant : Option Grant
  inside : read + front.length ≤ capacity
  behind : ∀ b, back = some b → b.length < read
  granted : ∀ g, grant = some g → g.Fits capacity read front.length (back.map List.length)

namespace Ring

variable {α : Type*} {capacity : Nat}

def empty : Ring α capacity where
  read := 0
  front := []
  back := none
  grant := none
  inside := Nat.zero_le _
  behind := by simp
  granted := by simp

def contents (r : Ring α capacity) : List α := r.front ++ r.back.getD []

def place (r : Ring α capacity) (size : Nat) : Option Place :=
  match r.back with
  | some b => if b.length + size < r.read then some .back else none
  | none =>
    if r.read + r.front.length + size ≤ capacity then some .front
    else if size < r.read then some .wrap
    else none

theorem place_fits {r : Ring α capacity} {size : Nat} {p : Place} (h : r.place size = some p) :
    Grant.Fits capacity r.read r.front.length (r.back.map List.length)
      ⟨decide (p = .wrap), size⟩ := by
  unfold place at h
  cases hb : r.back with
  | some b =>
    simp only [hb] at h
    split at h
    · cases h; simpa [Grant.Fits]
    · cases h
  | none =>
    simp only [hb] at h
    split at h
    · cases h; simpa [Grant.Fits]
    · split at h
      · cases h; simpa [Grant.Fits]
      · cases h

/-- Fails while a grant is pending, and when the size fits nowhere. -/
def grantExact (r : Ring α capacity) (size : Nat) : Option (Ring α capacity) :=
  match r.grant with
  | some _ => none
  | none =>
    match h : r.place size with
    | none => none
    | some p => some
      { r with
        grant := some ⟨decide (p = .wrap), size⟩
        granted := by rintro g ⟨⟩; exact place_fits h }

/-- Commits at most the granted size. Committing nothing is what dropping a grant does. -/
def commit (r : Ring α capacity) (items : List α) : Ring α capacity :=
  match hg : r.grant with
  | none => r
  | some g =>
    have hfits := r.granted g hg
    have hlen := List.length_take_le g.size items
    match hb : r.back with
    | some b =>
      { r with
        back := some (b ++ items.take g.size)
        grant := none
        behind := by
          rintro _ ⟨⟩
          simp only [hb, Grant.Fits, Option.map_some] at hfits
          cases hw : g.wraps <;> simp only [hw] at hfits
          rw [List.length_append]
          omega
        granted := by simp }
    | none =>
      if hw : g.wraps = true then
        { r with
          back := some (items.take g.size)
          grant := none
          behind := by
            rintro _ ⟨⟩
            simp only [hb, Grant.Fits, hw, Option.map_none] at hfits
            omega
          granted := by simp }
      else
        { r with
          front := r.front ++ items.take g.size
          grant := none
          inside := by
            simp only [hb, Grant.Fits, hw, Option.map_none] at hfits
            rw [List.length_append]
            omega
          behind := by simp [hb]
          granted := by simp }

/-- What `read` does first: turn to the back part when the front part is used up. -/
def turn (r : Ring α capacity) : Ring α capacity :=
  match hb : r.back with
  | none => r
  | some b =>
    if hf : r.front = [] then
      { read := 0
        front := b
        back := none
        grant := r.grant
        inside := by
          have h1 := r.behind b hb
          have h2 := r.inside
          omega
        behind := by simp
        granted := by
          intro g hg
          have h1 := r.granted g hg
          have h2 := r.inside
          simp only [hb, Grant.Fits, Option.map_some] at h1
          cases hw : g.wraps <;> simp only [hw] at h1
          simp only [Grant.Fits, hw, Option.map_none]
          omega }
    else r

def release (r : Ring α capacity) (n : Nat) : Ring α capacity :=
  { r with
    read := r.read + min n r.front.length
    front := r.front.drop n
    inside := by
      have h := r.inside
      rw [List.length_drop]
      omega
    behind := fun b hb => by
      have h := r.behind b hb
      omega
    granted := by
      intro g hg
      have h := r.granted g hg
      unfold Grant.Fits at h ⊢
      rw [List.length_drop]
      cases hw : g.wraps <;> cases hb : r.back <;> simp only [hw, hb, Option.map_none,
        Option.map_some] at h ⊢ <;> omega }

theorem grantExact_eq_some {r r' : Ring α capacity} {size : Nat}
    (h : r.grantExact size = some r') :
    ∃ p, r.grant = none ∧ r.place size = some p ∧ r'.grant = some ⟨decide (p = .wrap), size⟩ ∧
      r'.read = r.read ∧ r'.front = r.front ∧ r'.back = r.back := by
  unfold grantExact at h
  split at h
  · cases h
  · rename_i hg
    split at h
    · cases h
    · rename_i p hp
      cases h
      exact ⟨p, hg, hp, rfl, rfl, rfl, rfl⟩

theorem grantExact_of_place {r : Ring α capacity} {size : Nat} {p : Place} (hg : r.grant = none)
    (hp : r.place size = some p) : ∃ r', r.grantExact size = some r' := by
  unfold grantExact
  split
  · rename_i g hsome
    rw [hg] at hsome; cases hsome
  · split
    · rename_i hnone
      rw [hp] at hnone; cases hnone
    · exact ⟨_, rfl⟩

theorem contents_grantExact {r r' : Ring α capacity} {size : Nat}
    (h : r.grantExact size = some r') : r'.contents = r.contents := by
  obtain ⟨p, -, -, -, -, hf, hb⟩ := grantExact_eq_some h
  simp [contents, hf, hb]

theorem commit_spec {r : Ring α capacity} {g : Grant} (hg : r.grant = some g) (items : List α) :
    (r.commit items).grant = none ∧ (r.commit items).read = r.read ∧
      (r.back = none → g.wraps = false →
        (r.commit items).front = r.front ++ items.take g.size ∧ (r.commit items).back = none) ∧
      (r.back = none → g.wraps = true → (r.commit items).front = r.front ∧
        (r.commit items).back = some (items.take g.size)) ∧
      ∀ b, r.back = some b → (r.commit items).front = r.front ∧
        (r.commit items).back = some (b ++ items.take g.size) := by
  unfold commit
  split
  · rename_i hn
    rw [hn] at hg; cases hg
  rename_i g' hg'
  obtain rfl : g = g' := by rw [hg] at hg'; exact Option.some.inj hg'
  split
  · rename_i b hb
    refine ⟨rfl, rfl, fun h => ?_, fun h => ?_, fun c hc => ?_⟩
    · rw [hb] at h; cases h
    · rw [hb] at h; cases h
    · rw [hb] at hc; cases hc; exact ⟨rfl, rfl⟩
  · rename_i hb
    split
    · rename_i hw
      refine ⟨rfl, rfl, fun _ h => ?_, fun _ _ => ⟨rfl, rfl⟩, fun c hc => ?_⟩
      · rw [hw] at h; cases h
      · rw [hb] at hc; cases hc
    · rename_i hw
      refine ⟨rfl, rfl, fun _ _ => ⟨rfl, hb⟩, fun _ h => absurd h hw, fun c hc => ?_⟩
      rw [hb] at hc; cases hc

theorem contents_commit {r : Ring α capacity} {g : Grant} (hg : r.grant = some g)
    (items : List α) : (r.commit items).contents = r.contents ++ items.take g.size := by
  obtain ⟨-, -, hfront, hwrap, hback⟩ := commit_spec hg items
  unfold contents
  cases hb : r.back with
  | some b =>
    obtain ⟨h1, h2⟩ := hback b hb
    simp [h1, h2]
  | none =>
    cases hw : g.wraps with
    | true =>
      obtain ⟨h1, h2⟩ := hwrap hb hw
      simp [h1, h2]
    | false =>
      obtain ⟨h1, h2⟩ := hfront hb hw
      simp [h1, h2]

def Appended (p : Place) (r : Ring α capacity) (items : List α) (r' : Ring α capacity) : Prop :=
  match p with
  | .front => r.back = none ∧ r'.front = r.front ++ items ∧ r'.back = none
  | .back => ∃ b, r.back = some b ∧ r'.front = r.front ∧ r'.back = some (b ++ items)
  | .wrap => r.back = none ∧ r'.front = r.front ∧ r'.back = some items

theorem append_spec {r r' : Ring α capacity} {size : Nat} (h : r.grantExact size = some r')
    {items : List α} (hle : items.length ≤ size) :
    ∃ p, r.place size = some p ∧ Appended p r items (r'.commit items) := by
  obtain ⟨p, -, hp, hg, -, hfront, hback⟩ := grantExact_eq_some h
  obtain ⟨-, -, h3, h4, h5⟩ := commit_spec hg items
  rw [List.take_of_length_le hle, hfront, hback] at *
  refine ⟨p, hp, ?_⟩
  unfold place at hp
  cases hb : r.back with
  | some b =>
    simp only [hb] at hp
    split at hp
    · cases hp; exact ⟨b, hb, h5 b hb⟩
    · cases hp
  | none =>
    simp only [hb] at hp
    split at hp
    · cases hp; exact ⟨hb, h3 hb rfl⟩
    · split at hp
      · cases hp; exact ⟨hb, h4 hb rfl⟩
      · cases hp

theorem mem_contents_commit {r : Ring α capacity} {items : List α} {x : α}
    (h : x ∈ (r.commit items).contents) : x ∈ r.contents ∨ x ∈ items := by
  cases hg : r.grant with
  | none =>
    unfold commit at h
    split at h
    · exact Or.inl h
    · rename_i hg'
      rw [hg] at hg'; cases hg'
  | some g =>
    rw [contents_commit hg, List.mem_append] at h
    exact h.imp_right fun hx => List.mem_of_mem_take hx

theorem turn_spec (r : Ring α capacity) :
    (r.turn = r ∧ (r.front ≠ [] ∨ r.back = none)) ∨
      ∃ b, r.front = [] ∧ r.back = some b ∧ r.turn.read = 0 ∧ r.turn.front = b ∧
        r.turn.back = none ∧ r.turn.grant = r.grant := by
  unfold turn
  split
  · rename_i hb
    exact Or.inl ⟨rfl, Or.inr hb⟩
  · rename_i b hb
    split
    · rename_i hf
      exact Or.inr ⟨b, hf, hb, rfl, rfl, rfl, rfl⟩
    · rename_i hf
      exact Or.inl ⟨rfl, Or.inl hf⟩

theorem contents_turn (r : Ring α capacity) : r.turn.contents = r.contents := by
  rcases turn_spec r with ⟨h, -⟩ | ⟨b, hf, hb, -, hf', hb', -⟩
  · rw [h]
  · simp [contents, hf, hb, hf', hb']

theorem grant_turn (r : Ring α capacity) : r.turn.grant = r.grant := by
  rcases turn_spec r with ⟨h, -⟩ | ⟨b, -, -, -, -, -, hg⟩
  · rw [h]
  · exact hg

theorem turn_front_eq_nil_iff (r : Ring α capacity) : r.turn.front = [] ↔ r.contents = [] := by
  rcases turn_spec r with ⟨h, hne | hb⟩ | ⟨b, hf, hb, -, hf', -, -⟩
  · simp [h, contents, hne]
  · simp [h, contents, hb]
  · simp [hf', contents, hf, hb]

theorem take_append_contents_release (r : Ring α capacity) (n : Nat) :
    r.front.take n ++ (r.release n).contents = r.contents := by
  simp [release, contents, ← List.append_assoc]

/-- An inversion, done or granted, was asked for because a grant of at most `size` did not
fit behind the front part. -/
def Tight (r : Ring α capacity) (size : Nat) : Prop :=
  r.back.isSome = true ∨ (∃ g, r.grant = some g ∧ g.wraps = true) →
    capacity < r.read + r.front.length + size

theorem tight_empty (size : Nat) : (empty : Ring α capacity).Tight size := by
  simp [Tight, empty]

theorem Tight.grantExact {r r' : Ring α capacity} {size n : Nat} (h : r.Tight size)
    (hle : n ≤ size) (hr : r.grantExact n = some r') : r'.Tight size := by
  obtain ⟨p, -, hp, hg, hread, hfront, hback⟩ := grantExact_eq_some hr
  intro hinv
  rw [hread, hfront]
  rw [hback, hg] at hinv
  rcases hinv with hinv | ⟨g, hg', hw⟩
  · exact h (Or.inl hinv)
  · cases hg'
    obtain rfl : p = .wrap := of_decide_eq_true hw
    -- the place is the start of the memory only when the grant does not fit behind the front
    unfold place at hp
    split at hp
    · split at hp <;> cases hp
    · split at hp
      · cases hp
      · omega

theorem Tight.commit {r : Ring α capacity} {size : Nat} (h : r.Tight size) (items : List α) :
    (r.commit items).Tight size := by
  cases hg : r.grant with
  | none =>
    have hsame : r.commit items = r := by
      unfold Ring.commit
      split
      · rfl
      · rename_i g hg'
        rw [hg] at hg'; cases hg'
    rw [hsame]
    exact h
  | some g =>
    obtain ⟨hgrant, hread, hfront, hwrap, hback⟩ := commit_spec hg items
    unfold Tight
    rw [hread, hgrant]
    rintro (hinv | ⟨g', hg', -⟩)
    · cases hb : r.back with
      | some b =>
        rw [(hback b hb).1]
        exact h (Or.inl (by rw [hb]; rfl))
      | none =>
        cases hw : g.wraps with
        | true =>
          rw [(hwrap hb hw).1]
          exact h (Or.inr ⟨g, hg, hw⟩)
        | false =>
          rw [(hfront hb hw).2] at hinv
          cases hinv
    · cases hg'

theorem Tight.turn {r : Ring α capacity} {size : Nat} (h : r.Tight size) : r.turn.Tight size := by
  rcases turn_spec r with ⟨hsame, -⟩ | ⟨b, -, hb, -, -, hb', hg⟩
  · rw [hsame]; exact h
  · rintro (hinv | ⟨g, hg', hw⟩)
    · rw [hb'] at hinv
      cases hinv
    · -- a ring that is inverted has no grant pending that inverts it
      rw [hg] at hg'
      have hfits := r.granted g hg'
      simp [hb, Grant.Fits, hw] at hfits

theorem Tight.release {r : Ring α capacity} {size : Nat} (h : r.Tight size) (n : Nat) :
    (r.release n).Tight size := by
  intro hinv
  have hcap := h hinv
  simp only [Ring.release, List.length_drop]
  omega

/-- Inversions waste less than two grants: as long as the rest of the memory holds two of
the largest there are, a grant is given. -/
theorem Tight.granted {r : Ring α capacity} {size n : Nat} (h : r.Tight size)
    (hfree : r.grant = none) (hle : n ≤ size)
    (room : r.contents.length + 2 * size ≤ capacity) : ∃ r', r.grantExact n = some r' := by
  suffices hp : ∃ p, r.place n = some p by
    obtain ⟨p, hp⟩ := hp
    exact grantExact_of_place hfree hp
  unfold contents at room
  rw [List.length_append] at room
  unfold place
  cases hb : r.back with
  | some b =>
    have hcap := h (Or.inl (by rw [hb]; rfl))
    rw [hb, Option.getD_some] at room
    exact ⟨.back, if_pos (by omega)⟩
  | none =>
    by_cases hfront : r.read + r.front.length + n ≤ capacity
    · exact ⟨.front, if_pos hfront⟩
    · refine ⟨.wrap, ?_⟩
      simp only [hfront, if_false]
      exact if_pos (by omega)

end Ring

end BipBuffer
