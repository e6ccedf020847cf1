import Mathlib.Data.List.Basic
import VhlHackathon.Transition
set_option autoImplicit false

/-!
The text buffer of the display task. What it stands for is a `Line`: a text that never
outgrows its capacity.
-/

namespace VhlHackathon

def utf8 (s : String) : List UInt8 := s.toByteArray.data.toList

@[simp] theorem utf8_empty : utf8 "" = [] := rfl

@[simp] theorem utf8_append (s t : String) : utf8 (s ++ t) = utf8 s ++ utf8 t := by
  simp [utf8, String.toByteArray_append]

@[simp] theorem length_utf8 (s : String) : (utf8 s).length = s.utf8ByteSize := rfl

theorem utf8_join (parts : List String) : utf8 (String.join parts) = parts.flatMap utf8 := by
  induction parts with
  | nil => rfl
  | cons s parts ih => rw [String.join_cons, utf8_append, ih, List.flatMap_cons]

theorem utf8_valid (s : String) : ByteArray.IsValidUTF8 ⟨(utf8 s).toArray⟩ := s.isValidUTF8

structure StrWriter where
  buf : List UInt8
  pos : Nat
  deriving DecidableEq, Repr

def StrWriter.new (buf : List UInt8) : StrWriter := ⟨buf, 0⟩

/-- The bytes taken for a string unchecked; `none` where the slice is out of range. -/
def StrWriter.asStr (w : StrWriter) : Option (List UInt8) :=
  if w.pos ≤ w.buf.length then some (w.buf.take w.pos) else none

def StrWriter.clear (w : StrWriter) : StrWriter := { w with pos := 0 }

/-- Whether the string was accepted, and the writer afterwards; `none` where the
subtraction underflows or the slice is out of range. -/
def StrWriter.writeStr (w : StrWriter) (s : String) : Option (Bool × StrWriter) :=
  let s := utf8 s
  if w.buf.length < w.pos then none
  else if w.buf.length - w.pos < s.length then some (false, w)
  else if w.buf.length < w.pos + s.length then none
  else some (true, {
    buf := w.buf.take w.pos ++ s ++ w.buf.drop (w.pos + s.length)
    pos := w.pos + s.length })

/-- `write!`: the parts in order, up to the first one refused. -/
def writeParts {σ : Type} (writeStr : σ → String → Option (Bool × σ)) :
    σ → List String → Option (Bool × σ)
  | w, [] => some (true, w)
  | w, s :: parts =>
    match writeStr w s with
    | some (true, w') => writeParts writeStr w' parts
    | stopped => stopped

structure Line (capacity : Nat) where
  text : String
  fits : text.utf8ByteSize ≤ capacity

namespace Line

variable {capacity : Nat}

def empty : Line capacity := ⟨"", Nat.zero_le _⟩

def push (line : Line capacity) (s : String) : Bool × Line capacity :=
  if h : (line.text ++ s).utf8ByteSize ≤ capacity then (true, ⟨line.text ++ s, h⟩)
  else (false, line)

theorem push_text (line : Line capacity) (s : String) :
    (line.push s).2.text = if (line.push s).1 then line.text ++ s else line.text := by
  unfold push
  split <;> rfl

end Line

structure StrWriter.Shows {capacity : Nat} (w : StrWriter) (line : Line capacity) : Prop where
  length : w.buf.length = capacity
  pos : w.pos = line.text.utf8ByteSize
  visible : w.buf.take w.pos = utf8 line.text

namespace StrWriter.Shows

variable {capacity : Nat} {w : StrWriter} {line : Line capacity}

theorem start (buf : List UInt8) : (StrWriter.new buf).Shows (Line.empty : Line buf.length) :=
  ⟨rfl, rfl, rfl⟩

theorem clear (h : w.Shows line) : w.clear.Shows (Line.empty : Line capacity) :=
  ⟨h.length, rfl, rfl⟩

theorem pos_le (h : w.Shows line) : w.pos ≤ capacity := by
  rw [h.pos]
  exact line.fits

theorem asStr (h : w.Shows line) : w.asStr = some (utf8 line.text) := by
  have inside : w.pos ≤ w.buf.length := by
    rw [h.length]
    exact h.pos_le
  rw [StrWriter.asStr, if_pos inside, h.visible]

/-- The writer accepts exactly what the line takes, and a refusal changes nothing. -/
theorem writeStr (h : w.Shows line) (s : String) :
    ∃ w', w.writeStr s = some ((line.push s).1, w') ∧ w'.Shows (line.push s).2
      ∧ ((line.push s).1 = false → w' = w) := by
  have inside : w.pos ≤ w.buf.length := by
    rw [h.length]
    exact h.pos_le
  have size : (line.text ++ s).utf8ByteSize = w.pos + (utf8 s).length := by
    rw [String.utf8ByteSize_append, h.pos, length_utf8]
  unfold Line.push
  split
  · rename_i room
    rw [size, ← h.length] at room
    have enough : ¬ w.buf.length - w.pos < (utf8 s).length := by omega
    have front : (w.buf.take w.pos ++ utf8 s).length = w.pos + (utf8 s).length := by
      rw [List.length_append, List.length_take, Nat.min_eq_left inside]
    refine ⟨⟨w.buf.take w.pos ++ utf8 s ++ w.buf.drop (w.pos + (utf8 s).length),
      w.pos + (utf8 s).length⟩, ?_, ⟨?_, ?_, ?_⟩, nofun⟩
    · simp only [StrWriter.writeStr, Nat.not_lt.mpr inside, enough, Nat.not_lt.mpr room, if_false]
    · rw [List.length_append, front, List.length_drop, ← h.length]
      omega
    · exact size.symm
    · rw [List.take_left' front, h.visible, utf8_append]
  · rename_i full
    rw [size, ← h.length] at full
    have less : w.buf.length - w.pos < (utf8 s).length := by omega
    refine ⟨w, ?_, h, fun _ => rfl⟩
    simp only [StrWriter.writeStr, Nat.not_lt.mpr inside, less, if_false, if_true]

end StrWriter.Shows

/-- `accepted` are the strings taken since the last `clear`. The firmware does not store them. -/
structure WriterLog where
  writer : StrWriter
  accepted : List String
  deriving DecidableEq, Repr

inductive WriterAct where
  | clear
  | writeStr (s : String)
  | writeFmt (parts : List String)

namespace WriterLog

def start (buf : List UInt8) : WriterLog := ⟨.new buf, []⟩

def writeStr (l : WriterLog) (s : String) : Option (Bool × WriterLog) :=
  (l.writer.writeStr s).map fun r => (r.1, ⟨r.2, if r.1 then l.accepted ++ [s] else l.accepted⟩)

def step (l : WriterLog) : WriterAct → Option WriterLog
  | .clear => some ⟨l.writer.clear, []⟩
  | .writeStr s => (l.writeStr s).map (·.2)
  | .writeFmt parts => (writeParts writeStr l parts).map (·.2)

def Kept (capacity : Nat) (l : WriterLog) : Prop :=
  ∃ line : Line capacity, l.writer.Shows line ∧ line.text = String.join l.accepted

variable {capacity : Nat} {l : WriterLog}

theorem kept_start (buf : List UInt8) : Kept buf.length (start buf) :=
  ⟨_, StrWriter.Shows.start buf, rfl⟩

theorem kept_writeStr (h : Kept capacity l) (s : String) :
    ∃ ok l', l.writeStr s = some (ok, l') ∧ Kept capacity l'
      ∧ (ok = false → l' = l) := by
  obtain ⟨line, shows, text⟩ := h
  obtain ⟨w, written, after, refused⟩ := shows.writeStr s
  have same := line.push_text s
  refine ⟨(line.push s).1, _, by rw [writeStr, written]; rfl, ⟨_, after, ?_⟩, ?_⟩
  · rw [same, text]
    cases (line.push s).1 <;> simp
  · intro no
    simp [no, refused no]

theorem kept_writeParts (h : Kept capacity l) (parts : List String) :
    ∃ ok l', writeParts writeStr l parts = some (ok, l') ∧ Kept capacity l' := by
  induction parts generalizing l with
  | nil => exact ⟨true, l, rfl, h⟩
  | cons s parts ih =>
    obtain ⟨ok, l', written, kept, -⟩ := kept_writeStr h s
    unfold writeParts
    rw [written]
    cases ok
    · exact ⟨false, l', rfl, kept⟩
    · exact ih kept

theorem kept_step (h : Kept capacity l) (a : WriterAct) :
    ∃ l', l.step a = some l' ∧ Kept capacity l' := by
  cases a with
  | clear =>
    obtain ⟨line, shows, -⟩ := h
    exact ⟨_, rfl, _, shows.clear, rfl⟩
  | writeStr s =>
    obtain ⟨ok, l', written, kept, -⟩ := kept_writeStr h s
    exact ⟨l', by rw [step, written]; rfl, kept⟩
  | writeFmt parts =>
    obtain ⟨ok, l', written, kept⟩ := kept_writeParts h parts
    exact ⟨l', by rw [step, written]; rfl, kept⟩

theorem kept_run (h : Kept capacity l) (acts : List WriterAct) :
    ∃ l', Transition.run step (fun _ _ => true) l acts = some l' ∧ Kept capacity l' := by
  induction acts generalizing l with
  | nil => exact ⟨l, rfl, h⟩
  | cons a acts ih =>
    obtain ⟨l', taken, kept⟩ := kept_step h a
    obtain ⟨l'', rest, end_kept⟩ := ih kept
    refine ⟨l'', ?_, end_kept⟩
    rw [Transition.run, if_pos rfl, taken]
    exact rest

end WriterLog

theorem str_writer_run (buf : List UInt8) (acts : List WriterAct) :
    ∃ l, Transition.run WriterLog.step (fun _ _ => true) (.start buf) acts = some l
      ∧ l.writer.buf.length = buf.length
      ∧ l.writer.pos ≤ l.writer.buf.length
      ∧ l.writer.asStr = some (l.accepted.flatMap utf8)
      ∧ ByteArray.IsValidUTF8 ⟨(l.accepted.flatMap utf8).toArray⟩
      ∧ ∀ s, ∃ ok w, l.writer.writeStr s = some (ok, w)
        ∧ (ok = false → w.pos = l.writer.pos ∧ w.asStr = l.writer.asStr) := by
  obtain ⟨l, ran, line, shows, text⟩ := WriterLog.kept_run (WriterLog.kept_start buf) acts
  have inside := shows.pos_le
  have visible := shows.asStr
  rw [← shows.length] at inside
  rw [text, utf8_join] at visible
  refine ⟨l, ran, shows.length, inside, visible, ?_, ?_⟩
  · rw [← utf8_join]
    exact utf8_valid _
  · intro s
    obtain ⟨w, written, -, refused⟩ := shows.writeStr s
    refine ⟨_, w, written, fun no => ?_⟩
    rw [refused no]
    exact ⟨rfl, rfl⟩

end VhlHackathon
