import VhlHackathon.StrWriter
import VhlHackathon.Radio
set_option autoImplicit false

/-!
The text the display tasks write: both strengths and both counters in decimal, separated so
that the text determines all four of them.
-/

namespace VhlHackathon

def showU32 (n : UInt32) : List String := [n.toNat.repr]

/-- What `Display` writes for an `i32`: the sign apart from the digits. -/
def showI32 (n : Int32) : List String :=
  if n.toInt < 0 then ["-", n.toInt.natAbs.repr] else [n.toInt.natAbs.repr]

/-- The strings that reach the writer from `"Sig {} {}\nCnt {} {}"`. -/
def oledParts (localHb remoteHb : HeartBeat) : List String :=
  ["Sig "] ++ showI32 localHb.remoteRssi ++ [" "] ++ showI32 remoteHb.remoteRssi ++
    ["\nCnt "] ++ showU32 localHb.uptime ++ [" "] ++ showU32 remoteHb.uptime

/-- What `oled_ssd1306_task` and `oled_ssd1331_task` hand to `Text::new`: the result of
`write!` is not looked at. `none` where the writer panics. -/
def oledText (localHb remoteHb : HeartBeat) : Option (List UInt8) :=
  let strBuf := (StrWriter.new (List.replicate 128 0)).clear
  (writeParts StrWriter.writeStr strBuf (oledParts localHb remoteHb)).bind fun r => r.2.asStr

/-! Decimals. -/

theorem utf8ByteSize_digits {l : List Char} (h : ∀ c ∈ l, c.isDigit = true) :
    (String.ofList l).utf8ByteSize = l.length := by
  have size : ∀ c ∈ l, (String.utf8EncodeChar c).length = 1 := by
    intro c hc
    have digit := h c hc
    rw [String.length_utf8EncodeChar, Char.utf8Size_eq_one_iff]
    simp only [Char.isDigit, Bool.and_eq_true, decide_eq_true_eq] at digit
    exact UInt32.le_trans digit.2 (by decide)
  rw [← String.size_toByteArray, String.toByteArray_ofList, List.utf8Encode,
    List.size_toByteArray, List.length_flatMap]
  clear h
  induction l with
  | nil => rfl
  | cons c rest ih =>
    obtain ⟨hc, hrest⟩ := List.forall_mem_cons.mp size
    rw [List.map_cons, List.sum_cons, hc, ih hrest, List.length_cons, Nat.add_comm]

theorem repr_digits {n : Nat} {c : Char} (h : c ∈ n.repr.toList) : c.isDigit = true := by
  rw [Nat.toList_repr] at h
  exact Nat.isDigit_of_mem_toDigits (by decide) (by decide) h

theorem repr_inj {m n : Nat} (h : m.repr.toList = n.repr.toList) : m = n := by
  rw [Nat.toList_repr, Nat.toList_repr] at h
  rw [← Nat.ofDigitChars_ten_toDigits (n := m), h, Nat.ofDigitChars_ten_toDigits]

theorem utf8ByteSize_repr {n : Nat} (h : n < 10 ^ 10) : n.repr.utf8ByteSize ≤ 10 := by
  have digits : ∀ c ∈ n.repr.toList, c.isDigit = true := fun c => repr_digits
  have bytes := utf8ByteSize_digits digits
  rw [String.ofList_toList] at bytes
  rw [bytes, String.length_toList]
  exact (Nat.length_repr_le_iff (by decide)).mpr h

theorem toList_join_append (xs ys : List String) :
    (String.join (xs ++ ys)).toList = (String.join xs).toList ++ (String.join ys).toList := by
  induction xs with
  | nil => rfl
  | cons s rest ih =>
    rw [List.cons_append, String.join_cons, String.toList_append, ih, String.join_cons,
      String.toList_append, List.append_assoc]

theorem toList_showU32 (n : UInt32) :
    (String.join (showU32 n)).toList = n.toNat.repr.toList := by
  simp [showU32, String.join_cons]

theorem toList_showI32 (n : Int32) :
    (String.join (showI32 n)).toList =
      (if n.toInt < 0 then ['-'] else []) ++ n.toInt.natAbs.repr.toList := by
  unfold showI32
  split <;> simp [String.join_cons]

theorem showU32_notMem (n : UInt32) {c : Char} (digit : c.isDigit = false) :
    c ∉ (String.join (showU32 n)).toList := by
  intro h
  rw [toList_showU32] at h
  rw [repr_digits h] at digit
  cases digit

theorem showI32_notMem (n : Int32) {c : Char} (sign : c ≠ '-') (digit : c.isDigit = false) :
    c ∉ (String.join (showI32 n)).toList := by
  intro h
  rw [toList_showI32, List.mem_append] at h
  rcases h with h | h
  · split at h
    · exact sign (List.mem_singleton.mp h)
    · cases h
  · rw [repr_digits h] at digit
    cases digit

theorem showU32_inj {m n : UInt32}
    (h : (String.join (showU32 m)).toList = (String.join (showU32 n)).toList) : m = n := by
  rw [toList_showU32, toList_showU32] at h
  exact UInt32.toNat_inj.mp (repr_inj h)

theorem showI32_inj {m n : Int32}
    (h : (String.join (showI32 m)).toList = (String.join (showI32 n)).toList) : m = n := by
  have noSign : ∀ k : Nat, '-' ∉ k.repr.toList := fun k hmem => by
    have digit := repr_digits hmem
    revert digit
    decide
  rw [toList_showI32, toList_showI32] at h
  apply Int32.toInt_inj.mp
  split at h <;> split at h
  · have same := repr_inj (List.append_cancel_left h)
    omega
  · have sign : '-' ∈ [] ++ n.toInt.natAbs.repr.toList :=
      h ▸ List.mem_append_left _ List.mem_cons_self
    exact absurd sign (noSign _)
  · have sign : '-' ∈ [] ++ m.toInt.natAbs.repr.toList :=
      h ▸ List.mem_append_left _ List.mem_cons_self
    exact absurd sign (noSign _)
  · have same := repr_inj h
    omega

theorem split_unique {a : Char} {xs ys us vs : List Char} (hx : a ∉ xs) (hy : a ∉ ys)
    (h : xs ++ a :: us = ys ++ a :: vs) : xs = ys ∧ us = vs := by
  induction xs generalizing ys with
  | nil =>
    cases ys with
    | nil => exact ⟨rfl, (List.cons.inj h).2⟩
    | cons b ys =>
      rw [(List.cons.inj h).1] at hy
      exact absurd List.mem_cons_self hy
  | cons b xs ih =>
    cases ys with
    | nil =>
      rw [(List.cons.inj h).1] at hx
      exact absurd List.mem_cons_self hx
    | cons c ys =>
      obtain ⟨rfl, behind⟩ := List.cons.inj h
      obtain ⟨rfl, rest⟩ := ih (List.not_mem_of_not_mem_cons hx)
        (List.not_mem_of_not_mem_cons hy) behind
      exact ⟨rfl, rest⟩

/-! The text as a whole. -/

theorem utf8ByteSize_join_append (xs ys : List String) :
    (String.join (xs ++ ys)).utf8ByteSize =
      (String.join xs).utf8ByteSize + (String.join ys).utf8ByteSize := by
  rw [← length_utf8, ← length_utf8, ← length_utf8, utf8_join, utf8_join, utf8_join,
    List.flatMap_append, List.length_append]

theorem utf8ByteSize_showU32 (n : UInt32) : (String.join (showU32 n)).utf8ByteSize ≤ 10 := by
  have bound : n.toNat < 10 ^ 10 := Nat.lt_trans n.toNat_lt (by decide)
  simpa [showU32, String.join_cons] using utf8ByteSize_repr bound

theorem utf8ByteSize_showI32 (n : Int32) : (String.join (showI32 n)).utf8ByteSize ≤ 11 := by
  have bound : n.toInt.natAbs < 10 ^ 10 := by
    have below := n.toInt_lt
    have above := n.le_toInt
    omega
  have digits := utf8ByteSize_repr bound
  unfold showI32
  split
  · have sign : "-".utf8ByteSize = 1 := rfl
    simp only [String.join_cons, String.join_nil, String.utf8ByteSize_append, sign,
      String.utf8ByteSize_empty]
    omega
  · simp only [String.join_cons, String.join_nil, String.utf8ByteSize_append,
      String.utf8ByteSize_empty]
    omega

theorem oledParts_fit (localHb remoteHb : HeartBeat) :
    (String.join (oledParts localHb remoteHb)).utf8ByteSize ≤ 128 := by
  have h1 := utf8ByteSize_showI32 localHb.remoteRssi
  have h2 := utf8ByteSize_showI32 remoteHb.remoteRssi
  have h3 := utf8ByteSize_showU32 localHb.uptime
  have h4 := utf8ByteSize_showU32 remoteHb.uptime
  have sig : (String.join ["Sig "]).utf8ByteSize = 4 := rfl
  have cnt : (String.join ["\nCnt "]).utf8ByteSize = 5 := rfl
  have gap : (String.join [" "]).utf8ByteSize = 1 := rfl
  simp only [oledParts, utf8ByteSize_join_append, sig, cnt, gap]
  omega

theorem StrWriter.Shows.writeParts {capacity : Nat} {w : StrWriter} {line : Line capacity}
    (h : w.Shows line) (parts : List String)
    (fits : (line.text ++ String.join parts).utf8ByteSize ≤ capacity) :
    ∃ w', VhlHackathon.writeParts StrWriter.writeStr w parts = some (true, w') ∧
      w'.Shows (⟨line.text ++ String.join parts, fits⟩ : Line capacity) := by
  induction parts generalizing w line with
  | nil => exact ⟨w, rfl, by simpa using h⟩
  | cons s parts ih =>
    have front : (line.text ++ s).utf8ByteSize ≤ capacity := by
      rw [String.join_cons, ← String.append_assoc, String.utf8ByteSize_append] at fits
      omega
    obtain ⟨w', written, shows, -⟩ := h.writeStr s
    rw [Line.push, dif_pos front] at written shows
    have rest : ((line.text ++ s) ++ String.join parts).utf8ByteSize ≤ capacity := by
      rwa [String.append_assoc, ← String.join_cons]
    obtain ⟨w'', more, shows'⟩ := ih shows rest
    refine ⟨w'', by rw [VhlHackathon.writeParts, written]; exact more, ?_⟩
    simpa [String.join_cons, String.append_assoc] using shows'

theorem oledText_eq (localHb remoteHb : HeartBeat) :
    oledText localHb remoteHb = some (utf8 (String.join (oledParts localHb remoteHb))) := by
  have start := (StrWriter.Shows.start (List.replicate 128 0)).clear
  have fits : ((Line.empty : Line (List.replicate 128 (0 : UInt8)).length).text ++
      String.join (oledParts localHb remoteHb)).utf8ByteSize ≤
        (List.replicate 128 (0 : UInt8)).length := by
    rw [Line.empty, String.empty_append, List.length_replicate]
    exact oledParts_fit localHb remoteHb
  obtain ⟨w, written, shows⟩ := start.writeParts _ fits
  rw [oledText, written, Option.bind_some, shows.asStr]
  change some (utf8 ("" ++ _)) = _
  rw [String.empty_append]

theorem oledText_determines (localHb remoteHb : HeartBeat) :
    oledText localHb remoteHb = some (utf8 (String.join (oledParts localHb remoteHb))) ∧
      ∀ localHb' remoteHb', oledText localHb' remoteHb' = oledText localHb remoteHb →
        localHb' = localHb ∧ remoteHb' = remoteHb := by
  refine ⟨oledText_eq localHb remoteHb, fun localHb' remoteHb' same => ?_⟩
  rw [oledText_eq, oledText_eq, Option.some.injEq] at same
  have text : String.join (oledParts localHb' remoteHb') =
      String.join (oledParts localHb remoteHb) := by
    apply String.toByteArray_inj.mp
    exact ByteArray.ext (Array.toList_inj.mp same)
  have chars := congrArg String.toList text
  simp only [oledParts, toList_join_append, List.append_assoc] at chars
  obtain ⟨h1, chars⟩ := split_unique (showI32_notMem _ (by decide) (by decide))
    (showI32_notMem _ (by decide) (by decide)) (List.append_cancel_left chars)
  obtain ⟨h2, chars⟩ := split_unique (showI32_notMem _ (by decide) (by decide))
    (showI32_notMem _ (by decide) (by decide)) chars
  obtain ⟨h3, chars⟩ := split_unique (showU32_notMem _ (by decide))
    (showU32_notMem _ (by decide)) (@List.append_cancel_left _ "Cnt ".toList _ _ chars)
  have e1 := showI32_inj h1
  have e2 := showI32_inj h2
  have e3 := showU32_inj h3
  have e4 := showU32_inj chars
  obtain ⟨u, r⟩ := localHb
  obtain ⟨u', r'⟩ := remoteHb
  obtain ⟨v, q⟩ := localHb'
  obtain ⟨v', q'⟩ := remoteHb'
  simp only at e1 e2 e3 e4
  exact ⟨by rw [e1, e3], by rw [e2, e4]⟩

end VhlHackathon
