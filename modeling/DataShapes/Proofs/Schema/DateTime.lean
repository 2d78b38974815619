import DataShapes.Schema.DateTime
import Mathlib.Algebra.Group.Nat.Defs
import Mathlib.Data.List.Basic
import Mathlib.Data.List.Induction

/-! # Which texts are points in time

The recognizer looks places up by byte in a text of any characters. Its marks are ASCII, so a mark's byte is a whole
character: the marks cut the text between its characters, and the numbers lie between the cuts. What it accepts is
compared with the texts of moments, which are printed from numbers in their ranges. -/

namespace DataShapes

namespace DateTime

/-! ### Bytes -/

@[simp] theorem utf8_nil : utf8 [] = [] := rfl

theorem utf8_cons (c : Char) (text : List Char) : utf8 (c :: text) = String.utf8EncodeChar c ++ utf8 text := rfl

@[simp] theorem utf8_append (a b : List Char) : utf8 (a ++ b) = utf8 a ++ utf8 b := List.flatMap_append

/-- The bytes of what is not ASCII are 128 and more. -/
theorem large_of_mem_encode {c : Char} (hc : 128 ≤ c.toNat) : ∀ b ∈ String.utf8EncodeChar c, 128 ≤ b.toNat := by
  have hc : ¬ c.val.toNat ≤ 127 := Nat.not_le.mpr hc
  unfold String.utf8EncodeChar
  simp only [if_neg hc]
  split_ifs <;>
  · simp only [List.forall_mem_cons, List.not_mem_nil, UInt8.toNat_ofNat', false_imp_iff, implies_true, and_true]
    omega

/-- The byte of an ASCII character. -/
theorem encode_of_small {c : Char} (hc : c.toNat < 128) : String.utf8EncodeChar c = [c.toUInt8] := by
  have hc : c.val.toNat ≤ 127 := Nat.le_of_lt_succ hc
  unfold String.utf8EncodeChar
  rw [if_pos hc]
  rfl

@[simp] theorem utf8_cons_of_small {c : Char} (hc : c.toNat < 128) (text : List Char) :
    utf8 (c :: text) = c.toUInt8 :: utf8 text := by
  rw [utf8_cons, encode_of_small hc, List.singleton_append]

theorem toNat_toUInt8 {c : Char} (hc : c.toNat < 128) : c.toUInt8.toNat = c.toNat := by
  show c.toNat % 256 = c.toNat
  omega

/-! ### Places -/

/-- Where the byte of an ASCII character stands, the text has that character. -/
theorem exists_of_byte {text : List Char} {i : Nat} {mark : Char} (hmark : mark.toNat < 128)
    (h : (utf8 text)[i]? = some mark.toUInt8) :
    ∃ front rest, text = front ++ mark :: rest ∧ (utf8 front).length = i := by
  induction text generalizing i with
  | nil => simp at h
  | cons c text ih =>
    rw [utf8_cons] at h
    by_cases hi : i < (String.utf8EncodeChar c).length
    · rw [List.getElem?_append_left hi] at h
      have hmem := List.mem_of_getElem? h
      have hc : c.toNat < 128 := by
        by_contra hlarge
        have := large_of_mem_encode (Nat.not_lt.mp hlarge) _ hmem
        rw [toNat_toUInt8 hmark] at this
        omega
      rw [encode_of_small hc, List.mem_singleton] at hmem
      have heq : mark = c := Char.toNat_inj.mp (by rw [← toNat_toUInt8 hmark, ← toNat_toUInt8 hc, hmem])
      rw [encode_of_small hc, List.length_singleton, Nat.lt_one_iff] at hi
      exact ⟨[], text, by rw [heq]; rfl, hi.symm⟩
    · rw [List.getElem?_append_right (Nat.not_lt.mp hi)] at h
      obtain ⟨front, rest, rfl, hlen⟩ := ih h
      refine ⟨c :: front, rest, rfl, ?_⟩
      rw [utf8_cons, List.length_append, hlen]
      omega

/-- An ASCII character cuts a text at its byte, and the bytes go on after it. -/
theorem exists_cut {text : List Char} {i : Nat} {mark : Char} (hmark : mark.toNat < 128)
    (h : (utf8 text)[i]? = some mark.toUInt8) :
    ∃ front rest, text = front ++ mark :: rest ∧ (utf8 front).length = i ∧
      ∀ j, (utf8 text)[i + 1 + j]? = (utf8 rest)[j]? := by
  obtain ⟨front, rest, rfl, hfront⟩ := exists_of_byte hmark h
  refine ⟨front, rest, rfl, hfront, fun j => ?_⟩
  rw [utf8_append, utf8_cons_of_small hmark, List.getElem?_append_right (by omega),
    show i + 1 + j - (utf8 front).length = j + 1 by omega, List.getElem?_cons_succ]

theorem splitAt?_append (front rest : List Char) :
    splitAt? (utf8 front).length (front ++ rest) = some (front, rest) := by
  induction front with
  | nil => simp [splitAt?]
  | cons c front ih =>
    have hpos := c.utf8Size_pos
    have hlen : (utf8 (c :: front)).length = c.utf8Size + (utf8 front).length - 1 + 1 := by
      simp only [utf8_cons, List.length_append, String.length_utf8EncodeChar]; omega
    have hrest : c.utf8Size + (utf8 front).length - 1 + 1 - c.utf8Size = (utf8 front).length := by omega
    rw [hlen, List.cons_append, splitAt?, if_pos (by omega), hrest, ih, Option.map_some]

theorem slice?_append (front part rest : List Char) :
    slice? (front ++ part ++ rest) (utf8 front).length (utf8 (front ++ part)).length = some part := by
  simp only [slice?, splitAt?_append, Option.bind_eq_bind, Option.bind_some]
  rfl

theorem slice?_of_prefix {text : List Char} (front part : List Char) {start stop : Nat} (h : front ++ part <+: text)
    (hstart : (utf8 front).length = start) (hstop : (utf8 (front ++ part)).length = stop) :
    slice? text start stop = some part := by
  obtain ⟨rest, rfl⟩ := h
  rw [← hstart, ← hstop, slice?_append]

/-! ### Digits -/

theorem isDigit_iff {c : Char} : c.isDigit ↔ 48 ≤ c.toNat ∧ c.toNat ≤ 57 :=
  (Bool.and_eq_true _ _).to_iff.trans (and_congr decide_eq_true_iff decide_eq_true_iff)

theorem isDigit_encode (c : Char) : (String.utf8EncodeChar c).all isDigit = c.isDigit := by
  have hbyte (b : UInt8) : isDigit b = (decide (48 ≤ b.toNat) && decide (b.toNat ≤ 57)) := rfl
  have hchar : c.isDigit = (decide (48 ≤ c.toNat) && decide (c.toNat ≤ 57)) := rfl
  by_cases hc : c.toNat < 128
  · simp only [encode_of_small hc, List.all_cons, List.all_nil, Bool.and_true, hbyte, toNat_toUInt8 hc, hchar]
  · obtain ⟨b, hb⟩ := List.exists_mem_of_ne_nil _ (String.utf8EncodeChar_ne_nil (c := c))
    have hlarge := large_of_mem_encode (Nat.not_lt.mp hc) b hb
    rw [List.all_eq_false.mpr ⟨b, hb, by simp [hbyte]; omega⟩, hchar]
    simp; omega

theorem isDigits_eq (text : List Char) : isDigits text = text.all Char.isDigit := by
  induction text with
  | nil => rfl
  | cons c text ih =>
    simp only [isDigits] at ih
    simp only [isDigits, utf8_cons, List.all_append, isDigit_encode, ih, List.all_cons]

theorem length_utf8_of_isDigits {text : List Char} (h : isDigits text) : (utf8 text).length = text.length := by
  rw [isDigits_eq, List.all_eq_true] at h
  induction text with
  | nil => rfl
  | cons c text ih =>
    have hc : c.toNat < 128 := by have := isDigit_iff.mp (h c List.mem_cons_self); omega
    have htext := ih fun d hd => h d (List.mem_cons_of_mem c hd)
    rw [utf8_cons_of_small hc, List.length_cons, List.length_cons, htext]

/-! ### Numbers of a fixed width -/

theorem digitChar_toNat {c : Char} (h : c.isDigit) : (c.toNat - 48).digitChar = c := by
  have hrange := isDigit_iff.mp h
  refine Char.toNat_inj.mp ?_
  rw [Nat.toNat_digitChar_of_lt_ten (by omega)]
  omega

/-- The last digits of a number, as many as the width says. -/
def padded : (width n : Nat) → List Char
  | 0, _ => []
  | width + 1, n => padded width (n / 10) ++ [(n % 10).digitChar]

@[simp] theorem length_padded (width n : Nat) : (padded width n).length = width := by
  induction width generalizing n with
  | zero => rfl
  | succ width ih => simp [padded, ih]

theorem isDigits_padded (width n : Nat) : isDigits (padded width n) := by
  rw [isDigits_eq]
  induction width generalizing n with
  | zero => rfl
  | succ width ih => simp [padded, ih, Nat.isDigit_digitChar, Nat.mod_lt]

theorem ofDigitChars_padded (width n : Nat) : Nat.ofDigitChars 10 (padded width n) 0 = n % 10 ^ width := by
  induction width generalizing n with
  | zero => simp [padded, Nat.mod_one]
  | succ width ih =>
    have hlast := Nat.toNat_digitChar_of_lt_ten (Nat.mod_lt n (by decide : 10 > 0))
    rw [padded, Nat.ofDigitChars_append, ih, Nat.ofDigitChars_cons, Nat.ofDigitChars_nil, hlast, Nat.pow_succ',
      Nat.mod_mul]
    simp only [Char.reduceToNat]
    omega

/-- Digits are given back by the number that they write. -/
theorem padded_ofDigitChars {text : List Char} (h : isDigits text) :
    padded text.length (Nat.ofDigitChars 10 text 0) = text := by
  rw [isDigits_eq, List.all_eq_true] at h
  induction text using List.reverseRecOn with
  | nil => rfl
  | append_singleton text c ih =>
    have hc := isDigit_iff.mp (h c (by simp))
    have hdigit := digitChar_toNat (h c (by simp))
    have htext := ih fun d hd => h d (List.mem_append_left _ hd)
    rw [Nat.ofDigitChars_append, Nat.ofDigitChars_cons, Nat.ofDigitChars_nil, List.length_append, List.length_singleton,
      padded]
    simp only [Char.reduceToNat]
    rw [show (10 * Nat.ofDigitChars 10 text 0 + (c.toNat - 48)) / 10 = Nat.ofDigitChars 10 text 0 by omega,
      show (10 * Nat.ofDigitChars 10 text 0 + (c.toNat - 48)) % 10 = c.toNat - 48 by omega, htext, hdigit]

theorem length_utf8_padded (width n : Nat) : (utf8 (padded width n)).length = width := by
  rw [length_utf8_of_isDigits (isDigits_padded width n), length_padded]

theorem number?_padded {width n : Nat} (hwidth : width ≠ 0) (hn : n < 10 ^ width) :
    number? (padded width n) = some n := by
  have hne : (padded width n).isEmpty = false := by
    rw [List.isEmpty_eq_false_iff_exists_mem]
    exact List.exists_mem_of_length_pos (by rw [length_padded]; omega)
  rw [number?, hne, isDigits_padded, ofDigitChars_padded, Nat.mod_eq_of_lt hn]
  rfl

theorem eq_padded_of_number? {text : List Char} {n : Nat} (h : number? text = some n) :
    text = padded (utf8 text).length n := by
  simp only [number?, Option.ite_none_right_eq_some, Option.some.injEq, Bool.and_eq_true] at h
  obtain ⟨⟨-, hdigits⟩, rfl⟩ := h
  rw [length_utf8_of_isDigits hdigits, padded_ofDigitChars hdigits]

/-! ### Parts and marks -/

theorem allM_eq_some {α : Type} {p : α → Option Bool} {l : List α} (h : ∀ x ∈ l, (p x).isSome) :
    l.allM p = some (l.all fun x => p x == some true) := by
  induction l with
  | nil => rfl
  | cons x l ih =>
    obtain ⟨b, hb⟩ := Option.isSome_iff_exists.mp (h x List.mem_cons_self)
    cases b <;> simp [List.allM, hb, ih fun y hy => h y (List.mem_cons_of_mem x hy)]

theorem exists_marked? {bytes : List UInt8} (h : bytes.length = 19) :
    ∃ marked, marked? bytes = some marked ∧
      (marked = true ↔ ∀ x ∈ marks, bytes[x.1]? = some x.2.toUInt8) := by
  have hinside : ∀ x ∈ marks, x.1 < bytes.length := by rw [h]; decide
  refine ⟨_, allM_eq_some fun x hx => by simp [hinside x hx], ?_⟩
  simp [List.all_eq_true]

theorem holds_padded {part : Part} {width n : Nat} (hwidth : width ≠ 0) (hn : n < 10 ^ width) (hlow : part.low ≤ n)
    (hhigh : n ≤ part.high) : part.holds (padded width n) := by
  rw [Part.holds, number?_padded hwidth hn]
  simp [hlow, hhigh]

theorem exists_of_holds {part : Part} {text : List Char} (h : part.holds text) :
    ∃ n, (part.low ≤ n ∧ n ≤ part.high) ∧ text = padded (utf8 text).length n := by
  obtain ⟨n, hn, hrange⟩ := (Option.any_eq_true ..).mp h
  exact ⟨n, by simpa using hrange, eq_padded_of_number? hn⟩

/-- Six texts as wide as the numbers in a date and a time. -/
structure Pieces where
  year : List Char
  month : List Char
  day : List Char
  hour : List Char
  minute : List Char
  second : List Char
  year_width : (utf8 year).length = 4
  month_width : (utf8 month).length = 2
  day_width : (utf8 day).length = 2
  hour_width : (utf8 hour).length = 2
  minute_width : (utf8 minute).length = 2
  second_width : (utf8 second).length = 2

namespace Pieces

/-- The pieces with the marks between them. -/
def text (p : Pieces) : List Char :=
  p.year ++ '-' :: (p.month ++ '-' :: (p.day ++ 'T' :: (p.hour ++ ':' :: (p.minute ++ ':' :: p.second))))

def list (p : Pieces) : List (List Char) := [p.year, p.month, p.day, p.hour, p.minute, p.second]

/-- Whether every piece is a number in its range. -/
def isFilled (p : Pieces) : Bool := (parts.zip p.list).all fun (part, piece) => part.holds piece

/-- The marks cut a text of the right length into pieces, from the first on: after each cut the bytes of the rest
are those of the text, further on. -/
theorem exists_of_marks {text : List Char} (hlength : (utf8 text).length = 19)
    (hmarks : ∀ x ∈ marks, (utf8 text)[x.1]? = some x.2.toUInt8) : ∃ p : Pieces, p.text = text := by
  simp only [marks, List.forall_mem_cons] at hmarks
  obtain ⟨h4, h7, h10, h13, h16, -⟩ := hmarks
  obtain ⟨year, rest₁, rfl, hyear, hrest₁⟩ := exists_cut (by decide) h4
  obtain ⟨month, rest₂, rfl, hmonth, hrest₂⟩ := exists_cut (by decide) ((hrest₁ 2).symm.trans h7)
  have hrest₂ (j : Nat) := (hrest₁ (2 + 1 + j)).trans (hrest₂ j)
  obtain ⟨day, rest₃, rfl, hday, hrest₃⟩ := exists_cut (by decide) ((hrest₂ 2).symm.trans h10)
  have hrest₃ (j : Nat) := (hrest₂ (2 + 1 + j)).trans (hrest₃ j)
  obtain ⟨hour, rest₄, rfl, hhour, hrest₄⟩ := exists_cut (by decide) ((hrest₃ 2).symm.trans h13)
  have hrest₄ (j : Nat) := (hrest₃ (2 + 1 + j)).trans (hrest₄ j)
  obtain ⟨minute, second, rfl, hminute, -⟩ := exists_cut (by decide) ((hrest₄ 2).symm.trans h16)
  refine ⟨⟨year, month, day, hour, minute, second, hyear, hmonth, hday, hhour, hminute, ?_⟩, rfl⟩
  simp at hlength
  omega

variable (p : Pieces)

attribute [simp] year_width month_width day_width hour_width minute_width second_width

theorem length_utf8_text : (utf8 p.text).length = 19 := by
  simp [text]

theorem marks_text : ∀ x ∈ marks, (utf8 p.text)[x.1]? = some x.2.toUInt8 := by
  simp [marks, text]

theorem isFilled_iff :
    p.isFilled ↔ Part.holds ⟨0, 4, 0, 9999⟩ p.year ∧ Part.holds ⟨5, 7, 1, 12⟩ p.month ∧
      Part.holds ⟨8, 10, 1, 31⟩ p.day ∧ Part.holds ⟨11, 13, 0, 23⟩ p.hour ∧
      Part.holds ⟨14, 16, 0, 59⟩ p.minute ∧ Part.holds ⟨17, 19, 0, 59⟩ p.second := by
  simp [isFilled, list, parts]

/-- Each piece is found at the place of its part. -/
theorem filled?_text : filled? p.text = some p.isFilled := by
  have hyear : slice? p.text 0 4 = some p.year := slice?_of_prefix [] _ (by simp [text]) rfl (by simp)
  have hmonth : slice? p.text 5 7 = some p.month :=
    slice?_of_prefix (p.year ++ ['-']) _ (by simp [text]) (by simp) (by simp)
  have hday : slice? p.text 8 10 = some p.day :=
    slice?_of_prefix (p.year ++ '-' :: (p.month ++ ['-'])) _ (by simp [text]) (by simp) (by simp)
  have hhour : slice? p.text 11 13 = some p.hour :=
    slice?_of_prefix (p.year ++ '-' :: (p.month ++ '-' :: (p.day ++ ['T']))) _ (by simp [text]) (by simp) (by simp)
  have hminute : slice? p.text 14 16 = some p.minute :=
    slice?_of_prefix (p.year ++ '-' :: (p.month ++ '-' :: (p.day ++ 'T' :: (p.hour ++ [':'])))) _ (by simp [text])
      (by simp) (by simp)
  have hsecond : slice? p.text 17 19 = some p.second :=
    slice?_of_prefix (p.year ++ '-' :: (p.month ++ '-' :: (p.day ++ 'T' :: (p.hour ++ ':' :: (p.minute ++ [':']))))) _
      (by simp [text]) (by simp) (by simp)
  simp only [filled?, parts, List.mapM_cons, List.mapM_nil, hyear, hmonth, hday, hhour, hminute, hsecond]
  rfl

end Pieces

/-- The recognizer always comes to an answer, and says yes to six numbers in their ranges between the marks. -/
theorem exists_isSecond? (text : List Char) :
    ∃ b, isSecond? text = some b ∧ (b = true ↔ ∃ p : Pieces, p.text = text ∧ p.isFilled) := by
  by_cases hlength : (utf8 text).length = 19
  · obtain ⟨marked, hmarked, hmarks⟩ := exists_marked? hlength
    have hsecond : isSecond? text = if marked then filled? text else some false := by
      simp [isSecond?, hlength, hmarked]
    cases marked with
    | false =>
      refine ⟨false, hsecond, ⟨nofun, ?_⟩⟩
      rintro ⟨p, rfl, -⟩
      exact hmarks.mpr p.marks_text
    | true =>
      obtain ⟨p, rfl⟩ := Pieces.exists_of_marks hlength (hmarks.mp rfl)
      refine ⟨p.isFilled, hsecond.trans p.filled?_text, ⟨fun h => ⟨p, rfl, h⟩, ?_⟩⟩
      rintro ⟨q, hq, hfilled⟩
      have := q.filled?_text
      rw [hq, p.filled?_text, Option.some.injEq] at this
      rw [this, hfilled]
  · refine ⟨false, by simp [isSecond?, hlength], ⟨nofun, ?_⟩⟩
    rintro ⟨p, rfl, -⟩
    exact absurd p.length_utf8_text hlength

/-! ### Points in time -/

/-- A point in time, to a fraction of a second; the length of the month is not looked at. -/
structure Moment where
  year : Nat
  month : Nat
  day : Nat
  hour : Nat
  minute : Nat
  second : Nat
  /-- The digits after the point; without any there is no point either. -/
  fraction : List (Fin 10)
  year_le : year ≤ 9999
  month_range : 1 ≤ month ∧ month ≤ 12
  day_range : 1 ≤ day ∧ day ≤ 31
  hour_le : hour ≤ 23
  minute_le : minute ≤ 59
  second_le : second ≤ 59

/-- A point and digits, or nothing. -/
def pointed : List (Fin 10) → List Char
  | [] => []
  | digits => '.' :: digits.map fun digit : Fin 10 => Nat.digitChar digit

namespace Moment

/-- The numbers of a moment, each in its width. -/
def pieces (m : Moment) : Pieces where
  year := padded 4 m.year
  month := padded 2 m.month
  day := padded 2 m.day
  hour := padded 2 m.hour
  minute := padded 2 m.minute
  second := padded 2 m.second
  year_width := length_utf8_padded 4 m.year
  month_width := length_utf8_padded 2 m.month
  day_width := length_utf8_padded 2 m.day
  hour_width := length_utf8_padded 2 m.hour
  minute_width := length_utf8_padded 2 m.minute
  second_width := length_utf8_padded 2 m.second

/-- How a moment is written. -/
def text (m : Moment) : String :=
  String.ofList <|
    padded 4 m.year ++ '-' :: (padded 2 m.month ++ '-' :: (padded 2 m.day ++ 'T' ::
      (padded 2 m.hour ++ ':' :: (padded 2 m.minute ++ ':' :: padded 2 m.second)))) ++
    pointed m.fraction ++ ['Z']

theorem toList_text (m : Moment) : m.text.toList = m.pieces.text ++ pointed m.fraction ++ ['Z'] :=
  String.toList_ofList

theorem isFilled_pieces (m : Moment) : m.pieces.isFilled := by
  have hyear := m.year_le
  have hmonth := m.month_range
  have hday := m.day_range
  have hhour := m.hour_le
  have hminute := m.minute_le
  have hsecond := m.second_le
  refine m.pieces.isFilled_iff.mpr ⟨?_, ?_, ?_, ?_, ?_, ?_⟩ <;>
  · refine holds_padded (by decide) ?_ ?_ ?_ <;> simp <;> omega

end Moment

theorem Pieces.exists_moment {p : Pieces} (h : p.isFilled) (fraction : List (Fin 10)) :
    ∃ m : Moment, m.pieces.text = p.text ∧ m.fraction = fraction := by
  obtain ⟨hyear, hmonth, hday, hhour, hminute, hsecond⟩ := p.isFilled_iff.mp h
  obtain ⟨year, ⟨-, hyear⟩, hyeartext⟩ := exists_of_holds hyear
  obtain ⟨month, hmonth, hmonthtext⟩ := exists_of_holds hmonth
  obtain ⟨day, hday, hdaytext⟩ := exists_of_holds hday
  obtain ⟨hour, ⟨-, hhour⟩, hhourtext⟩ := exists_of_holds hhour
  obtain ⟨minute, ⟨-, hminute⟩, hminutetext⟩ := exists_of_holds hminute
  obtain ⟨second, ⟨-, hsecond⟩, hsecondtext⟩ := exists_of_holds hsecond
  refine ⟨⟨year, month, day, hour, minute, second, fraction, hyear, hmonth, hday, hhour, hminute, hsecond⟩, ?_, rfl⟩
  simp only [Pieces.text, Moment.pieces]
  rw [hyeartext, hmonthtext, hdaytext, hhourtext, hminutetext, hsecondtext]
  simp

theorem isFraction_pointed (fraction : List (Fin 10)) : isFraction (pointed fraction) := by
  cases fraction with
  | nil => rfl
  | cons digit digits =>
    simp [pointed, isFraction, isDigits_eq, Nat.isDigit_digitChar]

theorem exists_pointed {text : List Char} (h : isFraction text) : ∃ fraction, text = pointed fraction := by
  cases text with
  | nil => exact ⟨[], rfl⟩
  | cons c digits =>
    simp only [isFraction, Bool.and_eq_true, beq_iff_eq, isDigits_eq, List.all_eq_true, Bool.not_eq_true',
      List.isEmpty_eq_false_iff] at h
    obtain ⟨⟨rfl, hne⟩, hdigits⟩ := h
    have hback : (digits.map fun c => Fin.ofNat 10 (c.toNat - 48)).map (fun digit : Fin 10 => Nat.digitChar digit) =
        digits := by
      rw [List.map_map]
      refine (List.map_congr_left fun c hc => ?_).trans (List.map_id digits)
      have hrange := isDigit_iff.mp (hdigits c hc)
      have hmod : (c.toNat - 48) % 10 = c.toNat - 48 := Nat.mod_eq_of_lt (by omega)
      simp only [Function.comp_apply, Fin.val_ofNat, hmod, digitChar_toNat (hdigits c hc), id_eq]
    refine ⟨digits.map fun c => Fin.ofNat 10 (c.toNat - 48), ?_⟩
    rw [pointed, hback]
    simpa using hne

theorem ne_point_of_isDigits {text : List Char} (h : isDigits text) : ∀ c ∈ text, c ≠ '.' := by
  rw [isDigits_eq, List.all_eq_true] at h
  rintro c hc rfl
  exact absurd (h '.' hc) (by decide)

theorem Moment.ne_point (m : Moment) : ∀ c ∈ m.pieces.text, c ≠ '.' := by
  have hdigits (width n : Nat) := ne_point_of_isDigits (isDigits_padded width n)
  simp only [Pieces.text, Moment.pieces, List.forall_mem_append, List.forall_mem_cons]
  exact ⟨hdigits 4 _, by decide, hdigits 2 _, by decide, hdigits 2 _, by decide, hdigits 2 _, by decide, hdigits 2 _,
    by decide, hdigits 2 _⟩

/-- The text of a moment, taken apart: what is before its last character, up to the point and from it on. -/
theorem Moment.parts_text (m : Moment) :
    m.text.toList.getLast? = some 'Z' ∧ m.text.toList.dropLast.takeWhile (· != '.') = m.pieces.text ∧
      m.text.toList.dropLast.dropWhile (· != '.') = pointed m.fraction := by
  have hstop : (pointed m.fraction).takeWhile (· != '.') = [] ∧
      (pointed m.fraction).dropWhile (· != '.') = pointed m.fraction := by
    cases m.fraction <;> simp [pointed]
  have hplain : ∀ c ∈ m.pieces.text, (c != '.') = true := fun c hc => bne_iff_ne.mpr (m.ne_point c hc)
  rw [toList_text, List.getLast?_concat, List.dropLast_concat, List.takeWhile_append_of_pos hplain,
    List.dropWhile_append_of_pos hplain, hstop.1, hstop.2, List.append_nil]
  exact ⟨rfl, rfl, rfl⟩

/-- Every place that is looked at is in the text and between characters, and the texts that pass are those of moments:
four digits and two for each other number, in their ranges, a point and digits or nothing, and one `Z`. -/
theorem scan_isSome_and_isIso_iff (s : String) :
    (scan s).isSome ∧ (isIso s ↔ ∃ m : Moment, m.text = s) := by
  obtain ⟨b, hb, hpieces⟩ := exists_isSecond? (s.toList.dropLast.takeWhile (· != '.'))
  by_cases hends : s.toList.getLast? = some 'Z' ∧ isFraction (s.toList.dropLast.dropWhile (· != '.')) = true
  · have hscan : scan s = some b := by rw [scan, ← hb]; simp [hends]
    rw [isIso, hscan]
    refine ⟨rfl, ⟨fun h => ?_, ?_⟩⟩
    · obtain ⟨p, hp, hfilled⟩ := hpieces.mp (by simpa using h)
      obtain ⟨fraction, hfraction⟩ := exists_pointed hends.2
      obtain ⟨m, hm, rfl⟩ := p.exists_moment hfilled fraction
      refine ⟨m, String.toList_inj.mp ?_⟩
      rw [m.toList_text, hm, hp, ← hfraction, List.takeWhile_append_dropWhile]
      exact List.dropLast_append_getLast? 'Z' hends.1
    · rintro ⟨m, rfl⟩
      have hb : b = true := hpieces.mpr ⟨m.pieces, m.parts_text.2.1.symm, m.isFilled_pieces⟩
      simp [hb]
  · have hscan : scan s = some false := by rw [scan, if_neg (by simpa using hends)]
    rw [isIso, hscan]
    refine ⟨rfl, ⟨nofun, ?_⟩⟩
    rintro ⟨m, rfl⟩
    obtain ⟨hlast, -, hfraction⟩ := m.parts_text
    exact absurd ⟨hlast, by rw [hfraction]; exact isFraction_pointed m.fraction⟩ hends

/-- The first four bytes are three characters, the marks stand where they should, and no character is split. -/
example : scan "é24-12-31T23:59:59Z" = some false := by decide +kernel

end DateTime

end DataShapes
