import Mathlib.Data.List.TakeWhile
import Mathlib.Tactic.Common
import Statechart.Timestamp

/-! The text of timestamps. What is written of a timestamp is read as the same timestamp, years
outside of four digits and leap seconds included. -/

namespace Statechart

namespace Text

lemma isBlank_of_isDigit {c : Char} (h : c.isDigit) : isBlank c = false := by
  rw [Char.isDigit, Bool.and_eq_true, decide_eq_true_eq, decide_eq_true_eq] at h
  have hlow : 48 ≤ c.toNat := h.1
  have hhigh : c.toNat ≤ 57 := h.2
  simp only [isBlank]
  grind

lemma digits_eq_cons {width : Nat} (hwidth : 0 < width) (n : Nat) :
    ∃ c l, c.isDigit ∧ digits width n = c :: l := by
  cases hd : digits width n with
  | nil =>
    have hlength := length_digits width n
    rw [hd] at hlength
    exact absurd hlength (Nat.ne_of_lt hwidth)
  | cons c l => exact ⟨c, l, isDigit_of_mem_digits (by rw [hd]; exact List.mem_cons_self), rfl⟩

lemma digits_ne_nil {width : Nat} (hwidth : 0 < width) (n : Nat) : digits width n ≠ [] := by
  obtain ⟨c, l, -, hd⟩ := digits_eq_cons hwidth n
  rw [hd]
  exact List.cons_ne_nil c l

lemma takeWhile_digits {width n : Nat} {c : Char} {rest : List Char} (hc : c.isDigit = false) :
    (digits width n ++ c :: rest).takeWhile Char.isDigit = digits width n := by
  rw [List.takeWhile_append_of_pos fun d hd => isDigit_of_mem_digits hd, List.takeWhile_cons, hc]
  simp

lemma leadingNumber?_digits {most width n : Nat} {c : Char} {rest : List Char}
    (hc : c.isDigit = false) (hwidth : 0 < width) (hmost : width ≤ most)
    (hn : n < Nat.pow 10 width) :
    leadingNumber? most (digits width n ++ c :: rest) = some (n, c :: rest) := by
  have htaken : ((digits width n ++ c :: rest).take most).takeWhile Char.isDigit =
      digits width n := by
    rw [List.take_append, List.take_of_length_le (by rwa [length_digits]), length_digits]
    cases hleft : most - width with
    | zero =>
      rw [List.take_zero, List.append_nil]
      exact List.takeWhile_eq_self_iff.2 fun d hd => isDigit_of_mem_digits hd
    | succ k => exact takeWhile_digits hc
  simp only [leadingNumber?, htaken, if_neg (digits_ne_nil hwidth n), digitsValue_digits]
  rw [List.drop_left, show n % Nat.pow 10 width = n from Nat.mod_eq_of_lt hn]

lemma digitsValue_append_zeros (l : List Char) (k : Nat) :
    digitsValue (l ++ List.replicate k '0') = digitsValue l * Nat.pow 10 k := by
  induction k generalizing l with
  | zero => simp
  | succ k ih =>
    have hstep : digitsValue (l ++ ['0']) = digitsValue l * 10 := by
      simp [digitsValue, List.foldl_append, Nat.mul_comm]
    rw [List.replicate_succ, ← List.singleton_append, ← List.append_assoc, ih, hstep,
      show Nat.pow 10 (k + 1) = 10 * Nat.pow 10 k from Nat.pow_succ', Nat.mul_assoc]

end Text

namespace Timestamp

open Text (digits digits_eq_cons isBlank leadingNumber? leadingNumber?_digits)

lemma skip_digits {width n : Nat} (hwidth : 0 < width) (rest : List Char) :
    skip (digits width n ++ rest) = digits width n ++ rest := by
  obtain ⟨c, l, hc, hd⟩ := digits_eq_cons hwidth n
  rw [hd, skip, List.cons_append, List.dropWhile_cons, Text.isBlank_of_isDigit hc]
  rfl

lemma part?_digits {n : Nat} {c : Char} {rest : List Char} (hc : c.isDigit = false) (hn : n < 100) :
    part? (digits 2 n ++ c :: rest) = some (n, c :: rest) := by
  rw [part?, skip_digits Nat.two_pos]
  exact leadingNumber?_digits hc Nat.two_pos (Nat.le_refl _) hn

lemma mark?_self {c : Char} (hc : isBlank c = false) (rest : List Char) :
    mark? c (c :: rest) = some rest := by
  simp [mark?, skip, hc]

lemma year?_digits {width : Nat} (hwidth : 0 < width) (n : Nat) (rest : List Char) :
    year? (digits width n ++ rest) =
      (leadingNumber? 4 (digits width n ++ rest)).map fun x => ((x.1 : Int), x.2) := by
  obtain ⟨c, l, hc, hd⟩ := digits_eq_cons hwidth n
  rw [year?, skip_digits hwidth, hd, List.cons_append]
  split
  · rename_i heq
    rw [(List.cons.inj heq).1] at hc
    exact absurd hc (by decide)
  · rename_i heq
    rw [(List.cons.inj heq).1] at hc
    exact absurd hc (by decide)
  · rfl

lemma year?_minus (l : List Char) :
    year? ('-' :: l) = (leadingNumber? l.length l).map fun x => (-(x.1 : Int), x.2) := rfl

lemma year?_plus (l : List Char) :
    year? ('+' :: l) = (leadingNumber? l.length l).map fun x => ((x.1 : Int), x.2) := rfl

lemma year?_yearText {year : Int} (h : -262143 ≤ year ∧ year ≤ 262142) (rest : List Char) :
    year? (yearText year ++ '-' :: rest) = some (year, '-' :: rest) := by
  obtain ⟨n, hn⟩ : ∃ n, n = year.natAbs := ⟨_, rfl⟩
  obtain ⟨width, hwidth, hlt, hshown⟩ : ∃ width, 0 < width ∧ n < Nat.pow 10 width ∧
      digits (if n < 10000 then 4 else if n < 100000 then 5 else 6) n = digits width n := by
    split
    · exact ⟨4, by decide, by assumption, rfl⟩
    · split
      · exact ⟨5, by decide, by assumption, rfl⟩
      · exact ⟨6, by decide, show n < 1000000 by omega, rfl⟩
  have hsigned : leadingNumber? (digits width n ++ '-' :: rest).length
      (digits width n ++ '-' :: rest) = some (n, '-' :: rest) :=
    leadingNumber?_digits (by decide) hwidth (by simp) hlt
  simp only [yearText, ← hn]
  split
  · rw [hshown, List.cons_append, year?_minus, hsigned, Option.map_some,
      show -(n : Int) = year by omega]
  · split
    · have hshort : n < 10000 := by omega
      rw [if_pos hshort, year?_digits (by decide),
        leadingNumber?_digits (by decide) (by decide) (Nat.le_refl _) hshort, Option.map_some,
        show (n : Int) = year by omega]
    · rw [hshown, List.cons_append, year?_plus, hsigned, Option.map_some,
        show (n : Int) = year by omega]

lemma fraction?_digits {width n : Nat} (hwidth : 0 < width) (hle : width ≤ 9)
    (hn : n < Nat.pow 10 width) {c : Char} {rest : List Char} (hc : c.isDigit = false) :
    fraction? ('.' :: digits width n ++ c :: rest) =
      some (n * Nat.pow 10 (9 - width), c :: rest) := by
  have htaken : (digits width n ++ List.replicate 9 '0').take 9 =
      digits width n ++ List.replicate (9 - width) '0' := by
    rw [List.take_append, List.take_of_length_le (by rwa [Text.length_digits]), Text.length_digits,
      List.take_replicate, Nat.min_eq_left (Nat.sub_le _ _)]
  simp only [fraction?, List.cons_append, Text.takeWhile_digits hc,
    if_neg (Text.digits_ne_nil hwidth n), htaken, Text.digitsValue_append_zeros,
    Text.digitsValue_digits]
  rw [List.drop_left, show n % Nat.pow 10 width = n from Nat.mod_eq_of_lt hn]

lemma fraction?_fractionText {nano : Nat} (h : nano < CivilTime.nanosPerSecond) :
    fraction? (fractionText nano ++ ['Z']) = some (nano, ['Z']) := by
  have hnano : nano < 1000000000 := h
  rw [fractionText]
  split
  · rename_i hzero
    rw [hzero]
    rfl
  · split
    · rename_i hmilli
      rw [fraction?_digits (by decide) (by decide) (show nano / 1000000 < 1000 by omega)
        (by decide), show nano / 1000000 * Nat.pow 10 (9 - 3) = nano from
          Nat.div_mul_cancel (Nat.dvd_of_mod_eq_zero hmilli)]
    · split
      · rename_i hmicro
        rw [fraction?_digits (by decide) (by decide) (show nano / 1000 < 1000000 by omega)
          (by decide), show nano / 1000 * Nat.pow 10 (9 - 6) = nano from
            Nat.div_mul_cancel (Nat.dvd_of_mod_eq_zero hmicro)]
      · rw [fraction?_digits (by decide) (by decide) hnano (by decide)]
        rw [show nano * Nat.pow 10 (9 - 9) = nano from Nat.mul_one nano]

lemma addMinutes_zero {t : CivilTime} (h : t.Valid) : t.addMinutes 0 = t := by
  obtain ⟨hhour, hminute, -⟩ := h.time
  have hlow : ¬(60 * (t.hour : Int) + t.minute + 0 < 0) := by omega
  have hhigh : 60 * (t.hour : Int) + t.minute + 0 < 1440 := by omega
  have hhours : ((60 * (t.hour : Int) + t.minute + 0) % 1440 / 60).toNat = t.hour := by omega
  have hminutes : ((60 * (t.hour : Int) + t.minute + 0) % 60).toNat = t.minute := by omega
  simp only [CivilTime.addMinutes, if_neg hlow, if_pos hhigh, hhours, hminutes]

lemma daysInMonth_le (year : Int) (month : Nat) : CivilTime.daysInMonth year month ≤ 31 := by
  rw [CivilTime.daysInMonth]
  split_ifs <;> decide

lemma fractionText_eq_cons (nano : Nat) :
    ∃ c l, c.isDigit = false ∧ fractionText nano ++ ['Z'] = c :: l := by
  rw [fractionText]
  split_ifs
  · exact ⟨'Z', [], by decide, rfl⟩
  all_goals exact ⟨'.', _, by decide, rfl⟩

lemma separator?_self (rest : List Char) : separator? ('T' :: rest) = some rest := rfl

lemma rejoined {t : CivilTime} (h : t.Valid) {shown : Nat}
    (hshown : shown = if t.isLeapSecond then t.second + 1 else t.second) :
    (if shown = 60 then
      (⟨t.year, t.month, t.day, t.hour, t.minute, 59,
        t.nano % CivilTime.nanosPerSecond + CivilTime.nanosPerSecond⟩ : CivilTime)
      else ⟨t.year, t.month, t.day, t.hour, t.minute, shown,
        t.nano % CivilTime.nanosPerSecond⟩) = t := by
  rw [hshown, CivilTime.isLeapSecond]
  by_cases hleap : CivilTime.nanosPerSecond ≤ t.nano
  · obtain ⟨hlast, hnano⟩ := h.nano.resolve_left (Nat.not_lt_of_le hleap)
    have hover : t.nano - CivilTime.nanosPerSecond < CivilTime.nanosPerSecond := by omega
    rw [decide_eq_true hleap, if_pos rfl, hlast, if_pos rfl, ← hlast, Nat.mod_eq_sub_mod hleap,
      Nat.mod_eq_of_lt hover, Nat.sub_add_cancel hleap]
  · rw [decide_eq_false hleap, if_neg Bool.false_ne_true, if_neg (Nat.ne_of_lt h.time.2.2),
      Nat.mod_eq_of_lt (Nat.lt_of_not_le hleap)]

theorem read?_render (t : Timestamp) : read? t.render = some t := by
  obtain ⟨t, hvalid⟩ := t
  have hmonth : t.month < 100 := Nat.lt_of_le_of_lt hvalid.month.2 (by decide)
  have hday : t.day < 100 :=
    Nat.lt_of_le_of_lt (Nat.le_trans hvalid.day.2 (daysInMonth_le ..)) (by decide)
  obtain ⟨hhour, hminute, hsecond⟩ := hvalid.time
  have hhour : t.hour < 100 := Nat.lt_trans hhour (by decide)
  have hminute : t.minute < 100 := Nat.lt_trans hminute (by decide)
  obtain ⟨shown, hshown⟩ : ∃ n, n = if t.isLeapSecond then t.second + 1 else t.second := ⟨_, rfl⟩
  have hshort : shown < 100 := by
    rw [hshown]
    split_ifs <;> omega
  obtain ⟨c, l, hc, hcl⟩ := fractionText_eq_cons (t.nano % CivilTime.nanosPerSecond)
  have hfraction : fraction? (c :: l) = some (t.nano % CivilTime.nanosPerSecond, ['Z']) := by
    rw [← hcl]
    exact fraction?_fractionText (Nat.mod_lt _ (by decide))
  have htext : (render ⟨t, hvalid⟩).toList = yearText t.year ++ '-' :: (digits 2 t.month ++
      '-' :: (digits 2 t.day ++ 'T' :: (digits 2 t.hour ++ ':' :: (digits 2 t.minute ++
        ':' :: (digits 2 shown ++ c :: l))))) := by
    simp only [render, String.toList_ofList, List.append_assoc, List.cons_append, ← hshown, hcl]
  have hdash : isBlank '-' = false := by decide
  have hcolon : isBlank ':' = false := by decide
  rw [read?, htext]
  refine Option.bind_eq_some_iff.2 ⟨_, year?_yearText hvalid.year _, ?_⟩
  refine Option.bind_eq_some_iff.2 ⟨_, mark?_self hdash _, ?_⟩
  refine Option.bind_eq_some_iff.2 ⟨_, part?_digits (by decide) hmonth, ?_⟩
  refine Option.bind_eq_some_iff.2 ⟨_, mark?_self hdash _, ?_⟩
  refine Option.bind_eq_some_iff.2 ⟨_, part?_digits (by decide) hday, ?_⟩
  refine Option.bind_eq_some_iff.2 ⟨_, separator?_self _, ?_⟩
  refine Option.bind_eq_some_iff.2 ⟨_, part?_digits (by decide) hhour, ?_⟩
  refine Option.bind_eq_some_iff.2 ⟨_, mark?_self hcolon _, ?_⟩
  refine Option.bind_eq_some_iff.2 ⟨_, part?_digits (by decide) hminute, ?_⟩
  refine Option.bind_eq_some_iff.2 ⟨_, mark?_self hcolon _, ?_⟩
  refine Option.bind_eq_some_iff.2 ⟨_, part?_digits hc hshort, ?_⟩
  refine Option.bind_eq_some_iff.2 ⟨_, hfraction, ?_⟩
  refine Option.bind_eq_some_iff.2 ⟨(0, []), rfl, ?_⟩
  dsimp only
  rw [rejoined hvalid hshown, if_pos ⟨hvalid, rfl⟩, show -(0 : Int) = 0 from rfl,
    addMinutes_zero hvalid, ofCivil?, dif_pos hvalid]

end Timestamp

end Statechart
