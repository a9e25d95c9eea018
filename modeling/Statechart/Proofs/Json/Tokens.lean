import Mathlib.Tactic.Common
import Mathlib.Tactic.IntervalCases
import Statechart.Json.Printer
import Statechart.Json.Reader

/-! The words of JSON text. Strings with whatever characters and whole numbers of 64 bits are read
as they were printed. -/

namespace Statechart.Json

namespace Reader

lemma hexDigit?_hexDigit {n : Nat} (h : n < 16) : hexDigit? (hexDigit n) = some n := by
  revert n
  decide

lemma string_unicode {a b c d : Char} {n : Nat} (h : hex4? a b c d = some n) (hn : n < 0xD800)
    (acc rest : List Char) :
    string acc ('\\' :: 'u' :: a :: b :: c :: d :: rest) = string (Char.ofNat n :: acc) rest := by
  have hlow : ¬(0xD800 ≤ n) := Nat.not_le_of_lt hn
  have hlater : ¬(0xDC00 ≤ n) := by omega
  rw [string.eq_def]
  split
  · rename_i heq
    exact absurd heq (by simp)
  · rename_i heq
    exact absurd heq (by simp)
  · rename_i heq
    cases heq
    simp [h, hlow, hlater]
  · rename_i heq
    cases heq
    simp [h, hlow]
  · rename_i hunit heq
    cases heq
    exact (hunit a b c d rest rfl rfl).elim
  · rename_i hescape heq
    cases heq
    exact (hescape 'u' _ rfl rfl).elim

lemma string_escape {c d : Char} (h : escape? c = some d) (acc rest : List Char) :
    string acc ('\\' :: c :: rest) = string (d :: acc) rest := by
  have hunit : c ≠ 'u' := by
    rintro rfl
    exact absurd h (by simp [escape?])
  rw [string.eq_def]
  split
  · rename_i heq
    exact absurd heq (by simp)
  · rename_i heq
    exact absurd heq (by simp)
  · rename_i heq
    cases heq
    exact absurd rfl hunit
  · rename_i heq
    cases heq
    exact absurd rfl hunit
  · rename_i heq
    cases heq
    simp [h]
  · rename_i hescape heq
    cases heq
    exact (hescape _ _ rfl rfl).elim

lemma string_plain {c : Char} (hquote : c ≠ '"') (hback : c ≠ '\\') (hlow : ¬(c.toNat < 0x20))
    (acc rest : List Char) : string acc (c :: rest) = string (c :: acc) rest := by
  rw [string.eq_def]
  split
  · rename_i heq
    exact absurd heq (by simp)
  · rename_i heq
    exact absurd (List.cons.inj heq).1 hquote
  · rename_i heq
    exact absurd (List.cons.inj heq).1 hback
  · rename_i heq
    exact absurd (List.cons.inj heq).1 hback
  · rename_i heq
    exact absurd (List.cons.inj heq).1 hback
  · rename_i heq
    cases heq
    exact if_neg hlow

lemma string_escapeChar (c : Char) (acc rest : List Char) :
    string acc ((escapeChar c).toList ++ rest) = string (c :: acc) rest := by
  rw [escapeChar]
  split_ifs with h₁ h₂ h₃ h₄ h₅ h₆ h₇ h₈
  · rw [h₁]
    exact string_escape rfl acc rest
  · rw [h₂]
    exact string_escape rfl acc rest
  · rw [h₃]
    exact string_escape rfl acc rest
  · rw [h₄]
    exact string_escape rfl acc rest
  · rw [h₅]
    exact string_escape rfl acc rest
  · rw [h₆]
    exact string_escape rfl acc rest
  · rw [h₇]
    exact string_escape rfl acc rest
  · have hhigh := hexDigit?_hexDigit (show c.toNat / 16 < 16 by omega)
    have hlow := hexDigit?_hexDigit (show c.toNat % 16 < 16 by omega)
    have hunit : hex4? '0' '0' (hexDigit (c.toNat / 16)) (hexDigit (c.toNat % 16)) =
        some c.toNat := by
      simp only [hex4?, show hexDigit? '0' = some 0 from rfl, hhigh, hlow, Option.bind_eq_bind,
        Option.bind_some, Option.pure_def]
      congr 1
      omega
    have hread := string_unicode hunit (by omega) acc rest
    rw [Char.ofNat_toNat] at hread
    have htext :
        ("\\u00" ++ String.ofList [hexDigit (c.toNat / 16), hexDigit (c.toNat % 16)]).toList =
          ['\\', 'u', '0', '0', hexDigit (c.toNat / 16), hexDigit (c.toNat % 16)] := by simp
    rw [htext]
    exact hread
  · rw [String.toList_singleton]
    exact string_plain h₁ h₂ h₈ acc rest

lemma string_escaped (l acc rest : List Char) :
    string acc (l.flatMap (fun c => (escapeChar c).toList) ++ '"' :: rest) =
      some (String.ofList (acc.reverse ++ l), rest) := by
  induction l generalizing acc with
  | nil => rw [List.flatMap_nil, List.nil_append, string, List.append_nil]
  | cons c l ih =>
    rw [List.flatMap_cons, List.append_assoc, string_escapeChar, ih, List.reverse_cons,
      List.append_assoc, List.singleton_append]

lemma toList_quote (s : String) :
    (quote s).toList = '"' :: (s.toList.flatMap (fun c => (escapeChar c).toList) ++ ['"']) := by
  rw [quote, String.toList_append, String.toList_append, String.toList_join, List.flatMap_map]
  rfl

lemma string_quoted (s : String) (rest : List Char) :
    string [] (s.toList.flatMap (fun c => (escapeChar c).toList) ++ '"' :: rest) =
      some (s, rest) := by
  rw [string_escaped, List.reverse_nil, List.nil_append, String.ofList_toList]

def Ends (rest : List Char) : Prop :=
  ∀ c l, rest = c :: l → c.isDigit = false ∧ c ≠ '.' ∧ isExponentMark c = false

lemma takeWhile_digits_append {l rest : List Char} (h : ∀ c ∈ l, c.isDigit) (hrest : Ends rest) :
    (l ++ rest).takeWhile Char.isDigit = l ∧ (l ++ rest).dropWhile Char.isDigit = rest := by
  rw [List.takeWhile_append_of_pos h, List.dropWhile_append_of_pos h]
  cases rest with
  | nil => simp
  | cons c rest => simp [(hrest c rest rfl).1]

lemma le_ofDigitChars (l : List Char) (n : Nat) : n ≤ Nat.ofDigitChars 10 l n := by
  rw [Nat.ofDigitChars_eq_ofDigitChars_zero]
  have hpos : 1 ≤ 10 ^ l.length := Nat.one_le_pow _ _ (by decide)
  have hle := Nat.mul_le_mul_right n hpos
  omega

lemma absorb_digits {l : List Char} {n : Nat} (h : Nat.ofDigitChars 10 l n < Nat.pow 2 64) :
    absorb n l = (Nat.ofDigitChars 10 l n, []) := by
  induction l generalizing n with
  | nil => rw [absorb, Nat.ofDigitChars_nil]
  | cons c l ih =>
    have hnext : Text.digitsValue [c] + 10 * n = 10 * n + (c.toNat - '0'.toNat) := by
      simp only [Text.digitsValue, List.foldl_cons, List.foldl_nil]
      omega
    rw [Nat.ofDigitChars_cons] at h ⊢
    rw [absorb, hnext, if_pos (Nat.lt_of_le_of_lt (le_ofDigitChars l _) h), ih h]

lemma head?_toDigits {n : Nat} (h : 0 < n) : (Nat.toDigits 10 n).head? ≠ some '0' := by
  induction n using Nat.strongRecOn with
  | ind n ih =>
    by_cases hlt : n < 10
    · rw [Nat.toDigits_of_lt_base hlt]
      revert h
      interval_cases n <;> decide
    · have hge : 10 ≤ n := Nat.le_of_not_lt hlt
      have hhead := ih (n / 10) (by omega) (by omega)
      obtain ⟨c, l, hcl⟩ := List.exists_cons_of_ne_nil
        (Nat.toDigits_ne_nil (n := n / 10) (b := 10))
      rw [Nat.toDigits_of_base_le (by decide) hge, hcl]
      rwa [hcl] at hhead

lemma digits?_toDigits (n : Nat) {rest : List Char} (hrest : Ends rest) :
    digits? (Nat.toDigits 10 n ++ rest) = some (Nat.toDigits 10 n, rest) := by
  have hdigits : ∀ c ∈ Nat.toDigits 10 n, c.isDigit :=
    fun c hc => Nat.isDigit_of_mem_toDigits (by decide) (by decide) hc
  obtain ⟨htake, hdrop⟩ := takeWhile_digits_append hdigits hrest
  have hzero : ¬(Nat.toDigits 10 n = [] ∨
      (Nat.toDigits 10 n).length > 1 ∧ (Nat.toDigits 10 n).head? = some '0') := by
    rintro (hnil | ⟨hlength, hhead⟩)
    · exact Nat.toDigits_ne_nil hnil
    · cases Nat.eq_zero_or_pos n with
      | inl hn =>
        rw [hn] at hlength
        exact absurd hlength (by decide)
      | inr hn => exact head?_toDigits hn hhead
  simp only [digits?, htake, hdrop, Bool.or_eq_true, Bool.and_eq_true, decide_eq_true_eq]
  exact if_neg hzero

lemma magnitude?_toDigits (negative : Bool) (n : Nat) {rest : List Char} (hrest : Ends rest) :
    magnitude? negative (Nat.toDigits 10 n ++ rest) =
      some (⟨negative, Nat.toDigits 10 n, [], false, []⟩, rest) := by
  have hplaces : places? rest = some ([], rest) := by
    rw [places?.eq_def]
    split
    · exact absurd rfl (hrest _ _ rfl).2.1
    · rfl
  have hexponent : exponent? rest = some (false, [], rest) := by
    cases rest with
    | nil => rfl
    | cons c rest =>
      rw [exponent?.eq_def]
      simp [(hrest c rest rfl).2.2]
  simp only [magnitude?, digits?_toDigits n hrest, hplaces, hexponent, Option.bind_eq_bind,
    Option.bind_some, Option.pure_def]

lemma toList_toString_nat (n : Nat) : (toString (n : Int)).toList = Nat.toDigits 10 n :=
  Nat.toList_repr

lemma toList_toString_negSucc (n : Nat) :
    (toString (Int.negSucc n)).toList = '-' :: Nat.toDigits 10 (n + 1) := by
  change ("-" ++ (n + 1).repr).toList = _
  rw [String.toList_append, Nat.toList_repr]
  rfl

lemma toDigits_starts (n : Nat) : ∃ c l, Nat.toDigits 10 n = c :: l ∧ c.isDigit := by
  obtain ⟨c, l, hcl⟩ := List.exists_cons_of_ne_nil (Nat.toDigits_ne_nil (n := n) (b := 10))
  have hmem : c ∈ Nat.toDigits 10 n := hcl ▸ List.mem_cons_self
  exact ⟨c, l, hcl, Nat.isDigit_of_mem_toDigits (by decide) (by decide) hmem⟩

lemma toString_starts (i : Int) :
    ∃ c l, (toString i).toList = c :: l ∧ (c.isDigit ∨ c = '-') := by
  cases i with
  | ofNat n =>
    obtain ⟨c, l, hcl, hc⟩ := toDigits_starts n
    exact ⟨c, l, (toList_toString_nat n).trans hcl, .inl hc⟩
  | negSucc n => exact ⟨'-', _, toList_toString_negSucc n, .inr rfl⟩

lemma numeral?_toDigits (n : Nat) {rest : List Char} (hrest : Ends rest) :
    numeral? (Nat.toDigits 10 n ++ rest) =
      some (⟨false, Nat.toDigits 10 n, [], false, []⟩, rest) := by
  have hread := magnitude?_toDigits false n hrest
  rw [numeral?.eq_def]
  split
  · rename_i heq
    obtain ⟨c, l, hcl, hc⟩ := toDigits_starts n
    rw [hcl, List.cons_append] at heq
    rw [(List.cons.inj heq).1] at hc
    exact absurd hc (by decide)
  · exact hread

lemma value?_toDigits (negative : Bool) {n : Nat} (h : n < Nat.pow 2 64) :
    Numeral.value? ⟨negative, Nat.toDigits 10 n, [], false, []⟩ =
      if !negative then some (.whole n)
      else if 0 < n && n ≤ Nat.pow 2 63 then some (.whole (-n))
      else Numeral.fraction? ⟨negative, Nat.toDigits 10 n, [], false, []⟩ n 0 := by
  have habsorb : absorb 0 (Nat.toDigits 10 n) = (n, []) := by
    have hdigits := absorb_digits (l := Nat.toDigits 10 n) (n := 0)
    rw [Nat.ofDigitChars_ten_toDigits] at hdigits
    exact hdigits h
  simp only [Numeral.value?, habsorb]
  rfl

lemma number?_toString {i : Int} (hlow : -(Nat.pow 2 63 : Int) ≤ i) (hhigh : i < Nat.pow 2 64)
    {rest : List Char} (hrest : Ends rest) :
    number? ((toString i).toList ++ rest) = some (.int i, rest) := by
  cases i with
  | ofNat n =>
    have hvalue := value?_toDigits false (n := n) (Int.ofNat_lt.1 hhigh)
    rw [show Int.ofNat n = (n : Int) from rfl, toList_toString_nat]
    simp only [number?, numeral?_toDigits n hrest, hvalue, Option.bind_eq_bind, Option.bind_some,
      Option.pure_def]
    rfl
  | negSucc n =>
    have hle : n + 1 ≤ Nat.pow 2 63 := by omega
    have hvalue : Numeral.value? ⟨true, Nat.toDigits 10 (n + 1), [], false, []⟩ =
        some (.whole (.negSucc n)) := by
      rw [value?_toDigits true (Nat.lt_of_le_of_lt hle (by decide)), if_neg (by decide),
        if_pos (by simpa using hle)]
      rfl
    have hnumeral : numeral? ('-' :: Nat.toDigits 10 (n + 1) ++ rest) = _ :=
      magnitude?_toDigits true (n + 1) hrest
    rw [toList_toString_negSucc]
    simp only [number?, hnumeral, hvalue, Option.bind_eq_bind, Option.bind_some,
      Option.pure_def]
    rfl

end Reader

end Statechart.Json
