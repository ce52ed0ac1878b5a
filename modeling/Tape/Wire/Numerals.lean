import Mathlib
import Tape.Wire.Fixedpoint

/-!
# What the decimal codec accepts, and what it should

A numeral is an optional minus, ASCII digits, and optionally a point and more
ASCII digits, and it denotes a rational number. `Denotes` says that a text is a
numeral whose value, in the unit, is an integer inside the unit's range; it is
written down without the pattern and without the decimal context.

The codec differs from it on three kinds of text. The pattern takes digits of
other scripts and a newline at the end. The decimal context rounds to 28
significant digits before integrality is asked about. And it overflows from a
million digits on. `codec_exact` says that these are all: a text is treated as
`Denotes` asks exactly when, if the codec would take it, it is `Clean` and
keeps its digits, and, if it denotes a value, it does not overflow. A value is
read back from its text exactly when it keeps its digits and has a text.
-/

namespace Tape

namespace Fixedpoint

/-! ## Digits -/

theorem digit?_digitChar {n : Nat} (h : n < 10) : digit? n.digitChar = some n := by
  interval_cases n <;> rfl

theorem zeros_tail : ∀ z ∈ zeros.tail, 128 ≤ z := by decide

/-- Among ASCII characters only the ASCII digits are digits. -/
theorem digit?_ascii {c : Char} {n : Nat} (hc : c.toNat < 128) (h : digit? c = some n) :
    n < 10 ∧ c = n.digitChar := by
  have hzeros : zeros = 0x30 :: zeros.tail := rfl
  have hnone : zeros.tail.find? (fun z => z ≤ c.toNat ∧ c.toNat < z + 10) = none := by
    rw [List.find?_eq_none]
    intro z hz
    have hle := zeros_tail z hz
    simp only [decide_eq_true_eq, not_and]
    omega
  rw [digit?, hzeros, List.find?_cons] at h
  split at h
  · next hin =>
      rw [decide_eq_true_eq] at hin
      obtain rfl := Option.some.inj h
      have hlt : c.toNat - 0x30 < 10 := by omega
      refine ⟨hlt, Char.toNat_inj.mp ?_⟩
      rw [Nat.toNat_digitChar_of_lt_ten hlt]
      omega
  · rw [hnone] at h
    cases h

theorem digitChar_toNat_lt {n : Nat} (h : n < 10) : n.digitChar.toNat < 128 := by
  rw [Nat.toNat_digitChar_of_lt_ten h]
  omega

/-- Digits that are digits. -/
def Digits (ds : List Nat) : Prop := ∀ d ∈ ds, d < 10

/-- The first character is no digit. -/
def Stops (tail : List Char) : Prop := ∀ c ∈ tail.head?, digit? c = none

theorem spanDigits_digits {ds : List Nat} (hds : Digits ds) {tail : List Char}
    (htail : Stops tail) : spanDigits (ds.map Nat.digitChar ++ tail) = (ds, tail) := by
  induction ds with
  | nil =>
      cases tail with
      | nil => rfl
      | cons c rest =>
          rw [List.map_nil, List.nil_append, spanDigits, htail c rfl]
  | cons d ds ih =>
      rw [List.map_cons, List.cons_append, spanDigits,
        digit?_digitChar (hds d List.mem_cons_self),
        ih fun x hx => hds x (List.mem_cons_of_mem _ hx)]

/-- Of an ASCII text, the digits are the text before the tail. -/
theorem spanDigits_ascii {text : List Char} (htext : ∀ c ∈ text, c.toNat < 128) :
    Digits (spanDigits text).1 ∧
      text = (spanDigits text).1.map Nat.digitChar ++ (spanDigits text).2 := by
  induction text with
  | nil => exact ⟨(fun d hd => by cases hd), rfl⟩
  | cons c rest ih =>
      obtain ⟨hds, hrest⟩ := ih fun c' hc' => htext c' (List.mem_cons_of_mem _ hc')
      rw [spanDigits]
      cases hd : digit? c with
      | none => exact ⟨(fun d hd => by cases hd), rfl⟩
      | some d =>
          obtain ⟨hlt, hc⟩ := digit?_ascii (htext c List.mem_cons_self) hd
          refine ⟨fun x hx => ?_, ?_⟩
          · rcases List.mem_cons.mp hx with rfl | hx
            · exact hlt
            · exact hds x hx
          · rw [List.map_cons, List.cons_append, ← hc, ← hrest]

/-! ## Numerals -/

namespace PlainDecimal

/-- Optional minus, digits, optional point and digits. -/
def text (d : PlainDecimal) : List Char :=
  (if d.negative then ['-'] else []) ++ (d.whole.map Nat.digitChar ++
    if d.fraction = [] then [] else '.' :: d.fraction.map Nat.digitChar)

/-- Digits before the point, and digits after it. -/
structure WellFormed (d : PlainDecimal) : Prop where
  whole : Digits d.whole
  fraction : Digits d.fraction
  nonempty : d.whole ≠ []

/-- The digits as one integer. -/
def coefficient (d : PlainDecimal) : Nat := ofDigits (d.whole ++ d.fraction)

/-- The number a numeral denotes. -/
def value (d : PlainDecimal) : ℚ :=
  (if d.negative then -1 else 1) * d.coefficient / 10 ^ d.fraction.length

end PlainDecimal

/-- ASCII, and no newline at the end. -/
def Clean (text : List Char) : Prop :=
  (∀ c ∈ text, c.toNat < 128) ∧ text.getLast? ≠ some '\n'

theorem not_minus {d : Nat} (h : d < 10) : d.digitChar ≠ '-' := by
  interval_cases d <;> decide

theorem not_newline {d : Nat} (h : d < 10) : d.digitChar ≠ '\n' := by
  interval_cases d <;> decide

theorem stops_nil : Stops [] := fun c hc => by cases hc

theorem stops_point (rest : List Char) : Stops ('.' :: rest) := by
  intro c hc
  obtain rfl := Option.some.inj hc
  rfl

/-- The pattern after the sign. -/
def matchUnsigned (negative : Bool) (unsigned : List Char) : Option PlainDecimal :=
  let (whole, tail) := spanDigits unsigned
  if whole = [] then none
  else if atEnd tail then some ⟨negative, whole, []⟩
  else
    match tail with
    | '.' :: rest =>
        let (fraction, tail') := spanDigits rest
        if fraction = [] then none
        else if atEnd tail' then some ⟨negative, whole, fraction⟩
        else none
    | _ => none

theorem matchDecimal_minus (rest : List Char) :
    matchDecimal ('-' :: rest) = matchUnsigned true rest := rfl

theorem matchDecimal_plain {text : List Char} (h : text.head? ≠ some '-') :
    matchDecimal text = matchUnsigned false text := by
  rw [matchDecimal]
  · rfl
  · rintro rest rfl
    exact h rfl

/-- The fraction's text. -/
def pointed (fraction : List Nat) : List Char :=
  if fraction = [] then [] else '.' :: fraction.map Nat.digitChar

theorem matchUnsigned_text {negative : Bool} {whole fraction : List Nat}
    (hwhole : Digits whole) (hfraction : Digits fraction) (hne : whole ≠ []) :
    matchUnsigned negative (whole.map Nat.digitChar ++ pointed fraction) =
      some ⟨negative, whole, fraction⟩ := by
  have hstops : Stops (pointed fraction) := by
    rw [pointed]
    split
    · exact stops_nil
    · exact stops_point _
  have hspan := spanDigits_digits hfraction stops_nil
  rw [List.append_nil] at hspan
  rw [matchUnsigned, spanDigits_digits hwhole hstops]
  simp only [if_neg hne]
  by_cases hf : fraction = []
  · subst hf
    rfl
  · simp only [pointed, if_neg hf, hspan, atEnd]
    simp

/-- A numeral's text is matched, with the numeral's digits. -/
theorem matchDecimal_text {d : PlainDecimal} (hd : d.WellFormed) :
    matchDecimal d.text = some d := by
  obtain ⟨negative, whole, fraction⟩ := d
  obtain ⟨hwhole, hfraction, hne⟩ := hd
  have hmatch : ∀ sign, matchUnsigned sign (whole.map Nat.digitChar ++ pointed fraction) =
      some ⟨sign, whole, fraction⟩ := fun _ => matchUnsigned_text hwhole hfraction hne
  rw [PlainDecimal.text]
  cases negative with
  | true => exact hmatch true
  | false =>
      obtain ⟨x, rest, rfl⟩ := List.exists_cons_of_ne_nil hne
      have hx := not_minus (hwhole x List.mem_cons_self)
      refine (matchDecimal_plain ?_).trans (hmatch false)
      exact fun heq => hx (Option.some.inj heq)

theorem atEnd_clean {tail : List Char} (h : atEnd tail = true)
    (hnewline : tail.getLast? ≠ some '\n') : tail = [] := by
  rw [atEnd, decide_eq_true_eq] at h
  rcases h with h | h
  · exact h
  · rw [h] at hnewline
    exact absurd rfl hnewline

/-- What the pattern makes of a clean text is a numeral with that text. -/
theorem matchUnsigned_clean {negative : Bool} {unsigned : List Char} (hclean : Clean unsigned)
    {d : PlainDecimal} (h : matchUnsigned negative unsigned = some d) :
    d.WellFormed ∧ d.negative = negative ∧
      unsigned = d.whole.map Nat.digitChar ++ pointed d.fraction := by
  obtain ⟨hascii, hnewline⟩ := hclean
  obtain ⟨hwhole, htext⟩ := spanDigits_ascii hascii
  rw [matchUnsigned] at h
  generalize spanDigits unsigned = split at h hwhole htext
  obtain ⟨whole, tail⟩ := split
  dsimp only at h hwhole htext
  split at h
  · cases h
  · next hne =>
      split at h
      · next hend =>
          obtain rfl := Option.some.inj h
          have htail : tail = [] := by
            refine atEnd_clean hend fun hlast => hnewline ?_
            rw [htext, List.getLast?_append, hlast]
            rfl
          subst htail
          exact ⟨⟨hwhole, (fun x hx => by cases hx), hne⟩, rfl, htext⟩
      · split at h
        · next rest _ =>
            have hrest : ∀ c ∈ rest, c.toNat < 128 := fun c hc =>
              hascii c (htext ▸ List.mem_append_right _ (List.mem_cons_of_mem _ hc))
            obtain ⟨hfraction, hresttext⟩ := spanDigits_ascii hrest
            generalize spanDigits rest = split at h hfraction hresttext
            obtain ⟨fraction, tail'⟩ := split
            dsimp only at h hfraction hresttext
            split at h
            · cases h
            · next hfne =>
                split at h
                · next hend =>
                    obtain rfl := Option.some.inj h
                    have htail : tail' = [] := by
                      refine atEnd_clean hend fun hlast => hnewline ?_
                      rw [htext, hresttext, List.getLast?_append, List.getLast?_cons,
                        List.getLast?_append, hlast]
                      rfl
                    subst htail
                    refine ⟨⟨hwhole, hfraction, hne⟩, rfl, ?_⟩
                    rw [htext, hresttext, List.append_nil, pointed, if_neg hfne]
                · cases h
        · cases h

theorem matchDecimal_clean {text : List Char} (hclean : Clean text) {d : PlainDecimal}
    (h : matchDecimal text = some d) : d.WellFormed ∧ text = d.text := by
  by_cases hminus : text.head? = some '-'
  · obtain ⟨rest, rfl⟩ : ∃ rest, text = '-' :: rest := List.head?_eq_some_iff.mp hminus
    rw [matchDecimal_minus] at h
    have hrest : Clean rest := by
      refine ⟨fun c hc => hclean.1 c (List.mem_cons_of_mem _ hc), fun hlast => hclean.2 ?_⟩
      rw [List.getLast?_cons, hlast]
      rfl
    obtain ⟨hwell, hsign, htext⟩ := matchUnsigned_clean hrest h
    refine ⟨hwell, ?_⟩
    rw [PlainDecimal.text, hsign, htext]
    rfl
  · rw [matchDecimal_plain hminus] at h
    obtain ⟨hwell, hsign, htext⟩ := matchUnsigned_clean hclean h
    refine ⟨hwell, ?_⟩
    rw [PlainDecimal.text, hsign]
    exact htext

theorem getLast?_digits {ds : List Nat} (hds : Digits ds) :
    (ds.map Nat.digitChar).getLast? ≠ some '\n' := by
  intro hlast
  obtain ⟨x, hx, heq⟩ := List.mem_map.mp (List.mem_of_getLast? hlast)
  exact not_newline (hds x hx) heq

/-- A numeral's text is clean. -/
theorem PlainDecimal.WellFormed.clean {d : PlainDecimal} (hd : d.WellFormed) : Clean d.text := by
  obtain ⟨negative, whole, fraction⟩ := d
  obtain ⟨hwhole, hfraction, hne⟩ := hd
  have hdigits : ∀ ds : List Nat, Digits ds → ∀ c ∈ ds.map Nat.digitChar, c.toNat < 128 := by
    intro ds hds c hc
    obtain ⟨x, hx, rfl⟩ := List.mem_map.mp hc
    exact digitChar_toNat_lt (hds x hx)
  constructor
  · intro c hc
    rw [PlainDecimal.text, List.mem_append, List.mem_append] at hc
    rcases hc with hc | hc | hc
    · cases negative with
      | true =>
          obtain rfl := List.mem_singleton.mp hc
          decide
      | false => cases hc
    · exact hdigits _ hwhole c hc
    · split at hc
      · cases hc
      · rcases List.mem_cons.mp hc with rfl | hc
        · decide
        · exact hdigits _ hfraction c hc
  · rw [PlainDecimal.text, List.getLast?_append, List.getLast?_append]
    by_cases hf : fraction = []
    · have hlast := getLast?_digits hwhole
      have hsome : (whole.map Nat.digitChar).getLast?.isSome := by
        rw [List.getLast?_isSome]
        simpa using hne
      obtain ⟨c, hc⟩ := Option.isSome_iff_exists.mp hsome
      simp only [hf, if_true, List.getLast?_nil, Option.none_or, hc, Option.some_or]
      exact hc ▸ hlast
    · have hlast := getLast?_digits hfraction
      have hsome : (fraction.map Nat.digitChar).getLast?.isSome := by
        rw [List.getLast?_isSome]
        simpa using hf
      obtain ⟨c, hc⟩ := Option.isSome_iff_exists.mp hsome
      simp only [if_neg hf, List.getLast?_cons, hc, Option.some_or]
      exact hc ▸ hlast

/-! ## The decimal context -/

/-- The digits the context drops, from the last one. -/
def dropped (coefficient : Nat) (exponent : Int) : Nat :=
  max (numDigits coefficient - contextPrec) (contextEtiny - exponent).toNat

/-- The digits dropped are zeros. -/
def Keeps (coefficient : Nat) (exponent : Int) : Prop :=
  coefficient % 10 ^ dropped coefficient exponent = 0

/-- Zero, or below the context's limit. -/
def Short (coefficient : Nat) (exponent : Int) : Prop :=
  coefficient = 0 ∨ (numDigits coefficient : Int) - 1 + exponent ≤ contextEmax

theorem numDigits_le_iff {n k : Nat} (hk : 0 < k) : numDigits n ≤ k ↔ n < 10 ^ k :=
  Nat.length_toDigits_le_iff (by decide) hk

theorem numDigits_mul_ten {n : Nat} (h : n ≠ 0) : numDigits (n * 10) = numDigits n + 1 := by
  rw [numDigits, numDigits, Nat.toDigits_of_base_le (by decide) (by omega),
    Nat.mul_div_cancel n (by decide), List.length_append, List.length_singleton]

theorem numDigits_mul_pow {n : Nat} (h : n ≠ 0) (k : Nat) :
    numDigits (n * 10 ^ k) = numDigits n + k := by
  induction k with
  | zero => rw [pow_zero, mul_one, add_zero]
  | succ k ih =>
      have hne : n * 10 ^ k ≠ 0 := by positivity
      rw [pow_succ, ← mul_assoc, numDigits_mul_ten hne, ih]
      omega

theorem roundHalfEven_exact {c k : Nat} (h : c % 10 ^ k = 0) :
    roundHalfEven c k = c / 10 ^ k := by
  have hpos : 0 < 10 ^ k := by positivity
  rw [roundHalfEven]
  simp only [h, mul_zero, hpos, if_true]

/-- In the context a decimal keeps its value exactly if it keeps its digits. -/
theorem fix_value {c c' : Nat} {e e' : Int} (h : fix c e = some (c', e')) :
    ((c' : ℚ) * 10 ^ e' = c * 10 ^ e ↔ Keeps c e) ∧ Short c e := by
  rw [fix] at h
  split at h
  · next hzero =>
      obtain ⟨rfl, rfl⟩ := Prod.mk.inj (Option.some.inj h)
      subst hzero
      exact ⟨iff_of_true rfl (Nat.zero_mod _), .inl rfl⟩
  · next hne =>
      dsimp only at h
      split at h
      · cases h
      · next hlow =>
          split at h
          · cases h
          · obtain ⟨rfl, rfl⟩ := Prod.mk.inj (Option.some.inj h)
            refine ⟨?_, .inr (Int.not_lt.mp hlow)⟩
            have hten : (10 : ℚ) ≠ 0 := by norm_num
            have hpow : (10 : ℚ) ^ e ≠ 0 := zpow_ne_zero e hten
            rw [zpow_add₀ hten, zpow_natCast, mul_comm ((10 : ℚ) ^ e), ← mul_assoc,
              mul_left_inj' hpow]
            rw [Keeps, ← dropped]
            constructor
            · intro hvalue
              have hnat : roundHalfEven c (dropped c e) * 10 ^ dropped c e = c := by
                exact_mod_cast hvalue
              exact Nat.mod_eq_zero_of_dvd (Dvd.intro_left _ hnat)
            · intro hkeeps
              rw [roundHalfEven_exact hkeeps]
              exact_mod_cast Nat.div_mul_cancel (Nat.dvd_of_mod_eq_zero hkeeps)

/-- What keeps its digits and is short does not overflow. -/
theorem fix_of_keeps {c : Nat} {e : Int} (hkeeps : Keeps c e) (hshort : Short c e) :
    ∃ c' e', fix c e = some (c', e') := by
  rw [fix]
  split
  · exact ⟨_, _, rfl⟩
  · next hne =>
      have hlow : (numDigits c : Int) - 1 + e ≤ contextEmax := hshort.resolve_left hne
      have hround := roundHalfEven_exact hkeeps
      have hmul := Nat.div_mul_cancel (Nat.dvd_of_mod_eq_zero hkeeps)
      have hq : c / 10 ^ dropped c e ≠ 0 := by
        intro hq
        rw [hq, Nat.zero_mul] at hmul
        exact hne hmul.symm
      have hdigits := numDigits_mul_pow hq (dropped c e)
      rw [hmul] at hdigits
      have hdropped : max (numDigits c - contextPrec) (contextEtiny - e).toNat = dropped c e := rfl
      simp only [hdropped, hround]
      rw [if_neg (by omega), if_neg (by omega)]
      exact ⟨_, _, rfl⟩

theorem integral?_iff {c : Nat} {e : Int} {n : Nat} :
    integral? c e = some n ↔ (c : ℚ) * 10 ^ e = n := by
  have hten : (10 : ℚ) ≠ 0 := by norm_num
  rw [integral?]
  split
  · next he =>
      obtain ⟨k, rfl⟩ := Int.eq_ofNat_of_zero_le he
      rw [Int.toNat_natCast, Option.some.injEq, zpow_natCast]
      exact_mod_cast Iff.rfl
  · next he =>
      obtain ⟨k, hk⟩ := Int.eq_ofNat_of_zero_le (show 0 ≤ -e by omega)
      have hpos : (10 : ℚ) ^ k ≠ 0 := pow_ne_zero k hten
      have hvalue : (c : ℚ) * 10 ^ e = n ↔ c = n * 10 ^ k := by
        rw [show e = -(k : Int) by omega, zpow_neg, zpow_natCast, ← div_eq_mul_inv,
          div_eq_iff hpos]
        exact_mod_cast Iff.rfl
      rw [hvalue, hk, Int.toNat_natCast]
      split
      · next hmod =>
          rw [Option.some.injEq]
          constructor
          · rintro rfl
            exact (Nat.div_mul_cancel (Nat.dvd_of_mod_eq_zero hmod)).symm
          · rintro rfl
            exact Nat.mul_div_cancel n (by positivity)
      · next hmod =>
          refine iff_of_false (by simp) fun hc => hmod ?_
          rw [hc, Nat.mul_mod_left]

end Fixedpoint

open Fixedpoint

/-! ## The units -/

/-- The units of the codec; a count may be signed. -/
inductive FixedUnit where
  | price
  | count
  | signedCount
  | dollars
  deriving DecidableEq, Repr

namespace FixedUnit

/-- How many decimals a unit has. -/
def decimals : FixedUnit → Nat
  | .price => priceDecimals
  | .count => countDecimals
  | .signedCount => countDecimals
  | .dollars => dollarsDecimals

/-- A text read as a unit. -/
def parse : FixedUnit → String → Except NumeralError Int
  | .price => parsePrice
  | .count => parseCount
  | .signedCount => parseSignedCount
  | .dollars => parseDollars

/-- A signed count is written as a count is. -/
def format : FixedUnit → Int → Option String
  | .price => formatPrice
  | .count => formatCount
  | .signedCount => formatCount
  | .dollars => formatDollars

/-- The values a unit has. -/
def InRange : FixedUnit → Int → Prop
  | .price, v => 0 ≤ v ∧ v ≤ 10000
  | .count, v => 0 ≤ v
  | .signedCount, _ => True
  | .dollars, _ => True

/-- The text is a numeral whose value, in the unit, is the integer `v`, and `v`
is in range. -/
def Denotes (u : FixedUnit) (text : String) (v : Int) : Prop :=
  ∃ d : PlainDecimal, d.WellFormed ∧ text.toList = d.text ∧
    d.value * 10 ^ u.decimals = v ∧ u.InRange v

/-- The power of ten that the digits of a numeral are multiplied with. -/
def exponent (u : FixedUnit) (d : PlainDecimal) : Int := u.decimals - d.fraction.length

/-- Rounded to 28 significant digits, the numeral is the integer `v`, and `v`
is in range. -/
def Admits (u : FixedUnit) (d : PlainDecimal) (v : Int) : Prop :=
  ∃ c e n, fix d.coefficient (u.exponent d) = some (c, e) ∧ (c : ℚ) * 10 ^ e = (n : Nat) ∧
    (if d.negative then -(n : Int) else n) = v ∧ u.InRange v

theorem value_scaled (u : FixedUnit) (d : PlainDecimal) :
    d.value * 10 ^ u.decimals =
      (if d.negative then -1 else 1) * (d.coefficient * (10 : ℚ) ^ u.exponent d) := by
  have hten : (10 : ℚ) ≠ 0 := by norm_num
  rw [PlainDecimal.value, exponent, zpow_sub₀ hten, zpow_natCast, zpow_natCast]
  ring

/-- The name of the quantity in the messages. -/
def what : FixedUnit → String
  | .price => "price"
  | .count => "count"
  | .signedCount => "count delta"
  | .dollars => "dollars"

theorem parse_ok (u : FixedUnit) (text : String) (v : Int) :
    u.parse text = .ok v ↔ parseScaled text u.decimals u.what = .ok v ∧ u.InRange v := by
  cases u with
  | price =>
      show parsePrice text = .ok v ↔
        parseScaled text priceDecimals "price" = .ok v ∧ 0 ≤ v ∧ v ≤ 10000
      rw [parsePrice]
      cases parseScaled text priceDecimals "price" with
      | error e => simp
      | ok value =>
          have hscale : priceScale = 10000 := rfl
          simp only [Except.ok.injEq]
          by_cases hout : value < 0 ∨ value > priceScale
          · rw [if_pos hout]
            exact iff_of_false (by simp) (fun h => by omega)
          · rw [if_neg hout, Except.ok.injEq]
            constructor
            · rintro rfl
              omega
            · exact fun h => h.1
  | count =>
      show parseCount text = .ok v ↔ parseScaled text countDecimals "count" = .ok v ∧ 0 ≤ v
      rw [parseCount]
      cases parseScaled text countDecimals "count" with
      | error e => simp
      | ok value =>
          simp only [Except.ok.injEq]
          by_cases hout : value < 0
          · rw [if_pos hout]
            exact iff_of_false (by simp) (fun h => by omega)
          · rw [if_neg hout, Except.ok.injEq]
            constructor
            · rintro rfl
              omega
            · exact fun h => h.1
  | signedCount => exact (and_iff_left trivial).symm
  | dollars => exact (and_iff_left trivial).symm

theorem parse_ok_iff (u : FixedUnit) (text : String) (v : Int) :
    u.parse text = .ok v ↔ ∃ d, matchDecimal text.toList = some d ∧ u.Admits d v := by
  have hscaled : parseScaled text u.decimals u.what = .ok v ↔
      ∃ d, matchDecimal text.toList = some d ∧ ∃ c e n,
        fix d.coefficient (u.exponent d) = some (c, e) ∧ (c : ℚ) * 10 ^ e = (n : Nat) ∧
          (if d.negative then -(n : Int) else n) = v := by
    rw [parseScaled]
    cases hmatch : matchDecimal text.toList with
    | none => simp
    | some d =>
        simp only [Option.some.injEq, exists_eq_left']
        have hread : fix (ofDigits (d.whole ++ d.fraction)) (u.decimals - d.fraction.length) =
            fix d.coefficient (u.exponent d) := rfl
        rw [hread]
        cases hfix : fix d.coefficient (u.exponent d) with
        | none => simp
        | some ce =>
            obtain ⟨c, e⟩ := ce
            simp only [Option.some.injEq, Prod.mk.injEq]
            cases hint : integral? c e with
            | none =>
                refine iff_of_false (by simp) ?_
                rintro ⟨c', e', n, ⟨rfl, rfl⟩, hn, -⟩
                rw [integral?_iff.mpr hn] at hint
                cases hint
            | some n =>
                have hn := integral?_iff.mp hint
                simp only [Except.ok.injEq]
                constructor
                · exact fun hv => ⟨c, e, n, ⟨rfl, rfl⟩, hn, hv⟩
                · rintro ⟨c', e', n', ⟨rfl, rfl⟩, hn', hv⟩
                  obtain rfl : n' = n := by exact_mod_cast hn'.symm.trans hn
                  exact hv
  rw [parse_ok, hscaled]
  constructor
  · rintro ⟨⟨d, hd, c, e, n, hfix, hn, hv⟩, hrange⟩
    exact ⟨d, hd, c, e, n, hfix, hn, hv, hrange⟩
  · rintro ⟨d, hd, c, e, n, hfix, hn, hv, hrange⟩
    exact ⟨⟨d, hd, c, e, n, hfix, hn, hv⟩, hrange⟩

theorem denotes_iff (u : FixedUnit) (text : String) (v : Int) :
    u.Denotes text v ↔ ∃ d : PlainDecimal, d.WellFormed ∧ text.toList = d.text ∧
      (if d.negative then -1 else 1) * (d.coefficient * (10 : ℚ) ^ u.exponent d) = v ∧
        u.InRange v := by
  rw [Denotes]
  refine exists_congr fun d => and_congr_right fun _ => and_congr_right fun _ => ?_
  rw [u.value_scaled]

/-- A sign makes no difference to equality. -/
theorem signed_eq_iff (negative : Bool) {x : ℚ} {n : Nat} :
    (if negative then -1 else 1) * x = ((if negative then -(n : Int) else n : Int) : ℚ) ↔
      x = n := by
  cases negative with
  | true =>
      simp only [if_true, neg_one_mul, Int.cast_neg, Int.cast_natCast, neg_inj]
  | false =>
      simp only [Bool.false_eq_true, if_false, one_mul, Int.cast_natCast]

/-- A numeral that keeps its digits and is short denotes what it admits. -/
theorem admits_iff {u : FixedUnit} {d : PlainDecimal} (hkeeps : Keeps d.coefficient (u.exponent d))
    (hshort : Short d.coefficient (u.exponent d)) (v : Int) :
    u.Admits d v ↔
      (if d.negative then -1 else 1) * (d.coefficient * (10 : ℚ) ^ u.exponent d) = v ∧
        u.InRange v := by
  obtain ⟨c, e, hfix⟩ := fix_of_keeps hkeeps hshort
  have hvalue := (fix_value hfix).1.mpr hkeeps
  constructor
  · rintro ⟨c', e', n, hfix', hn, rfl, hrange⟩
    obtain ⟨rfl, rfl⟩ := Prod.mk.inj (Option.some.inj (hfix.symm.trans hfix'))
    exact ⟨(signed_eq_iff _).mpr (hvalue.symm.trans hn), hrange⟩
  · rintro ⟨hv, hrange⟩
    -- The value is an integer, and the power of ten is positive, so its size is a natural number.
    have hsize : (d.coefficient : ℚ) * 10 ^ u.exponent d = (v.natAbs : ℚ) := by
      have hpos : (0 : ℚ) ≤ d.coefficient * 10 ^ u.exponent d :=
        mul_nonneg (Nat.cast_nonneg _) (zpow_nonneg (by norm_num) _)
      have habs : (v.natAbs : ℚ) = |(v : ℚ)| := by
        rw [← Int.cast_abs, ← Int.natCast_natAbs, Int.cast_natCast]
      rw [habs, ← hv]
      cases d.negative with
      | true => simp [abs_of_nonneg hpos]
      | false => simp [abs_of_nonneg hpos]
    refine ⟨c, e, v.natAbs, hfix, hvalue.trans hsize, ?_, hrange⟩
    have hsigned := (signed_eq_iff d.negative).mpr hsize
    exact_mod_cast hsigned.symm.trans hv

/-- Where the codec does what `Denotes` asks of a text. -/
structure Faithful (u : FixedUnit) (text : String) : Prop where
  /-- What it takes is ASCII without a newline at the end, and the digits after
  the 28th significant one are zeros. -/
  taken : ∀ d v, matchDecimal text.toList = some d → u.Admits d v →
    Clean text.toList ∧ Keeps d.coefficient (u.exponent d)
  /-- What denotes a value has zeros after the 28th digit and no million digits. -/
  denoted : ∀ d v, matchDecimal text.toList = some d → u.Denotes text v →
    Keeps d.coefficient (u.exponent d) ∧ Short d.coefficient (u.exponent d)

/-- The kinds of text on which the codec is not exact are the three of the
module's header. -/
theorem codec_exact (u : FixedUnit) (text : String) :
    (∀ v, u.parse text = .ok v ↔ u.Denotes text v) ↔ u.Faithful text := by
  constructor
  · intro h
    constructor
    · intro d v hmatch hadmits
      have hdenotes := (h v).mp ((u.parse_ok_iff text v).mpr ⟨d, hmatch, hadmits⟩)
      obtain ⟨d', hwell, htext, hv, -⟩ := (u.denotes_iff text v).mp hdenotes
      obtain rfl : d' = d := by
        rw [htext, matchDecimal_text hwell] at hmatch
        exact Option.some.inj hmatch
      obtain ⟨c, e, n, hfix, hn, rfl, -⟩ := hadmits
      refine ⟨htext ▸ hwell.clean, (fix_value hfix).1.mp (hn.trans ?_)⟩
      exact ((signed_eq_iff _).mp hv).symm
    · intro d v hmatch hdenotes
      obtain ⟨d', hmatch', c, e, n, hfix, hn, rfl, -⟩ :=
        (u.parse_ok_iff text v).mp ((h v).mpr hdenotes)
      obtain rfl := Option.some.inj (hmatch.symm.trans hmatch')
      obtain ⟨d', hwell, htext, hv, -⟩ := (u.denotes_iff text _).mp hdenotes
      obtain rfl : d' = d := by
        rw [htext, matchDecimal_text hwell] at hmatch
        exact Option.some.inj hmatch
      obtain ⟨hvalue, hshort⟩ := fix_value hfix
      exact ⟨hvalue.mp (hn.trans ((signed_eq_iff _).mp hv).symm), hshort⟩
  · intro h v
    rw [u.parse_ok_iff, u.denotes_iff]
    constructor
    · rintro ⟨d, hmatch, hadmits⟩
      obtain ⟨hclean, hkeeps⟩ := h.taken d v hmatch hadmits
      obtain ⟨hwell, htext⟩ := matchDecimal_clean hclean hmatch
      obtain ⟨c, e, n, hfix, hn, hv, hrange⟩ := hadmits
      have hshort := (fix_value hfix).2
      exact ⟨d, hwell, htext, (admits_iff hkeeps hshort v).mp ⟨c, e, n, hfix, hn, hv, hrange⟩⟩
    · rintro ⟨d, hwell, htext, hv⟩
      have hmatch : matchDecimal text.toList = some d := htext ▸ matchDecimal_text hwell
      obtain ⟨hkeeps, hshort⟩ := h.denoted d v hmatch
        ((u.denotes_iff text v).mpr ⟨d, hwell, htext, hv⟩)
      exact ⟨d, hmatch, (admits_iff hkeeps hshort v).mpr hv⟩

/-! ## Formatting -/

/-- The digits of an integer's text. -/
theorem toDigits_digits (n : Nat) : ∃ ds, Nat.toDigits 10 n = ds.map Nat.digitChar ∧
    Digits ds ∧ ds ≠ [] ∧ ofDigits ds = n := by
  induction n using Nat.strongRecOn with
  | ind n ih =>
      by_cases hn : n < 10
      · refine ⟨[n], Nat.toDigits_of_lt_base hn, ?_, List.cons_ne_nil _ _, ?_⟩
        · intro d hd
          rwa [List.mem_singleton.mp hd]
        · simp [ofDigits]
      · obtain ⟨ds, htext, hds, hne, hvalue⟩ := ih (n / 10) (by omega)
        refine ⟨ds ++ [n % 10], ?_, ?_, by simp, ?_⟩
        · rw [Nat.toDigits_of_base_le (by decide) (by omega), htext, List.map_append]
          rfl
        · intro d hd
          rcases List.mem_append.mp hd with hd | hd
          · exact hds d hd
          · rw [List.mem_singleton.mp hd]
            exact Nat.mod_lt n (by decide)
        · rw [ofDigits, List.foldl_append, ← ofDigits, hvalue]
          simp only [List.foldl_cons, List.foldl_nil]
          omega

theorem ofDigits_append (ds es : List Nat) :
    ofDigits (ds ++ es) = ofDigits ds * 10 ^ es.length + ofDigits es := by
  induction es using List.reverseRecOn with
  | nil => simp [ofDigits]
  | append_singleton es e ih =>
      have hlast : ∀ xs : List Nat, ofDigits (xs ++ [e]) = 10 * ofDigits xs + e := fun xs => by
        rw [ofDigits, List.foldl_append]
        rfl
      rw [← List.append_assoc, hlast, ih, hlast, List.length_append, List.length_singleton,
        pow_succ]
      ring

theorem ofDigits_zeros (k : Nat) : ofDigits (List.replicate k 0) = 0 := by
  induction k with
  | zero => rfl
  | succ k ih =>
      rw [List.replicate_succ', ofDigits, List.foldl_append, ← ofDigits, ih]
      rfl

/-- The digits of an integer filled up with zeros. -/
theorem zeroPadded_digits (n width : Nat) :
    ∃ ds, zeroPadded n width = ds.map Nat.digitChar ∧ Digits ds ∧
      ds.length = max width (numDigits n) ∧ ofDigits ds = n := by
  obtain ⟨ds, htext, hds, hne, hvalue⟩ := toDigits_digits n
  have hlength : ds.length = (Nat.toDigits 10 n).length := by rw [htext, List.length_map]
  refine ⟨List.replicate (width - ds.length) 0 ++ ds, ?_, ?_, ?_, ?_⟩
  · rw [zeroPadded, ← hlength, htext, List.map_append, List.map_replicate]
    rfl
  · intro d hd
    rcases List.mem_append.mp hd with hd | hd
    · rw [List.eq_of_mem_replicate hd]
      decide
    · exact hds d hd
  · rw [List.length_append, List.length_replicate, numDigits, ← hlength]
    omega
  · rw [ofDigits_append, ofDigits_zeros, hvalue]
    omega

theorem zeroPadded_length {n width : Nat} (hwidth : 0 < width) (h : n < 10 ^ width) :
    max width (numDigits n) = width :=
  max_eq_left ((numDigits_le_iff hwidth).mpr h)

theorem zeroPadded_injective {n m width : Nat} (h : zeroPadded n width = zeroPadded m width) :
    n = m := by
  obtain ⟨ds, htext, hds, -, hvalue⟩ := zeroPadded_digits n width
  obtain ⟨es, htext', hes, -, hvalue'⟩ := zeroPadded_digits m width
  have hspan := spanDigits_digits hds stops_nil
  have hspan' := spanDigits_digits hes stops_nil
  rw [List.append_nil] at hspan hspan'
  rw [← htext, h, htext', hspan'] at hspan
  rw [← hvalue, ← hvalue', (Prod.mk.inj hspan).1]

theorem decimals_pos (u : FixedUnit) : 0 < u.decimals := by
  cases u with
  | price => decide
  | count => decide
  | signedCount => decide
  | dollars => decide

theorem format_eq (u : FixedUnit) (v : Int) : u.format v = formatScaled v u.decimals := by
  cases u with
  | price => rfl
  | count => rfl
  | signedCount => rfl
  | dollars => rfl

/-- The text of a value is a numeral with the value's digits. -/
theorem format_numeral {u : FixedUnit} {v : Int} {text : String} (h : u.format v = some text) :
    ∃ d : PlainDecimal, d.WellFormed ∧ text.toList = d.text ∧ d.negative = decide (v < 0) ∧
      d.coefficient = v.natAbs ∧ u.exponent d = 0 := by
  rw [format_eq, formatScaled] at h
  split at h
  · cases h
  · obtain ⟨whole, hwholetext, hwhole, hne, hwholevalue⟩ :=
      toDigits_digits (v.natAbs / 10 ^ u.decimals)
    obtain ⟨fraction, hfractiontext, hfraction, hlength, hfractionvalue⟩ :=
      zeroPadded_digits (v.natAbs % 10 ^ u.decimals) u.decimals
    rw [zeroPadded_length u.decimals_pos (Nat.mod_lt v.natAbs (by positivity))] at hlength
    have hfne : fraction ≠ [] := by
      intro hnil
      have hpos := u.decimals_pos
      rw [hnil, List.length_nil] at hlength
      omega
    refine ⟨⟨decide (v < 0), whole, fraction⟩, ⟨hwhole, hfraction, hne⟩, ?_, rfl, ?_, ?_⟩
    · rw [← Option.some.inj h, String.toList_ofList, PlainDecimal.text, if_neg hfne, hwholetext,
        hfractiontext]
      simp only [decide_eq_true_eq]
    · rw [PlainDecimal.coefficient, ofDigits_append, hwholevalue, hfractionvalue, hlength,
        Nat.div_add_mod']
    · rw [exponent, hlength, sub_self]

/-- The text has no more digits than Python writes, and the digits after the
28th are zeros. -/
def ReadBack (u : FixedUnit) (v : Int) : Prop :=
  numDigits (v.natAbs / 10 ^ u.decimals) ≤ intMaxStrDigits ∧
    v.natAbs % 10 ^ (numDigits v.natAbs - contextPrec) = 0

/-- A value of the unit is read back from its text exactly under `ReadBack`. -/
theorem format_exact (u : FixedUnit) {v : Int} (hrange : u.InRange v) :
    (∃ text, u.format v = some text ∧ u.parse text = .ok v) ↔ u.ReadBack v := by
  have hdropped : dropped v.natAbs 0 = numDigits v.natAbs - contextPrec := by
    rw [dropped, contextEtiny]
    simp
  have hformat : (∃ text, u.format v = some text) ↔
      numDigits (v.natAbs / 10 ^ u.decimals) ≤ intMaxStrDigits := by
    rw [format_eq, formatScaled]
    split
    · next hlong => exact iff_of_false (by simp) (not_le.mpr hlong)
    · next hshort => exact iff_of_true ⟨_, rfl⟩ (not_lt.mp hshort)
  rw [ReadBack, ← hformat, ← exists_and_right]
  refine exists_congr fun text => and_congr_right fun htext => ?_
  obtain ⟨d, hwell, hd, hsign, hcoefficient, hexponent⟩ := format_numeral htext
  have hmatch : matchDecimal text.toList = some d := hd ▸ matchDecimal_text hwell
  rw [u.parse_ok_iff, hmatch]
  simp only [Option.some.injEq, exists_eq_left']
  have hsigned : (if d.negative then -(v.natAbs : Int) else v.natAbs) = v := by
    rw [hsign]
    by_cases hneg : v < 0
    · rw [if_pos (decide_eq_true hneg)]
      omega
    · rw [if_neg (by simpa using hneg)]
      omega
  have hkeeps : Keeps d.coefficient (u.exponent d) ↔
      v.natAbs % 10 ^ (numDigits v.natAbs - contextPrec) = 0 := by
    rw [Keeps, hcoefficient, hexponent, hdropped]
  rw [← hkeeps]
  constructor
  · rintro ⟨c, e, n, hfix, hn, hv, -⟩
    refine (fix_value hfix).1.mp (hn.trans ?_)
    have hnat : n = v.natAbs := by
      cases hneg : d.negative with
      | true => rw [hneg] at hv; simp only [if_true] at hv; omega
      | false => rw [hneg] at hv; simp only [Bool.false_eq_true, if_false] at hv; omega
    rw [hcoefficient, hexponent, zpow_zero, mul_one, hnat]
  · intro hk
    have hshort : Short d.coefficient (u.exponent d) := by
      refine .inr ?_
      have hlong := hformat.mp ⟨text, htext⟩
      have hdecimals : u.decimals ≤ 6 := by
        cases u with
        | price => decide
        | count => decide
        | signedCount => decide
        | dollars => decide
      rw [numDigits_le_iff (by decide), Nat.div_lt_iff_lt_mul (by positivity), ← pow_add,
        ← numDigits_le_iff (Nat.add_pos_left (by decide) _)] at hlong
      have hmax : intMaxStrDigits = 4300 := rfl
      rw [hcoefficient, hexponent, contextEmax]
      omega
    refine (admits_iff hk hshort v).mpr ⟨?_, hrange⟩
    rw [← hsigned]
    refine (signed_eq_iff _).mpr ?_
    rw [hcoefficient, hexponent, zpow_zero, mul_one]

/-- On which texts, and on which values, the codec is exact. -/
theorem decimal_codec (u : FixedUnit) :
    (∀ text, (∀ v, u.parse text = .ok v ↔ u.Denotes text v) ↔ u.Faithful text) ∧
      ∀ v, u.InRange v →
        ((∃ text, u.format v = some text ∧ u.parse text = .ok v) ↔ u.ReadBack v) :=
  ⟨u.codec_exact, fun _ hrange => u.format_exact hrange⟩

/-- A newline, a digit of another script, and a 30th digit; and a value that
does not come back. -/
theorem decimal_codec_slips :
    FixedUnit.price.parse "0.5\n" = .ok 5000 ∧ ¬ FixedUnit.price.Denotes "0.5\n" 5000 ∧
      FixedUnit.count.parse "\u0661" = .ok 100 ∧ ¬ FixedUnit.count.Denotes "\u0661" 100 ∧
      FixedUnit.count.parse "1000000000000000000000000000.01" =
        .ok 100000000000000000000000000000 ∧
      ¬ FixedUnit.count.Denotes "1000000000000000000000000000.01"
        100000000000000000000000000000 ∧
      ¬ ∃ text, FixedUnit.count.format 100000000000000000000000000001 = some text ∧
        FixedUnit.count.parse text = .ok 100000000000000000000000000001 := by
  refine ⟨by decide +kernel, ?_, by decide +kernel, ?_, by decide +kernel, ?_, ?_⟩
  · rintro ⟨d, hwell, htext, -⟩
    have hclean := hwell.clean
    rw [← htext] at hclean
    exact hclean.2 (by decide)
  · rintro ⟨d, hwell, htext, -⟩
    have hclean := hwell.clean
    rw [← htext] at hclean
    exact absurd (hclean.1 _ List.mem_cons_self) (by decide)
  · intro hdenotes
    obtain ⟨d, hwell, htext, hv, -⟩ := (denotes_iff _ _ _).mp hdenotes
    have hmatch := matchDecimal_text hwell
    rw [← htext] at hmatch
    have hread : (matchDecimal "1000000000000000000000000000.01".toList).map
        (fun d => (d.negative, d.coefficient, count.exponent d)) =
          some (false, 100000000000000000000000000001, 0) := by decide +kernel
    rw [hmatch, Option.map_some, Option.some.injEq, Prod.mk.injEq, Prod.mk.injEq] at hread
    obtain ⟨hsign, hcoefficient, hexponent⟩ := hread
    rw [hsign, hcoefficient, hexponent] at hv
    norm_num at hv
  · intro hback
    have hkept := ((format_exact _ (show (0 : Int) ≤ _ by decide)).mp hback).2
    revert hkept
    decide +kernel

/-- A power of ten, written out. -/
def powerOfTen (k : Nat) : PlainDecimal := ⟨false, 1 :: List.replicate k 0, []⟩

/-- Its text is a numeral of a count, and beyond the context from some size on. -/
theorem parseCount_powerOfTen {k : Nat} (h : contextEmax < k + countDecimals) :
    parseCount (String.ofList (powerOfTen k).text) = .error .overflow := by
  have hwell : (powerOfTen k).WellFormed := by
    refine ⟨fun d hd => ?_, nofun, List.cons_ne_nil _ _⟩
    rcases List.mem_cons.mp hd with rfl | hd
    · decide
    · rw [List.eq_of_mem_replicate hd]
      decide
  have hcoefficient : ofDigits ((powerOfTen k).whole ++ (powerOfTen k).fraction) = 1 * 10 ^ k := by
    have hsplit : (powerOfTen k).whole ++ (powerOfTen k).fraction = [1] ++ List.replicate k 0 :=
      List.append_nil _
    rw [hsplit, ofDigits_append, ofDigits_zeros, List.length_replicate, Nat.add_zero]
    rfl
  have hdigits : numDigits (1 * 10 ^ k) = 1 + k := numDigits_mul_pow one_ne_zero k
  have hne : 1 * 10 ^ k ≠ 0 := by positivity
  have hfix : fix (1 * 10 ^ k) (countDecimals - (powerOfTen k).fraction.length) = none := by
    have hzero : ((powerOfTen k).fraction.length : Int) = 0 := rfl
    rw [fix, if_neg hne, hdigits, hzero]
    refine if_pos ?_
    push_cast
    omega
  rw [parseCount, parseScaled, String.toList_ofList, matchDecimal_text hwell]
  dsimp only
  rw [hcoefficient, hfix]

end FixedUnit

end Tape
