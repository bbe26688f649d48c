import GeoRisk.Kit.Double
import GeoRisk.Text.Calendar

/-!
# Reading numbers

`int` and `float` of a text, as the interpreter reads them: the decimal digits of every script
count, white space around the number does not, and single underscores may stand between digits.

* `decimal`, `isDigit`   `unicodedata.decimal` and `str.isdigit` of one character;
* `parseInt`             `int(s)`;
* `parseFloat`           `float(s)`, with the spellings of the infinities and of not-a-number;
* `parseFloat_digits`    plain digits are a number, and not a negative one.

`none` is the `ValueError`.
-/

namespace GeoRisk
open Kit

/-- the zeros of the runs of ten decimal digits -/
def decimalZeros : List Nat :=
  [0x30, 0x660, 0x6F0, 0x7C0, 0x966, 0x9E6, 0xA66, 0xAE6, 0xB66, 0xBE6, 0xC66, 0xCE6, 0xD66, 0xDE6,
    0xE50, 0xED0, 0xF20, 0x1040, 0x1090, 0x17E0, 0x1810, 0x1946, 0x19D0, 0x1A80, 0x1A90, 0x1B50,
    0x1BB0, 0x1C40, 0x1C50, 0xA620, 0xA8D0, 0xA900, 0xA9D0, 0xA9F0, 0xAA50, 0xABF0, 0xFF10, 0x104A0,
    0x10D30, 0x11066, 0x110F0, 0x11136, 0x111D0, 0x112F0, 0x11450, 0x114D0, 0x11650, 0x116C0,
    0x11730, 0x118E0, 0x11950, 0x11C50, 0x11D50, 0x11DA0, 0x11F50, 0x16A60, 0x16AC0, 0x16B50,
    0x1D7CE, 0x1D7D8, 0x1D7E2, 0x1D7EC, 0x1D7F6, 0x1E140, 0x1E2F0, 0x1E4F0, 0x1E950, 0x1FBF0]

def decimal (c : Char) : Option Nat :=
  (decimalZeros.find? fun z => decide (z ≤ c.toNat) && decide (c.toNat < z + 10)).map (c.toNat - ·)

/-- a decimal digit, or a superscript, subscript, circled or similar one -/
def isDigit (c : Char) : Bool :=
  (decimal c).isSome ||
    inRanges [(0xB2, 0xB3), (0xB9, 0xB9), (0x1369, 0x1371), (0x19DA, 0x19DA), (0x2070, 0x2070),
      (0x2074, 0x2079), (0x2080, 0x2089), (0x2460, 0x2468), (0x2474, 0x247C), (0x2488, 0x2490),
      (0x24EA, 0x24EA), (0x24F5, 0x24FD), (0x24FF, 0x24FF), (0x2776, 0x277E), (0x2780, 0x2788),
      (0x278A, 0x2792), (0x10A40, 0x10A43), (0x10E60, 0x10E68), (0x11052, 0x1105A),
      (0x1F100, 0x1F10A)] c

/-- digits and spaces of other scripts become those of ASCII, the rest of them `?` -/
def toAscii (c : Char) : Char :=
  if c.toNat < 127 then c
  else if isSpace c then ' '
  else match decimal c with
    | some d => Date.digitChar d
    | none => '?'

/-- `Py_ISSPACE` -/
def isAsciiSpace (c : Char) : Bool := inRanges [(0x09, 0x0D), (0x20, 0x20)] c

def isAsciiDigit (c : Char) : Bool := inRanges [(0x30, 0x39)] c

def asciiLower (c : Char) : Char := if 'A' ≤ c ∧ c ≤ 'Z' then Char.ofNat (c.toNat + 32) else c

/-- the text without its underscores, each of which has to stand between two digits; `prev` is the
character before -/
def dropUnderscores : Char → Text → Option Text
  | prev, [] => if prev = '_' then none else some []
  | prev, c :: s =>
    if c = '_' then if isAsciiDigit prev then dropUnderscores c s else none
    else if prev = '_' ∧ !isAsciiDigit c then none
    else (dropUnderscores c s).map (c :: ·)

/-- the part of a text that is a number, in ASCII -/
def numeral (s : Text) : Option Text :=
  (dropUnderscores ' ' (s.map toAscii)).map (trim isAsciiSpace)

/-- an optional sign (whether it is `-`), and the rest -/
def signed : Text → Bool × Text
  | '-' :: s => (true, s)
  | '+' :: s => (false, s)
  | s => (false, s)

/-- the value of one digit or more -/
def digitsValue (s : Text) : Option Int := if s = [] then none else Date.number s

/-- the number of digits from which on `int` refuses a text -/
def maxStrDigits : Nat := 4300

def parseInt (s : Text) : Option Int := do
  let (negative, s) := signed (← numeral s)
  let n ← digitsValue s
  if maxStrDigits < s.length then none else some (if negative then -n else n)

/-- an unsigned number with an optional point and exponent -/
def parseDecimal (s : Text) : Option ℚ := do
  let (mantissa, exponent) := s.span fun c => c ≠ 'e' ∧ c ≠ 'E'
  let e ← match exponent with
    | [] => some 0
    | _ :: s =>
      let (negative, s) := signed s
      (digitsValue s).map fun e => if negative then -e else e
  let (whole, fraction) := mantissa.span (· ≠ '.')
  let n ← digitsValue (whole ++ fraction.drop 1)
  some (n * 10 ^ (e - (fraction.length - 1 : Nat)))

def parseFloat (s : Text) : Option Double := do
  let (negative, s) := signed (← numeral s)
  let word := s.map asciiLower
  if word = txt "nan" then some .nan
  else if word = txt "inf" ∨ word = txt "infinity" then some (.infinite negative)
  else
    let q ← parseDecimal s
    some (.ofRat (if negative then -q else q))

/-! ## plain digits -/

theorem isAsciiDigit_iff {c : Char} : isAsciiDigit c = true ↔ 48 ≤ c.toNat ∧ c.toNat ≤ 57 := by
  simp [isAsciiDigit, inRanges]

theorem digit_bounds {c : Char} (h : isAsciiDigit c = true) : '0' ≤ c ∧ c ≤ '9' :=
  isAsciiDigit_iff.mp h

theorem dropUnderscores_digits {s : Text} (h : ∀ c ∈ s, isAsciiDigit c = true) :
    ∀ prev, prev ≠ '_' → dropUnderscores prev s = some s := by
  induction s with
  | nil =>
    intro prev hprev
    exact if_neg hprev
  | cons c s ih =>
    intro prev hprev
    obtain ⟨hc, hs⟩ := List.forall_mem_cons.mp h
    have hne : c ≠ '_' := by
      rintro rfl
      cases hc
    rw [dropUnderscores, if_neg hne, if_neg fun k => hprev k.1, ih hs c hne]
    rfl

theorem number_digits {s : Text} (h : ∀ c ∈ s, isAsciiDigit c = true) :
    ∃ n : Nat, Date.number s = some (n : Int) := by
  -- the induction carries the number read so far
  suffices hfold : ∀ k : Nat, ∃ n : Nat, s.foldl (fun (n : Option Int) c => n.bind fun n =>
      if '0' ≤ c ∧ c ≤ '9' then some (n * 10 + (c.toNat - 48 : Nat)) else none) (some k) =
        some (n : Int) from hfold 0
  induction s with
  | nil =>
    intro k
    exact ⟨k, rfl⟩
  | cons c s ih =>
    intro k
    obtain ⟨hc, hs⟩ := List.forall_mem_cons.mp h
    obtain ⟨n, hn⟩ := ih hs (k * 10 + (c.toNat - 48))
    refine ⟨n, ?_⟩
    rw [List.foldl_cons, Option.bind_some, if_pos (digit_bounds hc)]
    exact_mod_cast hn

theorem numeral_digits {s : Text} (h : ∀ c ∈ s, isAsciiDigit c = true) : numeral s = some s := by
  have hascii : s.map toAscii = s := by
    conv_rhs => rw [← List.map_id s]
    refine List.map_congr_left fun c hc => ?_
    have hlt := (isAsciiDigit_iff.mp (h c hc)).2
    exact if_pos (by omega)
  have hspace : ∀ c ∈ s, isAsciiSpace c = false := by
    intro c hc
    have hlt := (isAsciiDigit_iff.mp (h c hc)).1
    simp only [isAsciiSpace, inRanges, List.any_cons, List.any_nil, Bool.or_false,
      Bool.or_eq_false_iff, Bool.and_eq_false_iff, decide_eq_false_iff_not]
    omega
  unfold numeral
  rw [hascii, dropUnderscores_digits h ' ' (by decide), Option.map_some,
    trim_eq_self isAsciiSpace (fun c hc => hspace c (List.mem_of_mem_head? hc))
      fun c hc => hspace c (List.mem_of_mem_getLast? hc)]

/-- a digit is none of the letters and marks of a number -/
theorem ne_of_digit {s : Text} (h : ∀ c ∈ s, isAsciiDigit c = true) {d : Char}
    (hd : isAsciiDigit d = false) : ∀ c ∈ s, c ≠ d := by
  rintro c hc rfl
  rw [h c hc] at hd
  cases hd

theorem signed_digits {s : Text} (h : ∀ c ∈ s, isAsciiDigit c = true) : signed s = (false, s) := by
  have hminus := ne_of_digit h (d := '-') (by decide)
  have hplus := ne_of_digit h (d := '+') (by decide)
  unfold signed
  split
  · exact absurd rfl (hminus '-' (List.mem_cons_self ..))
  · exact absurd rfl (hplus '+' (List.mem_cons_self ..))
  · rfl

theorem parseDecimal_digits {s : Text} (h0 : s ≠ []) (h : ∀ c ∈ s, isAsciiDigit c = true) :
    ∃ n : Nat, parseDecimal s = some (n : ℚ) := by
  obtain ⟨n, hn⟩ := number_digits h
  have hspan : ∀ p : Char → Bool, (∀ c ∈ s, p c = true) → s.span p = (s, []) := by
    intro p hp
    rw [List.span_eq_takeWhile_dropWhile, List.takeWhile_eq_self_iff.mpr hp,
      List.dropWhile_eq_nil_iff.mpr hp]
  have hmantissa : s.span (fun c => c ≠ 'e' ∧ c ≠ 'E') = (s, []) := by
    refine hspan _ fun c hc => decide_eq_true ?_
    exact ⟨ne_of_digit h (by decide) c hc, ne_of_digit h (by decide) c hc⟩
  have hwhole : s.span (· ≠ '.') = (s, []) :=
    hspan _ fun c hc => decide_eq_true (ne_of_digit h (by decide) c hc)
  have hvalue : digitsValue (s ++ List.drop 1 []) = some (n : Int) := by
    rw [List.drop_nil, List.append_nil, digitsValue, if_neg h0, hn]
  refine ⟨n, ?_⟩
  unfold parseDecimal
  simp only [hmantissa, hwhole, Option.bind_eq_bind, Option.bind_some, hvalue]
  simp

/-- **A text of plain digits is a number that is not negative.** -/
theorem parseFloat_digits {s : Text} (h0 : s ≠ []) (h : ∀ c ∈ s, isAsciiDigit c = true) :
    ∃ x, parseFloat s = some x ∧ 0 ≤ x := by
  obtain ⟨n, hn⟩ := parseDecimal_digits h0 h
  have hlower : s.map asciiLower = s := by
    conv_rhs => rw [← List.map_id s]
    refine List.map_congr_left fun c hc => if_neg ?_
    intro hcap
    have hle : 65 ≤ c.toNat := hcap.1
    have hdigit := (isAsciiDigit_iff.mp (h c hc)).2
    omega
  have hword : ∀ word : Text, word.all isAsciiDigit = false → s.map asciiLower ≠ word := by
    intro word hletter heq
    rw [← heq, hlower, List.all_eq_true.mpr h] at hletter
    cases hletter
  refine ⟨.ofRat n, ?_, Double.ofRat_nonneg (Nat.cast_nonneg n)⟩
  unfold parseFloat
  simp only [numeral_digits h, signed_digits h, Option.bind_eq_bind, Option.bind_some]
  rw [if_neg (hword _ rfl), if_neg (not_or.mpr ⟨hword _ rfl, hword _ rfl⟩), hn]
  rfl

end GeoRisk
