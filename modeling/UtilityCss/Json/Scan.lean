import UtilityCss.Number.Binary64

/-!
The smallest pieces of strict JSON text: white space, literal words, string bodies and numbers.  A
reader consumes the front of a text and returns what is left, or the first fault that it meets.
-/

namespace UtilityCss.Json

/-- Why a text could not be read. -/
inductive Fault where
  /-- The text is not JSON. -/
  | malformed
  /-- The text ends too early. -/
  | truncated
  /-- The text is JSON of another shape than the one asked for. -/
  | wrongShape
deriving DecidableEq, Repr, Inhabited

/-- What a reader found at the front of a text, and the rest of the text. -/
abbrev Read (α : Type) := Except Fault (α × Text)

/-- Go on behind what was found. -/
def Read.andThen {α β : Type} (found : Read α) (next : α → Text → Read β) : Read β :=
  match found with
  | .ok (value, rest) => next value rest
  | .error fault => .error fault

theorem Read.andThen_eq_ok_iff {α β : Type} {found : Read α} {next : α → Text → Read β}
    {result : β × Text} :
    found.andThen next = .ok result ↔
      ∃ value rest, found = .ok (value, rest) ∧ next value rest = .ok result := by
  cases found with
  | error fault => simp [andThen]
  | ok pair =>
      obtain ⟨value, rest⟩ := pair
      constructor
      · intro h
        exact ⟨value, rest, rfl, h⟩
      · rintro ⟨v, r, heq, h⟩
        cases heq
        exact h

def isSpace (c : Char) : Bool :=
  c = ' ' || c = '\n' || c = '\t' || c = '\r'

def skipSpace (text : Text) : Text :=
  text.dropWhile isSpace

/-- Read a known word, character by character. -/
def readWord : (word text : Text) → Except Fault Text
  | [], text => .ok text
  | _ :: _, [] => .error .truncated
  | w :: word, c :: text => if w = c then readWord word text else .error .malformed

/-- The value of a hexadecimal digit in either case. -/
def hexValue? (c : Char) : Option Nat :=
  if c.isDigit then some (c.toNat - 48)
  else if 'a' ≤ c && c ≤ 'f' then some (c.toNat - 87)
  else if 'A' ≤ c && c ≤ 'F' then some (c.toNat - 55)
  else none

/-- Four hexadecimal digits.  A text of fewer than four bytes ends too early. -/
def readHex4 (text : Text) : Read Nat :=
  if Text.byteCount (text.take 4) < 4 then .error .truncated
  else
    match text with
    | a :: b :: c :: d :: rest =>
        match hexValue? a, hexValue? b, hexValue? c, hexValue? d with
        | some a, some b, some c, some d => .ok (4096 * a + 256 * b + 16 * c + d, rest)
        | _, _, _, _ => .error .malformed
    | _ => .error .malformed

def isLeadingSurrogate (unit : Nat) : Bool := 0xD800 ≤ unit && unit ≤ 0xDBFF

def isTrailingSurrogate (unit : Nat) : Bool := 0xDC00 ≤ unit && unit ≤ 0xDFFF

/-- The character that a pair of surrogates stands for. -/
def pairCharacter (leading trailing : Nat) : Char :=
  Char.ofNat ((leading - 0xD800) * 0x400 + (trailing - 0xDC00) + 0x10000)

/-- The second half of a surrogate pair, with its own escape. -/
def readTrailing (leading : Nat) : Text → Read Char
  | '\\' :: 'u' :: rest =>
      (readHex4 rest).andThen fun trailing rest =>
        if isTrailingSurrogate trailing then .ok (pairCharacter leading trailing, rest)
        else .error .malformed
  | [] => .error .truncated
  | ['\\'] => .error .truncated
  | _ => .error .malformed

/-- The character that four digits stand for, with a second escape when they are the first half of a
surrogate pair. -/
def readCodeUnits (text : Text) : Read Char :=
  (readHex4 text).andThen fun unit rest =>
    if isTrailingSurrogate unit then .error .malformed
    else if isLeadingSurrogate unit then readTrailing unit rest
    else .ok (Char.ofNat unit, rest)

/-- What stands behind the backslash of an escape.  In a string whose content is ignored, digits are
not asked what they stand for. -/
def readEscape (ignored : Bool) : Text → Read Char
  | [] => .error .truncated
  | c :: rest =>
      if c = '"' || c = '\\' || c = '/' then .ok (c, rest)
      else if c = 'b' then .ok ('\x08', rest)
      else if c = 'f' then .ok ('\x0c', rest)
      else if c = 'n' then .ok ('\n', rest)
      else if c = 'r' then .ok ('\r', rest)
      else if c = 't' then .ok ('\t', rest)
      else if c = 'u' then
        if ignored then (readHex4 rest).andThen fun _ after => .ok (' ', after)
        else readCodeUnits rest
      else .error .malformed

theorem length_readHex4_lt {text rest : Text} {unit : Nat} (h : readHex4 text = .ok (unit, rest)) :
    rest.length < text.length := by
  unfold readHex4 at h
  split at h
  · cases h
  · split at h
    · split at h
      · cases h
        simp only [List.length_cons]
        omega
      · cases h
    · cases h

theorem length_readTrailing_lt {leading : Nat} {text rest : Text} {c : Char}
    (h : readTrailing leading text = .ok (c, rest)) : rest.length < text.length := by
  unfold readTrailing at h
  split at h
  · obtain ⟨trailing, after, hhex, h⟩ := Read.andThen_eq_ok_iff.mp h
    have hlength := length_readHex4_lt hhex
    split at h
    · simp only [Except.ok.injEq, Prod.mk.injEq] at h
      simp only [← h.2, List.length_cons]
      omega
    · cases h
  all_goals cases h

theorem length_readCodeUnits_lt {text rest : Text} {c : Char}
    (h : readCodeUnits text = .ok (c, rest)) : rest.length < text.length := by
  obtain ⟨unit, after, hhex, h⟩ := Read.andThen_eq_ok_iff.mp h
  have hlength := length_readHex4_lt hhex
  split at h
  · cases h
  · split at h
    · have := length_readTrailing_lt h
      omega
    · simp only [Except.ok.injEq, Prod.mk.injEq] at h
      simpa only [← h.2] using hlength

theorem length_readEscape_lt {ignored : Bool} {text rest : Text} {c : Char}
    (h : readEscape ignored text = .ok (c, rest)) : rest.length < text.length := by
  cases text with
  | nil => cases h
  | cons first tail =>
      have hsimple (c' : Char) (heq : (Except.ok (c', tail) : Read Char) = .ok (c, rest)) :
          rest.length < (first :: tail).length := by
        simp only [Except.ok.injEq, Prod.mk.injEq] at heq
        simp [← heq.2]
      have hdigits (hread : rest.length < tail.length) : rest.length < (first :: tail).length :=
        Nat.lt_succ_of_lt hread
      simp only [readEscape] at h
      repeat' split at h
      · exact hsimple _ h
      · exact hsimple _ h
      · exact hsimple _ h
      · exact hsimple _ h
      · exact hsimple _ h
      · exact hsimple _ h
      · obtain ⟨unit, after, hhex, h⟩ := Read.andThen_eq_ok_iff.mp h
        simp only [Except.ok.injEq, Prod.mk.injEq] at h
        exact hdigits (h.2 ▸ length_readHex4_lt hhex)
      · exact hdigits (length_readCodeUnits_lt h)
      · cases h

/-- A string behind its opening quote, up to and without the closing one. -/
def readStringBody (ignored : Bool) (text : Text) : Read Text :=
  match text with
  | [] => .error .truncated
  | c :: rest =>
      if c = '"' then .ok ([], rest)
      else if c = '\\' then
        match hescape : readEscape ignored rest with
        | .ok (c, after) =>
            have : after.length < (c :: rest).length :=
              Nat.lt_succ_of_lt (length_readEscape_lt hescape)
            (readStringBody ignored after).map fun (body, after) => (c :: body, after)
        | .error fault => .error fault
      else if c.toNat < 0x20 then .error .malformed
      else (readStringBody ignored rest).map fun (body, after) => (c :: body, after)
  termination_by text.length
  decreasing_by
    · assumption
    · exact Nat.lt_succ_self _

/-- A number as it is written: digits and a power of ten.  Only the digits that fit into 64 bits
count. -/
structure NumberText where
  /-- Digits alone, without sign, point and exponent. -/
  plain : Bool
  digits : Nat
  exponent : Int
deriving DecidableEq, Repr

/-- Put digits behind a number, up to the first that does not fit into 64 bits.  The second result is
how many digits are left. -/
def appendDigits (number : Nat) : (digits : Text) → Nat × Nat
  | [] => (number, 0)
  | c :: rest =>
      let longer := 10 * number + (c.toNat - 48)
      if longer < Nat.pow 2 64 then appendDigits longer rest else (number, rest.length + 1)

/-- The number with a whole part and a fraction.  A digit that is left out of the whole part still
counts in the power of ten. -/
def NumberText.ofParts (plain : Bool) (whole fraction : Text) : NumberText :=
  let (digits, wholeLeft) := appendDigits 0 whole
  let (digits, fractionLeft) := appendDigits digits fraction
  ⟨plain, digits, (wholeLeft : Int) - ((fraction.length : Int) - fractionLeft)⟩

/-- The largest power of ten that is a finite double. -/
def maxPowerOfTen : Int := 308

/-- Whether a number is too large for a double, when its digits and its power of ten are rounded one
by one. -/
def NumberText.isOutOfRange (number : NumberText) : Bool :=
  let isInfinite : Binary64 → Bool
    | .infinite _ => true
    | _ => false
  number.digits ≠ 0 && 0 ≤ number.exponent
    && (maxPowerOfTen < number.exponent
      || isInfinite ((Binary64.ofNat number.digits).mul (.ofDecimal false 1 number.exponent)))

/-- One or more digits. -/
def readDigitRun (text : Text) : Read Text :=
  match spanDigits text with
  | ([], []) => .error .truncated
  | ([], _ :: _) => .error .malformed
  | found => .ok found

/-- An exponent behind its `e`, as a whole number. -/
def readExponent (text : Text) : Read Int :=
  match text with
  | '-' :: rest => (readDigitRun rest).map fun (digits, after) => (-(digitsValue digits : Int), after)
  | '+' :: rest => (readDigitRun rest).map fun (digits, after) => ((digitsValue digits : Int), after)
  | _ => (readDigitRun text).map fun (digits, after) => ((digitsValue digits : Int), after)

/-- The exponent of a number, if it has one. -/
def readOptionalExponent (number : NumberText) (text : Text) : Read NumberText :=
  match text with
  | c :: rest =>
      if c = 'e' || c = 'E' then
        (readExponent rest).map fun (exponent, after) =>
          ({ number with plain := false, exponent := number.exponent + exponent }, after)
      else .ok (number, text)
  | [] => .ok (number, text)

/-- What follows the sign of a number: no zero in front of other digits, and digits on both sides of
a point. -/
def scanUnsigned (negative : Bool) (text : Text) : Read NumberText :=
  (readDigitRun text).andThen fun whole rest =>
    if whole.head? = some '0' && whole.length ≠ 1 then .error .malformed
    else
      match rest with
      | '.' :: tail =>
          (readDigitRun tail).andThen fun fraction after =>
            readOptionalExponent (.ofParts false whole fraction) after
      | _ => readOptionalExponent (.ofParts (!negative) whole []) rest

/-- A number of any form. -/
def scanNumber : Text → Read NumberText
  | '-' :: rest => scanUnsigned true rest
  | text => scanUnsigned false text

/-- A number whose value is asked for, so that it must be in range. -/
def readNumber (text : Text) : Read NumberText :=
  (scanNumber text).andThen fun number rest =>
    if number.isOutOfRange then .error .malformed else .ok (number, rest)

/-- A number that is ignored: a fault in it never counts as an early end. -/
def skipNumber (text : Text) : Except Fault Text :=
  match scanNumber text with
  | .ok (_, rest) => .ok rest
  | .error _ => .error .malformed

end UtilityCss.Json
