import Mathlib.Data.List.Chain
import UtilityCss.Json.Scan
import UtilityCss.Rule

/-!
What the selector of a class says by the escape rules of CSS.  The class selector escapes everything
that is reserved, and a digit in front, so that reading it gives the name back.  The backslash itself
is not among the reserved characters: one in the name is read as the start of an escape, and only
where a reserved character follows, or nothing, is it left.
-/

namespace UtilityCss

namespace Unescape

/-- The hexadecimal digits that an escape begins with, at most six. -/
def digits (text : Text) : Text :=
  (text.take 6).takeWhile fun c => (Json.hexValue? c).isSome

/-- The character at a code point in hexadecimal digits; zero and what is no character at all are
replaced. -/
def codePoint (digits : Text) : Char :=
  let value := digits.foldl (fun value c => 16 * value + (Json.hexValue? c).getD 0) 0
  if value ≠ 0 ∧ value.isValidChar then Char.ofNat value else '\uFFFD'

/-- The character that an escape stands for and the length of the escape behind its backslash: digits
and one space, or any other character by itself. -/
def escape? : Text → Option (Char × Nat)
  | [] => none
  | c :: rest =>
      match digits (c :: rest) with
      | [] => some (c, 1)
      | digit :: more =>
          some (codePoint (digit :: more), more.length + 1 +
            if ((c :: rest).drop (more.length + 1)).head? = some ' ' then 1 else 0)

/-- Read a text behind the rest of an escape. -/
def skipping : (rest : Nat) → Text → Text
  | _, [] => []
  | rest + 1, _ :: text => skipping rest text
  | 0, c :: text =>
      match if c = '\\' then escape? text else none with
      | some (character, length) => character :: skipping length text
      | none => c :: skipping 0 text

end Unescape

/-- A text read by the escape rules of CSS: every escape is the character that it stands for, and
everything else is itself. -/
def unescape (text : Text) : Text :=
  Unescape.skipping 0 text

namespace Unescape

variable {c next : Char} {text rest : Text}

theorem skipping_of_ne (hc : c ≠ '\\') : skipping 0 (c :: text) = c :: skipping 0 text := by
  rw [skipping, if_neg hc]

/-- A character that is no digit is itself behind a backslash. -/
theorem skipping_backslash (hc : Json.hexValue? c = none) :
    skipping 0 ('\\' :: c :: text) = c :: skipping 0 text := by
  have hdigits : digits (c :: text) = [] := by
    rw [digits, List.take_succ_cons, List.takeWhile_cons, hc, Option.isSome_none,
      if_neg Bool.false_ne_true]
  rw [skipping, if_pos rfl, escape?, hdigits]
  rfl

/-- Behind a backslash at least one character belongs to its escape. -/
theorem exists_skipping_backslash (c : Char) (text : Text) :
    ∃ character length,
      skipping 0 ('\\' :: c :: text) = character :: skipping length text := by
  rw [skipping, if_pos rfl, escape?]
  cases digits (c :: text) with
  | nil => exact ⟨c, 0, rfl⟩
  | cons digit more =>
      refine ⟨codePoint (digit :: more), more.length +
        if ((c :: text).drop (more.length + 1)).head? = some ' ' then 1 else 0, ?_⟩
      dsimp only
      rw [Nat.add_right_comm, skipping]

end Unescape

section Reserved

variable {c : Char}

theorem hexValue?_of_reserved (hc : c ∈ reservedCharacters) : Json.hexValue? c = none := by
  have hall : (reservedCharacters.all fun c => (Json.hexValue? c).isNone) = true := by decide
  exact Option.isNone_iff_eq_none.mp (List.all_eq_true.mp hall c hc)

theorem ne_backslash_of_reserved (hc : c ∈ reservedCharacters) : c ≠ '\\' := by
  rintro rfl
  exact absurd hc (by decide)

theorem escapeCharacter_of_reserved (hc : c ∈ reservedCharacters) :
    escapeCharacter c = ['\\', c] :=
  if_pos (List.contains_iff_mem.mpr hc)

theorem escapeCharacter_of_notMem (hc : c ∉ reservedCharacters) : escapeCharacter c = [c] :=
  if_neg fun hcontains => hc (List.contains_iff_mem.mp hcontains)

end Reserved

namespace Unescape

variable {c next : Char} {name rest : Text}

/-- Reading what the characters of a name are escaped to, from anywhere, gives no more characters
than the name has. -/
theorem length_skipping_le (skipped : Nat) (name : Text) :
    (skipping skipped (name.flatMap escapeCharacter)).length ≤ name.length := by
  induction name generalizing skipped with
  | nil => cases skipped <;> exact Nat.le_refl 0
  | cons c rest ih =>
      rw [List.flatMap_cons, List.length_cons]
      by_cases hc : c ∈ reservedCharacters
      · rw [escapeCharacter_of_reserved hc, List.cons_append, List.singleton_append]
        match skipped with
        | 0 =>
            rw [skipping_backslash (hexValue?_of_reserved hc), List.length_cons]
            exact Nat.succ_le_succ (ih 0)
        | 1 =>
            rw [skipping, skipping_of_ne (ne_backslash_of_reserved hc), List.length_cons]
            exact Nat.succ_le_succ (ih 0)
        | skipped + 2 => exact (ih skipped).trans (Nat.le_succ _)
      · rw [escapeCharacter_of_notMem hc, List.singleton_append]
        match skipped with
        | 0 =>
            rw [skipping]
            split
            · exact Nat.succ_le_succ (ih _)
            · exact Nat.succ_le_succ (ih 0)
        | skipped + 1 => exact (ih skipped).trans (Nat.le_succ _)

end Unescape

section Unescape

variable {c next : Char} {name rest : Text}

theorem unescape_cons_of_ne (hc : c ≠ '\\') (rest : Text) :
    unescape ((c :: rest).flatMap escapeCharacter) =
      c :: unescape (rest.flatMap escapeCharacter) := by
  rw [List.flatMap_cons]
  by_cases hreserved : c ∈ reservedCharacters
  · rw [escapeCharacter_of_reserved hreserved]
    exact Unescape.skipping_backslash (hexValue?_of_reserved hreserved)
  · rw [escapeCharacter_of_notMem hreserved]
    exact Unescape.skipping_of_ne hc

/-- Before a reserved character a backslash is read as an escaped one. -/
theorem unescape_backslash_of_reserved (hnext : next ∈ reservedCharacters) (rest : Text) :
    unescape (('\\' :: next :: rest).flatMap escapeCharacter) =
      '\\' :: unescape ((next :: rest).flatMap escapeCharacter) := by
  rw [unescape_cons_of_ne (ne_backslash_of_reserved hnext), List.flatMap_cons, List.flatMap_cons,
    escapeCharacter_of_notMem (by decide : '\\' ∉ reservedCharacters),
    escapeCharacter_of_reserved hnext]
  refine (Unescape.skipping_backslash (by decide)).trans ?_
  exact congrArg ('\\' :: ·) (Unescape.skipping_of_ne (ne_backslash_of_reserved hnext))

/-- Before any other character it takes that character along, so that one is missing. -/
theorem length_unescape_lt (hnext : next ∉ reservedCharacters) (rest : Text) :
    (unescape (('\\' :: next :: rest).flatMap escapeCharacter)).length <
      ('\\' :: next :: rest).length := by
  rw [List.flatMap_cons, List.flatMap_cons,
    escapeCharacter_of_notMem (by decide : '\\' ∉ reservedCharacters),
    escapeCharacter_of_notMem hnext]
  obtain ⟨character, length, hread⟩ :=
    Unescape.exists_skipping_backslash next (rest.flatMap escapeCharacter)
  have hrest := Unescape.length_skipping_le length rest
  rw [unescape, List.singleton_append, List.singleton_append, hread]
  simp only [List.length_cons]
  omega

theorem unescape_flatMap_iff (name : Text) :
    unescape (name.flatMap escapeCharacter) = name ↔
      name.IsChain fun c next => c = '\\' → next ∈ reservedCharacters := by
  induction name with
  | nil => exact iff_of_true rfl .nil
  | cons c rest ih =>
      by_cases hc : c = '\\'
      · subst hc
        cases rest with
        | nil => exact iff_of_true rfl (.singleton _)
        | cons next more =>
            rw [List.isChain_cons_cons]
            by_cases hnext : next ∈ reservedCharacters
            · rw [unescape_backslash_of_reserved hnext, List.cons_inj_right, ih]
              exact (and_iff_right fun _ => hnext).symm
            · refine iff_of_false (fun heq => ?_) fun hchain => hnext (hchain.1 rfl)
              have hlength := length_unescape_lt hnext more
              rw [heq] at hlength
              exact Nat.lt_irrefl _ hlength
      · rw [unescape_cons_of_ne hc, List.cons_inj_right, ih, List.isChain_cons]
        exact (and_iff_right fun _ _ heq => absurd heq hc).symm

/-- The code point of a digit, closed by a space, is the digit. -/
theorem unescape_digit (hc : c.isDigit = true) (text : Text) :
    unescape ("\\3".toList ++ [c, ' '] ++ text) = c :: unescape text := by
  have hvalue : Json.hexValue? c = some (c.toNat - 48) := by rw [Json.hexValue?, if_pos hc]
  have hdigits : Unescape.digits ('3' :: c :: ' ' :: text) = ['3', c] := by
    have hthree : Json.hexValue? '3' = some 3 := by decide
    have hspace : Json.hexValue? ' ' = none := by decide
    simp [Unescape.digits, hvalue, hthree, hspace]
  have hcodePoint : Unescape.codePoint ['3', c] = c := by
    have hthree : Json.hexValue? '3' = some 3 := by decide
    have hrange : 48 ≤ c.toNat ∧ c.toNat ≤ 57 := by
      simpa [Char.isDigit, UInt32.le_iff_toNat_le] using hc
    have hnumber : 16 * 3 + (c.toNat - 48) = c.toNat := by omega
    have hcharacter : c.toNat ≠ 0 ∧ c.toNat.isValidChar := ⟨by omega, c.valid⟩
    simp only [Unescape.codePoint, List.foldl_cons, List.foldl_nil, hvalue, hthree,
      Option.getD_some, Nat.mul_zero, Nat.zero_add, hnumber]
    rw [if_pos hcharacter, Char.ofNat_toNat]
  change Unescape.skipping 0 ('\\' :: '3' :: c :: ' ' :: text) = _
  rw [Unescape.skipping, if_pos rfl, Unescape.escape?, hdigits]
  exact congrArg (· :: _) hcodePoint

/-- The class selector of a name, read by the escape rules, gives the name back exactly if each
backslash in the name is the last character of it or stands in front of a reserved one. -/
theorem unescape_escapeClass_iff (name : Text) :
    unescape (escapeClass name) = name ↔
      name.IsChain fun c next => c = '\\' → next ∈ reservedCharacters := by
  cases name with
  | nil => exact iff_of_true rfl .nil
  | cons c rest =>
      rw [escapeClass]
      split
      · rename_i hdigit
        have hc : c ≠ '\\' := by
          rintro rfl
          cases hdigit
        rw [unescape_digit hdigit, List.cons_inj_right, unescape_flatMap_iff, List.isChain_cons]
        exact (and_iff_right fun _ _ heq => absurd heq hc).symm
      · exact unescape_flatMap_iff (c :: rest)

/-- A backslash before a letter: the selector says another name, of one character less. -/
theorem unescape_escapeClass_backslash :
    let name := "a\\b".toList
    name ≠ [] ∧ name.any Char.isWhitespace = false ∧ escapeClass name = name ∧
      unescape (escapeClass name) = ['a', '\x0b'] ∧ unescape (escapeClass name) ≠ name := by
  decide

end Unescape

end UtilityCss
