/-!
Text as a list of characters, with the cuts that the token grammar, the declaration blocks and the
media features are read by: at the first or last occurrence of a character, at a separator text,
and after a known beginning or before a known end.  Classes of characters are given as closed ranges
of code points.
-/

namespace UtilityCss

/-- Every piece of text that the library reads or writes. -/
abbrev Text := List Char

/-- The test for equal texts is lawful, as membership among texts needs it. -/
instance instLawfulBEqText : LawfulBEq Text := inferInstance

/-- Closed ranges of code points, the lower bound first. -/
abbrev CharRanges := List (Nat × Nat)

/-- Whether a character lies in one of the ranges. -/
def CharRanges.covers (ranges : CharRanges) (c : Char) : Bool :=
  ranges.any fun (first, last) => first ≤ c.toNat && c.toNat ≤ last

theorem CharRanges.covers_iff {ranges : CharRanges} {c : Char} :
    ranges.covers c = true ↔ ∃ range ∈ ranges, range.1 ≤ c.toNat ∧ c.toNat ≤ range.2 := by
  simp [covers]

namespace Text

/-- The parts before and after the first `mark`. -/
def splitFirst (mark : Char) : Text → Option (Text × Text)
  | [] => none
  | c :: rest =>
      if c = mark then some ([], rest)
      else (splitFirst mark rest).map fun (before, after) => (c :: before, after)

/-- The parts before and after the last `mark`. -/
def splitLast (mark : Char) : Text → Option (Text × Text)
  | [] => none
  | c :: rest =>
      match splitLast mark rest with
      | some (before, after) => some (c :: before, after)
      | none => if c = mark then some ([], rest) else none

/-- Every cut of the text at an occurrence of `mark`, from left to right. -/
def cuts (mark : Char) : Text → List (Text × Text)
  | [] => []
  | c :: rest =>
      let later := (cuts mark rest).map fun (before, after) => (c :: before, after)
      if c = mark then ([], rest) :: later else later

/-- What follows `start`, when the text begins with it. -/
def after? : (start text : Text) → Option Text
  | [], text => some text
  | _ :: _, [] => none
  | s :: start, c :: text => if s = c then after? start text else none

/-- What precedes `ending`, when the text ends with it. -/
def before? (ending text : Text) : Option Text :=
  (after? ending.reverse text.reverse).map List.reverse

/-- The text cut at the first occurrence of a whole separator text. -/
def splitFirstText (separator : Text) : Text → Option (Text × Text)
  | [] => none
  | c :: rest =>
      match after? separator (c :: rest) with
      | some after => some ([], after)
      | none => (splitFirstText separator rest).map fun (before, after) => (c :: before, after)

/-- Replace each `old` character by `new`. -/
def replaceChar (old new : Char) (text : Text) : Text :=
  text.map fun c => if c = old then new else c

/-- Lower case of the ASCII letters; every other character stays. -/
def asciiLower (text : Text) : Text :=
  text.map Char.toLower

/-- The number of bytes of the text in UTF-8. -/
def byteCount (text : Text) : Nat :=
  text.foldl (fun count c => count + c.utf8Size) 0

theorem splitFirst_eq_some {mark : Char} {text before after : Text}
    (hsplit : splitFirst mark text = some (before, after)) :
    text = before ++ mark :: after ∧ mark ∉ before := by
  induction text generalizing before with
  | nil => simp [splitFirst] at hsplit
  | cons c rest ih =>
      by_cases hc : c = mark
      · simp [splitFirst, hc] at hsplit
        obtain ⟨rfl, rfl⟩ := hsplit
        simp [hc]
      · simp only [splitFirst, hc, ↓reduceIte, Option.map_eq_some_iff, Prod.exists] at hsplit
        obtain ⟨b, a, hrest, heq⟩ := hsplit
        simp only [Prod.mk.injEq] at heq
        obtain ⟨rfl, rfl⟩ := heq
        obtain ⟨rfl, hmark⟩ := ih hrest
        exact ⟨rfl, by simp [Ne.symm hc, hmark]⟩

theorem splitFirst_eq_none_iff {mark : Char} {text : Text} :
    splitFirst mark text = none ↔ mark ∉ text := by
  induction text with
  | nil => simp [splitFirst]
  | cons c rest ih =>
      by_cases hc : c = mark
      · simp [splitFirst, hc]
      · simp [splitFirst, hc, ih, Ne.symm hc]

theorem after?_eq_some_iff {start text rest : Text} :
    after? start text = some rest ↔ text = start ++ rest := by
  induction start generalizing text with
  | nil => simp [after?]
  | cons s start ih =>
      cases text with
      | nil => simp [after?]
      | cons c text =>
          by_cases hc : s = c
          · simp [after?, hc, ih]
          · simp [after?, hc, Ne.symm hc]

theorem before?_eq_some_iff {ending text rest : Text} :
    before? ending text = some rest ↔ text = rest ++ ending := by
  simp only [before?, Option.map_eq_some_iff, after?_eq_some_iff]
  constructor
  · rintro ⟨reversed, hreversed, rfl⟩
    have := congrArg List.reverse hreversed
    simpa using this
  · rintro rfl
    exact ⟨rest.reverse, by simp, by simp⟩

theorem length_splitFirstText_lt {separator text before after : Text}
    (hsplit : splitFirstText separator text = some (before, after)) :
    after.length < text.length + (if separator = [] then 1 else 0) := by
  induction text generalizing before with
  | nil => simp [splitFirstText] at hsplit
  | cons c rest ih =>
      simp only [splitFirstText] at hsplit
      split at hsplit
      · rename_i cut hcut
        simp only [Option.some.injEq, Prod.mk.injEq] at hsplit
        obtain ⟨-, rfl⟩ := hsplit
        have hlength := congrArg List.length (after?_eq_some_iff.mp hcut)
        cases separator with
        | nil => simp at hlength; simp [hlength]
        | cons => simp at hlength ⊢; omega
      · simp only [Option.map_eq_some_iff, Prod.exists, Prod.mk.injEq] at hsplit
        obtain ⟨b, a, hrest, -, rfl⟩ := hsplit
        have := ih hrest
        simp only [List.length_cons]
        omega

/-- The parts between the occurrences of a separator text, read from left to right without overlap.
An empty separator cuts nothing. -/
def splitOnText (separator text : Text) : List Text :=
  if hempty : separator = [] then [text]
  else
    match hsplit : splitFirstText separator text with
    | none => [text]
    | some (before, after) =>
        have : after.length < text.length := by
          simpa [hempty] using length_splitFirstText_lt hsplit
        before :: splitOnText separator after
  termination_by text.length

end Text

end UtilityCss
