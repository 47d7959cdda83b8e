import UtilityCss.Text.Columns.Combining
import UtilityCss.Text.Columns.Emoji

/-!
The number of columns that a text takes on a terminal, and its padding to a number of columns.
Characters are drawn together with what follows them: pictures are joined, styled and toned, regional
indicators make flags, and letters make ligatures.  A step from the last character to the first
therefore takes the opening of the text behind a character to the columns that the character adds and
to the opening with it.
-/

namespace UtilityCss

/-- Characters that take two columns: those whose `East_Asian_Width` is wide or full. -/
def wideRanges : CharRanges :=
  [(0x1100, 0x115F), (0x231A, 0x231B), (0x2329, 0x232A), (0x23E9, 0x23EC), (0x23F0, 0x23F0),
    (0x23F3, 0x23F3), (0x25FD, 0x25FE), (0x2614, 0x2615), (0x2630, 0x2637), (0x2648, 0x2653),
    (0x267F, 0x267F), (0x268A, 0x268F), (0x2693, 0x2693), (0x26A1, 0x26A1), (0x26AA, 0x26AB),
    (0x26BD, 0x26BE), (0x26C4, 0x26C5), (0x26CE, 0x26CE), (0x26D4, 0x26D4), (0x26EA, 0x26EA),
    (0x26F2, 0x26F3), (0x26F5, 0x26F5), (0x26FA, 0x26FA), (0x26FD, 0x26FD), (0x2705, 0x2705),
    (0x270A, 0x270B), (0x2728, 0x2728), (0x274C, 0x274C), (0x274E, 0x274E), (0x2753, 0x2755),
    (0x2757, 0x2757), (0x2795, 0x2797), (0x27B0, 0x27B0), (0x27BF, 0x27BF), (0x2B1B, 0x2B1C),
    (0x2B50, 0x2B50), (0x2B55, 0x2B55), (0x2E80, 0x2E99), (0x2E9B, 0x2EF3), (0x2F00, 0x2FD5),
    (0x2FF0, 0x303E), (0x3041, 0x3096), (0x3099, 0x30FF), (0x3105, 0x312F), (0x3131, 0x318E),
    (0x3190, 0x31E5), (0x31EF, 0x321E), (0x3220, 0x3247), (0x3250, 0xA48C), (0xA490, 0xA4C6),
    (0xA960, 0xA97C), (0xAC00, 0xD7A3), (0xF900, 0xFAFF), (0xFE10, 0xFE19), (0xFE30, 0xFE52),
    (0xFE54, 0xFE66), (0xFE68, 0xFE6B), (0xFF01, 0xFF60), (0xFFE0, 0xFFE6), (0x16FE0, 0x16FE4),
    (0x16FF0, 0x16FF6), (0x17000, 0x18CD5), (0x18CFF, 0x18D1E), (0x18D80, 0x18DF2),
    (0x18E00, 0x191FF), (0x1AFF0, 0x1AFF3), (0x1AFF5, 0x1AFFB), (0x1AFFD, 0x1AFFE),
    (0x1B000, 0x1B123), (0x1B132, 0x1B132), (0x1B150, 0x1B152), (0x1B155, 0x1B155),
    (0x1B164, 0x1B168), (0x1B170, 0x1B2FB), (0x1D300, 0x1D356), (0x1D360, 0x1D376),
    (0x1F004, 0x1F004), (0x1F0CF, 0x1F0CF), (0x1F18E, 0x1F18E), (0x1F191, 0x1F19A),
    (0x1F200, 0x1F202), (0x1F210, 0x1F23B), (0x1F240, 0x1F248), (0x1F250, 0x1F251),
    (0x1F260, 0x1F265), (0x1F300, 0x1F320), (0x1F32D, 0x1F335), (0x1F337, 0x1F37C),
    (0x1F37E, 0x1F393), (0x1F3A0, 0x1F3CA), (0x1F3CF, 0x1F3D3), (0x1F3E0, 0x1F3F0),
    (0x1F3F4, 0x1F3F4), (0x1F3F8, 0x1F43E), (0x1F440, 0x1F440), (0x1F442, 0x1F4FC),
    (0x1F4FF, 0x1F53D), (0x1F54B, 0x1F54E), (0x1F550, 0x1F567), (0x1F57A, 0x1F57A),
    (0x1F595, 0x1F596), (0x1F5A4, 0x1F5A4), (0x1F5FB, 0x1F64F), (0x1F680, 0x1F6C5),
    (0x1F6CC, 0x1F6CC), (0x1F6D0, 0x1F6D2), (0x1F6D5, 0x1F6D9), (0x1F6DC, 0x1F6DF),
    (0x1F6EB, 0x1F6EC), (0x1F6F4, 0x1F6FC), (0x1F7E0, 0x1F7EB), (0x1F7F0, 0x1F7F0),
    (0x1F90C, 0x1F93A), (0x1F93C, 0x1F945), (0x1F947, 0x1F9FF), (0x1FA70, 0x1FA7C),
    (0x1FA80, 0x1FAC6), (0x1FAC8, 0x1FAC8), (0x1FACC, 0x1FADD), (0x1FADF, 0x1FAEB),
    (0x1FAEF, 0x1FAFA), (0x20000, 0x2FFFD), (0x30000, 0x3FFFD)]

/-- The forms of the Arabic letter alef. -/
def alefRanges : CharRanges :=
  [(0x622, 0x623), (0x625, 0x625), (0x627, 0x627), (0x671, 0x673), (0x675, 0x675), (0x773, 0x774),
    (0x870, 0x882)]

/-- The forms of the Arabic letter lam. -/
def lamRanges : CharRanges :=
  [(0x644, 0x644), (0x6B5, 0x6B8), (0x76A, 0x76A), (0x8A6, 0x8A6), (0x8C7, 0x8C7)]

/-- The Khmer consonants and vowels with a form below another letter. -/
def khmerRanges : CharRanges :=
  [(0x1780, 0x1782), (0x1784, 0x1787), (0x1789, 0x178C), (0x178E, 0x1793), (0x1795, 0x1798),
    (0x179B, 0x179D), (0x17A0, 0x17A0), (0x17A2, 0x17A2), (0x17A7, 0x17A7), (0x17AB, 0x17AC),
    (0x17AF, 0x17AF)]

/-- The consonants of Tifinagh. -/
def tifinaghRanges : CharRanges := [(0x2D31, 0x2D65), (0x2D6F, 0x2D6F)]

/-- The tone letters of Lisu that a second one can follow. -/
def firstToneRanges : CharRanges := [(0xA4F8, 0xA4FB)]

/-- The tone letters of Lisu that can follow another one. -/
def secondToneRanges : CharRanges := [(0xA4FC, 0xA4FD)]

/-- The columns of a character that stands for itself. -/
def charColumns (c : Char) : Nat :=
  if c = '\u115f' || c = '\u17a4' then 2
  else if c = '\u17d8' then 3
  else if combiningRanges.covers c then 0
  else if wideRanges.covers c then 2
  else 1

/-- Joins two pictures into one, and letters into a ligature. -/
def zeroWidthJoiner : Char := '\u200d'

/-- A letter that can be drawn together with one before it. -/
inductive Ligature where
  | alef
  | lamed
  | buginese
  /-- The Buginese letter with its joiner and the vowel before it. -/
  | bugineseVowel
  | tifinagh
  /-- A Tifinagh consonant with the sign that joins it to another. -/
  | tifinaghJoined
  | tone
  | turkic
  | khmer
deriving DecidableEq, Repr

/-- How a text opens. -/
inductive Opening where
  | plain
  | lineFeed
  /-- A skin tone. -/
  | tone
  /-- One regional indicator. -/
  | flagLetter
  /-- Two or more regional indicators. -/
  | flagLetters
  | picture
  /-- A joiner in front of a picture. -/
  | joiner
  /-- The frame of a key in front of a joiner. -/
  | joinedKeycap
  /-- Some regional indicators in front of a joiner. -/
  | joinedFlags (count : Nat)
  /-- Tags in front of a joiner: digits, then letters, then the end. -/
  | joinedTags (digits letters : Nat)
  /-- The Kirat Rai vowels that can be written in parts. -/
  | kiratE
  | kiratAi
  /-- A letter, and whether there is a joiner in front of it. -/
  | letter (ligature : Ligature) (joined : Bool)
deriving DecidableEq, Repr

/-- What a character adds to the columns of the text behind it, and the opening with it. -/
abbrev ColumnStep := Int × Opening

/-- How a letter is drawn together with a character before it, when the two are a ligature.  A
negative number takes back columns of what follows. -/
def Ligature.joinLeft? (ligature : Ligature) (joined : Bool) (c : Char) : Option ColumnStep :=
  match ligature with
  | .alef =>
      if lamRanges.covers c then some (0, .plain)
      else if charColumns c = 0 && !unjoiningRanges.covers c then some (0, .letter .alef joined)
      else none
  | .lamed => if joined && c = '\u05d0' then some (0, .plain) else none
  | .buginese =>
      if joined && c = '\u1a17' then some (0, .letter .bugineseVowel true) else none
  | .bugineseVowel => if c = '\u1a15' then some (0, .plain) else none
  | .tifinagh =>
      if c = '\u2d7f' then some (1, .letter .tifinaghJoined true)
      else if joined && tifinaghRanges.covers c then some (0, .plain)
      else none
  | .tifinaghJoined => if tifinaghRanges.covers c then some (-1, .plain) else none
  | .tone => if firstToneRanges.covers c then some (0, .plain) else none
  | .turkic => if joined && c = Char.ofNat 0x10C32 then some (0, .plain) else none
  | .khmer => if c = '\u17d2' then some (-1, .plain) else none

namespace Opening

/-- The opening of a text whose first character is not joined to the second. -/
def ofChar (c : Char) : Opening :=
  if emojiRanges.covers c then if toneRanges.covers c then .tone else .picture
  else if flagLetterRanges.covers c then .flagLetter
  else if c = '\u05dc' then .letter .lamed false
  else if alefRanges.covers c then .letter .alef false
  else if khmerRanges.covers c then .letter .khmer false
  else if c = '\u1a10' then .letter .buginese false
  else if tifinaghRanges.covers c then .letter .tifinagh false
  else if secondToneRanges.covers c then .letter .tone false
  else if c = Char.ofNat 0x10C03 then .letter .turkic false
  else if c = Char.ofNat 0x16D67 then .kiratE
  else if c = Char.ofNat 0x16D68 then .kiratAi
  else .plain

/-- How a text is drawn together with a character before it, when it is. -/
def joinLeft? (opening : Opening) (c : Char) : Option ColumnStep :=
  match opening with
  | .letter ligature joined => ligature.joinLeft? joined c
  | .tone =>
      if toneBaseRanges.covers c then some (0, .picture)
      else if c = zeroWidthJoiner then some (0, .joiner)
      else none
  | .flagLetter => if flagLetterRanges.covers c then some (1, .flagLetters) else none
  | .flagLetters =>
      if flagLetterRanges.covers c then some (1, .flagLetters)
      else if c = zeroWidthJoiner then some (0, .joiner)
      else none
  | .picture => if c = zeroWidthJoiner then some (0, .joiner) else none
  | .joiner =>
      if c = '\u20e3' then some (0, .joinedKeycap)
      else if c = Char.ofNat 0xE007F then some (0, .joinedTags 0 0)
      else if flagLetterRanges.covers c then some (1, .joinedFlags 1)
      else if toneRanges.covers c then some (0, .tone)
      else if emojiRanges.covers c then some (0, .picture)
      else none
  | .joinedFlags count =>
      -- An even number of indicators ends with a flag, and that one is joined.
      if flagLetterRanges.covers c then
        some (if count % 2 = 1 then -1 else 3, .joinedFlags (count + 1))
      else if count ≠ 1 && c = zeroWidthJoiner then some (0, .joiner)
      else none
  | .joinedTags digits letters =>
      if digits = 0 && letters < 6 && tagLetterRanges.covers c then
        some (0, .joinedTags 0 (letters + 1))
      else if digits < 3 && (digits ≠ 0 || letters ≤ 4) && tagDigitRanges.covers c then
        some (0, .joinedTags (digits + 1) letters)
      else if c = Char.ofNat 0x1F3F4 && (digits = 3 || (digits = 0 && 3 ≤ letters)) then
        some (0, .picture)
      else none
  | .kiratE =>
      if c = Char.ofNat 0x16D63 || c = Char.ofNat 0x16D69 then some (0, .plain)
      else if c = Char.ofNat 0x16D67 then some (0, .kiratAi)
      else if c = Char.ofNat 0x16D68 then some (1, .kiratE)
      else none
  | .kiratAi => if c = Char.ofNat 0x16D63 then some (0, .plain) else none
  | .joinedKeycap | .lineFeed | .plain => none

/-- A letter lets joiners and invisible marks through, except for alef, which goes by the joining of
Arabic letters. -/
def throughMark? (opening : Opening) (c : Char) : Option ColumnStep :=
  match opening with
  | .letter .alef _ => none
  | .letter ligature joined =>
      if c = zeroWidthJoiner then some (0, .letter ligature true)
      else if invisibleMarkRanges.covers c then some (0, .letter ligature joined)
      else none
  | _ => none

/-- One step to the left over a character that selects no style. -/
def before (opening : Opening) (c : Char) : ColumnStep :=
  ((opening.throughMark? c).or (opening.joinLeft? c)).getD (charColumns c, ofChar c)

end Opening

/-- A style that a selector asks for: of a picture, of a text, or of a quotation mark as wide as an
ideograph. -/
inductive CharStyle where
  | picture
  | text
  | wideQuote
deriving DecidableEq, Repr

/-- The style that a variation selector asks for. -/
def CharStyle.ofSelector? (c : Char) : Option CharStyle :=
  if c = '\ufe0f' then some .picture
  else if c = '\ufe0e' then some .text
  else if c = '\ufe01' then some .wideQuote
  else none

/-- The quotation marks with two widths. -/
def isStyledQuote (c : Char) : Bool :=
  "\u2018\u2019\u201c\u201d".toList.contains c

/-- An opening with the style that is asked for in front of it. -/
structure StyledOpening where
  opening : Opening := .plain
  style : Option CharStyle := none
deriving DecidableEq, Repr

namespace StyledOpening

/-- Ask for a style.  Letters keep their place behind the selector, and joined pictures behind the one
of pictures. -/
def select (styled : StyledOpening) (style : CharStyle) : StyledOpening :=
  match styled.opening, style with
  | .letter _ _, _ | .joiner, .picture | .joinedKeycap, .picture =>
      { styled with style := some style }
  | _, _ => { style := some style }

/-- Give up the style that no character has taken. -/
def unselect (styled : StyledOpening) : StyledOpening :=
  match styled.style, styled.opening with
  | none, _ => styled
  | some _, .letter _ _ => { styled with style := none }
  | some _, _ => {}

/-- The step over a character that takes the style asked for. -/
def styledStep? (styled : StyledOpening) (c : Char) : Option ColumnStep :=
  match styled.style with
  | some .picture =>
      if styledRanges.covers c then
        let joined := styled.opening = .joiner || styled.opening = .joinedKeycap
        some (if joined then 0 else 2, .picture)
      else none
  | some .text =>
      if emojiRanges.covers c && styledRanges.covers c && !squaredIdeographRanges.covers c then
        some (1, .plain)
      else none
  | some .wideQuote => if isStyledQuote c then some (2, .plain) else none
  | none => none

/-- One step to the left: what a character adds to the columns of the text behind it, and the opening
with it. -/
def before (styled : StyledOpening) (c : Char) : Int × StyledOpening :=
  match styled.styledStep? c with
  | some (columns, opening) => (columns, { opening })
  | none =>
      let unstyled := styled.unselect
      if c ≤ '\u00a0' then
        if c = '\n' then (1, { opening := .lineFeed })
        else if c = '\r' && unstyled.opening = .lineFeed then (0, {})
        else (1, {})
      else
        match CharStyle.ofSelector? c with
        | some style => (0, unstyled.select style)
        | none =>
            let (columns, opening) := unstyled.opening.before c
            (columns, { opening })

theorem before_default {c : Char} (hc : c ≤ '\u00a0') (hfeed : c ≠ '\n') (hreturn : c ≠ '\r') :
    ({} : StyledOpening).before c = (1, {}) := by
  simp [before, styledStep?, hc, hfeed, hreturn]

end StyledOpening

namespace Text

/-- The columns of a text with its opening, from the last character to the first. -/
def measure (text : Text) : Int × StyledOpening :=
  text.foldr
    (fun c (columns, opening) =>
      let (added, opening) := opening.before c
      (columns + added, opening))
    (0, {})

/-- The columns of a text. -/
def columns (text : Text) : Nat := text.measure.1.toNat

/-- The text followed by spaces up to a number of columns. -/
def padTo (width : Nat) (text : Text) : Text :=
  text ++ List.replicate (width - text.columns) ' '

theorem measure_cons (c : Char) (rest : Text) :
    measure (c :: rest) =
      (rest.measure.1 + (rest.measure.2.before c).1, (rest.measure.2.before c).2) := rfl

/-- Without line breaks and characters of other scripts, every character takes a column. -/
theorem measure_of_forall {text : Text} (h : ∀ c ∈ text, c ≤ '\u00a0' ∧ c ≠ '\n' ∧ c ≠ '\r') :
    text.measure = ((text.length : Int), {}) := by
  induction text with
  | nil => rfl
  | cons c rest ih =>
      obtain ⟨hc, hfeed, hreturn⟩ := h c List.mem_cons_self
      rw [measure_cons, ih fun d hd => h d (List.mem_cons_of_mem c hd),
        StyledOpening.before_default hc hfeed hreturn]
      simp

theorem columns_of_forall {text : Text}
    (h : ∀ c ∈ text, c ≤ '\u00a0' ∧ c ≠ '\n' ∧ c ≠ '\r') : text.columns = text.length := by
  simp [columns, measure_of_forall h]

end Text

end UtilityCss
