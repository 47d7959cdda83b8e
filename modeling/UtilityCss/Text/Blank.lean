import UtilityCss.Text

/-!
White space: the characters with the Unicode property `White_Space`, the trimming of a text, and its
words.  A word is a longest run of other characters, so `words` never yields an empty one.
-/

namespace UtilityCss

/-- The code points with the Unicode property `White_Space`. -/
def blankRanges : CharRanges :=
  [(0x09, 0x0D), (0x20, 0x20), (0x85, 0x85), (0xA0, 0xA0), (0x1680, 0x1680), (0x2000, 0x200A),
    (0x2028, 0x2029), (0x202F, 0x202F), (0x205F, 0x205F), (0x3000, 0x3000)]

/-- White space of any script. -/
def isBlank (c : Char) : Bool :=
  blankRanges.covers c

namespace Text

def trimStart (text : Text) : Text :=
  text.dropWhile isBlank

def trimEnd (text : Text) : Text :=
  (text.reverse.dropWhile isBlank).reverse

/-- The text without the white space at both ends. -/
def trim (text : Text) : Text :=
  trimEnd (trimStart text)

/-- The longest runs of characters that are not white space, in order. -/
def words (text : Text) : List Text :=
  (text.splitOnP isBlank).filter fun word => !word.isEmpty

theorem mem_dropWhile_of_not {c : Char} {test : Char → Bool} {text : Text} (hmem : c ∈ text)
    (htest : test c = false) : c ∈ text.dropWhile test := by
  induction text with
  | nil => cases hmem
  | cons first rest ih =>
      by_cases hfirst : test first = true
      · rw [List.dropWhile_cons_of_pos hfirst]
        rcases List.mem_cons.mp hmem with rfl | hrest
        · rw [htest] at hfirst
          cases hfirst
        · exact ih hrest
      · rwa [List.dropWhile_cons_of_neg hfirst]

/-- Trimming only takes white space. -/
theorem mem_trim {c : Char} {text : Text} (hmem : c ∈ text) (hblank : isBlank c = false) :
    c ∈ text.trim := by
  rw [trim, trimEnd, List.mem_reverse]
  exact mem_dropWhile_of_not (List.mem_reverse.mpr (mem_dropWhile_of_not hmem hblank)) hblank

/-- Trimming the end keeps a beginning that is not white space. -/
theorem head?_trimEnd {c : Char} (rest : Text) (hblank : isBlank c = false) :
    (trimEnd (c :: rest)).head? = some c := by
  rw [trimEnd, List.reverse_cons, List.dropWhile_append, List.head?_reverse]
  split <;> simp [hblank]

theorem exists_not_blank_of_trim_ne_nil {text : Text} (htrim : text.trim ≠ []) :
    ∃ c ∈ text, isBlank c = false := by
  cases hstart : text.trimStart with
  | nil => exact absurd (by rw [trim, hstart]; rfl) htrim
  | cons c rest =>
      have hmem : c ∈ text.trimStart := hstart ▸ List.mem_cons_self
      have hhead := List.head?_dropWhile_not isBlank text
      rw [show text.dropWhile isBlank = c :: rest from hstart] at hhead
      exact ⟨c, (List.dropWhile_sublist isBlank).subset hmem, hhead⟩

/-- What is left after trimming is not blank, if anything is left. -/
theorem trim_trim_ne_nil {text : Text} (htrim : text.trim ≠ []) : text.trim.trim ≠ [] := by
  obtain ⟨c, hc, hblank⟩ := exists_not_blank_of_trim_ne_nil htrim
  exact List.ne_nil_of_mem (mem_trim (mem_trim hc hblank) hblank)

theorem ne_nil_of_mem_words {text word : Text} (hword : word ∈ words text) : word ≠ [] := by
  simp only [words, List.mem_filter] at hword
  rintro rfl
  simp at hword

end Text

end UtilityCss
