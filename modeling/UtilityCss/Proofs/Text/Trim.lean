import Mathlib.Data.List.DropRight
import UtilityCss.Text.Blank

/-!
Trimmed texts.  What trimming leaves begins and ends with something else than white space, so
trimming it again, or with more white space around it, changes nothing.
-/

namespace UtilityCss.Text

variable {front text : Text}

/-- A text made of white space. -/
def IsBlank (text : Text) : Prop :=
  ∀ c ∈ text, isBlank c = true

theorem trimEnd_eq_rdropWhile (text : Text) : trimEnd text = text.rdropWhile isBlank := rfl

theorem trimEnd_trimEnd (text : Text) : text.trimEnd.trimEnd = text.trimEnd := by
  simp only [trimEnd_eq_rdropWhile, List.rdropWhile_idempotent]

/-- White space in front is left out, whatever follows. -/
theorem IsBlank.trimStart_append (hfront : IsBlank front) (text : Text) :
    trimStart (front ++ text) = text.trimStart :=
  List.dropWhile_append_of_pos hfront

theorem trimStart_eq_self (htext : ∀ c ∈ text.head?, isBlank c = false) :
    text.trimStart = text := by
  cases text with
  | nil => rfl
  | cons c rest => exact List.dropWhile_cons_of_neg (by simp [htext c rfl])

/-- White space in front of something else is what trimming the start takes. -/
theorem IsBlank.trimStart_append_eq (hfront : IsBlank front)
    (htext : ∀ c ∈ text.head?, isBlank c = false) : trimStart (front ++ text) = text := by
  rw [hfront.trimStart_append, trimStart_eq_self htext]

/-- A text is its leading white space and what trimming its start leaves. -/
theorem exists_blanks_append_trimStart (text : Text) :
    ∃ blanks : Text, blanks.IsBlank ∧ text = blanks ++ text.trimStart :=
  ⟨text.takeWhile isBlank, fun _ hc => List.mem_takeWhile_imp hc,
    List.takeWhile_append_dropWhile.symm⟩

/-- A text that ends with something else than white space keeps what stands in front of it. -/
theorem trimEnd_append (front : Text) (htext : text.trimEnd ≠ []) :
    trimEnd (front ++ text) = front ++ text.trimEnd := by
  have hreversed : text.reverse.dropWhile isBlank ≠ [] := by
    rwa [trimEnd, ne_eq, List.reverse_eq_nil_iff] at htext
  rw [trimEnd, List.reverse_append, List.dropWhile_append, if_neg (by simpa using hreversed),
    List.reverse_append, List.reverse_reverse]
  rfl

/-- A trimmed text begins where trimming its start leaves off. -/
theorem head?_trim_eq (text : Text) : text.trim.head? = text.trimStart.head? := by
  cases hstart : text.trimStart with
  | nil => rw [trim, hstart]; rfl
  | cons c rest =>
      have hc := List.head?_dropWhile_not isBlank text
      rw [show text.dropWhile isBlank = c :: rest from hstart] at hc
      rw [trim, hstart, head?_trimEnd rest hc, List.head?_cons]

theorem head?_trim (text : Text) : ∀ c ∈ text.trim.head?, isBlank c = false := by
  rw [head?_trim_eq]
  intro c hc
  have hfirst := List.head?_dropWhile_not isBlank text
  rw [show (text.dropWhile isBlank).head? = some c from hc] at hfirst
  exact hfirst

theorem trimStart_trim (text : Text) : text.trim.trimStart = text.trim :=
  trimStart_eq_self text.head?_trim

theorem trimEnd_trim (text : Text) : text.trim.trimEnd = text.trim :=
  trimEnd_trimEnd text.trimStart

theorem trim_trim (text : Text) : text.trim.trim = text.trim := by
  rw [trim, trimStart_trim, trimEnd_trim]

/-- White space in front of a text does not outlast trimming. -/
theorem IsBlank.trim_append (hfront : IsBlank front) (text : Text) :
    trim (front ++ text) = text.trim := by
  rw [trim, hfront.trimStart_append, trim]

end UtilityCss.Text
