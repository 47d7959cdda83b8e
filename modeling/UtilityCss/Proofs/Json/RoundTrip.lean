import Mathlib.Tactic.SplitIfs
import UtilityCss.Json.Value
import UtilityCss.Json.Writer
import UtilityCss.Proofs.Number.WholeNumber
import UtilityCss.Proofs.OrderedMap

/-!
What the writer puts down, the readers take back: strings character by character, words and numbers as
a whole, and objects and arrays part by part.  A part is always followed by a comma or by the bracket
that closes what it is in.
-/

namespace UtilityCss

namespace Json

variable {σ : Type} {text after : Text}

theorem hexValue?_hexDigit {value : Nat} (hvalue : value < 16) :
    hexValue? (hexDigit value) = some value := by
  revert value
  decide

theorem four_le_byteCount (a b c d : Char) (rest : Text) :
    ¬ Text.byteCount ((a :: b :: c :: d :: rest).take 4) < 4 := by
  have ha := a.utf8Size_pos
  have hb := b.utf8Size_pos
  have hc := c.utf8Size_pos
  have hd := d.utf8Size_pos
  simp only [List.take, Text.byteCount, List.foldl]
  omega

/-- The escape of a control character reads back. -/
theorem readCodeUnits_hexDigits {c : Char} (hc : c.toNat < 0x20) (rest : Text) :
    readCodeUnits ('0' :: '0' :: hexDigit (c.toNat / 16) :: hexDigit (c.toNat % 16) :: rest) =
      .ok (c, rest) := by
  have hhigh : hexValue? (hexDigit (c.toNat / 16)) = some (c.toNat / 16) :=
    hexValue?_hexDigit (by omega)
  have hlow : hexValue? (hexDigit (c.toNat % 16)) = some (c.toNat % 16) :=
    hexValue?_hexDigit (by omega)
  have hzero : hexValue? '0' = some 0 := rfl
  have hunit : 4096 * 0 + 256 * 0 + 16 * (c.toNat / 16) + c.toNat % 16 = c.toNat := by omega
  have hread : readHex4 ('0' :: '0' :: hexDigit (c.toNat / 16) :: hexDigit (c.toNat % 16) :: rest) =
      .ok (c.toNat, rest) := by
    simp only [readHex4, if_neg (four_le_byteCount _ _ _ _ rest), hzero, hhigh, hlow, hunit]
  have htrailing : isTrailingSurrogate c.toNat = false := by
    rw [isTrailingSurrogate, Bool.and_eq_false_iff, decide_eq_false_iff_not]
    omega
  have hleading : isLeadingSurrogate c.toNat = false := by
    rw [isLeadingSurrogate, Bool.and_eq_false_iff, decide_eq_false_iff_not]
    omega
  simp only [readCodeUnits, hread, Read.andThen, htrailing, hleading, Bool.false_eq_true, if_false,
    Char.ofNat_toNat]

theorem readStringBody_of_readEscape {c : Char} {escape rest : Text}
    (hescape : readEscape false escape = .ok (c, rest)) :
    readStringBody false ('\\' :: escape) =
      (readStringBody false rest).map fun (body, after) => (c :: body, after) := by
  rw [readStringBody]
  split
  · rename_i hquote
    cases hquote
  · rw [if_pos rfl]
    split
    · rename_i hread
      rw [hescape] at hread
      cases hread
      rfl
    · rename_i hread
      rw [hescape] at hread
      cases hread

theorem readStringBody_of_plain {c : Char} (hquote : c ≠ '"') (hbackslash : c ≠ '\\')
    (hcontrol : ¬ c.toNat < 0x20) (rest : Text) :
    readStringBody false (c :: rest) =
      (readStringBody false rest).map fun (body, after) => (c :: body, after) := by
  rw [readStringBody, if_neg hquote, if_neg hbackslash, if_neg hcontrol]

/-- Each character is written so that it reads back. -/
theorem readStringBody_writeCharacter (c : Char) (rest : Text) :
    readStringBody false (writeCharacter c ++ rest) =
      (readStringBody false rest).map fun (body, after) => (c :: body, after) := by
  unfold writeCharacter
  split_ifs with hquote hbackslash hbackspace htab hnewline hfeed hreturn hcontrol
  · subst hquote
    exact readStringBody_of_readEscape rfl
  · subst hbackslash
    exact readStringBody_of_readEscape rfl
  · subst hbackspace
    exact readStringBody_of_readEscape rfl
  · subst htab
    exact readStringBody_of_readEscape rfl
  · subst hnewline
    exact readStringBody_of_readEscape rfl
  · subst hfeed
    exact readStringBody_of_readEscape rfl
  · subst hreturn
    exact readStringBody_of_readEscape rfl
  · exact readStringBody_of_readEscape (readCodeUnits_hexDigits hcontrol rest)
  · exact readStringBody_of_plain hquote hbackslash hcontrol rest

theorem readStringBody_written (text after : Text) :
    readStringBody false (text.flatMap writeCharacter ++ '"' :: after) = .ok (text, after) := by
  induction text with
  | nil => rw [List.flatMap_nil, List.nil_append, readStringBody, if_pos rfl]
  | cons c rest ih =>
      rw [List.flatMap_cons, List.append_assoc, readStringBody_writeCharacter, ih]
      rfl

theorem writeText_append (text after : Text) :
    writeText text ++ after = '"' :: (text.flatMap writeCharacter ++ '"' :: after) := by
  simp [writeText]

/-- The comma or bracket behind a part of an object or an array. -/
inductive Closes : Text → Prop
  | comma (rest : Text) : Closes (',' :: rest)
  | brace (rest : Text) : Closes ('\x7d' :: rest)
  | bracket (rest : Text) : Closes (']' :: rest)

theorem Closes.endsNumber (hafter : Closes after) : EndsNumber after := by
  cases hafter <;> exact fun c hc => Option.some_inj.mp hc ▸ by decide

/-- A value reads back, whatever closes it. -/
def ReadsBack {α : Type} (read : Text → Read α) (written : Text) (value : α) : Prop :=
  ∀ {after}, Closes after → read (written ++ after) = .ok (value, after)

theorem readsBack_readText (text : Text) : ReadsBack readText (writeText text) text := by
  intro after _
  rw [writeText_append]
  exact readStringBody_written text after

theorem readsBack_readBool (value : Bool) : ReadsBack readBool (writeBool value) value := by
  intro after _
  cases value <;> rfl

theorem readsBack_readOptionalWord (value : Option UInt32) :
    ReadsBack readOptionalWord (writeOptionalWord value) value := by
  intro after hafter
  cases value with
  | none => rfl
  | some word =>
      have hword : word.toNat < UInt32.size := word.toNat_lt_size
      have hread := readNumber_decimal hword hafter.endsNumber
      obtain ⟨c, rest, hdecimal⟩ := List.exists_cons_of_ne_nil (decimal_ne_nil word.toNat)
      have hc : c.isDigit = true := isDigit_of_mem_decimal (hdecimal ▸ List.mem_cons_self)
      have hspace : isSpace c = false := by
        rw [← Bool.not_eq_true]
        intro hspace
        simp only [isSpace, Bool.or_eq_true, decide_eq_true_eq] at hspace
        rcases hspace with ((rfl | rfl) | rfl) | rfl <;> cases hc
      have hfits : word.toNat < Nat.pow 2 32 := hword
      rw [writeOptionalWord, readOptionalWord, hdecimal, List.cons_append, skipSpace,
        List.dropWhile_cons_of_neg (by simp [hspace])]
      rw [hdecimal, List.cons_append] at hread
      split
      · rename_i hnull
        cases hnull
        cases hc
      · rename_i hnil
        cases hnil
      · rename_i hcons
        cases hcons
        rw [hc, Bool.or_true, if_pos rfl, hread]
        dsimp only
        rw [decide_eq_true hfits, Bool.and_true, if_pos rfl, UInt32.ofNat_toNat]

/-- Parts with a comma before each but the first. -/
theorem intercalate_comma_cons (part : Text) (rest : List Text) :
    [','].intercalate (part :: rest) = part ++ rest.flatMap fun other => ',' :: other := by
  induction rest generalizing part with
  | nil => simp
  | cons second others ih => simp [List.intercalate_cons_cons, ih]

/-- Reading members one after the other leads from one state to another. -/
inductive ReadsMembers (member : σ → Text → Text → Read σ) : List (Text × Text) → σ → σ → Prop
  | nil (state : σ) : ReadsMembers member [] state state
  | cons {key value : Text} {rest : List (Text × Text)} {before next last : σ}
      (hread : ∀ {after}, Closes after →
        member before key (':' :: (value ++ after)) = .ok (next, after))
      (hrest : ReadsMembers member rest next last) :
      ReadsMembers member ((key, value) :: rest) before last

/-- Every part takes a step, and has a comma at least. -/
theorem length_le_length_flatMap_comma (parts : List Text) :
    parts.length ≤ (parts.flatMap fun part => ',' :: part).length := by
  induction parts with
  | nil => exact Nat.le_refl _
  | cons part rest ih =>
      rw [List.flatMap_cons, List.length_append, List.length_cons, List.length_cons]
      omega

def memberText (entry : Text × Text) : Text :=
  writeText entry.1 ++ ':' :: entry.2

theorem closes_flatMap_comma (parts : List Text) (hafter : Closes after) :
    Closes (parts.flatMap (fun part => ',' :: part) ++ after) := by
  cases parts with
  | nil => exact hafter
  | cons part rest => exact Closes.comma _

theorem readKey_writeText (key after : Text) :
    readKey false (writeText key ++ after) = .ok (some key, after) := by
  rw [writeText_append, readKey, readStringBody_written]
  rfl

theorem nextKey_comma (key after : Text) :
    nextKey false (',' :: (writeText key ++ after)) = .ok (some key, after) := by
  rw [← readKey_writeText key after, writeText_append]
  rfl

theorem nextKey_first (key after : Text) :
    nextKey true (writeText key ++ after) = .ok (some key, after) := by
  rw [← readKey_writeText key after, writeText_append]
  rfl

section Members

variable {member : σ → Text → Text → Read σ} {members : List (Text × Text)} {before next last : σ}

theorem readMembers_step {steps : Nat} {first : Bool} {key tail : Text}
    (hkey : nextKey first text = .ok (some key, tail))
    (hread : member before key tail = .ok (next, after)) :
    readMembers member (steps + 1) first before text =
      readMembers member steps false next after := by
  rw [readMembers, hkey]
  dsimp only
  rw [hread]

/-- The members behind the first one. -/
theorem readMembers_rest (hreads : ReadsMembers member members before last) {steps : Nat}
    (hsteps : members.length < steps) (after : Text) :
    readMembers member steps false before
      ((members.map memberText).flatMap (fun part => ',' :: part) ++ '\x7d' :: after) =
        .ok (last, after) := by
  induction hreads generalizing steps with
  | nil state =>
      obtain ⟨left, rfl⟩ := Nat.exists_eq_add_one_of_ne_zero (Nat.ne_of_gt hsteps)
      rfl
  | @cons key value rest before next last hread _ ih =>
      obtain ⟨left, rfl⟩ := Nat.exists_eq_add_one_of_ne_zero (Nat.ne_zero_of_lt hsteps)
      have hcloses := closes_flatMap_comma (rest.map memberText) (Closes.brace after)
      rw [List.map_cons, List.flatMap_cons, memberText]
      simp only [List.append_assoc, List.cons_append]
      rw [readMembers_step (nextKey_comma key _) (hread hcloses)]
      exact ih (Nat.lt_of_succ_lt_succ hsteps)

/-- An object is read to its end, member by member. -/
theorem readObject_written (hreads : ReadsMembers member members before last) (after : Text) :
    readObject member before
      ([','].intercalate (members.map memberText) ++ '\x7d' :: after) = .ok (last, after) := by
  rw [readObject]
  cases hreads with
  | nil => rfl
  | @cons key value rest _ next _ hread hrest =>
      have hcloses := closes_flatMap_comma (rest.map memberText) (Closes.brace after)
      have hsteps := length_le_length_flatMap_comma (rest.map memberText)
      rw [List.length_map] at hsteps
      rw [List.map_cons, intercalate_comma_cons, memberText]
      simp only [List.append_assoc, List.cons_append]
      rw [readMembers_step (nextKey_first key _) (hread hcloses)]
      refine readMembers_rest hrest ?_ after
      simp only [List.length_append, List.length_cons]
      omega

end Members

section Elements

variable {element : σ → Text → Read σ} {next : σ → Text → σ} {state : σ}

theorem nextElement_first (text after : Text) :
    nextElement true (writeText text ++ after) = .ok (some (writeText text ++ after)) := by
  rw [writeText_append]
  rfl

theorem nextElement_comma (text after : Text) :
    nextElement false (',' :: (writeText text ++ after)) = .ok (some (writeText text ++ after)) := by
  rw [writeText_append]
  rfl

theorem readElements_step {steps : Nat} {first : Bool} {rest : Text} {later : σ}
    (helement : nextElement first text = .ok (some rest))
    (hread : element state rest = .ok (later, after)) :
    readElements element (steps + 1) first state text =
      readElements element steps false later after := by
  rw [readElements, helement]
  dsimp only
  rw [hread]

/-- The strings behind the first one. -/
theorem readElements_rest
    (hread : ∀ state text, ReadsBack (element state) (writeText text) (next state text))
    (texts : List Text) (state : σ) {steps : Nat} (hsteps : texts.length < steps) (after : Text) :
    readElements element steps false state
      ((texts.map writeText).flatMap (fun part => ',' :: part) ++ ']' :: after) =
        .ok (texts.foldl next state, after) := by
  induction texts generalizing state steps with
  | nil =>
      obtain ⟨left, rfl⟩ := Nat.exists_eq_add_one_of_ne_zero (Nat.ne_of_gt hsteps)
      rfl
  | cons text rest ih =>
      obtain ⟨left, rfl⟩ := Nat.exists_eq_add_one_of_ne_zero (Nat.ne_zero_of_lt hsteps)
      have hcloses := closes_flatMap_comma (rest.map writeText) (Closes.bracket after)
      rw [List.map_cons, List.flatMap_cons, List.append_assoc, List.cons_append,
        readElements_step (nextElement_comma text _) (hread state text hcloses)]
      exact ih (next state text) (Nat.lt_of_succ_lt_succ hsteps)

/-- An array of strings is read to its end. -/
theorem readArray_written
    (hread : ∀ state text, ReadsBack (element state) (writeText text) (next state text))
    (texts : List Text) (state : σ) (after : Text) :
    readArray element state ([','].intercalate (texts.map writeText) ++ ']' :: after) =
      .ok (texts.foldl next state, after) := by
  rw [readArray]
  cases texts with
  | nil => rfl
  | cons text rest =>
      have hcloses := closes_flatMap_comma (rest.map writeText) (Closes.bracket after)
      have hsteps := length_le_length_flatMap_comma (rest.map writeText)
      rw [List.length_map] at hsteps
      rw [List.map_cons, intercalate_comma_cons, List.append_assoc,
        readElements_step (nextElement_first text _) (hread state text hcloses)]
      refine readElements_rest hread rest (next state text) ?_ after
      simp only [List.length_append, List.length_cons]
      omega

end Elements

theorem writeMembers_append (members : List (Text × Text)) (after : Text) :
    writeMembers members ++ after =
      '\x7b' :: ([','].intercalate (members.map memberText) ++ '\x7d' :: after) := by
  rw [writeMembers, List.append_assoc, List.cons_append]
  rfl

/-- How one member of an object of strings is read. -/
def readTextMember (entries : OrderedMap Text Text) (key text : Text) :
    Read (OrderedMap Text Text) :=
  match readColon text with
  | .ok text => (readText text).map fun (value, after) => (entries.insert key value, after)
  | .error fault => .error fault

theorem readsMembers_readTextMember (entries : List (Text × Text)) (before : OrderedMap Text Text) :
    ReadsMembers readTextMember (entries.map fun (key, value) => (key, writeText value)) before
      (entries.foldl (fun entries (key, value) => entries.insert key value) before) := by
  induction entries generalizing before with
  | nil => exact ReadsMembers.nil before
  | cons entry rest ih =>
      obtain ⟨key, value⟩ := entry
      have hread : ∀ {after}, Closes after →
          readTextMember before key (':' :: (writeText value ++ after)) =
            .ok (before.insert key value, after) := by
        intro after hafter
        have hcolon : readColon (':' :: (writeText value ++ after)) =
            .ok (writeText value ++ after) := rfl
        rw [readTextMember, hcolon]
        dsimp only
        rw [readsBack_readText value hafter]
        rfl
      exact ReadsMembers.cons hread (ih (before.insert key value))

theorem readsBack_readTextMap (entries : OrderedMap Text Text) :
    ReadsBack readTextMap (writeTextMap entries) entries := by
  intro after _
  have hreads := readsMembers_readTextMember entries.entries .empty
  rw [← OrderedMap.ofList, OrderedMap.ofList_entries] at hreads
  rw [writeTextMap, writeMembers_append]
  exact readObject_written hreads after

end Json

end UtilityCss
