import Mathlib.Data.List.Infix
import UtilityCss.Proofs.Resolution.Cut
import UtilityCss.Proofs.Rule.Reading
import UtilityCss.Proofs.Token.DocumentToken

/-!
Rules of document tokens.  The base of a document token keeps the colon behind its mark, and a base
with a colon is no utility, unless a name holds the colon.  So what is left is the shorthand: its
values are cut at colons, and `min-640:h-4` is also a shorthand of two values.
-/

namespace UtilityCss

variable {ctx : Context} {before after base token name : Text}

namespace Resolution

/-- Only the value of a base may hold a colon. -/
theorem colon_mem_value {utility : SignedUtility}
    (hutility : SignedUtility.ofBase? base = some utility) (hcolon : ':' ∈ base) :
    ':' ∈ utility.value := by
  obtain ⟨-, -, hname⟩ := SignedUtility.ofBase?_eq_some_iff.mp hutility
  have hnotMem : ':' ∉ utility.name := fun hmem =>
    absurd (forall_mem_of_isUtilityName hname ':' hmem) (by decide)
  have hsign : ':' ∉ utility.sign := by
    unfold SignedUtility.sign
    split <;> decide
  rw [← SignedUtility.text_eq_of_ofBase? hutility, SignedUtility.text, List.mem_append,
    List.mem_append] at hcolon
  exact (List.mem_cons.mp ((hcolon.resolve_left hsign).resolve_left hnotMem)).resolve_left
    (by decide)

theorem readDigits_eq_none {digits : Text} (hcolon : ':' ∈ digits) : readDigits digits = none :=
  Option.eq_none_iff_forall_ne_some.mpr fun _ hread =>
    notMem_of_isDigits (isDigits_of_readDigits hread) (by decide) hcolon

theorem ofFraction?_eq_none (hcolon : ':' ∈ base) : ofFraction? ctx base = none := by
  rw [Option.eq_none_iff_forall_ne_some]
  intro resolution hread
  simp only [ofFraction?, bind, Option.bind_eq_some_iff] at hread
  obtain ⟨utility, hutility, ⟨numerator, denominator⟩, hsplit, _, -, _, hnumerator, _,
    hdenominator, -⟩ := hread
  have hvalue := colon_mem_value hutility hcolon
  rw [(Text.splitFirst_eq_some hsplit).1, List.mem_append] at hvalue
  rcases hvalue with hmem | hmem
  · rw [readDigits_eq_none hmem] at hnumerator
    cases hnumerator
  · rw [readDigits_eq_none ((List.mem_cons.mp hmem).resolve_left (by decide))] at hdenominator
    cases hdenominator

theorem ofNumber?_eq_none (hcolon : ':' ∈ base) : ofNumber? ctx base = none := by
  rw [Option.eq_none_iff_forall_ne_some]
  intro resolution hread
  simp only [ofNumber?, bind, Option.bind_eq_some_iff] at hread
  obtain ⟨utility, hutility, -, -, ⟨number, unit⟩, hnumber, -⟩ := hread
  obtain ⟨digits, hdigits, hunit, hvalue⟩ := exists_digits_of_readNumber? hnumber
  have hmem := colon_mem_value hutility hcolon
  rw [hvalue, List.mem_append] at hmem
  have hunits : ∀ unit ∈ numberUnits, ':' ∉ unit := by decide
  rcases hmem with hmem | hmem
  · exact notMem_of_isDigits hdigits (by decide) hmem
  · exact hunits unit hunit hmem

/-- Only a bracket keeps a value with a colon. -/
theorem exists_bracket_of_arbitraryValue? {raw value : Text} (hvalue : arbitraryValue? raw = some value)
    (hcolon : ':' ∈ raw) : ∃ rest, raw = '[' :: rest := by
  unfold arbitraryValue? at hvalue
  split at hvalue
  · rename_i inner hinner
    obtain ⟨rest, hrest, -⟩ := Option.bind_eq_some_iff.mp hinner
    exact ⟨rest, Text.after?_eq_some_iff.mp hrest⟩
  · split at hvalue
    · cases hvalue
    · rename_i hplain
      rw [List.any_eq_true] at hplain
      exact absurd ⟨':', hcolon, by decide⟩ hplain

theorem exists_of_longestUtility? {tables : Tables} {unsigned utility raw : Text}
    (hlongest : longestUtility? tables unsigned = some (utility, raw)) :
    unsigned = utility ++ '-' :: raw ∧ utility ∈ tables.properties.keys := by
  obtain ⟨hcut, hutility⟩ := List.mem_filter.mp (List.mem_of_getLast? hlongest)
  rw [Bool.and_eq_true] at hutility
  exact ⟨Text.eq_append_of_mem_cuts hcut, OrderedMap.contains_iff.mp hutility.2⟩

/-- A value in brackets begins with its bracket, so that the colon is inside. -/
theorem ofArbitrary?_eq_none
    (hproperties : ∀ name ∈ ctx.tables.properties.keys,
      name <:+: before ++ ':' :: after → ':' ∉ name)
    (hbracket : '[' ∉ before) : ofArbitrary? ctx (before ++ ':' :: after) = none := by
  have hcut : ∀ {sign unsigned utility raw value : Text}, ':' ∉ sign →
      before ++ ':' :: after = sign ++ unsigned →
      longestUtility? ctx.tables unsigned = some (utility, raw) →
      arbitraryValue? raw ≠ some value := by
    intro sign unsigned utility raw value hsign hbase hlongest hvalue
    obtain ⟨rfl, hutility⟩ := exists_of_longestUtility? hlongest
    have hwritten : utility <:+: before ++ ':' :: after := by
      rw [hbase, ← List.append_assoc]
      exact List.infix_append sign utility ('-' :: raw)
    have hfront : ':' ∉ sign ++ utility ++ ['-'] := by
      simp only [List.mem_append, not_or]
      exact ⟨⟨hsign, hproperties utility hutility hwritten⟩, by decide⟩
    have hraw : ':' ∈ raw := by
      have hcolon : ':' ∈ sign ++ utility ++ ['-'] ++ raw := by
        have hmem : ':' ∈ before ++ ':' :: after := List.mem_append_right _ List.mem_cons_self
        rw [hbase] at hmem
        simpa using hmem
      exact (List.mem_append.mp hcolon).resolve_left hfront
    obtain ⟨rest, rfl⟩ := exists_bracket_of_arbitraryValue? hvalue hraw
    have hopen : (sign ++ utility ++ ['-']) ++ '[' :: rest = before ++ ':' :: after := by
      rw [hbase]
      simp
    obtain ⟨inner, hinner⟩ := Text.exists_eq_append_cons_of_ne hopen hfront (by decide)
    exact hbracket (hinner ▸ List.mem_append_right _ List.mem_cons_self)
  rw [Option.eq_none_iff_forall_ne_some]
  intro resolution hread
  unfold ofArbitrary? at hread
  cases hminus : Text.after? ['-'] (before ++ ':' :: after) with
  | some rest =>
      simp only [hminus, bind, Option.bind_eq_some_iff] at hread
      obtain ⟨⟨utility, raw⟩, hlongest, -, -, value, hvalue, -⟩ := hread
      have hsign : ':' ∉ ['-'] := by decide
      exact hcut hsign (Text.after?_eq_some_iff.mp hminus) hlongest hvalue
  | none =>
      simp only [hminus, bind, Option.bind_eq_some_iff] at hread
      obtain ⟨⟨utility, raw⟩, hlongest, -, -, value, hvalue, -⟩ := hread
      exact hcut List.not_mem_nil rfl hlongest hvalue

/-- A base with a colon is no utility, unless a bracket stands before the colon or a name holds it. -/
theorem ofBase?_eq_none_of_colon
    (hkeyword : before ++ ':' :: after ∉ ctx.tables.keywords.keys)
    (hproperties : ∀ name ∈ ctx.tables.properties.keys,
      name <:+: before ++ ':' :: after → ':' ∉ name)
    (hbracket : '[' ∉ before) : ofBase? ctx (before ++ ':' :: after) = none := by
  have hcolon : ':' ∈ before ++ ':' :: after := List.mem_append_right _ List.mem_cons_self
  have hkeyword : ofKeyword? ctx (before ++ ':' :: after) = none := by
    rw [ofKeyword?, Option.map_eq_none_iff]
    exact OrderedMap.get?_eq_none_iff.mpr hkeyword
  have hreading : firstReading? ctx (before ++ ':' :: after) = none := by
    rw [firstReading?, hkeyword, ofFraction?_eq_none hcolon, ofNumber?_eq_none hcolon,
      ofArbitrary?_eq_none hproperties hbracket]
    rfl
  rw [ofBase?, hreading, Option.map_none, ite_self]

end Resolution

namespace Rule

/-- Whether a responsive shorthand reads the token, and one of its values has a rule. -/
def readsAsShorthand (ctx : Context) (token : Text) : Bool :=
  match (ParsedToken.parse ctx.breakpoints (frontForm ctx.breakpoints token)).expandShorthand? ctx with
  | some tokens =>
      tokens.any fun expanded => (ofParsed? ctx (ParsedToken.parse ctx.breakpoints expanded)).isSome
  | none => false

/-- Whether a breakpoint, a keyword or a property utility with a colon in its name is written in the
token. -/
def holdsColonName (ctx : Context) (token : Text) : Bool :=
  (ctx.breakpoints.keys ++ ctx.tables.keywords.keys ++ ctx.tables.properties.keys).any fun name =>
    name.contains ':' && decide (name <:+: frontForm ctx.breakpoints token)

/-- Whether the rule compiler may take a document token for something else: for a shorthand, for a
token of a breakpoint, or for what is named with a colon. -/
def isMisread (ctx : Context) (token : Text) : Bool :=
  readsAsShorthand ctx token || ctx.breakpoints.contains (tokenMark token)
    || holdsColonName ctx token

theorem colon_notMem_of_holdsColonName (hholds : holdsColonName ctx token = false)
    (hname : name ∈ ctx.breakpoints.keys ++ ctx.tables.keywords.keys ++ ctx.tables.properties.keys)
    (hwritten : name <:+: frontForm ctx.breakpoints token) : ':' ∉ name := by
  rw [holdsColonName, List.any_eq_false] at hholds
  have hfree := hholds name hname
  rw [Bool.and_eq_true, decide_eq_true_eq, List.contains_iff_mem, not_and'] at hfree
  exact hfree hwritten

theorem ofParsed?_eq_none {parsed : ParsedToken} (hbase : Resolution.ofBase? ctx parsed.base = none) :
    ofParsed? ctx parsed = none := by
  rw [ofParsed?, hbase]
  rfl

/-- The front form of a document token has no rule of its own. -/
theorem ofParsed?_frontForm_eq_none (hdocument : isDocumentToken token = true)
    (hkey : ctx.breakpoints.contains (tokenMark token) = false)
    (hholds : holdsColonName ctx token = false) :
    ofParsed? ctx (ParsedToken.parse ctx.breakpoints (frontForm ctx.breakpoints token)) = none := by
  obtain ⟨-, -, hmark⟩ := exists_mark_of_isDocumentToken hdocument
  have hnames : ∀ {name}, name ∈ ctx.breakpoints.keys ++ ctx.tables.keywords.keys ++
      ctx.tables.properties.keys → name <:+: frontForm ctx.breakpoints token → ':' ∉ name :=
    fun hname => colon_notMem_of_holdsColonName hholds hname
  obtain ⟨rest, hbase⟩ := ParsedToken.base_parse_frontForm
    (fun key hmem => hnames (List.mem_append_left _ (List.mem_append_left _ hmem))) hdocument hkey
  have hwritten := ParsedToken.base_parse_isInfix ctx.breakpoints (frontForm ctx.breakpoints token)
  refine ofParsed?_eq_none ?_
  rw [hbase] at hwritten ⊢
  refine Resolution.ofBase?_eq_none_of_colon (fun hmem => ?_) (fun name hmem hinside => ?_)
    hmark.bracket_notMem
  · exact hnames (List.mem_append_left _ (List.mem_append_right _ hmem)) hwritten
      (List.mem_append_right _ List.mem_cons_self)
  · exact hnames (List.mem_append_right _ hmem) (hinside.trans hwritten)

/-- Where no breakpoint has its mark and no name in it a colon, a document token has a rule exactly
when it is read as a shorthand. -/
theorem isSome_ofToken?_eq_readsAsShorthand (hdocument : isDocumentToken token = true)
    (hkey : ctx.breakpoints.contains (tokenMark token) = false)
    (hholds : holdsColonName ctx token = false) :
    (ofToken? ctx token).isSome = readsAsShorthand ctx token := by
  have hsingle := ofParsed?_frontForm_eq_none hdocument hkey hholds
  rw [isSome_ofToken?]
  unfold readings readsAsShorthand
  dsimp only
  cases (ParsedToken.parse ctx.breakpoints (frontForm ctx.breakpoints token)).expandShorthand? ctx with
  | some tokens =>
      rw [List.any_map]
      rfl
  | none =>
      rw [List.any_cons, hsingle]
      rfl

/-- A document token that is not misread has no rule. -/
theorem ofToken?_eq_none_of_isDocumentToken (hdocument : isDocumentToken token = true)
    (hread : isMisread ctx token = false) : ofToken? ctx token = none := by
  simp only [isMisread, Bool.or_eq_false_iff] at hread
  obtain ⟨⟨hshorthand, hkey⟩, hholds⟩ := hread
  rw [← Option.not_isSome_iff_eq_none, isSome_ofToken?_eq_readsAsShorthand hdocument hkey hholds,
    hshorthand]
  exact Bool.false_ne_true

end Rule

end UtilityCss
