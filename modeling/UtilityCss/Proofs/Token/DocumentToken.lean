import UtilityCss.Proofs.Token.Shorthand
import UtilityCss.Token.DocumentToken

/-!
Document tokens as the token grammar sees them.  What stands in front of the first colon of such a
token names no state, so unless a breakpoint has its name the walk over the segments stops there, and
the colon stays in the base.
-/

namespace UtilityCss

variable {breakpoints : Breakpoints} {token mark payload : Text}

/-- The text in front of the first colon of a token. -/
def tokenMark (token : Text) : Text :=
  token.takeWhile (· ≠ ':')

theorem tokenMark_append_cons (hmark : ':' ∉ mark) (payload : Text) :
    tokenMark (mark ++ ':' :: payload) = mark := by
  have hall : ∀ c ∈ mark, decide (c ≠ ':') = true := by
    intro c hc
    rw [decide_eq_true_eq]
    rintro rfl
    exact hmark hc
  rw [tokenMark, List.takeWhile_append_of_pos hall]
  simp

/-- A mark that the token grammar can only read as a segment of its own, and as no state. -/
structure IsDocumentMark (mark : Text) : Prop where
  colon_notMem : ':' ∉ mark
  bracket_notMem : '[' ∉ mark
  at_notMem : '@' ∉ mark
  ofName?_eq_none : PseudoState.ofName? mark = none

theorem isDocumentMark_onload : IsDocumentMark "onload".toList := by
  constructor <;> decide

/-- What a container token begins with, by its side. -/
def boundPrefixes : List Text := ["min-".toList, "max-".toList]

/-- The marks of container tokens: a side and a number. -/
theorem isDocumentMark_bound {side digits : Text} (hside : side ∈ boundPrefixes)
    (hdigits : ∀ c ∈ digits, c.isDigit = true) : IsDocumentMark (side ++ digits) := by
  have hnotMem : ∀ c : Char, c.isDigit = false → (∀ side ∈ boundPrefixes, c ∉ side) →
      c ∉ side ++ digits := by
    intro c hc hsides hmem
    rcases List.mem_append.mp hmem with hmem | hmem
    · exact hsides side hside hmem
    · rw [hdigits c hmem] at hc
      cases hc
  refine ⟨hnotMem ':' (by decide) (by decide), hnotMem '[' (by decide) (by decide),
    hnotMem '@' (by decide) (by decide), ?_⟩
  have hnames : ∀ side ∈ boundPrefixes, ∀ state ∈ PseudoState.all, ¬ side <+: state.name := by
    decide
  rw [Option.eq_none_iff_forall_ne_some]
  intro state hstate
  refine hnames side hside state state.mem_all ?_
  rw [PseudoState.ofName?_eq_some_iff.mp hstate]
  exact List.prefix_append side digits

theorem readBoundSide_eq_some {side : BoundSide} {rest : Text}
    (hside : readBoundSide token = some (side, rest)) :
    ∃ name ∈ boundPrefixes, token = name ++ rest := by
  unfold readBoundSide at hside
  split at hside
  · rename_i hmin
    cases hside
    exact ⟨_, List.mem_cons_self, Text.after?_eq_some_iff.mp hmin⟩
  · obtain ⟨behind, hmax, heq⟩ := Option.map_eq_some_iff.mp hside
    cases heq
    exact ⟨_, List.mem_cons_of_mem _ List.mem_cons_self, Text.after?_eq_some_iff.mp hmax⟩

/-- A document token is a mark and a payload behind a colon. -/
theorem exists_mark_of_isDocumentToken (hdocument : isDocumentToken token = true) :
    ∃ payload, token = tokenMark token ++ ':' :: payload ∧ IsDocumentMark (tokenMark token) := by
  suffices hparts : ∃ mark payload, IsDocumentMark mark ∧ token = mark ++ ':' :: payload by
    obtain ⟨mark, payload, hmark, rfl⟩ := hparts
    rw [tokenMark_append_cons hmark.colon_notMem]
    exact ⟨payload, rfl, hmark⟩
  rw [isDocumentToken, Bool.or_eq_true] at hdocument
  rcases hdocument with honload | hcontainer
  · obtain ⟨payload, rfl⟩ := List.isPrefixOf_iff_prefix.mp honload
    exact ⟨_, payload, isDocumentMark_onload, rfl⟩
  · obtain ⟨condition, hparse⟩ := Option.isSome_iff_exists.mp hcontainer
    simp only [ContainerToken.parse?, bind, Option.bind_eq_some_iff, spanDigits] at hparse
    obtain ⟨⟨side, rest⟩, hside, payload, hpayload, -⟩ := hparse
    obtain ⟨name, hname, rfl⟩ := readBoundSide_eq_some hside
    refine ⟨name ++ rest.takeWhile Char.isDigit, payload,
      isDocumentMark_bound hname (List.all_eq_true.mp List.all_takeWhile), ?_⟩
    have hrest : rest.dropWhile Char.isDigit = ':' :: payload := Text.after?_eq_some_iff.mp hpayload
    rw [List.append_assoc, ← hrest, List.takeWhile_append_dropWhile]

namespace ParsedToken

/-- The walk takes nothing from a mark on. -/
theorem rest_ofSegments_mark {breakpoint : Option Text} {parts : List Text}
    (hmark : IsDocumentMark mark) (hkey : breakpoints.contains mark = false) :
    (ModifierWalk.ofSegments breakpoints breakpoint (mark :: parts)).rest = mark :: parts := by
  cases parts with
  | nil => cases breakpoint <;> rfl
  | cons next others =>
      rw [ModifierWalk.ofSegments_cons_cons, if_neg (by simp [hkey]), hmark.ofName?_eq_none]

theorem base_parse (breakpoints : Breakpoints) (raw : Text) :
    (parse breakpoints raw).base = [':'].intercalate
      (ModifierWalk.ofSegments breakpoints none ((Importance.split raw).1.splitOn ':')).rest :=
  rfl

/-- The base of a text that begins with a mark, maybe behind a breakpoint, begins with the mark. -/
theorem base_parse_mark (hmark : IsDocumentMark mark) (hkey : breakpoints.contains mark = false)
    (payload : Text) :
    ∃ rest, (parse breakpoints (mark ++ ':' :: payload)).base = mark ++ ':' :: rest := by
  obtain ⟨rest, hrest⟩ := Text.exists_eq_append_cons
    (Importance.split_append (mark ++ ':' :: payload)).symm (Importance.colon_notMem_suffix _)
  refine ⟨rest, ?_⟩
  rw [base_parse, hrest, List.splitOn_append_cons_self_of_not_mem hmark.colon_notMem, rest_ofSegments_mark hmark hkey,
    ← List.splitOn_append_cons_self_of_not_mem hmark.colon_notMem, List.intercalate_splitOn]

theorem base_parse_key_mark {key : Text} (hmark : IsDocumentMark mark)
    (hkey : breakpoints.contains mark = false) (hcolon : ':' ∉ key)
    (hcontains : breakpoints.contains key = true) (payload : Text) :
    ∃ rest, (parse breakpoints (key ++ ':' :: (mark ++ ':' :: payload))).base =
      mark ++ ':' :: rest := by
  have hfront : key ++ ':' :: (mark ++ ':' :: payload) = (key ++ ':' :: mark) ++ ':' :: payload := by
    simp
  obtain ⟨rest, hrest⟩ := Text.exists_eq_append_cons
    (hfront.symm.trans (Importance.split_append (key ++ ':' :: (mark ++ ':' :: payload))).symm)
    (Importance.colon_notMem_suffix _)
  rw [List.append_assoc, List.cons_append] at hrest
  refine ⟨rest, ?_⟩
  obtain ⟨next, others, hnext⟩ := List.exists_cons_of_ne_nil
    (List.splitOn_ne_nil ':' (mark ++ ':' :: rest))
  rw [base_parse, hrest, List.splitOn_append_cons_self_of_not_mem hcolon, hnext, ModifierWalk.ofSegments_cons_cons,
    if_pos (by simp [hcontains]), ← hnext,
    List.splitOn_append_cons_self_of_not_mem hmark.colon_notMem, rest_ofSegments_mark hmark hkey,
    ← List.splitOn_append_cons_self_of_not_mem hmark.colon_notMem, List.intercalate_splitOn]

/-- Whether or not a breakpoint moves to the front, the base of a document token begins with its
mark and a colon. -/
theorem base_parse_frontForm
    (hkeys : ∀ key ∈ breakpoints.keys, key <:+: frontForm breakpoints token → ':' ∉ key)
    (hdocument : isDocumentToken token = true)
    (hkey : breakpoints.contains (tokenMark token) = false) :
    ∃ rest, (parse breakpoints (frontForm breakpoints token)).base =
      tokenMark token ++ ':' :: rest := by
  obtain ⟨payload, htoken, hmark⟩ := exists_mark_of_isDocumentToken hdocument
  rcases frontForm_eq_or breakpoints token with heq | ⟨front, key, hcontains, hparts, heq⟩
  · rw [heq]
    have hbase := base_parse_mark hmark hkey payload
    rwa [← htoken] at hbase
  · have hcut : tokenMark token ++ ':' :: payload =
        front ++ '@' :: (key ++ (Importance.split token).2.suffix) := by
      rw [← htoken, ← List.cons_append, ← List.append_assoc]
      exact hparts
    obtain ⟨inner, hfront⟩ := Text.exists_eq_append_cons_of_ne hcut hmark.at_notMem (by decide)
    have hcolon : ':' ∉ key := by
      refine hkeys key (OrderedMap.contains_iff.mp hcontains) ?_
      rw [heq, List.append_assoc]
      exact (List.prefix_append key _).isInfix
    rw [heq, hfront, List.append_assoc, List.cons_append, List.append_assoc, List.cons_append]
    exact base_parse_key_mark hmark hkey hcolon hcontains _

end ParsedToken

end UtilityCss
