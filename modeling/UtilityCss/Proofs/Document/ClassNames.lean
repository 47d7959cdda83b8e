import UtilityCss.Document
import UtilityCss.Proofs.Text.Split

/-!
Class attributes as lists of tokens.  The tokens of an attribute that was written from tokens are
those tokens again.
-/

namespace UtilityCss

namespace Text

theorem isBlank_eq_false_of_mem_words {text word : Text} (hword : word ∈ text.words) :
    ∀ c ∈ word, isBlank c = false :=
  forall_mem_splitOnP word (List.mem_filter.mp hword).1

theorem words_of_forall {word : Text} (hne : word ≠ []) (hword : ∀ c ∈ word, isBlank c = false) :
    words word = [word] := by
  rw [words, List.splitOnP_eq_singleton hword]
  simp [hne]

theorem words_append_space {word : Text} (hne : word ≠ []) (hword : ∀ c ∈ word, isBlank c = false)
    (rest : Text) : words (word ++ ' ' :: rest) = word :: words rest := by
  rw [words, List.splitOnP_append_cons_of_forall_mem hword ' ' (by decide),
    List.filter_cons_of_pos (by simp [hne])]
  rfl

/-- A space ends a word. -/
theorem words_append_space_cons (text rest : Text) :
    words (text ++ ' ' :: rest) = words text ++ words rest := by
  rw [words, List.splitOnP_append_cons text rest (by decide), List.filter_append]
  rfl

/-- The words of words with one space between them. -/
theorem words_intercalate {parts : List Text} (hne : ∀ part ∈ parts, part ≠ [])
    (hparts : ∀ part ∈ parts, ∀ c ∈ part, isBlank c = false) :
    words ([' '].intercalate parts) = parts := by
  induction parts with
  | nil => rfl
  | cons part rest ih =>
      have hrest := ih (fun other hother => hne other (List.mem_cons_of_mem part hother))
        (fun other hother => hparts other (List.mem_cons_of_mem part hother))
      have hfirst := hne part List.mem_cons_self
      have hblank := hparts part List.mem_cons_self
      cases rest with
      | nil =>
          rw [List.intercalate_singleton]
          exact words_of_forall hfirst hblank
      | cons second others =>
          rw [List.intercalate_cons_cons, List.append_assoc, List.singleton_append,
            words_append_space hfirst hblank, hrest]

end Text

namespace Document

variable {doc : Document} {id : ElementId} {name : Text}

theorem words_withoutClass (name current : Text) :
    (withoutClass name current).words = current.words.filter (· ≠ name) := by
  refine Text.words_intercalate (fun part hpart => ?_) (fun part hpart => ?_)
  · exact Text.ne_nil_of_mem_words (List.mem_filter.mp hpart).1
  · exact Text.isBlank_eq_false_of_mem_words (List.mem_filter.mp hpart).1

theorem words_withClass (name current : Text) : (withClass name current).words =
    if name ∈ current.words then current.words else current.words ++ name.words := by
  unfold withClass
  split
  · rfl
  · split
    · rename_i hempty
      rw [List.isEmpty_iff.mp hempty]
      rfl
    · exact Text.words_append_space_cons current name

theorem className_eq (doc : Document) (id : ElementId) :
    doc.className id = ((doc.element? id).map Element.className).getD [] := by
  unfold className
  cases doc.element? id <;> rfl

/-- The class attribute of each element. -/
def classNames (doc : Document) : List Text :=
  doc.elements.map Element.className

theorem className_eq_of_classNames {before after : Document}
    (hclasses : after.classNames = before.classNames) (id : ElementId) :
    after.className id = before.className id := by
  cases id with
  | null => rfl
  | element number =>
      have hname := congrArg (fun names => (names[number]?).getD []) hclasses
      simp only [classNames, List.getElem?_map] at hname
      rw [className_eq, className_eq]
      exact hname

/-- A change of an element that leaves its class attribute alone keeps all of them. -/
theorem classNames_update (doc : Document) (id : ElementId) {change : Element → Element}
    (hchange : ∀ element, (change element).className = element.className) :
    (doc.update id change).classNames = doc.classNames := by
  cases id with
  | null => rfl
  | element number =>
      refine List.ext_getElem? fun n => ?_
      simp only [classNames, update, List.getElem?_map, List.getElem?_modify, Option.map_eq_map,
        Option.map_map]
      refine Option.map_congr fun element _ => ?_
      simp only [Function.comp_apply]
      split <;> simp [hchange]

theorem classes_removeClass (doc : Document) (id : ElementId) (name : Text) :
    (doc.removeClass id name).classes id = (doc.classes id).filter (· ≠ name) := by
  rw [classes, classes, removeClass, className_eq, className_eq, element?_update, if_pos rfl]
  cases doc.element? id with
  | none => rfl
  | some element => exact words_withoutClass name element.className

theorem contains_of_mem_classes (hname : name ∈ doc.classes id) : doc.contains id = true := by
  rw [classes, className_eq] at hname
  rw [contains]
  cases helement : doc.element? id with
  | some element => rfl
  | none =>
      rw [helement] at hname
      cases hname

theorem classes_addClass (doc : Document) (id : ElementId) (name : Text)
    (hid : doc.contains id = true) : (doc.addClass id name).classes id =
      if name ∈ doc.classes id then doc.classes id else doc.classes id ++ name.words := by
  obtain ⟨element, helement⟩ := Option.isSome_iff_exists.mp hid
  rw [classes, classes, addClass, className_eq, className_eq, element?_update, if_pos rfl, helement]
  exact words_withClass name element.className

theorem classes_addClass_of_not_contains (name : Text) (hid : doc.contains id = false) :
    (doc.addClass id name).classes id = [] := by
  rw [classes, addClass, className_eq, element?_update, if_pos rfl, element?_of_not_contains hid]
  rfl

/-- A class that is there afterwards was there before or is one of those that were added. -/
theorem mem_classes_addClass {other : Text} (hother : other ∈ (doc.addClass id name).classes id) :
    other ∈ doc.classes id ∨ other ∈ name.words := by
  cases hid : doc.contains id with
  | true =>
      rw [classes_addClass doc id name hid] at hother
      split at hother
      · exact Or.inl hother
      · exact List.mem_append.mp hother
  | false =>
      rw [classes_addClass_of_not_contains name hid] at hother
      cases hother

/-- A class that is added is there, if it is a single word. -/
theorem hasClass_addClass (hid : doc.contains id = true) (hname : name.words = [name]) :
    (doc.addClass id name).hasClass id name = true := by
  rw [hasClass, List.contains_iff_mem, classes_addClass doc id name hid, hname]
  split
  · assumption
  · exact List.mem_append_right _ List.mem_cons_self

/-- No class is lost when others are added. -/
theorem hasClass_addClass_of_hasClass (hclass : doc.hasClass id name = true) (target : ElementId)
    (other : Text) : (doc.addClass target other).hasClass id name = true := by
  rw [hasClass, List.contains_iff_mem] at hclass ⊢
  by_cases htarget : id = target
  · subst htarget
    rw [classes_addClass doc id other (contains_of_mem_classes hclass)]
    split
    · exact hclass
    · exact List.mem_append_left _ hclass
  · rwa [classes, addClass, className_eq, element?_update, if_neg htarget, ← className_eq]

end Document

end UtilityCss
