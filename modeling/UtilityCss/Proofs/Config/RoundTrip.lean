import UtilityCss.Config.Json
import UtilityCss.Proofs.Json.RoundTrip

/-!
A configuration that was written as a JSON document reads back as it was: with the order of its maps,
and with a preload that is a list or a text as it was given.
-/

namespace UtilityCss.Config

open UtilityCss.Json

variable {after : Text}

theorem readsBack_readPreloadItem (items : List (Option Text)) (text : Text) :
    ReadsBack (readPreloadItem items) (writeText text) (items ++ [some text]) := by
  intro after _
  have hscalar : readAny (nestingLimit - 1) (writeText text ++ after) =
      readScalar (writeText text ++ after) := by
    rw [writeText_append]
    rfl
  have hread : readScalar (writeText text ++ after) = .ok (some text, after) := by
    rw [writeText_append, readScalar, readStringBody_written]
    rfl
  rw [readPreloadItem, hscalar, hread]
  rfl

theorem foldl_concat_some (texts : List Text) (items : List (Option Text)) :
    texts.foldl (fun items text => items ++ [some text]) items = items ++ texts.map some := by
  induction texts generalizing items with
  | nil => rw [List.foldl_nil, List.map_nil, List.append_nil]
  | cons text rest ih => rw [List.foldl_cons, ih, List.append_assoc]; rfl

theorem mapM_id_map_some (texts : List Text) : (texts.map some).mapM id = some texts := by
  induction texts with
  | nil => rfl
  | cons text rest ih => rw [List.map_cons, List.mapM_cons, ih]; rfl

/-- A list is read back as a list, and a text as a text. -/
theorem readsBack_readPreload (preload : Preload) :
    ReadsBack readPreload (writePreload preload) preload := by
  intro after _
  cases preload with
  | text classes =>
      rw [writePreload, writeText_append]
      show (readStringBody false _).map _ = _
      rw [readStringBody_written]
      rfl
  | list classes =>
      have harray := readArray_written readsBack_readPreloadItem classes [] after
      rw [foldl_concat_some, List.nil_append] at harray
      rw [writePreload, writeTexts, List.append_assoc, List.cons_append]
      show (readArray readPreloadItem [] _).andThen _ = _
      rw [List.singleton_append, harray, Read.andThen, mapM_id_map_some]

/-- A configuration with one field of another. -/
def withField (config source : Config) : ConfigField → Config
  | .breakpoints => { config with breakpoints := source.breakpoints }
  | .shortcuts => { config with shortcuts := source.shortcuts }
  | .preload => { config with preload := source.preload }
  | .pixelMultiplier => { config with pixelMultiplier := source.pixelMultiplier }
  | .bodyClass => { config with bodyClass := source.bodyClass }
  | .externalFramework => { config with externalFramework := source.externalFramework }

/-- Every field reads back, into whatever configuration. -/
theorem readsBack_readField (config source : Config) (field : ConfigField) :
    ReadsBack (readField config field) (writeField source field) (config.withField source field) := by
  intro after hafter
  cases field with
  | breakpoints =>
      rw [writeField, readField, readsBack_readTextMap source.breakpoints hafter]
      rfl
  | shortcuts =>
      rw [writeField, readField, readsBack_readTextMap source.shortcuts hafter]
      rfl
  | preload =>
      rw [writeField, readField, readsBack_readPreload source.preload hafter]
      rfl
  | pixelMultiplier =>
      rw [writeField, readField, readsBack_readOptionalWord source.pixelMultiplier hafter]
      rfl
  | bodyClass =>
      rw [writeField, readField, readsBack_readBool source.bodyClass hafter]
      rfl
  | externalFramework =>
      rw [writeField, readField, readsBack_readBool source.externalFramework hafter]
      rfl

/-- Fields that were not read before, each once, are read one after the other. -/
theorem readsMembers_readMember (source : Config) {fields seen : List ConfigField}
    (hnodup : (fields.reverse ++ seen).Nodup) (config : Config) :
    ReadsMembers readMember (fields.map fun field => (field.name, writeField source field))
      (config, seen) (fields.foldl (fun config => config.withField source) config,
        fields.reverse ++ seen) := by
  induction fields generalizing config seen with
  | nil => exact ReadsMembers.nil _
  | cons field rest ih =>
      rw [List.reverse_cons, List.append_assoc] at hnodup ⊢
      have hnew : field ∉ seen :=
        (List.nodup_cons.mp (hnodup.sublist (List.sublist_append_right _ _))).1
      have hread : ∀ {after}, Closes after →
          readMember (config, seen) field.name (':' :: (writeField source field ++ after)) =
            .ok ((config.withField source field, field :: seen), after) := by
        intro after hafter
        have hcolon : readColon (':' :: (writeField source field ++ after)) =
            .ok (writeField source field ++ after) := rfl
        rw [readMember, ConfigField.ofName?_name]
        dsimp only
        rw [if_neg hnew, hcolon]
        dsimp only
        rw [readsBack_readField config source field hafter]
        rfl
      exact ReadsMembers.cons hread (ih hnodup (config.withField source field))

theorem foldl_withField_all (source : Config) :
    ConfigField.all.foldl (fun config => config.withField source) {} = source :=
  rfl

/-- Every configuration survives being written as a JSON document and read again. -/
theorem ofJson_toJson (config : Config) : ofJson config.toJson = .ok config := by
  have hnodup : (ConfigField.all.reverse ++ []).Nodup := by decide
  have hreads := readsMembers_readMember config hnodup {}
  rw [foldl_withField_all] at hreads
  have hobject := readObject_written hreads []
  have hdocument : readDocument config.toJson = .ok (config, []) := by
    rw [toJson, ← List.append_nil (writeMembers _), writeMembers_append]
    show (readObject readMember ({}, []) _).map _ = _
    rw [hobject]
    rfl
  rw [ofJson, hdocument]
  rfl

end UtilityCss.Config
