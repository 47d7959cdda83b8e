import UtilityCss.Proofs.Compiler.SheetOrder
import UtilityCss.Proofs.Document.Preorder
import UtilityCss.Proofs.Page.Redelivery

/-!
The start of a page.  The walk over the tree takes the next element from a stack and asks for its
children only once it is processed.  Processing moves no element and changes the classes of no other
one, so the walk is the one over the tree as it was, and each class token is served where reading the
tree in document order comes to it.
-/

namespace UtilityCss

namespace Page

variable {page final : Page} {id : ElementId} {token : Text} {tokens names : List Text}
  {before : Compiler} {stack visited ids : List ElementId}

/-- A walk as a loop over a stack: the element on top is processed, and then the children that it has
by then are put on top of the rest, the first one uppermost.  The loop meets the visited elements and
ends with the final page. -/
inductive Walks : (stack : List ElementId) → Page → (visited : List ElementId) → (final : Page) →
    Prop where
  | done (page : Page) : Walks [] page [] page
  | visit {id : ElementId} {rest visited : List ElementId} {page final : Page}
      (hrest : Walks ((page.process id).document.children id ++ rest) (page.process id) visited
        final) : Walks (id :: rest) page (id :: visited) final

theorem skeleton_process (page : Page) (id : ElementId) :
    (page.process id).document.skeleton = page.document.skeleton :=
  congrArg Setting.skeleton (changesOnly_process page id).setting_eq

theorem flatMap_subtree_cons (hforest : page.document.IsForest) (id : ElementId)
    (rest : List ElementId) :
    (id :: rest).flatMap page.document.subtree =
      id :: ((page.process id).document.children id ++ rest).flatMap
        (page.process id).document.subtree := by
  have hskeleton := skeleton_process page id
  have hsubtree : (page.process id).document.subtree = page.document.subtree :=
    funext (Document.subtree_eq_of_skeleton hskeleton)
  rw [List.flatMap_cons, hforest.subtree_eq id, hsubtree,
    Document.children_eq_of_skeleton hskeleton, List.flatMap_append, List.cons_append]

/-- The loop comes to an end, and in one way: it processes the elements on the stack, each with what
is below it, in document order. -/
theorem walks_iff (hforest : page.document.IsForest) :
    Walks stack page visited final ↔
      visited = stack.flatMap page.document.subtree ∧ final = visited.foldl process page := by
  constructor
  · intro hwalks
    induction hwalks with
    | done page => exact ⟨rfl, rfl⟩
    | @visit id rest visited page final _ ih =>
        obtain ⟨hvisited, hfinal⟩ := ih (hforest.of_skeleton (skeleton_process page id))
        exact ⟨by rw [flatMap_subtree_cons hforest, hvisited], hfinal⟩
  · rintro ⟨hvisited, rfl⟩
    -- On the elements that are still to come: each round takes one of them.
    induction visited generalizing stack page with
    | nil =>
        cases stack with
        | nil => exact Walks.done page
        | cons id rest =>
            rw [flatMap_subtree_cons hforest] at hvisited
            cases hvisited
    | cons first later ih =>
        cases stack with
        | nil => cases hvisited
        | cons id rest =>
            rw [flatMap_subtree_cons hforest] at hvisited
            obtain ⟨rfl, hlater⟩ := List.cons.inj hvisited
            exact Walks.visit (ih (hforest.of_skeleton (skeleton_process page first)) hlater)

theorem compiler_defer (page : Page) (id : ElementId) (name : Text) (now : Nat) :
    (page.defer id name now).compiler = page.compiler := by
  unfold defer
  split
  · rfl
  · dsimp only
    split <;> rfl

theorem ledger_activate (page : Page) (id : ElementId) (token : Text) :
    (page.activate id token).compiler.ledger = page.compiler.ledger := by
  cases hcondition : (page.conditions id).get? token with
  | none => rw [activate_of_none hcondition]
  | some condition =>
      rw [activate_of_some hcondition, updateCondition, compiler_updateContainer]
      exact Compiler.ledger_inlineStyle page.compiler _

theorem ledger_evaluate (page : Page) (id : ElementId) (width : Binary64) :
    (page.evaluate id width).compiler.ledger = page.compiler.ledger :=
  (foldl_eq_of_step (fun page => page.compiler.ledger)
    (fun page token => ledger_activate page id token) _ _).trans
      (congrArg Compiler.ledger (compiler_foldl_deactivate page id _))

theorem ledger_syncConditions (page : Page) (id : ElementId)
    (queries : List (Text × ContainerToken)) :
    (page.syncConditions id queries).compiler.ledger = page.compiler.ledger := by
  have hrekey := congrArg Compiler.ledger (compiler_rekey page id queries)
  rw [syncConditions_eq]
  dsimp only
  split
  · exact (congrArg Compiler.ledger (compiler_teardown _ id)).trans hrekey
  · split
    · split
      · exact (ledger_evaluate _ id _).trans hrekey
      · exact hrekey
    · exact hrekey

/-- Container conditions bring no rule and no table. -/
theorem ledger_sync (page : Page) (id : ElementId) (tokens : List Text) :
    (page.sync id tokens).compiler.ledger = page.compiler.ledger := by
  have htrack := congrArg Compiler.ledger (compiler_track page id)
  unfold sync
  dsimp only
  split
  · rfl
  split
  · rfl
  split
  · exact (ledger_syncConditions _ id _).trans htrack
  · exact htrack

theorem compiled_serveToken (id : ElementId) (hcompiled : before.Compiled names page.compiler)
    (hblank : token.trim.isEmpty = false) :
    before.Compiled (names ++ [token]) (page.serveToken id token).compiler := by
  unfold serveToken
  split
  · rename_i hcontainer
    refine hcompiled.skip ?_
    rw [isCompiled, Option.isNone_eq_false_iff.mpr hcontainer, Bool.false_and]
  · rename_i hcontainer
    split
    · rename_i name hdeferred
      rw [compiler_defer]
      exact hcompiled.skip (by simp [isCompiled, hdeferred])
    · rename_i hdeferred
      exact hcompiled.compile (by simpa [isCompiled, hdeferred] using hcontainer) hblank

theorem compiled_foldl_serveToken (id : ElementId)
    (hcompiled : before.Compiled names page.compiler)
    (hblank : ∀ token ∈ tokens, token.trim.isEmpty = false) :
    before.Compiled (names ++ tokens)
      (tokens.foldl (fun page token => page.serveToken id token) page).compiler := by
  induction tokens generalizing page names with
  | nil => rwa [List.append_nil]
  | cons token rest ih =>
      have hstep := compiled_serveToken id hcompiled (hblank token List.mem_cons_self)
      have hrest := ih hstep fun other hother => hblank other (List.mem_cons_of_mem token hother)
      rwa [List.append_assoc, List.singleton_append] at hrest

theorem isEmpty_trim_of_mem_classes {doc : Document} (htoken : token ∈ doc.classes id) :
    token.trim.isEmpty = false := by
  obtain ⟨c, hc⟩ := List.exists_mem_of_ne_nil token (Text.ne_nil_of_mem_words htoken)
  rw [List.isEmpty_eq_false_iff]
  exact List.ne_nil_of_mem (Text.mem_trim hc (Text.isBlank_eq_false_of_mem_words htoken c hc))

/-- Processing an element asks for its class tokens, in the order of the attribute. -/
theorem compiled_process (hcompiled : before.Compiled names page.compiler) (id : ElementId) :
    before.Compiled (names ++ page.document.classes id) (page.process id).compiler := by
  have hserved := compiled_foldl_serveToken id hcompiled
    fun token (htoken : token ∈ page.document.classes id) => isEmpty_trim_of_mem_classes htoken
  refine hserved.of_ledger ?_
  rw [process_eq, ledger_sync, prepare, compiler_watch]

/-- The classes that the tokens of an element defer, each where a token defers it first. -/
def deferralsOf (doc : Document) (now : Nat) (id : ElementId) : List DeferredClass :=
  ((doc.classes id).filterMap deferredClass?).eraseDups.map fun name => ⟨id, name, dueMoment now⟩

/-- Processing an element for the first time queues all that it defers. -/
theorem queue_process (hfresh : id = .null ∨ page.deferredNames id = []) :
    (page.process id).queue = page.queue ++ deferralsOf page.document page.now id := by
  rw [(queues_process page id).queue_eq, deferralsOf, newlyDeferred]
  rcases hfresh with rfl | hnone
  · rfl
  · rw [hnone]
    simp

/-- Elements that are met once, and null handles, are served in order. -/
theorem foldl_process
    (hfresh : ∀ id ∈ ids, id = .null ∨ page.deferredNames id = [] ∧ ids.count id ≤ 1)
    (hcompiled : before.Compiled names page.compiler) :
    before.Compiled (names ++ ids.flatMap page.document.classes) (ids.foldl process page).compiler ∧
      (ids.foldl process page).queue =
        page.queue ++ ids.flatMap (deferralsOf page.document page.now) := by
  induction ids generalizing page names with
  | nil => simpa using hcompiled
  | cons id rest ih =>
      have hchange := changesOnly_process page id
      have hnow : (page.process id).now = page.now := congrArg Setting.now hchange.setting_eq
      -- Whoever is still to come is another element, or it has no classes.
      have hother : ∀ other ∈ rest, other = .null ∨ other ≠ id ∧
          page.deferredNames other = [] ∧ rest.count other ≤ 1 := by
        intro other hmem
        refine (hfresh other (List.mem_cons_of_mem id hmem)).imp_right fun ⟨hnone, hcount⟩ => ?_
        have hne : other ≠ id := by
          rintro rfl
          rw [List.count_cons_self] at hcount
          exact absurd (List.count_pos_iff.mpr hmem) (by omega)
        rw [List.count_cons_of_ne (Ne.symm hne)] at hcount
        exact ⟨hne, hnone, hcount⟩
      have hclasses : ∀ other ∈ rest,
          (page.process id).document.classes other = page.document.classes other := by
        intro other hmem
        rcases hother other hmem with rfl | ⟨hne, -, -⟩
        · rfl
        · exact hchange.classes_eq hne
      have hscheduled : ∀ other ∈ rest, other = .null ∨
          (page.process id).deferredNames other = [] ∧ rest.count other ≤ 1 := by
        intro other hmem
        refine (hother other hmem).imp_right fun ⟨hne, hnone, hcount⟩ => ⟨?_, hcount⟩
        have hsame : (page.process id).scheduled.get? other = page.scheduled.get? other :=
          congrArg ElementView.scheduled (hchange.view_eq other hne)
        rw [deferredNames, hsame]
        exact hnone
      obtain ⟨hsheets, hqueue⟩ := ih hscheduled (compiled_process hcompiled id)
      have hfirst := queue_process ((hfresh id List.mem_cons_self).imp_right And.left)
      rw [List.flatMap_congr hclasses, List.append_assoc] at hsheets
      refine ⟨hsheets, ?_⟩
      have hdeferrals : ∀ other ∈ rest, deferralsOf (page.process id).document page.now other =
          deferralsOf page.document page.now other := fun other hmem => by
        rw [deferralsOf, deferralsOf, hclasses other hmem]
      rw [List.foldl_cons, hqueue, hfirst, hnow, List.flatMap_congr hdeferrals, List.flatMap_cons,
        List.append_assoc]

/-- A page that starts over a document, with whatever compiler, walks over the elements that can be
reached from the root, each of them once, in document order.  Each sheet gets the texts of the classes
that are new to the compiler, in the order in which they first occur when the tree and each class
attribute is read in order, and the queue holds the deferred classes in that order. -/
theorem start_in_document_order {doc : Document} (hdoc : doc.Reachable) (compiler : Compiler) :
    let page : Page := { document := doc, compiler }
    let visited := doc.subtree Document.root
    (∀ ids final, Walks [Document.root] page ids final ↔ ids = visited ∧ final = page.start) ∧
      (∀ id, doc.subtree id = id :: (doc.children id).flatMap doc.subtree) ∧
      (∀ id, doc.contains id = true →
        (Relation.ReflTransGen doc.IsChild Document.root id → visited.count id = 1) ∧
        (¬ Relation.ReflTransGen doc.IsChild Document.root id → visited.count id = 0)) ∧
      (∀ kind, page.start.compiler.cache.sheets.text kind =
        (compiler.newTexts kind (visited.flatMap doc.classes)).foldl Sheets.appendText
          (compiler.cache.sheets.text kind)) ∧
      page.start.queue = visited.flatMap (deferralsOf doc 0) := by
  intro page visited
  have hforest : doc.IsForest := hdoc.isForest
  have hfresh : ∀ id ∈ visited, id = .null ∨ page.deferredNames id = [] ∧ visited.count id ≤ 1 := by
    intro id hid
    cases hcontains : doc.contains id with
    | true => exact Or.inr ⟨rfl, hforest.count_preorder_le_one hcontains _ Document.root⟩
    | false =>
        rcases hforest.eq_null_of_mem_preorder hid hcontains with rfl | hnull
        · rw [hforest.contains_root] at hcontains
          cases hcontains
        · exact Or.inl hnull
  obtain ⟨hsheets, hqueue⟩ := foldl_process hfresh (Compiler.Compiled.nil compiler)
  refine ⟨fun ids final => ?_, hforest.subtree_eq, fun id hid => hforest.count_subtree hid,
    hsheets.text_eq, hqueue⟩
  have hroot : [Document.root].flatMap doc.subtree = visited := List.flatMap_singleton _ _
  have hwalks : Walks [Document.root] page ids final ↔
      ids = [Document.root].flatMap doc.subtree ∧ final = ids.foldl process page :=
    walks_iff hforest
  rw [hwalks, hroot]
  refine and_congr_right fun hids => ?_
  rw [hids]
  rfl

/-- Two children of the root and a grandchild, which was created last. -/
def grandchildDocument : Document :=
  let first := ({} : Document).append Document.root "m-1 box".toList
  let second := first.1.append Document.root "onload:y m-1".toList
  (second.1.append first.2 "onload:x p-2".toList).1

/-- A compiler with two utilities and a shortcut. -/
def boxCompiler : Compiler where
  tables.properties := .ofList [("p".toList, ["padding".toList]), ("m".toList, ["margin".toList])]
  shortcuts := .ofList [("box".toList, "p-1".toList)]

/-- The grandchild comes before the second child, in the sheets and in the queue. -/
theorem start_in_document_order_grandchild :
    let page : Page := { document := grandchildDocument, compiler := boxCompiler }
    grandchildDocument.Reachable ∧
      page.start.compiler.cache.sheets.text .utilities =
        ".m-1 \x7b margin: 4px; \x7d\n.p-2 \x7b padding: 8px; \x7d".toList ∧
      page.start.compiler.cache.sheets.text .shortcuts = ".box \x7b\n  padding: 4px;\n\x7d".toList ∧
      page.start.queue =
        [⟨.element 3, "x".toList, 100⟩, ⟨.element 2, "y".toList, 100⟩] := by
  intro page
  have hdoc : grandchildDocument.Reachable := by
    refine (((Document.Reachable.new true).step (.append Document.root _) ?_).step
      (.append Document.root _) ?_).step (.append (.element 1) _) ?_ <;> decide
  obtain ⟨-, -, -, hsheets, hqueue⟩ := start_in_document_order hdoc boxCompiler
  refine ⟨hdoc, ?_, ?_, ?_⟩
  · rw [hsheets]
    decide +kernel
  · rw [hsheets]
    decide +kernel
  · rw [hqueue]
    decide +kernel

end Page

end UtilityCss
