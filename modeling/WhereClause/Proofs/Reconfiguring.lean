import WhereClause.Proofs.Forthcoming

/-!
# Settings that change before rendering

A tree keeps the names that it made up, and rendering makes up names under the settings that are
then in force. If only the stem is another one, together with settings that only building looks at,
then every text is the one under the initial settings with each name that rendering makes up
respelled, and the bindings are the same ones under the same numbers. The new names may look like
names that were made up before, since a stem may end in a digit; but within one tree a new name has
a later number than any old one, so that each placeholder is replaced once and only once.

* `yields_carried`: whether a node can be rendered does not depend on the settings.
* `takes_texts`: the texts of what is at and below a node, under both settings.
* `sql_reconfigured`: rendering after the settings were changed, in every run.
-/

namespace WhereClause

open Text (Takes Untouched)

namespace Workspace

variable {w u : Workspace} {root id : NodeId} {j : Junction}

/-- The same forest under the initial settings and under others that change the stem alone. -/
structure Restyles (w u : Workspace) : Prop where
  forest : u.toForest = w.toForest
  initial : w.settings = {}
  customary : u.settings.Customary

namespace Restyles

theorem refl (initial : w.settings = {}) : w.Restyles w :=
  ⟨rfl, initial, initial ▸ Settings.customary_default⟩

variable (restyles : w.Restyles u)
include restyles

theorem rewriting (selfNamed : (w.binder j.binder).SelfNamed) (v : Value) :
    u.rewriting j v = v.mapText fun s => String.ofList (Expansion.substituteText
      ((w.binder j.binder).exchanges w.toForest u.settings) s.toList) := by
  rw [Workspace.rewriting, restyles.forest]
  exact selfNamed.rewriting w.toForest restyles.customary v

theorem final (selfNamed : (w.binder j.binder).SelfNamed) (numbered : w.Numbered) :
    u.final j = (w.binder j.binder).keeping ++
      (w.binder j.binder).minted w.toForest u.settings := by
  rw [Workspace.final, restyles.forest]
  exact selfNamed.final w.toForest (numbered j.binder) restyles.customary

omit restyles in
theorem takes_exchanges (selfNamed : w.SelfNamed root) (inside : j ∈ w.openTrees root)
    (settings : Settings) (key : String) : Option.Rel (Takes (w.renamings settings root))
      (Table.get? key ((w.binder j.binder).exchanges w.toForest {}))
      (Table.get? key ((w.binder j.binder).exchanges w.toForest settings)) := by
  have tokens := tokens_renamings settings selfNamed
  rw [Binder.exchanges, Binder.exchanges, Table.get?_map, Table.get?_map]
  cases found : Table.get? key ((w.binder j.binder).numbering w.toForest) with
  | none => exact .none
  | some numbers =>
      obtain ⟨-, known⟩ := Binder.mem_numbering w.toForest {} (Table.mem_of_get? found)
      refine .some (Takes.intercalate (fun first second => ?_) fun n member => ?_)
      · rw [String.append_assoc, String.append_assoc]
        refine first.append (second.prepend tokens (by decide)) ?_
        rw [String.toList_append]
        rfl
      · exact Text.takes_of_get? tokens (get?_renamings settings inside (known n member))

/-- What compiling makes of a condition is respelled. -/
theorem takes_rewriting (selfNamed : w.SelfNamed root) (inside : j ∈ w.openTrees root) {s : String}
    (untouched : Untouched (w.renamings {} root) s.toList) : ∃ t t', w.rewriting j (.text s) =
      .text t ∧ u.rewriting j (.text s) = .text t' ∧
      Takes (w.renamings u.settings root) t t' := by
  have own := selfNamed.binder j inside
  refine ⟨_, _, (refl restyles.initial).rewriting own (.text s), restyles.rewriting own (.text s),
    ?_⟩
  rw [restyles.initial]
  refine Text.takes_substituteText (tokens_renamings u.settings selfNamed)
    (own.independent w.toForest Settings.customary_default)
    (own.independent w.toForest restyles.customary)
    (takes_exchanges selfNamed inside u.settings) ?_
  rwa [Untouched, keys_renamings]

end Restyles
end Workspace

/-! ## Texts under both settings -/

/-- Replacing at once takes both texts to those of the other. -/
structure Texts.Takes (replacements : Table String String) (texts others : Texts) : Prop where
  alone : Text.Takes replacements texts.alone others.alone
  beside : Text.Takes replacements texts.beside others.beside

namespace Texts.Takes

variable {replacements : Table String String} {texts others : Texts}
  (tokens : Tokens replacements)
include tokens

theorem wrapping {s t : String} (takes : Text.Takes replacements s t) :
    Texts.Takes replacements (.wrapping s) (.wrapping t) :=
  ⟨takes, takes.parenthesized tokens⟩

theorem comparison {c : Comparison} {s t : String}
    (field : Text.Takes replacements c.field c.field)
    (operator : Text.Takes replacements c.operator c.operator)
    (operand : Text.Takes replacements s t) :
    Texts.Takes replacements (c.around s) (c.around t) :=
  wrapping tokens ((field.spaced tokens operator).spaced tokens operand)

theorem unary {unary : Unary} (symbol : Text.Takes replacements unary.symbol unary.symbol)
    (argument : texts.Takes replacements others) :
    Texts.Takes replacements (unary.around texts) (unary.around others) := by
  apply wrapping tokens
  split
  · exact argument.alone.spaced tokens symbol
  · exact symbol.spaced tokens argument.beside

theorem around {j : Junction} {conditions conditions' : List Value} {parts parts' : Value → Texts}
    (text : Text.Takes replacements (j.text conditions parts) (j.text conditions' parts'))
    (node : ∀ child, .node child ∈ j.conditions →
      (parts (.node child)).Takes replacements (parts' (.node child))) :
    Texts.Takes replacements (j.around conditions parts) (j.around conditions' parts') := by
  refine ⟨text, ?_⟩
  cases single : solitary? j.conditions with
  | some child =>
      rw [Junction.beside_around_of_solitary single, Junction.beside_around_of_solitary single]
      exact (node child (by simp [solitary?_eq_some.mp single])).beside
  | none =>
      rw [Junction.beside_around single, Junction.beside_around single, grouped, grouped]
      split
      · exact text.parenthesized tokens
      · exact text

end Texts.Takes

namespace Workspace

variable {w u : Workspace} {root id : NodeId} {j : Junction}

/-- What yields texts under some settings does so under any others. -/
theorem yields_carried (same : u.toForest = w.toForest) {v : Value} {texts : Texts}
    (yields : Yields w.toForest w.reading v texts) :
    ∃ others, Yields u.toForest u.reading v others := by
  rw [same]
  induction yields with
  | text s => exact ⟨_, .text s⟩
  | outcome => exact ⟨_, .outcome⟩
  | compiled found compiled => exact ⟨_, .compiled found compiled⟩
  | fragment kind => exact ⟨_, .fragment kind⟩
  | bound kind operator operand flat => exact ⟨_, .bound kind operator operand flat⟩
  | nested kind operator nested _ ih =>
      obtain ⟨_, inner⟩ := ih
      exact ⟨_, .nested kind operator nested inner⟩
  | plain kind symbol given flat => exact ⟨_, .plain kind symbol given flat⟩
  | unary kind symbol nested _ ih =>
      obtain ⟨_, inner⟩ := ih
      exact ⟨_, .unary kind symbol nested inner⟩
  | @tree id j conditions texts found read each ih =>
      have parts : ∃ conditions', u.reading j = some conditions' ∧
          ∀ v ∈ conditions', ∃ others, Yields w.toForest u.reading v others := by
        cases compiled : j.compiled with
        | some rendered =>
            have closed : j.compiled.isSome = true := by rw [compiled]; rfl
            cases (w.reading_of_compiled closed).symm.trans read
            exact ⟨_, u.reading_of_compiled closed, ih⟩
        | none =>
            cases (w.reading_of_open compiled).symm.trans read
            refine ⟨_, u.reading_of_open compiled, fun v member => ?_⟩
            obtain ⟨v, inside, rfl⟩ := List.mem_map.mp member
            rcases u.rewrites j v with ⟨_, t, -, same⟩ | ⟨notText, same⟩
            · exact ⟨_, by rw [same]; exact .text t⟩
            · rcases w.rewrites j v with ⟨s, _, rfl, -⟩ | ⟨-, same'⟩
              · cases notText
              · rw [same]
                exact ih v (List.mem_map.mpr ⟨v, inside, same'⟩)
      obtain ⟨conditions', read', yields⟩ := parts
      choose! others yields using yields
      exact ⟨_, .tree found read' yields⟩

theorem Orderly.carried (same : u.toForest = w.toForest) (orderly : w.Orderly root) :
    u.Orderly root where
  yields id reached := by
    rw [same] at reached
    obtain ⟨_, yields⟩ := yields_carried same (orderly.yields id reached)
    exact yields.chosen
  separate := by
    intro id other j k
    rw [same]
    exact orderly.separate id other j k
  present := same ▸ orderly.present

/-- A node at or below the root, or another value whose text mentions no name that is yet to be made
up. -/
structure Within (w : Workspace) (root : NodeId) (v : Value) : Prop where
  node : ∀ id, v = .node id → w.Reaches root id
  text : ∀ s, w.conditionText? v = some s → Untouched (w.renamings {} root) s.toList

theorem within_node (reached : w.Reaches root id) : w.Within root (.node id) where
  node _ same := by
    cases same
    exact reached
  text _ none' := by cases none'

namespace SelfNamed

variable (selfNamed : w.SelfNamed root) (settings : Settings)
include selfNamed

theorem takes {s : String} (untouched : Untouched (w.renamings {} root) s.toList) :
    Takes (w.renamings settings root) s s := by
  apply Untouched.takes (tokens_renamings settings selfNamed)
  rwa [Untouched, keys_renamings]

theorem takes_writing (reached : w.Reaches root id) {s : String} (written : s ∈ w.writings id) :
    Takes (w.renamings settings root) s s :=
  selfNamed.takes settings (selfNamed.text id reached s written)

theorem within_condition (reached : w.Reaches root id) (found : w.junction? id = some j)
    (isOpen : j.compiled = none) {v : Value} (member : v ∈ j.conditions) : w.Within root v where
  node _ same := reached.tail ((Forest.child_of_tree found).mpr (same ▸ member))
  text s same := by
    refine selfNamed.text id reached s ?_
    simp only [Forest.writings, Forest.junction?_eq_some.mp found, isOpen]
    exact List.mem_cons_of_mem _ (List.mem_filterMap.mpr ⟨v, member, same⟩)

end SelfNamed

namespace Restyles

variable (restyles : w.Restyles u) (selfNamed : w.SelfNamed root)
include restyles selfNamed

/-- A condition of an open tree, as compiling makes it under the one and the other settings. -/
theorem takes_condition (inside : j ∈ w.openTrees root) {v : Value} (within : w.Within root v)
    {parts parts' : Value → Texts}
    (yields : Yields w.toForest w.reading (w.rewriting j v) (parts (w.rewriting j v)))
    (yields' : Yields w.toForest u.reading (u.rewriting j v) (parts' (u.rewriting j v)))
    (ih : ∀ others, Yields w.toForest u.reading (w.rewriting j v) others →
      w.Within root (w.rewriting j v) →
        (parts (w.rewriting j v)).Takes (w.renamings u.settings root) others) :
    (parts (w.rewriting j v)).Takes (w.renamings u.settings root)
      (parts' (u.rewriting j v)) := by
  rcases w.rewrites j v with ⟨s, _, rfl, -⟩ | ⟨notText, same⟩
  · obtain ⟨t, t', before, after, takes⟩ :=
      restyles.takes_rewriting selfNamed inside (within.text s rfl)
    rw [before] at yields ⊢
    rw [after] at yields' ⊢
    generalize parts (.text t) = texts at yields ⊢
    generalize parts' (.text t') = others at yields' ⊢
    cases yields
    cases yields'
    exact .wrapping (tokens_renamings u.settings selfNamed) takes
  · rcases u.rewrites j v with ⟨s, _, rfl, -⟩ | ⟨-, same'⟩
    · cases notText
    · rw [same'] at yields' ⊢
      rw [same] at ih ⊢
      exact ih _ yields' within

/-- An open tree is respelled if what its conditions are rewritten to at first is respelled. -/
theorem takes_open (reached : w.Reaches root id) (found : w.junction? id = some j)
    (isOpen : j.compiled = none) (inside : j ∈ w.openTrees root) {parts parts' : Value → Texts}
    (each : ∀ v ∈ j.conditions.map (w.rewriting j), Yields w.toForest w.reading v (parts v))
    (each' : ∀ v ∈ j.conditions.map (u.rewriting j), Yields w.toForest u.reading v (parts' v))
    (ih : ∀ v ∈ j.conditions.map (w.rewriting j), ∀ others,
      Yields w.toForest u.reading v others → w.Within root v →
        (parts v).Takes (w.renamings u.settings root) others) :
    (j.around (j.conditions.map (w.rewriting j)) parts).Takes (w.renamings u.settings root)
      (j.around (j.conditions.map (u.rewriting j)) parts') := by
  have tokens := tokens_renamings u.settings selfNamed
  have part (v : Value) (member : v ∈ j.conditions) :
      (parts (w.rewriting j v)).Takes (w.renamings u.settings root)
        (parts' (u.rewriting j v)) := by
    have rewritten : w.rewriting j v ∈ j.conditions.map (w.rewriting j) :=
      List.mem_map.mpr ⟨v, member, rfl⟩
    exact restyles.takes_condition selfNamed inside
      (selfNamed.within_condition reached found isOpen member) (each _ rewritten)
      (each' _ (List.mem_map.mpr ⟨v, member, rfl⟩)) fun others => ih _ rewritten others
  refine .around tokens ?_ fun lower member => ?_
  · have connective : Takes (w.renamings u.settings root) j.connective.written
        j.connective.written := by
      refine selfNamed.takes_writing u.settings reached ?_
      simp [Forest.writings, Forest.junction?_eq_some.mp found, isOpen]
    simp only [Junction.text, isOpen, List.map_map]
    exact connective.joined tokens fun v member => (part v member).alone
  · have node := part _ member
    rwa [Workspace.rewriting, Workspace.rewriting, Binder.rewriting_node,
      Binder.rewriting_node] at node

/-- The texts under the other settings are those under the initial ones, respelled. -/
theorem takes_texts (orderly : w.Orderly root) {v : Value} {texts others : Texts}
    (yields : Yields w.toForest w.reading v texts) (yields' : Yields u.toForest u.reading v others)
    (within : w.Within root v) : texts.Takes (w.renamings u.settings root) others := by
  have tokens := tokens_renamings u.settings selfNamed
  have written {id : NodeId} (within : w.Within root (.node id)) {s : String}
      (member : s ∈ w.writings id) : Takes (w.renamings u.settings root) s s :=
    selfNamed.takes_writing u.settings (within.node id rfl) member
  rw [restyles.forest] at yields'
  induction yields generalizing others with
  | text s =>
      cases yields'
      exact .wrapping tokens (selfNamed.takes _ (within.text s rfl))
  | outcome =>
      cases yields'
      exact .wrapping tokens (selfNamed.takes _ (within.text _ rfl))
  | compiled found compiled =>
      cases yields' with
      | compiled found' compiled' =>
          cases found.symm.trans found'
          cases compiled.symm.trans compiled'
          refine .wrapping tokens (selfNamed.takes _ (within.text _ ?_))
          simp only [Forest.conditionText?, found, Option.bind_some, compiled, Option.map_some]
  | fragment kind =>
      have known := yields'.of_node
      rw [kind] at known
      rw [known]
      exact .wrapping tokens (written within (by simp [Forest.writings, kind]))
  | bound kind operator operand flat =>
      have known := yields'.of_node
      rw [kind] at known
      obtain ⟨-, ⟨_, _, operand', -, rfl⟩ | ⟨_, _, operand', -, -⟩⟩ := known
      · cases operand.symm.trans operand'
        refine .comparison tokens (written within ?_) (written within ?_) (written within ?_)
        all_goals simp [Forest.writings, kind, operand, Operand.placeholder?]
      · cases operand.symm.trans operand'
  | nested kind operator nested inner ih =>
      have known := yields'.of_node
      rw [kind] at known
      obtain ⟨-, ⟨_, _, operand', -, -⟩ | ⟨_, _, nested', inner', rfl⟩⟩ := known
      · cases nested.symm.trans operand'
      · cases nested.symm.trans nested'
        have below := (within.node _ rfl).tail (WorkspaceM.child_of_nested kind nested)
        refine .comparison tokens (written within ?_) (written within ?_)
          (ih inner' (within_node below)).beside
        all_goals simp [Forest.writings, kind]
  | plain kind symbol given flat =>
      have known := yields'.of_node
      rw [kind] at known
      obtain ⟨-, ⟨-, -, rfl⟩ | ⟨_, _, nested', -, -⟩⟩ := known
      · refine .unary tokens (written within ?_) (.wrapping tokens (written within ?_))
        all_goals simp [Forest.writings, kind]
      · simp [nested', Value.node?] at flat
  | unary kind symbol nested inner ih =>
      have known := yields'.of_node
      rw [kind] at known
      obtain ⟨-, ⟨-, flat, -⟩ | ⟨_, _, nested', inner', rfl⟩⟩ := known
      · simp [nested, Value.node?] at flat
      · cases nested.symm.trans nested'
        have below := (within.node _ rfl).tail (WorkspaceM.child_of_unary kind nested)
        refine .unary tokens (written within ?_) (ih inner' (within_node below))
        simp [Forest.writings, kind]
  | @tree id j conditions parts found read each ih =>
      obtain ⟨conditions', parts', read', each', rfl⟩ := yields'.of_tree found
      have reached := within.node id rfl
      cases compiled : j.compiled with
      | some rendered =>
          have closed : j.compiled.isSome = true := by rw [compiled]; rfl
          cases (w.reading_of_compiled closed).symm.trans read
          cases (u.reading_of_compiled closed).symm.trans read'
          refine .around tokens ?_ fun lower member => ih _ member (each' _ member)
            (within_node (reached.tail ((Forest.child_of_tree found).mpr member)))
          rw [Junction.text_of_compiled compiled, Junction.text_of_compiled compiled]
          refine written within ?_
          simp [Forest.writings, Forest.junction?_eq_some.mp found, compiled]
      | none =>
          cases (w.reading_of_open compiled).symm.trans read
          cases (u.reading_of_open compiled).symm.trans read'
          have inside : j ∈ w.openTrees root := Forest.mem_openTrees w.reading_faithful
            (orderly.yields root .refl) reached found compiled
          exact restyles.takes_open selfNamed reached found compiled inside each each'
            fun v member _ => ih v member

end Restyles

/-! ## Rendering under both settings -/

namespace Finished

variable {after : Workspace} (finished : w.Finished root after)
include finished

theorem tree (reached : w.Reaches root id) (found : w.junction? id = some j)
    (isOpen : j.compiled = none) : after.junction? id = some (w.ripened id j) := by
  rcases finished.ripening.node id with same | ⟨-, k, found', -, now⟩
  · have closed := finished.closed id j reached ((Forest.junction?_congr same).trans found)
    simp [isOpen] at closed
  · cases found.symm.trans found'
    exact now

theorem other (closed : ∀ j, w.Reaches root id → w.junction? id = some j →
    j.compiled.isSome = true) :
    after.node id = w.node id ∧ after.ownBindings id = w.ownBindings id := by
  have node : after.node id = w.node id := by
    rcases finished.ripening.node id with same | ⟨reached, j, found, isOpen, -⟩
    · exact same
    · have compiled := closed j reached found
      simp [isOpen] at compiled
  refine ⟨node, ?_⟩
  simp only [Forest.ownBindings, node, finished.ripening.bindings]

end Finished

/-- The conditions of a tree with the placeholders that compiling replaces replaced at once. -/
def replaced (w : Workspace) (settings : Settings) (j : Junction) : List Value :=
  j.conditions.map (Value.mapText fun s => String.ofList (Text.replaceAtOnce
    ((w.binder j.binder).exchanges w.toForest settings) 0 s.toList))

/-- A tree that was open as it is compiled under the initial settings and under others: only the
names that are made up for elements differ, and none of those that are replaced is left. -/
def Recompiles (w : Workspace) (changed : Settings) (root : NodeId) (j : Junction)
    (before after : Option Junction) : Prop :=
  let b := w.binder j.binder
  (∃ text, before = some (j.settle (w.replaced {} j)
      ⟨text, b.keeping ++ b.minted w.toForest {}⟩) ∧
    after = some (j.settle (w.replaced changed j)
      ⟨w.renamed changed root text, b.keeping ++ b.minted w.toForest changed⟩)) ∧
  w.replaced changed j = (w.replaced {} j).map (Value.mapText (w.renamed changed root)) ∧
  ∀ s, .text s ∈ w.replaced {} j ++ w.replaced changed j → ∀ binding ∈ b.renewing,
    binding.placeholder {} ∉ Text.placeholders s.toList

namespace Restyles

variable (restyles : w.Restyles u)
include restyles

theorem replaced_eq (selfNamed : (w.binder j.binder).SelfNamed) :
    j.conditions.map (u.rewriting j) = w.replaced u.settings j := by
  refine List.map_congr_left fun v _ => ?_
  have independent := selfNamed.independent w.toForest restyles.customary
  simp only [restyles.rewriting selfNamed, independent.substituteText_eq]

theorem notMem_replaced (selfNamed : (w.binder j.binder).SelfNamed) {s : String}
    (member : .text s ∈ w.replaced u.settings j) :
    ∀ binding ∈ (w.binder j.binder).renewing,
      binding.placeholder {} ∉ Text.placeholders s.toList := by
  have independent := selfNamed.independent w.toForest restyles.customary
  intro binding known mentioned
  obtain ⟨v, -, same⟩ := List.mem_map.mp member
  cases v with
  | text t =>
      cases same
      rw [String.toList_ofList, ← independent.substituteText_eq] at mentioned
      exact independent.notMem_substituteText t.toList _ mentioned
        (Binder.mem_exchanges w.toForest u.settings known)
  | _ => cases same

theorem recompiles (selfNamed : w.SelfNamed root) (orderly : w.Orderly root)
    (numbered : w.Numbered) {direct last : Workspace} (finished : w.Finished root direct)
    (finished' : u.Finished root last) (reached : w.Reaches root id)
    (found : w.junction? id = some j) (isOpen : j.compiled = none) :
    w.Recompiles u.settings root j (direct.junction? id) (last.junction? id) := by
  have inside : j ∈ w.openTrees root := Forest.mem_openTrees w.reading_faithful
    (orderly.yields root .refl) reached found isOpen
  have own := selfNamed.binder j inside
  have initial : w.Restyles w := .refl restyles.initial
  have orderly' := orderly.carried restyles.forest
  have reached' : u.Reaches root id := restyles.forest ▸ reached
  have found' : u.junction? id = some j := restyles.forest ▸ found
  have before := initial.replaced_eq own
  have bindings := initial.final own numbered
  have nothing := fun s => initial.notMem_replaced (s := s) own
  rw [restyles.initial] at before bindings nothing
  refine ⟨⟨(w.texts (.node id)).alone, ?_, ?_⟩, ?_, fun s member => ?_⟩
  · rw [finished.tree reached found isOpen, ripened, before, bindings]
  · have takes := (restyles.takes_texts selfNamed orderly (orderly.yields id reached)
      (orderly'.yields id reached') (within_node reached)).alone.eq
    rw [finished'.tree reached' found' isOpen, ripened, restyles.replaced_eq own,
      restyles.final own numbered, renamed, takes]
  · rw [← restyles.replaced_eq own, ← before, List.map_map]
    refine List.map_congr_left fun v member => ?_
    rcases w.rewrites j v with ⟨s, _, rfl, -⟩ | ⟨notText, same⟩
    · have within := selfNamed.within_condition reached found isOpen member
      obtain ⟨t, t', before, after, takes⟩ :=
        restyles.takes_rewriting selfNamed inside (within.text s rfl)
      rw [Function.comp_apply, before, after, Value.mapText, renamed, takes.eq]
    · rcases u.rewrites j v with ⟨s, _, rfl, -⟩ | ⟨-, same'⟩
      · cases notText
      · rw [Function.comp_apply, same, same']
        cases v <;> first | rfl | cases notText
  · rcases List.mem_append.mp member with here | there
    · exact nothing s here
    · exact restyles.notMem_replaced own there

open WorkspaceM (run) in
/-- If a node can be rendered under the initial settings, then it can be under the others, with the
text respelled. -/
theorem sql (made : w.WellMade) (made' : u.WellMade) (numbered : w.Numbered)
    (orderly : w.Orderly root) (selfNamed : w.SelfNamed root) {s : String} {direct : Workspace}
    (done : run (WorkspaceM.sql root) w = (.ok s, direct)) :
    ∃ last, run (WorkspaceM.sql root) u = (.ok (w.renamed u.settings root s), last) ∧
      (∀ id j, w.Reaches root id → w.junction? id = some j → j.compiled = none →
        w.Recompiles u.settings root j (direct.junction? id) (last.junction? id)) ∧
      ∀ id, (∀ j, w.Reaches root id → w.junction? id = some j → j.compiled.isSome = true) →
        last.node id = direct.node id ∧ last.ownBindings id = direct.ownBindings id := by
  have orderly' := orderly.carried restyles.forest
  obtain ⟨atOnce, first, finished⟩ := sql_finishes orderly made (.refl w w)
  obtain ⟨last, second, finished'⟩ := sql_finishes orderly' made' (.refl u u)
  cases done.symm.trans first
  have takes := (restyles.takes_texts selfNamed orderly (orderly.yields root .refl)
    (orderly'.yields root .refl) (within_node .refl)).alone.eq
  refine ⟨last, by rw [second, renamed, takes], fun id j reached found isOpen =>
    restyles.recompiles selfNamed orderly numbered finished finished' reached found isOpen,
    fun id closed => ?_⟩
  obtain ⟨node, bindings⟩ := finished.other closed
  have closed' : ∀ j, u.Reaches root id → u.junction? id = some j → j.compiled.isSome = true := by
    rwa [restyles.forest]
  obtain ⟨node', bindings'⟩ := finished'.other closed'
  rw [node', bindings', node, bindings, restyles.forest]
  exact ⟨rfl, rfl⟩

end Restyles

/-- While the marker stays what it is and no type is given as bytes, compiling renews all that is
bound for several elements. -/
theorem renewing_after (n : Nat) {operations : List Operation}
    (marked : Workspace.Marked "[]" { nextIdentifier := n } operations) (id : BinderId) :
    let b := (Workspace.after { nextIdentifier := n } operations).binder id
    b.renewing = b.bindings.several {} := by
  intro b
  have remembers : b.Remembers {} := (used_after n marked.calls id).remembers
  rw [Binder.renewing]
  split
  · rfl
  · rename_i still
    have single := remembers.single (Bool.eq_false_iff.mpr still)
    rw [Bindings.several, List.filter_eq_nil_iff.mpr, List.map_nil]
    exact fun entry member => Bool.eq_false_iff.mp (single entry member)

open WorkspaceM (run)

/-- After every run that ends under the initial settings: if the stem is changed, and the defaults
for types and connectives, then a node whose trees have binders of their own, with names that these
made up as in calm runs, can be rendered if and only if it could be before. The text is the one of
before with each name that rendering makes up under the new stem. Every tree that was open keeps its
connective, the bindings that are not expanded, and the numbers, values and types of the others; in
its conditions all placeholders for several elements are replaced, each once. Every other node is
left as before. -/
theorem sql_reconfigured (n : Nat) {operations : List Operation}
    (allows : Workspace.Allows .free { nextIdentifier := n } operations) {w : Workspace}
    (made : w = Workspace.after { nextIdentifier := n } operations) (initial : w.settings = {})
    (present : w.Present) {root : NodeId} (separate : w.Separate root)
    (selfNamed : w.SelfNamed root) {options : Options} {changed : Settings}
    (cosmetic : Cosmetic options changed) :
    let u := w.perform (.configure options)
    ((∃ s direct, run (WorkspaceM.sql root) w = (.ok s, direct)) ↔
      ∃ s last, run (WorkspaceM.sql root) u = (.ok s, last)) ∧
    (∀ s direct, run (WorkspaceM.sql root) w = (.ok s, direct) →
      ∃ last, run (WorkspaceM.sql root) u = (.ok (w.renamed changed root s), last) ∧
        (∀ id j, w.Reaches root id → w.junction? id = some j → j.compiled = none →
          w.Recompiles changed root j (direct.junction? id) (last.junction? id)) ∧
        ∀ id, (∀ j, w.Reaches root id → w.junction? id = some j → j.compiled.isSome = true) →
          last.node id = direct.node id ∧ last.ownBindings id = direct.ownBindings id) ∧
    (Workspace.Marked "[]" { nextIdentifier := n } operations →
      ∀ id, (w.binder id).renewing = (w.binder id).bindings.several {}) := by
  intro u
  have wellMade : w.WellMade := made ▸ (WellMade.empty n).after trivial trivial allows
  have numbered : w.Numbered := made ▸ numbered_after n allows
  have fits : (Operation.configure options).Fits .free w := cosmetic.once
  have wellMade' : u.WellMade := wellMade.perform trivial trivial fits
  have updated : u = _ := perform_configure (initial ▸ cosmetic.accepted)
  have forest : u.toForest = w.toForest := by rw [updated]
  have settings : u.settings = changed := by rw [updated]
  have restyles : w.Restyles u := ⟨forest, initial, settings ▸ cosmetic.customary⟩
  have rendered {s : String} {direct : Workspace}
      (done : run (WorkspaceM.sql root) w = (.ok s, direct)) :=
    restyles.sql wellMade wellMade' numbered (orderly_of_sql wellMade present separate done)
      selfNamed done
  rw [settings] at rendered
  refine ⟨⟨?_, ?_⟩, fun s direct done => rendered done, fun marked => ?_⟩
  · rintro ⟨s, direct, done⟩
    obtain ⟨last, done', -⟩ := rendered done
    exact ⟨_, last, done'⟩
  · rintro ⟨s, last, done⟩
    have present' : u.Present := forest ▸ present
    have separate' : u.Separate root := by
      intro id other j k
      rw [forest]
      exact separate id other j k
    have orderly' := orderly_of_sql wellMade' present' separate' done
    obtain ⟨direct, done', -⟩ := sql_finishes (orderly'.carried forest.symm) wellMade (.refl w w)
    exact ⟨_, direct, done'⟩
  · subst made
    exact renewing_after n marked

/-- A stem that ends in a digit, with other defaults for building. -/
def restyling : Options :=
  [("placeholder_prefix", .text "c1"), ("default_multi_type", .text "int"),
    ("default_conjunction", .text "or")]

def restyled : Settings :=
  { placeholderStem := "c1", defaultMultiType := "int", defaultConnective := "or" }

theorem cosmetic_restyling : Cosmetic restyling restyled where
  only := by decide
  once := by decide
  accepted := rfl
  ascii := by simp [restyled]

theorem selfNamed_shared : shared.SelfNamed ⟨1⟩ := by
  have calm : Workspace.Calm .naming { nextIdentifier := 1 } sharing :=
    (calm_append.mp WorkspaceM.calm_sharingBeside).1
  refine selfNamed_after 1 calm rfl (hushed_of_nested (by decide +kernel)) fun id j _ found => ?_
  rcases tree_shared found with ⟨-, rfl⟩ | ⟨-, rfl⟩ <;> rfl

theorem sql_reconfigured_shared : Workspace.Allows .free { nextIdentifier := 1 } sharing ∧
    shared.settings = {} ∧ shared.Present ∧ shared.Separate ⟨1⟩ ∧ shared.SelfNamed ⟨1⟩ ∧
    Cosmetic restyling restyled ∧ ∃ direct last,
      run (WorkspaceM.sql ⟨1⟩) shared =
        (.ok "(a IN (:c1_1, :c1_2) AND NOT (a IN (:c1_1, :c1_2)))", direct) ∧
      run (WorkspaceM.sql ⟨1⟩) (shared.perform (.configure restyling)) =
        (.ok "(a IN (:c11_1, :c11_2) AND NOT (a IN (:c11_1, :c11_2)))", last) ∧
      last.ownBindings ⟨0⟩ =
        [(1, ⟨"c11_1", .int 1, some "string"⟩), (2, ⟨"c11_2", .int 2, some "string"⟩)] := by
  have text : (run (WorkspaceM.sql ⟨1⟩) shared).1.toOption =
      some "(a IN (:c1_1, :c1_2) AND NOT (a IN (:c1_1, :c1_2)))" := by decide +kernel
  have done := WorkspaceM.run_ok_of_toOption text
  have made : shared = Workspace.after { nextIdentifier := 1 } sharing := rfl
  obtain ⟨-, rendered, -⟩ := sql_reconfigured 1 allows_sharing made rfl present_shared
    separate_shared selfNamed_shared cosmetic_restyling
  obtain ⟨last, done', trees, -⟩ := rendered _ _ done
  have below : shared.Reaches ⟨1⟩ ⟨0⟩ :=
    .single ((Forest.child_of_tree rfl).mpr (by simp))
  obtain ⟨⟨_, -, after⟩, -⟩ := trees ⟨0⟩ sharedTree below rfl rfl
  have renamed : shared.renamed restyled ⟨1⟩ "(a IN (:c1_1, :c1_2) AND NOT (a IN (:c1_1, :c1_2)))" =
      "(a IN (:c11_1, :c11_2) AND NOT (a IN (:c11_1, :c11_2)))" := by decide +kernel
  rw [renamed] at done'
  refine ⟨allows_sharing, rfl, present_shared, separate_shared, selfNamed_shared,
    cosmetic_restyling, _, last, done, done', ?_⟩
  rw [Forest.ownBindings, Forest.junction?_eq_some.mp after]
  rfl

end Workspace
end WhereClause
