import WhereClause.Proofs.Formula
import WhereClause.Proofs.Rendering

/-!
# Rendering is unambiguous

What is built from trees, negations and leaves stands for a formula, and its text is that of the
formula. So two texts are equal only if what they are texts of differs in trees of one condition at
most. That a workspace tracks its own outlines is a matter of course as long as nothing in it is
compiled or has array bindings to expand; rendering keeps it so.

* `tracks_of_open`, `tracks_after_sql`: a workspace tracks its own outlines.
* `sql_eq_iff_collapse_eq`: texts are equal exactly if the formulas collapse to one formula.
-/

namespace WhereClause

/-- The value is built as the formula says. Of a tree, the conditions are those that it is compiled
to, and their texts are leaves as they stand. -/
inductive Workspace.Built (w : Workspace) : Value → Formula → Prop
  | text (s : String) : Built w (.text s) (.leaf s)
  | leaf {id : NodeId} {s : String} {own : Bindings}
      (found : w.outline w.settings id = some (.leaf s own)) : Built w (.node id) (.leaf s)
  | negation {id : NodeId} {argument : Value} {f : Formula}
      (found : w.node id = .unary ⟨"NOT", argument, false⟩) (inner : Built w argument f) :
      Built w (.node id) (.negation f)
  | junction {id : NodeId} {connective : String} {own : Bindings} {conditions : List Value}
      {parts : List Formula}
      (found : w.outline w.settings id = some (.tree connective own conditions))
      (lengths : conditions.length = parts.length)
      (each : ∀ v f, (v, f) ∈ conditions.zip parts → Built w v f) :
      Built w (.node id) (.junction connective parts)

namespace Workspace

variable {w : Workspace}

theorem shows_parts {outlines : Outlines} {conditions : List Value} {parts : List Formula}
    (lengths : conditions.length = parts.length)
    (each : ∀ v f, (v, f) ∈ conditions.zip parts → ∃ p, Shows outlines v p ∧ p.texts = f.texts) :
    ∃ pictures, List.Forall₂ (Shows outlines) conditions pictures ∧
      pictures.map Picture.texts = parts.map Formula.texts := by
  induction conditions generalizing parts with
  | nil =>
      obtain rfl := List.eq_nil_of_length_eq_zero lengths.symm
      exact ⟨[], .nil, rfl⟩
  | cons v rest ih =>
      cases parts with
      | nil => cases lengths
      | cons f others =>
          obtain ⟨p, shown, texts⟩ := each v f List.mem_cons_self
          obtain ⟨more, later, same⟩ := ih (Nat.succ.inj lengths)
            (fun u g member => each u g (List.mem_cons_of_mem _ member))
          refine ⟨p :: more, .cons shown later, ?_⟩
          rw [List.map_cons, List.map_cons, texts, same]

theorem Built.shows {v : Value} {f : Formula} (built : w.Built v f) :
    ∃ p, Shows (w.outline w.settings) v p ∧ p.texts = f.texts := by
  induction built with
  | text s => exact ⟨_, .text s, rfl⟩
  | leaf found => exact ⟨_, .leaf found, rfl⟩
  | @negation id argument f found inner ih =>
      obtain ⟨p, shown, texts⟩ := ih
      rcases shown.text_or_node with ⟨s, rfl, rfl⟩ | ⟨below, rfl⟩
      · have outlined : w.outline w.settings id =
            some (.leaf ("NOT" ++ " " ++ parenthesized s) []) := by
          simp [Forest.outline, found]
        refine ⟨_, .leaf outlined, ?_⟩
        rw [Formula.texts, ← texts]
        rfl
      · have outlined : w.outline w.settings id = some (.unary "NOT" false below) := by
          simp [Forest.outline, found]
        refine ⟨_, .unary outlined shown, ?_⟩
        rw [Formula.texts, ← texts]
        rfl
  | @junction id connective own conditions parts found lengths _ ih =>
      obtain ⟨shown, each, same⟩ := shows_parts lengths ih
      refine ⟨_, .of_tree found each, ?_⟩
      rw [Picture.texts, Formula.texts, Picture.allTexts_eq, Formula.allTexts_eq, same]

theorem tracks_of_open (isOpen : ∀ id j, w.junction? id = some j →
    j.compiled = none ∧ (w.binder j.binder).expands = false) :
    w.Tracks (w.outline w.settings) [] where
  outline _ _ _ known := known
  separate id _ j _ _ _ found _ _ expands := by
    rw [(isOpen id j found).2] at expands
    cases expands
  settled id j _ _ _ _ found expands _ _ _ _ := by
    rw [(isOpen id j found).2] at expands
    cases expands
  coherent id j _ _ found compiled _ := by
    rw [(isOpen id j found).1] at compiled
    cases compiled

end Workspace

namespace WorkspaceM

theorem tracks_after_sql {w : Workspace} (tracks : w.Tracks (w.outline w.settings) [])
    {id : NodeId} {p : Picture} (shown : Shows (w.outline w.settings) (.node id) p) :
    ∃ after, run (sql id) w = (.ok p.texts.alone, after) ∧
      after.Tracks (after.outline after.settings) [] := by
  obtain ⟨after, done, advances, -⟩ := sql_ok tracks shown
  have same : after.outline after.settings = w.outline w.settings := by
    funext other
    cases known : w.outline w.settings other with
    | some outline => exact advances.tracks.outline other outline List.not_mem_nil known
    | none =>
        have noTree : w.junction? other = none := by
          cases tree : w.junction? other with
          | none => rfl
          | some j =>
              obtain ⟨own, rewrite, outlined, -⟩ := Forest.outline_of_tree tree w.settings
              rw [known] at outlined
              cases outlined
        have kept : after.node other = w.node other :=
          advances.node other fun j tree => by rw [noTree] at tree; cases tree
        rw [advances.settings, ← known]
        apply Forest.outline_congr kept advances.bindings
        intro j tree
        rw [noTree] at tree
        cases tree
  refine ⟨after, done, ?_⟩
  rw [same]
  exact advances.tracks

/-- Of conditions built from trees, negations and clean leaves, the texts are equal exactly if the
formulas are, up to junctions of one part. -/
theorem sql_eq_iff_collapse_eq {w w' : Workspace} (tracks : w.Tracks (w.outline w.settings) [])
    (tracks' : w'.Tracks (w'.outline w'.settings) []) {root other : NodeId} {f g : Formula}
    (built : w.Built (.node root) f) (built' : w'.Built (.node other) g) (proper : f.Proper)
    (proper' : g.Proper) :
    ∃ s s' after after', run (sql root) w = (.ok s, after) ∧
      run (sql other) w' = (.ok s', after') ∧ (s = s' ↔ f.collapse = g.collapse) := by
  obtain ⟨p, shown, texts⟩ := built.shows
  obtain ⟨q, shown', texts'⟩ := built'.shows
  obtain ⟨after, done, -⟩ := sql_ok tracks shown
  obtain ⟨after', done', -⟩ := sql_ok tracks' shown'
  refine ⟨_, _, after, after', done, done', ?_⟩
  rw [texts, texts']
  exact Formula.alone_eq_iff proper proper'

def chained : Workspace :=
  { nodes := #[.junction { connective := .text "OR", conditions := [.text "a = 1"], binder := ⟨0⟩ },
      .unary ⟨"NOT", .node ⟨0⟩, false⟩,
      .junction { connective := .text "AND", conditions := [.node ⟨1⟩], binder := ⟨1⟩ },
      .unary ⟨"NOT", .text "a = 1", false⟩]
    binders := #[{ identifier := "1" }, { identifier := "2" }] }

theorem chained_isOpen (id : NodeId) (j : Junction) (found : chained.junction? id = some j) :
    j.compiled = none ∧ (chained.binder j.binder).expands = false := by
  obtain ⟨index⟩ := id
  match index with
  | 0 | 2 =>
      cases found
      exact ⟨rfl, rfl⟩
  | 1 | 3 => cases found
  | _ + 4 => cases found

theorem sql_chained_eq_iff :
    ∃ s s' after after', run (sql ⟨2⟩) chained = (.ok s, after) ∧
      run (sql ⟨3⟩) chained = (.ok s', after') ∧
      (s = s' ↔ (Formula.junction "AND" [.negation (.junction "OR" [.leaf "a = 1"])]).collapse =
        (Formula.negation (.leaf "a = 1")).collapse) := by
  have tracks := Workspace.tracks_of_open chained_isOpen
  have clean : Formula.Clean "a = 1" := by
    refine ⟨by decide, by decide, ?_⟩
    decide
  have below : chained.Built (.node ⟨0⟩) (.junction "OR" [.leaf "a = 1"]) := by
    refine .junction rfl rfl fun v f member => ?_
    cases List.mem_singleton.mp member
    exact .text _
  have root : chained.Built (.node ⟨2⟩)
      (.junction "AND" [.negation (.junction "OR" [.leaf "a = 1"])]) := by
    refine .junction rfl rfl fun v f member => ?_
    cases List.mem_singleton.mp member
    exact .negation rfl below
  have other : chained.Built (.node ⟨3⟩) (.negation (.leaf "a = 1")) := .negation rfl (.text _)
  refine sql_eq_iff_collapse_eq tracks tracks root other ?_ clean
  exact ⟨by decide, nofun, ⟨by decide, nofun, clean, trivial⟩, trivial⟩

end WorkspaceM
end WhereClause
