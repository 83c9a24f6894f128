import WhereClause.Proofs.Failing
import WhereClause.Proofs.Levels

/-!
# Parentheses beside an operator

Beside an operator a node gets the parentheses that it has not got. From a tree with a single node
for its only condition this is followed down to that node, and a tree with several conditions is in
parentheses as it is. It makes no difference how often a node is rendered, or for which purpose
first.

* `Firm.encloses`: the text of a settled node beside an operator, by where its conditions lead.
* `run_rendering_first`: each way to render a node leaves what rendering it by itself leaves.
* `parentheses_in_turn`: in every run both texts, however often and in whichever order they are
  asked for.
-/

namespace WhereClause

/-- The text that is given upon a request. -/
def Texts.requested (texts : Texts) : Request → String
  | .once | .alone => texts.alone
  | .beside => texts.beside

/-! ## Where single conditions lead -/

namespace Forest

variable {forest : Forest} {id : NodeId} {j : Junction}

/-- The node is a tree, and the other one is its only condition. -/
def Passes (forest : Forest) (id child : NodeId) : Prop :=
  ∃ j, forest.junction? id = some j ∧ solitary? j.conditions = some child

/-- The trees with a single node for their condition lead from the node to a tree with several
conditions. -/
def EndsInGroup (forest : Forest) (id : NodeId) : Prop :=
  ∃ last j, Relation.ReflTransGen forest.Passes id last ∧ forest.junction? last = some j ∧
    2 ≤ j.conditions.length

theorem not_endsInGroup (other : forest.junction? id = none) : ¬ forest.EndsInGroup id := by
  rintro ⟨last, j, path, found, -⟩
  rcases path.cases_head with rfl | ⟨_, ⟨k, first, -⟩, -⟩
  · simp [other] at found
  · simp [other] at first

theorem endsInGroup_of_single {child : NodeId} (found : forest.junction? id = some j)
    (single : solitary? j.conditions = some child) :
    forest.EndsInGroup id ↔ forest.EndsInGroup child := by
  constructor
  · rintro ⟨last, k, path, last_found, several⟩
    rcases path.cases_head with rfl | ⟨_, ⟨l, first, only⟩, rest⟩
    · cases found.symm.trans last_found
      simp [solitary?_eq_some.mp single] at several
    · cases found.symm.trans first
      cases single.symm.trans only
      exact ⟨last, k, rest, last_found, several⟩
  · rintro ⟨last, k, path, several⟩
    exact ⟨last, k, .head ⟨j, found, single⟩ path, several⟩

theorem endsInGroup_of_several (found : forest.junction? id = some j)
    (several : solitary? j.conditions = none) :
    forest.EndsInGroup id ↔ 2 ≤ j.conditions.length := by
  constructor
  · rintro ⟨last, k, path, last_found, length⟩
    rcases path.cases_head with rfl | ⟨_, ⟨l, first, only⟩, -⟩
    · cases found.symm.trans last_found
      exact length
    · cases found.symm.trans first
      simp [several] at only
  · exact fun length => ⟨id, j, .refl, found, length⟩

end Forest

namespace Workspace

variable {w after : Workspace} {id : NodeId} {texts : Texts}

/-- Rendering changes no text into a node and no node into a text, and no number of conditions. -/
theorem Ripens.endsInGroup (ripens : w.Ripens after) :
    after.EndsInGroup id ↔ w.EndsInGroup id := by
  have passes : after.Passes = w.Passes := by
    funext id child
    cases tree : w.junction? id with
    | none => simp [Forest.Passes, tree, ripens.junction? tree]
    | some j =>
        obtain ⟨k, rewrite, found, rewrites, same⟩ := ripens.tree tree
        simp [Forest.Passes, tree, found, same, WorkspaceM.solitary?_map rewrites]
  have groups (last : NodeId) : (∃ k, after.junction? last = some k ∧ 2 ≤ k.conditions.length) ↔
      ∃ j, w.junction? last = some j ∧ 2 ≤ j.conditions.length := by
    cases tree : w.junction? last with
    | none => simp [ripens.junction? tree]
    | some j =>
        obtain ⟨k, rewrite, found, -, same⟩ := ripens.tree tree
        simp [found, same]
  simp only [Forest.EndsInGroup, passes, exists_and_left, groups]

/-- The text beside an operator is that of the node by itself if the node leads to a tree with
several conditions, and otherwise that text in parentheses. -/
def Encloses (w : Workspace) (id : NodeId) (texts : Texts) : Prop :=
  (w.EndsInGroup id → texts.beside = texts.alone) ∧
    (¬ w.EndsInGroup id → texts.beside = parenthesized texts.alone)

theorem joined_singleton (connective part : String) : joined connective [part] = part := rfl

theorem Firm.encloses (firm : w.Firm) (settled : Settled w.toForest (.node id) texts) :
    w.Encloses id texts := by
  refine settled.ascend compiledReading_faithful
    (motive := fun id => ∀ texts, Settled w.toForest (.node id) texts → w.Encloses id texts)
    ?_ id rfl texts settled
  intro id _ _ below texts settled
  cases tree : w.junction? id with
  | none =>
      exact ⟨fun ends => absurd ends (Forest.not_endsInGroup tree),
        fun _ => settled.beside_of_not_tree tree⟩
  | some j =>
      have beside := settled.beside_of_tree compiledReading_faithful tree
      cases single : solitary? j.conditions with
      | none =>
          simp only [single, grouped] at beside
          rw [Encloses, Forest.endsInGroup_of_several tree single, beside]
          exact ⟨fun several => if_neg (by omega), fun few => if_pos (by omega)⟩
      | some child =>
          obtain ⟨_, _, read, -⟩ := settled.of_tree tree
          obtain ⟨rendered, compiled⟩ :=
            Option.isSome_iff_exists.mp (compiledReading_eq_some.mp read).1
          obtain ⟨parts, each, text⟩ := firm.coherent id j rendered tree compiled
          have only := solitary?_eq_some.mp single
          rw [only] at each text
          have inner := each (.node child) List.mem_cons_self
          have alone : texts.alone = (parts (.node child)).alone := by
            rw [settled.alone_of_compiled tree compiled, text, List.map_singleton,
              joined_singleton]
          simp only [single, inner.texts_eq compiledReading_faithful] at beside
          have step : w.Child id child := by simp [Forest.child_of_tree tree, only]
          rw [Encloses, Forest.endsInGroup_of_single tree single, beside, alone]
          exact below child step _ inner

end Workspace

/-! ## The first time and every other time -/

namespace WorkspaceM

open Workspace (made_node yields_before)

variable {w after : Workspace} {id : NodeId} {texts : Texts} {s : String} {how : Request}

theorem run_rendering_settled (settled : Settled w.toForest (.node id) texts)
    (tree : how = .once → (w.junction? id).isSome = true) :
    run (rendering how id) w = (.ok (texts.requested how), w) := by
  cases how with
  | alone => exact run_sql_settled settled
  | beside => exact run_wrapped_settled settled
  | once =>
      obtain ⟨j, found⟩ := Option.isSome_iff_exists.mp (tree rfl)
      obtain ⟨rendered, done, text⟩ :=
        compileJunction_settled (sqlWithin w.depthBound) found settled
      have compiles : run (compile id) w = (.ok rendered, w) := by
        simp only [compile, run_bind, run_get, run_junction found, done]
      rw [rendering, run_map_ok compiles, text, Texts.requested]

section First

variable (made : w.WellMade) (renderable : w.Renderable (.node id))
  (done : run (WorkspaceM.sql id) w = (.ok s, after))

include done in
theorem run_own_of_sql :
    run (askAgain (renderNode (sqlWithin w.nodes.size) (wrappedWithin w.nodes.size) id)) w =
      (.ok s, after) := by
  rw [← done, WorkspaceM.sql, run_bind, run_get]
  rfl

include made renderable done

/-- What can be rendered is not asked for again. -/
theorem run_renderNode_of_sql :
    run (renderNode (sqlWithin w.nodes.size) (wrappedWithin w.nodes.size) id) w =
      (.ok s, after) := by
  obtain ⟨asks, wraps⟩ := smooth_within w.nodes.size
  obtain ⟨t, other, once⟩ := faultOf_eq_none.mp (smooth_renderNode (honest_within _).1 asks wraps
    made renderable (Nat.lt_succ_of_le (w.rank_le id)))
  cases (run_own_of_sql done).symm.trans (run_askAgain_ok once)
  exact once

theorem run_compileJunction_of_sql {j : Junction} (found : w.junction? id = some j) :
    ∃ rendered, run (compileJunction (sqlWithin w.nodes.size) id j) w = (.ok rendered, after) ∧
      rendered.sql = s := by
  have once := run_renderNode_of_sql made renderable done
  rw [renderNode, run_bind, run_get] at once
  simp only [Forest.junction?_eq_some.mp found, run_map] at once
  rcases result : run (compileJunction (sqlWithin w.nodes.size) id j) w with ⟨_ | rendered, last⟩
  · simp [result] at once
  · simp only [result, Prod.mk.injEq, Except.ok.injEq] at once
    obtain ⟨text, rfl⟩ := once
    exact ⟨rendered, rfl, text⟩

theorem run_compile_first (found : (w.junction? id).isSome = true) :
    ∃ rendered, run (compile id) w = (.ok rendered, after) ∧ rendered.sql = s := by
  obtain ⟨j, found⟩ := Option.isSome_iff_exists.mp found
  obtain ⟨rendered, compiles, text⟩ := run_compileJunction_of_sql made renderable done found
  have deeper := deepens_compileJunction (fun id => (deepens_within w.nodes.size id).1) id j w
    (by simp [faultOf, compiles])
  refine ⟨rendered, ?_, text⟩
  simp only [compile, run_bind, run_get, run_junction found]
  exact deeper.trans compiles

theorem run_wrapped_first (ripens : w.Ripens after)
    (settled : Settled after.toForest (.node id) texts) (alone : s = texts.alone) :
    run (WorkspaceM.wrapped id) w = (.ok texts.beside, after) := by
  have own := run_own_of_sql done
  simp only [WorkspaceM.wrapped, run_bind, run_get, Forest.depthBound, wrappedWithin]
  cases tree : w.junction? id with
  | none =>
      rw [run_wrapNode tree, run_map_ok own, alone,
        settled.beside_of_not_tree (ripens.junction? tree)]
  | some j =>
      have beside := beside_of_ripens ripens tree settled
      rw [run_wrapNode_of_tree tree]
      cases single : solitary? j.conditions with
      | none =>
          simp only [single] at beside ⊢
          rw [run_map_ok own, alone, beside]
      | some child =>
          have step : after.Child id child := by
            simp [ripens.child, Forest.child_of_tree tree, solitary?_eq_some.mp single]
          obtain ⟨inner, yields⟩ := settled.child compiledReading_faithful step
          have low : after.rank child < w.nodes.size := by
            rw [← ripens.size]
            exact (settled.rank_lt compiledReading_faithful step).trans_le (after.rank_le id)
          obtain ⟨rendered, compiles, -⟩ := run_compileJunction_of_sql made renderable done tree
          simp only [single, yields.texts_eq compiledReading_faithful] at beside ⊢
          rw [run_bind_ok (run_discard_ok compiles), beside]
          exact (run_within_settled _ yields low).2

theorem run_rendering_first (ripens : w.Ripens after)
    (settled : Settled after.toForest (.node id) texts) (alone : s = texts.alone)
    (tree : how = .once → (w.junction? id).isSome = true) :
    run (rendering how id) w = (.ok (texts.requested how), after) := by
  cases how with
  | alone => exact done.trans (by rw [alone, Texts.requested])
  | beside => exact run_wrapped_first made renderable done ripens settled alone
  | once =>
      obtain ⟨rendered, compiles, text⟩ := run_compile_first made renderable done (tree rfl)
      rw [rendering, run_map_ok compiles, text, alone, Texts.requested]

end First

/-- Asking in turn, where the first request leads from one workspace to another in which nothing is
changed any more. -/
theorem run_in_turn {asks : List Request}
    (first : ∀ how ∈ asks, run (rendering how id) w = (.ok (texts.requested how), after))
    (later : ∀ how ∈ asks, run (rendering how id) after = (.ok (texts.requested how), after)) :
    run (asks.mapM fun how => rendering how id) w =
      (.ok (asks.map texts.requested), if asks.isEmpty then w else after) := by
  induction asks generalizing w with
  | nil => rfl
  | cons how rest ih =>
      obtain ⟨here, -⟩ := List.forall_mem_cons.mp first
      obtain ⟨-, others⟩ := List.forall_mem_cons.mp later
      have remaining := ih others others
      rw [ite_self] at remaining
      rw [List.mapM_cons, run_bind_ok here, run_bind_ok remaining]
      rfl

/-- What can be rendered beside an operator can be rendered by itself. -/
theorem sql_of_wrapped (made : w.WellMade) (present : w.Present)
    (done : run (WorkspaceM.wrapped id) w = (.ok s, after)) :
    ∃ t last, run (WorkspaceM.sql id) w = (.ok t, last) := by
  have renderable := renderable_of_wrapped made present done
  have smooth := (smooth_within w.depthBound).1 w id made renderable
    (Nat.lt_succ_of_le (w.rank_le id))
  rw [WorkspaceM.sql, run_bind, run_get]
  exact faultOf_eq_none.mp smooth

/-- What rendering a node by itself for the first time leads to. -/
theorem settled_of_sql (firm : w.Firm) (present : w.Present)
    (done : run (WorkspaceM.sql id) w = (.ok s, after)) :
    ∃ texts : Texts, texts.alone = s ∧ w.Encloses id texts ∧ w.Renderable (.node id) ∧
      w.Ripens after ∧ Settled after.toForest (.node id) texts := by
  have settles := settles_sql firm.made id
  have compiles := settles.compiles done
  obtain ⟨texts, settled, same⟩ := settles.2 s (by rw [done])
  rw [done] at settled same
  obtain ⟨trace, moves⟩ := compiles.moves
  obtain ⟨later, -⟩ := firm.moves (moves.mono (Policy.rendering_within trivial))
  have encloses := later.encloses settled
  rw [Workspace.Encloses, compiles.ripens.endsInGroup] at encloses
  exact ⟨texts, (same later.steady).symm, encloses,
    yields_before present compiles.ripens settled (made_node id), compiles.ripens, settled⟩

/-- In every run, if values stand only for what is made already, types are texts and unary
conditions stand over nodes and plain data: a node can be rendered beside an operator if and only if
it can be rendered by itself. There it has the text that it has by itself, in parentheses unless
trees with a single node for their condition lead from it to a tree with several conditions. The
same texts are given however often the node is rendered, in whichever order, and the workspace is
left as it is after rendering it once. -/
theorem parentheses_in_turn (n : Nat) {operations : List Operation}
    (allows : Workspace.Allows (.typed Value.Steady) { nextIdentifier := n } operations)
    (ran : w = Workspace.after { nextIdentifier := n } operations) (present : w.Present)
    (id : NodeId) :
    ((∃ s after, run (WorkspaceM.sql id) w = (.ok s, after)) ↔
        ∃ s after, run (WorkspaceM.wrapped id) w = (.ok s, after)) ∧
      ∀ s after, run (WorkspaceM.sql id) w = (.ok s, after) → ∃ texts : Texts,
        texts.alone = s ∧ (w.EndsInGroup id → texts.beside = s) ∧
          (¬ w.EndsInGroup id → texts.beside = parenthesized s) ∧
          ∀ asks : List Request, (.once ∈ asks → (w.junction? id).isSome = true) →
            run (asks.mapM fun how => rendering how id) w =
              (.ok (asks.map texts.requested), if asks.isEmpty then w else after) := by
  obtain ⟨firm, -⟩ := (Workspace.Firm.empty n).run allows
  rw [← ran] at firm
  refine ⟨⟨?_, ?_⟩, ?_⟩
  · rintro ⟨s, after, done⟩
    obtain ⟨texts, alone, -, renderable, ripens, settled⟩ := settled_of_sql firm present done
    exact ⟨_, after, run_wrapped_first firm.made renderable done ripens settled alone.symm⟩
  · rintro ⟨s, after, done⟩
    exact sql_of_wrapped firm.made present done
  · intro s after done
    obtain ⟨texts, rfl, ⟨grouped, single⟩, renderable, ripens, settled⟩ :=
      settled_of_sql firm present done
    refine ⟨texts, rfl, grouped, single, fun asks tree => run_in_turn ?_ ?_⟩
    · exact fun how member => run_rendering_first firm.made renderable done ripens settled rfl
        fun once => tree (once ▸ member)
    · refine fun how member => run_rendering_settled settled fun once => ?_
      obtain ⟨j, found⟩ := Option.isSome_iff_exists.mp (tree (once ▸ member))
      obtain ⟨k, -, now, -⟩ := ripens.tree found
      simp [now]

/-- A group that is rendered already, a tree over it alone, and the negation of that. -/
def aboveGroup : List Operation :=
  [.newTree (.list .passing [.text "a", .text "b"]) .null .null none, .sql ⟨0⟩,
    .newTree .null .null .null none, .append ⟨1⟩ (.node ⟨0⟩),
    .newUnary (some (.text "NOT")) (some (.node ⟨1⟩)) none]

def grouping : Workspace := Workspace.after { nextIdentifier := 1 } aboveGroup

theorem allows_aboveGroup :
    Workspace.Allows (.typed Value.Steady) { nextIdentifier := 1 } aboveGroup := by
  have untyped : (Policy.typed Value.Steady).Types .null := fun _ _ same => nomatch same
  exact ⟨⟨untyped, by simp⟩, trivial, ⟨untyped, by simp⟩, trivial, nofun, trivial⟩

def groupTree : Junction :=
  ⟨.text "AND", [.text "a", .text "b"], [.text "a", .text "b"], ⟨0⟩, some ⟨"(a AND b)", []⟩⟩

def singleTree : Junction := ⟨.text "AND", [.node ⟨0⟩], [], ⟨1⟩, none⟩

theorem nodes_grouping : grouping.nodes =
    #[.junction groupTree, .junction singleTree, .unary ⟨"NOT", .node ⟨1⟩, false⟩] := rfl

theorem binders_grouping : grouping.binders = #[.fresh 1, .fresh 2] := rfl

theorem present_grouping : grouping.Present := by
  refine .of_conditions rfl ?_ ?_ ?_
  · intro id j found v member
    obtain ⟨_ | _ | _ | i⟩ := id <;>
      simp [Forest.junction?, Forest.node, nodes_grouping] at found <;> subst found <;>
      simp only [groupTree, singleTree, List.cons_append, List.nil_append, List.append_nil,
        List.mem_cons, List.not_mem_nil, or_false] at member
    · rcases member with rfl | rfl | rfl | rfl <;> simp [Value.Throughout, Forest.Made]
    · exact member ▸ made_node _
  · intro id u kind
    obtain ⟨_ | _ | _ | i⟩ := id <;> simp [Forest.node, nodes_grouping] at kind
    subst kind
    exact made_node _
  · intro id entry member
    obtain ⟨_ | _ | i⟩ := id <;> simp [Forest.binder, binders_grouping, Binder.fresh] at member

theorem endsInGroup_single : grouping.EndsInGroup ⟨1⟩ :=
  ⟨⟨0⟩, groupTree, .single ⟨singleTree, rfl, rfl⟩, rfl, by decide⟩

theorem parentheses_in_turn_grouping :
    Workspace.Allows (.typed Value.Steady) { nextIdentifier := 1 } aboveGroup ∧
      grouping.Present ∧ grouping.EndsInGroup ⟨1⟩ ∧ ¬ grouping.EndsInGroup ⟨2⟩ ∧
      (∃ last, run ([.beside, .once, .alone].mapM fun how => rendering how ⟨1⟩) grouping =
        (.ok ["(a AND b)", "(a AND b)", "(a AND b)"], last)) ∧
      ∃ last, run ([.beside, .alone, .beside].mapM fun how => rendering how ⟨2⟩) grouping =
        (.ok ["(NOT (a AND b))", "NOT (a AND b)", "(NOT (a AND b))"], last) := by
  have plain : ¬ grouping.EndsInGroup ⟨2⟩ := Forest.not_endsInGroup rfl
  have single : (run (WorkspaceM.sql ⟨1⟩) grouping).1.toOption = some "(a AND b)" := by
    decide +kernel
  have negated : (run (WorkspaceM.sql ⟨2⟩) grouping).1.toOption = some "NOT (a AND b)" := by
    decide +kernel
  obtain ⟨-, first⟩ := parentheses_in_turn 1 allows_aboveGroup rfl present_grouping ⟨1⟩
  obtain ⟨-, second⟩ := parentheses_in_turn 1 allows_aboveGroup rfl present_grouping ⟨2⟩
  obtain ⟨texts, alone, beside, -, turns⟩ := first _ _ (run_ok_of_toOption single)
  obtain ⟨others, alone', -, beside', turns'⟩ := second _ _ (run_ok_of_toOption negated)
  have asked := turns [.beside, .once, .alone] fun _ => rfl
  have asked' := turns' [.beside, .alone, .beside] (by simp)
  simp only [List.map_cons, List.map_nil, Texts.requested, alone,
    beside endsInGroup_single] at asked
  simp only [List.map_cons, List.map_nil, Texts.requested, alone', beside' plain] at asked'
  exact ⟨allows_aboveGroup, present_grouping, endsInGroup_single, plain, ⟨_, asked⟩, ⟨_, asked'⟩⟩

/-- A tree over a comparison with a tree with one condition, whose list is then given for the type
of a membership test. -/
def listForType : List Operation :=
  [.newTree (.list .passing [.text "a"]) .null .null none,
    .newComparison (some (.text "f")) (some (.node ⟨0⟩)) none (some (.text "=")),
    .newTree .null .null .null none, .append ⟨2⟩ (.node ⟨1⟩), .sql ⟨2⟩,
    .newTree .null .null .null none,
    .add ⟨3⟩ (.dict .passing [(.text "x IN", .list .passing [.int 1])])
      (.dict .passing [(.text "x", .conditions ⟨0⟩ .compiled)])]

/-- The text that a tree was compiled with may be out of date where it is compared: a unary
condition over the list of another tree shows what was added since, and a list that is given for a
type is lengthened, also if it is the list of a tree that is compiled. -/
theorem parentheses_stale :
    let w := Workspace.after { nextIdentifier := 1 } (overList ++ [.append ⟨0⟩ (.text "a")])
    let v := Workspace.after { nextIdentifier := 1 } listForType
    (¬ w.EndsInGroup ⟨2⟩ ∧ (run (WorkspaceM.sql ⟨2⟩) w).1.toOption = some "NOT ([])" ∧
        (run (WorkspaceM.wrapped ⟨2⟩) w).1.toOption = some "(NOT (['a']))" ∧
        "(NOT (['a']))" ≠ parenthesized "NOT ([])") ∧
      ¬ v.EndsInGroup ⟨2⟩ ∧ (run (WorkspaceM.sql ⟨2⟩) v).1.toOption = some "f = (a)" ∧
        (run (WorkspaceM.wrapped ⟨2⟩) v).1.toOption = some "(f = a)" ∧
        "(f = a)" ≠ parenthesized "f = (a)" := by
  intro w v
  have passes (w : Workspace) {j : Junction} (tree : w.junction? ⟨2⟩ = some j)
      (single : solitary? j.conditions = some ⟨1⟩) (plain : w.junction? ⟨1⟩ = none) :
      ¬ w.EndsInGroup ⟨2⟩ := by
    rw [Forest.endsInGroup_of_single tree single]
    exact Forest.not_endsInGroup plain
  refine ⟨⟨passes w rfl rfl rfl, ?_, ?_, ?_⟩, passes v rfl rfl rfl, ?_, ?_, ?_⟩
  all_goals decide +kernel

end WorkspaceM
end WhereClause
