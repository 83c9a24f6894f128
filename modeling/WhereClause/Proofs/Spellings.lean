import WhereClause.Proofs.Calm
import WhereClause.Proofs.Groups

/-!
# Spellings of a description

A list, a tuple and a dictionary with numeric keys are read alike, whatever the keys are, and so are
keywords in any letter case. Two descriptions that differ in such spellings only, at any depth, come
to the same items and to the same results.

* `Forest.Similar.items_eq`: similar descriptions come to the same items.
* `similar_descriptions`: they are read alike and compiled alike.
-/

namespace WhereClause

namespace View

variable {forest : Forest} {tree : NodeId} {later later' : Value → List View}

/-- Where the lists are followed to their end, they are so further on. -/
def Deepens (forest : Forest) (tree : NodeId) (later later' : Value → List View) : Prop :=
  ∀ v, (later v).map value = forest.kept v → AllApart forest tree (later v) →
    (later' v).map value = forest.kept v ∧ AllApart forest tree (later' v)

mutual
theorem apart_deeper (deeper : Deepens forest tree later later') :
    (v : Value) → (ofValue later v).Apart forest tree → (ofValue later' v).Apart forest tree
  | .list mark vs, apart => by
      obtain ⟨beside, full, all⟩ := apart
      obtain ⟨written, more⟩ := allApart_append.mp all
      have whole := full (vs ++ forest.kept (.list mark vs)) rfl
      rw [List.map_append, values_ofElements, List.append_cancel_left_eq] at whole
      obtain ⟨kept, further⟩ := deeper _ whole more
      refine ⟨beside, fun ws found => ?_,
        allApart_append.mpr ⟨allApart_deeper deeper vs written, further⟩⟩
      cases found
      rw [List.map_append, values_ofElements, kept]
  | .conditions id stage, apart => by
      obtain ⟨beside, full, all⟩ := apart
      obtain ⟨kept, further⟩ := deeper _ (full (forest.kept (.conditions id stage)) rfl) all
      refine ⟨beside, fun ws found => ?_, further⟩
      cases found
      exact kept
  | .tuple mark vs, ⟨beside, full, all⟩ => by
      refine ⟨beside, fun ws found => ?_, allApart_deeper deeper vs all⟩
      rw [values_ofElements, ← full ws found, values_ofElements]
  | .set mark vs, ⟨beside, full, all⟩ => by
      refine ⟨beside, fun ws found => ?_, allApart_deeper deeper vs all⟩
      rw [values_ofElements, ← full ws found, values_ofElements]
  | .frozenSet mark vs, ⟨beside, full, all⟩ => by
      refine ⟨beside, fun ws found => ?_, allApart_deeper deeper vs all⟩
      rw [values_ofElements, ← full ws found, values_ofElements]
  | .binding mark b, ⟨beside, full, first, _⟩ =>
      ⟨beside, nofun, apart_deeper deeper b.value first, trivial⟩
  | .dict mark entries, apart => entriesApart_deeper deeper entries apart
  | .null, apart | .bool _, apart | .int _, apart | .float _, apart | .text _, apart
  | .bytes _, apart | .node _, apart | .binder _, apart | .compiled _, apart | .outcome .., apart
  | .callable .., apart | .method .., apart => by
      simpa only [ofValue] using apart

theorem allApart_deeper (deeper : Deepens forest tree later later') :
    (vs : List Value) → AllApart forest tree (ofElements later vs) →
      AllApart forest tree (ofElements later' vs)
  | [], _ => trivial
  | v :: rest, ⟨first, others⟩ =>
    ⟨apart_deeper deeper v first, allApart_deeper deeper rest others⟩

theorem entriesApart_deeper (deeper : Deepens forest tree later later') :
    (entries : List (Value × Value)) → EntriesApart forest tree (ofEntries later entries) →
      EntriesApart forest tree (ofEntries later' entries)
  | [], _ => trivial
  | (k, v) :: rest, ⟨fixed, entry, others⟩ => by
      refine ⟨by simpa only [value_ofValue] using fixed, ?_,
        entriesApart_deeper deeper rest others⟩
      simp only [value_ofValue] at entry ⊢
      cases named : forest.fieldKey? k with
      | some key =>
          rw [named] at entry
          exact entry
      | none =>
          rw [named] at entry
          exact apart_deeper deeper v entry
end

theorem allApart_mem {vs : List Value} {v : Value}
    (all : AllApart forest tree (ofElements later vs))
    (member : v ∈ vs) : (ofValue later v).Apart forest tree := by
  induction vs with
  | nil => cases member
  | cons u rest ih =>
      rcases List.mem_cons.mp member with rfl | inside
      · exact all.1
      · exact ih all.2 inside

theorem entriesApart_mem {entries : List (Value × Value)} {k v : Value}
    (apart : EntriesApart forest tree (ofEntries later entries)) (member : (k, v) ∈ entries)
    (unnamed : forest.fieldKey? k = none) : (ofValue later v).Apart forest tree := by
  induction entries with
  | nil => cases member
  | cons entry rest ih =>
      obtain ⟨-, first, others⟩ := apart
      rcases List.mem_cons.mp member with rfl | inside
      · simpa only [value_ofValue, unnamed] using first
      · exact ih others inside

end View

namespace Forest

variable {forest : Forest} {tree : NodeId} {d e v : Value} {rows others : List (Value × Value)}

theorem deepens_laterWithin (forest : Forest) (tree : NodeId) (depth : Nat) :
    View.Deepens forest tree (forest.laterWithin depth) (forest.laterWithin (depth + 1)) := by
  induction depth with
  | zero =>
      intro v kept _
      have empty : forest.kept v = [] := kept.symm
      simp [laterWithin, empty, View.AllApart]
  | succ depth ih =>
      intro v _ all
      have values (depth : Nat) : ((forest.kept v).map (forest.viewWithin depth)).map View.value =
          forest.kept v := by
        simp [viewWithin_eq, Function.comp_def]
      refine ⟨values _, View.allApart_iff.mpr fun u member => ?_⟩
      obtain ⟨element, inside, rfl⟩ := List.mem_map.mp member
      have here := View.allApart_iff.mp all _ (List.mem_map_of_mem inside)
      rw [viewWithin_eq] at here ⊢
      exact View.apart_deeper ih element here

/-! ## Entries of a description -/

/-- The entries of a list, a tuple or a dictionary. -/
def rows? (forest : Forest) (v : Value) : Option (List (Value × Value)) :=
  if v.isGrouped then forest.entries? v else none

theorem isGrouped_of_rows? (read : forest.rows? d = some rows) : d.isGrouped = true := by
  rw [rows?, Option.ite_none_right_eq_some] at read
  exact read.1

theorem entries?_of_rows? (read : forest.rows? d = some rows) : forest.entries? d = some rows := by
  rwa [rows?, if_pos (isGrouped_of_rows? read)] at read

theorem rows?_cases (read : forest.rows? d = some rows) :
    (∃ mark, d = .dict mark rows) ∨
      ∃ vs, forest.sequence? d = some vs ∧ rows = atPositions vs ∧ d.isOrdered = true := by
  have grouped := isGrouped_of_rows? read
  have entries := entries?_of_rows? read
  cases d with
  | dict mark own =>
      cases entries
      exact .inl ⟨mark, rfl⟩
  | list | conditions | tuple =>
      cases entries
      exact .inr ⟨_, rfl, rfl, rfl⟩
  | _ => cases grouped

theorem isTruthy_of_rows? (read : forest.rows? d = some rows) :
    forest.isTruthy d = !rows.isEmpty := by
  obtain ⟨mark, rfl⟩ | ⟨vs, sequence, rfl, ordered⟩ := rows?_cases read
  · rfl
  · have truthy : forest.isTruthy d = (forest.sequence? d).all (!·.isEmpty) := by
      cases d <;> first | rfl | cases ordered
    rw [truthy, sequence]
    simp [atPositions]

/-- What stands in the entries is followed to its end, apart from what fields are compared with. -/
def RowsHold (forest : Forest) (rows : List (Value × Value)) : Prop :=
  ∀ k v, (k, v) ∈ rows → forest.fieldKey? k = none → forest.Holds v

theorem RowsHold.head {k : Value} (hold : forest.RowsHold ((k, v) :: rows))
    (unnamed : forest.fieldKey? k = none) : forest.Holds v :=
  hold k v List.mem_cons_self unnamed

theorem RowsHold.tail {row : Value × Value} (hold : forest.RowsHold (row :: rows)) :
    forest.RowsHold rows :=
  fun k v member => hold k v (List.mem_cons_of_mem row member)

theorem Holds.rowsHold (holds : forest.Holds d) (read : forest.rows? d = some rows) :
    forest.RowsHold rows := by
  intro k v member unnamed
  rw [Holds, view_eq] at holds ⊢
  have grouped := isGrouped_of_rows? read
  have kept (inside : v ∈ forest.kept d)
      (all : View.AllApart forest ⟨forest.nodes.size⟩
        (forest.laterWithin (forest.viewBound + 1) d)) :
      (View.ofValue (forest.laterWithin (forest.viewBound + 1)) v).Apart forest
        ⟨forest.nodes.size⟩ := by
    have here := View.allApart_iff.mp all _ (List.mem_map_of_mem inside)
    rw [viewWithin_eq] at here
    exact View.apart_deeper (deepens_laterWithin forest _ _) v here
  obtain ⟨mark, rfl⟩ | ⟨vs, sequence, rfl, -⟩ := rows?_cases read
  · exact View.entriesApart_mem holds member unnamed
  · have inside : v ∈ vs := (by simpa [atPositions] using member : v ∈ vs ∧ _).1
    cases d with
    | list mark own =>
        obtain ⟨written, more⟩ := View.allApart_append.mp holds.2.2
        cases sequence
        rcases List.mem_append.mp inside with here | there
        · exact View.allApart_mem written here
        · exact kept there more
    | conditions id stage =>
        cases sequence
        exact kept inside holds.2.2
    | tuple mark own =>
        cases sequence
        exact View.allApart_mem holds.2.2 (by simpa [Forest.kept] using inside)
    | dict => cases sequence
    | _ => cases grouped

/-! ## Similar descriptions -/

/-- The names are one keyword in two spellings. -/
def SameKeyword (name other : String) : Prop :=
  Key.capitals name = Key.capitals other ∧
    Key.capitals name ∈ ["AND", "OR", "XOR", "NOT"]

mutual
/-- The descriptions differ in containers, in numeric keys, and in the letter case of keywords at
most. -/
inductive Similar (forest : Forest) : Value → Value → Prop
  | same (v : Value) : Similar forest v v
  | container {d e : Value} {rows others : List (Value × Value)} :
      forest.rows? d = some rows → forest.rows? e = some others → RowsSimilar forest rows others →
      Similar forest d e

inductive RowsSimilar (forest : Forest) : List (Value × Value) → List (Value × Value) → Prop
  | nil : RowsSimilar forest [] []
  | position {k l v u : Value} {rows others : List (Value × Value)} :
      k.isNumeric = true → l.isNumeric = true → Similar forest v u →
      RowsSimilar forest rows others → RowsSimilar forest ((k, v) :: rows) ((l, u) :: others)
  | keyword {name other : String} {v u : Value} {rows others : List (Value × Value)} :
      SameKeyword name other → Similar forest v u → RowsSimilar forest rows others →
      RowsSimilar forest ((.text name, v) :: rows) ((.text other, u) :: others)
  | entry (k v : Value) {rows others : List (Value × Value)} :
      RowsSimilar forest rows others → RowsSimilar forest ((k, v) :: rows) ((k, v) :: others)
end

theorem RowsSimilar.isEmpty_eq (similar : forest.RowsSimilar rows others) :
    rows.isEmpty = others.isEmpty := by
  cases similar <;> rfl

theorem Similar.isTruthy_eq (similar : forest.Similar d e) :
    forest.isTruthy d = forest.isTruthy e := by
  cases similar with
  | same => rfl
  | container read also rows =>
      rw [isTruthy_of_rows? read, isTruthy_of_rows? also, rows.isEmpty_eq]

theorem fieldKey?_of_numeric {k : Value} (numeric : k.isNumeric = true) :
    forest.fieldKey? k = none := by
  rw [fieldKey?, if_pos numeric]

/-- The names are one keyword for a connective, or both negate. -/
theorem SameKeyword.cases {name other : String} (same : SameKeyword name other) :
    (∃ word, Key.connective? name = some word ∧ Key.connective? other = some word) ∨
      Key.isNegation name = true ∧ Key.isNegation other = true := by
  obtain ⟨capitals, known⟩ := same
  simp only [List.mem_cons, List.not_mem_nil, or_false] at known
  by_cases negation : Key.capitals name = "NOT"
  · exact .inr ⟨by simp [Key.isNegation, negation], by simp [Key.isNegation, ← capitals, negation]⟩
  · have word : Key.capitals name = "AND" ∨ Key.capitals name = "OR" ∨
        Key.capitals name = "XOR" := by simpa [negation] using known
    refine .inl ⟨Key.capitals name, ?_, ?_⟩
    · rw [Key.connective?, if_pos word]
    · rw [Key.connective?, ← capitals, if_pos word]

theorem fieldKey?_of_keyword (forest : Forest) {name other : String}
    (same : SameKeyword name other) :
    forest.fieldKey? (.text name) = none ∧ forest.fieldKey? (.text other) = none := by
  obtain ⟨word, named, named'⟩ | ⟨negation, negation'⟩ := same.cases
  · simp [fieldKey?, plainText, named, named']
  · simp [fieldKey?, plainText, negation, negation']

/-- Grouped alike, as far as similar values go. -/
theorem Similar.atPosition_eq (similar : forest.Similar d e) (inner : List Item) :
    (Entry.atPosition forest d).item? d inner = (Entry.atPosition forest e).item? e inner := by
  cases similar with
  | same => rfl
  | container read also rows =>
      have truthy := isTruthy_of_rows? read
      have truthy' := isTruthy_of_rows? also
      rw [rows.isEmpty_eq, ← truthy'] at truthy
      have group {v : Value} (grouped : v.isGrouped = true) :
          (Entry.atPosition forest v).item? v inner =
            if forest.isTruthy v then some (.group "AND" inner) else none := by
        cases v with
        | list | conditions | tuple | dict =>
            rw [Entry.atPosition]
            split <;> rfl
        | _ => cases grouped
      rw [group (isGrouped_of_rows? read), group (isGrouped_of_rows? also), truthy]

theorem entryItems_of_numeric {k : Value} (numeric : k.isNumeric = true) (v : Value) :
    forest.entryItems (k, v) = ((Entry.atPosition forest v).item? v
      (Item.ofView forest (forest.view v))).toList := by
  rw [entryItems, Entry.classify, if_pos numeric]

mutual
/-- Similar descriptions come to the same items. -/
theorem Similar.items_eq : {d e : Value} → forest.Similar d e → forest.Holds d → forest.Holds e →
    Item.ofView forest (forest.view d) = Item.ofView forest (forest.view e)
  | _, _, .same v, _, _ => rfl
  | d, e, .container read also similar, holds, holds' => by
      rw [ofView_apart holds (entries?_of_rows? read), ofView_apart holds' (entries?_of_rows? also)]
      exact similar.items_eq (holds.rowsHold read) (holds'.rowsHold also)

theorem RowsSimilar.items_eq : {rows others : List (Value × Value)} →
    forest.RowsSimilar rows others → forest.RowsHold rows → forest.RowsHold others →
    rows.flatMap forest.entryItems = others.flatMap forest.entryItems
  | _, _, .nil, _, _ => rfl
  | _, _, .position numeric numeric' similar rest, hold, hold' => by
      have items := similar.items_eq (hold.head (fieldKey?_of_numeric numeric))
        (hold'.head (fieldKey?_of_numeric numeric'))
      rw [List.flatMap_cons, List.flatMap_cons, rest.items_eq hold.tail hold'.tail,
        entryItems_of_numeric numeric, entryItems_of_numeric numeric', items,
        similar.atPosition_eq]
  | _, _, .keyword same similar rest, hold, hold' => by
      obtain ⟨unnamed, unnamed'⟩ := fieldKey?_of_keyword forest same
      have items := similar.items_eq (hold.head unnamed) (hold'.head unnamed')
      rw [List.flatMap_cons, List.flatMap_cons, rest.items_eq hold.tail hold'.tail]
      obtain ⟨word, named, named'⟩ | ⟨negation, negation'⟩ := same.cases
      · rw [entryItems_connective named, entryItems_connective named', items]
      · rw [entryItems_negation negation, entryItems_negation negation', items]
  | _, _, .entry k v rest, hold, hold' => by
      rw [List.flatMap_cons, List.flatMap_cons, rest.items_eq hold.tail hold'.tail]
end

end Forest

namespace WorkspaceM

variable {w v : Workspace} {d e types connective : Value}

open Forest

theorem same_read (items : Item.ofView w.toForest (w.view d) = Item.ofView w.toForest (w.view e)) :
    SameRun (run (Item.read d) w) (run (Item.read e) w) := by
  rw [run_read, run_read, items]
  exact ⟨rfl, _, rfl⟩

/-- Descriptions that come to the same items are added alike. -/
theorem same_add (tree : NodeId) (types : Value)
    (items : Item.ofView w.toForest (w.view d) = Item.ofView w.toForest (w.view e)) :
    SameRun (run (add tree d types) w) (run (add tree e types) w) := by
  have built (items : List Item) : Unlogged (MonadState.get >>= fun w : Workspace =>
      extend tree (if w.isTruthy types then types else .dict .passing []) items) :=
    .get (fun _ _ => rfl) fun _ => unlogged_extend tree _ items
  have opened := (snd_run_discard (openJunction tree) w).trans (same_openJunction tree w)
  have alike := SameRun.refl (run (discard (openJunction tree)) w)
  refine alike.bind fun _ after last done also _ => ?_
  rw [done] at opened
  obtain rfl : after = w := opened
  obtain rfl : after = last := (Prod.mk.inj (done.symm.trans also)).2
  exact (same_read items).bind fun items _ _ _ _ alike => (built items).alike alike

/-- A new empty tree leaves everything else as it was. -/
theorem spared_emptyTree (tree : NodeId) (types connective : Value) (w : Workspace) :
    Spared tree (newTree .null types connective none) w := by
  have bound : w.Spares tree (run freshBinder w).2.toForest := .of_nodes rfl rfl
  have planted {next : BinderId → WorkspaceM NodeId} (spared : ∀ b v, Spared tree (next b) v) :
      Spared tree (freshBinder >>= next) w :=
    Spared.bind (.of_run Prod.mk.eta.symm bound) fun b after _ => spared b after
  have last (b : BinderId) (word : String) (v : Workspace) : Spared tree (do
      let tree ← addNode (.junction { connective := .text word, binder := b })
      if (← MonadState.get).isTruthy .null then add tree .null types
      return tree) v :=
    (Spared.addNode _).bind fun _ _ _ => .look rfl fun _ => .pure _
  cases connective with
  | null =>
      refine .look rfl fun _ => .look (same_connectiveOf _ w) fun word => planted fun b v => ?_
      split
      · exact .throw _
      · exact last ..
  | _ =>
      refine .look (same_connectiveOf _ w) fun word => planted fun b v => ?_
      split
      · exact .throw _
      · exact last ..

theorem same_newTree (types connective : Value) (similar : w.Similar d e) (holds : w.Holds d)
    (holds' : w.Holds e) :
    SameRun (run (newTree d types connective none) w)
      (run (newTree e types connective none) w) := by
  rw [run_newTree_filled, run_newTree_filled e]
  refine (SameRun.refl _).bind fun tree after last done also _ => ?_
  obtain rfl : after = last := (Prod.mk.inj (done.symm.trans also)).2
  have spares := (spared_emptyTree ⟨w.nodes.size⟩ types connective w).spares tree after done
  have items : Item.ofView after.toForest (after.view d) =
      Item.ofView after.toForest (after.view e) := by
    rw [Forest.ofView_spared spares holds, Forest.ofView_spared spares holds',
      similar.items_eq holds holds']
  have truthy : after.isTruthy d = after.isTruthy e := by
    cases similar with
    | same => rfl
    | container read also rows =>
        have notBinder {v : Value} (grouped : v.isGrouped = true) (id : BinderId) :
            v ≠ .binder id := by
          rintro rfl
          cases grouped
        rw [spares.isTruthy holds.apart (notBinder (isGrouped_of_rows? read)),
          spares.isTruthy holds'.apart (notBinder (isGrouped_of_rows? also))]
        exact (Similar.container read also rows).isTruthy_eq
  rw [run_bind_ok (run_get after), run_bind_ok (run_get after), truthy]
  split
  · exact (same_add tree types items).bind fun _ _ _ _ _ alike => ⟨rfl, alike⟩
  · exact .refl _

theorem similar_descriptions (similar : w.Similar d e) (holds : w.Holds d) (holds' : w.Holds e) :
    SameRun (run (Item.read d) w) (run (Item.read e) w) ∧
      ∀ types connective, SameRun (run (compileDescription d types connective) w)
        (run (compileDescription e types connective) w) := by
  refine ⟨same_read (similar.items_eq holds holds'), fun types connective => ?_⟩
  have compiled : SameRun (run (newTree d types connective none >>= outcomeOf) w)
      (run (newTree e types connective none >>= outcomeOf) w) :=
    (same_newTree types connective similar holds holds').bind fun tree _ _ _ _ alike =>
      (unlogged_outcomeOf tree).alike alike
  cases similar with
  | same => exact .refl _
  | container read also _ =>
      have noNode {v : Value} (grouped : v.isGrouped = true) : v.node? = none := by
        cases v <;> first | rfl | cases grouped
      rw [compileDescription, compileDescription, noNode (isGrouped_of_rows? read),
        noNode (isGrouped_of_rows? also)]
      exact compiled

/-! Two spellings of one description, of which only the keys of fields and what they are compared
with are the same. -/

def inLists : Value :=
  .list ⟨1⟩ [.dict ⟨2⟩ [(.text "x IN", .list ⟨3⟩ [.int 1, .int 2]),
      (.text "or", .list ⟨4⟩ [.text "a", .tuple ⟨5⟩ [.text "b", .text "c"]])],
    .list ⟨6⟩ [], .text "z"]

def underKeys : Value :=
  .dict ⟨7⟩ [(.text " +1.50e3 ", .dict ⟨8⟩ [(.text "x IN", .list ⟨3⟩ [.int 1, .int 2]),
      (.text "oR", .dict ⟨9⟩ [(.int (-7), .text "a"),
        (.float (.finite true 25 (-1)), .list ⟨10⟩ [.text "b", .text "c"])])]),
    (.text "0", .tuple ⟨11⟩ []), (.int 3, .text "z")]

theorem similar_inLists (forest : Forest) (written : forest.additions = []) :
    forest.Similar inLists underKeys := by
  have numeral : isNumeral " +1.50e3 " = true ∧ isNumeral "0" = true := by decide +kernel
  have kept (mark : Mark) (vs : List Value) : forest.kept (.list mark vs) = [] := by
    rw [Forest.kept, written]
    rfl
  have rows (mark : Mark) (vs : List Value) :
      forest.rows? (.list mark vs) = some (Forest.atPositions vs) := by
    simp [Forest.rows?, Value.isGrouped, Forest.entries?, Value.isOrdered, Forest.sequence?,
      Value.written?, kept, Forest.atPositions]
  have texts : forest.Similar (.tuple ⟨5⟩ [.text "b", .text "c"])
      (.list ⟨10⟩ [.text "b", .text "c"]) :=
    .container rfl (rows ..) (.position rfl rfl (.same _) (.position rfl rfl (.same _) .nil))
  have group : forest.Similar (.list ⟨4⟩ [.text "a", .tuple ⟨5⟩ [.text "b", .text "c"]])
      (.dict ⟨9⟩ [(.int (-7), .text "a"),
        (.float (.finite true 25 (-1)), .list ⟨10⟩ [.text "b", .text "c"])]) :=
    .container (rows ..) rfl (.position rfl rfl (.same _) (.position rfl rfl texts .nil))
  have entries : forest.Similar
      (.dict ⟨2⟩ [(.text "x IN", .list ⟨3⟩ [.int 1, .int 2]),
        (.text "or", .list ⟨4⟩ [.text "a", .tuple ⟨5⟩ [.text "b", .text "c"]])])
      (.dict ⟨8⟩ [(.text "x IN", .list ⟨3⟩ [.int 1, .int 2]),
        (.text "oR", .dict ⟨9⟩ [(.int (-7), .text "a"),
          (.float (.finite true 25 (-1)), .list ⟨10⟩ [.text "b", .text "c"])])]) :=
    .container rfl rfl (.entry _ _ (.keyword ⟨by decide, by decide⟩ group .nil))
  exact .container (rows ..) rfl (.position rfl numeral.1 entries
    (.position rfl numeral.2 (.container (rows ..) rfl .nil)
      (.position rfl rfl (.same _) .nil)))

theorem similar_descriptions_inLists :
    (run (compileDescription inLists .null .null) {}).1.toOption.map (·.sql) =
        some "((x IN (:c2_1, :c2_2) AND (a OR (b AND c))) AND z)" ∧
      SameRun (run (Item.read inLists) {}) (run (Item.read underKeys) {}) ∧
      ∀ types connective, SameRun (run (compileDescription inLists types connective) {})
        (run (compileDescription underKeys types connective) {}) := by
  have membership : Forest.fieldKey? {} (.text "x IN") = some ⟨"x", "IN"⟩ := by decide +kernel
  have keyword : Forest.fieldKey? {} (.text "or") = none ∧
      Forest.fieldKey? {} (.text "oR") = none := by decide +kernel
  have positions : Forest.fieldKey? {} (.text " +1.50e3 ") = none ∧
      Forest.fieldKey? {} (.text "0") = none ∧ (∀ n, Forest.fieldKey? {} (.int n) = none) ∧
      Forest.fieldKey? {} (.float (.finite true 25 (-1))) = none :=
    ⟨by decide +kernel, by decide +kernel, fun _ => rfl, rfl⟩
  have below : Value.Below 0 (.list ⟨3⟩ [.int 1, .int 2]) := by simp [Value.Below]
  have first : Forest.Describes {} inLists := by
    simp only [inLists, Forest.Describes, Forest.EntriesDescribe, Forest.AllDescribe, membership,
      keyword]
    exact ⟨⟨trivial, ⟨rfl, below⟩, trivial, ⟨trivial, ⟨trivial, trivial, trivial⟩, trivial⟩,
      trivial⟩, trivial, trivial, trivial⟩
  have second : Forest.Describes {} underKeys := by
    simp only [underKeys, Forest.Describes, Forest.EntriesDescribe, Forest.AllDescribe, membership,
      keyword, positions]
    exact ⟨trivial, ⟨trivial, ⟨rfl, below⟩, trivial, ⟨trivial, trivial, trivial,
      ⟨trivial, trivial, trivial⟩, trivial⟩, trivial⟩, trivial, trivial, trivial, trivial, trivial⟩
  have holds : Forest.Holds {} inLists :=
    View.apart_of_plain _ (Forest.plain_of_describes rfl first)
  have holds' : Forest.Holds {} underKeys :=
    View.apart_of_plain _ (Forest.plain_of_describes rfl second)
  exact ⟨by decide +kernel, similar_descriptions (w := {}) (similar_inLists {} rfl) holds holds'⟩

end WorkspaceM

end WhereClause
