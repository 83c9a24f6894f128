import WhereClause.Proofs.Failing
import WhereClause.Proofs.Surroundings
import WhereClause.Proofs.Upkeep

/-!
# Adding that fails partway

A description is added item by item. If an item fails, the conditions of the items before it are
there, each membership test with its binding, and nothing of the items from it on is: the tree is
still open, and its binder has spent numbers, and names that were kept for the placeholders of
membership tests. One list may be longer, which was declared for a type.

* `extend_adds`: what items come to, one after the other.
* `add_partway`: what an addition leaves that fails.
-/

namespace WhereClause

namespace Binder

variable {settings : Settings} {items more : List Item} {entries others : List (Int × Binding)}
  {b c d : Binder}

/-- The name is one that was handed out for a membership test of the items. -/
def HandsOut (settings : Settings) (items : List Item) (b after : Binder) (name : String) : Prop :=
  ∃ key value number, Item.field key value ∈ items ∧ key.isMembership = true ∧
    b.count ≤ number ∧ number < after.count ∧
    name = nameFor settings b.identifier number (.text key.field)

/-- The binder holds the entries besides what it held. It has spent numbers, and no name that was
kept but those that it handed out. -/
structure Fills (settings : Settings) (items : List Item) (entries : List (Int × Binding))
    (b after : Binder) : Prop where
  identifier : after.identifier = b.identifier
  count : b.count ≤ after.count
  bindings : after.bindings = b.bindings ++ entries
  expands : after.expands = (b.expands || !entries.isEmpty)
  reserved : after.reserved.Sublist b.reserved
  spent : ∀ entry ∈ b.reserved, entry ∉ after.reserved → HandsOut settings items b after entry.1
  sequenced : ∀ {first}, b.Sequenced first → after.Sequenced first

theorem Fills.refl (settings : Settings) (items : List Item) (b : Binder) :
    Fills settings items [] b b where
  identifier := rfl
  count := Int.le_refl _
  bindings := (List.append_nil _).symm
  expands := by simp
  reserved := .refl _
  spent _ member gone := absurd member gone
  sequenced := id

theorem Fills.trans (first : b.Fills settings items entries c)
    (second : c.Fills settings more others d) :
    b.Fills settings (items ++ more) (entries ++ others) d where
  identifier := second.identifier.trans first.identifier
  count := first.count.trans second.count
  bindings := by rw [second.bindings, first.bindings, List.append_assoc]
  expands := by
    rw [second.expands, first.expands]
    cases entries <;> cases others <;> simp
  reserved := second.reserved.trans first.reserved
  spent entry member gone := by
    by_cases still : entry ∈ c.reserved
    · obtain ⟨key, value, number, among, membership, low, high, name⟩ :=
        second.spent entry still gone
      exact ⟨key, value, number, List.mem_append_right _ among, membership,
        first.count.trans low, high, first.identifier ▸ name⟩
    · obtain ⟨key, value, number, among, membership, low, high, name⟩ :=
        first.spent entry member still
      exact ⟨key, value, number, List.mem_append_left _ among, membership, low,
        lt_of_lt_of_le high second.count, name⟩
  sequenced counted := second.sequenced (first.sequenced counted)

/-- A registration that is refused spends a number and the name. -/
theorem register_refused {type : Value} {reason : Reason} (refused : type.toType = .error reason)
    (field : String) (value : Value) (b : Binder) :
    b.register settings (.text field) value type = (.error (.invalid [⟨"type", reason⟩]),
      { b with
        count := b.count + 1
        reserved := Table.erase (b.nextName settings field) b.reserved }) := by
  simp [register, reserve, bindName, takeNumber, keep, advance, next, nextName, Table.get?_put,
    refused, Table.erase_put, Except.map]

section Test

variable {key : Key} {value : Value} (membership : key.isMembership = true)
include membership

theorem spent_of_erase {name : String} (named : name = b.nextName settings key.field)
    (count : c.count = b.count + 1) (reserved : c.reserved = Table.erase name b.reserved)
    (entry : String × Int) (member : entry ∈ b.reserved) (gone : entry ∉ c.reserved) :
    HandsOut settings [.field key value] b c entry.1 := by
  refine ⟨key, value, b.count, List.mem_singleton_self _, membership, Int.le_refl _, by omega, ?_⟩
  by_contra other
  exact gone (reserved ▸ Table.mem_erase_of_ne member (named ▸ other))

theorem fills_registered {first : Int} (sequenced : b.Sequenced first) {type : String}
    (marked : settings.marks type = true) :
    b.Fills settings [.field key value]
      [(b.count, ⟨fragmentOf (b.nextName settings key.field), value, some type⟩)]
      (b.registered settings key.field value (.text type)) := by
  have ordered {start : Int} (before : b.Sequenced start) :
      (b.registered settings key.field value (.text type)).Sequenced start :=
    (before.use (.register settings (.text key.field) value (.text type))).1
  have own := b.registered_eq settings key.field value (some type)
  simp only [Value.ofText?, Table.erase_put] at own
  have free : b.count ∉ Table.keys b.bindings := fun member =>
    sequenced.free_count (List.mem_append_left _ member)
  rw [own] at ordered ⊢
  constructor
  · rfl
  · exact Int.le_of_lt (Int.lt_succ _)
  · exact Table.put_of_not_mem free
  · simp [BindingOf.isMulti, marked]
  · exact Table.sublist_erase
  · exact spent_of_erase membership rfl rfl rfl
  · exact ordered

theorem fills_refused :
    b.Fills settings [.field key value] []
      { b with
        count := b.count + 1
        reserved := Table.erase (b.nextName settings key.field) b.reserved } where
  identifier := rfl
  count := Int.le_of_lt (Int.lt_succ _)
  bindings := (List.append_nil _).symm
  expands := by simp
  reserved := Table.sublist_erase
  spent := spent_of_erase membership rfl rfl rfl
  sequenced before := before.of_sublist
    ((List.Sublist.refl _).append (Table.sublist_erase.map Prod.snd)) (Int.le_of_lt (Int.lt_succ _))

end Test

end Binder

/-- What an item comes to: a condition, and what is bound for it by the binder of the tree. -/
structure Share where
  condition? : Option Value
  bound? : Option (Int × Binding)

/-- The tree is new and has the shares alone; so is its binder, with what is bound for them. -/
structure Forest.Holding (w : Workspace) (forest : Forest) (word : String) (shares : List Share)
    (id : NodeId) (j : Junction) : Prop where
  new : w.nodes.size ≤ id.index
  found : forest.junction? id = some j
  isOpen : j.compiled = none
  connective : j.connective = .text word
  conditions : j.conditions = shares.filterMap Share.condition?
  newBinder : w.binders.size ≤ j.binder.index
  known : j.binder.index < forest.binders.size
  bindings : (forest.binder j.binder).bindings = shares.filterMap Share.bound?

mutual
/-- The item came to this, with nodes that were made since. A membership test that is bound by the
binder of the tree is bound to the placeholder in its condition. -/
def ComesTo (w : Workspace) (forest : Forest) (identifier : String) : Item → Share → Prop
  | .raw text, share => share = ⟨some (.text text), none⟩
  | .nested node, share => share = ⟨some (.node node), none⟩
  | .group connective items, share =>
    items = [] ∧ share = ⟨none, none⟩ ∨
      items ≠ [] ∧ ∃ id j shares, share = ⟨some (.node id), none⟩ ∧
        forest.Holding w (Text.upper connective) shares id j ∧
        AllCome w forest (forest.binder j.binder).identifier items shares
  | .negation items, share =>
    items = [] ∧ share = ⟨none, none⟩ ∨
      items ≠ [] ∧ ∃ negation id j shares, share = ⟨some (.node negation), none⟩ ∧
        w.nodes.size ≤ negation.index ∧
        forest.node negation = .unary ⟨"NOT", .node id, false⟩ ∧
        forest.Holding w (Text.upper w.settings.defaultConnective) shares id j ∧
        AllCome w forest (forest.binder j.binder).identifier items shares
  | .field key value, share =>
    (¬ Item.Binds (.field key value) ∧ ∃ id c, share = ⟨some (.node id), none⟩ ∧
      w.nodes.size ≤ id.index ∧ forest.node id = .comparison c ∧ c.field = key.field ∧
      c.operator = key.operator ∧ c.operand.value = value) ∨
    (Item.Binds (.field key value) ∧ ∃ number type,
      let name := Binder.nameFor w.settings identifier number (.text key.field)
      w.settings.marks type = true ∧ share = ⟨some (.text (key.membership name)),
        some (number, ⟨fragmentOf name, value, some type⟩)⟩)

def AllCome (w : Workspace) (forest : Forest) (identifier : String) :
    List Item → List Share → Prop
  | [], shares => shares = []
  | item :: items, shares => ∃ share rest, shares = share :: rest ∧
      ComesTo w forest identifier item share ∧ AllCome w forest identifier items rest
end

section Later

variable {w middle after : Workspace} {forest : Forest} {identifier : String} {tree id : NodeId}
  {own : BinderId} {j : Junction} {word : String} {shares : List Share}

theorem Forest.Holding.lower (sooner : w.Around tree own none middle)
    (holding : forest.Holding middle word shares id j) : forest.Holding w word shares id j :=
  { holding with
    new := sooner.nodes.trans holding.new
    newBinder := sooner.binders.trans holding.newBinder }

/-- What is left as it was, as long as no list is lengthened. -/
theorem Workspace.Around.node_of_new (around : middle.Around tree own none after)
    (old : tree.index < w.nodes.size) (new : w.nodes.size ≤ id.index) {node : Node}
    (found : middle.node id = node) (made : node ≠ .abstract) : after.node id = node := by
  have bound := Forest.index_lt_of_node (found ▸ made)
  rw [around.node id bound (by rintro rfl; exact absurd old (Nat.not_lt.mpr new))]
  exact found

theorem Forest.Holding.later (holding : middle.Holding w word shares id j)
    (around : middle.Around tree own none after) (old : tree.index < w.nodes.size)
    (oldBinder : own.index < w.binders.size) :
    after.Holding w word shares id j ∧ after.binder j.binder = middle.binder j.binder := by
  have node := around.node_of_new old holding.new (Forest.junction?_eq_some.mp holding.found) nofun
  have binder : after.binder j.binder = middle.binder j.binder :=
    around.binder _ holding.known fun same =>
      absurd (same ▸ oldBinder) (Nat.not_lt.mpr holding.newBinder)
  refine ⟨{ holding with
    found := Forest.junction?_eq_some.mpr node
    known := holding.known.trans_le around.binders
    bindings := ?_ }, binder⟩
  rw [binder, holding.bindings]

mutual
/-- What was made since a workspace was made since an earlier one. -/
theorem ComesTo.lower (sooner : w.Around tree own none middle) {identifier : String} :
    (item : Item) → {share : Share} → ComesTo middle forest identifier item share →
      ComesTo w forest identifier item share
  | .raw text, _, comes => comes
  | .nested node, _, comes => comes
  | .group connective items, _, comes => by
      rw [ComesTo] at comes ⊢
      refine comes.imp_right fun ⟨filled, id, j, shares, same, holding, inner⟩ => ?_
      exact ⟨filled, id, j, shares, same, holding.lower sooner, AllCome.lower sooner items inner⟩
  | .negation items, _, comes => by
      rw [ComesTo] at comes ⊢
      refine comes.imp_right fun ⟨filled, not, id, j, shares, same, new, kind, holding, inner⟩ => ?_
      rw [sooner.settings] at holding
      exact ⟨filled, not, id, j, shares, same, sooner.nodes.trans new, kind, holding.lower sooner,
        AllCome.lower sooner items inner⟩
  | .field key value, _, comes => by
      rw [ComesTo, sooner.settings] at comes
      rw [ComesTo]
      refine comes.imp_left fun ⟨single, id, c, same, new, made⟩ => ?_
      exact ⟨single, id, c, same, sooner.nodes.trans new, made⟩

theorem AllCome.lower (sooner : w.Around tree own none middle) {identifier : String} :
    (items : List Item) → {shares : List Share} → AllCome middle forest identifier items shares →
      AllCome w forest identifier items shares
  | [], _, comes => comes
  | item :: items, _, ⟨share, rest, same, first, others⟩ =>
    ⟨share, rest, same, ComesTo.lower sooner item first, AllCome.lower sooner items others⟩
end

mutual
/-- What items came to is there later on, unless a list is lengthened. -/
theorem ComesTo.later (around : middle.Around tree own none after)
    (old : tree.index < w.nodes.size) (oldBinder : own.index < w.binders.size)
    {identifier : String} : (item : Item) → {share : Share} →
      ComesTo w middle.toForest identifier item share →
        ComesTo w after.toForest identifier item share
  | .raw text, _, comes => comes
  | .nested node, _, comes => comes
  | .group connective items, _, comes => by
      rw [ComesTo] at comes ⊢
      refine comes.imp_right fun ⟨filled, id, j, shares, same, holding, inner⟩ => ?_
      obtain ⟨held, binder⟩ := holding.later around old oldBinder
      exact ⟨filled, id, j, shares, same, held,
        binder ▸ AllCome.later around old oldBinder items inner⟩
  | .negation items, _, comes => by
      rw [ComesTo] at comes ⊢
      refine comes.imp_right fun ⟨filled, not, id, j, shares, same, new, kind, holding, inner⟩ => ?_
      obtain ⟨held, binder⟩ := holding.later around old oldBinder
      exact ⟨filled, not, id, j, shares, same, new, around.node_of_new old new kind nofun, held,
        binder ▸ AllCome.later around old oldBinder items inner⟩
  | .field key value, _, comes => by
      rw [ComesTo] at comes ⊢
      refine comes.imp_left fun ⟨single, id, c, same, new, kind, made⟩ => ?_
      exact ⟨single, id, c, same, new, around.node_of_new old new kind nofun, made⟩

theorem AllCome.later (around : middle.Around tree own none after)
    (old : tree.index < w.nodes.size) (oldBinder : own.index < w.binders.size)
    {identifier : String} : (items : List Item) → {shares : List Share} →
      AllCome w middle.toForest identifier items shares →
        AllCome w after.toForest identifier items shares
  | [], _, comes => comes
  | item :: items, _, ⟨share, rest, same, first, others⟩ =>
    ⟨share, rest, same, ComesTo.later around old oldBinder item first,
      AllCome.later around old oldBinder items others⟩
end

theorem AllCome.append {items more : List Item} {rest : List Share}
    (first : AllCome w forest identifier items shares)
    (later : AllCome w forest identifier more rest) :
    AllCome w forest identifier (items ++ more) (shares ++ rest) := by
  induction items generalizing shares with
  | nil =>
      obtain rfl : shares = [] := first
      exact later
  | cons item items ih =>
      obtain ⟨share, others, rfl, here, still⟩ := first
      exact ⟨share, others ++ rest, rfl, here, ih still⟩

end Later

namespace WorkspaceM

variable {α β : Type} {w after : Workspace} {tree : NodeId} {j : Junction} {types : Value}
  {settings : Settings} {identifier : String} {low : Nat} {item : Item} {items : List Item}
  {share : Share} {first : Int} {fault : Fault}

/-! ## One item -/

theorem node_or_flat (value : Value) : (∃ id, value = .node id) ∨ value.node? = none := by
  cases value <;> first | exact .inr rfl | exact .inl ⟨_, rfl⟩

theorem newOperand_made (b : BinderId) (field : String) (value : Value) (type : Option String)
    (w : Workspace) : ∃ operand middle,
      run (newOperand b field value type) w = (.ok operand, middle) ∧
        middle.nodes = w.nodes ∧ operand.value = value := by
  obtain ⟨id, rfl⟩ | flat := node_or_flat value
  · exact ⟨_, _, rfl, rfl, rfl⟩
  · exact ⟨_, _, run_newOperand b field flat type w, rfl, rfl⟩

theorem comparison_made {key : Key} {value type condition : Value}
    (done : run (buildComparison key value type) w = (.ok condition, after)) :
    ∃ id c, condition = .node id ∧ w.nodes.size ≤ id.index ∧ after.node id = .comparison c ∧
      c.field = key.field ∧ c.operator = key.operator ∧ c.operand.value = value := by
  simp only [buildComparison, newComparison, run_bind, run_takeIdentifier, Value.givenText,
    Value.toText, Option.getD_some] at done
  cases typed : type.toType with
  | error reason =>
      rw [typed] at done
      cases done
  | ok type =>
      simp only [typed, run_bind, run_addBinder] at done
      obtain ⟨operand, middle, made, nodes, same⟩ := newOperand_made ⟨w.binders.size⟩ key.field
        value type { w with
          nextIdentifier := w.nextIdentifier + 1
          binders := w.binders.push { identifier := toString w.nextIdentifier } }
      simp only [made, run_addNode, run_pure, Prod.mk.injEq, Except.ok.injEq] at done
      obtain ⟨rfl, rfl⟩ := done
      refine ⟨_, ⟨key.field, operand, type, key.operator, ⟨w.binders.size⟩⟩, rfl,
        nodes ▸ le_rfl, ?_, rfl, rfl, same⟩
      rw [Forest.node_of_push rfl, if_pos rfl]

/-- A field that is no membership test, or one that is tested against a node, is compared. -/
theorem buildField_single {key : Key} {value condition : Value}
    (single : ¬ Item.Binds (.field key value))
    (done : run (buildField tree types key value) w = (.ok condition, after)) :
    ∃ type, run (buildComparison key value type) w = (.ok condition, after) := by
  unfold buildField at done
  cases declared : declaredType types key.field with
  | error fault =>
      rw [declared] at done
      cases done
  | ok type =>
      rw [declared, ofExcept, pure_bind] at done
      split at done
      · rename_i membership
        obtain ⟨id, rfl⟩ := (node_or_flat value).resolve_right fun flat =>
          single ⟨key, value, rfl, membership, flat⟩
        rcases run_membershipType_cases type w with
          ⟨fault, failed⟩ | ⟨s, found, -⟩ | ⟨type, reason, found, -⟩ | ⟨list, found⟩
        · rw [run_bind, failed] at done
          cases done
        · rw [run_bind_ok found] at done
          exact ⟨_, done⟩
        · rw [run_bind_ok found] at done
          exact ⟨_, done⟩
        · rw [run_bind_ok found] at done
          obtain ⟨fault, failed⟩ := buildComparison_of_list list key (.node id)
            { w with toForest := w.extendList type w.settings.markerLetters }
          rw [done] at failed
          cases failed
      · exact ⟨_, done⟩

theorem buildField_of_binds {key : Key} {value : Value} (membership : key.isMembership = true)
    (flat : value.node? = none) : buildField tree types key value =
      ofExcept (declaredType types key.field) >>= membershipType >>=
        buildMembership tree key value := by
  unfold buildField
  simp only [membership, if_true, bind_assoc]
  cases value <;> first | rfl | cases flat

theorem buildMembership_refused {key : Key} {value type : Value} {reason : Reason}
    (found : w.junction? tree = some j) (refused : type.toType = .error reason) :
    run (buildMembership tree key value type) w = (.error (.invalid [⟨"type", reason⟩]), { w with
      toForest := w.setBinder j.binder { w.binder j.binder with
        count := (w.binder j.binder).count + 1
        reserved := Table.erase ((w.binder j.binder).nextName w.settings key.field)
          (w.binder j.binder).reserved } }) := by
  simp only [buildMembership, run_bind, run_junction found, run_get, onBinder,
    Binder.register_refused refused]
  rfl

/-- A membership test that binds its values is written with a placeholder, or it fails: before
anything is done, or when its type is refused. -/
theorem run_buildField_binds (types : Value) {key : Key} {value : Value}
    (found : w.junction? tree = some j) (membership : key.isMembership = true)
    (flat : value.node? = none) :
    let own := w.binder j.binder
    (∃ type, w.settings.marks type = true ∧ run (buildField tree types key value) w =
      (.ok (.text (key.membership (own.nextName w.settings key.field))), { w with
        toForest := w.setBinder j.binder
          (own.registered w.settings key.field value (.text type)) })) ∨
    (∃ fault, run (buildField tree types key value) w = (.error fault, w)) ∨
    ∃ fault grown, run (buildField tree types key value) w = (.error fault, { w with
      toForest := (w.lengthened grown).setBinder j.binder { own with
        count := own.count + 1
        reserved := Table.erase (own.nextName w.settings key.field) own.reserved } }) := by
  intro own
  rw [buildField_of_binds membership flat]
  cases declared : declaredType types key.field with
  | error fault => exact .inr (.inl ⟨fault, rfl⟩)
  | ok type =>
      have looked : (ofExcept (.ok type) >>= membershipType : WorkspaceM Value) =
          membershipType type := pure_bind ..
      rw [looked]
      rcases run_membershipType_cases type w with
        ⟨fault, failed⟩ | ⟨s, typed, marked⟩ | ⟨scalar, reason, typed, refused⟩ | ⟨list, typed⟩
      · exact .inr (.inl ⟨fault, by rw [run_bind, failed]⟩)
      · refine .inl ⟨s, marked, ?_⟩
        rw [run_bind_ok typed, run_buildMembership key value s found]
      · refine .inr (.inr ⟨.invalid [⟨"type", reason⟩], none, ?_⟩)
        rw [run_bind_ok typed, buildMembership_refused found refused]
        rfl
      · obtain ⟨k, found', same, -⟩ := Workspace.junction?_lengthened found (some type)
        refine .inr (.inr ⟨.invalid [⟨"type", .notText⟩], some type, ?_⟩)
        have kept : ({ w with toForest := w.lengthened (some type) } : Workspace).binder j.binder =
            own := w.binder_lengthened (some type) j.binder
        have failed : run (buildMembership tree key value type)
            { w with toForest := w.lengthened (some type) } = _ :=
          buildMembership_refused found' (toType_of_list list)
        rw [same, kept] at failed
        exact (run_bind_ok typed _).trans failed

theorem ok_of_bind {operation : WorkspaceM α} {next : α → WorkspaceM β} {b : β}
    (done : run (operation >>= next) w = (.ok b, after)) :
    ∃ a middle, run operation w = (.ok a, middle) ∧ run (next a) middle = (.ok b, after) := by
  rw [run_bind] at done
  rcases first : run operation w with ⟨fault | a, middle⟩ <;> rw [first] at done
  · cases done
  · exact ⟨a, middle, rfl, done⟩

theorem error_of_bind {operation : WorkspaceM α} {next : α → WorkspaceM β}
    (failed : run (operation >>= next) w = (.error fault, after)) :
    run operation w = (.error fault, after) ∨
      ∃ a middle, run operation w = (.ok a, middle) ∧
        run (next a) middle = (.error fault, after) := by
  rw [run_bind] at failed
  rcases first : run operation w with ⟨fault | a, middle⟩ <;> rw [first] at failed
  · cases failed
    exact .inl rfl
  · exact .inr ⟨a, middle, rfl, failed⟩

theorem ok_of_map {operation : WorkspaceM α} {f : α → β} {b : β}
    (done : run (f <$> operation) w = (.ok b, after)) :
    ∃ a, f a = b ∧ run operation w = (.ok a, after) := by
  rw [map_eq_pure_bind] at done
  obtain ⟨a, _, first, last⟩ := ok_of_bind done
  cases last
  exact ⟨a, rfl, first⟩

theorem run_place (types : Value) (found : w.junction? tree = some j)
    (done : run (place tree types item) w = (.ok (), after)) :
    ∃ condition middle, run (build tree types item) w = (.ok condition, middle) ∧
      middle.junction? tree = some j ∧ after.binders = middle.binders ∧
      (∀ own, middle.Around tree own none after) ∧
      after.junction? tree = some { j with conditions := j.conditions ++ condition.toList } := by
  obtain ⟨condition, middle, built, placed⟩ := ok_of_bind done
  have spared := (contained_build types item found ⟨w.nodes.size⟩ fun _ => rfl).ok _ _ built
  have still := junction?_of_around found spared
  refine ⟨condition, middle, built, still, ?_⟩
  cases condition with
  | none =>
      cases placed
      exact ⟨rfl, fun own => .refl tree own _, by simpa using still⟩
  | some condition =>
      have attached (own : BinderId) : middle.Around tree own none after :=
        (Contained.attach tree condition : Contained tree own (fun _ => False) _ middle).ok _ _
          placed
      simp only [run_attach still] at placed
      cases placed
      exact ⟨rfl, attached, by rw [Forest.junction?_setNode still, if_pos rfl]; rfl⟩

section Build

variable {condition : Option Value}

/-- What binds nothing leaves the binder of the tree as it was. -/
theorem contained_single (types : Value) (found : w.junction? tree = some j)
    (known : j.binder.index < w.binders.size) (single : ¬ item.Binds) :
    Contained tree ⟨w.binders.size⟩ (Lengthens types [item]) (build tree types item) w ∧
      j.binder ≠ ⟨w.binders.size⟩ := by
  refine ⟨contained_build types item found tree (absurd · single), fun same => ?_⟩
  rw [same] at known
  exact lt_irrefl _ known

theorem fills_of_single (types : Value) (found : w.junction? tree = some j)
    (known : j.binder.index < w.binders.size) (single : ¬ item.Binds)
    (done : run (build tree types item) w = (.ok condition, after)) :
    (w.binder j.binder).Fills w.settings [item] [] (after.binder j.binder) := by
  obtain ⟨contained, other⟩ := contained_single types found known single
  rw [(contained.ok _ _ done).binder _ known other]
  exact .refl ..

theorem field_comes {key : Key} {value : Value} (found : w.junction? tree = some j)
    (known : j.binder.index < w.binders.size) (sequenced : (w.binder j.binder).Sequenced first)
    (done : run (build tree types (.field key value)) w = (.ok condition, after)) :
    ∃ bound?, ComesTo w after.toForest (w.binder j.binder).identifier (.field key value)
        ⟨condition, bound?⟩ ∧
      (w.binder j.binder).Fills w.settings [.field key value] bound?.toList
        (after.binder j.binder) := by
  simp only [ComesTo]
  by_cases binds : Item.Binds (.field key value)
  · obtain ⟨_, _, same, membership, flat⟩ := id binds
    cases same
    rw [build] at done
    obtain ⟨made, rfl, built⟩ := ok_of_map done
    rcases run_buildField_binds types found membership flat with
      ⟨type, marked, bound⟩ | ⟨fault, failed⟩ | ⟨fault, grown, failed⟩
    · cases built.symm.trans bound
      refine ⟨_, .inr ⟨binds, _, type, marked, rfl⟩, ?_⟩
      rw [Forest.binder_setBinder, if_pos ⟨rfl, known⟩]
      exact Binder.fills_registered membership sequenced marked
    · cases built.symm.trans failed
    · cases built.symm.trans failed
  · have fills := fills_of_single types found known binds done
    rw [build] at done
    obtain ⟨made, rfl, built⟩ := ok_of_map done
    obtain ⟨type, compared⟩ := buildField_single binds built
    obtain ⟨id, c, rfl, comparison⟩ := comparison_made compared
    exact ⟨none, .inl ⟨binds, id, c, rfl, comparison⟩, fills⟩

end Build

theorem fills_of_error (types : Value) (found : w.junction? tree = some j)
    (known : j.binder.index < w.binders.size)
    (failed : run (build tree types item) w = (.error fault, after)) :
    (w.binder j.binder).Fills w.settings [item] [] (after.binder j.binder) := by
  by_cases binds : item.Binds
  · obtain ⟨key, value, rfl, membership, flat⟩ := binds
    rw [build, run_map_error_iff] at failed
    rcases run_buildField_binds types found membership flat with
      ⟨type, marked, bound⟩ | ⟨fault, unchanged⟩ | ⟨fault, grown, refused⟩
    · cases failed.symm.trans bound
    · cases failed.symm.trans unchanged
      exact .refl ..
    · cases failed.symm.trans refused
      have size : (w.lengthened grown).binders.size = w.binders.size := by
        cases grown with
        | none => rfl
        | some v => rw [Workspace.lengthened, Forest.binders_extendList]
      rw [Forest.binder_setBinder, if_pos ⟨rfl, size ▸ known⟩]
      exact Binder.fills_refused membership
  · obtain ⟨contained, other⟩ := contained_single types found known binds
    obtain ⟨grown, -, around⟩ := contained.error _ _ failed
    rw [around.binder _ known other]
    exact .refl ..

end WorkspaceM

/-! ## Item by item -/

/-- The tree once a list is lengthened by the letters, which may be its list of conditions. -/
def Junction.lengthened (tree : NodeId) (letters : List Value) (grown : Option Value)
    (j : Junction) : Junction :=
  match grown with
  | some (.conditions other stage) => if other = tree then j.appendAt stage letters else j
  | _ => j

theorem Workspace.junction?_lengthened_eq {w : Workspace} {tree : NodeId} {j : Junction}
    (found : w.junction? tree = some j) (grown : Option Value) :
    (w.lengthened grown).junction? tree =
      some (j.lengthened tree w.settings.markerLetters grown) := by
  unfold Junction.lengthened
  split
  · rename_i other stage
    simp only [lengthened, Forest.extendList]
    by_cases same : other = tree
    · subst same
      rw [if_pos rfl, found, Forest.junction?_setNode found, if_pos rfl]
    · rw [if_neg same]
      cases here : w.junction? other with
      | none => exact found
      | some k => exact (Forest.junction?_setNode here ..).trans ((if_neg same).trans found)
  · rename_i other
    cases grown with
    | none => exact found
    | some v =>
        cases v with
        | conditions tree stage => exact absurd rfl (other tree stage)
        | _ => exact found

/-- The items came to the shares: the tree has their conditions, and its binder what is bound for
them. -/
structure Workspace.Adds (tree : NodeId) (j : Junction) (items : List Item) (shares : List Share)
    (w after : Workspace) : Prop where
  comes : AllCome w after.toForest (w.binder j.binder).identifier items shares
  conditions : after.junction? tree =
    some { j with conditions := j.conditions ++ shares.filterMap Share.condition? }
  binder : (w.binder j.binder).Fills w.settings items (shares.filterMap Share.bound?)
    (after.binder j.binder)
  around : w.Around tree j.binder none after

namespace Workspace.Adds

variable {w middle after : Workspace} {tree : NodeId} {j : Junction} {items more : List Item}
  {shares rest : List Share}

theorem refl (found : w.junction? tree = some j) : w.Adds tree j [] [] w where
  comes := rfl
  conditions := by simpa using found
  binder := .refl ..
  around := .refl ..

theorem trans (first : w.Adds tree j items shares middle)
    (second : middle.Adds tree { j with
      conditions := j.conditions ++ shares.filterMap Share.condition? } more rest after)
    (old : tree.index < w.nodes.size) (known : j.binder.index < w.binders.size) :
    w.Adds tree j (items ++ more) (shares ++ rest) after where
  comes := by
    have later := second.comes.lower first.around
    rw [first.binder.identifier] at later
    exact (first.comes.later second.around old known).append later
  conditions := by
    rw [second.conditions, List.filterMap_append, ← List.append_assoc]
  binder := by
    have later := second.binder
    rw [first.around.settings] at later
    rw [List.filterMap_append]
    exact first.binder.trans later
  around := first.around.trans second.around

end Workspace.Adds

namespace WorkspaceM

variable {α : Type} {w after : Workspace} {tree : NodeId} {j : Junction} {types : Value}
  {items : List Item} {item : Item} {word : String} {first : Int} {fault : Fault}

theorem place_adds (found : w.junction? tree = some j) (known : j.binder.index < w.binders.size)
    (builds : ∀ {condition middle}, run (build tree types item) w = (.ok condition, middle) →
      ∃ bound?, ComesTo w middle.toForest (w.binder j.binder).identifier item
          ⟨condition, bound?⟩ ∧
        (w.binder j.binder).Fills w.settings [item] bound?.toList (middle.binder j.binder))
    (done : run (place tree types item) w = (.ok (), after)) :
    ∃ share, w.Adds tree j [item] [share] after := by
  obtain ⟨condition, middle, built, still, binders, attached, now⟩ := run_place types found done
  obtain ⟨bound?, comes, fills⟩ := builds built
  have contained := (contained_build types item found tree fun _ => rfl).ok _ _ built
  refine ⟨⟨condition, bound?⟩, ?_, ?_, ?_, ?_⟩
  · exact ⟨_, [], rfl, comes.later (attached j.binder) (Forest.index_lt_of_tree found) known, rfl⟩
  · cases condition <;> exact now
  · have same : after.binder j.binder = middle.binder j.binder := by
      simp only [Forest.binder, binders]
    cases bound? <;> exact same ▸ fills
  · exact contained.trans (attached j.binder)

/-- A tree that is made for a group holds what its items came to. -/
theorem holding_of_new {next : NodeId → WorkspaceM α} {a : α}
    (done : run (newJunction word >>= fun inner =>
      extend inner types items >>= fun _ => next inner) w = (.ok a, after))
    (fill : ∀ {v last : Workspace} {tree : NodeId} {k : Junction},
      v.junction? tree = some k → k.binder.index < v.binders.size →
        (v.binder k.binder).Sequenced 0 → run (extend tree types items) v = (.ok (), last) →
          ∃ shares, v.Adds tree k items shares last) :
    ∃ last id j shares, run (next id) last = (.ok a, after) ∧ last.Holding w word shares id j ∧
      AllCome w last.toForest (last.binder j.binder).identifier items shares := by
  obtain ⟨inner, made, new, done⟩ := ok_of_bind done
  have sooner : w.Around ⟨w.nodes.size⟩ ⟨w.binders.size⟩ none made :=
    (Contained.newJunction word : Contained _ _ (fun _ => False) _ w).ok _ _ new
  obtain ⟨rfl, found⟩ := found_newJunction _ w new
  have known : w.binders.size < made.binders.size := by
    rw [run_newJunction] at new
    cases new
    simp
  have fresh : made.binder ⟨w.binders.size⟩ = .fresh w.nextIdentifier := by
    rw [run_newJunction] at new
    cases new
    exact (Forest.binder_of_push rfl _).trans (if_pos rfl)
  obtain ⟨_, last, extended, done⟩ := ok_of_bind done
  obtain ⟨shares, adds⟩ := fill found known (fresh ▸ Binder.sequenced_fresh _ 0) extended
  refine ⟨last, _, _, shares, done, ⟨le_rfl, adds.conditions, rfl, rfl, rfl, le_rfl,
    known.trans_le adds.around.binders, ?_⟩, ?_⟩
  · rw [adds.binder.bindings, fresh]
    rfl
  · have comes := adds.comes.lower sooner
    rwa [← adds.binder.identifier] at comes

mutual
/-- The condition of an item is what it comes to, with what is bound for it. -/
theorem build_comes (types : Value) : (item : Item) → {w after : Workspace} → {tree : NodeId} →
    {j : Junction} → {first : Int} → {condition : Option Value} → w.junction? tree = some j →
      j.binder.index < w.binders.size → (w.binder j.binder).Sequenced first →
        run (build tree types item) w = (.ok condition, after) →
          ∃ bound?, ComesTo w after.toForest (w.binder j.binder).identifier item
              ⟨condition, bound?⟩ ∧
            (w.binder j.binder).Fills w.settings [item] bound?.toList (after.binder j.binder)
  | .raw text, _, _, _, _, _, _, found, known, _, done => by
      refine ⟨none, ?_, fills_of_single types found known nofun done⟩
      cases done
      rfl
  | .nested node, _, _, _, _, _, _, found, known, _, done => by
      refine ⟨none, ?_, fills_of_single types found known nofun done⟩
      cases done
      rfl
  | .field key value, _, _, _, _, _, _, found, known, sequenced, done =>
    field_comes found known sequenced done
  | .group connective items, _, _, _, _, _, _, found, known, _, done => by
      refine ⟨none, ?_, fills_of_single types found known nofun done⟩
      rw [build] at done
      rw [ComesTo]
      split at done
      · rename_i empty
        cases done
        exact .inl ⟨List.isEmpty_iff.mp empty, rfl⟩
      · rename_i filled
        obtain ⟨last, id, k, shares, done, holding, comes⟩ :=
          holding_of_new done (extend_adds types items)
        cases done
        exact .inr ⟨by simpa using filled, id, k, shares, rfl, holding, comes⟩
  | .negation items, w, _, tree, j, _, _, found, known, _, done => by
      refine ⟨none, ?_, fills_of_single types found known nofun done⟩
      rw [build] at done
      rw [ComesTo]
      split at done
      · rename_i empty
        cases done
        exact .inl ⟨List.isEmpty_iff.mp empty, rfl⟩
      · rename_i filled
        obtain ⟨_, _, read, done⟩ := ok_of_bind done
        cases read
        obtain ⟨last, id, k, shares, done, holding, comes⟩ :=
          holding_of_new done (extend_adds types items)
        obtain ⟨negation, _, added, done⟩ := ok_of_bind done
        have around : last.Around tree j.binder none _ :=
          (Contained.addNode _ : Contained _ _ (fun _ => False) _ last).ok _ _ added
        have old := Forest.index_lt_of_tree found
        obtain ⟨held, binder⟩ := holding.later around old known
        rw [run_addNode] at added
        cases added
        cases done
        have size : w.nodes.size ≤ last.nodes.size :=
          holding.new.trans (Forest.index_lt_of_tree holding.found).le
        refine .inr ⟨by simpa using filled, _, id, k, shares, rfl, size, ?_, held, ?_⟩
        · exact (Forest.node_of_push rfl _).trans (if_pos rfl)
        · rw [binder]
          exact comes.later around old known

theorem extend_adds (types : Value) : (items : List Item) → {w after : Workspace} →
    {tree : NodeId} → {j : Junction} → {first : Int} → w.junction? tree = some j →
      j.binder.index < w.binders.size → (w.binder j.binder).Sequenced first →
        run (extend tree types items) w = (.ok (), after) →
          ∃ shares, w.Adds tree j items shares after
  | [], _, _, _, _, _, found, _, _, done => by
      cases done
      exact ⟨[], .refl found⟩
  | item :: rest, _, _, _, _, _, found, known, sequenced, done => by
      rw [extend_cons] at done
      obtain ⟨_, middle, placed, extended⟩ := ok_of_bind done
      obtain ⟨share, adds⟩ := place_adds found known
        (build_comes types item found known sequenced) placed
      obtain ⟨shares, later⟩ := extend_adds types rest adds.conditions
        (known.trans_le adds.around.binders) (adds.binder.sequenced sequenced) extended
      exact ⟨share :: shares, adds.trans later (Forest.index_lt_of_tree found) known⟩
end

/-- An item that fails leaves the tree as it is, but for a list that may be lengthened. -/
theorem found_of_error (types : Value) (found : w.junction? tree = some j)
    (failed : run (build tree types item) w = (.error fault, after)) :
    ∃ grown, (∀ v, grown = some v → Lengthens types [item] v) ∧
      after.junction? tree = some (j.lengthened tree w.settings.markerLetters grown) ∧
      w.Around tree j.binder grown after := by
  obtain ⟨grown, declared, spared⟩ :=
    (contained_build types item found ⟨w.nodes.size⟩ fun _ => rfl).error _ _ failed
  refine ⟨grown, declared, ?_, ?_⟩
  · have bound := Forest.index_lt_of_tree found
    have same := spared.node tree bound (by rintro rfl; exact bound.ne rfl)
    rw [Forest.junction?_congr same, Workspace.junction?_lengthened_eq found]
  · exact (Workspace.Around.refl tree j.binder w).trans_lengthened spared (.inr le_rfl) (.inl rfl)

theorem build_of_place_error (types : Value) (found : w.junction? tree = some j)
    (failed : run (place tree types item) w = (.error fault, after)) :
    run (build tree types item) w = (.error fault, after) := by
  refine (error_of_bind failed).resolve_right ?_
  rintro ⟨condition, middle, built, placed⟩
  have spared := (contained_build types item found ⟨w.nodes.size⟩ fun _ => rfl).ok _ _ built
  cases condition with
  | none => cases placed
  | some condition =>
      simp only [run_attach (junction?_of_around found spared)] at placed
      cases placed

/-- Adding the items fails at one of them. -/
theorem error_of_extend (types : Value) (found : w.junction? tree = some j)
    (known : j.binder.index < w.binders.size) (sequenced : (w.binder j.binder).Sequenced first)
    (failed : run (extend tree types items) w = (.error fault, after)) :
    ∃ before item rest shares middle, items = before ++ item :: rest ∧
      run (extend tree types before) w = (.ok (), middle) ∧ w.Adds tree j before shares middle ∧
      run (build tree types item) middle = (.error fault, after) := by
  induction items generalizing w j with
  | nil => cases failed
  | cons item rest ih =>
      rw [extend_cons] at failed
      rcases error_of_bind failed with failed | ⟨_, next, placed, failed⟩
      · exact ⟨[], item, rest, [], w, rfl, rfl, .refl found,
          build_of_place_error types found failed⟩
      · obtain ⟨share, adds⟩ := place_adds found known
          (build_comes types item found known sequenced) placed
        obtain ⟨before, last, rest, shares, middle, rfl, extended, more, failed⟩ :=
          ih adds.conditions (known.trans_le adds.around.binders)
            (adds.binder.sequenced sequenced) failed
        refine ⟨item :: before, last, rest, share :: shares, middle, rfl, ?_,
          adds.trans more (Forest.index_lt_of_tree found) known, failed⟩
        rw [extend_cons, run_bind_ok placed, extended]

end WorkspaceM

/-- What is left by an addition that fails at an item. The items before it are added. Nothing is
left of the item itself but numbers and names that were spent, and a list that may be lengthened. -/
structure Workspace.Partway (tree : NodeId) (j : Junction) (types : Value) (before : List Item)
    (item : Item) (shares : List Share) (grown : Option Value) (w middle after : Workspace) :
    Prop where
  added : w.Adds tree j before shares middle
  lengthens : ∀ v, grown = some v → WorkspaceM.Lengthens types [item] v
  kept : middle.Around tree j.binder grown after
  conditions : after.junction? tree = some (Junction.lengthened tree w.settings.markerLetters grown
    { j with conditions := j.conditions ++ shares.filterMap Share.condition? })
  binder : (w.binder j.binder).Fills w.settings (before ++ [item])
    (shares.filterMap Share.bound?) (after.binder j.binder)
  around : w.Around tree j.binder grown after

namespace WorkspaceM

variable {w middle after : Workspace} {tree : NodeId} {j : Junction} {types : Value}
  {before : List Item} {item : Item} {shares : List Share} {fault : Fault} {first : Int}
  {description : Value}

theorem partway_of_error (added : w.Adds tree j before shares middle)
    (known : j.binder.index < w.binders.size)
    (failed : run (build tree types item) middle = (.error fault, after)) :
    ∃ grown, w.Partway tree j types before item shares grown middle after := by
  obtain ⟨grown, lengthens, conditions, around⟩ := found_of_error types added.conditions failed
  have fills := fills_of_error types added.conditions (known.trans_le added.around.binders) failed
  refine ⟨grown, added, lengthens, around, ?_, ?_, ?_⟩
  · rw [conditions, added.around.settings]
  · rw [added.around.settings] at fills
    simpa using added.binder.trans fills
  · exact added.around.trans_lengthened around (.inl rfl) (.inl rfl)

theorem add_error (found : w.junction? tree = some j) (isOpen : j.compiled = none)
    (known : j.binder.index < w.binders.size) (sequenced : (w.binder j.binder).Sequenced first)
    (failed : run (add tree description types) w = (.error fault, after)) :
    let given := if w.isTruthy types then types else .dict .passing []
    ∃ before item rest read shares middle grown,
      run (Item.read description) w = (.ok (before ++ item :: rest), read) ∧
      run (extend tree given before) read = (.ok (), middle) ∧
      run (build tree given item) middle = (.error fault, after) ∧
      w.Partway tree j given before item shares grown middle after := by
  rw [add, discard_bind, run_bind_ok (run_openJunction found isOpen),
    run_bind_ok (run_read description w)] at failed
  have logs := (Contained.log (Item.eventsOfView w.toForest (w.view description)) :
    Contained tree j.binder (fun _ => False) _ w)
  have read : w.Adds tree j [] []
      (run (log (Item.eventsOfView w.toForest (w.view description))) w).2 :=
    ⟨rfl, by simpa using found, .refl .., logs.ok _ _ rfl⟩
  simp only [run_bind, run_get] at failed
  obtain ⟨before, item, rest, shares, middle, items, extended, more, failed⟩ :=
    error_of_extend _ read.conditions known sequenced failed
  have added := read.trans more (Forest.index_lt_of_tree found) known
  obtain ⟨grown, partway⟩ := partway_of_error added known failed
  exact ⟨before, item, rest, _, shares, middle, grown, items ▸ run_read description w, extended,
    failed, partway⟩

end WorkspaceM

theorem Junction.compiled_lengthened (tree : NodeId) (letters : List Value)
    (grown : Option Value) (j : Junction) :
    (j.lengthened tree letters grown).compiled = j.compiled := by
  unfold lengthened
  split
  · split <;> simp
  · rfl

open WorkspaceM in
/-- In every run, if an addition to an open tree fails, it fails at one of the items of the
description. The items before it are added. -/
theorem add_partway (settings : Settings) (n : Nat) {operations : List Operation}
    (allows : Workspace.Allows .free { settings, nextIdentifier := n } operations) {w : Workspace}
    (ran : w = Workspace.after { settings, nextIdentifier := n } operations) {tree : NodeId}
    {j : Junction} (found : w.junction? tree = some j) (isOpen : j.compiled = none)
    {description types : Value} {fault : Fault} {after : Workspace}
    (failed : run (add tree description types) w = (.error fault, after)) :
    let given := if w.isTruthy types then types else .dict .passing []
    ∃ before item rest read shares middle grown,
      run (Item.read description) w = (.ok (before ++ item :: rest), read) ∧
      run (extend tree given before) read = (.ok (), middle) ∧
      run (build tree given item) middle = (.error fault, after) ∧
      w.Partway tree j given before item shares grown middle after ∧
      IsOpen after tree ∧ after.Sequenced ∧
      (Workspace.Marked settings.multiMarker { settings, nextIdentifier := n } operations →
        ∀ id, (after.binder id).Remembers after.settings) := by
  have start : Workspace.WellMade { settings, nextIdentifier := n } :=
    (Workspace.WellMade.empty n).withSettings settings
  have made : w.WellMade := ran ▸ start.after trivial trivial allows
  have sequenced : w.Sequenced :=
    ran ▸ Workspace.Sequenced.run trivial trivial start (Workspace.sequenced_empty n) allows
  obtain ⟨first, own⟩ := sequenced j.binder
  have known := made.binder tree j found
  obtain ⟨before, item, rest, read, shares, middle, grown, items, extended, failing, partway⟩ :=
    add_error found isOpen known own failed
  have done : (run (add tree description types) w).2 = after := by rw [failed]
  refine ⟨before, item, rest, read, shares, middle, grown, items, extended, failing, partway,
    ⟨_, partway.conditions, ?_⟩, ?_, fun marked id => ?_⟩
  · rw [Junction.compiled_lengthened, isOpen]
  · obtain ⟨_, moves⟩ := acts_add (p := .free) trivial tree description (fun _ _ _ => trivial) made
    exact done ▸ (sequenced.moves moves).1
  · have used := Workspace.used_run (fun _ => Binder.usedBy_fresh _ _ _) marked.calls
    have marker : w.settings.multiMarker = settings.multiMarker := ran ▸ marked.last
    rw [← ran, ← marker] at used
    have later := (uses_add w.settings.looks tree description types w).after ⟨rfl, used⟩
    rw [done] at later
    rw [later.settings]
    exact (later.used id).remembers

/-! ## A test that fails after another one -/

def emptyTree : Workspace :=
  Workspace.after { nextIdentifier := 1 } [.newTree .null .null .null none]

def testsAndGroup : Value := .dict .passing [(.text "a IN", .list .passing [.int 1]),
  (.text "OR", .list .passing [.text "b", .text "c"]), (.text "d IN", .list .passing [.int 2])]

def numberType : Value := .dict .passing [(.text "d", .int 3)]

def halfAdded : Workspace :=
  (WorkspaceM.run (WorkspaceM.add ⟨0⟩ testsAndGroup numberType) emptyTree).2

theorem add_partway_halfAdded :
    Workspace.Allows .free { nextIdentifier := 1 } [.newTree .null .null .null none] ∧
      WorkspaceM.run (WorkspaceM.add ⟨0⟩ testsAndGroup numberType) emptyTree =
        (.error .wrongType, halfAdded) ∧
      (halfAdded.junction? ⟨0⟩).map Junction.conditions =
        some [.text "a IN (:c1_0)", .node ⟨1⟩] ∧
      (halfAdded.binder ⟨0⟩).bindings.map (fun entry => (entry.1, entry.2.fragment)) =
        [(0, "c1_0")] ∧
      ∃ before item rest read shares middle grown,
        WorkspaceM.run (Item.read testsAndGroup) emptyTree = (.ok (before ++ item :: rest), read) ∧
        emptyTree.Partway ⟨0⟩ ⟨.text "AND", [], [], ⟨0⟩, none⟩ numberType before item shares grown
          middle halfAdded ∧
        ∀ id, (halfAdded.binder id).Remembers halfAdded.settings := by
  have allows : Workspace.Allows .free { nextIdentifier := 1 } [.newTree .null .null .null none] :=
    ⟨⟨fun _ _ _ => trivial, by simp⟩, trivial⟩
  have failed : WorkspaceM.run (WorkspaceM.add ⟨0⟩ testsAndGroup numberType) emptyTree =
      (.error .wrongType, halfAdded) := Prod.ext (by decide +kernel) rfl
  have tree : emptyTree.junction? ⟨0⟩ = some ⟨.text "AND", [], [], ⟨0⟩, none⟩ := rfl
  obtain ⟨before, item, rest, read, shares, middle, grown, items, -, -, partway, -, -, remembers⟩ :=
    add_partway {} 1 allows (w := emptyTree) rfl tree rfl failed
  exact ⟨allows, failed, rfl, by decide +kernel, before, item, rest, read, shares,
    middle, grown, items, partway, remembers ⟨rfl, trivial, rfl⟩⟩

/-- A tree to which a value is bound with a type that is given as bytes, and which has a text. -/
def unmarked : Workspace := Workspace.after { nextIdentifier := 1 }
  [.newTree .null .null .null none,
    .register ⟨0⟩ (.text "x") (.list ⟨1⟩ [.int 1]) (.bytes [105, 110, 116, 91, 93]),
    .append ⟨0⟩ (.text "b")]

/-- The conditions of the tree are declared for the type of the first item. They are longer when the
item has failed. What is bound already is for several elements, but the binder does not say so. -/
theorem add_partway_unmarked :
    let test := Value.dict .passing [(.text "a IN", .list .passing [.int 1])]
    let types := Value.dict .passing [(.text "a", .conditions ⟨0⟩ .built)]
    let ended := WorkspaceM.run (WorkspaceM.add ⟨0⟩ test types) unmarked
    ended.1 = .error (.invalid [⟨"type", .notText⟩]) ∧
      (unmarked.junction? ⟨0⟩).map Junction.conditions = some [.text "b"] ∧
      (ended.2.junction? ⟨0⟩).map Junction.conditions = some [.text "b", .text "[", .text "]"] ∧
      (ended.2.binder ⟨0⟩).bindings.any (fun entry => entry.2.isMulti ended.2.settings) = true ∧
      (ended.2.binder ⟨0⟩).expands = false := by
  refine ⟨by decide +kernel, rfl, rfl, by decide +kernel, by decide +kernel⟩

end WhereClause
