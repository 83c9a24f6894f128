import WhereClause.Proofs.Orders
import WhereClause.Proofs.Servings

/-!
# The numbers of a binder

A binder counts what it hands out, and what it holds or keeps has a number that was counted.
Whatever is done, the entries of a binder have different numbers below its count, so that numbers
from the count on are free.

* `numbered_after`: this is so for every binder, after every run.
-/

namespace WhereClause

namespace Binder

/-- What the binder holds has different numbers, and no number is at its count or above. -/
structure Numbered (b : Binder) : Prop where
  distinct : (Table.keys b.bindings).Nodup
  below : ∀ number ∈ Table.keys b.bindings, number < b.count
  kept : ∀ entry ∈ b.reserved, entry.2 < b.count

theorem numbered_fresh (identifier : String) (count : Int) :
    Numbered { identifier, count } := ⟨.nil, nofun, nofun⟩

variable {b : Binder}

theorem Numbered.advance (numbered : b.Numbered) : b.advance.Numbered where
  distinct := numbered.distinct
  below number member := (numbered.below number member).trans (Int.lt_succ _)
  kept entry member := (numbered.kept entry member).trans (Int.lt_succ _)

theorem Numbered.reserve (numbered : b.Numbered) (settings : Settings) (token : Value)
    (keeping : Bool) : (b.reserve settings token keeping).2.Numbered := by
  cases keeping with
  | false => exact numbered.advance
  | true =>
      refine ⟨numbered.advance.distinct, numbered.advance.below, fun entry member => ?_⟩
      rcases Table.mem_put member with rfl | before
      · exact Int.lt_succ _
      · exact numbered.advance.kept entry before

theorem Numbered.takeNumber (numbered : b.Numbered) (name : String) :
    (b.takeNumber name).2.Numbered ∧ (b.takeNumber name).1 < (b.takeNumber name).2.count := by
  unfold Binder.takeNumber
  split
  · rename_i number found
    refine ⟨⟨numbered.distinct, numbered.below, fun entry member => ?_⟩, ?_⟩
    · exact numbered.kept entry (Table.mem_of_mem_erase member)
    · exact numbered.kept (name, number) (Table.mem_of_get? found)
  · exact ⟨numbered.advance, Int.lt_succ _⟩

theorem Numbered.record (numbered : b.Numbered) {number : Int} (counted : number < b.count)
    (binding : Binding) : (b.record number binding).Numbered where
  distinct := Table.nodup_put numbered.distinct
  below other member := by
    rcases Table.mem_keys_put member with rfl | before
    · exact counted
    · exact numbered.below other before
  kept := numbered.kept

theorem Numbered.note (numbered : b.Numbered) (settings : Settings) (binding : Binding) :
    (b.note settings binding).Numbered :=
  ⟨numbered.distinct, numbered.below, numbered.kept⟩

theorem Numbered.bind (numbered : b.Numbered) (settings : Settings) (name value type : Value) :
    (b.bind settings name value type).2.Numbered := by
  unfold Binder.bind
  split
  · rename_i name
    obtain ⟨taken, counted⟩ := numbered.takeNumber name
    have recorded := taken.record counted
    simp only [bindName]
    split
    · split
      · exact recorded _
      · exact (recorded _).note settings _
    · exact taken
  · exact numbered.advance
  · split
    · exact numbered.advance
    · exact numbered

end Binder

namespace Workspace

variable {p : Policy} {w after : Workspace} {trace : List Handout}

/-- Every binder holds what it holds under numbers that were counted. -/
def Numbered (w : Workspace) : Prop := ∀ id, (w.binder id).Numbered

theorem numbered_empty (n : Nat) : Numbered { nextIdentifier := n } :=
  fun _ => Binder.numbered_fresh _ _

theorem Numbered.push {b : Binder} (numbered : w.Numbered) (own : b.Numbered)
    (binders : after.binders = w.binders.push b) : after.Numbered := by
  intro id
  rw [Forest.binder_of_push binders]
  split
  · exact own
  · exact numbered id

theorem Numbered.setBinder (numbered : w.Numbered) (id : BinderId) {b : Binder}
    (own : b.Numbered) : Numbered { w with toForest := w.setBinder id b } := by
  intro other
  simp only [Forest.binder_setBinder]
  split
  · exact own
  · exact numbered other

theorem Numbered.of_binders (numbered : w.Numbered) (binders : after.binders = w.binders) :
    after.Numbered := by
  intro id
  have same : after.binder id = w.binder id := by simp only [Forest.binder, binders]
  rw [same]
  exact numbered id

theorem Numbered.move (numbered : w.Numbered) (move : Move p w trace after) : after.Numbered := by
  cases move with
  | adopt builds count => exact numbered.push (Binder.numbered_fresh _ count) rfl
  | give given identifier count => exact numbered.push (Binder.numbered_fresh _ count) rfl
  | reserve known token keeping =>
      exact numbered.setBinder _ ((numbered _).reserve w.settings token keeping)
  | bind builds known name value type =>
      exact numbered.setBinder _ ((numbered _).bind w.settings name value type)
  | lengthen builds allowed list letters =>
      exact numbered.of_binders (Forest.binders_extendList ..)
  | _ => exact numbered.of_binders rfl

theorem Numbered.moves (numbered : w.Numbered) (moves : Moves p w trace after) :
    after.Numbered := by
  induction moves with
  | refl => exact numbered
  | tail _ move ih => exact ih.move move

theorem Numbered.run (builds : p.builds) (renders : p.renders) (made : w.WellMade)
    (numbered : w.Numbered) {operations : List Operation} (allows : w.Allows p operations) :
    (w.after operations).Numbered := by
  induction operations generalizing w with
  | nil => exact numbered
  | cons operation rest ih =>
      obtain ⟨trace, moves⟩ := moves_perform builds renders made allows.1
      have later : (w.perform operation).Numbered := (numbered.moves moves).of_binders rfl
      exact ih (made.perform builds renders allows.1) later allows.2

theorem numbered_after (n : Nat) {operations : List Operation}
    (allows : Workspace.Allows .free { nextIdentifier := n } operations) :
    (Workspace.after { nextIdentifier := n } operations).Numbered :=
  (numbered_empty n).run trivial trivial (.empty n) allows

end Workspace
end WhereClause
