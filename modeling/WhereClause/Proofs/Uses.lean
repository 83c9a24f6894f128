import WhereClause.Proofs.Numbering

/-!
# Binders in use

A binder is reserved from, bound to, registered with and expanded, in any order, also by calls that
fail. A number is in one place only: it is kept for a name, or something is bound under it, or it is
spent. What is bound stays as it is.

A made up name ends in the number it was made up with. A client that binds only the names that were
kept for it, each once, and that brings no made up name of its own, has them bound under these
numbers. A name that was handed out without being kept, or that was registered, has no number any
more: binding it takes a new one.

* `uses_numbered`: this is so in every use of a binder, from any first number on.
-/

namespace WhereClause

/-- One call of a binder, with its arguments and the settings in force. -/
inductive Use
  | reserve (settings : Settings) (token : Value) (keeping : Bool)
  | bind (settings : Settings) (name value type : Value)
  | register (settings : Settings) (token value type : Value)
  | expand (forest : Forest) (settings : Settings)

/-- The call keeps no name for a later binding. -/
def Use.Passing : Use → Prop
  | register .. | expand .. => True
  | _ => False

namespace Binder

/-- The binder after a call, whether or not it fails. -/
def use (b : Binder) : Use → Binder
  | .reserve settings token keeping => (b.reserve settings token keeping).2
  | .bind settings name value type => (b.bind settings name value type).2
  | .register settings token value type => (b.register settings token value type).2
  | .expand forest settings => (b.expand forest settings).2

def uses (b : Binder) (calls : List Use) : Binder := calls.foldl use b

/-- The numbers under which something is bound, and those kept for names. -/
def numbers (b : Binder) : List Int := Table.keys b.bindings ++ Table.values b.reserved

/-- Every number is in one place, and was counted from the first one on. -/
structure Sequenced (first : Int) (b : Binder) : Prop where
  start : first ≤ b.count
  distinct : b.numbers.Nodup
  within : ∀ number ∈ b.numbers, first ≤ number ∧ number < b.count

variable {first : Int} {b : Binder}

theorem sequenced_fresh (identifier : String) (first : Int) :
    Sequenced first { identifier, count := first } :=
  ⟨Int.le_refl _, .nil, nofun⟩

/-- Numbers that are given up, and ones that are spent. -/
theorem Sequenced.of_sublist {c : Binder} (sequenced : b.Sequenced first)
    (fewer : c.numbers.Sublist b.numbers) (counted : b.count ≤ c.count) : c.Sequenced first where
  start := sequenced.start.trans counted
  distinct := sequenced.distinct.sublist fewer
  within number member :=
    have known := sequenced.within number (fewer.subset member)
    ⟨known.1, lt_of_lt_of_le known.2 counted⟩

/-- A number that is free and counted is put in its place. -/
theorem Sequenced.of_perm {c : Binder} {number : Int} (sequenced : b.Sequenced first)
    (free : number ∉ b.numbers) (counted : first ≤ number ∧ number < c.count)
    (more : c.numbers.Perm (number :: b.numbers)) (same : b.count ≤ c.count) :
    c.Sequenced first where
  start := sequenced.start.trans same
  distinct := more.nodup_iff.mpr (List.nodup_cons.mpr ⟨free, sequenced.distinct⟩)
  within other member := by
    rcases List.mem_cons.mp (more.mem_iff.mp member) with rfl | before
    · exact counted
    · have known := sequenced.within other before
      exact ⟨known.1, lt_of_lt_of_le known.2 same⟩

theorem Sequenced.free_count (sequenced : b.Sequenced first) : b.count ∉ b.numbers :=
  fun member => lt_irrefl _ (sequenced.within _ member).2

theorem Sequenced.advance (sequenced : b.Sequenced first) : b.advance.Sequenced first :=
  sequenced.of_sublist (.refl _) (Int.le_of_lt (Int.lt_succ _))

theorem Sequenced.reserve (sequenced : b.Sequenced first) (settings : Settings) (token : Value)
    (keeping : Bool) : (b.reserve settings token keeping).2.Sequenced first := by
  cases keeping with
  | false => exact sequenced.advance
  | true =>
      -- The name may be kept already, under a number that is then given up.
      let name := (b.next settings token).name
      let cleared : Binder := { b with reserved := Table.erase name b.reserved }
      have fewer : cleared.numbers.Sublist b.numbers :=
        (Table.sublist_erase.map _).append_left _
      have before := sequenced.of_sublist fewer (Int.le_refl _)
      have put : (Table.values (Table.put name b.count b.reserved)).Perm
          (b.count :: Table.values (Table.erase name b.reserved)) := Table.perm_put.map Prod.snd
      exact before.of_perm before.free_count ⟨sequenced.start, Int.lt_succ _⟩
        ((put.append_left _).trans List.perm_middle) (Int.le_of_lt (Int.lt_succ _))

/-- The number that is taken for a name is free from then on. -/
theorem Sequenced.takeNumber (sequenced : b.Sequenced first) (name : String) :
    let taken := b.takeNumber name
    taken.2.Sequenced first ∧ taken.1 ∉ taken.2.numbers ∧
      first ≤ taken.1 ∧ taken.1 < taken.2.count := by
  unfold Binder.takeNumber
  split
  · rename_i number found
    have parted : b.numbers.Perm (number ::
        numbers { b with reserved := Table.erase name b.reserved }) :=
      (((Table.perm_of_get? found).map Prod.snd).append_left _).trans List.perm_middle
    have apart := List.nodup_cons.mp (parted.nodup_iff.mp sequenced.distinct)
    have known := sequenced.within number (parted.mem_iff.mpr List.mem_cons_self)
    refine ⟨sequenced.of_sublist ?_ (Int.le_refl _), apart.1, known⟩
    exact (Table.sublist_erase.map _).append_left _
  · exact ⟨sequenced.advance, sequenced.free_count, sequenced.start, Int.lt_succ _⟩

theorem bindings_takeNumber (name : String) (b : Binder) :
    (b.takeNumber name).2.bindings = b.bindings := by
  unfold takeNumber
  split <;> rfl

/-- After a name is bound, something is bound under the number taken for it, or that number is
spent. -/
theorem bindName_cases (settings : Settings) (name : String) (value type : Value) (b : Binder) :
    let taken := b.takeNumber name
    let after := (b.bindName settings name value type).2
    after = taken.2 ∨ ∃ declared expands,
      after = { taken.2.record taken.1 ⟨fragmentOf name, value, declared⟩ with expands } := by
  simp only [bindName]
  split
  · split
    · exact .inr ⟨_, _, rfl⟩
    · exact .inr ⟨_, _, rfl⟩
  · exact .inl rfl

theorem Sequenced.bindName (sequenced : b.Sequenced first) (settings : Settings) (name : String)
    (value type : Value) :
    (b.bindName settings name value type).2.Sequenced first ∧
      b.bindings <+: (b.bindName settings name value type).2.bindings := by
  obtain ⟨taken, free, counted⟩ := sequenced.takeNumber name
  have same := bindings_takeNumber name b
  rcases bindName_cases settings name value type b with after | ⟨declared, expands, after⟩
  · rw [after]
    exact ⟨taken, same ▸ List.prefix_rfl⟩
  · rw [after]
    have new : (b.takeNumber name).1 ∉ Table.keys (b.takeNumber name).2.bindings :=
      fun member => free (List.mem_append_left _ member)
    refine ⟨taken.of_perm free counted ?_ (Int.le_refl _), ?_⟩
    · simp only [numbers, record, Table.put_of_not_mem new, Table.keys, List.map_append,
        List.append_assoc]
      exact List.perm_middle
    · simp only [record, Table.put_of_not_mem new, ← same]
      exact List.prefix_append ..

theorem Sequenced.bind (sequenced : b.Sequenced first) (settings : Settings)
    (name value type : Value) :
    (b.bind settings name value type).2.Sequenced first ∧
      b.bindings <+: (b.bind settings name value type).2.bindings := by
  unfold Binder.bind
  split
  · exact sequenced.bindName ..
  · exact ⟨sequenced.advance, List.prefix_rfl⟩
  · split
    · exact ⟨sequenced.advance, List.prefix_rfl⟩
    · exact ⟨sequenced, List.prefix_rfl⟩

/-- A registration is a reservation, followed by a binding of its name. -/
theorem register_eq (settings : Settings) (token value type : Value) (b : Binder) :
    (b.register settings token value type).2 =
      ((b.reserve settings token true).2.bindName settings
        (nameFor settings b.identifier b.count token) value type).2 := rfl

theorem expand_eq (forest : Forest) (settings : Settings) (b : Binder) :
    ∃ n : Nat, (b.expand forest settings).2 = { b with count := b.count + n } :=
  Expansion.ofBindings_binder forest settings b.bindings b

/-- What one call leaves: the numbers are in their places, and what was bound is as it was. -/
theorem Sequenced.use (sequenced : b.Sequenced first) (call : Use) :
    (b.use call).Sequenced first ∧ b.bindings <+: (b.use call).bindings := by
  cases call with
  | reserve settings token keeping =>
      refine ⟨sequenced.reserve settings token keeping, ?_⟩
      cases keeping <;> exact List.prefix_rfl
  | bind settings name value type => exact sequenced.bind settings name value type
  | register settings token value type =>
      have reserved := sequenced.reserve settings token true
      exact reserved.bindName settings (nameFor settings b.identifier b.count token) value type
  | expand forest settings =>
      obtain ⟨n, after⟩ := expand_eq forest settings b
      simp only [Binder.use, after]
      exact ⟨sequenced.of_sublist (.refl _) (by dsimp only; omega), List.prefix_rfl⟩

theorem count_le_use (b : Binder) (call : Use) : b.count ≤ (b.use call).count := by
  cases call with
  | reserve settings token keeping =>
      rw [use, count_reserve]
      omega
  | bind settings name value type => exact count_le_bind ..
  | register settings token value type => exact count_le_register ..
  | expand forest settings =>
      obtain ⟨n, after⟩ := expand_eq forest settings b
      simp only [use, after]
      omega

theorem Sequenced.uses (sequenced : b.Sequenced first) (calls : List Use) :
    (b.uses calls).Sequenced first ∧ b.count ≤ (b.uses calls).count ∧
      b.bindings <+: (b.uses calls).bindings := by
  induction calls generalizing b with
  | nil => exact ⟨sequenced, Int.le_refl _, List.prefix_rfl⟩
  | cons call rest ih =>
      obtain ⟨one, kept⟩ := sequenced.use call
      obtain ⟨all, counted, still⟩ := ih one
      exact ⟨all, (b.count_le_use call).trans counted, kept.trans still⟩

/-! ## Names that are kept -/

theorem reserved_takeNumber (name : String) (b : Binder) :
    (b.takeNumber name).2.reserved = Table.erase name b.reserved := by
  unfold takeNumber
  split
  · rfl
  · rename_i unknown
    exact (Table.erase_of_get?_none unknown).symm

theorem reserved_bindName (settings : Settings) (name : String) (value type : Value)
    (b : Binder) : (b.bindName settings name value type).2.reserved =
      Table.erase name b.reserved := by
  rw [← reserved_takeNumber]
  rcases bindName_cases settings name value type b with after | ⟨declared, expands, after⟩ <;>
    rw [after]
  rfl

/-- A call that keeps no name leaves only names that were kept before. -/
theorem reserved_of_passing {call : Use} (passing : call.Passing) :
    (b.use call).reserved ⊆ b.reserved := by
  cases call with
  | register settings token value type =>
      rw [use, register_eq, reserved_bindName]
      let name := nameFor settings b.identifier b.count token
      show Table.erase name (Table.put name b.count b.reserved) ⊆ b.reserved
      rw [Table.erase_put]
      exact Table.sublist_erase.subset
  | expand forest settings =>
      obtain ⟨n, after⟩ := expand_eq forest settings b
      simp only [use, after]
      exact List.Subset.refl _
  | _ => cases passing

/-! ## Clients -/

/-- The name is one that a binder with the identifier makes up, under the number. -/
def MakesUp (identifier : String) (number : Int) (name : String) : Prop :=
  ∃ settings, name = synthesized settings identifier number

theorem makesUp_inj {identifier name : String} {m n : Int} (left : MakesUp identifier m name)
    (right : MakesUp identifier n name) : m = n := by
  obtain ⟨settings, rfl⟩ := left
  obtain ⟨other, same⟩ := right
  have chars := congrArg String.toList same
  rw [toList_synthesized, toList_synthesized] at chars
  exact (Text.eq_of_madeUp chars).2

/-- The token and the positional mark bring no name of the kind that is made up. -/
structure Foreign (identifier : String) (settings : Settings) (token : Value) : Prop where
  mark : ∀ number, ¬ MakesUp identifier number settings.positionalMark
  written : ∀ s, token = .text s → ∀ number, ¬ MakesUp identifier number s

theorem Foreign.number_eq {identifier : String} {settings : Settings} {token : Value}
    (foreign : Foreign identifier settings token) {number given : Int}
    (makesUp : MakesUp identifier given (nameFor settings identifier number token)) :
    given = number := by
  unfold nameFor at makesUp
  split at makesUp
  · exact absurd makesUp (foreign.mark given)
  · split at makesUp
    · split at makesUp
      · exact absurd makesUp (foreign.written _ rfl given)
      · exact makesUp_inj makesUp ⟨settings, rfl⟩
    · exact makesUp_inj makesUp ⟨settings, rfl⟩

/-- What a client may call that holds the names: a name to bind is one of them. -/
def May (identifier : String) (held : List String) : Use → Prop
  | .reserve settings token _ | .register settings token _ _ => Foreign identifier settings token
  | .bind _ name _ _ => ∃ s ∈ held, name = .text s
  | .expand .. => True

/-- What the client holds after the call: a name that is kept for it is held, and one that it binds
is not. -/
def holds (b : Binder) (held : List String) : Use → List String
  | .reserve settings token true => nameFor settings b.identifier b.count token :: held
  | .bind _ (.text s) _ _ => held.erase s
  | _ => held

/-- The calls are those of a client that binds only what it holds. -/
def Client (b : Binder) (held : List String) : List Use → Prop
  | [] => True
  | call :: rest => May b.identifier held call ∧ (b.use call).Client (b.holds held call) rest

/-- Made up names that a client holds are kept, and what was bound to one is under its number. -/
structure Serves (b : Binder) (held : List String) : Prop where
  kept : ∀ number name, MakesUp b.identifier number name → name ∈ held →
    Table.get? name b.reserved = some number
  once : ∀ number name, MakesUp b.identifier number name → held.count name ≤ 1
  bound : ∀ entry ∈ b.bindings, ∀ number,
    MakesUp b.identifier number (":" ++ entry.2.fragment) → entry.1 = number

variable {held : List String}

theorem serves_fresh (identifier : String) (first : Int) :
    Serves { identifier, count := first } [] :=
  ⟨nofun, fun _ _ _ => Nat.zero_le _, nofun⟩

theorem Serves.of_count (serves : b.Serves held) (count : Int) : Serves { b with count } held :=
  ⟨serves.kept, serves.once, serves.bound⟩

theorem identifier_bindName (settings : Settings) (name : String) (value type : Value)
    (b : Binder) : (b.bindName settings name value type).2.identifier = b.identifier :=
  identifier_bind settings (.text name) value type b

theorem Serves.reserve (sequenced : b.Sequenced first) (serves : b.Serves held)
    {settings : Settings} {token : Value} (foreign : Foreign b.identifier settings token) :
    (b.reserve settings token true).2.Serves
      (nameFor settings b.identifier b.count token :: held) := by
  let name := nameFor settings b.identifier b.count token
  -- A made up name that is handed out now has the next number, which no name is kept under.
  have new (number : Int) (makesUp : MakesUp b.identifier number name) : name ∉ held := by
    intro member
    obtain rfl := foreign.number_eq makesUp
    have entry := Table.mem_of_get? (serves.kept _ _ makesUp member)
    have placed : b.count ∈ Table.values b.reserved := List.mem_map_of_mem entry
    exact sequenced.free_count (List.mem_append_right _ placed)
  have reserved : (b.reserve settings token true).2.reserved =
      Table.put name b.count b.reserved := rfl
  refine ⟨fun number other makesUp member => ?_, fun number other makesUp => ?_, serves.bound⟩
  · rw [reserved, Table.get?_put]
    split
    · rename_i same
      subst same
      rw [foreign.number_eq makesUp]
    · rename_i different
      exact serves.kept number other makesUp
        ((List.mem_cons.mp member).resolve_left (Ne.symm different))
  · by_cases same : name = other
    · subst same
      rw [List.count_cons_self, List.count_eq_zero_of_not_mem (new number makesUp)]
    · rw [List.count_cons_of_ne same]
      exact serves.once number other makesUp

/-- A made up name with a number is not one without a colon. -/
theorem makesUp_fragmentOf {identifier name : String} {number : Int}
    (makesUp : MakesUp identifier number (":" ++ fragmentOf name)) :
    MakesUp identifier number name := by
  have colon : name.toList = ':' :: (fragmentOf name).toList := by
    unfold fragmentOf at makesUp ⊢
    split
    · rename_i rest chars
      rw [chars, String.toList_ofList]
    · rename_i other
      obtain ⟨settings, same⟩ := makesUp
      have chars := congrArg String.toList same
      simp [synthesized] at chars
  have same : ":" ++ fragmentOf name = name := by
    rw [← String.toList_inj, String.toList_append, colon]
    rfl
  exact same ▸ makesUp

theorem Serves.bindName (serves : b.Serves held) (settings : Settings) {name : String}
    (own : ∀ number, MakesUp b.identifier number name →
      Table.get? name b.reserved = some number) (value type : Value) :
    (b.bindName settings name value type).2.Serves (held.erase name) := by
  refine ⟨fun number other makesUp member => ?_, fun number other makesUp => ?_,
    fun entry member number makesUp => ?_⟩
  all_goals rw [identifier_bindName] at makesUp
  · have different : name ≠ other := by
      rintro rfl
      have some' := List.count_pos_iff.mpr member
      have once := serves.once number name makesUp
      rw [List.count_erase_self] at some'
      omega
    rw [reserved_bindName, Table.get?_erase different]
    exact serves.kept number other makesUp (List.mem_of_mem_erase member)
  · exact (List.erase_sublist.count_le other).trans (serves.once number other makesUp)
  · have same := bindings_takeNumber name b
    rcases bindName_cases settings name value type b with after | ⟨declared, expands, after⟩
    · rw [after, same] at member
      exact serves.bound entry member number makesUp
    · rw [after] at member
      rcases Table.mem_put member with rfl | before
      · have found := own number (makesUp_fragmentOf makesUp)
        simp only [takeNumber, found]
      · rw [same] at before
        exact serves.bound entry before number makesUp

theorem Serves.use (sequenced : b.Sequenced first) (serves : b.Serves held) {call : Use}
    (may : May b.identifier held call) : (b.use call).Serves (b.holds held call) := by
  cases call with
  | reserve settings token keeping =>
      cases keeping with
      | true => exact serves.reserve sequenced may
      | false => exact serves.of_count _
  | bind settings name value type =>
      obtain ⟨s, member, rfl⟩ := may
      exact serves.bindName settings
        (fun number makesUp => serves.kept number s makesUp member) value type
  | register settings token value type =>
      let name := nameFor settings b.identifier b.count token
      have reserved := serves.reserve sequenced may
      have bound := reserved.bindName settings
        (fun number makesUp => reserved.kept number name makesUp List.mem_cons_self) value type
      rwa [List.erase_cons_head] at bound
  | expand forest settings =>
      obtain ⟨n, after⟩ := expand_eq forest settings b
      simp only [Binder.use, after]
      exact serves.of_count _

theorem identifier_use (b : Binder) (call : Use) : (b.use call).identifier = b.identifier := by
  cases call with
  | reserve settings token keeping => exact identifier_reserve ..
  | bind settings name value type => exact identifier_bind ..
  | register settings token value type =>
      exact (identifier_bindName ..).trans (identifier_reserve settings token true b)
  | expand forest settings =>
      obtain ⟨n, after⟩ := expand_eq forest settings b
      simp only [use, after]

/-- What a client has bound to a made up name is under its number, in the end. -/
theorem Client.bound (sequenced : b.Sequenced first) (serves : b.Serves held) {calls : List Use}
    (client : b.Client held calls) : ∀ entry ∈ (b.uses calls).bindings, ∀ number,
      MakesUp b.identifier number (":" ++ entry.2.fragment) → entry.1 = number := by
  induction calls generalizing b held with
  | nil => exact serves.bound
  | cons call rest ih =>
      have later := ih (sequenced.use call).1 (serves.use sequenced client.1) client.2
      rwa [identifier_use] at later

/-- Whatever a binder is used for, from any first number on: every number is in one place, counted
from the first one; the count never falls, and what is bound stays as it is; a registration or an
expansion keeps no new name; and what a client binds to a made up name that was kept for it is under
the number of that name. -/
theorem uses_numbered (identifier : String) (first : Int) (calls : List Use) :
    let b := uses { identifier, count := first } calls
    b.Sequenced first ∧
      (∀ more, b.count ≤ (b.uses more).count ∧ b.bindings <+: (b.uses more).bindings) ∧
      (∀ call : Use, call.Passing → (b.use call).reserved ⊆ b.reserved) ∧
      (Client { identifier, count := first } [] calls → ∀ entry ∈ b.bindings, ∀ number,
        MakesUp identifier number (":" ++ entry.2.fragment) → entry.1 = number) := by
  have start := sequenced_fresh identifier first
  have sequenced := (start.uses calls).1
  refine ⟨sequenced, fun more => (sequenced.uses more).2, fun _ => reserved_of_passing, ?_⟩
  exact Client.bound start (serves_fresh identifier first)

theorem Foreign.of_plain (identifier : String) {settings : Settings} {token : Value}
    (mark : settings.positionalMark.toList.head? ≠ some ':')
    (written : ∀ s, token = .text s → s.toList.head? ≠ some ':') :
    Foreign identifier settings token := by
  have colon {number : Int} {name : String} (makesUp : MakesUp identifier number name) :
      name.toList.head? = some ':' := by
    obtain ⟨settings, rfl⟩ := makesUp
    simp [synthesized]
  exact ⟨fun _ makesUp => mark (colon makesUp),
    fun s same _ makesUp => written s same (colon makesUp)⟩

/-- Names that are bound in another order than they were handed out, between a registration and a
binding that fails. -/
def outOfOrder : List Use :=
  [.reserve {} (.text "x") true, .reserve {} (.int 5) true, .reserve {} (.text "y") true,
    .register {} (.text "z") (.int 1) (.int 0), .bind {} (.text ":c1_2") (.int 2) .null,
    .bind {} (.text "?") (.int 3) .null, .bind {} (.text ":c1_0") (.int 4) .null]

theorem client_outOfOrder : Client { identifier := "1", count := 0 } [] outOfOrder := by
  have foreign (s : String) (plain : s.toList.head? ≠ some ':') : Foreign "1" {} (.text s) :=
    .of_plain "1" (by decide) fun _ same => by cases same; exact plain
  refine ⟨foreign "x" (by decide), .of_plain "1" (by decide) nofun, foreign "y" (by decide),
    foreign "z" (by decide), ⟨":c1_2", by decide, rfl⟩, ⟨"?", by decide, rfl⟩,
    ⟨":c1_0", by decide, rfl⟩, trivial⟩

theorem uses_numbered_outOfOrder :
    let b := uses { identifier := "1", count := 0 } outOfOrder
    Client { identifier := "1", count := 0 } [] outOfOrder ∧
      b.bindings.map (fun entry => (entry.1, entry.2.fragment)) =
        [(2, "c1_2"), (1, ""), (0, "c1_0")] ∧
      ∀ entry ∈ b.bindings, ∀ number,
        MakesUp "1" number (":" ++ entry.2.fragment) → entry.1 = number :=
  ⟨client_outOfOrder, by decide, (uses_numbered "1" 0 outOfOrder).2.2.2 client_outOfOrder⟩

/-- A name that is bound though no number is kept for it, or another than its own, is not under its
number: one that was handed out without being kept, one that was registered, and one that the
positional mark was written like. -/
theorem bound_elsewhere :
    let fresh : Binder := { identifier := "1", count := 0 }
    let bound : Binding := ⟨"c1_0", .int 5, none⟩
    let likeMark : Settings := { positionalMark := ":c1_0" }
    let bind : Settings → Use := fun settings => .bind settings (.text ":c1_0") (.int 5) .null
    MakesUp "1" 0 ":c1_0" ∧
      (fresh.reserve {} (.text "x") false).1 = ⟨0, ":c1_0"⟩ ∧
      (fresh.uses [.reserve {} (.text "x") false, bind {}]).bindings = [(1, bound)] ∧
      (fresh.register {} (.text "x") (.int 4) .null).1 = .ok ":c1_0" ∧
      (fresh.uses [.register {} (.text "x") (.int 4) .null, bind {}]).bindings =
        [(0, ⟨"c1_0", .int 4, none⟩), (1, bound)] ∧
      (fresh.reserve likeMark (.text "x") true).1 = ⟨0, ":c1_0"⟩ ∧
      (fresh.uses [.reserve likeMark (.text "x") true, .reserve likeMark (.int 7) true,
        bind likeMark]).bindings = [(1, bound)] :=
  ⟨⟨{}, by decide⟩, by decide, rfl, rfl, rfl, by decide, rfl⟩

end Binder

/-! ## Binders of a workspace -/

namespace Workspace

variable {p : Policy} {w after : Workspace} {trace : List Handout}

/-- A move calls a binder at most once, or makes a new one. -/
theorem binder_of_move (move : Move p w trace after) (id : BinderId) :
    after.binder id = w.binder id ∨ (∃ call, after.binder id = (w.binder id).use call) ∨
      (w.binders.size = id.index ∧
        ∃ identifier first, after.binder id = { identifier, count := first }) := by
  have pushed {b : Binder} (binders : after.binders = w.binders.push b) :
      after.binder id = w.binder id ∨ w.binders.size = id.index ∧ after.binder id = b := by
    rw [Forest.binder_of_push binders]
    split
    · rename_i last
      exact .inr ⟨last.symm, rfl⟩
    · exact .inl rfl
  have called (own : BinderId) (call : Use)
      (changed : after.toForest = w.setBinder own ((w.binder own).use call)) :
      after.binder id = w.binder id ∨ ∃ call, after.binder id = (w.binder id).use call := by
    rw [changed, Forest.binder_setBinder]
    split
    · rename_i same
      exact .inr ⟨call, by rw [same.1]⟩
    · exact .inl rfl
  cases move with
  | adopt builds count =>
      exact (pushed rfl).imp_right fun ⟨last, new⟩ => .inr ⟨last, _, count, new⟩
  | give given identifier count =>
      exact (pushed rfl).imp_right fun ⟨last, new⟩ => .inr ⟨last, identifier, count, new⟩
  | reserve known token keeping =>
      exact (called _ (.reserve w.settings token keeping) rfl).imp_right .inl
  | bind builds known name value type =>
      exact (called _ (.bind w.settings name value type) rfl).imp_right .inl
  | lengthen builds allowed list letters =>
      refine .inl ?_
      simp only [Forest.binder, Forest.binders_extendList]
  | _ => exact .inl rfl

/-- Every binder has its numbers in their places. -/
def Sequenced (w : Workspace) : Prop := ∀ id, ∃ first, (w.binder id).Sequenced first

theorem sequenced_empty (n : Nat) : Sequenced { nextIdentifier := n } :=
  fun _ => ⟨0, Binder.sequenced_fresh "" 0⟩

/-- A move leaves the numbers in their places and what was bound as it was. -/
theorem Sequenced.move (sequenced : w.Sequenced) (move : Move p w trace after) :
    after.Sequenced ∧ ∀ id, (w.binder id).bindings <+: (after.binder id).bindings := by
  refine ⟨fun id => ?_, fun id => ?_⟩
  all_goals
    obtain ⟨first, own⟩ := sequenced id
    rcases binder_of_move move id with same | ⟨call, same⟩ | ⟨last, identifier, start, same⟩ <;>
      rw [same]
  · exact ⟨first, own⟩
  · exact ⟨first, (own.use call).1⟩
  · exact ⟨start, Binder.sequenced_fresh identifier start⟩
  · exact (own.use call).2
  · have none' : w.binder id = { identifier := "" } := by
      simp [Forest.binder, Array.getElem?_eq_none last.le]
    rw [none']

theorem Sequenced.moves (sequenced : w.Sequenced) (moves : Moves p w trace after) :
    after.Sequenced ∧ ∀ id, (w.binder id).bindings <+: (after.binder id).bindings := by
  induction moves with
  | refl => exact ⟨sequenced, fun _ => List.prefix_rfl⟩
  | tail _ move ih =>
      obtain ⟨last, more⟩ := ih.1.move move
      exact ⟨last, fun id => (ih.2 id).trans (more id)⟩

end Workspace
end WhereClause
