import WhereClause.Proofs.Operations
import WhereClause.Proofs.Options
import WhereClause.Proofs.Placeholders

/-!
# Placeholders that are handed out

Binders take their identifiers from one counter, and each counts what it hands out, so that no two
placeholders come from one binder under one number. Under one stem this makes their names different,
and none is found where another one stands. Under two stems it does not: nothing parts the stem from
the identifier, so that a digit at the end of a stem can stand for the first of an identifier.

* `names_apart`: what is made up under one stem is apart, in every run.
* `names_meet_iff`: when names of two binders are the same, in every run.
-/

namespace WhereClause

namespace Text

/-- The token, looked for as a whole one, is found nowhere in a whole occurrence of the name. -/
def Clear (token name : List Char) : Prop :=
  ∀ before inside after rest, name = before ++ inside → inside ≠ [] → endsWord after = true →
    inside ++ after = token ++ rest → endsWord rest = false

/-- The names are different, and neither is found where the other one stands. -/
def Apart (name other : List Char) : Prop :=
  name ≠ other ∧ Clear name other ∧ Clear other name

/-- A number, as it stands at the end of a name. -/
def numeral (n : Int) : List Char := (toString n).toList

theorem numeral_eq (n : Int) : ∃ sign k, (sign = [] ∨ sign = ['-']) ∧
    numeral n = sign ++ Nat.toDigits 10 k ∧ n = if sign = [] then (k : Int) else -k := by
  cases n with
  | ofNat k => exact ⟨[], k, .inl rfl, by simp [numeral, Int.toString_eq_repr, Int.repr], by simp⟩
  | negSucc k =>
      refine ⟨['-'], k + 1, .inr rfl, by simp [numeral, Int.toString_eq_repr, Int.repr], ?_⟩
      simp [Int.negSucc_eq]

theorem numeral_ne_nil (n : Int) : numeral n ≠ [] := by
  obtain ⟨sign, k, -, same, -⟩ := numeral_eq n
  rw [same]
  simp [Nat.toDigits_ne_nil]

theorem numeral_inj {m n : Int} (same : numeral m = numeral n) : m = n := by
  have noSign (k : Nat) : '-' ∉ Nat.toDigits 10 k := fun member =>
    absurd (isDigit_of_toDigits member) (by decide)
  obtain ⟨sign, k, signs, chars, rfl⟩ := numeral_eq m
  obtain ⟨sign', l, signs', chars', rfl⟩ := numeral_eq n
  rw [chars, chars'] at same
  rcases signs with rfl | rfl <;> rcases signs' with rfl | rfl
  · simp [toDigits_inj same]
  · exact absurd (by simp [show Nat.toDigits 10 k = '-' :: _ from same]) (noSign k)
  · exact absurd (by simp [← show '-' :: _ = Nat.toDigits 10 l from same]) (noSign l)
  · simp [toDigits_inj (List.tail_eq_of_cons_eq same)]

/-- After its first character a number has digits only. -/
theorem isDigit_of_numeral {n : Int} {start rest : List Char} {c : Char}
    (split : numeral n = start ++ c :: rest) (later : start ≠ []) : c.isDigit = true := by
  obtain ⟨sign, k, signs, same, -⟩ := numeral_eq n
  rw [same] at split
  have member : c ∈ Nat.toDigits 10 k := by
    rcases signs with rfl | rfl
    · have digits : Nat.toDigits 10 k = start ++ c :: rest := split
      simp [digits]
    · cases start with
      | nil => exact absurd rfl later
      | cons first start =>
          have digits : Nat.toDigits 10 k = start ++ c :: rest := List.tail_eq_of_cons_eq split
          simp [digits]
  exact isDigit_of_toDigits member

theorem notMem_numeral {c : Char} (notDigit : c.isDigit = false) (notSign : c ≠ '-') (n : Int) :
    c ∉ numeral n := by
  obtain ⟨sign, k, signs, same, -⟩ := numeral_eq n
  rw [same, List.mem_append]
  rintro (member | member)
  · rcases signs with rfl | rfl <;> simp [notSign] at member
  · simp [isDigit_of_toDigits member] at notDigit

/-- A text is split in one way only at the first underscore, and in one way only at the last. -/
theorem split_underscore {first second tail rest : List Char}
    (alone : '_' ∉ first ∧ '_' ∉ second ∨ '_' ∉ tail ∧ '_' ∉ rest)
    (same : first ++ '_' :: tail = second ++ '_' :: rest) : first = second ∧ tail = rest := by
  rcases List.append_eq_append_iff.mp same with ⟨between, rfl, split⟩ | ⟨between, rfl, split⟩
  all_goals cases between with
  | nil => simp_all
  | cons c between =>
      obtain ⟨rfl, split⟩ := List.cons_eq_cons.mp split
      simp_all

/-- A name that is made up: the stem and the identifier stand side by side. -/
def madeUp (stem identifier : List Char) (n : Int) : List Char :=
  ':' :: (stem ++ identifier ++ '_' :: numeral n)

/-- The number can be told from a name, and so can what stands before the underscore. -/
theorem eq_of_madeUp {stem stem' identifier other : List Char} {m n : Int}
    (same : madeUp stem identifier m = madeUp stem' other n) :
    stem ++ identifier = stem' ++ other ∧ m = n := by
  have noMark := notMem_numeral (c := '_') (by decide) (by decide)
  obtain ⟨words, numbers⟩ :=
    split_underscore (.inr ⟨noMark m, noMark n⟩) (List.tail_eq_of_cons_eq same)
  exact ⟨words, numeral_inj numbers⟩

theorem endsWord_of_digit {c : Char} (digit : c.isDigit = true) (rest : List Char) :
    endsWord (c :: rest) = false := by
  simp [endsWord, isWordChar_of_digit digit]

section Names

variable {stem identifier other : List Char} {m n : Int}

theorem notMem_of_digits {c : Char} (notDigit : c.isDigit = false) {digits : List Char}
    (all : ∀ c ∈ digits, c.isDigit = true) : c ∉ digits :=
  fun member => by simp [all c member] at notDigit

theorem clear_madeUp (noColon : ':' ∉ stem) (digits : ∀ c ∈ identifier, c.isDigit = true)
    (digits' : ∀ c ∈ other, c.isDigit = true) (different : identifier ≠ other ∨ m ≠ n) :
    Clear (madeUp stem identifier m) (madeUp stem other n) := by
  intro before inside after rest split present ends found
  -- A name holds one colon, at its start: a token inside it starts where it starts.
  have start : before = [] := by
    by_contra later
    obtain ⟨c, before, rfl⟩ := List.exists_cons_of_ne_nil later
    obtain ⟨d, inside, rfl⟩ := List.exists_cons_of_ne_nil present
    obtain rfl : d = ':' := (List.cons_eq_cons.mp found).1
    have colon : ':' ∈ stem ++ other ++ '_' :: numeral n := by
      simp [List.tail_eq_of_cons_eq split]
    have noColon' := notMem_of_digits (c := ':') (by decide) digits'
    have noColon'' := notMem_numeral (c := ':') (by decide) (by decide) n
    simp [noColon, noColon', noColon''] at colon
  subst start
  rw [List.nil_append] at split
  subst split
  have same : other ++ '_' :: (numeral n ++ after) = identifier ++ '_' :: (numeral m ++ rest) := by
    simpa [madeUp] using found
  have noMark := notMem_of_digits (c := '_') (by decide) digits
  have noMark' := notMem_of_digits (c := '_') (by decide) digits'
  obtain ⟨rfl, numbers⟩ := split_underscore (.inl ⟨noMark', noMark⟩) same
  have apart : m ≠ n := different.resolve_left fun ne => ne rfl
  rcases List.append_eq_append_iff.mp numbers with ⟨more, longer, rfl⟩ | ⟨more, longer, rfl⟩
  · cases more with
    | nil => exact absurd (numeral_inj (longer.trans (List.append_nil _))) apart
    | cons c more =>
        have digit := isDigit_of_numeral longer (numeral_ne_nil n)
        rw [List.cons_append, endsWord_of_digit digit] at ends
        cases ends
  · cases more with
    | nil => exact absurd (numeral_inj (longer.trans (List.append_nil _))).symm apart
    | cons c more =>
        exact endsWord_of_digit (isDigit_of_numeral longer (numeral_ne_nil m)) _

theorem apart_madeUp (noColon : ':' ∉ stem) (digits : ∀ c ∈ identifier, c.isDigit = true)
    (digits' : ∀ c ∈ other, c.isDigit = true) (different : identifier ≠ other ∨ m ≠ n) :
    Apart (madeUp stem identifier m) (madeUp stem other n) := by
  refine ⟨fun same => ?_, clear_madeUp noColon digits digits' different,
    clear_madeUp noColon digits' digits (different.imp Ne.symm Ne.symm)⟩
  -- A name is found in itself.
  have found := clear_madeUp noColon digits digits' different [] (madeUp stem other n) [] [] rfl
    nofun rfl (by simp [same])
  cases found

/-- Names with different identifiers are the same only if one stem is the other with digits that
the identifier then lacks. -/
theorem madeUp_eq_iff {stem' : List Char} (digits : ∀ c ∈ identifier, c.isDigit = true)
    (digits' : ∀ c ∈ other, c.isDigit = true) (different : identifier ≠ other) :
    madeUp stem identifier m = madeUp stem' other n ↔ m = n ∧ ∃ more : List Char, more ≠ [] ∧
      (∀ c ∈ more, c.isDigit = true) ∧
      (stem' = stem ++ more ∧ identifier = more ++ other ∨
        stem = stem' ++ more ∧ other = more ++ identifier) := by
  constructor
  · intro same
    obtain ⟨words, number⟩ := eq_of_madeUp same
    refine ⟨number, ?_⟩
    rcases List.append_eq_append_iff.mp words with ⟨more, rfl, rfl⟩ | ⟨more, rfl, rfl⟩
    · refine ⟨more, fun none' => different (by simp [none']), fun c member => ?_, .inl ⟨rfl, rfl⟩⟩
      exact digits c (by simp [member])
    · refine ⟨more, fun none' => different (by simp [none']), fun c member => ?_, .inr ⟨rfl, rfl⟩⟩
      exact digits' c (by simp [member])
  · rintro ⟨rfl, more, -, -, ⟨rfl, rfl⟩ | ⟨rfl, rfl⟩⟩
    all_goals simp [madeUp]

end Names

end Text

namespace Binder

theorem toList_synthesized (settings : Settings) (identifier : String) (n : Int) :
    (synthesized settings identifier n).toList =
      Text.madeUp settings.placeholderStem.toList identifier.toList n := by
  simp [synthesized, Text.madeUp, Text.numeral]

/-- The identifier and the number can be told from a name, whatever the identifier is. -/
theorem eq_of_synthesized {settings : Settings} {identifier other : String} {m n : Int}
    (same : synthesized settings identifier m = synthesized settings other n) :
    identifier = other ∧ m = n := by
  have chars := congrArg String.toList same
  rw [toList_synthesized, toList_synthesized] at chars
  obtain ⟨words, number⟩ := Text.eq_of_madeUp chars
  exact ⟨String.toList_inj.mp (List.append_cancel_left words), number⟩

end Binder

/-! ## What is handed out in a run -/

namespace Handout

def number (h : Handout) : Int := h.binder.count

def identifier (h : Handout) : String := h.binder.identifier

def stem (h : Handout) : String := h.settings.placeholderStem

/-- The placeholder, which does not depend on whether its number is kept. -/
def name (h : Handout) : String := (h.binder.reserve h.settings h.token true).1.name

/-- The name is made up, and is neither the positional mark nor written in the token already. -/
def MadeUp (h : Handout) : Prop :=
  h.token.isNumeric = false ∧ ∀ s, h.token = .text s → s.toList.head? ≠ some ':'

theorem name_of_madeUp {h : Handout} (madeUp : h.MadeUp) :
    h.name = Binder.synthesized h.settings h.identifier h.number := by
  obtain ⟨notNumeric, notWritten⟩ := madeUp
  show Binder.nameFor h.settings h.identifier h.number h.token = _
  unfold Binder.nameFor
  rw [if_neg (by simp [notNumeric])]
  cases token : h.token with
  | text s => simp [notWritten s token]
  | _ => rfl

theorem toList_name {h : Handout} (madeUp : h.MadeUp) :
    h.name.toList = Text.madeUp h.stem.toList h.identifier.toList h.number := by
  rw [name_of_madeUp madeUp, Binder.toList_synthesized, stem]

end Handout

/-- Only drawn identifiers are in use. -/
def Policy.drawn : Policy where
  argument _ := True
  type _ := True
  untyped := trivial
  given := False
  builds := True
  renders := True

/-- A stem that a placeholder can be recognised with. -/
def Settings.Valid (settings : Settings) : Prop := ':' ∉ settings.placeholderStem.toList

theorem Text.isIdentifierChar_of_start {c : Char}
    (start : (c == '_' || (c.toNat < 128 && c.isAlpha)) = true) : isIdentifierChar c = true := by
  rw [Bool.or_eq_true, beq_iff_eq, Bool.and_eq_true] at start
  rcases start with rfl | ⟨ascii, letter⟩
  · decide
  · rw [isIdentifierChar, if_pos (by simpa using ascii), Char.isAlphanum, letter]
    rfl

theorem Text.notMem_of_isIdentifier {c : Char} (other : isIdentifierChar c = false) {s : List Char}
    (identifier : isIdentifier s = true) : c ∉ s := by
  intro member
  have inside : isIdentifierChar c = true := by
    cases s with
    | nil => cases member
    | cons d rest =>
        simp only [isIdentifier, Bool.and_eq_true, List.all_eq_true] at identifier
        rcases List.mem_cons.mp member with rfl | later
        · exact isIdentifierChar_of_start identifier.1
        · exact identifier.2 c later
  rw [other] at inside
  cases inside

theorem Text.colon_notMem_of_isIdentifier {s : List Char} (identifier : isIdentifier s = true) :
    ':' ∉ s :=
  notMem_of_isIdentifier (by decide) identifier

/-- The stem of settings that were checked is an identifier, which holds no colon. -/
theorem Settings.Sound.valid {settings : Settings} (sound : settings.Sound) : settings.Valid :=
  Text.colon_notMem_of_isIdentifier sound.isIdentifier

namespace Binder

@[simp] theorem identifier_reserve (settings : Settings) (token : Value) (keeping : Bool)
    (b : Binder) : (b.reserve settings token keeping).2.identifier = b.identifier := by
  cases keeping <;> rfl

theorem identifier_takeNumber (name : String) (b : Binder) :
    (b.takeNumber name).2.identifier = b.identifier := by
  unfold takeNumber
  split <;> rfl

theorem identifier_bind (settings : Settings) (name value type : Value) (b : Binder) :
    (b.bind settings name value type).2.identifier = b.identifier := by
  unfold bind
  split
  · rename_i name
    have taken := identifier_takeNumber name b
    simp only [bindName]
    split
    · split <;> exact taken
    · exact taken
  · rfl
  · split <;> rfl

end Binder

namespace Workspace

variable {w after : Workspace} {trace more : List Handout}

/-- Binders have identifiers that were drawn from the counter, each its own. -/
structure Drawn (w : Workspace) : Prop where
  identifier : ∀ id : BinderId, id.index < w.binders.size →
    ∃ k < w.nextIdentifier, (w.binder id).identifier = toString k
  own : ∀ id other : BinderId, id.index < w.binders.size → other.index < w.binders.size →
    (w.binder id).identifier = (w.binder other).identifier → id = other

/-- What binders hold is never taken back: they stay, and their counts do not fall. -/
structure Counts (w after : Workspace) : Prop where
  size : w.binders.size ≤ after.binders.size
  identifier : ∀ id : BinderId, id.index < w.binders.size →
    (after.binder id).identifier = (w.binder id).identifier
  count : ∀ id : BinderId, id.index < w.binders.size →
    (w.binder id).count ≤ (after.binder id).count

theorem Counts.of_binders (binders : after.binders = w.binders) : w.Counts after where
  size := by rw [binders]
  identifier id _ := by simp only [Forest.binder, binders]
  count id _ := by simp only [Forest.binder, binders, le_refl]

theorem Counts.of_push {b : Binder} (binders : after.binders = w.binders.push b) :
    w.Counts after where
  size := by simp [binders]
  identifier id known := by rw [Forest.binder_of_push binders, if_neg known.ne]
  count id known := by rw [Forest.binder_of_push binders, if_neg known.ne]

theorem counts_setBinder {id : BinderId} {b : Binder}
    (identifier : b.identifier = (w.binder id).identifier) (count : (w.binder id).count ≤ b.count) :
    w.Counts { w with toForest := w.setBinder id b } where
  size := by simp [Forest.setBinder]
  identifier other _ := by
    simp only [Forest.binder_setBinder]
    split
    · rename_i same
      rw [identifier, same.1]
    · rfl
  count other _ := by
    simp only [Forest.binder_setBinder]
    split
    · rename_i same
      rwa [← same.1]
    · rfl

theorem Counts.of_move {p : Policy} (move : Move p w trace after) : w.Counts after := by
  cases move with
  | adopt builds count => exact .of_push rfl
  | give given identifier count => exact .of_push rfl
  | reserve known token keeping =>
      apply counts_setBinder
      · exact Binder.identifier_reserve ..
      · rw [Binder.count_reserve]
        omega
  | bind builds known name value type =>
      exact counts_setBinder (Binder.identifier_bind ..) (Binder.count_le_bind ..)
  | lengthen builds allowed list letters =>
      exact .of_binders (Forest.binders_extendList ..)
  | _ => exact .of_binders rfl

theorem Drawn.of_counts (drawn : w.Drawn) (counts : w.Counts after)
    (size : after.binders.size = w.binders.size) (next : w.nextIdentifier ≤ after.nextIdentifier) :
    after.Drawn where
  identifier id known := by
    rw [size] at known
    obtain ⟨k, below, same⟩ := drawn.identifier id known
    exact ⟨k, below.trans_le next, (counts.identifier id known).trans same⟩
  own id other known known' same := by
    rw [size] at known known'
    rw [counts.identifier id known, counts.identifier other known'] at same
    exact drawn.own id other known known' same

theorem toString_inj {m n : Nat} (same : toString m = toString n) : m = n :=
  Nat.repr_injective same

theorem Drawn.adopt (drawn : w.Drawn) (count : Int) : Drawn { w with
    nextIdentifier := w.nextIdentifier + 1
    binders := w.binders.push { identifier := toString w.nextIdentifier, count } } := by
  have binder (id : BinderId) : Forest.binder { w.toForest with
      binders := w.binders.push { identifier := toString w.nextIdentifier, count } } id =
      if id.index = w.binders.size then { identifier := toString w.nextIdentifier, count }
      else w.binder id := Forest.binder_of_push rfl id
  have older {id : BinderId} (known : id.index < (w.binders.push
      { identifier := toString w.nextIdentifier, count }).size) (old : id.index ≠ w.binders.size) :
      id.index < w.binders.size := by
    simp only [Array.size_push] at known
    omega
  -- The identifier drawn last is above all those drawn before.
  have fresh {id : BinderId} (known : id.index < w.binders.size) :
      (w.binder id).identifier ≠ toString w.nextIdentifier := by
    obtain ⟨k, below, same⟩ := drawn.identifier id known
    rw [same]
    exact fun equal => below.ne (toString_inj equal)
  constructor
  · intro id known
    simp only [binder]
    split
    · exact ⟨w.nextIdentifier, Nat.lt_succ_self _, rfl⟩
    · rename_i old
      obtain ⟨k, below, same⟩ := drawn.identifier id (older known old)
      exact ⟨k, below.trans (Nat.lt_succ_self _), same⟩
  · intro id other known known' same
    simp only [binder] at same
    split at same <;> split at same
    · rename_i new new'
      cases id
      cases other
      simp_all
    · rename_i _ old
      exact absurd same.symm (fresh (older known' old))
    · rename_i old _
      exact absurd same (fresh (older known old))
    · rename_i old old'
      exact drawn.own id other (older known old) (older known' old') same

theorem Drawn.move (drawn : w.Drawn) (move : Move .drawn w trace after) : after.Drawn := by
  have counts := Counts.of_move move
  cases move with
  | adopt builds count => exact drawn.adopt count
  | give given => exact given.elim
  | draw builds => exact drawn.of_counts counts rfl (Nat.le_succ _)
  | reserve | bind => exact drawn.of_counts counts (by simp [Forest.setBinder]) le_rfl
  | lengthen builds allowed list letters =>
      exact drawn.of_counts counts (by simp [Forest.binders_extendList]) le_rfl
  | _ => exact drawn.of_counts counts rfl le_rfl

/-- What was handed out so far: each placeholder came from a binder that has moved on since. -/
structure Recorded (trace : List Handout) (w : Workspace) : Prop where
  drawn : w.Drawn
  valid : w.settings.Valid
  known : ∀ h ∈ trace, h.owner.index < w.binders.size
  identifier : ∀ h ∈ trace, h.identifier = (w.binder h.owner).identifier
  number : ∀ h ∈ trace, h.number < (w.binder h.owner).count
  stem : ∀ h ∈ trace, h.settings.Valid
  order : trace.Pairwise fun first second =>
    first.owner = second.owner → first.number < second.number

theorem recorded_empty (n : Nat) : Recorded [] { nextIdentifier := n } where
  drawn := ⟨nofun, nofun⟩
  valid := by simp [Settings.Valid]
  known := nofun
  identifier := nofun
  number := nofun
  stem := nofun
  order := .nil

theorem Recorded.later (recorded : Recorded trace w) (counts : w.Counts after)
    (drawn : after.Drawn) (valid : after.settings.Valid) : Recorded trace after where
  drawn := drawn
  valid := valid
  known h member := (recorded.known h member).trans_le counts.size
  identifier h member := by
    rw [counts.identifier _ (recorded.known h member)]
    exact recorded.identifier h member
  number h member :=
    (recorded.number h member).trans_le (counts.count _ (recorded.known h member))
  stem := recorded.stem
  order := recorded.order

theorem Recorded.move (recorded : Recorded trace w) (move : Move .drawn w more after) :
    Recorded (trace ++ more) after := by
  have drawn := recorded.drawn.move move
  have counts := Counts.of_move move
  cases move with
  | @reserve id known token keeping =>
      have before := recorded.later counts drawn recorded.valid
      have kept : (w.setBinder id ((w.binder id).reserve w.settings token keeping).2).binder id =
          ((w.binder id).reserve w.settings token keeping).2 := by
        simp [Forest.binder_setBinder, known]
      constructor
      · exact drawn
      · exact recorded.valid
      all_goals simp only [List.mem_append, List.mem_singleton, List.pairwise_append]
      · rintro h (member | rfl)
        · exact before.known h member
        · exact known.trans_le counts.size
      · rintro h (member | rfl)
        · exact before.identifier h member
        · simp only [kept, Binder.identifier_reserve]
          rfl
      · rintro h (member | rfl)
        · exact before.number h member
        · simp only [kept, Binder.count_reserve]
          exact Int.lt_succ _
      · rintro h (member | rfl)
        · exact recorded.stem h member
        · exact recorded.valid
      · refine ⟨recorded.order, List.pairwise_singleton _ _, ?_⟩
        rintro h member last rfl rfl
        exact recorded.number h member
  | _ =>
      rw [List.append_nil]
      exact recorded.later counts drawn recorded.valid

theorem Recorded.moves (recorded : Recorded trace w) (moves : Moves .drawn w more after) :
    Recorded (trace ++ more) after := by
  induction moves with
  | refl => rwa [List.append_nil]
  | tail _ move ih =>
      rw [← List.append_assoc]
      exact ih.move move

theorem Recorded.withSettings (recorded : Recorded trace w) {settings : Settings}
    (valid : settings.Valid) : Recorded trace { w with settings } :=
  ⟨⟨recorded.drawn.identifier, recorded.drawn.own⟩, valid, recorded.known, recorded.identifier,
    recorded.number, recorded.stem, recorded.order⟩

theorem valid_perform (made : w.WellMade) (valid : w.settings.Valid) {operation : Operation}
    (fits : operation.Fits .drawn w) : (w.perform operation).settings.Valid := by
  by_cases adjusts : operation.Adjusts
  · obtain ⟨settings, records, same, origin⟩ := forest_of_adjusts (w := w) adjusts
    rw [same]
    rcases origin with rfl | rfl | ⟨options, rfl, updated⟩
    · exact valid
    · simp [Settings.Valid]
    · exact (Settings.sound_update updated).valid
  · obtain ⟨trace, moves⟩ := acts_of_works trivial trivial made fits adjusts
    rwa [settings_of_moves moves]

theorem Recorded.run {operations : List Operation} (recorded : Recorded trace w)
    (made : w.WellMade) (allows : w.Allows .drawn operations)
    (traces : w.Traces .drawn operations more) : Recorded (trace ++ more) (w.after operations) := by
  induction operations generalizing w trace more with
  | nil =>
      obtain rfl : more = [] := traces
      rwa [List.append_nil]
  | cons operation rest ih =>
      obtain ⟨first, later, rfl, moves, traces⟩ := traces
      have next := (recorded.moves moves).withSettings
        (valid_perform made recorded.valid allows.1)
      rw [← List.append_assoc]
      exact ih next (made.perform trivial trivial allows.1) allows.2 traces

/-- Identifiers are digits, and those of two binders are different. -/
theorem Recorded.identifiers (recorded : Recorded trace w) {first second : Handout}
    (member : first ∈ trace) (member' : second ∈ trace) :
    (∀ c ∈ first.identifier.toList, c.isDigit = true) ∧
      (first.identifier.toList = second.identifier.toList → first.owner = second.owner) := by
  have known := recorded.known first member
  have same := recorded.identifier first member
  constructor
  · obtain ⟨k, -, drawn⟩ := recorded.drawn.identifier _ known
    intro c inside
    rw [same, drawn, Nat.toString_eq_repr, Nat.toList_repr] at inside
    exact Text.isDigit_of_toDigits inside
  · intro equal
    rw [String.toList_inj, same, recorded.identifier second member'] at equal
    exact recorded.drawn.own _ _ known (recorded.known second member') equal

/-- In every run, from any value of the counter, names that are made up under one stem are
different, and none is found as a whole placeholder where another one stands. What is handed out is
handed out in moves, and the names are apart however the moves are yields. -/
theorem names_apart (n : Nat) {operations : List Operation}
    (allows : Workspace.Allows .drawn { nextIdentifier := n } operations) :
    (∃ trace, Traces .drawn { nextIdentifier := n } operations trace) ∧
      ∀ trace, Traces .drawn { nextIdentifier := n } operations trace →
        trace.Pairwise fun first second => first.stem = second.stem →
          first.MadeUp → second.MadeUp → Text.Apart first.name.toList second.name.toList := by
  refine ⟨exists_traces trivial trivial (.empty n) allows, fun trace traces => ?_⟩
  have recorded : Recorded trace _ := (recorded_empty n).run (.empty n) allows traces
  refine recorded.order.imp_of_mem ?_
  intro first second member member' order stems madeUp madeUp'
  obtain ⟨digits, owner⟩ := recorded.identifiers member member'
  obtain ⟨digits', -⟩ := recorded.identifiers member' member
  rw [Handout.toList_name madeUp, Handout.toList_name madeUp', ← stems]
  apply Text.apart_madeUp (recorded.stem first member) digits digits'
  by_cases same : first.owner = second.owner
  · exact .inr (order same).ne
  · exact .inl fun equal => same (owner equal)

/-- Two binders, of which the second is made after a placeholder of the first was handed out. -/
def takingTurns : List Operation :=
  [.newBinder none none, .placeholder ⟨0⟩ (.text "a"), .newBinder none none,
    .placeholder ⟨1⟩ (.text "a"), .register ⟨0⟩ (.text "b") .null .null]

theorem allows_takingTurns :
    Workspace.Allows .drawn { nextIdentifier := 1 } takingTurns := by
  refine ⟨.inl rfl, ?_, .inl rfl, ?_, ?_, trivial⟩
  all_goals
    show (_ : Nat) < _
    decide +kernel

theorem names_apart_takingTurns : Workspace.Allows .drawn { nextIdentifier := 1 } takingTurns ∧
    (∃ trace, Traces .drawn { nextIdentifier := 1 } takingTurns trace) ∧
      ∀ trace, Traces .drawn { nextIdentifier := 1 } takingTurns trace →
        trace.Pairwise fun first second => first.stem = second.stem →
          first.MadeUp → second.MadeUp → Text.Apart first.name.toList second.name.toList :=
  ⟨allows_takingTurns, names_apart 1 allows_takingTurns⟩

/-- In every run, names that two binders make up are the same exactly if they have one number, and
one stem is the other with digits at its end that the identifier then starts without. -/
theorem names_meet_iff (n : Nat) {operations : List Operation}
    (allows : Workspace.Allows .drawn { nextIdentifier := n } operations) {trace : List Handout}
    (traces : Traces .drawn { nextIdentifier := n } operations trace) {first second : Handout}
    (member : first ∈ trace) (member' : second ∈ trace) (others : first.owner ≠ second.owner)
    (madeUp : first.MadeUp) (madeUp' : second.MadeUp) :
    first.name = second.name ↔ first.number = second.number ∧ ∃ more : List Char, more ≠ [] ∧
      (∀ c ∈ more, c.isDigit = true) ∧
      (second.stem.toList = first.stem.toList ++ more ∧
          first.identifier.toList = more ++ second.identifier.toList ∨
        first.stem.toList = second.stem.toList ++ more ∧
          second.identifier.toList = more ++ first.identifier.toList) := by
  have recorded : Recorded trace _ := (recorded_empty n).run (.empty n) allows traces
  obtain ⟨digits, owner⟩ := recorded.identifiers member member'
  obtain ⟨digits', -⟩ := recorded.identifiers member' member
  rw [← String.toList_inj, Handout.toList_name madeUp, Handout.toList_name madeUp']
  exact Text.madeUp_eq_iff digits digits' fun equal => others (owner equal)

/-- A binder with the identifier 1, and after nine identifiers that go elsewhere one with 11. -/
def elevenDrawn : List Operation :=
  [.newBinder none none, .takeIdentifier, .takeIdentifier, .takeIdentifier, .takeIdentifier,
    .takeIdentifier, .takeIdentifier, .takeIdentifier, .takeIdentifier, .takeIdentifier,
    .newBinder none none]

/-- The stem changes from `c` to `c1` between two placeholders. -/
def changingStems : List Operation :=
  elevenDrawn ++ [.placeholder ⟨1⟩ (.text "a"), .configure [("placeholder_prefix", .text "c1")],
    .placeholder ⟨0⟩ (.text "a")]

theorem allows_changingStems :
    Workspace.Allows .drawn { nextIdentifier := 1 } changingStems := by
  refine ⟨.inl rfl, trivial, trivial, trivial, trivial, trivial, trivial, trivial, trivial, trivial,
    .inl rfl, ?_, ?_, ?_, trivial⟩
  · show (_ : Nat) < _
    decide +kernel
  · show (Table.keys _).Nodup
    decide
  · show (_ : Nat) < _
    decide +kernel

/-- What is handed out next by a binder. -/
def nextOf (w : Workspace) (id : BinderId) (token : Value) : Handout :=
  ⟨id, w.binder id, w.settings, token⟩

def underOldStem : Handout :=
  nextOf (Workspace.after { nextIdentifier := 1 } elevenDrawn) ⟨1⟩ (.text "a")

def underNewStem : Handout :=
  nextOf (Workspace.after { nextIdentifier := 1 } (changingStems.take 13)) ⟨0⟩ (.text "a")

theorem traces_changingStems : Traces .drawn { nextIdentifier := 1 } changingStems
    [underOldStem, underNewStem] := by
  have adopt (w : Workspace) (rest : List Operation) (trace : List Handout)
      (later : Traces .drawn (w.perform (.newBinder none none)) rest trace) :
      Traces .drawn w (.newBinder none none :: rest) trace :=
    ⟨[], trace, rfl, .single (.adopt trivial 0), later⟩
  have draw (w : Workspace) (rest : List Operation) (trace : List Handout)
      (later : Traces .drawn (w.perform .takeIdentifier) rest trace) :
      Traces .drawn w (.takeIdentifier :: rest) trace :=
    ⟨[], trace, rfl, .single (.draw trivial), later⟩
  have reserve (w : Workspace) (id : BinderId) (known : id.index < w.binders.size) (token : Value)
      (rest : List Operation) (trace : List Handout)
      (later : Traces .drawn (w.perform (.placeholder id token)) rest trace) :
      Traces .drawn w (.placeholder id token :: rest) (nextOf w id token :: trace) :=
    ⟨[_], trace, rfl, .single (.reserve known token true), later⟩
  have adjust (w : Workspace) (options : Options) (rest : List Operation) (trace : List Handout)
      (later : Traces .drawn (w.perform (.configure options)) rest trace) :
      Traces .drawn w (.configure options :: rest) trace := by
    obtain ⟨settings, records, same, -⟩ :=
      forest_of_adjusts (w := w)
        (show (Operation.configure options).Adjusts from .inl ⟨options, rfl⟩)
    refine ⟨[], trace, rfl, ?_, later⟩
    rw [same]
    exact .single (.note records w.nextMark)
  apply adopt
  iterate 9 apply draw
  apply adopt
  apply reserve _ _ (by decide +kernel)
  apply adjust
  exact reserve _ _ (by decide +kernel) _ _ _ rfl

/-- The binders with the identifiers 11 and 1 hand out one name under the stems `c` and `c1`. -/
theorem names_meet_changingStems : underOldStem.owner ≠ underNewStem.owner ∧
    underOldStem.MadeUp ∧ underNewStem.MadeUp ∧ underOldStem.name = underNewStem.name := by
  have others : underOldStem.owner ≠ underNewStem.owner := by decide
  have madeUp (h : Handout) (token : h.token = .text "a") : h.MadeUp := by
    rw [Handout.MadeUp, token]
    refine ⟨by decide +kernel, ?_⟩
    rintro s ⟨⟩
    decide
  have old := madeUp underOldStem rfl
  have new := madeUp underNewStem rfl
  refine ⟨others, old, new, ?_⟩
  apply (names_meet_iff 1 allows_changingStems traces_changingStems (by simp) (by simp) others old
    new).mpr
  exact ⟨by decide +kernel, ['1'], nofun, List.forall_mem_singleton.mpr (by decide),
    .inl ⟨by decide +kernel, by decide +kernel⟩⟩

end Workspace
end WhereClause
