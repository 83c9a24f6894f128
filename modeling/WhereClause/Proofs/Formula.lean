import WhereClause.Proofs.Picture

/-!
# Formulas and their texts

A formula is a condition by its connectives, negations and leaves. Its text puts several parts into
parentheses, and whatever is negated. After the text of a formula there comes the end, a closing
parenthesis or a connective between blanks, and none of these can go on a leaf: so a text is read
back in one way only, up to junctions of one part, which do not show.

* `texts_collapse`: junctions of one part do not show.
* `reads`: of two formulas with such an end after them, equal texts are those of one formula.
* `alone_eq_iff`: two formulas have one text exactly if they collapse to one formula.
-/

namespace WhereClause

inductive Formula
  | leaf (text : String)
  | negation (argument : Formula)
  | junction (connective : String) (parts : List Formula)

namespace Formula

mutual
def texts : Formula → Texts
  | leaf s => .wrapping s
  | negation argument => .wrapping ("NOT" ++ " " ++ argument.texts.beside)
  | junction connective parts => .join connective (allTexts parts)

def allTexts : List Formula → List Texts
  | [] => []
  | f :: rest => f.texts :: allTexts rest
end

def gather (connective : String) : List Formula → Formula
  | [f] => f
  | parts => junction connective parts

mutual
/-- The formula with each junction of one part replaced by that part. -/
def collapse : Formula → Formula
  | leaf s => leaf s
  | negation argument => negation argument.collapse
  | junction connective parts => gather connective (allCollapse parts)

def allCollapse : List Formula → List Formula
  | [] => []
  | f :: rest => f.collapse :: allCollapse rest
end

def connectives : List String := ["AND", "OR", "XOR"]

def delimited (connective : String) : List Char := ' ' :: connective.toList ++ [' ']

/-- The text has no parenthesis, and none of its words is a connective. Words end at blanks and at
the ends of the text. -/
def Clean (s : String) : Prop :=
  '(' ∉ s.toList ∧ ')' ∉ s.toList ∧
    ∀ c ∈ connectives, ¬delimited c <:+: ' ' :: s.toList ++ [' ']

mutual
/-- Every leaf is clean, and every junction has a connective and at least one part. -/
def Proper : Formula → Prop
  | leaf s => Clean s
  | negation argument => argument.Proper
  | junction connective parts => connective ∈ connectives ∧ parts ≠ [] ∧ AllProper parts

def AllProper : List Formula → Prop
  | [] => True
  | f :: rest => f.Proper ∧ AllProper rest
end

mutual
/-- The formula is proper, and every junction has several parts. -/
def Collapsed : Formula → Prop
  | leaf s => Clean s
  | negation argument => argument.Collapsed
  | junction connective parts => connective ∈ connectives ∧ 1 < parts.length ∧ AllCollapsed parts

def AllCollapsed : List Formula → Prop
  | [] => True
  | f :: rest => f.Collapsed ∧ AllCollapsed rest
end

theorem allTexts_eq (parts : List Formula) : allTexts parts = parts.map texts := by
  induction parts with
  | nil => rfl
  | cons f rest ih => rw [allTexts, ih, List.map_cons]

theorem texts_gather (connective : String) (parts : List Formula) :
    (gather connective parts).texts = .join connective (allTexts parts) := by
  cases parts with
  | nil => rw [gather, texts]; exact nofun
  | cons f rest =>
      cases rest with
      | nil => rfl
      | cons g rest => rw [gather, texts]; exact nofun

mutual
theorem texts_collapse : (f : Formula) → f.collapse.texts = f.texts
  | leaf s => rfl
  | negation argument => by rw [collapse, texts, texts, texts_collapse argument]
  | junction connective parts => by
      rw [collapse, texts_gather, allTexts_allCollapse parts, texts]

theorem allTexts_allCollapse : (parts : List Formula) →
    allTexts (allCollapse parts) = allTexts parts
  | [] => rfl
  | f :: rest => by
      rw [allCollapse, allTexts, allTexts, texts_collapse f, allTexts_allCollapse rest]
end

theorem collapsed_gather {connective : String} {parts : List Formula}
    (known : connective ∈ connectives) (some' : parts ≠ []) (each : AllCollapsed parts) :
    (gather connective parts).Collapsed := by
  cases parts with
  | nil => contradiction
  | cons f rest =>
      cases rest with
      | nil => exact each.1
      | cons g rest => exact ⟨known, by simp, each⟩

mutual
theorem collapsed_collapse : (f : Formula) → f.Proper → f.collapse.Collapsed
  | leaf _, clean => clean
  | negation argument, proper => collapsed_collapse argument proper
  | junction connective parts, ⟨known, some', each⟩ => by
      refine collapsed_gather known ?_ (allCollapsed_allCollapse parts each)
      cases parts with
      | nil => contradiction
      | cons f rest => exact nofun

theorem allCollapsed_allCollapse : (parts : List Formula) → AllProper parts →
    AllCollapsed (allCollapse parts)
  | [], _ => trivial
  | f :: rest, ⟨first, others⟩ => ⟨collapsed_collapse f first, allCollapsed_allCollapse rest others⟩
end

/-! ## Texts as characters -/

def chars (f : Formula) : List Char := f.texts.alone.toList

def continued (connective : String) (rest : List Formula) : List Char :=
  rest.flatMap fun f => delimited connective ++ f.chars

theorem toList_intercalate (connective : String) (f : Formula) (rest : List Formula) :
    ((" " ++ connective ++ " ").intercalate ((f :: rest).map (·.texts.alone))).toList =
      f.chars ++ continued connective rest := by
  induction rest generalizing f with
  | nil => simp [continued, chars]
  | cons g rest ih =>
      have later := ih g
      rw [List.map_cons] at later ⊢
      rw [List.map_cons, String.intercalate_cons_cons, String.toList_append, later, continued,
        continued, List.flatMap_cons]
      simp [chars, delimited]

theorem toList_parenthesized (s : String) :
    (parenthesized s).toList = '(' :: s.toList ++ [')'] := by
  simp [parenthesized]

theorem chars_negation (f : Formula) :
    (negation f).chars = 'N' :: 'O' :: 'T' :: ' ' :: f.texts.beside.toList := by
  simp [chars, texts, Texts.wrapping]

theorem chars_junction (connective : String) (f g : Formula) (rest : List Formula) :
    (junction connective (f :: g :: rest)).chars =
      '(' :: (f.chars ++ continued connective (g :: rest)) ++ [')'] := by
  rw [← toList_intercalate, ← toList_parenthesized, chars, texts, Texts.alone_join, allTexts_eq,
    List.map_map]
  rfl

/-- What a formula has between its parentheses beside an operator. -/
inductive Row : Formula → String → Formula → List Formula → Prop
  | several {connective : String} {f g : Formula} {rest : List Formula} :
      Row (junction connective (f :: g :: rest)) connective f (g :: rest)
  | single {connective : String} {f : Formula} (other : ∀ c parts, f ≠ junction c parts) :
      Row f connective f []

theorem Row.beside {f first : Formula} {connective : String} {rest : List Formula}
    (row : Row f connective first rest) :
    f.texts.beside.toList = '(' :: (first.chars ++ continued connective rest) ++ [')'] := by
  cases row with
  | several => exact chars_junction ..
  | single other =>
      rw [continued, List.flatMap_nil, List.append_nil]
      cases f with
      | junction c parts => exact absurd rfl (other c parts)
      | leaf s => exact toList_parenthesized s
      | negation argument => exact toList_parenthesized _

theorem Collapsed.row {f : Formula} (collapsed : f.Collapsed) :
    ∃ connective ∈ connectives, ∃ first rest,
      Row f connective first rest ∧ first.Collapsed ∧ AllCollapsed rest := by
  have some' : "AND" ∈ connectives := List.mem_cons_self
  cases f with
  | leaf s => exact ⟨_, some', _, _, .single nofun, collapsed, trivial⟩
  | negation argument => exact ⟨_, some', _, _, .single nofun, collapsed, trivial⟩
  | junction connective parts =>
      obtain ⟨known, several, each⟩ := collapsed
      match parts with
      | [] | [_] => simp at several
      | f :: g :: rest => exact ⟨_, known, _, _, .several, each⟩

/-! ## Reading back -/

/-- What can come after the text of a formula. -/
inductive Stops : List Char → Prop
  | nil : Stops []
  | closing (r : List Char) : Stops (')' :: r)
  | delimited {connective : String} (known : connective ∈ connectives) (r : List Char) :
      Stops (Formula.delimited connective ++ r)

theorem stops_continued {connective : String} (known : connective ∈ connectives)
    (rest : List Formula) (r : List Char) : Stops (continued connective rest ++ ')' :: r) := by
  cases rest with
  | nil => exact .closing r
  | cons f rest =>
      rw [continued, List.flatMap_cons, List.append_assoc, List.append_assoc]
      exact .delimited known _

/-- The text of the formula determines it, whatever comes after. -/
def Reads (f : Formula) : Prop :=
  ∀ g r r', g.Collapsed → Stops r → Stops r' → f.chars ++ r = g.chars ++ r' → f = g ∧ r = r'

def ReadsOn (rest : List Formula) : Prop :=
  ∀ connective ∈ connectives, ∀ other ∈ connectives, ∀ others r r', AllCollapsed others →
    continued connective rest ++ ')' :: r = continued other others ++ ')' :: r' →
    rest = others ∧ r = r' ∧ (rest ≠ [] → connective = other)

theorem readsOn_nil : ReadsOn [] := by
  intro connective _ other _ others r r' _ same
  cases others with
  | nil => exact ⟨rfl, List.tail_eq_of_cons_eq same, nofun⟩
  | cons f others => cases same

theorem delimited_inj {c d : String} (known : c ∈ connectives) (other : d ∈ connectives)
    {r r' : List Char} (same : delimited c ++ r = delimited d ++ r') : c = d ∧ r = r' := by
  simp only [connectives, List.mem_cons, List.not_mem_nil, or_false] at known other
  rcases known with rfl | rfl | rfl <;> rcases other with rfl | rfl | rfl <;>
    simp_all [delimited]

theorem readsOn_cons {f : Formula} {rest : List Formula} (first : f.Reads) (later : ReadsOn rest) :
    ReadsOn (f :: rest) := by
  intro connective known other known' others r r' collapsed same
  cases others with
  | nil => cases same
  | cons g others =>
      simp only [continued, List.flatMap_cons, List.append_assoc] at same
      obtain ⟨rfl, same⟩ := delimited_inj known known' same
      obtain ⟨rfl, after⟩ := first g _ _ collapsed.1 (stops_continued known rest r)
        (stops_continued known others r') same
      obtain ⟨rfl, rfl, -⟩ := later _ known _ known others r r' collapsed.2 after
      exact ⟨rfl, rfl, fun _ => rfl⟩

theorem row_reads {f g : Formula} {rest others : List Formula} {connective other : String}
    {r r' : List Char} (first : f.Reads) (later : ReadsOn rest) (known : connective ∈ connectives)
    (known' : other ∈ connectives) (collapsed : g.Collapsed) (each : AllCollapsed others)
    (same : '(' :: (f.chars ++ continued connective rest) ++ [')'] ++ r =
      '(' :: (g.chars ++ continued other others) ++ [')'] ++ r') :
    f = g ∧ rest = others ∧ r = r' ∧ (rest ≠ [] → connective = other) := by
  simp only [List.cons_append, List.append_assoc, List.cons.injEq, true_and, List.nil_append]
    at same
  obtain ⟨rfl, after⟩ := first g _ _ collapsed (stops_continued known rest r)
    (stops_continued known' others r') same
  exact ⟨rfl, later _ known _ known' others r r' each after⟩

theorem Stops.head {x : Char} {r : List Char} (stops : Stops (x :: r)) : x = ')' ∨ x = ' ' := by
  generalize whole : x :: r = z at stops
  cases stops with
  | nil => cases whole
  | closing => exact .inl (List.head_eq_of_cons_eq whole)
  | delimited => exact .inr (List.head_eq_of_cons_eq whole)

theorem char_of_connective {c : String} (known : c ∈ connectives) :
    ')' ∉ c.toList ∧ ' ' ∉ c.toList := by
  simp only [connectives, List.mem_cons, List.not_mem_nil, or_false] at known
  rcases known with rfl | rfl | rfl <;> decide

/-- Inside a delimited connective, what comes after a clean text does not begin. -/
theorem delimited_split {c : String} (known : c ∈ connectives) {u v r : List Char}
    (split : delimited c = u ++ v) (stops : Stops (v ++ r)) :
    u = [] ∨ v = [] ∨ u ++ [' '] = delimited c := by
  cases v with
  | nil => exact .inr (.inl rfl)
  | cons x v =>
      cases u with
      | nil => exact .inl rfl
      | cons y u =>
          have inner : c.toList ++ [' '] = u ++ x :: v := List.tail_eq_of_cons_eq split
          obtain rfl : ' ' = y := List.head_eq_of_cons_eq split
          obtain ⟨closing, blank⟩ := char_of_connective known
          have place : x ∈ c.toList ++ [' '] := by
            rw [inner]
            exact List.mem_append_right u List.mem_cons_self
          rcases stops.head with rfl | rfl
          · simp [closing] at place
          · rcases List.append_eq_append_iff.mp inner with ⟨m, left, right⟩ | ⟨m, left, right⟩
            · cases m with
              | nil =>
                  rw [List.append_nil] at left
                  exact .inr (.inr (by rw [delimited, left]))
              | cons z m =>
                  have short := congrArg List.length right
                  simp at short
            · cases m with
              | nil =>
                  rw [List.append_nil] at left
                  exact .inr (.inr (by rw [delimited, left]))
              | cons z m =>
                  rw [List.cons_append] at right
                  obtain ⟨rfl, -⟩ := List.cons.inj right
                  exact absurd (left ▸ List.mem_append_right u List.mem_cons_self) blank

/-- Nothing that comes after a clean text goes on as a clean text does. -/
theorem clean_stop {s t : String} {u r : List Char} (clean : Clean t)
    (longer : t.toList = s.toList ++ u) (stops : Stops (u ++ r)) (stops' : Stops r) : u = [] := by
  obtain ⟨-, closing, words⟩ := clean
  have noWord {c : String} (known : c ∈ connectives) {v w : List Char}
      (here : ' ' :: t.toList ++ [' '] = v ++ (delimited c ++ w)) : False :=
    words c known ⟨v, w, by rw [here, List.append_assoc]⟩
  generalize whole : u ++ r = z at stops
  cases stops with
  | nil => exact (List.append_eq_nil_iff.mp whole).1
  | closing z =>
      cases u with
      | nil => rfl
      | cons x u =>
          obtain ⟨rfl, -⟩ := List.cons.inj whole
          exact absurd (longer ▸ List.mem_append_right _ List.mem_cons_self) closing
  | @delimited c known z =>
      -- A leaf that went on into a connective would hold it as a word.
      have inside {v : List Char} (word : u ++ v = delimited c) (ends : v <+: [' ']) : False := by
        obtain ⟨w, ends⟩ := ends
        apply noWord (v := ' ' :: s.toList) (w := w) known
        rw [longer, ← word, ← ends]
        simp
      rcases List.append_eq_append_iff.mp whole with ⟨v, split, rest⟩ | ⟨v, split, -⟩
      · rcases delimited_split known split (rest ▸ stops') with empty | rfl | word
        · exact empty
        · exact (inside (v := []) (by rw [split]) List.nil_prefix).elim
        · exact (inside word List.prefix_rfl).elim
      · refine (noWord (v := ' ' :: s.toList) (w := v ++ [' ']) known ?_).elim
        rw [longer, split]
        simp

theorem not_stops_opening (r : List Char) : ¬Stops ('(' :: r) := by
  intro stops
  rcases stops.head with same | same <;> exact absurd same (by decide)

theorem not_stops_blank_opening (r : List Char) : ¬Stops (' ' :: '(' :: r) := by
  intro stops
  generalize whole : ' ' :: '(' :: r = z at stops
  cases stops with
  | nil => cases whole
  | closing => exact absurd (List.head_eq_of_cons_eq whole) (by decide)
  | delimited known =>
      simp only [connectives, List.mem_cons, List.not_mem_nil, or_false] at known
      rcases known with rfl | rfl | rfl <;> simp [delimited] at whole

theorem leaf_ne {s : String} {r z : List Char} (clean : Clean s) (stops : Stops r) :
    s.toList ++ r ≠ 'N' :: 'O' :: 'T' :: ' ' :: '(' :: z ∧ s.toList ++ r ≠ '(' :: z := by
  obtain ⟨opening, -, -⟩ := clean
  have place (front : List Char) (same : s.toList ++ r = front ++ '(' :: z) :
      ∃ u, u <:+ front ∧ Stops (u ++ '(' :: z) := by
    rcases List.append_eq_append_iff.mp same with ⟨u, split, after⟩ | ⟨u, split, after⟩
    · exact ⟨u, ⟨_, split.symm⟩, after ▸ stops⟩
    · cases u with
      | nil =>
          rw [List.nil_append] at after
          exact ⟨[], List.nil_suffix, after ▸ stops⟩
      | cons x u =>
          obtain ⟨rfl, -⟩ := List.cons.inj after
          exact absurd (split ▸ List.mem_append_right front List.mem_cons_self) opening
  constructor
  · intro same
    obtain ⟨u, suffix, stops⟩ := place ['N', 'O', 'T', ' '] same
    rw [← List.mem_tails] at suffix
    simp only [List.tails, List.mem_cons, List.not_mem_nil, or_false] at suffix
    rcases suffix with rfl | rfl | rfl | rfl | rfl
    · exact absurd stops.head (by decide)
    · exact absurd stops.head (by decide)
    · exact absurd stops.head (by decide)
    · exact not_stops_blank_opening z stops
    · exact not_stops_opening z stops
  · intro same
    obtain ⟨u, suffix, stops⟩ := place [] same
    rw [List.suffix_nil.mp suffix] at stops
    exact not_stops_opening z stops

theorem reads_leaf {s : String} (clean : Clean s) : (leaf s).Reads := by
  intro g r r' collapsed stops stops' same
  rw [show (leaf s).chars = s.toList from rfl] at same
  cases g with
  | leaf t =>
      have same : s.toList ++ r = t.toList ++ r' := same
      rcases List.append_eq_append_iff.mp same with ⟨u, longer, rest⟩ | ⟨u, longer, rest⟩
      · obtain rfl := clean_stop collapsed longer (rest ▸ stops) stops'
        rw [List.append_nil, String.toList_inj] at longer
        exact ⟨longer ▸ rfl, rest⟩
      · obtain rfl := clean_stop clean longer (rest ▸ stops') stops
        rw [List.append_nil, String.toList_inj] at longer
        exact ⟨longer ▸ rfl, rest.symm⟩
  | negation argument =>
      obtain ⟨_, _, _, _, row, -⟩ := Collapsed.row (f := argument) collapsed
      rw [chars_negation, row.beside] at same
      exact absurd same (leaf_ne clean stops).1
  | junction connective parts =>
      obtain ⟨_, _, _, _, row, -⟩ := Collapsed.row collapsed
      cases row with
      | several =>
          rw [chars_junction] at same
          exact absurd same (leaf_ne clean stops).2
      | single other => exact absurd rfl (other connective parts)

theorem Row.unique {a b f : Formula} {c d : String} {rest : List Formula} (row : Row a c f rest)
    (other : Row b d f rest) (same : rest ≠ [] → c = d) : a = b := by
  cases row with
  | several =>
      cases other with
      | several => rw [same nofun]
  | single _ =>
      cases other with
      | single _ => rfl

theorem reads_junction {connective : String} {f g : Formula} {rest : List Formula}
    (known : connective ∈ connectives) (first : f.Reads) (later : ReadsOn (g :: rest)) :
    (junction connective (f :: g :: rest)).Reads := by
  intro h r r' collapsed stops stops' same
  rw [chars_junction] at same
  cases h with
  | leaf s => exact absurd same.symm (leaf_ne collapsed stops').2
  | negation argument =>
      rw [chars_negation] at same
      cases same
  | junction other parts =>
      obtain ⟨_, known', _, _, row, firstCollapsed, others⟩ := Collapsed.row collapsed
      cases row with
      | several =>
          rw [chars_junction] at same
          obtain ⟨rfl, rest', rfl, connective'⟩ :=
            row_reads first later known known' firstCollapsed others same
          rw [rest', connective' nofun]
          exact ⟨rfl, rfl⟩
      | single none' => exact absurd rfl (none' other parts)

theorem reads_negation {a f : Formula} {connective : String} {rest : List Formula}
    (row : Row a connective f rest) (known : connective ∈ connectives) (first : f.Reads)
    (later : ReadsOn rest) : (negation a).Reads := by
  intro h r r' collapsed stops stops' same
  rw [chars_negation, row.beside] at same
  cases h with
  | leaf s => exact absurd same.symm (leaf_ne collapsed stops').1
  | junction other parts =>
      obtain ⟨_, _, _, _, row', -⟩ := Collapsed.row collapsed
      cases row' with
      | several =>
          rw [chars_junction] at same
          cases same
      | single none' => exact absurd rfl (none' other parts)
  | negation b =>
      obtain ⟨_, known', _, _, row', firstCollapsed, others⟩ := Collapsed.row (f := b) collapsed
      rw [chars_negation, row'.beside] at same
      simp only [List.cons_append, List.cons.injEq, true_and] at same
      obtain ⟨rfl, rfl, rfl, connective'⟩ :=
        row_reads first later known known' firstCollapsed others (congrArg ('(' :: ·) same)
      rw [row.unique row' connective']
      exact ⟨rfl, rfl⟩

mutual
theorem reads : (f : Formula) → f.Collapsed → f.Reads
  | leaf _, clean => reads_leaf clean
  | negation (leaf s), clean =>
    reads_negation (.single nofun) List.mem_cons_self (reads_leaf clean) readsOn_nil
  | negation (negation argument), collapsed =>
    reads_negation (.single nofun) List.mem_cons_self (reads (negation argument) collapsed)
      readsOn_nil
  | negation (junction _ (f :: g :: rest)), ⟨known, _, first, others⟩ =>
    reads_negation .several known (reads f first) (readsOn (g :: rest) others)
  | junction _ (f :: g :: rest), ⟨known, _, first, others⟩ =>
    reads_junction known (reads f first) (readsOn (g :: rest) others)
  | junction _ [], ⟨_, several, _⟩ | junction _ [_], ⟨_, several, _⟩
  | negation (junction _ []), ⟨_, several, _⟩ | negation (junction _ [_]), ⟨_, several, _⟩ => by
    simp at several

theorem readsOn : (rest : List Formula) → AllCollapsed rest → ReadsOn rest
  | [], _ => readsOn_nil
  | f :: rest, ⟨first, others⟩ => readsOn_cons (reads f first) (readsOn rest others)
end

theorem alone_eq_iff {f g : Formula} (proper : f.Proper) (proper' : g.Proper) :
    f.texts.alone = g.texts.alone ↔ f.collapse = g.collapse := by
  rw [← texts_collapse f, ← texts_collapse g]
  constructor
  · intro same
    have read := reads _ (collapsed_collapse f proper) g.collapse [] []
      (collapsed_collapse g proper') .nil .nil
    exact (read (congrArg (String.toList · ++ []) same)).1
  · intro same
    rw [same]

end Formula
end WhereClause
