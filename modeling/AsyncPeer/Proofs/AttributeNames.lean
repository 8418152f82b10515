/-
# Names of attributes

An attribute is written as a sign, blanks, a name and perhaps arguments.  Names are identifiers with
points between them, and identifiers can have letters of any script (`IsAttributeText`).  Of this name
only the beginning up to the first character that is no letter, digit or underscore of ASCII is compared
with the names of the generators.  So an attribute is taken for that of a generator if its name is the
name of the generator, but also if it goes on behind that name with a point or with a letter of another
script (`exists_site_iff`), and the attribute `Asyncify.Foo` gets a peer (`exists_site_qualified`).
-/
import AsyncPeer.Proofs.Expansion
import AsyncPeer.Proofs.Layout

namespace AsyncPeer.Source

/-! ### How attributes are written -/

/-- The letters, the digits and the underscore of ASCII. -/
def isAsciiWordChar (c : Char) : Bool :=
  c.isAlphanum || c == '_'

/-- The characters of identifiers: of ASCII those of words and the backquote, which encloses an
identifier, and all others that are not blank. -/
def isIdentifierChar (c : Char) : Bool :=
  isAsciiWordChar c || c == '`' || (128 ≤ c.toNat && !Text.isBlank c)

/-- The text consists of identifiers with points between them. -/
def IsQualifiedName (name : Text) : Prop :=
  ∃ words : List Text, words ≠ [] ∧ (∀ w ∈ words, w ≠ [] ∧ w.all isIdentifierChar = true) ∧
    name = Text.join ['.'] words

/-- The text is that of an attribute: the sign, blanks, the name and the arguments, if there are any. -/
structure IsAttributeText (t gap name arguments : Text) : Prop where
  text : t = '@' :: (gap ++ (name ++ arguments))
  blank : gap.blank = true
  qualified : IsQualifiedName name
  enclosed : arguments = [] ∨
    ∃ blanks rest : Text, arguments = blanks ++ '(' :: rest ∧ blanks.blank = true

/-! ### What is compared -/

lemma isBlank_of_isAsciiWordChar {c : Char} (h : isAsciiWordChar c = true) :
    Text.isBlank c = false := by
  by_contra hc
  have hword : (!isAsciiWordChar c) = true :=
    Text.forall_isBlank (p := fun c => !isAsciiWordChar c) (by decide +kernel) (by simpa using hc)
  rw [h] at hword
  cases hword

lemma isBlank_of_isIdentifierChar {c : Char} (h : isIdentifierChar c = true) :
    Text.isBlank c = false := by
  simp only [isIdentifierChar, Bool.or_eq_true, Bool.and_eq_true, beq_iff_eq, Bool.not_eq_true'] at h
  rcases h with (h | rfl) | ⟨-, h⟩
  · exact isBlank_of_isAsciiWordChar h
  · decide
  · exact h

/-- A name begins with a character that is not blank. -/
lemma IsQualifiedName.exists_cons {name : Text} (h : IsQualifiedName name) :
    ∃ c rest, name = c :: rest ∧ Text.isBlank c = false := by
  obtain ⟨words, hwords, hall, rfl⟩ := h
  obtain ⟨w, ws, rfl⟩ := List.exists_cons_of_ne_nil hwords
  obtain ⟨hne, hchars⟩ := hall w List.mem_cons_self
  obtain ⟨c, w, rfl⟩ := List.exists_cons_of_ne_nil hne
  have hblank := isBlank_of_isIdentifierChar (List.all_eq_true.1 hchars c List.mem_cons_self)
  cases ws with
  | nil => exact ⟨c, w, rfl, hblank⟩
  | cons v ws => exact ⟨c, w ++ (['.'] ++ Text.join ['.'] (v :: ws)), by simp [Text.join], hblank⟩

/-- The longest beginning of some class is `w` if the text ends there, or goes on with a character that
is not in the class. -/
lemma takeWhile_eq_iff {α : Type} {p : α → Bool} {w l : List α} (hw : ∀ a ∈ w, p a = true) :
    l.takeWhile p = w ↔ l = w ∨ ∃ a rest, l = w ++ a :: rest ∧ p a = false := by
  constructor
  · rintro rfl
    have hsplit := List.takeWhile_append_dropWhile (p := p) (l := l)
    cases hrest : l.dropWhile p with
    | nil =>
      rw [hrest, List.append_nil] at hsplit
      exact Or.inl hsplit.symm
    | cons a rest =>
      have hstop := List.head?_dropWhile_not p l
      rw [hrest] at hstop
      rw [hrest] at hsplit
      exact Or.inr ⟨a, rest, hsplit.symm, hstop⟩
  · rintro (rfl | ⟨a, rest, rfl, ha⟩)
    · exact List.takeWhile_eq_self_iff.2 hw
    · rw [List.takeWhile_append_of_pos hw, List.takeWhile_cons_of_neg (by simp [ha]), List.append_nil]

/-- What begins with a character outside the class does not make the beginning longer. -/
lemma takeWhile_append_of_head {α : Type} {p : α → Bool} (l : List α) {t : List α}
    (ht : ∀ a ∈ t.head?, p a = false) : (l ++ t).takeWhile p = l.takeWhile p := by
  induction l with
  | nil =>
    cases t with
    | nil => rfl
    | cons a t => exact List.takeWhile_cons_of_neg (by simp [ht a rfl])
  | cons b l ih => rw [List.cons_append, List.takeWhile_cons, List.takeWhile_cons, ih]

lemma isAsciiWordChar_of_mem_name (g : Generator) : ∀ c ∈ g.name, isAsciiWordChar c = true := by
  refine List.all_eq_true.1 ?_
  cases g <;> decide

lemma head?_name (g : Generator) : g.name.head? = some 'A' := by
  cases g <;> rfl

/-- The arguments do not go on with the word that ends in front of them. -/
lemma IsAttributeText.head?_arguments {t gap name arguments : Text}
    (h : IsAttributeText t gap name arguments) :
    ∀ d ∈ arguments.head?, isAsciiWordChar d = false := by
  rcases h.enclosed with rfl | ⟨blanks, behind, rfl, hblanks⟩
  · simp
  · intro d hd
    cases blanks with
    | nil =>
      obtain rfl := Option.some.inj hd
      decide
    | cons e blanks =>
      obtain rfl := Option.some.inj hd
      have he : Text.isBlank e = true := List.all_eq_true.1 hblanks e List.mem_cons_self
      by_contra hword
      rw [isBlank_of_isAsciiWordChar (by simpa using hword)] at he
      cases he

/-- The name in an attribute is read up to the first character that is none of a word. -/
lemma attributeName?_eq_name_iff {t gap name arguments : Text}
    (h : IsAttributeText t gap name arguments) (g : Generator) :
    attributeName? t = some g.name ↔ name.takeWhile isAsciiWordChar = g.name := by
  have hhead := h.head?_arguments
  obtain ⟨rfl, hgap, hname, -⟩ := h
  obtain ⟨c, rest, rfl, hc⟩ := hname.exists_cons
  have hstart : Text.trimStart (gap ++ ((c :: rest) ++ arguments)) = c :: (rest ++ arguments) := by
    rw [Text.trimStart_of_blank_append hgap, List.cons_append, Text.trimStart_cons_of_not_blank hc]
  have hrun : (rest ++ arguments).takeWhile isAsciiWordChar = rest.takeWhile isAsciiWordChar :=
    takeWhile_append_of_head rest hhead
  have hfirst := head?_name g
  simp only [attributeName?, hstart]
  by_cases hletter : (c.isAlpha || c == '_') = true
  · have hword : isAsciiWordChar c = true := by
      simp only [isAsciiWordChar, Char.isAlphanum, Bool.or_eq_true] at hletter ⊢
      tauto
    rw [if_pos hletter, Option.some.injEq, List.takeWhile_cons_of_pos hword, ← hrun]
    rfl
  · rw [if_neg hletter]
    refine iff_of_false (by simp) fun heq => ?_
    -- then the name would begin with a digit, or with no word at all
    rw [← heq, List.takeWhile_cons] at hfirst
    split at hfirst
    · obtain rfl := Option.some.inj hfirst
      exact hletter rfl
    · cases hfirst

/-! ### Which sites are found -/

/-- There is a site at an attribute exactly for the generator that it names. -/
lemma exists_describes_iff {source : Text} {tree : Node} {path : List Nat} {a d : Located}
    (placed : ∀ n ∈ tree.nodes, Placed source n) (h : IsOuterAttribute tree path a)
    (hdecorates : a.Decorates d) {found : List Site} (hfound : sites source tree = .ok found)
    (g : Generator) :
    (∃ s ∈ found, s.Describes source a g d) ↔ NamesGenerator source a.node g := by
  rw [sites_of_placed placed] at hfound
  obtain rfl := Except.ok.inj hfound
  constructor
  · rintro ⟨s, hs, hdescribes⟩
    -- the site may be found at another attribute, but this has the same text
    obtain ⟨b, hb, hsite⟩ := List.mem_filterMap.1 hs
    obtain ⟨k, e, hnames, -, hdescribed⟩ := describes_of_site? placed hb hsite
    rw [NamesGenerator, ← hdescribes.start, ← hdescribes.stop, hdescribed.start, hdescribed.stop,
      ← hdescribes.generator, hdescribed.generator]
    exact hnames
  · intro hnames
    rcases siteAt?_cases (placed a.node (mem_attributesIn h.mem).1) with
      ⟨-, hno⟩ | ⟨k, e, s, hnamed, hattached, hsome, hdescribes⟩
    · exact absurd ⟨g, d, hnames, hdecorates⟩ hno
    · have hk : k = g := by
        obtain ⟨t, ht, hname⟩ := hnames
        obtain ⟨u, hu, hname'⟩ := hnamed
        obtain rfl := Option.some.inj (ht.symm.trans hu)
        exact Generator.name_injective (Option.some.inj (hname'.symm.trans hname))
      have he : e = d := by
        rw [← attachedTo?_eq_some_iff] at hattached hdecorates
        exact Option.some.inj (hattached.symm.trans hdecorates)
      subst hk he
      exact ⟨s, List.mem_filterMap.2 ⟨a, h.mem, by rw [site?, hsome]⟩, hdescribes⟩

/-- **When an attribute is that of a generator.**  An attribute at a declaration has a site for a
generator exactly if its name is the name of the generator, or goes on behind it with a character that
is no letter, digit or underscore of ASCII.  In particular a longer name that goes on with one of these
is another name. -/
theorem exists_site_iff {source : Text} {tree : Node} {path : List Nat} {a d : Located}
    {t gap name arguments : Text} (placed : ∀ n ∈ tree.nodes, Placed source n)
    (h : IsOuterAttribute tree path a) (hdecorates : a.Decorates d)
    (ht : source.slice? a.node.start a.node.stop = some t)
    (hname : IsAttributeText t gap name arguments) :
    ∃ found, sites source tree = .ok found ∧ ∀ g : Generator,
      (∃ s ∈ found, s.Describes source a g d) ↔
        name = g.name ∨ ∃ c rest, name = g.name ++ c :: rest ∧ isAsciiWordChar c = false := by
  refine ⟨_, sites_of_placed placed, fun g => ?_⟩
  have hnames : NamesGenerator source a.node g ↔ attributeName? t = some g.name := by
    rw [NamesGenerator, ht]
    simp only [Option.some.injEq, exists_eq_left']
  rw [exists_describes_iff placed h hdecorates (sites_of_placed placed), hnames,
    attributeName?_eq_name_iff hname, takeWhile_eq_iff (isAsciiWordChar_of_mem_name g)]

/-! ### Attributes with arguments and with qualified names -/

/-- A blank follows the sign, and arguments follow the name. -/
def appliedMark : Text :=
  "@ AsyncifyUnchecked(x) func f() \x7b\x7d\n".toList

/-- The function of this source. -/
def appliedFunction : Node :=
  rule "function_declaration" 0 34
    [rule "modifiers" 0 22 [rule "attribute" 0 22 []], token "func" 23 27,
      rule "simple_identifier" 28 29 [], token "(" 29 30, token ")" 30 31,
      rule "function_body" 32 34 []]

/-- The tree of this source. -/
def appliedTree : Node :=
  rule "source_file" 0 35 [appliedFunction]

/-- The attribute in this tree. -/
def appliedAttribute : Located :=
  ⟨rule "attribute" 0 22 [],
    [rule "modifiers" 0 22 [rule "attribute" 0 22 []], appliedFunction, appliedTree]⟩

theorem exists_site_iff_applied :
    (∀ n ∈ appliedTree.nodes, Placed appliedMark n) ∧
      IsOuterAttribute appliedTree [0, 0, 0] appliedAttribute ∧
      appliedAttribute.Decorates ⟨appliedFunction, [appliedTree]⟩ ∧
      appliedMark.slice? 0 22 = some "@ AsyncifyUnchecked(x)".toList ∧
      IsAttributeText "@ AsyncifyUnchecked(x)".toList [' '] "AsyncifyUnchecked".toList "(x)".toList ∧
      ∃ found, sites appliedMark appliedTree = .ok found ∧ ∀ g : Generator,
        (∃ s ∈ found, s.Describes appliedMark appliedAttribute g ⟨appliedFunction, [appliedTree]⟩) ↔
          "AsyncifyUnchecked".toList = g.name ∨
            ∃ c rest, "AsyncifyUnchecked".toList = g.name ++ c :: rest ∧ isAsciiWordChar c = false := by
  have houter : IsOuterAttribute appliedTree [0, 0, 0] appliedAttribute := ⟨rfl, rfl, by decide⟩
  have hdecorates : appliedAttribute.Decorates ⟨appliedFunction, [appliedTree]⟩ :=
    Or.inr ⟨rule "modifiers" 0 22 [rule "attribute" 0 22 []], rfl, rfl⟩
  have htext : appliedMark.slice? 0 22 = some "@ AsyncifyUnchecked(x)".toList := by decide +kernel
  have hname : IsAttributeText "@ AsyncifyUnchecked(x)".toList [' '] "AsyncifyUnchecked".toList
      "(x)".toList :=
    ⟨rfl, by decide, ⟨["AsyncifyUnchecked".toList], by decide, by decide +kernel, rfl⟩,
      Or.inr ⟨[], "x)".toList, rfl, rfl⟩⟩
  exact ⟨by decide +kernel, houter, hdecorates, htext, hname,
    exists_site_iff (by decide +kernel) houter hdecorates htext hname⟩

/-- The name of the attribute is qualified, and its first part is the name of a generator. -/
def qualifiedMark : Text :=
  "@Asyncify.Foo func f(completion: @escaping (Int) -> Void) \x7b\x7d\n".toList

/-- The function of this source. -/
def qualifiedFunction : Node :=
  rule "function_declaration" 0 60
    [rule "modifiers" 0 13 [rule "attribute" 0 13 []], token "func" 14 18,
      rule "simple_identifier" 19 20 [], token "(" 20 21,
      rule "parameter" 21 56
        [rule "simple_identifier" 21 31 [], token ":" 31 32, rule "parameter_modifiers" 33 42 [],
          rule "function_type" 43 56 []],
      token ")" 56 57, rule "function_body" 58 60 []]

/-- The tree of this source. -/
def qualifiedTree : Node :=
  rule "source_file" 0 61 [qualifiedFunction]

/-- The attribute in this tree. -/
def qualifiedAttribute : Located :=
  ⟨rule "attribute" 0 13 [],
    [rule "modifiers" 0 13 [rule "attribute" 0 13 []], qualifiedFunction, qualifiedTree]⟩

/-- A name that is not that of a generator is taken for one. -/
theorem exists_site_qualified :
    IsOuterAttribute qualifiedTree [0, 0, 0] qualifiedAttribute ∧
      qualifiedAttribute.Decorates ⟨qualifiedFunction, [qualifiedTree]⟩ ∧
      qualifiedMark.slice? 0 13 = some "@Asyncify.Foo".toList ∧
      IsAttributeText "@Asyncify.Foo".toList [] "Asyncify.Foo".toList [] ∧
      (∀ g : Generator, "Asyncify.Foo".toList ≠ g.name) ∧
      ∃ found, sites qualifiedMark qualifiedTree = .ok found ∧
        ∃ s ∈ found, s.Describes qualifiedMark qualifiedAttribute .plain
          ⟨qualifiedFunction, [qualifiedTree]⟩ := by
  have placed : ∀ n ∈ qualifiedTree.nodes, Placed qualifiedMark n := by decide +kernel
  have houter : IsOuterAttribute qualifiedTree [0, 0, 0] qualifiedAttribute := ⟨rfl, rfl, by decide⟩
  have hdecorates : qualifiedAttribute.Decorates ⟨qualifiedFunction, [qualifiedTree]⟩ :=
    Or.inr ⟨rule "modifiers" 0 13 [rule "attribute" 0 13 []], rfl, rfl⟩
  have htext : qualifiedMark.slice? 0 13 = some "@Asyncify.Foo".toList := by decide +kernel
  have hname : IsAttributeText "@Asyncify.Foo".toList [] "Asyncify.Foo".toList [] :=
    ⟨rfl, rfl, ⟨["Asyncify".toList, "Foo".toList], by decide, by decide +kernel, rfl⟩, Or.inl rfl⟩
  have hother : ∀ g : Generator, "Asyncify.Foo".toList ≠ g.name := by
    intro g hg
    have hpoint : '.' ∈ g.name := hg ▸ List.contains_iff_mem.1 rfl
    exact absurd (isAsciiWordChar_of_mem_name g '.' hpoint) (by decide)
  have hfound := sites_of_placed placed
  exact ⟨houter, hdecorates, htext, hname, hother, _, hfound,
    (exists_describes_iff placed houter hdecorates hfound .plain).2 ⟨_, htext, by decide⟩⟩

end AsyncPeer.Source
