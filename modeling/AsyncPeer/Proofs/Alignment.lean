/-
# Entries and arguments stay aligned

The parameters of a peer are written twice, as the entries of its parameter clause and as the
arguments of the call in its body, both with a comma and a blank between neighbours.  Types and default
values are copied into the entries, with any commas, brackets, arrows and string literals that they
have.  If each of them is whole (`Parameter.IsWhole`), then an entry is whole, so that no entry changes
how the next one is read: the two lists come apart into as many pieces as there are parameters, and the
pieces at the same place belong to the same parameter (`forwarding_aligned`).

The pieces of a list are trimmed.  An entry ends in a blank exactly if its default value is given and
has no characters but blanks, and only such an entry differs from its piece.
-/
import AsyncPeer.Proofs.Scopes
import AsyncPeer.Proofs.Unqualified
import AsyncPeer.Proofs.WholeTexts

namespace AsyncPeer

open Spelling

/-! ### The end of a text -/

namespace Text

lemma trimEnd_append_of_trimmed {x t : Text} (ht : t.trim = t) (hblank : t.blank = false) :
    (x ++ t).trimEnd = x ++ t := by
  rw [trimEnd_append_of_not_blank x hblank]
  exact congrArg (x ++ ·) (dropEndWhile_eq_self (getLast?_of_trimmed ht))

lemma trimEnd_append_space_ne (x : Text) : (x ++ [' ']).trimEnd ≠ x ++ [' '] := by
  intro heq
  have hshort : (x ++ [' ']).trimEnd.length ≤ x.length := by
    rw [trimEnd, dropEndWhile_append_of_all (by decide)]
    exact length_trimEnd_le x
  rw [heq, List.length_append, List.length_singleton] at hshort
  omega

end Text

/-! ### Names -/

/-- A text of characters that mean nothing to the scan, without commas, colons and blanks.  Identifiers
are such texts, also in backquotes and with letters of any script. -/
def IsName (t : Text) : Prop :=
  t ≠ [] ∧ ∀ c ∈ t, isPlain c = true ∧ c ≠ ',' ∧ c ≠ ':' ∧ Text.isBlank c = false

lemma isName_of_isIdentifier {t : Text} (h : isIdentifier t = true) : IsName t := by
  refine ⟨ne_nil_of_isIdentifier h, fun c hc => ?_⟩
  have hword := isWordChar_of_isIdentifier h c hc
  refine ⟨(plain_of_isWordChar hword).1, ?_, ?_, Text.isBlank_of_isWordChar hword⟩
  · rintro rfl
    exact absurd hword (by decide +kernel)
  · rintro rfl
    exact absurd hword (by decide +kernel)

namespace IsName

variable {t : Text}

lemma exists_cons (h : IsName t) : ∃ c u, t = c :: u ∧ Text.isBlank c = false := by
  obtain ⟨c, u, rfl⟩ := List.exists_cons_of_ne_nil h.1
  exact ⟨c, u, rfl, (h.2 c List.mem_cons_self).2.2.2⟩

lemma plain (h : IsName t) : ∀ c ∈ t, isPlain c = true ∧ c ≠ ',' := fun c hc =>
  ⟨(h.2 c hc).1, (h.2 c hc).2.1⟩

lemma trim (h : IsName t) : t.trim = t :=
  Text.trim_eq_self (fun c hc => (h.2 c (List.mem_of_head? hc)).2.2.2)
    (fun c hc => (h.2 c (List.mem_of_getLast? hc)).2.2.2)

lemma balanced {sep : Char} (h : IsName t) (hsep : sep = ',' ∨ sep = ':') : Balanced (· ≠ sep) t := by
  refine .of_forall fun c hc => ?_
  obtain ⟨hplain, hcomma, hcolon, -⟩ := h.2 c hc
  rcases hsep with rfl | rfl
  · exact ⟨hplain, hcomma⟩
  · exact ⟨hplain, hcolon⟩

end IsName

/-! ### Whole entries -/

/-- The names of the parameter are names, and its type and its default value are whole. -/
structure Parameter.IsWhole (p : Parameter) : Prop where
  label : ∀ l ∈ p.label, IsName l
  name : IsName p.name
  type : Whole p.type
  defaultValue : ∀ v ∈ p.defaultValue, Whole v

namespace Parameter

/-- The names of an entry: the label, if it differs, and the name. -/
def writtenNames (p : Parameter) : Text :=
  match p.label with
  | some label => if label = p.name then p.name else label ++ ' ' :: p.name
  | none => p.name

/-- The entry up to its default value. -/
def front (p : Parameter) : Text :=
  p.writtenNames ++ ": ".toList ++ p.type.squeeze

lemma declared_eq_front (p : Parameter) :
    p.declared = p.front ++ (p.defaultValue.map fun v => " = ".toList ++ v.trim).getD [] := by
  rw [declared, front, writtenNames]
  cases p.defaultValue <;> rfl

namespace IsWhole

variable {p : Parameter}

lemma exists_writtenNames_cons (hp : p.IsWhole) :
    ∃ c t, p.writtenNames = c :: t ∧ Text.isBlank c = false := by
  rw [writtenNames]
  cases hlabel : p.label with
  | none => exact hp.name.exists_cons
  | some label =>
    dsimp only
    split
    · exact hp.name.exists_cons
    · obtain ⟨c, u, rfl, hc⟩ := (hp.label label hlabel).exists_cons
      exact ⟨c, u ++ ' ' :: p.name, rfl, hc⟩

lemma plain_writtenNames (hp : p.IsWhole) : ∀ c ∈ p.writtenNames, isPlain c = true ∧ c ≠ ',' := by
  rw [writtenNames]
  cases hlabel : p.label with
  | none => exact hp.name.plain
  | some label =>
    dsimp only
    split
    · exact hp.name.plain
    · have hname : ∀ c ∈ ' ' :: p.name, isPlain c = true ∧ c ≠ ',' :=
        List.forall_mem_cons.2 ⟨by decide, hp.name.plain⟩
      exact List.forall_mem_append.2 ⟨(hp.label label hlabel).plain, hname⟩

/-- Up to the default value an entry is whole. -/
lemma front (hp : p.IsWhole) : Whole p.front := by
  have hcolon : Whole (p.writtenNames ++ [':']) :=
    .of_plain (List.forall_mem_append.2 ⟨hp.plain_writtenNames, by simp [isPlain, isOpening, isClosing]⟩)
  have hsplit : p.front = (p.writtenNames ++ [':']) ++ ' ' :: p.type.squeeze := by
    rw [Parameter.front]
    simp
  rw [hsplit]
  exact hcolon.spaced hp.type.squeeze

/-- An entry is whole. -/
lemma declared (hp : p.IsWhole) : Whole p.declared := by
  rw [declared_eq_front]
  cases hvalue : p.defaultValue with
  | none =>
    rw [Option.map_none, Option.getD_none, List.append_nil]
    exact hp.front
  | some v =>
    have hsign : Whole ['='] := .of_plain (by simp [isPlain, isOpening, isClosing])
    exact hp.front.spaced (hsign.spaced (hp.defaultValue v hvalue).trim)

/-- An entry does not begin with a blank. -/
lemma exists_declared_cons (hp : p.IsWhole) : ∃ c t, p.declared = c :: t ∧ Text.isBlank c = false := by
  obtain ⟨c, t, hnames, hc⟩ := hp.exists_writtenNames_cons
  rw [declared_eq_front, Parameter.front, hnames]
  exact ⟨c, _, rfl, hc⟩

lemma trim_declared (hp : p.IsWhole) : p.declared.trim = p.declared.trimEnd := by
  obtain ⟨c, t, ht, hc⟩ := hp.exists_declared_cons
  rw [Text.trim, ht, Text.trimStart_cons_of_not_blank hc]

lemma blank_declared (hp : p.IsWhole) : p.declared.blank = false := by
  obtain ⟨c, t, ht, hc⟩ := hp.exists_declared_cons
  rw [ht, Text.blank, List.all_cons, hc, Bool.false_and]

end IsWhole

lemma type_of_obstacle?_eq_none {p : Parameter} (h : p.obstacle? = none) : p.type.blank = false := by
  rw [← Bool.not_eq_true]
  intro htype
  rw [obstacle?, if_pos htype] at h
  split at h <;> cases h

/-- An entry ends in a blank exactly if a default value is given that has nothing else. -/
lemma trimEnd_declared_iff {p : Parameter} (htype : p.type.blank = false) :
    p.declared.trimEnd = p.declared ↔ ∀ v ∈ p.defaultValue, v.blank = false := by
  rw [declared_eq_front]
  cases p.defaultValue with
  | none =>
    refine iff_of_true ?_ (by simp)
    rw [Option.map_none, Option.getD_none, List.append_nil, front]
    exact Text.trimEnd_append_of_trimmed (Text.trim_squeeze _) ((Text.blank_squeeze _).trans htype)
  | some v =>
    rw [Option.map_some, Option.getD_some]
    cases hv : v.blank with
    | true =>
      -- behind the sign `=` nothing is written but the blank
      have hsplit : p.front ++ (" = ".toList ++ v.trim) = (p.front ++ " =".toList) ++ [' '] := by
        rw [Text.trim_eq_nil_iff.2 hv]
        simp
      refine iff_of_false ?_ (by simp [hv])
      rw [hsplit]
      exact Text.trimEnd_append_space_ne _
    | false =>
      refine iff_of_true ?_ (by simpa using hv)
      rw [← List.append_assoc]
      exact Text.trimEnd_append_of_trimmed (Text.trim_trim v) ((Text.blank_trim v).trans hv)

end Parameter

/-! ### Arguments -/

/-- The label of the argument, if it has one, is a name, and so is its value. -/
structure Argument.IsPlain (a : Argument) : Prop where
  label : ∀ l ∈ a.label, IsName l
  value : IsName a.value

namespace Argument.IsPlain

variable {a : Argument}

lemma balanced (h : a.IsPlain) : Balanced (· ≠ ',') a.text := by
  rw [Argument.text]
  cases hlabel : a.label with
  | none => exact h.value.balanced (Or.inl rfl)
  | some label =>
    exact .append (.append ((h.label label hlabel).balanced (Or.inl rfl)) (.of_all (by decide)))
      (h.value.balanced (Or.inl rfl))

lemma trim (h : a.IsPlain) : a.text.trim = a.text := by
  rw [Argument.text]
  cases hlabel : a.label with
  | none => exact h.value.trim
  | some label =>
    have hname := h.label label hlabel
    dsimp only
    refine Text.trim_eq_self (fun c hc => ?_) (fun c hc => ?_)
    · rw [List.append_assoc, List.head?_append_of_ne_nil _ hname.1] at hc
      exact Text.head?_of_trimmed hname.trim c hc
    · rw [List.getLast?_append_of_ne_nil _ h.value.1] at hc
      exact Text.getLast?_of_trimmed h.value.trim c hc

lemma text_ne_nil (h : a.IsPlain) : a.text ≠ [] := by
  rw [Argument.text]
  cases a.label with
  | none => exact h.value.1
  | some label => exact List.append_ne_nil_of_right_ne_nil _ h.value.1

lemma blank (h : a.IsPlain) : a.text.blank = false := by
  rw [← Bool.not_eq_true, ← Text.trim_eq_nil_iff, h.trim]
  exact h.text_ne_nil

/-- At its colon an argument comes apart into its label and its value. -/
lemma pieces_text (h : a.IsPlain) : pieces ':' a.text = a.label.toList ++ [a.value] := by
  have hvalue : Balanced (· ≠ ':') a.value := h.value.balanced (Or.inr rfl)
  rw [pieces, h.blank, if_neg Bool.false_ne_true, Argument.text]
  cases hlabel : a.label with
  | none =>
    have hsegments : segments ':' (outermost (Text.join [':'] [a.value])) = [a.value] :=
      segments_join (by decide) rfl (List.forall_mem_singleton.2 hvalue)
    exact (congrArg (List.map Text.trim) hsegments).trans (congrArg ([·]) h.value.trim)
  | some label =>
    have hname := h.label label hlabel
    have hparts : ∀ y ∈ [label, [' '] ++ a.value], Balanced (· ≠ ':') y := by
      have hspaced : Balanced (· ≠ ':') ([' '] ++ a.value) :=
        .append (.plain (by decide) (by decide)) hvalue
      exact List.forall_mem_cons.2
        ⟨hname.balanced (Or.inr rfl), List.forall_mem_singleton.2 hspaced⟩
    have hjoin : label ++ ": ".toList ++ a.value = Text.join [':'] [label, [' '] ++ a.value] := by
      rw [Text.join_cons_cons, List.append_assoc, List.append_assoc]
      rfl
    have hsegments : segments ':' (outermost (Text.join [':'] [label, [' '] ++ a.value])) =
        [label, [' '] ++ a.value] := segments_join (by decide) rfl hparts
    dsimp only
    rw [hjoin, hsegments, List.map_cons, List.map_singleton, hname.trim, Text.trim_space_append,
      h.value.trim]
    rfl

end Argument.IsPlain

/-- The argument of a parameter with plain names is plain. -/
lemma Parameter.IsWhole.argument {p : Parameter} (hp : p.IsWhole) (w : WildcardStyle) :
    (p.argument w).IsPlain := by
  have hexternal : IsName p.externalLabel := by
    rw [Parameter.externalLabel]
    cases hlabel : p.label with
    | none => exact hp.name
    | some label => exact hp.label label hlabel
  refine ⟨fun l hl => ?_, hp.name⟩
  simp only [Parameter.argument] at hl
  split at hl
  · cases w with
    | positional => cases hl
    | named =>
      obtain rfl := Option.some.inj hl
      exact hp.name
  · obtain rfl := Option.some.inj hl
    exact hexternal

/-! ### The two lists -/

/-- The pieces of the two lists are those of the parameters, in order. -/
structure Forwarding.IsAligned (w : WildcardStyle) (ps : List Parameter) (f : Forwarding) : Prop where
  entries : pieces ',' f.clause = ps.map fun p => p.declared.trimEnd
  arguments : pieces ',' f.arguments = ps.map (Parameter.passed w)
  /-- Only an entry with a blank default value is not its piece. -/
  entry : ∀ p ∈ ps, p.declared.trimEnd = p.declared ↔ ∀ v ∈ p.defaultValue, v.blank = false
  /-- An argument has a label, perhaps, and the name. -/
  argument : ∀ p ∈ ps, p.passed w = (p.argument w).text ∧
    pieces ':' (p.passed w) = (p.argument w).label.toList ++ [p.name]
  /-- The label is left out of a positional wildcard argument only, and is the name in a named one. -/
  label : ∀ p ∈ ps, ((p.argument w).label = none ↔ p.isWildcard = true ∧ w = .positional) ∧
    ∀ l ∈ (p.argument w).label, l = if p.isWildcard then p.name else p.externalLabel

/-- **Entries and arguments stay aligned.**  If the parameters can be handed on, if their labels and
names are names and their types and default values are whole, then the parameter clause and the argument
list have one piece for each parameter, and these are its entry and its argument.  The default value is
no part of the argument, which consists of the label, if it has one, and the name. -/
theorem forwarding_aligned {w : WildcardStyle} {ps : List Parameter} {f : Forwarding}
    (h : Forwarding.ofParameters w ps = .ok f) (hps : ∀ p ∈ ps, p.IsWhole) : f.IsAligned w ps := by
  obtain ⟨rfl, hfree⟩ := Forwarding.ofParameters_eq_ok h
  refine ⟨?_, ?_, fun p hp => ?_, fun p hp => ?_, fun p _ => ?_⟩
  · have hentries : ∀ e ∈ ps.map Parameter.declared, Whole e ∧ e.blank = false :=
      List.forall_mem_map.2 fun p hp => ⟨(hps p hp).declared, (hps p hp).blank_declared⟩
    rw [Forwarding.clause, Forwarding.forms, pieces_whole hentries, List.map_map]
    exact List.map_congr_left fun p hp => (hps p hp).trim_declared
  · have harguments : ∀ a ∈ ps.map (Parameter.passed w),
        Balanced (· ≠ ',') a ∧ a.trim = a ∧ a ≠ [] := by
      refine List.forall_mem_map.2 fun p hp => ?_
      have hplain := (hps p hp).argument w
      rw [← p.text_argument]
      exact ⟨hplain.balanced, hplain.trim, hplain.text_ne_nil⟩
    rw [Forwarding.arguments, Forwarding.forms, pieces_join harguments]
  · exact Parameter.trimEnd_declared_iff (Parameter.type_of_obstacle?_eq_none (hfree p hp))
  · rw [← p.text_argument]
    exact ⟨rfl, ((hps p hp).argument w).pieces_text⟩
  · simp only [Parameter.argument]
    cases hwildcard : p.isWildcard with
    | false => simp
    | true => cases w <;> simp

/-- Parameters whose types and default values have commas, brackets, an arrow and a string literal. -/
def storeParameters : List Parameter :=
  [{ label := some ['_'], name := "key".toList, type := "(String, Int) -> [Int]".toList },
    { label := some "for".toList, name := "table".toList, type := "[String: (Int, Int)]".toList
      defaultValue := some "[\"a,(\": (1, 2)]".toList },
    { name := "limit".toList, type := "Dictionary<Int, Int>".toList
      defaultValue := some " ".toList }]

theorem forwarding_aligned_store :
    Forwarding.ofParameters .named storeParameters = .ok (.forms .named storeParameters) ∧
      (∀ p ∈ storeParameters, p.IsWhole) ∧
      (Forwarding.forms .named storeParameters).IsAligned .named storeParameters := by
  have hforms : Forwarding.ofParameters .named storeParameters =
      .ok (.forms .named storeParameters) := by decide +kernel
  have hname : ∀ p ∈ storeParameters, isIdentifier p.name = true := by decide +kernel
  have hlabel : ∀ p ∈ storeParameters, p.label.all isIdentifier = true := by decide +kernel
  have htype : ∀ p ∈ storeParameters, Whole p.type := by decide +kernel
  have hvalue : ∀ p ∈ storeParameters, ∀ v ∈ p.defaultValue, Whole v := by decide +kernel
  have hwhole : ∀ p ∈ storeParameters, p.IsWhole := fun p hp =>
    { label := fun l hl => isName_of_isIdentifier ((Option.all_eq_true _ _).1 (hlabel p hp) l hl)
      name := isName_of_isIdentifier (hname p hp)
      type := htype p hp
      defaultValue := hvalue p hp }
  exact ⟨hforms, hwhole, forwarding_aligned hforms hwhole⟩

/-- A parameter with a default value that has no characters. -/
def blankDefault : Parameter :=
  { name := ['a'], type := "Int".toList, defaultValue := some [] }

/-- The piece of an entry may lack the blank at the end of the entry. -/
theorem pieces_clause_blankDefault :
    Forwarding.ofParameters .positional [blankDefault] = .ok (.forms .positional [blankDefault]) ∧
      isIdentifier blankDefault.name = true ∧ blankDefault.IsWhole ∧
      pieces ',' (Forwarding.forms .positional [blankDefault]).clause ≠ [blankDefault.declared] := by
  have hname : isIdentifier blankDefault.name = true := by decide +kernel
  have hwhole : blankDefault.IsWhole :=
    { label := fun l hl => absurd hl (by simp [blankDefault])
      name := isName_of_isIdentifier hname
      type := by decide +kernel
      defaultValue := by decide +kernel }
  exact ⟨by decide +kernel, hname, hwhole, by decide +kernel⟩

end AsyncPeer
