/-
# Comments in headers

A parser leaves comments out of the nodes that a header is read from.  The texts of some parts,
however, are cut out of the source between two nodes, and a comment there is cut out with
them.  This file says exactly which comments are lost and which are not:

* a text that is copied into the signature keeps every comment inside of it, and with it at least
  one slash that was not there before (`signature_eq_iff`);
* among the effects, which are only searched for words, a comment goes unnoticed if it is `Silent`
  (`readEffects_insert_iff`);
* `readDeclaration_comment_iff` puts both together: a function is read as before if and only if its
  header ignores the comment.
-/
import Mathlib.Algebra.Order.BigOperators.Group.List
import Mathlib.Algebra.Order.Ring.Nat
import AsyncPeer.Proofs.HeaderReading
import AsyncPeer.Proofs.Insertion

namespace AsyncPeer

namespace Text

/-! ### Counting characters

Reading a header drops blanks and a few signs, but never a slash, so that a comment leaves a trace
wherever a text around it is copied. -/

section Count

variable {x : Char}

lemma count_dropWhile {p : Char → Bool} (hx : p x = false) (t : Text) :
    (t.dropWhile p).count x = t.count x := by
  induction t with
  | nil => rfl
  | cons c t ih =>
    by_cases hc : p c = true
    · have hne : c ≠ x := by
        rintro rfl
        rw [hx] at hc
        cases hc
      rw [List.dropWhile_cons_of_pos hc, ih, List.count_cons_of_ne hne]
    · rw [List.dropWhile_cons_of_neg hc]

lemma count_dropEndWhile {p : Char → Bool} (hx : p x = false) (t : Text) :
    (t.dropEndWhile p).count x = t.count x := by
  rw [dropEndWhile, List.count_reverse, count_dropWhile hx, List.count_reverse]

lemma count_trim (hx : isBlank x = false) (t : Text) : t.trim.count x = t.count x := by
  rw [trim, trimEnd, count_dropEndWhile hx, trimStart, count_dropWhile hx]

lemma flatten_fields (p : Char → Bool) (t : Text) : (t.fields p).flatten = t.filter fun c => !p c := by
  induction t with
  | nil => rfl
  | cons c t ih =>
    obtain ⟨f, fs, hf⟩ := List.exists_cons_of_ne_nil (fields_ne_nil p t)
    rw [hf, List.flatten_cons] at ih
    by_cases hc : p c = true
    · rw [fields, if_pos hc, hf, List.filter_cons_of_neg (by simp [hc])]
      exact ih
    · rw [fields, if_neg hc, hf, List.filter_cons_of_pos (by simp [hc]), ← ih]
      rfl

lemma count_flatten_words (hx : isBlank x = false) (t : Text) : t.words.flatten.count x = t.count x := by
  have hflatten : t.words.flatten = t.filter fun c => !isBlank c := by
    rw [words, List.flatten_filter_not_isEmpty, flatten_fields]
  rw [hflatten, List.count_filter (by simp [hx])]

lemma count_join {sep : Text} (hsep : x ∉ sep) (ts : List Text) :
    (join sep ts).count x = ts.flatten.count x := by
  induction ts with
  | nil => rfl
  | cons t ts ih =>
    cases ts with
    | nil => simp
    | cons u ts =>
      rw [join_cons_cons, List.flatten_cons, List.count_append, List.count_append, List.count_append, ih,
        List.count_eq_zero_of_not_mem hsep, Nat.add_zero]

lemma count_squeeze (hx : isBlank x = false) (t : Text) : t.squeeze.count x = t.count x := by
  have hspace : x ∉ [' '] := by
    rintro h
    rw [List.mem_singleton.1 h] at hx
    cases hx
  rw [squeeze, count_join hspace, count_flatten_words hx]

end Count

/-! ### Texts side by side -/

/-- The two texts can stand side by side between tokens: no word reaches from one into the other,
and no arrow. -/
def Apart (u v : Text) : Prop :=
  ∀ x ∈ u.getLast?, ∀ y ∈ v.head?,
    ¬ (isWordChar x = true ∧ isWordChar y = true) ∧ ¬ (x = '-' ∧ y = '>')

instance (u v : Text) : Decidable (Apart u v) :=
  decidable_of_iff
    ((u.getLast?.all fun x => v.head?.all fun y =>
      !(isWordChar x && isWordChar y) && !(x == '-' && y == '>')) = true)
    (by simp [Apart, Option.all_eq_true, imp_iff_not_or])

/-- Parts of texts that are apart are apart. -/
lemma Apart.parts {a b u v : Text} (h : Apart a b) (hu : u <:+ a) (hv : v <+: b) : Apart u v := by
  intro x hx y hy
  obtain ⟨s, rfl⟩ := hu
  obtain ⟨t, rfl⟩ := hv
  refine h x ?_ y ?_
  · rw [List.getLast?_append_of_ne_nil _ fun hnil => by rw [hnil] at hx; cases hx]
    exact hx
  · rw [List.head?_append_of_ne_nil _ fun hnil => by rw [hnil] at hy; cases hy]
    exact hy

/-- The text before and the text after the first arrow. -/
def arrow? (t : Text) : Option (Text × Text) :=
  t.cut? "->".toList

lemma arrow?_cons_cons (c d : Char) (t : Text) :
    arrow? (c :: d :: t) =
      if c = '-' ∧ d = '>' then some ([], t)
      else (arrow? (d :: t)).map fun (before, rest) => (c :: before, rest) := by
  have hafter : Text.after? (c :: d :: t) "->".toList = if c = '-' ∧ d = '>' then some t else none := by
    by_cases hc : c = '-' <;> by_cases hd : d = '>' <;> simp [after?, hc, hd]
  rw [arrow?, cut?, hafter]
  by_cases h : c = '-' ∧ d = '>'
  · rw [if_pos h, if_pos h]
  · rw [if_neg h, if_neg h, arrow?]

@[simp] lemma arrow?_nil : arrow? [] = none := rfl

@[simp] lemma arrow?_singleton (c : Char) : arrow? [c] = none := by
  by_cases hc : c = '-' <;> simp [arrow?, cut?, after?, hc]

/-- The first arrow stays the first when something is added behind. -/
lemma arrow?_append_of_some {t before rest : Text} (h : arrow? t = some (before, rest)) (u : Text) :
    arrow? (t ++ u) = some (before, rest ++ u) := by
  induction t generalizing before with
  | nil => cases h
  | cons c t ih =>
    cases t with
    | nil => simp at h
    | cons d t =>
      rw [arrow?_cons_cons] at h
      rw [List.cons_append, List.cons_append, arrow?_cons_cons]
      split at h
      · next hcd =>
        obtain ⟨rfl, rfl⟩ : [] = before ∧ t = rest := by simpa using h
        rw [if_pos hcd]
      · next hcd =>
        obtain ⟨⟨x, y⟩, hxy, heq⟩ := Option.map_eq_some_iff.1 h
        obtain ⟨rfl, rfl⟩ : c :: x = before ∧ y = rest := by simpa using heq
        rw [if_neg hcd, ← List.cons_append, ih hxy]
        rfl

/-- Behind a text without an arrow, the first arrow is the first of what follows. -/
lemma arrow?_append_of_none {t u : Text} (h : arrow? t = none) (hu : Apart t u) :
    arrow? (t ++ u) = (arrow? u).map fun (before, rest) => (t ++ before, rest) := by
  induction t with
  | nil => simp
  | cons c t ih =>
    cases t with
    | nil =>
      cases u with
      | nil => simp
      | cons d u =>
        have hcd : ¬ (c = '-' ∧ d = '>') := (hu c rfl d rfl).2
        rw [List.cons_append, List.nil_append, arrow?_cons_cons, if_neg hcd]
        rfl
    | cons d t =>
      rw [arrow?_cons_cons] at h
      split at h
      · cases h
      · next hcd =>
        have hnone : arrow? (d :: t) = none := Option.map_eq_none_iff.1 h
        have hapart : Apart (d :: t) u := by simpa [Apart] using hu
        rw [List.cons_append, List.cons_append, arrow?_cons_cons, if_neg hcd, ← List.cons_append,
          ih hnone hapart, Option.map_map]
        rfl

/-- A text that is blank has no arrow. -/
lemma arrow?_of_blank {t : Text} (h : t.blank = true) : arrow? t = none := by
  refine Source.cut?_eq_none (m := '-') (fun hmem => ?_) ['>']
  have := List.all_eq_true.1 h '-' hmem
  exact absurd this (by decide)

/-- The pieces of a text between characters that belong to no word. -/
def pieces (t : Text) : List Text :=
  t.fields fun c => !isWordChar c

/-- A word stands in one of two texts that are apart. -/
lemma mem_pieces_append_iff {u v w : Text} (huv : Apart u v) (hw : w ≠ []) :
    w ∈ (u ++ v).pieces ↔ w ∈ u.pieces ∨ w ∈ v.pieces := by
  simp only [pieces]
  rcases u.eq_nil_or_concat' with rfl | ⟨u, c, rfl⟩
  · simp [fields, hw]
  by_cases hc : isWordChar c = true
  · cases v with
    | nil => simp [fields, hw]
    | cons d v =>
      have hd : (!isWordChar d) = true := by
        have := (huv c (by simp) d rfl).1
        simpa [hc] using this
      have hv : fields (fun c => !isWordChar c) (d :: v) = [] :: fields (fun c => !isWordChar c) v :=
        fields_append_sep hd [] v
      rw [fields_append_sep hd, List.mem_append, hv, List.mem_cons, or_iff_right hw]
  · have hc : (!isWordChar c) = true := by simpa using hc
    rw [List.append_assoc, List.singleton_append, fields_append_sep hc, fields_append_sep hc,
      List.mem_append, List.mem_append]
    simp [fields, hw]

end Text

namespace Source

open Text

/-! ### Comments among the effects -/

/-- What is in front of an arrow, or everything. -/
def effectsOf (t : Text) : Text :=
  match arrow? t with
  | some (before, _) => before
  | none => t

/-- The text names one of the effects. -/
def Names (t : Text) (effects : List Text) : Prop :=
  ∃ effect ∈ effects, effect ∈ (effectsOf t).pieces

instance (t : Text) (effects : List Text) : Decidable (Names t effects) :=
  inferInstanceAs (Decidable (∃ effect ∈ effects, _))

/-- The words for the effect of an asynchronous function. -/
def asyncWords : List Text :=
  ["async".toList]

/-- The words for the effect of a function that throws. -/
def throwsWords : List Text :=
  ["throws".toList, "rethrows".toList]

lemma not_blank_of_mem_asyncWords : ∀ effect ∈ asyncWords, effect.blank = false := by
  decide +kernel

lemma not_blank_of_mem_throwsWords : ∀ effect ∈ throwsWords, effect.blank = false := by
  decide +kernel

/-- The type that is read from a text behind an arrow. -/
def typeBehind (t : Text) : Option Text :=
  ((some t.trim).filter fun r => !r.isEmpty).map squeeze

/-- The type behind the first arrow. -/
def resultOf (t : Text) : Option Text :=
  (arrow? t).bind fun (_, rest) => typeBehind rest

lemma readEffects_eq (t : Text) :
    readEffects t = (decide (Names t asyncWords), decide (Names t throwsWords), resultOf t) := by
  have hread : readEffects t =
      ((effectsOf t).pieces.contains "async".toList,
        (effectsOf t).pieces.contains "throws".toList ||
          (effectsOf t).pieces.contains "rethrows".toList, resultOf t) := by
    rw [readEffects, ← arrow?, effectsOf, resultOf]
    cases arrow? t <;> rfl
  have hasync : Names t asyncWords ↔ "async".toList ∈ (effectsOf t).pieces := by
    simp only [Names, asyncWords, List.mem_singleton, exists_eq_left]
  have hthrows : Names t throwsWords ↔
      "throws".toList ∈ (effectsOf t).pieces ∨ "rethrows".toList ∈ (effectsOf t).pieces := by
    simp only [Names, throwsWords, List.mem_cons, List.not_mem_nil, or_false, or_and_right,
      exists_or, exists_eq_left]
  rw [hread, decide_eq_decide.2 hasync, decide_eq_decide.2 hthrows, Bool.decide_or,
    List.contains_eq_mem, List.contains_eq_mem, List.contains_eq_mem]

lemma readEffects_eq_iff {t t' : Text} :
    readEffects t = readEffects t' ↔
      (Names t asyncWords ↔ Names t' asyncWords) ∧ (Names t throwsWords ↔ Names t' throwsWords) ∧
        resultOf t = resultOf t' := by
  rw [readEffects_eq, readEffects_eq, Prod.mk.injEq, Prod.mk.injEq, decide_eq_decide, decide_eq_decide]

lemma count_typeBehind {x : Char} (hx : isBlank x = false) (t : Text) :
    ((typeBehind t).getD []).count x = t.count x := by
  rw [typeBehind, ← count_trim hx t]
  cases t.trim with
  | nil => rfl
  | cons c u => exact count_squeeze hx (c :: u)

lemma typeBehind_eq_none_iff {t : Text} : typeBehind t = none ↔ t.blank = true := by
  have htrim : typeBehind t = none ↔ t.trim = [] := by
    rw [typeBehind]
    cases t.trim <;> simp
  rw [htrim]
  constructor
  · intro h
    obtain ⟨x, y, hx, hy, ht⟩ := exists_trim t
    rw [ht, h, List.append_nil, blank, List.all_append, Bool.and_eq_true]
    exact ⟨hx, hy⟩
  · intro h
    have := trim_blank_append_blank (t := []) (y := []) h rfl
    rw [List.append_nil, List.append_nil] at this
    exact this

section Append

variable {u v : Text} {effects : List Text}

lemma apart_effectsOf (h : Apart u v) : Apart u (effectsOf v) := by
  rw [effectsOf]
  split
  · next before rest harrow =>
    intro x hx y hy
    have hv : v = before ++ ("->".toList ++ rest) := eq_append_of_cut? harrow
    refine h x hx y ?_
    rw [hv, List.head?_append_of_ne_nil _ fun hnil => ?_]
    · exact hy
    · rw [hnil] at hy
      cases hy
  · exact h

/-- Effects in front of an arrow stay what they are. -/
lemma names_append_of_arrow {before rest : Text} (hu : arrow? u = some (before, rest)) :
    Names (u ++ v) effects ↔ Names u effects := by
  rw [Names, Names, effectsOf, effectsOf, arrow?_append_of_some hu, hu]

/-- Behind a text without an arrow, its effects and those of what follows are named. -/
lemma names_append_iff (hu : arrow? u = none) (huv : Apart u v) (heffects : [] ∉ effects) :
    Names (u ++ v) effects ↔ Names u effects ∨ Names v effects := by
  have happend : effectsOf (u ++ v) = u ++ effectsOf v := by
    rw [effectsOf, effectsOf, arrow?_append_of_none hu huv]
    cases arrow? v <;> rfl
  have hself : effectsOf u = u := by
    rw [effectsOf, hu]
  rw [Names, Names, Names, ← exists_or]
  refine exists_congr fun effect => ?_
  rw [← and_or_left, happend, hself]
  refine and_congr_right fun hmem => mem_pieces_append_iff (apart_effectsOf huv) ?_
  rintro rfl
  exact heffects hmem

lemma resultOf_append_of_arrow {before rest : Text} (hu : arrow? u = some (before, rest)) :
    resultOf (u ++ v) = typeBehind (rest ++ v) := by
  rw [resultOf, arrow?_append_of_some hu, Option.bind_some]

lemma resultOf_append_of_none (hu : arrow? u = none) (huv : Apart u v) :
    resultOf (u ++ v) = resultOf v := by
  rw [resultOf, resultOf, arrow?_append_of_none hu huv]
  cases arrow? v <;> rfl

/-- Nothing blank names an effect. -/
lemma not_names_of_blank (heffects : ∀ effect ∈ effects, effect.blank = false)
    (hu : u.blank = true) : ¬ Names u effects := by
  rintro ⟨effect, hmem, hfield⟩
  obtain ⟨x, hx, hblank⟩ := List.all_eq_false.1 (heffects effect hmem)
  rw [effectsOf, arrow?_of_blank hu] at hfield
  have hflat : x ∈ u.pieces.flatten := List.mem_flatten_of_mem hfield hx
  rw [pieces, flatten_fields] at hflat
  exact hblank (List.all_eq_true.1 hu x (List.mem_of_mem_filter hflat))

end Append

/-- The comment `c` between `u` and `v` says nothing about the effects: it does not stand behind the
arrow, an arrow in it is followed by nothing, and the effects that it names are there anyway. -/
structure Silent (u c v : Text) : Prop where
  front : arrow? u = none
  arrow : ∀ before rest, arrow? c = some (before, rest) → (rest ++ v).blank = true
  async : Names c asyncWords → Names (u ++ v) asyncWords
  throws : Names c throwsWords → Names (u ++ v) throwsWords

section Insert

variable {u c v : Text}

/-- A comment behind the arrow is copied into the result, which gets a slash too much. -/
lemma resultOf_insert_ne {before rest : Text} (hu : arrow? u = some (before, rest)) (hc : '/' ∈ c) :
    resultOf (u ++ (c ++ v)) ≠ resultOf (u ++ v) := by
  rw [resultOf_append_of_arrow hu, resultOf_append_of_arrow hu]
  intro hresult
  have hcount := congrArg (fun r => List.count '/' (r.getD [])) hresult
  simp only [count_typeBehind (by decide : isBlank '/' = false), List.count_append] at hcount
  have := List.count_pos_iff.2 hc
  omega

/-- An arrow in a comment begins a result unless nothing follows. -/
lemma typeBehind_append_eq_iff {rest : Text} :
    typeBehind (rest ++ v) = resultOf v ↔ (rest ++ v).blank = true := by
  constructor
  · intro h
    cases hv : arrow? v with
    | none =>
      rw [resultOf, hv, Option.bind_none] at h
      exact typeBehind_eq_none_iff.1 h
    | some cut =>
      -- the arrow of the function would be in its own result
      obtain ⟨before, after⟩ := cut
      have hsplit : v = before ++ ("->".toList ++ after) := eq_append_of_cut? hv
      rw [resultOf, hv, Option.bind_some] at h
      have hcount := congrArg (fun r => List.count '-' (r.getD [])) h
      simp only [count_typeBehind (by decide : isBlank '-' = false)] at hcount
      rw [hsplit] at hcount
      simp [List.count_append] at hcount
      omega
  · intro h
    have hv : v.blank = true := by
      rw [blank, List.all_append, Bool.and_eq_true] at h
      exact h.2
    rw [typeBehind_eq_none_iff.2 h, resultOf, arrow?_of_blank hv, Option.bind_none]

/-- The effects with the comment are those without it and those that it names, unless an arrow in it
hides what follows. -/
lemma names_insert_iff {effects : List Text} (huv : Apart u v) (hucv : Apart u (c ++ v))
    (hcv : Apart c v) (heffects : ∀ effect ∈ effects, effect.blank = false)
    (hu : arrow? u = none)
    (hc : ∀ before rest, arrow? c = some (before, rest) → (rest ++ v).blank = true) :
    Names (u ++ (c ++ v)) effects ↔ Names c effects ∨ Names (u ++ v) effects := by
  have hnil : [] ∉ effects := by
    intro h
    cases heffects [] h
  rw [names_append_iff hu hucv hnil, names_append_iff hu huv hnil]
  cases hcut : arrow? c with
  | none =>
    rw [names_append_iff hcut hcv hnil]
    exact or_left_comm
  | some cut =>
    have hblank := hc cut.1 cut.2 hcut
    rw [blank, List.all_append, Bool.and_eq_true] at hblank
    rw [names_append_of_arrow hcut, or_iff_left (not_names_of_blank heffects hblank.2)]
    exact or_comm

/-- Exactly a silent comment leaves the effects and the result as they are. -/
lemma readEffects_insert_iff (huv : Apart u v) (huc : Apart u c) (hcv : Apart c v) (hc : '/' ∈ c) :
    readEffects (u ++ (c ++ v)) = readEffects (u ++ v) ↔ Silent u c v := by
  have hucv : Apart u (c ++ v) := by
    rw [Apart, List.head?_append_of_ne_nil _ (List.ne_nil_of_mem hc)]
    exact huc
  rw [readEffects_eq_iff]
  -- the result decides about the two arrows, and then the effects are those of all three texts
  have hresult : resultOf (u ++ (c ++ v)) = resultOf (u ++ v) ↔ arrow? u = none ∧
      ∀ before rest, arrow? c = some (before, rest) → (rest ++ v).blank = true := by
    cases hu : arrow? u with
    | some cut => simp [resultOf_insert_ne hu hc]
    | none =>
      rw [resultOf_append_of_none hu hucv, resultOf_append_of_none hu huv]
      cases hcut : arrow? c with
      | none => simp [resultOf_append_of_none hcut hcv]
      | some cut =>
        obtain ⟨before, rest⟩ := cut
        rw [resultOf_append_of_arrow hcut, typeBehind_append_eq_iff]
        simp
  constructor
  · rintro ⟨ha, ht, hr⟩
    obtain ⟨hu, harrow⟩ := hresult.1 hr
    rw [names_insert_iff huv hucv hcv not_blank_of_mem_asyncWords hu harrow, or_iff_right_iff_imp] at ha
    rw [names_insert_iff huv hucv hcv not_blank_of_mem_throwsWords hu harrow, or_iff_right_iff_imp] at ht
    exact ⟨hu, harrow, ha, ht⟩
  · rintro ⟨hu, harrow, ha, ht⟩
    rw [names_insert_iff huv hucv hcv not_blank_of_mem_asyncWords hu harrow, or_iff_right_iff_imp,
      names_insert_iff huv hucv hcv not_blank_of_mem_throwsWords hu harrow, or_iff_right_iff_imp]
    exact ⟨ha, ht, hresult.2 ⟨hu, harrow⟩⟩

end Insert

/-! ### Comments in copied texts -/

/-- The two texts are the same, or the second has more slashes. -/
def Grows (t t' : Text) : Prop :=
  t = t' ∨ t.count '/' < t'.count '/'

lemma Grows.eq {t t' : Text} (h : Grows t t') (hcount : t.count '/' = t'.count '/') : t = t' := by
  rcases h with h | h
  · exact h
  · omega

lemma Grows.le {t t' : Text} (h : Grows t t') : t.count '/' ≤ t'.count '/' := by
  rcases h with rfl | h
  · exact Nat.le_refl _
  · exact Nat.le_of_lt h

lemma count_readRequirements (t : Text) : (readRequirements t).count '/' = t.count '/' := by
  have hblank : isBlank '/' = false := by decide
  rw [readRequirements, count_squeeze hblank, ← count_trim hblank t]
  cases h : t.trim.after? "where".toList with
  | none => rfl
  | some rest =>
    have hcount : List.count '/' "where".toList = 0 := by decide +kernel
    rw [eq_append_of_after? h, List.count_append, hcount, Nat.zero_add]
    rfl

section Copies

variable {α : Type} {f g : α → Text}

lemma forall_mem_eq_of_map_eq {F : Text → Text} (hF : ∀ t, (F t).count '/' = t.count '/') {o : Option α}
    (ho : ∀ a ∈ o, Grows (f a) (g a)) (h : (o.map f).map F = (o.map g).map F) :
    ∀ a ∈ o, f a = g a := by
  cases o with
  | none => simp
  | some b =>
    have hcount := congrArg (List.count '/') (Option.some.inj h)
    rw [hF, hF] at hcount
    simpa using (ho b rfl).eq hcount

/-- The modifiers are the same only if the texts of all their nodes are. -/
lemma forall_mem_eq_of_flatMap_words_eq {l : List α} (hl : ∀ a ∈ l, Grows (f a) (g a))
    (h : (l.map f).flatMap words = (l.map g).flatMap words) : ∀ a ∈ l, f a = g a := by
  have hsum : ∀ f : α → Text, ((l.map f).flatMap words).flatten.count '/' =
      (l.map fun a => (f a).count '/').sum := by
    intro f
    rw [List.flatMap_map, List.flatMap_def, List.flatten_flatten, List.count_flatten]
    simp only [List.map_map, Function.comp_def, count_flatten_words (by decide : isBlank '/' = false)]
  have hsums : (l.map fun a => (f a).count '/').sum = (l.map fun a => (g a).count '/').sum := by
    rw [← hsum, ← hsum, h]
  intro a ha
  refine (hl a ha).eq (Nat.le_antisymm (hl a ha).le (Nat.le_of_not_lt fun hlt => ?_))
  have := List.sum_lt_sum (fun a => (f a).count '/') (fun a => (g a).count '/')
    (fun b hb => (hl b hb).le) ⟨a, ha, hlt⟩
  omega

/-- A parameter is the same only if the texts of all its parts are. -/
lemma forall_mem_eq_of_parameter_eq {ps : ParameterParts α} (hps : ∀ a ∈ ps.toList, Grows (f a) (g a))
    (h : (ps.map f).parameter = (ps.map g).parameter) : ∀ a ∈ ps.toList, f a = g a := by
  have hblank : isBlank '/' = false := by decide
  have htype : ∀ t : Text, (t.trim.dropEndWhile (· == '=')).squeeze.count '/' = t.count '/' := by
    intro t
    rw [count_squeeze hblank, count_dropEndWhile (by decide), count_trim hblank]
  have hvalue : ∀ t : Text,
      (((some t.trim).filter fun v => !v.isEmpty).getD []).count '/' = t.count '/' := by
    intro t
    rw [← count_trim hblank t]
    cases t.trim <;> rfl
  obtain ⟨hlabels, hnames, htypes, hvalues⟩ := Parameter.mk.inj h
  simp only [ParameterParts.toList, List.forall_mem_append, List.forall_mem_cons,
    Option.mem_toList] at hps ⊢
  obtain ⟨hlabelGrows, -, htypeGrows, hvalueGrows⟩ := hps
  refine ⟨?_, hnames, ?_, ?_⟩
  · refine forall_mem_eq_of_map_eq (F := id) (fun _ => rfl) hlabelGrows ?_
    rw [Option.map_id]
    exact hlabels
  · have hcount := congrArg (List.count '/') htypes
    rw [htype, htype] at hcount
    exact htypeGrows.eq hcount
  · simp only [ParameterParts.map] at hvalues
    cases hdefault : ps.defaultValue with
    | none => simp
    | some a =>
      rw [hdefault] at hvalues hvalueGrows
      have hcount := congrArg (fun o => List.count '/' (o.getD [])) hvalues
      simp only [Option.map_some, hvalue] at hcount
      simpa using (hvalueGrows a rfl).eq hcount

/-- Where a slash was put into some of the texts, the signature is the same exactly if none of them
is copied and the effects are read alike. -/
lemma signature_eq_iff {h : HeaderParts α} (hcopied : ∀ a ∈ h.copied, Grows (f a) (g a))
    (isMember : Bool) :
    (h.map f).signature isMember = (h.map g).signature isMember ↔
      (∀ a ∈ h.copied, f a = g a) ∧ readEffects (f h.effects) = readEffects (g h.effects) := by
  simp only [HeaderParts.copied, List.forall_mem_cons, List.forall_mem_append, Option.mem_toList,
    List.forall_mem_flatMap] at hcopied ⊢
  constructor
  · intro heq
    obtain ⟨-, hmodifiers, hgenerics, hparameters, hrequirements⟩ := hcopied
    obtain ⟨hname, hmodifiers', hgenerics', hparameters', hasync, hthrows, hresult, hrequirements', -⟩ :=
      Signature.mk.inj heq
    simp only [HeaderParts.map, List.getLast?_map] at hgenerics' hrequirements'
    refine ⟨⟨hname, ?_, ?_, ?_, ?_⟩, Prod.ext hasync (Prod.ext hthrows hresult)⟩
    · exact forall_mem_eq_of_flatMap_words_eq hmodifiers hmodifiers'
    · exact forall_mem_eq_of_map_eq (count_squeeze (by decide)) hgenerics hgenerics'
    · simp only [HeaderParts.map, List.map_map] at hparameters'
      intro ps hps
      refine forall_mem_eq_of_parameter_eq (hparameters ps hps) ?_
      exact List.map_inj_left.1 hparameters' ps hps
    · exact forall_mem_eq_of_map_eq count_readRequirements hrequirements hrequirements'
  · rintro ⟨⟨hname, hmodifiers, hgenerics, hparameters, hrequirements⟩, heffects⟩
    simp only [HeaderParts.map, HeaderParts.signature, hname, heffects, List.map_congr_left hmodifiers,
      List.getLast?_map, Option.map_congr hgenerics, Option.map_congr hrequirements,
      List.map_congr_left fun ps hps => ParameterParts.map_congr (hparameters ps hps)]

end Copies

/-! ### Comments in headers -/

/-- The text of a comment that stands in front of `b`: one with two ends, or one that ends with its
line, whose line feed belongs to it or follows. -/
def IsComment (c b : Text) : Prop :=
  (∃ body, c = "/*".toList ++ body ++ "*/".toList) ∨
    ∃ body, c = "//".toList ++ body ∧ (c.getLast? = some '\n' ∨ b.head? = some '\n')

section Comment

variable {b c : Text}

lemma IsComment.head? (h : IsComment c b) : c.head? = some '/' := by
  rcases h with ⟨body, rfl⟩ | ⟨body, rfl, -⟩ <;> rfl

lemma IsComment.slash_mem (h : IsComment c b) : '/' ∈ c :=
  List.mem_of_head? h.head?

lemma IsComment.apart_left (h : IsComment c b) (u : Text) : Apart u c := by
  intro x _ y hy
  obtain rfl : '/' = y := by simpa [h.head?] using hy
  exact ⟨fun hw => absurd hw.2 (by decide), fun ha => absurd ha.2 (by decide)⟩

lemma IsComment.apart_right (h : IsComment c b) : Apart c b := by
  have hslash : isWordChar '/' = false := by decide
  have hfeed : isWordChar '\n' = false := by decide
  intro x hx y hy
  rcases h with ⟨body, rfl⟩ | ⟨body, -, hlast | hhead⟩
  · obtain rfl : '/' = x := by
      rw [List.getLast?_append_of_ne_nil _ (by decide)] at hx
      simpa using hx
    simp [hslash]
  · obtain rfl : '\n' = x := by simpa [hlast] using hx
    simp [hfeed]
  · obtain rfl : '\n' = y := by simpa [hhead] using hy
    simp [hfeed]

end Comment

section Header

variable {a b c : Text}

/-- At each place, a comment changes nothing or adds its slashes, depending on what the place is
around. -/
lemma grows_text {p : Place} (hp : (p.cut? (a ++ b)).isSome) (hc : '/' ∈ c) :
    ((p.map (Span.move a.byteSize c.byteSize)).cut? (a ++ (c ++ b))).isSome ∧
      Grows (p.text (a ++ b)) ((p.map (Span.move a.byteSize c.byteSize)).text (a ++ (c ++ b))) ∧
      (p.text (a ++ b) = (p.map (Span.move a.byteSize c.byteSize)).text (a ++ (c ++ b)) ↔
        ¬ p.IsAround a.byteSize) := by
  obtain ⟨t, ht⟩ := Option.isSome_iff_exists.1 hp
  by_cases haround : p.IsAround a.byteSize
  · obtain ⟨u, v, -, -, rfl, hcut⟩ := Place.cut?_move_of_isAround ht haround c
    have hcount : (u ++ v).count '/' < (u ++ (c ++ v)).count '/' := by
      have := List.count_pos_iff.2 hc
      simp only [List.count_append]
      omega
    rw [Place.text, Place.text, ht, hcut, Option.getD_some, Option.getD_some]
    refine ⟨rfl, Or.inr hcount, iff_of_false (fun heq => ?_) (not_not_intro haround)⟩
    rw [heq] at hcount
    exact Nat.lt_irrefl _ hcount
  · have hcut := Place.cut?_move ht haround c
    rw [Place.text, Place.text, ht, hcut]
    exact ⟨rfl, Or.inl rfl, iff_of_true rfl haround⟩

/-- The header with the given layout does not change when the comment `c` is put in between `a` and
`b`: no text that is copied is around it, and among the effects it is silent. -/
structure HeaderParts.Ignores (h : HeaderParts Place) (a c b : Text) : Prop where
  copied : ∀ p ∈ h.copied, ¬ p.IsAround a.byteSize
  effects : h.effects.IsAround a.byteSize → ∀ u v, a.from? h.effects.start = some u →
    b.upTo? (h.effects.stop - a.byteSize) = some v → Silent u c v

lemma readEffects_text_eq_iff {p : Place} (hp : (p.cut? (a ++ b)).isSome) (hplace : Apart a b)
    (hcomment : IsComment c b) :
    readEffects (p.text (a ++ b)) =
        readEffects ((p.map (Span.move a.byteSize c.byteSize)).text (a ++ (c ++ b))) ↔
      (p.IsAround a.byteSize → ∀ u v, a.from? p.start = some u →
        b.upTo? (p.stop - a.byteSize) = some v → Silent u c v) := by
  obtain ⟨t, ht⟩ := Option.isSome_iff_exists.1 hp
  by_cases haround : p.IsAround a.byteSize
  · obtain ⟨u, v, hu, hv, rfl, hcut⟩ := Place.cut?_move_of_isAround ht haround c
    have hsuffix : u <:+ a := by
      obtain ⟨⟨x, y⟩, hxy, rfl⟩ := Option.map_eq_some_iff.1 hu
      exact ⟨x, (splitAt?_eq_some hxy).1.symm⟩
    have hprefix : v <+: b := by
      obtain ⟨⟨x, y⟩, hxy, rfl⟩ := Option.map_eq_some_iff.1 hv
      exact ⟨y, (splitAt?_eq_some hxy).1.symm⟩
    rw [Place.text, Place.text, ht, hcut, Option.getD_some, Option.getD_some, eq_comm,
      readEffects_insert_iff (hplace.parts hsuffix hprefix) (hcomment.apart_left u)
        (hcomment.apart_right.parts (List.suffix_refl c) hprefix) hcomment.slash_mem]
    constructor
    · intro h _ u' v' hu' hv'
      obtain rfl := Option.some.inj (hu.symm.trans hu')
      obtain rfl := Option.some.inj (hv.symm.trans hv')
      exact h
    · intro h
      exact h haround u v hu hv
  · have hcut := Place.cut?_move ht haround c
    rw [Place.text, Place.text, ht, hcut]
    exact iff_of_true rfl fun h => absurd h haround

lemma readDeclaration_eq_function_iff {source : Text} {l : Located} {s : Signature} :
    readDeclaration source l = .ok (.function s) ↔
      l.node.kind = "function_declaration" ∧ readFunction source l.node l.above = .ok s := by
  have hmap : ∀ {α : Type} {x : Except Refusal α} {f : α → Declaration},
      x.map f = .ok (.function s) → ∃ y, x = .ok y ∧ f y = .function s := by
    intro α x f hx
    cases x with
    | error r => cases hx
    | ok y => exact ⟨y, rfl, Except.ok.inj hx⟩
  rw [readDeclaration]
  split
  · next hkind =>
    constructor
    · intro h
      obtain ⟨y, hy, heq⟩ := hmap h
      exact ⟨hkind, hy.trans (congrArg Except.ok (Declaration.function.inj heq))⟩
    · rintro ⟨-, h⟩
      rw [h]
      rfl
  · next hkind => simp [hkind]
  · next hkind => simp [hkind]
  · next hne _ _ =>
    constructor
    · intro h
      obtain ⟨y, -, heq⟩ := hmap h
      cases heq
    · rintro ⟨hkind, -⟩
      exact absurd hkind hne

lemma isMember_of_commented {o k : Nat} {above above' : List Node}
    (h : List.Forall₂ (Commented o k) above above') : isMember above' = isMember above := by
  induction h with
  | nil => rfl
  | cons hnode _ ih => rw [isMember, isMember, hnode.kind, ih]

/-- After a comment has been put in, a function is read from the same places, which have moved. -/
lemma readDeclaration_commented_iff {source : Text} {o k : Nat} {l l' : Located}
    {h : HeaderParts Place} {s : Signature} (hkind : l.node.kind = "function_declaration")
    (hlayout : layout? l.node = some h) (hnode : Commented o k l.node l'.node)
    (habove : List.Forall₂ (Commented o k) l.above l'.above)
    (hcuts : ∀ p ∈ h.cut, ((p.map (Span.move o k)).cut? source).isSome) :
    readDeclaration source l' = .ok (.function s) ↔
      (h.map fun p => (p.map (Span.move o k)).text source).signature (isMember l.above) = s := by
  have hmoved : layout? l'.node = some (h.map (Place.map (Span.move o k))) := by
    rw [hnode.layout?, hlayout]
    rfl
  rw [readDeclaration_eq_function_iff, readFunction_eq_ok_iff, isMember_of_commented habove, hmoved]
  constructor
  · rintro ⟨-, h', hh', -, hsignature⟩
    obtain rfl := Option.some.inj hh'
    rw [HeaderParts.map_map] at hsignature
    exact hsignature
  · intro hsignature
    refine ⟨hnode.kind.trans hkind, _, rfl, ?_, ?_⟩
    · rw [HeaderParts.cut_map]
      exact List.forall_mem_map.2 hcuts
    · rw [HeaderParts.map_map]
      exact hsignature

/-- A function that can be read is read as the same when a comment is put in between two tokens, if
and only if its header ignores the comment. -/
theorem readDeclaration_comment_iff (l l' : Located) {s : Signature}
    (hread : readDeclaration (a ++ b) l = .ok (.function s)) (hplace : Apart a b)
    (hcomment : IsComment c b) (hnode : Commented a.byteSize c.byteSize l.node l'.node)
    (habove : List.Forall₂ (Commented a.byteSize c.byteSize) l.above l'.above) :
    ∃ h, layout? l.node = some h ∧
      (readDeclaration (a ++ (c ++ b)) l' = .ok (.function s) ↔ h.Ignores a c b) := by
  obtain ⟨hkind, hfunction⟩ := readDeclaration_eq_function_iff.1 hread
  obtain ⟨h, hlayout, hcuts, rfl⟩ := readFunction_eq_ok_iff.1 hfunction
  refine ⟨h, hlayout, ?_⟩
  have htexts : ∀ p ∈ h.cut, _ := fun p hp => grows_text (hcuts p hp) hcomment.slash_mem
  have hcopied : ∀ p ∈ h.copied, _ := fun p hp => (htexts p (HeaderParts.mem_cut_of_mem_copied hp)).2
  rw [readDeclaration_commented_iff hkind hlayout hnode habove fun p hp => (htexts p hp).1, eq_comm,
    signature_eq_iff fun p hp => (hcopied p hp).1,
    readEffects_text_eq_iff (hcuts _ h.effects_mem_cut) hplace hcomment,
    forall₂_congr fun p hp => (hcopied p hp).2]
  exact ⟨fun h => ⟨h.1, h.2⟩, fun h => ⟨h.copied, h.effects⟩⟩

end Header

/-- The tree of a function with one parameter `a: Int`, behind which a new line begins. -/
def plainFunction : Node :=
  rule "function_declaration" 0 19
    [token "func" 0 4, rule "simple_identifier" 5 6 [], token "(" 6 7,
      rule "parameter" 7 13
        [rule "simple_identifier" 7 8 [], token ":" 8 9,
          rule "user_type" 10 13 [rule "type_identifier" 10 13 []]],
      token ")" 15 16, rule "function_body" 17 19 [token "\x7b" 17 18, token "\x7d" 18 19]]

/-- What the tree shows. -/
def plainSignature : Signature where
  name := "f".toList
  parameters := [{ name := "a".toList, type := "Int".toList }]
  isMember := false

/-- The tree with the comment `/* n */` in front of the parameter. -/
def commentedParameter : Node :=
  rule "function_declaration" 0 26
    [token "func" 0 4, rule "simple_identifier" 5 6 [], token "(" 6 7, rule "multiline_comment" 7 14 [],
      rule "parameter" 14 20
        [rule "simple_identifier" 14 15 [], token ":" 15 16,
          rule "user_type" 17 20 [rule "type_identifier" 17 20 []]],
      token ")" 22 23, rule "function_body" 24 26 [token "\x7b" 24 25, token "\x7d" 25 26]]

theorem commentedParameter_read :
    readDeclaration ("func f(".toList ++ "a: Int \n) \x7b\x7d".toList) ⟨plainFunction, []⟩ =
        .ok (.function plainSignature) ∧
      ∃ h, layout? plainFunction = some h ∧
        (readDeclaration ("func f(".toList ++ ("/* n */".toList ++ "a: Int \n) \x7b\x7d".toList))
            ⟨commentedParameter, []⟩ = .ok (.function plainSignature) ↔
          h.Ignores "func f(".toList "/* n */".toList "a: Int \n) \x7b\x7d".toList) := by
  have hread : readDeclaration ("func f(".toList ++ "a: Int \n) \x7b\x7d".toList) ⟨plainFunction, []⟩ =
      .ok (.function plainSignature) := by decide +kernel
  have hnode : Commented 7 7 plainFunction commentedParameter := rfl
  exact ⟨hread, readDeclaration_comment_iff ⟨plainFunction, []⟩ ⟨commentedParameter, []⟩ hread
    (by decide +kernel) (Or.inl ⟨" n ".toList, rfl⟩) hnode .nil⟩

/-- The tree with the comment `// trailing` at the end of the line of the parameter. -/
def commentedType : Node :=
  rule "function_declaration" 0 30
    [token "func" 0 4, rule "simple_identifier" 5 6 [], token "(" 6 7,
      rule "parameter" 7 13
        [rule "simple_identifier" 7 8 [], token ":" 8 9,
          rule "user_type" 10 13 [rule "type_identifier" 10 13 []]],
      rule "comment" 14 25 [], token ")" 26 27,
      rule "function_body" 28 30 [token "\x7b" 28 29, token "\x7d" 29 30]]

/-- A comment behind a type becomes part of the type. -/
theorem commentedType_read :
    readDeclaration ("func f(a: Int ".toList ++ "\n) \x7b\x7d".toList) ⟨plainFunction, []⟩ =
        .ok (.function plainSignature) ∧
      Apart "func f(a: Int ".toList "\n) \x7b\x7d".toList ∧
      IsComment "// trailing".toList "\n) \x7b\x7d".toList ∧
      Commented (byteSize "func f(a: Int ".toList) (byteSize "// trailing".toList) plainFunction
        commentedType ∧
      readDeclaration ("func f(a: Int ".toList ++ ("// trailing".toList ++ "\n) \x7b\x7d".toList))
          ⟨commentedType, []⟩ =
        .ok (.function { plainSignature with
          parameters := [{ name := "a".toList, type := "Int // trailing".toList }] }) ∧
      readDeclaration ("func f(a: Int ".toList ++ ("// trailing".toList ++ "\n) \x7b\x7d".toList))
          ⟨commentedType, []⟩ ≠ .ok (.function plainSignature) := by
  have hcomment : IsComment "// trailing".toList "\n) \x7b\x7d".toList :=
    Or.inr ⟨" trailing".toList, rfl, Or.inr rfl⟩
  have hnode : Commented 14 11 plainFunction commentedType := rfl
  exact ⟨by decide +kernel, by decide +kernel, hcomment, hnode, by decide +kernel, by decide +kernel⟩

end Source

end AsyncPeer
