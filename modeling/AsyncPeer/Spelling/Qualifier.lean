/-
# Qualifiers in front of a type

A type may be preceded by attributes such as `@escaping` or `@convention(c)` and by specifiers of
ownership and passing such as `inout`.  Neither changes the shape of the type.  `unqualified` takes
away all of them and gives the rest in squeezed form; an attribute whose argument list is never
closed is left standing, with everything behind it.
-/
import AsyncPeer.Spelling.Group

namespace AsyncPeer.Spelling

/-- A character that can begin the name of an attribute. -/
def isAttributeStart (c : Char) : Bool :=
  c.isAlpha || c == '_'

/-- A character that can continue the name of an attribute. -/
def isAttributeChar (c : Char) : Bool :=
  c.isAlphanum || c == '_' || c == '.'

/-- The specifiers of ownership and passing. -/
def specifiers : List Text :=
  ["inout", "borrowing", "consuming", "__owned", "__shared", "sending"].map String.toList

/-- What follows an attribute at the beginning of the text, if its argument list is closed. -/
def afterAttribute? : Text → Option Text
  | '@' :: c :: cs =>
    if isAttributeStart c then
      match cs.dropWhile isAttributeChar with
      | '(' :: args => (group? ('(' :: args)).map (·.2)
      | rest => some rest
    else none
  | _ => none

/-- What follows the specifier `s`, which has to be set off by a blank. -/
def afterSpecifier? (s t : Text) : Option Text :=
  match t.after? s with
  | some (c :: rest) => if Text.isBlank c then some (c :: rest) else none
  | _ => none

/-- The text without the one qualifier at its beginning and the blanks behind it. -/
def afterQualifier? (t : Text) : Option Text :=
  ((afterAttribute? t).or (specifiers.findSome? (afterSpecifier? · t))).map Text.trimStart

theorem length_of_afterAttribute? {t rest : Text} (h : afterAttribute? t = some rest) :
    rest.length < t.length := by
  unfold afterAttribute? at h
  split at h
  · next c cs =>
    have hd := Text.length_dropWhile_le isAttributeChar cs
    split at h
    · split at h
      · next args hargs =>
        obtain ⟨⟨inside, r⟩, hg, rfl⟩ := Option.map_eq_some_iff.1 h
        have hl := length_of_group? hg
        rw [hargs] at hd
        simp only [List.length_cons] at hd hl ⊢
        omega
      · simp only [Option.some.injEq] at h
        subst h
        simp only [List.length_cons]
        omega
    · simp at h
  · simp at h

theorem length_of_afterSpecifier? {s t rest : Text} (hs : s ≠ [])
    (h : afterSpecifier? s t = some rest) : rest.length < t.length := by
  unfold afterSpecifier? at h
  split at h
  · next c r hr =>
    split at h
    · simp only [Option.some.injEq] at h
      subst h
      have ht := congrArg List.length (Text.eq_append_of_after? hr)
      have hpos := List.length_pos_iff.2 hs
      rw [List.length_append] at ht
      omega
    · simp at h
  · simp at h

theorem specifiers_ne_nil {s : Text} (h : s ∈ specifiers) : s ≠ [] := by
  revert s
  decide

/-- Taking a qualifier away makes the text shorter. -/
theorem length_of_afterQualifier? {t rest : Text} (h : afterQualifier? t = some rest) :
    rest.length < t.length := by
  obtain ⟨r, hr, rfl⟩ := Option.map_eq_some_iff.1 h
  refine Nat.lt_of_le_of_lt (Text.length_trimStart_le r) ?_
  rcases Option.or_eq_some_iff.1 hr with hr | ⟨-, hr⟩
  · exact length_of_afterAttribute? hr
  · obtain ⟨s, hs, hsr⟩ := List.exists_of_findSome?_eq_some hr
    exact length_of_afterSpecifier? (specifiers_ne_nil hs) hsr

/-- The text without all the qualifiers at its beginning. -/
def dropQualifiers (t : Text) : Text :=
  match _h : afterQualifier? t with
  | some rest => dropQualifiers rest
  | none => t
termination_by t.length
decreasing_by exact length_of_afterQualifier? _h

theorem length_dropQualifiers_le (t : Text) : (dropQualifiers t).length ≤ t.length := by
  fun_induction dropQualifiers t with
  | case1 t rest h ih => exact Nat.le_trans ih (Nat.le_of_lt (length_of_afterQualifier? h))
  | case2 t h => exact Nat.le_refl _

/-- The type that a spelling shows behind its qualifiers, in squeezed form. -/
def unqualified (t : Text) : Text :=
  (dropQualifiers t.trim).squeeze

end AsyncPeer.Spelling
