/-
# Guarded readers

The readers of spellings are written with beginnings, groups and pieces of texts.  Read as programs on
byte offsets they do things that can go wrong: they cut a text at an offset that a scan has found, count
open brackets down, go through a loop as long as it takes something away, and read the one parameter of
a completion.  Here they are written as such programs, with a guard at each of these places.  A guard
that does not hold ends the run with a `Fault`.

No guard ever ends a run, whatever the text: each guarded reader has the result of the reader that it
guards (`guards_hold`).  So every cut is made at a boundary, the count of open brackets is never lowered
below zero, each round of a loop leaves a shorter text, and the parameter that is read is the only one.
-/
import AsyncPeer.Proofs.Pieces
import AsyncPeer.Proofs.ResultTypes

namespace AsyncPeer

namespace Spelling

/-- What a guard can find. -/
inductive Fault where
  /-- A text is cut at an offset that is none of its boundaries. -/
  | cut
  /-- A count is lowered that is zero already. -/
  | count
  /-- A round of a loop leaves a text that is not shorter. -/
  | round
  /-- The only element of a list is read, but the list has none or several. -/
  | element
deriving DecidableEq, Repr

namespace Guarded

/-! ### Cuts -/

/-- The part of a text from a byte offset on. -/
def behind (o : Nat) (t : Text) : Except Fault Text :=
  match t.from? o with
  | some rest => .ok rest
  | none => .error .cut

/-- The part of a text between two byte offsets. -/
def between (o p : Nat) (t : Text) : Except Fault Text :=
  match t.slice? o p with
  | some part => .ok part
  | none => .error .cut

/-- The parts of a text from a byte offset on, between the separators at the given offsets. -/
def cutAll (sep : Char) (t : Text) : (start : Nat) → List Nat → Except Fault (List Text)
  | start, [] => do
    return [← behind start t]
  | start, o :: os => do
    let part ← between start o t
    return part :: (← cutAll sep t (o + sep.utf8Size) os)

/-- The trimmed parts of a text between the offsets of its outermost separators. -/
def pieces (sep : Char) (t : Text) : Except Fault (List Text) :=
  if t.blank then return []
  else do
    let parts ← cutAll sep t 0 (((positions t).filter (·.2 == sep)).map (·.1))
    return parts.map Text.trim

/-! ### Closing brackets -/

/-- The offset of the bracket that lowers the number of open brackets to zero.  The text begins at the
offset `start`. -/
def closeFrom (b : Bracket) : (depth start : Nat) → (quote : Quote) → (dash : Bool) → Text →
    Except Fault (Option Nat)
  | _, _, _, _, [] => .ok none
  | depth, start, quote, dash, c :: cs =>
    let next := start + c.utf8Size
    if quote.isInside then closeFrom b depth next (quote.step c) dash cs
    else if c = '"' then closeFrom b depth next .inside false cs
    else if c = b.opening then closeFrom b (depth + 1) next .outside false cs
    else if c = b.closing ∧ ¬(c = '>' ∧ dash) then
      match depth with
      | 0 => .error .count
      | 1 => .ok (some start)
      | depth + 2 => closeFrom b (depth + 1) next .outside false cs
    else closeFrom b depth next .outside (c == '-') cs

/-- The byte offset of the bracket that closes the group opened at the byte offset `start`. -/
def closing (start : Nat) (t : Text) : Except Fault (Option Nat) := do
  let rest ← behind start t
  match rest.head?.bind Bracket.ofOpening? with
  | some b => closeFrom b 0 start .outside false rest
  | none => return none

/-! ### Qualifiers -/

/-- The byte offset of the end of the attribute name that the text begins with. -/
def attributeEnd? : Text → Option Nat
  | '@' :: c :: cs =>
    if isAttributeStart c then some (Text.byteSize ('@' :: c :: cs.takeWhile isAttributeChar)) else none
  | _ => none

/-- The text behind the one qualifier at its beginning. -/
def afterQualifier? (t : Text) : Except Fault (Option Text) :=
  match attributeEnd? t with
  | some stop => do
    let rest ← behind stop t
    if rest.head? = some '(' then
      match ← closing stop t with
      | some close => return some (← behind (close + 1) t).trimStart
      | none => return none
    else return some rest.trimStart
  | none =>
    match specifiers.find? fun s => (afterSpecifier? s t).isSome with
    | some s => do
      return some (← behind s.byteSize t).trimStart
    | none => return none

/-- The text without the qualifiers at its beginning. -/
def dropQualifiers (t : Text) : Except Fault Text :=
  match afterQualifier? t with
  | .error fault => .error fault
  | .ok none => .ok t
  | .ok (some rest) => if _h : rest.byteSize < t.byteSize then dropQualifiers rest else .error .round
termination_by t.byteSize

/-- The type that a spelling shows behind its qualifiers. -/
def unqualified (t : Text) : Except Fault Text := do
  return (← dropQualifiers t.trim).squeeze

/-! ### Function types -/

/-- What follows `throws` or `rethrows` and the type of the error. -/
def afterThrows? (t : Text) : Except Fault (Option (Option Text)) :=
  match (afterKeyword? "throws".toList t).or (afterKeyword? "rethrows".toList t) with
  | none => return none
  | some rest =>
    if rest.head? = some '(' then do
      match ← closing 0 rest with
      | some close => return some (some (← behind (close + 1) rest).trimStart)
      | none => return some none
    else return some (some rest)

/-- The effects and the result type that follow a parameter clause. -/
def readEffects? (t : Text) : Except Fault (Option (Bool × Bool × Text)) := do
  let t := t.trimStart
  let (isAsync, t) :=
    match afterKeyword? "async".toList t with
    | some rest => (true, rest)
    | none => (false, t)
  let throwing ← afterThrows? t
  return do
    let (throws, t) ←
      match throwing with
      | some rest => rest.map (true, ·)
      | none => some (false, t)
    let result := (← t.after? "->".toList).trim
    if result.isEmpty then none else some (isAsync, throws, result.squeeze)

/-- The type of one parameter of a function type. -/
def parameterType (t : Text) : Except Fault Text :=
  match position? ':' t with
  | some o => do unqualified (← behind (o + 1) t)
  | none => unqualified t

/-- The function type that an unqualified spelling shows. -/
def readBare? (t : Text) : Except Fault (Option FunctionType) :=
  if t.head? = some '(' then do
    match ← closing 0 t with
    | none => return none
    | some close =>
      let inside ← between 1 close t
      let rest := (← behind (close + 1) t).trim
      if rest.isEmpty then
        if (← pieces ',' inside).length = 1 then
          let next ← unqualified inside
          if _h : next.byteSize < t.byteSize then readBare? next else .error .round
        else return none
      else
        match ← readEffects? rest with
        | none => return none
        | some (isAsync, throws, result) =>
          let parameters ← (← pieces ',' inside).mapM parameterType
          return some { parameters, isAsync, throws, result }
  else return none
termination_by t.byteSize

/-- The function type that a spelling shows. -/
def functionType? (t : Text) : Except Fault (Option FunctionType) := do
  readBare? (← unqualified t)

/-! ### Results and deliveries -/

/-- The result type that a spelling shows. -/
def resultType? (t : Text) : Except Fault (Option ResultType) :=
  match resultArguments? t.trim with
  | none => return none
  | some arguments => do
    let start := t.trim.byteSize - arguments.byteSize
    match ← closing start t.trim with
    | none => return none
    | some close =>
      if close + 1 = t.trim.byteSize then
        match ← pieces ',' (← between (start + 1) close t.trim) with
        | [success, failure] =>
          if success.isEmpty || failure.isEmpty then return none
          else return some { success := success.squeeze, failure := failure.squeeze }
        | _ => return none
      else return none

/-- The only element of a list. -/
def only {α : Type} : List α → Except Fault α
  | [a] => .ok a
  | _ => .error .element

/-- The delivery of a completion of the given type. -/
def delivery (type : Text) (w : Suspension) : Except Fault (Except Refusal Delivery) := do
  match (← functionType? type).filter FunctionType.isCompletion with
  | none => return .error .noCompletion
  | some f =>
    let payload ← only f.parameters
    if w.throwing then
      match ← resultType? payload with
      | some r => return .ok (.result r.success r.failure)
      | none => return .error .noResult
    else return .ok (.value payload)

/-! ### Cuts are made at boundaries -/

lemma ok_bind {α β : Type} (a : α) (f : α → Except Fault β) : (Except.ok a >>= f) = f a := rfl

lemma behind_append (a b : Text) : behind a.byteSize (a ++ b) = .ok b := by
  rw [behind, Text.from?_append]

lemma between_append (a m b : Text) :
    between a.byteSize (a.byteSize + m.byteSize) (a ++ (m ++ b)) = .ok m := by
  rw [between, Text.slice?_append]

/-- The offsets of the separators cut a text into the parts that were joined. -/
lemma cutAll_join (sep : Char) (a s : Text) (ss : List Text) :
    cutAll sep (a ++ Text.join [sep] (s :: ss)) a.byteSize
      (separatorOffsets sep a.byteSize (s :: ss)) = .ok (s :: ss) := by
  induction ss generalizing a s with
  | nil =>
    rw [separatorOffsets, cutAll, Text.join_singleton, behind_append]
    rfl
  | cons u ss ih =>
    have hfront : Text.byteSize (a ++ (s ++ [sep])) = a.byteSize + s.byteSize + sep.utf8Size := by
      simp [Nat.add_assoc]
    have hrest := ih (a ++ (s ++ [sep])) u
    rw [hfront, List.append_assoc, ← Text.join_cons_cons] at hrest
    have hcut : between a.byteSize (a.byteSize + s.byteSize)
        (a ++ Text.join [sep] (s :: u :: ss)) = .ok s := by
      rw [Text.join_cons_cons, List.append_assoc]
      exact between_append a s _
    rw [separatorOffsets, cutAll, hcut, ok_bind, hrest]
    rfl

lemma pieces_eq (sep : Char) (t : Text) : pieces sep t = .ok (Spelling.pieces sep t) := by
  rw [pieces, Spelling.pieces]
  cases hblank : t.blank with
  | true => rfl
  | false =>
    obtain ⟨s, ss, hss⟩ := List.exists_cons_of_ne_nil (segments_ne_nil sep (outermost t))
    have hcuts := cutsAt_segments sep t
    rw [hss] at hcuts
    have hcut := cutAll_join sep [] s ss
    rw [Text.byteSize_nil, List.nil_append, hcuts.joined, hcuts.offsets] at hcut
    rw [hcut, hss]
    rfl

/-! ### The count of open brackets -/

lemma map_behindText {c : Char} (start : Nat) (found : Option (Text × Text)) :
    (Bracket.behindText [c] found).map (fun g => start + g.1.byteSize) =
      found.map fun g => start + c.utf8Size + g.1.byteSize := by
  cases found with
  | none => rfl
  | some g => simp [Bracket.behindText, Nat.add_assoc]

/-- Inside a group the count is never zero: it is one more than the number of groups that were opened in
it and are not closed. -/
lemma closeFrom_succ (b : Bracket) (inner start : Nat) (quote : Quote) (dash : Bool) (t : Text) :
    closeFrom b (inner + 1) start quote dash t =
      .ok ((b.untilClosed inner quote dash t).map fun g => start + g.1.byteSize) := by
  induction t generalizing inner start quote dash with
  | nil => rfl
  | cons c cs ih =>
    rw [closeFrom.eq_def, Bracket.untilClosed_cons]
    dsimp only
    by_cases hinside : quote.isInside = true
    · rw [if_pos hinside, if_pos hinside, ih, map_behindText]
    rw [if_neg hinside, if_neg hinside]
    by_cases hquote : c = '"'
    · rw [if_pos hquote, if_pos hquote, ih, map_behindText]
    rw [if_neg hquote, if_neg hquote]
    by_cases hopening : c = b.opening
    · rw [if_pos hopening, if_pos hopening, ih, map_behindText]
    rw [if_neg hopening, if_neg hopening]
    by_cases hclosing : c = b.closing ∧ ¬(c = '>' ∧ dash = true)
    · rw [if_pos hclosing, if_pos hclosing]
      cases inner with
      | zero => rfl
      | succ inner => exact (ih inner _ _ _).trans (congrArg Except.ok (map_behindText start _).symm)
    · rw [if_neg hclosing, if_neg hclosing, ih, map_behindText]

lemma eq_opening_of_ofOpening? {c : Char} {b : Bracket} (h : Bracket.ofOpening? c = some b) :
    c = b.opening := by
  unfold Bracket.ofOpening? at h
  split at h <;> simp at h <;> subst h <;> rfl

/-- At a boundary the closing bracket of the group is found that begins there. -/
lemma closing_append (a rest : Text) :
    closing a.byteSize (a ++ rest) =
      .ok ((group? rest).map fun g => a.byteSize + 1 + g.1.byteSize) := by
  rw [closing, behind_append, ok_bind]
  cases rest with
  | nil => rfl
  | cons c cs =>
    rw [List.head?_cons, Option.bind_some, group?]
    cases hb : Bracket.ofOpening? c with
    | none => rfl
    | some b =>
      obtain rfl := eq_opening_of_ofOpening? hb
      have hquote : b.opening ≠ '"' := by cases b <;> decide
      dsimp only
      rw [closeFrom, if_neg (by decide), if_neg hquote, if_pos rfl, closeFrom_succ,
        b.utf8Size_opening]

/-- The only fault of the search is to begin at an offset that is no boundary. -/
lemma closing_eq (start : Nat) (t : Text) :
    closing start t = (closingOffset start t).mapError fun _ => .cut := by
  rw [closingOffset]
  cases hrest : t.from? start with
  | none =>
    rw [closing, behind, hrest]
    rfl
  | some rest =>
    obtain ⟨⟨a, u⟩, hsplit, rfl⟩ := Option.map_eq_some_iff.1 hrest
    obtain ⟨rfl, rfl⟩ := Text.splitAt?_eq_some hsplit
    exact closing_append a u

/-- What a group encloses and what follows it are cut out at the offset of its closing bracket. -/
lemma cuts_of_group? (a : Text) {rest inside after : Text} (h : group? rest = some (inside, after)) :
    between (a.byteSize + 1) (a.byteSize + 1 + inside.byteSize) (a ++ rest) = .ok inside ∧
      behind (a.byteSize + 1 + inside.byteSize + 1) (a ++ rest) = .ok after := by
  obtain ⟨b, rfl⟩ := eq_of_group? h
  have hsize := And.intro b.utf8Size_opening b.utf8Size_closing
  constructor
  · have hfront : Text.byteSize (a ++ [b.opening]) = a.byteSize + 1 := by simp [hsize.1]
    have hcut := between_append (a ++ [b.opening]) inside (b.closing :: after)
    rw [hfront] at hcut
    simpa using hcut
  · have hfront : Text.byteSize (a ++ b.opening :: inside ++ [b.closing]) =
        a.byteSize + 1 + inside.byteSize + 1 := by
      simp [hsize.1, hsize.2, Nat.add_assoc]
    have hcut := behind_append (a ++ b.opening :: inside ++ [b.closing]) after
    rw [hfront] at hcut
    simpa using hcut

/-- The group at the beginning of a text is cut out. -/
lemma closing_zero (t : Text) : closing 0 t = .ok ((group? t).map fun g => 1 + g.1.byteSize) := by
  have h := closing_append [] t
  rwa [Text.byteSize_nil, List.nil_append, Nat.zero_add] at h

lemma cuts_zero {t inside after : Text} (h : group? t = some (inside, after)) :
    between 1 (1 + inside.byteSize) t = .ok inside ∧
      behind (1 + inside.byteSize + 1) t = .ok after := by
  have h := cuts_of_group? [] h
  rwa [Text.byteSize_nil, List.nil_append, Nat.zero_add] at h

/-! ### Qualifiers are taken away -/

lemma find?_bind {α β : Type} (f : α → Option β) (l : List α) :
    (l.find? fun a => (f a).isSome).bind f = l.findSome? f := by
  induction l with
  | nil => rfl
  | cons a l ih =>
    rw [List.find?_cons, List.findSome?_cons]
    cases hf : f a with
    | none => exact ih
    | some b => exact hf

/-- Without the name of an attribute there is no attribute. -/
lemma afterAttribute?_of_attributeEnd?_eq_none {t : Text} (h : attributeEnd? t = none) :
    afterAttribute? t = none := by
  unfold attributeEnd? at h
  split at h
  · split at h
    · cases h
    · next hstart => rw [afterAttribute?_cons, if_neg hstart]
  · next hother =>
    unfold afterAttribute?
    split
    · exact absurd rfl (hother _ _)
    · rfl

/-- The name of an attribute is cut off, and the attribute goes on with its arguments. -/
lemma exists_of_attributeEnd?_eq_some {t : Text} {stop : Nat} (h : attributeEnd? t = some stop) :
    ∃ name rest, t = name ++ rest ∧ name.byteSize = stop ∧ t.head? = some '@' ∧
      afterAttribute? t = afterArguments? rest := by
  unfold attributeEnd? at h
  split at h
  · next c cs =>
    split at h
    · next hstart =>
      obtain rfl := Option.some.inj h
      refine ⟨'@' :: c :: cs.takeWhile isAttributeChar, cs.dropWhile isAttributeChar, ?_, rfl, rfl, ?_⟩
      · rw [List.cons_append, List.cons_append, List.takeWhile_append_dropWhile]
      · rw [afterAttribute?_cons, if_pos hstart]
    · cases h
  · cases h

lemma afterQualifier?_eq (t : Text) : afterQualifier? t = .ok (Spelling.afterQualifier? t) := by
  rw [afterQualifier?, Spelling.afterQualifier?]
  cases hend : attributeEnd? t with
  | none =>
    rw [afterAttribute?_of_attributeEnd?_eq_none hend, Option.none_or, ← find?_bind]
    cases hfind : specifiers.find? fun s => (afterSpecifier? s t).isSome with
    | none => rfl
    | some s =>
      have hsome : (afterSpecifier? s t).isSome = true := by simpa using List.find?_some hfind
      obtain ⟨rest, hrest⟩ := Option.isSome_iff_exists.1 hsome
      obtain ⟨rfl, -⟩ := exists_of_afterSpecifier? hrest
      dsimp only
      rw [behind_append, ok_bind, Option.bind_some, hrest]
      rfl
  | some stop =>
    obtain ⟨name, rest, ht, rfl, hhead, hattribute⟩ := exists_of_attributeEnd?_eq_some hend
    have hspecifier : specifiers.findSome? (afterSpecifier? · t) = none := by
      obtain ⟨u, rfl⟩ := List.head?_eq_some_iff.1 hhead
      exact findSome?_specifiers_of_head (by decide) u
    dsimp only
    rw [hattribute, hspecifier, Option.or_none, ht, behind_append, ok_bind]
    by_cases hopen : rest.head? = some '('
    · obtain ⟨args, rfl⟩ := List.head?_eq_some_iff.1 hopen
      rw [if_pos hopen, closing_append, ok_bind, afterArguments?]
      cases hgroup : group? ('(' :: args) with
      | none => rfl
      | some g =>
        have hcut := (cuts_of_group? name hgroup).2
        rw [Option.map_some]
        dsimp only
        rw [hcut]
        rfl
    · rw [if_neg hopen, afterArguments?_of_head hopen]
      rfl

end Guarded

lemma byteSize_lt_of_afterQualifier? {t rest : Text} (h : Spelling.afterQualifier? t = some rest) :
    rest.byteSize < t.byteSize := by
  obtain ⟨x, rfl⟩ := isSuffix_of_afterQualifier? h
  have hlength := length_of_afterQualifier? h
  have hx : x ≠ [] := by
    rintro rfl
    simp at hlength
  have hpos := Text.byteSize_pos hx
  rw [Text.byteSize_append]
  omega

namespace Guarded

lemma dropQualifiers_eq (t : Text) : dropQualifiers t = .ok (Spelling.dropQualifiers t) := by
  fun_induction Spelling.dropQualifiers t with
  | case1 t rest h ih =>
    rw [dropQualifiers.eq_def, afterQualifier?_eq, h]
    dsimp only
    rw [dif_pos (byteSize_lt_of_afterQualifier? h), ih]
  | case2 t h => rw [dropQualifiers.eq_def, afterQualifier?_eq, h]

lemma unqualified_eq (t : Text) : unqualified t = .ok (Spelling.unqualified t) := by
  rw [unqualified, dropQualifiers_eq]
  rfl

/-! ### Function types are taken apart -/

lemma afterThrows?_eq (t : Text) : afterThrows? t = .ok (Spelling.afterThrows? t) := by
  rw [afterThrows?, Spelling.afterThrows?]
  cases (afterKeyword? "throws".toList t).or (afterKeyword? "rethrows".toList t) with
  | none => rfl
  | some rest =>
    dsimp only
    by_cases hopen : rest.head? = some '('
    · obtain ⟨error, rfl⟩ := List.head?_eq_some_iff.1 hopen
      rw [if_pos hopen, closing_zero, ok_bind, Option.map_some]
      cases hgroup : group? ('(' :: error) with
      | none => rfl
      | some g =>
        have hcut := (cuts_zero hgroup).2
        rw [Option.map_some]
        dsimp only
        rw [hcut]
        rfl
    · rw [if_neg hopen, Option.map_some]
      split
      · exact absurd rfl hopen
      · rfl

lemma readEffects?_eq (t : Text) : readEffects? t = .ok (Spelling.readEffects? t) := by
  rw [readEffects?, Spelling.readEffects?]
  cases afterKeyword? "async".toList t.trimStart with
  | none =>
    dsimp only
    rw [afterThrows?_eq, ok_bind]
    cases Spelling.afterThrows? t.trimStart <;> rfl
  | some rest =>
    dsimp only
    rw [afterThrows?_eq, ok_bind]
    cases Spelling.afterThrows? rest <;> rfl

/-- The two searches for the first marked occurrence of a character agree: where it stands, and what
follows it. -/
lemma find?_positionsFrom_cases (c : Char) (ms : List (Char × Bool)) (start : Nat) :
    ((positionsFrom start ms).find? (fun p => p.2 == c) = none ∧ behind? c ms = none) ∨
      ∃ a rest : Text, ms.map (·.1) = a ++ c :: rest ∧
        (positionsFrom start ms).find? (fun p => p.2 == c) = some (start + a.byteSize, c) ∧
        behind? c ms = some rest := by
  induction ms generalizing start with
  | nil => exact Or.inl ⟨rfl, rfl⟩
  | cons m ms ih =>
    obtain ⟨d, marked⟩ := m
    cases hfound : marked && d == c with
    | true =>
      obtain ⟨rfl, rfl⟩ : marked = true ∧ d = c := by simpa using hfound
      refine Or.inr ⟨[], ms.map (·.1), rfl, ?_, ?_⟩
      · rw [positionsFrom, List.find?_cons_of_pos (by simp)]
        rfl
      · rw [behind?, if_pos hfound]
    | false =>
      have hbehind : behind? c ((d, marked) :: ms) = behind? c ms := by
        rw [behind?, hfound]
        rfl
      have hpositions : (positionsFrom start ((d, marked) :: ms)).find? (fun p => p.2 == c) =
          (positionsFrom (start + d.utf8Size) ms).find? (fun p => p.2 == c) := by
        cases marked with
        | false => rfl
        | true => rw [positionsFrom, List.find?_cons_of_neg (by simpa using hfound)]
      rw [hbehind, hpositions]
      refine (ih (start + d.utf8Size)).imp id ?_
      rintro ⟨a, rest, ha, hfind, hrest⟩
      refine ⟨d :: a, rest, by rw [List.map_cons, ha]; rfl, ?_, hrest⟩
      rw [hfind, Text.byteSize_cons, Nat.add_assoc]

lemma position?_cases (c : Char) (t : Text) :
    (position? c t = none ∧ behind? c (outermost t) = none) ∨
      ∃ a rest : Text, t = a ++ c :: rest ∧ position? c t = some a.byteSize ∧
        behind? c (outermost t) = some rest := by
  have ht : (outermost t).map (·.1) = t := map_fst_marks {} t
  refine (find?_positionsFrom_cases c (outermost t) 0).imp ?_ ?_
  · rintro ⟨hfind, hbehind⟩
    rw [position?, positions, hfind]
    exact ⟨rfl, hbehind⟩
  · rintro ⟨a, rest, ha, hfind, hbehind⟩
    refine ⟨a, rest, ht.symm.trans ha, ?_, hbehind⟩
    rw [position?, positions, hfind, Option.map_some, Nat.zero_add]

lemma parameterType_eq (t : Text) : parameterType t = .ok (Spelling.parameterType t) := by
  rw [parameterType, Spelling.parameterType]
  rcases position?_cases ':' t with ⟨hposition, hbehind⟩ | ⟨a, rest, ht, hposition, hbehind⟩
  · rw [hposition, hbehind]
    exact unqualified_eq t
  · have hcut : behind (a.byteSize + 1) t = .ok rest := by
      have hcut := behind_append (a ++ [':']) rest
      rwa [Text.byteSize_append, List.append_assoc, List.singleton_append, ← ht] at hcut
    rw [hposition, hbehind]
    dsimp only
    rw [hcut]
    exact unqualified_eq rest

lemma mapM_parameterType (ts : List Text) :
    ts.mapM parameterType = .ok (ts.map Spelling.parameterType) := by
  induction ts with
  | nil => rfl
  | cons t ts ih =>
    rw [List.mapM_cons, parameterType_eq, ok_bind, ih]
    rfl

end Guarded

/-! ### What is shown within parentheses is smaller -/

lemma byteSize_le_of_sublist {t u : Text} (h : t.Sublist u) : t.byteSize ≤ u.byteSize := by
  induction h with
  | slnil => exact Nat.le_refl _
  | cons c h ih =>
    rw [Text.byteSize_cons]
    omega
  | cons_cons c h ih =>
    rw [Text.byteSize_cons, Text.byteSize_cons]
    omega

/-- A gap is squeezed into one space, and no blank is smaller than a space. -/
lemma byteSize_squeeze_le : ∀ t : Text, t.squeeze.byteSize ≤ t.byteSize
  | [] => Nat.le_refl _
  | [c] => by
    cases hc : Text.isBlank c with
    | true =>
      rw [Text.squeeze_cons_blank hc]
      exact Nat.zero_le _
    | false => rw [Text.squeeze_cons_of_blank hc rfl]
  | c :: d :: t => by
    have hnext := byteSize_squeeze_le (d :: t)
    cases hc : Text.isBlank c with
    | true =>
      rw [Text.squeeze_cons_blank hc, Text.byteSize_cons]
      omega
    | false =>
      cases hd : Text.isBlank d with
      | false =>
        rw [Text.squeeze_cons_cons hc hd, Text.byteSize_cons, Text.byteSize_cons c]
        omega
      | true =>
        cases hblank : Text.blank (d :: t) with
        | true =>
          rw [Text.squeeze_cons_of_blank hc hblank, Text.byteSize_cons, Text.byteSize_cons]
          exact Nat.add_le_add_left (Nat.zero_le _) _
        | false =>
          have hrest := byteSize_squeeze_le t
          have hspace : ' '.utf8Size = 1 := rfl
          have hpos := d.utf8Size_pos
          rw [Text.squeeze_cons_cons_blank hc hd hblank, Text.squeeze_cons_blank hd]
          simp only [List.singleton_append, Text.byteSize_cons, hspace]
          omega

lemma isSuffix_dropQualifiers (t : Text) : dropQualifiers t <:+ t := by
  fun_induction dropQualifiers t with
  | case1 t rest h ih => exact ih.trans (isSuffix_of_afterQualifier? h)
  | case2 t h => exact List.suffix_refl t

lemma isInfix_trim (t : Text) : t.trim <:+: t := by
  obtain ⟨x, y, -, -, ht⟩ := Text.exists_trim t
  exact ⟨x, y, ht.symm⟩

/-- What the parentheses around a type enclose is smaller than the type. -/
lemma byteSize_unqualified_lt {t inside rest : Text} (h : group? t = some (inside, rest)) :
    (unqualified inside).byteSize < t.byteSize := by
  have hsqueeze := byteSize_squeeze_le (dropQualifiers inside.trim)
  have hinside := byteSize_le_of_sublist
    ((isSuffix_dropQualifiers inside.trim).sublist.trans (isInfix_trim inside).sublist)
  obtain ⟨b, rfl⟩ := eq_of_group? h
  have hpos := b.opening.utf8Size_pos
  rw [unqualified, Text.byteSize_append, Text.byteSize_cons]
  omega

lemma FunctionType.readBare?_of_group?_eq_none {cs : Text} (h : group? ('(' :: cs) = none) :
    readBare? ('(' :: cs) = none := by
  rw [readBare?]
  split
  · rfl
  · next hgroup =>
    rw [h] at hgroup
    cases hgroup

namespace Guarded

/-- Behind a group there is either nothing, and the one type in it is read, or there are effects. -/
lemma readBare?_of_group {cs inside rest : Text} (h : group? ('(' :: cs) = some (inside, rest)) :
    readBare? ('(' :: cs) =
      if rest.trim.isEmpty then
        if (Spelling.pieces ',' inside).length = 1 then readBare? (Spelling.unqualified inside)
        else .ok none
      else
        .ok ((Spelling.readEffects? rest.trim).map fun (isAsync, throws, result) =>
          { parameters := (Spelling.pieces ',' inside).map Spelling.parameterType,
            isAsync, throws, result }) := by
  obtain ⟨hinside, hrest⟩ := cuts_zero h
  rw [readBare?.eq_def, if_pos (by rfl), closing_zero, ok_bind, h, Option.map_some]
  dsimp only
  rw [hinside, ok_bind, hrest, ok_bind, pieces_eq]
  split
  · rw [ok_bind]
    split
    · rw [unqualified_eq, ok_bind, dif_pos (byteSize_unqualified_lt h)]
    · rfl
  · rw [readEffects?_eq, ok_bind]
    cases Spelling.readEffects? rest.trim with
    | none => rfl
    | some effects =>
      obtain ⟨isAsync, throws, result⟩ := effects
      dsimp only
      rw [ok_bind, mapM_parameterType]
      rfl

lemma readBare?_eq (t : Text) : readBare? t = .ok (FunctionType.readBare? t) := by
  induction hn : t.byteSize using Nat.strong_induction_on generalizing t with
  | h n ih =>
    by_cases hopen : t.head? = some '('
    · obtain ⟨cs, rfl⟩ := List.head?_eq_some_iff.1 hopen
      cases hgroup : group? ('(' :: cs) with
      | none =>
        rw [readBare?.eq_def, if_pos hopen, closing_zero, ok_bind, hgroup,
          FunctionType.readBare?_of_group?_eq_none hgroup]
        rfl
      | some g =>
        obtain ⟨inside, rest⟩ := g
        have hnext := ih _ (hn ▸ byteSize_unqualified_lt hgroup) (Spelling.unqualified inside) rfl
        rw [readBare?_of_group hgroup, FunctionType.readBare?_of_group hgroup, hnext]
        by_cases hempty : rest.trim.isEmpty = true
        · rw [if_pos hempty, if_pos hempty]
          by_cases hone : (Spelling.pieces ',' inside).length = 1
          · rw [if_pos hone, if_pos hone]
          · rw [if_neg hone, if_neg hone]
        · rw [if_neg hempty, if_neg hempty]
    · rw [readBare?.eq_def, if_neg hopen, FunctionType.readBare?_of_head hopen]
      rfl

lemma functionType?_eq (t : Text) : functionType? t = .ok (FunctionType.read? t) := by
  rw [functionType?, unqualified_eq, ok_bind, readBare?_eq, FunctionType.read?]

/-! ### Results are taken apart -/

/-- A group ends the text if its closing bracket is the last character. -/
lemma size_of_group? {t inside rest : Text} (h : group? t = some (inside, rest)) :
    1 + inside.byteSize + 1 = t.byteSize ↔ rest = [] := by
  obtain ⟨b, rfl⟩ := eq_of_group? h
  have hsize := And.intro b.utf8Size_opening b.utf8Size_closing
  rw [Text.byteSize_append, Text.byteSize_cons, Text.byteSize_cons, hsize.1, hsize.2]
  constructor
  · intro hend
    by_contra hne
    have hpos := Text.byteSize_pos hne
    omega
  · rintro rfl
    rw [Text.byteSize_nil]

lemma resultType?_eq (t : Text) : resultType? t = .ok (ResultType.read? t) := by
  rw [resultType?, ResultType.read?_eq]
  cases hhead : resultArguments? t.trim with
  | none => rfl
  | some arguments =>
    obtain ⟨-, c, x, ht, -⟩ := ResultType.exists_of_resultArguments? hhead
    rw [← List.cons_append] at ht
    have hstart : t.trim.byteSize - arguments.byteSize = Text.byteSize (c :: x) := by
      rw [ht, Text.byteSize_append]
      omega
    dsimp only
    rw [hstart, Option.bind_some, ResultType.readArguments?, ht, closing_append, ok_bind]
    cases hgroup : group? arguments with
    | none => rfl
    | some g =>
      obtain ⟨inside, rest⟩ := g
      have hend := size_of_group? hgroup
      have hwhole : Text.byteSize (c :: x) + 1 + inside.byteSize + 1 = Text.byteSize (c :: x ++ arguments) ↔
          rest = [] := by
        rw [← hend, Text.byteSize_append]
        omega
      rw [Option.map_some]
      dsimp only
      rw [(cuts_of_group? (c :: x) hgroup).1, ok_bind, pieces_eq, ok_bind, Option.bind_eq_bind,
        Option.bind_some]
      dsimp only
      by_cases hrest : rest = []
      · obtain rfl := hrest
        rw [if_pos (hwhole.2 rfl), if_neg (by decide)]
        rcases Spelling.pieces ',' inside with _ | ⟨success, _ | ⟨failure, _ | ⟨u, us⟩⟩⟩
        · rfl
        · rfl
        · dsimp only
          split <;> rfl
        · rfl
      · rw [if_neg (mt hwhole.1 hrest), if_pos (by simpa using hrest)]
        rfl

/-! ### Deliveries -/

lemma delivery_eq (type : Text) (w : Suspension) :
    delivery type w = .ok (Delivery.ofType type w) := by
  rw [delivery, functionType?_eq, ok_bind, Delivery.ofType, Delivery.payload?]
  cases FunctionType.read? type with
  | none => rfl
  | some f =>
    rw [Option.filter_some]
    dsimp only
    cases hcompletion : f.isCompletion with
    | false => rfl
    | true =>
      have hone : f.parameters.length = 1 := by
        simp [FunctionType.isCompletion] at hcompletion
        exact hcompletion.1.1.1
      obtain ⟨payload, hpayload⟩ := List.length_eq_one_iff.1 hone
      rw [if_pos rfl, if_pos rfl]
      dsimp only
      rw [hpayload, only, ok_bind, List.head?_cons]
      cases w.throwing with
      | false => rfl
      | true =>
        rw [if_pos rfl, resultType?_eq, ok_bind]
        dsimp only
        rw [if_pos rfl]
        cases ResultType.read? payload <;> rfl

end Guarded

/-! ### Scanned offsets -/

lemma exists_of_mem_positionsFrom {o : Nat} {c : Char} {ms : List (Char × Bool)} {start : Nat}
    (h : (o, c) ∈ positionsFrom start ms) :
    ∃ a rest : Text, ms.map (·.1) = a ++ c :: rest ∧ o = start + a.byteSize := by
  induction ms generalizing start with
  | nil => cases h
  | cons m ms ih =>
    have hlater : ∀ {d : Char} {marked : Bool}, (o, c) ∈ positionsFrom (start + d.utf8Size) ms →
        ∃ a rest : Text, ((d, marked) :: ms).map (·.1) = a ++ c :: rest ∧ o = start + a.byteSize := by
      intro d marked hmem
      obtain ⟨a, rest, ha, ho⟩ := ih hmem
      exact ⟨d :: a, rest, by rw [List.map_cons, ha]; rfl, by rw [ho, Text.byteSize_cons, Nat.add_assoc]⟩
    obtain ⟨d, marked⟩ := m
    cases marked with
    | false => exact hlater h
    | true =>
      rcases List.mem_cons.1 h with hfirst | hmem
      · obtain ⟨rfl, rfl⟩ := Prod.mk.inj hfirst
        exact ⟨[], ms.map (·.1), rfl, rfl⟩
      · exact hlater hmem

lemma standsAt_of_mem_positions {t : Text} {o : Nat} {c : Char} (h : (o, c) ∈ positions t) :
    t.StandsAt o c := by
  obtain ⟨a, rest, ha, rfl⟩ := exists_of_mem_positionsFrom h
  rw [outermost, map_fst_marks] at ha
  exact ⟨a, rest, ha, (Nat.zero_add _).symm⟩

lemma standsAt_of_closingOffset {t : Text} {start o : Nat} (h : closingOffset start t = .ok (some o)) :
    start < o ∧ ∃ b : Bracket, t.StandsAt start b.opening ∧ t.StandsAt o b.closing := by
  unfold closingOffset at h
  split at h
  · cases h
  · next u hu =>
    obtain ⟨⟨a, u⟩, hsplit, rfl⟩ := Option.map_eq_some_iff.1 hu
    obtain ⟨rfl, rfl⟩ := Text.splitAt?_eq_some hsplit
    obtain ⟨⟨inside, rest⟩, hgroup, rfl⟩ := Option.map_eq_some_iff.1 (Except.ok.inj h)
    obtain ⟨b, rfl⟩ := eq_of_group? hgroup
    refine ⟨by dsimp only; omega, b, ⟨a, inside ++ b.closing :: rest, by simp, rfl⟩,
      a ++ b.opening :: inside, rest, by simp, ?_⟩
    rw [Text.byteSize_append, Text.byteSize_cons, b.utf8Size_opening, Nat.add_assoc]

/-! ### No guard ends a run -/

/-- What the guards come to in the readers of one text. -/
structure NeverFaults (t : Text) (w : Suspension) : Prop where
  unqualified : Guarded.unqualified t = .ok (Spelling.unqualified t)
  functionType : Guarded.functionType? t = .ok (FunctionType.read? t)
  resultType : Guarded.resultType? t = .ok (ResultType.read? t)
  delivery : Guarded.delivery t w = .ok (Delivery.ofType t w)
  /-- The search for a closing bracket never lowers a count of zero: it fails only at an offset at which
  the text cannot be cut. -/
  closing : ∀ start, Guarded.closing start t = (closingOffset start t).mapError fun _ => .cut
  /-- A bracket that closes a group stands at the offset that is found, behind the one that opens it. -/
  closes : ∀ start o, closingOffset start t = .ok (some o) →
    start < o ∧ ∃ b : Bracket, t.StandsAt start b.opening ∧ t.StandsAt o b.closing
  /-- Outermost characters stand at the offsets that are found. -/
  stands : ∀ p ∈ positions t, t.StandsAt p.1 p.2
  /-- Without its first qualifier the text is smaller. -/
  qualifier_round : ∀ rest, afterQualifier? t = some rest → rest.byteSize < t.byteSize
  /-- Without the parentheses around it, and laid out anew, the text is smaller. -/
  parentheses_round : ∀ inside rest, group? t = some (inside, rest) →
    (Spelling.unqualified inside).byteSize < t.byteSize

/-- **No guard ends a run.**  Whatever the text and the way of waiting, the guarded readers have the
results of the readers they guard, and the scans behind them find offsets at which the text can be
cut. -/
theorem guards_hold (t : Text) (w : Suspension) : NeverFaults t w where
  unqualified := Guarded.unqualified_eq t
  functionType := Guarded.functionType?_eq t
  resultType := Guarded.resultType?_eq t
  delivery := Guarded.delivery_eq t w
  closing start := Guarded.closing_eq start t
  closes _ _ h := standsAt_of_closingOffset h
  stands _ h := standsAt_of_mem_positions h
  qualifier_round _ h := byteSize_lt_of_afterQualifier? h
  parentheses_round _ _ h := byteSize_unqualified_lt h

/-- The guards do find faults: a cut inside a character, and a closing bracket with none open. -/
example : Guarded.behind 1 "é".toList = .error .cut ∧
    Guarded.closeFrom .round 0 0 .outside false ")".toList = .error .count := by
  decide

end Spelling

end AsyncPeer
