/-
# Bracketed groups

A group is an opening bracket, what it encloses, and its own closing bracket.  Only brackets of the
same kind are counted, string literals are passed over, and the `>` of an arrow closes nothing.
-/
import AsyncPeer.Spelling.Nesting

namespace AsyncPeer.Spelling

/-- The four kinds of brackets. -/
inductive Bracket where
  | round
  | square
  | curly
  | angle
deriving DecidableEq, Repr

namespace Bracket

/-- The kind whose opening bracket the character is. -/
def ofOpening? : Char → Option Bracket
  | '(' => some round
  | '[' => some square
  | '{' => some curly
  | '<' => some angle
  | _ => none

/-- The opening bracket. -/
def opening : Bracket → Char
  | round => '('
  | square => '['
  | curly => '{'
  | angle => '<'

/-- The closing bracket. -/
def closing : Bracket → Char
  | round => ')'
  | square => ']'
  | curly => '}'
  | angle => '>'

/-- What stands before and after the bracket that closes the group the scan is in.  `inner` counts
the groups of the same kind opened since, and `dash` says that the last character outside literals
was a `-`. -/
def untilClosed (b : Bracket) : (inner : Nat) → (quote : Quote) → (dash : Bool) → Text →
    Option (Text × Text)
  | _, _, _, [] => none
  | inner, quote, dash, c :: cs =>
    let add := Option.map fun (group : Text × Text) => (c :: group.1, group.2)
    if quote.isInside then add (untilClosed b inner (quote.step c) dash cs)
    else if c = '"' then add (untilClosed b inner .inside false cs)
    else if c = b.opening then add (untilClosed b (inner + 1) .outside false cs)
    else if c = b.closing ∧ ¬(c = '>' ∧ dash) then
      match inner with
      | 0 => some ([], cs)
      | inner + 1 => add (untilClosed b inner .outside false cs)
    else add (untilClosed b inner .outside (c == '-') cs)

/-- The scan loses only the closing bracket. -/
theorem eq_of_untilClosed {b : Bracket} {inner : Nat} {quote : Quote} {dash : Bool}
    {t inside rest : Text} (h : b.untilClosed inner quote dash t = some (inside, rest)) :
    t = inside ++ b.closing :: rest := by
  induction t generalizing inner quote dash inside with
  | nil => simp [untilClosed] at h
  | cons c cs ih =>
    have step : ∀ {inner' quote' dash'},
        (b.untilClosed inner' quote' dash' cs).map
          (fun (group : Text × Text) => (c :: group.1, group.2)) = some (inside, rest) →
        c :: cs = inside ++ b.closing :: rest := by
      intro inner' quote' dash' h
      obtain ⟨⟨i, r⟩, hi, heq⟩ := Option.map_eq_some_iff.1 h
      obtain ⟨rfl, rfl⟩ := heq
      simp [ih hi]
    simp only [untilClosed] at h
    split at h
    · exact step h
    · split at h
      · exact step h
      · split at h
        · exact step h
        · split at h
          · next hc =>
            split at h
            · simp only [Option.some.injEq, Prod.mk.injEq] at h
              obtain ⟨rfl, rfl⟩ := h
              simp [hc.1]
            · exact step h
          · exact step h

end Bracket

/-- If the text begins with a group, what the group encloses and what follows it. -/
def group? : Text → Option (Text × Text)
  | [] => none
  | c :: cs =>
    match Bracket.ofOpening? c with
    | some b => b.untilClosed 0 .outside false cs
    | none => none

/-- The group, its two brackets and the rest make up the text. -/
theorem eq_of_group? {t inside rest : Text} (h : group? t = some (inside, rest)) :
    ∃ b : Bracket, t = b.opening :: inside ++ b.closing :: rest := by
  match t with
  | [] => simp [group?] at h
  | c :: cs =>
    rw [group?] at h
    split at h
    · next b hb =>
      refine ⟨b, ?_⟩
      have hc : c = b.opening := by
        unfold Bracket.ofOpening? at hb
        split at hb <;> simp at hb <;> subst hb <;> rfl
      simp [hc, Bracket.eq_of_untilClosed h]
    · simp at h

theorem length_of_group? {t inside rest : Text} (h : group? t = some (inside, rest)) :
    inside.length + rest.length + 2 = t.length := by
  obtain ⟨b, rfl⟩ := eq_of_group? h
  simp
  omega

/-- A byte offset at which a text cannot be cut. -/
structure BadOffset where
  /-- The offset. -/
  offset : Nat
deriving DecidableEq, Repr

/-- The byte offset of the bracket that closes the group opened at the byte offset `start`; there
is none if no group begins there or if it is never closed. -/
def closingOffset (start : Nat) (t : Text) : Except BadOffset (Option Nat) :=
  match t.from? start with
  | none => .error ⟨start⟩
  | some rest => .ok ((group? rest).map fun g => start + 1 + g.1.byteSize)

end AsyncPeer.Spelling
