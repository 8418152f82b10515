/-
# The body of a peer

The body waits for the completion of the function it stands for: it calls the function once, with a
closure that resumes the continuation once on each of its paths.
-/
import AsyncPeer.Delivery
import AsyncPeer.Generator

namespace AsyncPeer

/-- One line of a body. -/
structure Line where
  /-- The number of blocks around the line. -/
  depth : Nat
  /-- The line without its indentation. -/
  text : Text
deriving DecidableEq, Repr

namespace Receiver

/-- What is written in front of the name of the function. -/
def lead : Receiver → Text
  | instanceSelf => "self.".toList
  | typeSelf => "Self.".toList
  | none => []

end Receiver

namespace Body

/-- The end of a line that opens a closure with one parameter. -/
def closure (parameter : Text) : Text :=
  " \x7b ".toList ++ parameter ++ " in".toList

/-- The call of the function.  Its own result is not used, and an empty argument list is left
out. -/
def call (s : Signature) (arguments : Text) : Text :=
  (if s.returnsValue then "_ = ".toList else []) ++ s.receiver.lead ++ s.name ++
    (if arguments.isEmpty then [] else '(' :: arguments ++ [')'])

/-- A call that resumes the continuation. -/
def resume (continuation label argument : Text) : Text :=
  continuation ++ ".resume(".toList ++ label ++ ": ".toList ++ argument ++ [')']

/-- The name of what the completion delivers. -/
def argument (style : Style) : Delivery → Text
  | .value _ => style.value
  | .result _ _ => style.result

/-- The lines inside the completion. -/
def resumption (style : Style) (d : Delivery) : List Line :=
  let resume := resume style.continuation
  match d with
  | .value _ => [⟨2, resume "returning".toList style.value⟩]
  | .result _ _ =>
    [⟨2, "switch ".toList ++ style.result ++ " \x7b".toList⟩,
      ⟨2, "case .success(let value):".toList⟩,
      ⟨3, resume "returning".toList "value".toList⟩,
      ⟨2, "case .failure(let error):".toList⟩,
      ⟨3, resume "throwing".toList "error".toList⟩,
      ⟨2, "\x7d".toList⟩]

/-- The lines of a body that waits for the completion of the function `s`, called with the given
arguments. -/
def lines (s : Signature) (d : Delivery) (w : Suspension) (arguments : Text) (style : Style) :
    List Line :=
  [⟨0, w.awaiting ++ ' ' :: w.primitive ++ closure style.continuation⟩,
    ⟨1, call s arguments ++ closure (argument style d)⟩] ++
  resumption style d ++
  [⟨1, "\x7d".toList⟩, ⟨0, "\x7d".toList⟩]

end Body

end AsyncPeer
