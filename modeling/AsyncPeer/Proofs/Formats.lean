/-
# Two formats, one peer

A peer can be asked for as text or as JSON.  Whether there is one does not depend on the format, and
neither does what it says: the JSON form, read back from the text it is written as, is enough to write
the peer out (`formats_agree`).

`PeerFields` is what the JSON form says.  It has the two facts about a peer that are written twice, the
shape of what the completion delivers and whether the peer throws, as two fields, because a reader of
the JSON form finds them there.  The lines of a body are read with their depths, and the depths are
numbers of one digit.
-/
import AsyncPeer.Proofs.Handover

namespace AsyncPeer.Exchange

/-! ### What the JSON form says -/

/-- The fields in the JSON form of a peer, except for the way of waiting. -/
structure PeerFields where
  name : Text
  modifiers : List Text
  generics : Option Text
  /-- The parameter clause without its parentheses. -/
  clause : Text
  delivery : Delivery
  throws : Bool
  requirements : Option Text
  body : List Line
deriving DecidableEq, Repr

/-- The number that a JSON value stands for. -/
def count? : Json → Option Nat
  | .number lexeme => Number.read? 10 lexeme
  | _ => none

/-- What a completion delivers, by its shape. -/
def readDelivery? (j : Json) : Option Delivery := do
  let (shape, r) ← (← Record.ofJson? j).next? (textField "shape")
  if shape == "plain_value".toList then
    let (payload, _) ← r.next? (textField "payload")
    return .value payload
  else if shape == "result_pair".toList then
    let (success, r) ← r.next? (textField "success")
    let (failure, _) ← r.next? (textField "failure")
    return .result success failure
  else none

/-- A line of a body. -/
def readLine? (j : Json) : Option Line := do
  let (depth, r) ← (← Record.ofJson? j).next? { name := "depth".toList, read := count? }
  let (text, _) ← r.next? (textField "text")
  return { depth, text }

/-- The fields of a peer. -/
def readPeer? (j : Json) : Option PeerFields := do
  let (name, r) ← (← Record.ofJson? j).next? (textField "name")
  let (modifiers, r) ← r.next?
    { name := "modifiers".toList, read := (·.items?.bind (·.mapM Json.text?)) }
  let (generics, r) ← r.next? (optionalField "generic_clause")
  let (clause, r) ← r.next? (textField "parameters")
  let (delivery, r) ← r.next? { name := "shape".toList, read := readDelivery? }
  let (throws, r) ← r.next? { name := "throws".toList, read := Json.bool? }
  let (requirements, r) ← r.next? (optionalField "where_clause")
  let (body, _) ← r.next? { name := "body".toList, read := (·.items?.bind (·.mapM readLine?)) }
  return { name, modifiers, generics, clause, delivery, throws, requirements, body }

namespace PeerFields

/-- The result type, which is left out for the empty tuple. -/
def result? (f : PeerFields) : Option Text :=
  if Spelling.isVoid f.delivery.returned then none else some f.delivery.returned

/-- The declaration up to its body, put together from the fields. -/
def header (f : PeerFields) : Text :=
  f.modifiers.flatMap (· ++ [' ']) ++ "func ".toList ++ f.name ++ f.generics.getD [] ++
    '(' :: f.clause ++ ") async".toList ++
    (if f.throws then " throws".toList else []) ++
    (match f.result? with
      | some t => " -> ".toList ++ t
      | none => []) ++
    (match f.requirements with
      | some t => " where ".toList ++ t
      | none => [])

/-- The whole peer, with a number of spaces for each level. -/
def render (width : Nat) (f : PeerFields) : Text :=
  f.header ++ " \x7b\n".toList ++
    f.body.flatMap (fun l => List.replicate ((l.depth + 1) * width) ' ' ++ l.text ++ ['\n']) ++ ['\x7d']

/-- The fields of a given peer. -/
def ofPeer (p : Peer) : PeerFields where
  name := p.name
  modifiers := p.modifiers
  generics := p.generics
  clause := p.clause
  delivery := p.delivery
  throws := p.throws
  requirements := p.requirements
  body := p.body

/-- Nothing but the fields goes into the header of a peer. -/
lemma header_ofPeer (p : Peer) : (ofPeer p).header = p.header :=
  rfl

lemma render_ofPeer (width : Nat) (p : Peer) : (ofPeer p).render width = p.render width := by
  have hline : ∀ l : Line, List.replicate ((l.depth + 1) * width) ' ' ++ l.text ++ ['\n'] =
      Peer.bodyLine width l := by
    intro l
    rw [Peer.bodyLine, Nat.mul_comm]
  simp only [render, header_ofPeer, hline, Peer.render]
  rfl

end PeerFields

/-! ### Reading what is written -/

/-- A number of one digit is in range and comes back. -/
lemma digit_read {n : Nat} (h : n < 10) :
    Json.IsNumber (Number.digits n) ∧ Number.read? 10 (Number.digits n) = some n := by
  have hall : ∀ n < 10, ((Number.digits n).all Json.isNumberChar = true ∧
      (Json.Numeral.read? (Number.digits n)).any Json.Numeral.inRange = true) ∧
      Number.read? 10 (Number.digits n) = some n := by decide +kernel
  obtain ⟨⟨hchars, hrange⟩, hread⟩ := hall n h
  exact ⟨⟨List.all_eq_true.1 hchars, hrange⟩, hread⟩

lemma readLine?_write {l : Line} (h : l.depth < 10) : readLine? (writeLine l) = some l := by
  obtain ⟨ms, hms⟩ : ∃ ms, ms = [("depth".toList, Json.ofNat l.depth), ("text".toList, .string l.text)] :=
    ⟨_, rfl⟩
  have hdepth : Finds ms ⟨"depth".toList, count?, none⟩ l.depth :=
    finds_of_member (j := .ofNat l.depth) (by simp +decide [hms]) (digit_read h).2
  have htext : Finds ms (textField "text") l.text := finds_text (by simp +decide [hms])
  simp only [writeLine, ← hms, readLine?, Record.ofJson?, hdepth, htext, Option.bind_eq_bind,
    Option.bind_some]
  rfl

/-- The shape decides how the other members are read. -/
lemma readDelivery?_object {ms : List (Text × Json)} {shape : Text}
    (hshape : Finds ms (textField "shape") shape) :
    readDelivery? (.object ms) =
      if shape == "plain_value".toList then
        ((Record.members ms).next? (textField "payload")).bind fun (payload, _) =>
          some (.value payload)
      else if shape == "result_pair".toList then
        ((Record.members ms).next? (textField "success")).bind fun (success, r) =>
          (r.next? (textField "failure")).bind fun (failure, _) => some (.result success failure)
      else none := by
  simp only [readDelivery?, Record.ofJson?, hshape, Option.bind_eq_bind, Option.bind_some]
  rfl

lemma readDelivery?_write (d : Delivery) : readDelivery? (writeDelivery d) = some d := by
  cases d with
  | value payload =>
    obtain ⟨ms, hms⟩ : ∃ ms, ms = [("shape".toList, Json.string "plain_value".toList),
      ("payload".toList, .string payload)] := ⟨_, rfl⟩
    have hshape : Finds ms (textField "shape") "plain_value".toList :=
      finds_text (by simp +decide [hms])
    have hpayload : Finds ms (textField "payload") payload := finds_text (by simp +decide [hms])
    rw [writeDelivery, ← hms, readDelivery?_object hshape, if_pos (by decide), hpayload]
    rfl
  | result success failure =>
    obtain ⟨ms, hms⟩ : ∃ ms, ms = [("shape".toList, Json.string "result_pair".toList),
      ("success".toList, .string success), ("failure".toList, .string failure)] := ⟨_, rfl⟩
    have hshape : Finds ms (textField "shape") "result_pair".toList :=
      finds_text (by simp +decide [hms])
    have hsuccess : Finds ms (textField "success") success := finds_text (by simp +decide [hms])
    have hfailure : Finds ms (textField "failure") failure := finds_text (by simp +decide [hms])
    rw [writeDelivery, ← hms, readDelivery?_object hshape, if_neg (by decide), if_pos (by decide),
      hsuccess, Option.bind_some]
    dsimp only
    rw [hfailure]
    rfl

lemma readPeer?_write {p : Peer} (hbody : ∀ l ∈ p.body, l.depth < 10) :
    readPeer? (writePeer p) = some (.ofPeer p) := by
  obtain ⟨ms, hms⟩ : ∃ ms, writePeer p = .object ms := ⟨_, rfl⟩
  have hwritten : ms = _ := Json.object.inj (hms.symm.trans rfl)
  have hname : Finds ms (textField "name") p.name := finds_text (by simp +decide [hwritten])
  have hmodifiers : Finds ms
      ⟨"modifiers".toList, (·.items?.bind (·.mapM Json.text?)), none⟩ p.modifiers :=
    finds_texts (by simp +decide [hwritten])
  have hgenerics : Finds ms (optionalField "generic_clause") p.generics :=
    finds_optional (by simp +decide [hwritten])
  have hclause : Finds ms (textField "parameters") p.clause := finds_text (by simp +decide [hwritten])
  have hdelivery : Finds ms ⟨"shape".toList, readDelivery?, none⟩ p.delivery :=
    finds_of_member (by simp +decide [hwritten]) (readDelivery?_write p.delivery)
  have hthrows : Finds ms ⟨"throws".toList, Json.bool?, none⟩ p.throws :=
    finds_of_member (j := .bool p.throws) (by simp +decide [hwritten]) rfl
  have hrequirements : Finds ms (optionalField "where_clause") p.requirements :=
    finds_optional (by simp +decide [hwritten])
  have hlines : Finds ms ⟨"body".toList, (·.items?.bind (·.mapM readLine?)), none⟩ p.body :=
    finds_list (fun l hl => readLine?_write (hbody l hl)) (by simp +decide [hwritten])
  simp only [hms, readPeer?, Record.ofJson?, hname, hmodifiers, hgenerics, hclause, hdelivery, hthrows,
    hrequirements, hlines, Option.bind_eq_bind, Option.bind_some]
  rfl

lemma fits_writeLine (n : Nat) {l : Line} (h : l.depth < 10) : (writeLine l).Fits (n + 1) := by
  refine .object ?_
  simp only [List.forall_mem_cons, List.not_mem_nil, false_implies, implies_true, and_true]
  exact ⟨.number _ (digit_read h).1, .string _ _⟩

lemma fits_writeDelivery (n : Nat) (d : Delivery) : (writeDelivery d).Fits (n + 1) := by
  cases d <;> refine .object ?_ <;>
    simp only [List.forall_mem_cons, List.not_mem_nil, false_implies, implies_true, and_true]
  · exact ⟨.string _ _, .string _ _⟩
  · exact ⟨.string _ _, .string _ _, .string _ _⟩

lemma fits_writePeer (n : Nat) {p : Peer} (hbody : ∀ l ∈ p.body, l.depth < 10) :
    (writePeer p).Fits (n + 3) := by
  have hlines : (Json.array (p.body.map writeLine)).Fits (n + 2) :=
    .array (List.forall_mem_map.2 fun l hl => fits_writeLine n (hbody l hl))
  refine .object ?_
  simp only [List.forall_mem_append, List.forall_mem_cons, List.not_mem_nil, false_implies,
    implies_true, and_true]
  exact ⟨⟨⟨⟨⟨.string _ _, fits_texts _ _⟩, fits_optionalMember _ _ _⟩, .string _ _,
    fits_writeDelivery _ _, .bool _ _⟩, fits_optionalMember _ _ _⟩, .string _ _, hlines⟩

/-! ### The two formats -/

lemma depth_lt_of_mem_body {d : Declaration} {w : Suspension} {style : Style} {p : Peer}
    (h : Peer.of d w style = .ok p) : ∀ l ∈ p.body, l.depth < 10 := by
  obtain ⟨s, -, -, -, -, -, -, -, hp⟩ := Peer.of_eq_ok h
  have hbody : p.body = Body.lines s p.delivery w _ style := congrArg Peer.body hp
  rw [hbody]
  cases p.delivery <;> simp [Body.lines, Body.resumption]

lemma renderPeer_eq_ok {json : Text} {d : Declaration} {p : Peer} {g : Generator} {style : Style}
    (hread : parseDeclaration? json = some d) (hpeer : Peer.of d g.suspension style = .ok p)
    (format : Format) : renderPeer json g format style = .ok (formatPeer format style p) := by
  simp only [renderPeer, hread, hpeer]

/-- Both formats give a peer, or neither does and the reason is the same.  From the text of the JSON
form its fields are read back, and they are enough to write the peer as in the other format. -/
theorem formats_agree (json : Text) (g : Generator) (style : Style) :
    match renderPeer json g .text style, renderPeer json g .json style with
    | .ok text, .ok written =>
      ((Json.parse? nestingLimit written).bind readPeer?).map (PeerFields.render style.indent) =
        some text
    | .error e, .error e' => e = e'
    | _, _ => False := by
  cases hd : parseDeclaration? json with
  | none =>
    have hnone : ∀ format, renderPeer json g format style = .error .malformed := by
      intro format
      simp only [renderPeer, hd]
    rw [hnone, hnone]
  | some d =>
    cases hp : Peer.of d g.suspension style with
    | error r =>
      have hrefused : ∀ format, renderPeer json g format style = .error (.refused g r) := by
        intro format
        simp only [renderPeer, hd, hp]
      rw [hrefused, hrefused]
    | ok p =>
      rw [renderPeer_eq_ok hd hp, renderPeer_eq_ok hd hp]
      have hbody := depth_lt_of_mem_body hp
      have hread : Json.parse? nestingLimit (writePeer p).render = some (writePeer p) :=
        Json.parse?_render (fits_writePeer 124 hbody)
      simp only [formatPeer, hread, Option.bind_some, readPeer?_write hbody, Option.map_some,
        PeerFields.render_ofPeer]

/-! ### A peer in both formats -/

/-- A function whose default value has quotes, a backslash and a letter of two bytes. -/
def loadDeclaration : Declaration :=
  .function {
    name := "load".toList
    parameters := [
      { name := "path".toList, type := "String".toList, defaultValue := some "\"é\\t\"".toList },
      { name := "done".toList, type := "(String) -> Void".toList }]
    requirements := some "T: P".toList }

/-- Its JSON form. -/
def loadForm : Text :=
  Text.join ['\n'] ([
    "\x7b",
    "  \"kind\": \"function\",",
    "  \"name\": \"load\",",
    "  \"modifiers\": [],",
    "  \"parameters\": [",
    "    \x7b",
    "      \"name\": \"path\",",
    "      \"type\": \"String\",",
    "      \"default_value\": \"\\\"é\\\\t\\\"\"",
    "    \x7d,",
    "    \x7b",
    "      \"name\": \"done\",",
    "      \"type\": \"(String) -> Void\"",
    "    \x7d",
    "  ],",
    "  \"is_async\": false,",
    "  \"throws\": false,",
    "  \"where_clause\": \"T: P\",",
    "  \"is_member\": true",
    "\x7d"].map String.toList)

/-- Its peer. -/
def loadPeer : Peer where
  name := "load".toList
  modifiers := []
  generics := none
  clause := "path: String = \"é\\t\"".toList
  delivery := .value "String".toList
  requirements := some "T: P".toList
  suspension := {}
  body := [
    ⟨0, "await withCheckedContinuation \x7b continuation in".toList⟩,
    ⟨1, "self.load(path: path) \x7b object in".toList⟩,
    ⟨2, "continuation.resume(returning: object)".toList⟩,
    ⟨1, "\x7d".toList⟩,
    ⟨0, "\x7d".toList⟩]

/-- The peer as text. -/
def loadText : Text :=
  Text.join ['\n'] ([
    "func load(path: String = \"é\\t\") async -> String where T: P \x7b",
    "    await withCheckedContinuation \x7b continuation in",
    "        self.load(path: path) \x7b object in",
    "            continuation.resume(returning: object)",
    "        \x7d",
    "    \x7d",
    "\x7d"].map String.toList)

/-- The peer as JSON. -/
def loadJson : Text :=
  Text.join ['\n'] ([
    "\x7b",
    "  \"name\": \"load\",",
    "  \"modifiers\": [],",
    "  \"parameters\": \"path: String = \\\"é\\\\t\\\"\",",
    "  \"shape\": \x7b",
    "    \"shape\": \"plain_value\",",
    "    \"payload\": \"String\"",
    "  \x7d,",
    "  \"throws\": false,",
    "  \"where_clause\": \"T: P\",",
    "  \"variant\": \"checked\",",
    "  \"body\": [",
    "    \x7b",
    "      \"depth\": 0,",
    "      \"text\": \"await withCheckedContinuation \x7b continuation in\"",
    "    \x7d,",
    "    \x7b",
    "      \"depth\": 1,",
    "      \"text\": \"self.load(path: path) \x7b object in\"",
    "    \x7d,",
    "    \x7b",
    "      \"depth\": 2,",
    "      \"text\": \"continuation.resume(returning: object)\"",
    "    \x7d,",
    "    \x7b",
    "      \"depth\": 1,",
    "      \"text\": \"\x7d\"",
    "    \x7d,",
    "    \x7b",
    "      \"depth\": 0,",
    "      \"text\": \"\x7d\"",
    "    \x7d",
    "  ]",
    "\x7d"].map String.toList)

theorem load_formats :
    renderPeer loadForm .plain .text {} = .ok loadText ∧
      renderPeer loadForm .plain .json {} = .ok loadJson ∧
      ((Json.parse? nestingLimit loadJson).bind readPeer?).map (PeerFields.render 4) =
        some loadText := by
  have hagree : ∀ form text written, renderPeer form .plain .text {} = .ok text →
      renderPeer form .plain .json {} = .ok written →
        ((Json.parse? nestingLimit written).bind readPeer?).map (PeerFields.render 4) = some text := by
    intro form text written htext hjson
    have h := formats_agree form .plain {}
    rw [htext, hjson] at h
    exact h
  have hform : (writeDeclaration loadDeclaration).render = loadForm := by decide +kernel
  have hread : parseDeclaration? loadForm = some loadDeclaration := by
    rw [← hform]
    exact (spells_render loadDeclaration).parseDeclaration?
  have hpeer : Peer.of loadDeclaration {} {} = .ok loadPeer := by decide +kernel
  have hshown : formatPeer .text {} loadPeer = loadText := by decide +kernel
  have hwritten : formatPeer .json {} loadPeer = loadJson := by decide +kernel
  have htext := renderPeer_eq_ok (g := .plain) hread hpeer .text
  have hjson := renderPeer_eq_ok (g := .plain) hread hpeer .json
  rw [hshown] at htext
  rw [hwritten] at hjson
  exact ⟨htext, hjson, hagree loadForm loadText loadJson htext hjson⟩

end AsyncPeer.Exchange
