/-
# Declarations are handed over without loss

A declaration that is written as JSON is read back as the same declaration, whatever its texts are and
whichever of its optional parts are there.  The writer leaves absent parts out and the reader gives a
part that is left out its default, so the two have to agree field by field.  What the reader finds for a
field is decided by the members of an object that have its name (`membersNamed`), and these can be read
off the way an object is put together.

It follows that it does not matter in which way a declaration comes to the generator.  A peer that is
asked for with the JSON form of a declaration is the one that a site with this declaration gets in a
source, and where there is none the reason is the same (`declaration_handed_over`).
-/
import AsyncPeer.Exchange.Peer
import AsyncPeer.Proofs.Expansion
import AsyncPeer.Proofs.HeaderTree
import AsyncPeer.Proofs.JsonReading

namespace AsyncPeer.Exchange

/-! ### Records in objects -/

section Records

variable {ms : List (Text × Json)} {name : String}

/-- The value of a field in an object with the given members. -/
abbrev Finds {α : Type} (ms : List (Text × Json)) (f : Field α) (v : α) : Prop :=
  (Record.members ms).next? f = some (v, .members ms)

/-- The members of an object with a given name. -/
def membersNamed (key : Text) (ms : List (Text × Json)) : List (Text × Json) :=
  ms.filter fun m => m.1 == key

/-- A field that is written once. -/
lemma finds_of_member {α : Type} {f : Field α} {j : Json} {v : α}
    (h : membersNamed f.name ms = [(f.name, j)]) (hj : f.read j = some v) : Finds ms f v := by
  unfold membersNamed at h
  simp only [Finds, Record.next?, h, hj, Option.map_some]

lemma finds_text {t : Text} (h : membersNamed name.toList ms = [(name.toList, .string t)]) :
    Finds ms (textField name) t :=
  finds_of_member h rfl

lemma finds_flag {b fallback : Bool} (h : membersNamed name.toList ms = [(name.toList, .bool b)]) :
    Finds ms (flagField name fallback) b :=
  finds_of_member h rfl

/-- A text that is written only if it is there. -/
lemma finds_optional {t : Option Text} (h : membersNamed name.toList ms = optionalMember name t) :
    Finds ms (optionalField name) t := by
  cases t with
  | none =>
    unfold membersNamed at h
    simp only [Finds, Record.next?, optionalField, h, optionalMember, Option.map_some]
  | some t => exact finds_of_member h rfl

/-- A list that is written item by item. -/
lemma finds_list {α : Type} {write : α → Json} {read : Json → Option α} {fallback : Option (List α)}
    {l : List α} (hwrite : ∀ a ∈ l, read (write a) = some a)
    (h : membersNamed name.toList ms = [(name.toList, .array (l.map write))]) :
    Finds ms ⟨name.toList, (·.items?.bind (·.mapM read)), fallback⟩ l := by
  refine finds_of_member h ?_
  change (l.map write).mapM read = some l
  clear h
  induction l with
  | nil => rfl
  | cons a l ih =>
    obtain ⟨ha, hl⟩ := List.forall_mem_cons.1 hwrite
    rw [List.map_cons, List.mapM_cons, ha, ih hl]
    rfl

lemma finds_texts {ts : List Text} {fallback : Option (List Text)}
    (h : membersNamed name.toList ms = [(name.toList, .array (ts.map .string))]) :
    Finds ms ⟨name.toList, (·.items?.bind (·.mapM Json.text?)), fallback⟩ ts := by
  have hwrite : ∀ t ∈ ts, Json.text? (.string t) = some t := fun _ _ => rfl
  exact finds_list hwrite h

@[simp] lemma membersNamed_nil (key : Text) : membersNamed key [] = [] :=
  rfl

@[simp] lemma membersNamed_append (key : Text) (ms ns : List (Text × Json)) :
    membersNamed key (ms ++ ns) = membersNamed key ms ++ membersNamed key ns :=
  List.filter_append ms ns

@[simp] lemma membersNamed_cons (key name : Text) (j : Json) (ms : List (Text × Json)) :
    membersNamed key ((name, j) :: ms) =
      if name = key then (name, j) :: membersNamed key ms else membersNamed key ms := by
  simp [membersNamed, List.filter_cons]

@[simp] lemma membersNamed_optionalMember (key : Text) (name : String) (t : Option Text) :
    membersNamed key (optionalMember name t) =
      if name.toList = key then optionalMember name t else [] := by
  cases t <;> simp [optionalMember]

end Records

/-! ### Reading what is written -/

lemma readParameter?_write (p : Parameter) : readParameter? (writeParameter p) = some p := by
  obtain ⟨ms, hms⟩ : ∃ ms, writeParameter p = .object ms := ⟨_, rfl⟩
  have hwritten := Json.object.inj (hms.symm.trans rfl)
  have hlabel : Finds ms (optionalField "label") p.label :=
    finds_optional (by simp +decide [hwritten])
  have hname : Finds ms (textField "name") p.name := finds_text (by simp +decide [hwritten])
  have htype : Finds ms (textField "type") p.type := finds_text (by simp +decide [hwritten])
  have hdefault : Finds ms (optionalField "default_value") p.defaultValue :=
    finds_optional (by simp +decide [hwritten])
  simp only [hms, readParameter?, Record.ofJson?, hlabel, hname, htype, hdefault, Record.isDone,
    Option.bind_eq_bind, Option.bind_some, if_true]
  rfl

/-- The kind is passed over where the members of a signature are read. -/
lemma readSignature?_write {ms : List (Text × Json)} {j : Json} {s : Signature}
    (hms : ms = ("kind".toList, j) :: signatureMembers s) :
    readSignature? (.members ms) = some s := by
  have hname : Finds ms (textField "name") s.name :=
    finds_text (by simp +decide [hms, signatureMembers])
  have hmodifiers : Finds ms
      ⟨"modifiers".toList, (·.items?.bind (·.mapM Json.text?)), some []⟩ s.modifiers :=
    finds_texts (by simp +decide [hms, signatureMembers])
  have hgenerics : Finds ms (optionalField "generic_clause") s.generics :=
    finds_optional (by simp +decide [hms, signatureMembers])
  have hparameters : Finds ms
      ⟨"parameters".toList, (·.items?.bind (·.mapM readParameter?)), none⟩ s.parameters :=
    finds_list (fun p _ => readParameter?_write p) (by simp +decide [hms, signatureMembers])
  have hasync : Finds ms (flagField "is_async" false) s.isAsync :=
    finds_flag (by simp +decide [hms, signatureMembers])
  have hthrows : Finds ms (flagField "throws" false) s.throws :=
    finds_flag (by simp +decide [hms, signatureMembers])
  have hresult : Finds ms (optionalField "return_type") s.result :=
    finds_optional (by simp +decide [hms, signatureMembers])
  have hrequirements : Finds ms (optionalField "where_clause") s.requirements :=
    finds_optional (by simp +decide [hms, signatureMembers])
  have hmember : Finds ms (flagField "is_member" true) s.isMember :=
    finds_flag (by simp +decide [hms, signatureMembers])
  simp only [readSignature?, hname, hmodifiers, hgenerics, hparameters, hasync, hthrows, hresult,
    hrequirements, hmember, Record.isDone, Option.bind_eq_bind, Option.bind_some, if_true]
  rfl

/-- The kind decides how the other members are read. -/
lemma readDeclaration?_object {ms : List (Text × Json)} {kind : Text}
    (hkind : Finds ms (textField "kind") kind) :
    readDeclaration? (.object ms) =
      if kind == "function".toList then (readSignature? (.members ms)).map .function
      else if kind == "other".toList then
        ((Record.members ms).next? (textField "introducer")).bind fun (introducer, r) =>
          if r.isDone then some (.other introducer) else none
      else none := by
  simp only [readDeclaration?, Record.ofJson?, hkind, Option.bind_eq_bind, Option.bind_some]
  cases readSignature? (.members ms) <;> rfl

lemma readDeclaration?_write (d : Declaration) : readDeclaration? (writeDeclaration d) = some d := by
  cases d with
  | function s =>
    obtain ⟨ms, hms⟩ : ∃ ms, ms = ("kind".toList, Json.string "function".toList) :: signatureMembers s :=
      ⟨_, rfl⟩
    have hkind : Finds ms (textField "kind") "function".toList :=
      finds_text (by simp +decide [hms, signatureMembers])
    rw [writeDeclaration, ← hms, readDeclaration?_object hkind, if_pos (by decide),
      readSignature?_write hms]
    rfl
  | other introducer =>
    obtain ⟨ms, hms⟩ : ∃ ms, ms = [("kind".toList, Json.string "other".toList),
      ("introducer".toList, .string introducer)] := ⟨_, rfl⟩
    have hkind : Finds ms (textField "kind") "other".toList := finds_text (by simp +decide [hms])
    have hword : Finds ms (textField "introducer") introducer := finds_text (by simp +decide [hms])
    rw [writeDeclaration, ← hms, readDeclaration?_object hkind, if_neg (by decide),
      if_pos (by decide), hword]
    rfl

/-! ### The JSON form as a text -/

lemma fits_optionalMember (n : Nat) (name : String) (t : Option Text) :
    ∀ m ∈ optionalMember name t, m.2.Fits n := by
  cases t with
  | none => simp [optionalMember]
  | some t => simpa [optionalMember] using Json.Fits.string n t

lemma fits_writeParameter (n : Nat) (p : Parameter) : (writeParameter p).Fits (n + 1) := by
  refine .object ?_
  simp only [List.forall_mem_append, List.forall_mem_cons, List.not_mem_nil, false_implies,
    implies_true, and_true]
  exact ⟨⟨fits_optionalMember _ _ _, .string _ _, .string _ _⟩, fits_optionalMember _ _ _⟩

lemma fits_texts (n : Nat) (ts : List Text) : (Json.array (ts.map .string)).Fits (n + 1) :=
  .array (List.forall_mem_map.2 fun t _ => .string n t)

lemma fits_writeDeclaration (n : Nat) (d : Declaration) : (writeDeclaration d).Fits (n + 3) := by
  cases d with
  | function s =>
    refine .object ?_
    simp only [signatureMembers, List.forall_mem_append, List.forall_mem_cons, List.not_mem_nil,
      false_implies, implies_true, and_true]
    have hparameters : (Json.array (s.parameters.map writeParameter)).Fits (n + 2) :=
      .array (List.forall_mem_map.2 fun p _ => fits_writeParameter n p)
    exact ⟨.string _ _, ⟨⟨⟨⟨⟨.string _ _, fits_texts _ _⟩, fits_optionalMember _ _ _⟩, hparameters,
      .bool _ _, .bool _ _⟩, fits_optionalMember _ _ _⟩, fits_optionalMember _ _ _⟩, .bool _ _⟩
  | other introducer =>
    refine .object ?_
    simp only [List.forall_mem_cons, List.not_mem_nil, false_implies, implies_true, and_true]
    exact ⟨.string _ _, .string _ _⟩

/-- The text spells the JSON form of the declaration. -/
def Spells (t : Text) (d : Declaration) : Prop :=
  Json.parse? nestingLimit t = some (writeDeclaration d)

lemma spells_render (d : Declaration) : Spells (writeDeclaration d).render d :=
  Json.parse?_render (fits_writeDeclaration 124 d)

lemma Spells.parseDeclaration? {t : Text} {d : Declaration} (h : Spells t d) :
    parseDeclaration? t = some d := by
  unfold Spells at h
  rw [Exchange.parseDeclaration?, h, Option.bind_some, readDeclaration?_write]

/-! ### The two ways to a peer -/

/-- The status of a site in a source and the answer to a request for a peer are the same: the same
text, or the same reason why there is none. -/
def Agree (g : Generator) : Source.Status → Except Failure Text → Prop
  | .expanded peer, .ok t => peer = t
  | .failed r, .error e => e = .refused g r
  | _, _ => False

lemma agree_renderPeer {t : Text} {d : Declaration} (ht : Spells t d) (style : Style)
    {s : Source.Site} (hs : s.declaration = .ok d) :
    Agree s.generator (s.outcome style).status (renderPeer t s.generator .text style) := by
  have hpeer : s.peer style =
      (Peer.of d s.generator.suspension style).map (Peer.render style.indent) := by
    rw [Source.Site.peer, hs]
    cases hp : Peer.of d s.generator.suspension style <;>
      simp [hp, bind, Except.bind, pure, Except.pure, Except.map]
  simp only [Source.Site.outcome, hpeer, renderPeer, ht.parseDeclaration?]
  cases Peer.of d s.generator.suspension style with
  | error r => rfl
  | ok p => rfl

/-- The JSON form of a declaration is read back as the declaration, from every text that spells it, and
the text that is written does.  A peer that is asked for with such a text agrees with what every
expansion reports for each of its sites that has this declaration and the same generator and style. -/
theorem declaration_handed_over (d : Declaration) (style : Style) :
    Spells (writeDeclaration d).render d ∧
      ∀ t, Spells t d →
        parseDeclaration? t = some d ∧
          ∀ source tree keepAttributes report,
            Source.expand source tree style keepAttributes = .ok report →
              ∃ found, Source.sites source tree = .ok found ∧
                List.Forall₂ (fun s o => s.declaration = .ok d →
                  Agree s.generator o.status (renderPeer t s.generator .text style))
                  found report.outcomes := by
  refine ⟨spells_render d, fun t ht => ⟨ht.parseDeclaration?, ?_⟩⟩
  intro source tree keepAttributes report hreport
  obtain ⟨found, hfound, hreport⟩ := bind_eq_ok hreport
  obtain ⟨edits, -, hreport⟩ := bind_eq_ok hreport
  obtain ⟨output, -, hreport⟩ := bind_eq_ok hreport
  cases hreport
  refine ⟨found, hfound, ?_⟩
  rw [List.forall₂_map_right_iff, List.forall₂_same]
  exact fun s _ hs => agree_renderPeer ht style hs

/-! ### A site with a declaration that is handed over -/

/-- A function with an attribute. -/
def markedSource : Text :=
  "@Asyncify func f(c: (Int) -> Void) \x7b\x7d\n".toList

/-- Its tree. -/
def markedTree : Source.Node :=
  Source.rule "source_file" 0 38
    [Source.rule "function_declaration" 0 37
      [Source.rule "modifiers" 0 9 [Source.rule "attribute" 0 9 []], Source.token "func" 10 14,
        Source.rule "simple_identifier" 15 16 [], Source.token "(" 16 17,
        Source.rule "parameter" 17 33
          [Source.rule "simple_identifier" 17 18 [], Source.token ":" 18 19,
            Source.rule "function_type" 20 33 []],
        Source.token ")" 33 34, Source.rule "function_body" 35 37 []]]

/-- What it shows. -/
def markedDeclaration : Declaration :=
  .function {
    name := "f".toList
    parameters := [{ name := "c".toList, type := "(Int) -> Void".toList }]
    isMember := false }

/-- The text that spells the declaration. -/
def markedForm : Text :=
  Text.join ['\n'] ([
    "\x7b",
    "  \"kind\": \"function\",",
    "  \"name\": \"f\",",
    "  \"modifiers\": [],",
    "  \"parameters\": [",
    "    \x7b",
    "      \"name\": \"c\",",
    "      \"type\": \"(Int) -> Void\"",
    "    \x7d",
    "  ],",
    "  \"is_async\": false,",
    "  \"throws\": false,",
    "  \"is_member\": false",
    "\x7d"].map String.toList)

/-- The peer of the declaration. -/
def markedPeer : Text :=
  Text.join ['\n'] ([
    "func f() async -> Int \x7b",
    "    await withCheckedContinuation \x7b continuation in",
    "        f \x7b object in",
    "            continuation.resume(returning: object)",
    "        \x7d",
    "    \x7d",
    "\x7d"].map String.toList)

/-- The site of the attribute. -/
def markedSite : Source.Site where
  generator := .plain
  start := 0
  stop := 9
  line := 1
  column := 1
  declaration := .ok markedDeclaration
  declarationStop := 37
  indent := []

theorem marked_handed_over :
    Spells markedForm markedDeclaration ∧ parseDeclaration? markedForm = some markedDeclaration ∧
      Source.sites markedSource markedTree = .ok [markedSite] ∧
      (∃ report, Source.expand markedSource markedTree {} false = .ok report ∧
        report.outcomes.map Source.Outcome.status = [.expanded markedPeer]) ∧
      renderPeer markedForm .plain .text {} = .ok markedPeer := by
  obtain ⟨hwritten, hall⟩ := declaration_handed_over markedDeclaration {}
  have hform : (writeDeclaration markedDeclaration).render = markedForm := by decide +kernel
  rw [hform] at hwritten
  obtain ⟨hread, hagree⟩ := hall markedForm hwritten
  have hsites : Source.sites markedSource markedTree = .ok [markedSite] := by decide +kernel
  have hreport : Source.expand markedSource markedTree {} false = .ok _ :=
    Source.expand_eq_ok (by decide +kernel) hsites
  obtain ⟨found, hfound, houtcomes⟩ := hagree _ _ _ _ hreport
  obtain rfl : [markedSite] = found := Except.ok.inj (hsites.symm.trans hfound)
  -- the answer to the request is what the report says about the site
  have hanswer := (List.forall₂_cons.1 houtcomes).1 rfl
  have hstatus : (markedSite.outcome {}).status = .expanded markedPeer := by decide +kernel
  rw [hstatus] at hanswer
  refine ⟨hwritten, hread, hsites, ⟨_, hreport, congrArg (fun o => [o]) hstatus⟩, ?_⟩
  cases hrender : renderPeer markedForm .plain .text {} with
  | error e =>
    rw [markedSite, hrender] at hanswer
    exact hanswer.elim
  | ok t =>
    rw [markedSite, hrender] at hanswer
    exact congrArg Except.ok hanswer.symm

end AsyncPeer.Exchange
