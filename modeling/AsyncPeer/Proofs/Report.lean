/-
# Every mark is reported

A mark is an attribute of a generator at a declaration, told from other marks by its path in the tree.
The sites of a source are its marks: each mark has one site, and the sites come in the order of the
source (`AreReported`).  Of the tree only the offsets matter, `Placed`; this is less than what it takes
to make the edits.

The order of the sites in lines and columns follows from the order of their offsets: of two beginnings of
a source the longer one has more lines, or as many and a longer last line (`position_lt`).
-/
import AsyncPeer.Proofs.Expansion

namespace AsyncPeer.Source

/-! ### Marks -/

/-- The path leads to an attribute `a` of the generator `g` at the declaration `d`. -/
structure IsMark (source : Text) (tree : Node) (path : List Nat) (a : Located) (g : Generator)
    (d : Located) : Prop extends IsOuterAttribute tree path a where
  names : NamesGenerator source a.node g
  decorates : a.Decorates d

/-- The first site stands on an earlier line, or further to the left on the same line. -/
def Site.Before (s t : Site) : Prop :=
  s.line < t.line ∨ s.line = t.line ∧ s.column < t.column

/-- The site shows the mark that the path leads to, and the mark lies inside its declaration. -/
def Site.Shows (s : Site) (source : Text) (tree : Node) (path : List Nat) : Prop :=
  ∃ a g d, IsMark source tree path a g d ∧ s.Describes source a g d ∧
    d.node.start ≤ s.start ∧ s.stop ≤ s.declarationStop

/-- The paths are those of the marks, and the sites show them one by one in the order of the source. -/
structure AreReported (source : Text) (tree : Node) (paths : List (List Nat)) (found : List Site) :
    Prop where
  ordered : paths.Pairwise (· < ·)
  complete : ∀ path, path ∈ paths ↔ ∃ a g d, IsMark source tree path a g d
  shown : List.Forall₂ (fun path s => s.Shows source tree path) paths found
  starts : found.Pairwise fun s t => s.start < t.start
  positions : found.Pairwise Site.Before

/-! ### Lines and columns -/

lemma lastLine_append {x m : Text} (hm : '\n' ∉ m) : lastLine (x ++ m) = lastLine x ++ m := by
  have hall : ∀ c ∈ m.reverse, (c != '\n') = true := by
    intro c hc
    rw [bne_iff_ne]
    rintro rfl
    exact hm (List.mem_reverse.1 hc)
  rw [lastLine, lastLine, List.reverse_append, List.takeWhile_append_of_pos hall, List.reverse_append,
    List.reverse_reverse]

/-- What is longer ends on a later line, or further to the right on the same line. -/
lemma position_lt (x : Text) {m : Text} (hm : m ≠ []) :
    x.count '\n' < (x ++ m).count '\n' ∨
      x.count '\n' = (x ++ m).count '\n' ∧ (lastLine x).byteSize < (lastLine (x ++ m)).byteSize := by
  rw [List.count_append]
  by_cases hfeed : '\n' ∈ m
  · have hpos : 0 < m.count '\n' := List.count_pos_iff.2 hfeed
    exact Or.inl (by omega)
  · have hzero : m.count '\n' = 0 := List.count_eq_zero.2 hfeed
    have hsize := Text.byteSize_pos hm
    rw [lastLine_append hfeed, Text.byteSize_append]
    exact Or.inr (by omega)

variable {source : Text} {tree : Node}

/-- Sites come in the order of their attributes. -/
lemma Site.Describes.before {s t : Site} {a b d e : Located} {g k : Generator}
    (hs : s.Describes source a g d) (ht : t.Describes source b k e) (hlt : s.start < t.start) :
    s.Before t := by
  obtain ⟨x, y, hx, hxsize, hsline, hscolumn, -⟩ := hs.position
  obtain ⟨z, w, hz, hzsize, htline, htcolumn, -⟩ := ht.position
  rw [hs.start, ht.start, ← hxsize, ← hzsize] at hlt
  -- what stands before the second attribute begins with what stands before the first one
  obtain ⟨m, rfl, -⟩ := Text.exists_append_of_le (hx.symm.trans hz) (Nat.le_of_lt hlt)
  have hm : m ≠ [] := by
    rintro rfl
    simp at hlt
  have hposition := position_lt x hm
  rw [Site.Before, hsline, hscolumn, htline, htcolumn]
  omega

/-! ### Sites and marks -/

/-- What is found one by one belongs to the elements where something is found. -/
lemma forall₂_filterMap {α β : Type} {R : α → β → Prop} {f : α → Option β} {l : List α}
    (h : ∀ a ∈ l, ∀ b, f a = some b → R a b) :
    List.Forall₂ R (l.filter fun a => (f a).isSome) (l.filterMap f) := by
  induction l with
  | nil => exact .nil
  | cons a l ih =>
    obtain ⟨hfirst, hrest⟩ := List.forall_mem_cons.1 h
    cases hfa : f a with
    | none =>
      rw [List.filter_cons_of_neg (by simp [hfa]), List.filterMap_cons_none hfa]
      exact ih hrest
    | some b =>
      rw [List.filter_cons_of_pos (by simp [hfa]), List.filterMap_cons_some hfa]
      exact .cons (hfirst b hfa) (ih hrest)

/-- The site at the node that a path leads to, if there is one. -/
def siteOn? (source : Text) (tree : Node) (path : List Nat) : Option Site :=
  (tree.at? path).bind (site? source)

variable {path : List Nat} {a : Located}

lemma siteOn?_eq (h : IsOuterAttribute tree path a) : siteOn? source tree path = site? source a := by
  rw [siteOn?, h.leads, Option.bind_some]

/-- There is a site at an attribute exactly if the attribute is a mark. -/
lemma isSome_site?_iff (placed : ∀ n ∈ tree.nodes, Placed source n)
    (h : IsOuterAttribute tree path a) :
    (site? source a).isSome ↔ ∃ b g d, IsMark source tree path b g d := by
  have hunique : ∀ {b g d}, IsMark source tree path b g d → b = a := by
    intro b g d hb
    exact Option.some.inj (hb.leads.symm.trans h.leads)
  rcases siteAt?_cases (placed a.node (Node.mem_nodes_of_at? h.leads)) with
    ⟨hnone, hno⟩ | ⟨g, d, s, hnames, hdecorates, hsome, -⟩
  · have hnot : ¬∃ b g d, IsMark source tree path b g d := by
      rintro ⟨b, g, d, hb⟩
      obtain rfl := hunique hb
      exact hno ⟨g, d, hb.names, hb.decorates⟩
    simp [site?, hnone, hnot]
  · have hmark : ∃ b g d, IsMark source tree path b g d := ⟨a, g, d, h, hnames, hdecorates⟩
    simp [site?, hsome, hmark]

/-- The site at an attribute shows it. -/
lemma shows_of_site? (placed : ∀ n ∈ tree.nodes, Placed source n)
    (h : IsOuterAttribute tree path a) {s : Site} (hs : site? source a = some s) :
    s.Shows source tree path := by
  obtain ⟨g, d, hnames, hdecorates, hdescribes⟩ := describes_of_site? placed h.mem hs
  obtain ⟨hdmem, hinside⟩ := hdecorates.inside h.mem
  have hwithin := Placed.within (fun n hn => placed n (Node.mem_nodes_trans hn hdmem)) hinside
  refine ⟨a, g, d, ⟨h, hnames, hdecorates⟩, hdescribes, ?_, ?_⟩
  · rw [hdescribes.start]
    exact hwithin.1
  · rw [hdescribes.stop, hdescribes.declarationStop]
    exact hwithin.2

/-- The attributes of the sites begin one behind the other. -/
lemma pairwise_start_lt (placed : ∀ n ∈ tree.nodes, Placed source n) :
    ((attributesIn [] tree).filterMap (site? source)).Pairwise fun s t => s.start < t.start := by
  refine (pairwise_sites_of_placed placed).imp_of_mem fun {s t} hs _ hle => ?_
  obtain ⟨a, ha, hs⟩ := List.mem_filterMap.1 hs
  obtain ⟨declared, hcomes⟩ := comesFrom_of_site? placed ha hs
  exact Nat.lt_of_lt_of_le hcomes.lt hle

/-- The sites are found by following the paths of the attributes. -/
lemma filterMap_siteOn? {paths : List (List Nat)}
    (hcollects : (attributesIn [] tree).map some =
      paths.map fun path => (tree.at? path).map (Located.under [])) :
    paths.filterMap (siteOn? source tree) = (attributesIn [] tree).filterMap (site? source) := by
  calc paths.filterMap (siteOn? source tree)
      = (paths.map fun path => (tree.at? path).map (Located.under [])).filterMap
          fun o => o.bind (site? source) := by
        rw [List.filterMap_map]
        refine List.filterMap_congr fun path _ => ?_
        rw [Function.comp_apply, funext Located.under_nil, Option.map_id', siteOn?]
    _ = ((attributesIn [] tree).map some).filterMap fun o => o.bind (site? source) := by
        rw [hcollects]
    _ = (attributesIn [] tree).filterMap (site? source) := by
        rw [List.filterMap_map]
        rfl

/-- The sites show the marks of the tree. -/
lemma exists_reported (placed : ∀ n ∈ tree.nodes, Placed source n) :
    ∃ paths, AreReported source tree paths ((attributesIn [] tree).filterMap (site? source)) := by
  obtain ⟨paths, hordered, hcomplete, hcollects⟩ := exists_paths tree
  have hstarts := pairwise_start_lt placed
  refine ⟨paths.filter fun path => (siteOn? source tree path).isSome, hordered.filter _,
    fun path => ?_, ?_, hstarts, hstarts.imp_of_mem fun {s t} hs ht hlt => ?_⟩
  · rw [List.mem_filter]
    constructor
    · rintro ⟨hpath, hsome⟩
      obtain ⟨a, ha⟩ := (hcomplete path).1 hpath
      rw [siteOn?_eq ha] at hsome
      exact (isSome_site?_iff placed ha).1 hsome
    · rintro ⟨a, g, d, hmark⟩
      have ha : IsOuterAttribute tree path a := hmark.toIsOuterAttribute
      rw [siteOn?_eq ha]
      exact ⟨(hcomplete path).2 ⟨a, ha⟩, (isSome_site?_iff placed ha).2 ⟨a, g, d, hmark⟩⟩
  · rw [← filterMap_siteOn? (hcollects [])]
    refine forall₂_filterMap fun path hpath s hs => ?_
    obtain ⟨a, ha⟩ := (hcomplete path).1 hpath
    rw [siteOn?_eq ha] at hs
    exact shows_of_site? placed ha hs
  · obtain ⟨a, ha, hs⟩ := List.mem_filterMap.1 hs
    obtain ⟨b, hb, ht⟩ := List.mem_filterMap.1 ht
    obtain ⟨g, d, -, -, hs⟩ := describes_of_site? placed ha hs
    obtain ⟨k, e, -, -, ht⟩ := describes_of_site? placed hb ht
    exact hs.before ht hlt

/-! ### The report -/

variable {style : Style} {keepAttributes : Bool}

/-- A report has the outcomes of the sites. -/
lemma outcomes_of_expand {found : List Site} (hfound : sites source tree = .ok found) {r : Report}
    (h : expand source tree style keepAttributes = .ok r) :
    r.outcomes = found.map (Site.outcome style) := by
  simp only [expand, hfound, bind, Except.bind, pure, Except.pure] at h
  split at h
  · cases h
  · split at h
    · cases h
    · cases h
      rfl

/-- The sites that are expanded and those that failed are all of them. -/
lemma Report.expandedCount_add_failures (r : Report) :
    r.expandedCount + r.failures.length = r.outcomes.length := by
  have hle : r.failures.length ≤ r.outcomes.length := List.length_filter_le _ _
  rw [Report.expandedCount]
  omega

/-- **Every mark is reported.**  If the nodes of a tree lie inside each other or follow each other, then
the sites are those of the marks, each once, with increasing offsets and increasing positions, and each
inside its declaration.  A report has one outcome for each site, in the same order, and counts every site
as expanded or as failed.  The tree of a parser always has a report. -/
theorem marks_reported {source : Text} {tree : Node} (placed : ∀ n ∈ tree.nodes, Placed source n) :
    ∃ found paths, sites source tree = .ok found ∧ AreReported source tree paths found ∧
      ∀ style keepAttributes,
        (∀ r, expand source tree style keepAttributes = .ok r →
          r.outcomes = found.map (Site.outcome style) ∧
            r.expandedCount + r.failures.length = found.length) ∧
          (WellPlaced source tree → ∃ r, expand source tree style keepAttributes = .ok r) := by
  have hfound := sites_of_placed placed
  obtain ⟨paths, hreported⟩ := exists_reported placed
  refine ⟨_, paths, hfound, hreported, fun style keepAttributes => ⟨fun r hr => ?_, ?_⟩⟩
  · have houtcomes := outcomes_of_expand hfound hr
    refine ⟨houtcomes, ?_⟩
    rw [r.expandedCount_add_failures, houtcomes, List.length_map]
  · exact fun h => ⟨_, expand_eq_ok h hfound⟩

/-! ### A mark inside the declaration of another one -/

/-- The outer function has a mark, and so has the inner one, behind an attribute that is none. -/
def nestedMarks : Text :=
  "@Asyncify func f(c: (Int) -> Void) \x7b
  @MainActor @AsyncifyUnchecked func g(d: () -> Void) \x7b\x7d
\x7d
".toList

/-- Its tree. -/
def nestedMarksTree : Node :=
  rule "source_file" 0 96
    [rule "function_declaration" 0 95
      [rule "modifiers" 0 9 [rule "attribute" 0 9 []],
        token "func" 10 14, rule "simple_identifier" 15 16 [], token "(" 16 17,
        rule "parameter" 17 33
          [rule "simple_identifier" 17 18 [], token ":" 18 19, rule "function_type" 20 33 []],
        token ")" 33 34,
        rule "function_body" 35 95
          [token "\x7b" 35 36,
            rule "function_declaration" 39 93
              [rule "modifiers" 39 68 [rule "attribute" 39 49 [], rule "attribute" 50 68 []],
                token "func" 69 73, rule "simple_identifier" 74 75 [], token "(" 75 76,
                rule "parameter" 76 89
                  [rule "simple_identifier" 76 77 [], token ":" 77 78,
                    rule "function_type" 79 89 []],
                token ")" 89 90, rule "function_body" 91 93 []],
            token "\x7d" 94 95]]]

theorem nestedMarks_reported : (∀ n ∈ nestedMarksTree.nodes, Placed nestedMarks n) ∧
    ∃ found paths, sites nestedMarks nestedMarksTree = .ok found ∧
      found.map (fun s => (s.generator, s.start, s.line, s.column)) =
        [(.plain, 0, 1, 1), (.unchecked, 50, 2, 14)] ∧
      AreReported nestedMarks nestedMarksTree paths found ∧
      ∀ style keepAttributes,
        (∀ r, expand nestedMarks nestedMarksTree style keepAttributes = .ok r →
          r.outcomes = found.map (Site.outcome style) ∧
            r.expandedCount + r.failures.length = found.length) ∧
          (WellPlaced nestedMarks nestedMarksTree →
            ∃ r, expand nestedMarks nestedMarksTree style keepAttributes = .ok r) := by
  have hplaced : ∀ n ∈ nestedMarksTree.nodes, Placed nestedMarks n := by decide +kernel
  have hshown : (sites nestedMarks nestedMarksTree).map
      (List.map fun s => (s.generator, s.start, s.line, s.column)) =
        .ok [(.plain, 0, 1, 1), (.unchecked, 50, 2, 14)] := by decide +kernel
  obtain ⟨found, paths, hfound, hreported, hreport⟩ := marks_reported hplaced
  rw [hfound] at hshown
  exact ⟨hplaced, found, paths, hfound, Except.ok.inj hshown, hreported, hreport⟩

end AsyncPeer.Source
