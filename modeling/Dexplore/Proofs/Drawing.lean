import Dexplore.Graph.Dot
import Dexplore.Proofs.GraphShape
import Dexplore.Proofs.StaticWrites

/-!
# Drawings of execution graphs

A label between quotes ends where it should: what is escaped has no line break, no quote without
a backslash of its own, and no backslash that reaches beyond its end (`Dot.Quotable`).  The drawing
of an explored graph then is a list of lines, one for each node on a path and one for each node
but the entry that leads there from its parent, and these are the tree that was explored
(`Graph.IsDrawn`).
-/

set_option autoImplicit false

namespace Dexplore

namespace Dot

/-! ## Labels between quotes -/

def trailingSlashes (text : List Char) : Nat := (text.reverse.takeWhile (· = '\\')).length

structure Quotable (text : List Char) : Prop where
  line : '\n' ∉ text
  quotes : ∀ before after, text = before ++ '"' :: after → trailingSlashes before % 2 = 1
  closed : trailingSlashes text % 2 = 0

/-- Reads a text up to the quote that closes it. Behind a backslash every character stands for
itself, but for the one that stands for a line break. -/
def readQuoted (escaped : Bool) : List Char → Option (List Char × List Char)
  | [] => none
  | c :: rest =>
    if escaped then
      (readQuoted false rest).map fun read => ((if c = 'n' then '\n' else c) :: read.1, read.2)
    else if c = '\\' then readQuoted true rest
    else if c = '"' then some ([], rest)
    else (readQuoted false rest).map fun read => (c :: read.1, read.2)

def replaced (old new : Char) (text : List Char) : List Char :=
  text.flatMap fun c => if c = old then ['\\', new] else [c]

theorem toList_escape (text : String) : (escape text).toList = text.toList.flatMap escapeChar :=
  String.toList_ofList

theorem escapeChar_cases (c : Char) :
    (escapeChar c = [c] ∧ c ≠ '\\' ∧ c ≠ '"' ∧ c ≠ '\n') ∨
      ∃ next, escapeChar c = ['\\', next] ∧ next ≠ '\n' ∧
        (if next = 'n' then '\n' else next) = c := by
  unfold escapeChar
  split
  · exact .inr ⟨_, rfl, by decide, by decide⟩
  · exact .inr ⟨_, rfl, by decide, by decide⟩
  · exact .inr ⟨_, rfl, by decide, by decide⟩
  · exact .inr ⟨_, rfl, by decide, by decide⟩
  · exact .inr ⟨_, rfl, by decide, by decide⟩
  · rename_i slash quote line _ _
    exact .inl ⟨rfl, slash, quote, line⟩

theorem escapeChar_of_isDigit {c : Char} (isDigit : c.isDigit = true) : escapeChar c = [c] := by
  unfold escapeChar
  split
  · cases isDigit
  · cases isDigit
  · cases isDigit
  · cases isDigit
  · cases isDigit
  · rfl

theorem trailingSlashes_cons (c : Char) (text : List Char) :
    trailingSlashes (c :: text) =
      if trailingSlashes text = text.length ∧ c = '\\' then text.length + 1
      else trailingSlashes text := by
  unfold trailingSlashes
  rw [List.reverse_cons, List.takeWhile_append, List.length_reverse]
  by_cases full : (text.reverse.takeWhile (· = '\\')).length = text.length
  · by_cases slash : c = '\\' <;> simp [full, slash]
  · simp [full]

theorem trailingSlashes_cons_of_ne {c : Char} (other : c ≠ '\\') (text : List Char) :
    trailingSlashes (c :: text) = trailingSlashes text := by
  rw [trailingSlashes_cons, if_neg fun both => other both.2]

theorem trailingSlashes_le (text : List Char) : trailingSlashes text ≤ text.length := by
  have short := (List.takeWhile_prefix (· = '\\') (l := text.reverse)).length_le
  rw [List.length_reverse] at short
  exact short

/-- A backslash and what it escapes do not change whether a later quote is escaped. -/
theorem trailingSlashes_escaped (next : Char) (text : List Char) :
    trailingSlashes ('\\' :: next :: text) % 2 = trailingSlashes text % 2 := by
  have short := trailingSlashes_le text
  rw [trailingSlashes_cons, trailingSlashes_cons, List.length_cons]
  by_cases full : trailingSlashes text = text.length
  · by_cases slash : next = '\\'
    · simp only [full, slash, and_self, if_true]
      omega
    · simp only [full, slash, and_false, if_false, and_true]
      rw [if_neg (by omega)]
  · simp only [full, false_and, if_false, and_true]
    rw [if_neg (by omega)]

theorem Quotable.plain {c : Char} {text : List Char} (quotable : Quotable text)
    (noSlash : c ≠ '\\') (noQuote : c ≠ '"') (noLine : c ≠ '\n') : Quotable (c :: text) := by
  refine ⟨?_, ?_, ?_⟩
  · simp [noLine.symm, quotable.line]
  · intro before after isText
    cases before with
    | nil =>
        cases isText
        exact absurd rfl noQuote
    | cons first others =>
        obtain ⟨rfl, isRest⟩ := List.cons.inj isText
        rw [trailingSlashes_cons_of_ne noSlash]
        exact quotable.quotes others after isRest
  · rw [trailingSlashes_cons_of_ne noSlash]
    exact quotable.closed

theorem Quotable.escaped {next : Char} {text : List Char} (quotable : Quotable text)
    (noLine : next ≠ '\n') : Quotable ('\\' :: next :: text) := by
  refine ⟨?_, ?_, ?_⟩
  · simp [noLine.symm, quotable.line]
  · intro before after isText
    cases before with
    | nil => cases isText
    | cons first others =>
        obtain ⟨rfl, isRest⟩ := List.cons.inj isText
        cases others with
        | nil =>
            cases isRest
            decide
        | cons second others =>
            obtain ⟨rfl, isLater⟩ := List.cons.inj isRest
            rw [trailingSlashes_escaped]
            exact quotable.quotes others after isLater
  · rw [trailingSlashes_escaped]
    exact quotable.closed

theorem quotable_escape (text : List Char) : Quotable (text.flatMap escapeChar) := by
  induction text with
  | nil =>
      refine ⟨by simp, ?_, by decide⟩
      intro before after isText
      cases before <;> cases isText
  | cons c rest induction =>
      rw [List.flatMap_cons]
      rcases escapeChar_cases c with ⟨plain, noSlash, noQuote, noLine⟩ | ⟨next, escaped, noLine, -⟩
      · rw [plain]
        exact induction.plain noSlash noQuote noLine
      · rw [escaped]
        exact induction.escaped noLine

/-- What was escaped is read back, up to the quote that stands behind it. -/
theorem readQuoted_escape (text rest : List Char) :
    readQuoted false (text.flatMap escapeChar ++ '"' :: rest) = some (text, rest) := by
  induction text with
  | nil => rfl
  | cons c others induction =>
      rw [List.flatMap_cons, List.append_assoc]
      rcases escapeChar_cases c with ⟨plain, noSlash, noQuote, -⟩ | ⟨next, escaped, -, isChar⟩
      · rw [plain, List.singleton_append, readQuoted, induction]
        simp [noSlash, noQuote]
      · rw [escaped]
        simp [readQuoted, induction, isChar]

theorem escape_injective {left right : String} (same : escape left = escape right) :
    left = right := by
  have read := readQuoted_escape left.toList []
  rw [← toList_escape, same, toList_escape, readQuoted_escape] at read
  exact String.toList_inj.mp (Prod.mk.inj (Option.some.inj read)).1.symm

/-- The characters can be escaped one kind after the other, backslashes first. -/
theorem escape_eq_replaced (text : List Char) :
    text.flatMap escapeChar =
      replaced '>' '>' (replaced '<' '<' (replaced '\n' 'n' (replaced '"' '"'
        (replaced '\\' '\\' text)))) := by
  induction text with
  | nil => rfl
  | cons c rest induction =>
      rw [List.flatMap_cons, induction]
      unfold replaced escapeChar
      split <;> simp_all

/-! ## Names of nodes -/

/-- What stands before and behind the first of some marks is fixed. -/
theorem append_mark_inj {mark : Char} {front other back last : List Char} (clean : mark ∉ front)
    (cleanToo : mark ∉ other) (same : front ++ mark :: back = other ++ mark :: last) :
    front = other ∧ back = last := by
  induction front generalizing other with
  | nil =>
      cases other with
      | nil => exact ⟨rfl, (List.cons.inj same).2⟩
      | cons c others =>
          cases same
          exact absurd List.mem_cons_self cleanToo
  | cons c rest induction =>
      cases other with
      | nil =>
          cases same
          exact absurd List.mem_cons_self clean
      | cons first others =>
          obtain ⟨rfl, sameRest⟩ := List.cons.inj same
          obtain ⟨rfl, isBack⟩ := induction (fun inside => clean (List.mem_cons_of_mem _ inside))
            (fun inside => cleanToo (List.mem_cons_of_mem _ inside)) sameRest
          exact ⟨rfl, isBack⟩

theorem toDigits_injective {left right : Nat}
    (same : Nat.toDigits 10 left = Nat.toDigits 10 right) : left = right := by
  rw [← @Nat.ofDigitChars_ten_toDigits left, same, Nat.ofDigitChars_ten_toDigits]

theorem notMem_toDigits {c : Char} (number : Nat) (noDigit : c.isDigit = false) :
    c ∉ Nat.toDigits 10 number := by
  intro inside
  rw [Nat.isDigit_of_mem_toDigits (by decide) (by decide) inside] at noDigit
  cases noDigit

theorem toList_nodeName (id : NodeId) :
    (nodeName id).toList =
      'n' :: (Nat.toDigits 10 id.address.toNat ++ '_' :: Nat.toDigits 10 id.index) := by
  simp [nodeName]

theorem nodeName_injective {left right : NodeId} (same : nodeName left = nodeName right) :
    left = right := by
  have sameText := congrArg String.toList same
  rw [toList_nodeName, toList_nodeName] at sameText
  -- No digit is the mark between the address and the index, so the first mark is the same in both.
  obtain ⟨sameAddress, sameIndex⟩ := append_mark_inj (notMem_toDigits _ (by decide))
    (notMem_toDigits _ (by decide)) (List.cons.inj sameText).2
  obtain ⟨address, index⟩ := left
  obtain ⟨otherAddress, otherIndex⟩ := right
  cases toDigits_injective sameIndex
  cases UInt32.toNat.inj (toDigits_injective sameAddress)
  rfl

theorem notMem_nodeName {c : Char} (id : NodeId) (noDigit : c.isDigit = false) (noLetter : c ≠ 'n')
    (noLine : c ≠ '_') : c ∉ (nodeName id).toList := by
  rw [toList_nodeName]
  simp [noLetter, noLine, notMem_toDigits _ noDigit]

theorem escape_text (id : NodeId) (text : String) :
    escape (id.text ++ ": " ++ text) = id.text ++ ": " ++ escape text := by
  have digit : ∀ number, (Nat.toDigits 10 number).flatMap escapeChar = Nat.toDigits 10 number := by
    intro number
    refine (List.flatMap_congr fun c inside => ?_).trans (List.flatMap_singleton' _)
    exact escapeChar_of_isDigit (Nat.isDigit_of_mem_toDigits (by decide) (by decide) inside)
  apply String.toList_inj.mp
  simp [toList_escape, NodeId.text, digit, escapeChar]

/-! ## Lines -/

/-- The text of a drawing is some lines, each with a line break behind it. -/
structure HasLines (text : String) (lines : List String) : Prop where
  text : text = String.join (lines.map (· ++ "\n"))
  broken : ∀ line ∈ lines, '\n' ∉ line.toList

def label (graph : Graph) (id : NodeId) : String :=
  id.text ++ ": " ++ ((graph.instruction? id.address).map (·.text)).getD ""

def nodeText (graph : Graph) (id : NodeId) : String :=
  "    " ++ nodeName id ++ " [label=\"" ++ escape (label graph id) ++ "\", peripheries=" ++
    (if id.address ∈ graph.terminating then "2" else "1") ++ "];"

def edgeText (edge : NodeId × NodeId) : String :=
  "    " ++ nodeName edge.1 ++ " -> " ++ nodeName edge.2 ++ ";"

def opening (graph : Graph) : List String :=
  ["digraph ContextGraph \x7b", "    label=\"" ++ escape graph.method ++ "\";", "    labelloc=t;",
    "    node [shape=box, fontname=\"Courier\", fontsize=10];", ""]

def linesOf (graph : Graph) (nodes : List NodeId) (edges : List (NodeId × NodeId)) : List String :=
  opening graph ++ nodes.map (nodeText graph) ++ (if edges.isEmpty then [] else [""]) ++
    edges.map edgeText ++ ["\x7d"]

theorem toList_nodeText (graph : Graph) (id : NodeId) :
    ∃ borders, borders = (if id.address ∈ graph.terminating then '2' else '1') ∧
      (nodeText graph id).toList = [' ', ' ', ' ', ' '] ++ ((nodeName id).toList ++
        ' ' :: '[' :: ("label=\"".toList ++ ((escape (label graph id)).toList ++
          ("\", peripheries=".toList ++ (borders :: "];".toList))))) := by
  refine ⟨_, rfl, ?_⟩
  simp only [nodeText, String.toList_append, List.append_assoc]
  split <;> rfl

theorem toList_edgeText (edge : NodeId × NodeId) :
    (edgeText edge).toList = [' ', ' ', ' ', ' '] ++ ((nodeName edge.1).toList ++
      ' ' :: '-' :: '>' :: ' ' :: ((nodeName edge.2).toList ++ [';'])) := by
  simp only [edgeText, String.toList_append, List.append_assoc]
  rfl

theorem nodeText_injective {graph : Graph} {left right : NodeId}
    (same : nodeText graph left = nodeText graph right) : left = right := by
  have sameText := congrArg String.toList same
  obtain ⟨_, -, isLeft⟩ := toList_nodeText graph left
  obtain ⟨_, -, isRight⟩ := toList_nodeText graph right
  rw [isLeft, isRight] at sameText
  have sameName := (append_mark_inj (notMem_nodeName left (by decide) (by decide) (by decide))
    (notMem_nodeName right (by decide) (by decide) (by decide))
    (List.append_cancel_left sameText)).1
  exact nodeName_injective (String.toList_inj.mp sameName)

theorem edgeText_injective {left right : NodeId × NodeId}
    (same : edgeText left = edgeText right) : left = right := by
  have sameText := congrArg String.toList same
  rw [toList_edgeText, toList_edgeText] at sameText
  obtain ⟨sameParent, sameRest⟩ := append_mark_inj
    (notMem_nodeName left.1 (by decide) (by decide) (by decide))
    (notMem_nodeName right.1 (by decide) (by decide) (by decide))
    (List.append_cancel_left sameText)
  have sameChild := List.append_cancel_right
    (List.cons.inj (List.cons.inj (List.cons.inj sameRest).2).2).2
  exact Prod.ext (nodeName_injective (String.toList_inj.mp sameParent))
    (nodeName_injective (String.toList_inj.mp sameChild))

theorem nodeText_ne_edgeText (graph : Graph) (id : NodeId) (edge : NodeId × NodeId) :
    nodeText graph id ≠ edgeText edge := by
  intro same
  have sameText := congrArg String.toList same
  obtain ⟨_, -, isNode⟩ := toList_nodeText graph id
  rw [isNode, toList_edgeText] at sameText
  have sameRest := (append_mark_inj (notMem_nodeName id (by decide) (by decide) (by decide))
    (notMem_nodeName edge.1 (by decide) (by decide) (by decide))
    (List.append_cancel_left sameText)).2
  -- A bracket stands behind the one name, and an arrow behind the other.
  cases sameRest

def Named (line : String) : Prop :=
  ∃ digit rest, digit.isDigit = true ∧
    line.toList = ' ' :: ' ' :: ' ' :: ' ' :: 'n' :: digit :: rest

theorem named_of_toList {line : String} {id : NodeId} {rest : List Char}
    (isLine : line.toList = [' ', ' ', ' ', ' '] ++ ((nodeName id).toList ++ rest)) :
    Named line := by
  rw [toList_nodeName] at isLine
  cases digits : Nat.toDigits 10 id.address.toNat with
  | nil => exact absurd digits Nat.toDigits_ne_nil
  | cons digit others =>
      have isDigit : digit.isDigit = true := by
        apply Nat.isDigit_of_mem_toDigits (by decide : 0 < 10) (by decide)
        rw [digits]
        exact List.mem_cons_self
      rw [digits] at isLine
      exact ⟨digit, _, isDigit, isLine⟩

theorem named_nodeText (graph : Graph) (id : NodeId) : Named (nodeText graph id) := by
  obtain ⟨_, -, isLine⟩ := toList_nodeText graph id
  exact named_of_toList isLine

theorem named_edgeText (edge : NodeId × NodeId) : Named (edgeText edge) :=
  named_of_toList (toList_edgeText edge)

theorem not_named_opening {graph : Graph} {line : String} (outside : line ∈ opening graph) :
    ¬ Named line := by
  intro named
  obtain ⟨digit, rest, isDigit, isLine⟩ := named
  simp only [opening, List.mem_cons, List.not_mem_nil, or_false] at outside
  rcases outside with rfl | rfl | rfl | rfl | rfl
  · simp at isLine
  · simp at isLine
  · simp at isLine
  · simp at isLine
    rw [← isLine.1] at isDigit
    exact absurd isDigit (by decide)
  · simp at isLine

theorem not_named_closing : ¬ Named "\x7d" := by
  intro named
  obtain ⟨digit, rest, -, isLine⟩ := named
  simp at isLine

/-- Lines with names are those of the nodes and arrows. -/
theorem count_linesOf (graph : Graph) (nodes : List NodeId) (edges : List (NodeId × NodeId))
    {line : String} (named : Named line) :
    (linesOf graph nodes edges).count line =
      (nodes.map (nodeText graph)).count line + (edges.map edgeText).count line := by
  have opened : (opening graph).count line = 0 :=
    List.count_eq_zero.mpr fun inside => not_named_opening inside named
  have blank : line ≠ "" := by
    rintro rfl
    exact @not_named_opening graph "" (by simp [opening]) named
  have closed : line ≠ "\x7d" := by
    rintro rfl
    exact not_named_closing named
  have gap : (if edges.isEmpty then [] else [""]).count line = 0 := by
    split <;> simp [blank.symm]
  have last : ["\x7d"].count line = 0 := by simp [closed.symm]
  rw [linesOf, List.count_append, List.count_append, List.count_append, List.count_append, opened,
    gap, last]
  omega

theorem count_nodeText {graph : Graph} {nodes : List NodeId} (edges : List (NodeId × NodeId))
    {id : NodeId} (distinct : nodes.Nodup) (inside : id ∈ nodes) :
    (linesOf graph nodes edges).count (nodeText graph id) = 1 := by
  have once : (nodes.map (nodeText graph)).count (nodeText graph id) = 1 :=
    List.count_eq_one_of_mem (distinct.map fun _ _ => nodeText_injective)
      (List.mem_map.mpr ⟨id, inside, rfl⟩)
  have noEdge : (edges.map edgeText).count (nodeText graph id) = 0 := by
    apply List.count_eq_zero.mpr
    intro among
    obtain ⟨edge, -, same⟩ := List.mem_map.mp among
    exact nodeText_ne_edgeText graph id edge same.symm
  rw [count_linesOf graph nodes edges (named_nodeText graph id), once, noEdge]

theorem count_edgeText (graph : Graph) (nodes : List NodeId) {edges : List (NodeId × NodeId)}
    {edge : NodeId × NodeId} (distinct : edges.Nodup) (inside : edge ∈ edges) :
    (linesOf graph nodes edges).count (edgeText edge) = 1 := by
  have once : (edges.map edgeText).count (edgeText edge) = 1 :=
    List.count_eq_one_of_mem (distinct.map fun _ _ => edgeText_injective)
      (List.mem_map.mpr ⟨edge, inside, rfl⟩)
  have noNode : (nodes.map (nodeText graph)).count (edgeText edge) = 0 := by
    apply List.count_eq_zero.mpr
    intro among
    obtain ⟨id, -, same⟩ := List.mem_map.mp among
    exact nodeText_ne_edgeText graph id edge same
  rw [count_linesOf graph nodes edges (named_edgeText edge), once, noNode]

theorem notMem_line {graph : Graph} {nodes : List NodeId} {edges : List (NodeId × NodeId)}
    {line : String} (inside : line ∈ linesOf graph nodes edges) : '\n' ∉ line.toList := by
  have inName : ∀ id, '\n' ∉ (nodeName id).toList := fun id =>
    notMem_nodeName id (by decide) (by decide) (by decide)
  simp only [linesOf, List.mem_append, List.mem_map] at inside
  rcases inside with (((opened | ⟨id, -, rfl⟩) | gap) | ⟨edge, -, rfl⟩) | closed
  · have inMethod := (quotable_escape graph.method.toList).line
    simp only [opening, List.mem_cons, List.not_mem_nil, or_false] at opened
    rcases opened with rfl | rfl | rfl | rfl | rfl
    · decide
    · simp [toList_escape, inMethod]
    · decide
    · decide
    · decide
  · have inLabel := (quotable_escape (label graph id).toList).line
    obtain ⟨borders, isBorders, isLine⟩ := toList_nodeText graph id
    rw [isLine]
    have noBorder : '\n' ≠ borders := by
      rw [isBorders]
      split <;> decide
    simp [inName id, toList_escape, inLabel, noBorder]
  · split at gap
    · cases gap
    · rw [List.mem_singleton.mp gap]
      decide
  · rw [toList_edgeText]
    simp [inName]
  · rw [List.mem_singleton.mp closed]
    decide

end Dot

/-! ## Nodes on paths -/

def PathTree.Hangs (located : PathTree (NodeId × Frame)) (parent id : NodeId) : Prop :=
  ∃ frame branches, Within (.node (parent, frame) branches) located ∧
    ∃ branch ∈ branches, branch.label.1 = id

namespace Graph

variable {graph : Graph}

def framedOf (address : Address) (pile : Pile) : List (NodeId × Node) :=
  (pile.nodes.mapIdx fun index node => ((⟨address, index⟩ : NodeId), node)).filter
    fun entry => entry.2.frame.isSome

def framed (graph : Graph) : List (NodeId × Node) :=
  graph.piles.entries.flatMap fun entry => framedOf entry.1 entry.2

theorem mem_framedOf {address : Address} {pile : Pile} {id : NodeId} {node : Node} :
    (id, node) ∈ framedOf address pile ↔
      id.address = address ∧ pile.nodes[id.index]? = some node ∧ node.frame.isSome := by
  rw [framedOf, List.mem_filter, List.mem_mapIdx]
  constructor
  · rintro ⟨⟨index, bound, same⟩, isFramed⟩
    obtain ⟨rfl, rfl⟩ := Prod.mk.inj same
    exact ⟨rfl, List.getElem?_eq_getElem bound, isFramed⟩
  · rintro ⟨rfl, isNode, isFramed⟩
    obtain ⟨bound, isAt⟩ := List.getElem?_eq_some_iff.mp isNode
    exact ⟨⟨id.index, bound, by rw [isAt]⟩, isFramed⟩

theorem mem_framed_iff {id : NodeId} {node : Node} :
    (id, node) ∈ graph.framed ↔ graph.node? id = some node ∧ node.frame.isSome := by
  rw [framed, List.mem_flatMap]
  constructor
  · rintro ⟨⟨address, pile⟩, isPile, inside⟩
    obtain ⟨rfl, isNode, isFramed⟩ := mem_framedOf.mp inside
    refine ⟨Option.bind_eq_some_iff.mpr ⟨pile, OrdMap.find?_eq_some_iff.mpr isPile, isNode⟩, ?_⟩
    exact isFramed
  · rintro ⟨found, isFramed⟩
    obtain ⟨pile, isPile, isNode⟩ := Option.bind_eq_some_iff.mp found
    exact ⟨(id.address, pile), OrdMap.find?_eq_some_iff.mp isPile,
      mem_framedOf.mpr ⟨rfl, isNode, isFramed⟩⟩

theorem nodup_framedOf (address : Address) (pile : Pile) :
    ((framedOf address pile).map (·.1)).Nodup := by
  have numbered : (pile.nodes.mapIdx fun index node => ((⟨address, index⟩ : NodeId), node)).map
      (·.1) = (List.range' 0 pile.nodes.length).map fun index => ⟨address, index⟩ := by
    rw [List.mapIdx_eq_zipIdx_map, ← List.zipIdx_map_snd, List.map_map, List.map_map]
    rfl
  have distinct : ((List.range' 0 pile.nodes.length).map
      fun index => (⟨address, index⟩ : NodeId)).Nodup := by
    apply List.Nodup.map _ (List.nodup_range' 1)
    intro left right same
    exact (NodeId.mk.inj same).2
  rw [← numbered] at distinct
  exact distinct.sublist (List.filter_sublist.map _)

theorem nodup_framed (graph : Graph) : (graph.framed.map (·.1)).Nodup := by
  rw [framed, List.map_flatMap, List.nodup_flatMap]
  refine ⟨fun entry _ => nodup_framedOf entry.1 entry.2, graph.piles.ascending.imp ?_⟩
  intro left right below id inLeft inRight
  obtain ⟨⟨_, node⟩, isLeft, rfl⟩ := List.mem_map.mp inLeft
  obtain ⟨⟨_, other⟩, isRight, rfl⟩ := List.mem_map.mp inRight
  have sameAddress := (mem_framedOf.mp isLeft).1.symm.trans (mem_framedOf.mp isRight).1
  exact Entries.ne_of_compare below (by simp) sameAddress

/-- The first node of a pile is left out of a drawing, and lies on no path, but at the entry. -/
theorem drawnNodes_eq {address : Address} {pile : Pile}
    (blank : address ≠ 0 → pile.base.frame = none) :
    drawnNodes address pile = framedOf address pile := by
  unfold drawnNodes framedOf
  by_cases entry : address = 0
  · simp [entry]
  · simp only [entry, if_false]
    rw [Pile.nodes, List.mapIdx_cons, List.filter_cons_of_neg (by simp [blank entry])]
    simp [Nat.add_comm]

/-! ## The text of a drawing -/

def arrows (graph : Graph) : List (NodeId × NodeId) :=
  graph.framed.filterMap fun entry => entry.2.parent.map fun parent => (parent, entry.1)

theorem mem_terminating_iff
    (addressed : ∀ address instruction, graph.instruction? address = some instruction →
      instruction.address = address)
    {address : Address} {instruction : Instruction}
    (present : graph.instruction? address = some instruction) :
    address ∈ graph.terminating ↔ instruction.op.canContinue = false := by
  constructor
  · intro ends
    obtain ⟨last, isLast, atAddress⟩ := List.mem_map.mp ends
    obtain ⟨isLast, stops⟩ := List.mem_filter.mp isLast
    obtain ⟨place, presentLast⟩ := (graph.mem_instructions_iff last).mp isLast
    rw [← addressed place last presentLast, atAddress, present] at presentLast
    cases presentLast
    simpa using stops
  · intro stops
    exact mem_terminating_of_instruction? present (addressed address instruction present) stops

theorem nodeLine_eq
    (addressed : ∀ address instruction, graph.instruction? address = some instruction →
      instruction.address = address)
    {id : NodeId} {instruction : Instruction}
    (present : graph.instruction? id.address = some instruction) :
    Dot.nodeLine id instruction = Dot.nodeText graph id ++ "\n" := by
  have isLabel : Dot.label graph id = id.text ++ ": " ++ instruction.text := by
    rw [Dot.label, present]
    rfl
  have borders : (if instruction.op.canContinue then "1" else "2") =
      if id.address ∈ graph.terminating then "2" else "1" := by
    by_cases stops : instruction.op.canContinue = false
    · rw [if_pos ((mem_terminating_iff addressed present).mpr stops), stops]
      rfl
    · rw [if_neg fun ends => stops ((mem_terminating_iff addressed present).mp ends),
        if_pos (by simpa using stops)]
  apply String.toList_inj.mp
  simp only [Dot.nodeLine, Dot.nodeText, isLabel, Dot.escape_text, borders, String.toList_append,
    List.append_assoc]
  rfl

theorem edgeLine_eq (edge : NodeId × NodeId) :
    Dot.edgeLine edge = Dot.edgeText edge ++ "\n" := by
  apply String.toList_inj.mp
  simp only [Dot.edgeLine, Dot.edgeText, String.toList_append, List.append_assoc]
  rfl

theorem edgeLines_eq (edges : List (NodeId × NodeId)) :
    edges.map Dot.edgeLine = (edges.map Dot.edgeText).map (· ++ "\n") := by
  rw [List.map_map]
  exact List.map_congr_left fun edge _ => edgeLine_eq edge

def drawing (method : String) (lines : List String) (edges : List (NodeId × NodeId)) : String :=
  "digraph ContextGraph \x7b\n" ++
    "    label=\"" ++ Dot.escape method ++ "\";\n" ++
    "    labelloc=t;\n" ++
    "    node [shape=box, fontname=\"Courier\", fontsize=10];\n\n" ++
    String.join lines ++
    (if edges.isEmpty then "" else "\n") ++
    String.join (edges.map Dot.edgeLine) ++
    "\x7d\n"

theorem toDot_eq_drawing (graph : Graph) :
    graph.toDot = drawing graph.method
      ((graph.piles.entries.map fun entry => (entry.2, drawnNodes entry.1 entry.2)).flatMap
        fun entry => entry.2.map fun node => Dot.nodeLine node.1 entry.1.instruction)
      ((graph.piles.entries.map fun entry => (entry.2, drawnNodes entry.1 entry.2)).flatMap
        fun entry => entry.2.filterMap fun node =>
          node.2.parent.map fun parent => (parent, node.1)) := by
  unfold toDot drawing
  extract_lets drawn lines edges
  exact Eq.refl _

theorem join_opening (graph : Graph) :
    String.join ((Dot.opening graph).map (· ++ "\n")) =
      "digraph ContextGraph \x7b\n" ++ "    label=\"" ++ Dot.escape graph.method ++ "\";\n" ++
        "    labelloc=t;\n" ++ "    node [shape=box, fontname=\"Courier\", fontsize=10];\n\n" := by
  have first : "digraph ContextGraph \x7b\n" = "digraph ContextGraph \x7b" ++ "\n" := by decide
  have second : "\";\n" = "\";" ++ "\n" := by decide
  have third : "    labelloc=t;\n" = "    labelloc=t;" ++ "\n" := by decide
  have fourth : "    node [shape=box, fontname=\"Courier\", fontsize=10];\n\n" =
      "    node [shape=box, fontname=\"Courier\", fontsize=10];" ++ "\n" ++ ("" ++ "\n") := by
    decide
  rw [first, second, third, fourth]
  simp only [Dot.opening, List.map_cons, List.map_nil, String.join_cons, String.join_nil,
    String.append_assoc, String.append_empty]

theorem drawing_eq (graph : Graph) (nodes : List NodeId) (edges : List (NodeId × NodeId)) :
    drawing graph.method ((nodes.map (Dot.nodeText graph)).map (· ++ "\n")) edges =
      String.join ((Dot.linesOf graph nodes edges).map (· ++ "\n")) := by
  have gap : String.join ((if edges.isEmpty then [] else [""]).map (· ++ "\n")) =
      if edges.isEmpty then "" else "\n" := by
    split <;> decide
  have closed : String.join (["\x7d"].map (· ++ "\n")) = "\x7d\n" := by decide
  unfold drawing
  rewrite [Dot.linesOf, List.map_append, List.map_append, List.map_append, List.map_append,
    String.join_append, String.join_append, String.join_append, String.join_append, join_opening,
    gap, closed, edgeLines_eq]
  rfl

section Text

variable
  (addressed : ∀ address instruction, graph.instruction? address = some instruction →
    instruction.address = address)
  (blank : ∀ address pile, (address, pile) ∈ graph.piles.entries → address ≠ 0 →
    pile.base.frame = none)

include addressed in
theorem nodeLines_eq :
    (graph.piles.entries.map fun entry => (entry.2, framedOf entry.1 entry.2)).flatMap
      (fun entry => entry.2.map fun node => Dot.nodeLine node.1 entry.1.instruction) =
    ((graph.framed.map (·.1)).map (Dot.nodeText graph)).map (· ++ "\n") := by
  rw [List.flatMap_map, framed, List.map_flatMap, List.map_flatMap, List.map_flatMap]
  apply List.flatMap_congr
  intro entry isEntry
  rw [List.map_map, List.map_map]
  apply List.map_congr_left
  intro node isNode
  have atAddress : node.1.address = entry.1 := (mem_framedOf.mp isNode).1
  apply nodeLine_eq addressed
  rw [instruction?, atAddress, OrdMap.find?_eq_some_iff.mpr isEntry]
  rfl

include blank in
theorem drawn_eq :
    graph.piles.entries.map (fun entry => (entry.2, drawnNodes entry.1 entry.2)) =
      graph.piles.entries.map fun entry => (entry.2, framedOf entry.1 entry.2) := by
  apply List.map_congr_left
  intro entry isEntry
  rw [drawnNodes_eq (blank entry.1 entry.2 isEntry)]

theorem arrows_eq (graph : Graph) :
    (graph.piles.entries.map fun entry => (entry.2, framedOf entry.1 entry.2)).flatMap
      (fun entry => entry.2.filterMap fun node =>
        node.2.parent.map fun parent => (parent, node.1)) = graph.arrows := by
  rw [List.flatMap_map, arrows, framed, List.filterMap_flatMap]

include addressed blank in
theorem toDot_eq :
    graph.toDot = String.join
      ((Dot.linesOf graph (graph.framed.map (·.1)) graph.arrows).map (· ++ "\n")) := by
  rw [toDot_eq_drawing, drawn_eq blank, nodeLines_eq addressed, arrows_eq, drawing_eq]

end Text

/-! ## The tree of a drawing -/

variable {located : PathTree (NodeId × Frame)} {id parent : NodeId} {node : Node}

theorem IsTree.parent_of_hangs (isTree : graph.IsTree located) (hangs : located.Hangs parent id) :
    graph.OnPath parent ∧
      ∃ node, graph.node? id = some node ∧ node.frame.isSome ∧ node.parent = some parent := by
  obtain ⟨frame, branches, within, ⟨⟨next, there⟩, below⟩, isBranch, rfl⟩ := hangs
  obtain ⟨_, holds⟩ := isTree.holds.within within
  refine ⟨⟨_, holds.inv.1, rfl⟩, _, (holds.inv.2 _ isBranch).inv.1, rfl, rfl⟩

theorem IsTree.parent_root (isTree : graph.IsTree located)
    (found : graph.node? .root = some node) : node.parent = none := by
  obtain ⟨⟨entry, frame⟩, branches⟩ := located
  have isRoot : entry = .root := isTree.root
  subst isRoot
  have foundToo := isTree.holds.inv.1
  cases found.symm.trans foundToo
  rfl

theorem IsTree.parent_iff_hangs (isTree : graph.IsTree located)
    (found : graph.node? id = some node) (onPath : node.frame.isSome) :
    node.parent = some parent ↔ located.Hangs parent id := by
  constructor
  · intro isParent
    have below : id ≠ .root := by
      rintro rfl
      rw [isTree.parent_root found] at isParent
      cases isParent
    obtain ⟨other, frame, branches, within, hangs⟩ :=
      isTree.exists_parent ((isTree.onPath id).mpr ⟨node, found, onPath⟩) below
    have hangsToo : located.Hangs other id := ⟨frame, branches, within, hangs⟩
    obtain ⟨-, same, foundToo, -, isOther⟩ := isTree.parent_of_hangs hangsToo
    cases found.symm.trans foundToo
    cases isParent.symm.trans isOther
    exact hangsToo
  · intro hangs
    obtain ⟨-, same, foundToo, -, isParent⟩ := isTree.parent_of_hangs hangs
    cases found.symm.trans foundToo
    exact isParent

theorem IsTree.parent_isSome_iff (isTree : graph.IsTree located)
    (found : graph.node? id = some node) (onPath : node.frame.isSome) :
    node.parent.isSome = true ↔ id ≠ .root := by
  constructor
  · rintro isSome rfl
    rw [isTree.parent_root found] at isSome
    cases isSome
  · intro below
    obtain ⟨other, frame, branches, within, hangs⟩ :=
      isTree.exists_parent ((isTree.onPath id).mpr ⟨node, found, onPath⟩) below
    rw [(isTree.parent_iff_hangs found onPath).mpr ⟨frame, branches, within, hangs⟩]
    rfl

theorem mem_arrows_iff :
    (parent, id) ∈ graph.arrows ↔
      ∃ node, graph.node? id = some node ∧ node.frame.isSome ∧ node.parent = some parent := by
  rw [arrows, List.mem_filterMap]
  constructor
  · rintro ⟨⟨other, node⟩, inside, isArrow⟩
    obtain ⟨above, isParent, same⟩ := Option.map_eq_some_iff.mp isArrow
    obtain ⟨rfl, rfl⟩ := Prod.mk.inj same
    obtain ⟨found, onPath⟩ := mem_framed_iff.mp inside
    exact ⟨node, found, onPath, isParent⟩
  · rintro ⟨node, found, onPath, isParent⟩
    exact ⟨(id, node), mem_framed_iff.mpr ⟨found, onPath⟩, by rw [isParent]; rfl⟩

/-- There is one arrow to every node but the entry. -/
theorem IsTree.arrows_snd (isTree : graph.IsTree located) :
    graph.arrows.map (·.2) = (graph.framed.map (·.1)).filter (· ≠ .root) := by
  rw [arrows, List.map_filterMap, ← List.filterMap_eq_filter, List.filterMap_map]
  apply List.filterMap_congr
  rintro ⟨id, node⟩ inside
  obtain ⟨found, onPath⟩ := mem_framed_iff.mp inside
  have hasParent := isTree.parent_isSome_iff found onPath
  cases isParent : node.parent with
  | none =>
      have isRoot : id = .root := by
        by_contra below
        rw [isParent] at hasParent
        cases hasParent.mpr below
      simp [isRoot, Option.guard]
  | some parent =>
      have below : id ≠ .root := hasParent.mp (by rw [isParent]; rfl)
      simp [below]

/-- Some nodes and arrows, as a drawing of a graph shows them. -/
structure IsDrawn (graph : Graph) (nodes : List NodeId) (edges : List (NodeId × NodeId)) :
    Prop where
  lines : Dot.HasLines graph.toDot (Dot.linesOf graph nodes edges)
  names : (nodes.map Dot.nodeName).Nodup
  onPath : ∀ id, id ∈ nodes ↔ graph.OnPath id
  nodeLines : ∀ id ∈ nodes, (Dot.linesOf graph nodes edges).count (Dot.nodeText graph id) = 1
  edgeLines : ∀ edge ∈ edges, (Dot.linesOf graph nodes edges).count (Dot.edgeText edge) = 1
  /-- One arrow leads to every node but the entry. -/
  targets : edges.map (·.2) = nodes.filter (· ≠ .root)
  sources : ∀ edge ∈ edges, edge.1 ∈ nodes ∧
    ∃ node, graph.node? edge.2 = some node ∧ node.parent = some edge.1
  tree : ∃ located, graph.IsTree located ∧
    ∀ parent id, (parent, id) ∈ edges ↔ located.Hangs parent id

theorem mem_framed_fst_iff : id ∈ graph.framed.map (·.1) ↔ graph.OnPath id := by
  rw [List.mem_map]
  constructor
  · rintro ⟨⟨_, node⟩, inside, rfl⟩
    exact ⟨node, mem_framed_iff.mp inside⟩
  · rintro ⟨node, onPath⟩
    exact ⟨(id, node), mem_framed_iff.mpr onPath, rfl⟩

/-- A graph whose nodes on paths are a tree is drawn as that tree. -/
theorem IsTree.isDrawn (isTree : graph.IsTree located)
    (addressed : ∀ address instruction, graph.instruction? address = some instruction →
      instruction.address = address) :
    graph.IsDrawn (graph.framed.map (·.1)) graph.arrows := by
  -- The first node of a pile is drawn at the entry only, and elsewhere has to lie on no path.
  have blank : ∀ address pile, (address, pile) ∈ graph.piles.entries → address ≠ 0 →
      pile.base.frame = none := by
    intro address pile isPile elsewhere
    by_contra framed
    have onPath : graph.OnPath ⟨address, 0⟩ := by
      refine ⟨pile.base, ?_, Option.isSome_iff_ne_none.mpr framed⟩
      rw [node?, OrdMap.find?_eq_some_iff.mpr isPile]
      rfl
    have isRoot := isTree.first _ ((isTree.onPath _).mpr onPath) rfl
    exact elsewhere (congrArg NodeId.address isRoot)
  have distinctTargets : (graph.arrows.map (·.2)).Nodup := by
    rw [isTree.arrows_snd]
    exact graph.nodup_framed.filter _
  refine ⟨⟨toDot_eq addressed blank, fun line => Dot.notMem_line⟩, ?_, fun id => mem_framed_fst_iff,
    fun id => Dot.count_nodeText _ graph.nodup_framed,
    fun edge => Dot.count_edgeText _ _ (List.Nodup.of_map _ distinctTargets), isTree.arrows_snd, ?_,
    located, isTree, ?_⟩
  · exact graph.nodup_framed.map fun _ _ => Dot.nodeName_injective
  · rintro ⟨parent, id⟩ isArrow
    obtain ⟨node, found, onPath, isParent⟩ := mem_arrows_iff.mp isArrow
    have hangs := (isTree.parent_iff_hangs found onPath).mp isParent
    exact ⟨mem_framed_fst_iff.mpr (isTree.parent_of_hangs hangs).1, node, found, isParent⟩
  · intro parent id
    rw [mem_arrows_iff]
    constructor
    · rintro ⟨node, found, onPath, isParent⟩
      exact (isTree.parent_iff_hangs found onPath).mp isParent
    · intro hangs
      exact (isTree.parent_of_hangs hangs).2

end Graph

open Execution Exploration

section Executions

variable {method : MethodDef} {template graph : Graph} {machine : Machine} {descriptor : String}
  {frame : Frame}

theorem Exploration.isDrawn_explore (built : Graph.ofMethod method = .ok template) (setup : Setup)
    (calls : Calls) (frame : Frame) (world : World) :
    ∃ nodes edges, (lastState (explore setup calls
      ⟨template.setRootFrame frame, world⟩)).graph.IsDrawn nodes edges := by
  obtain ⟨same, located, -, -, isTree⟩ := isTree_exploreFor setup Law.shape_fair calls.obey_shape
    built frame world _ (Allowance.full setup.config (template.setRootFrame frame))
  rw [exploreFor_eq_lastState setup calls _ _ _ (Nat.le_refl _)] at same isTree
  refine ⟨_, _, isTree.isDrawn ?_⟩
  intro address instruction found
  rw [same.instruction?] at found
  exact ((Graph.instruction?_iff_mem built address instruction).mp found).2

theorem Machine.isDrawn_executeFrom (loaded : machine.Loaded)
    (completed : (machine.executeFrom descriptor frame).outcome = .ok (some graph)) :
    ∃ nodes edges, graph.IsDrawn nodes edges := by
  obtain ⟨done, ⟨template, started, code, -, -, explored⟩, rfl, -⟩ :=
    completes_of_executeFrom completed
  obtain ⟨method, -, built⟩ := loaded.consistent.template code
  have drawn := isDrawn_explore built machine.toSetup
    (callsAt machine.toSetup (machine.callDepth + 1)) frame
    (entering template machine.callDepth started)
  rw [explored] at drawn
  exact drawn

/-- A drawing shows the nodes on paths, each by one line, and the tree they are by one arrow to
each node but the entry, however the exploration ends; the graphs a machine gives out are drawn
so too. What stands between quotes is closed by the quote behind it and not before, and can be
read back. -/
theorem Graph.drawn_faithfully (built : Graph.ofMethod method = .ok template) (setup : Setup)
    (calls : Calls) (frame : Frame) (world : World) :
    (∃ nodes edges, (lastState (explore setup calls
      ⟨template.setRootFrame frame, world⟩)).graph.IsDrawn nodes edges) ∧
    (∀ (machine : Machine) descriptor start graph, machine.Loaded →
      (machine.executeFrom descriptor start).outcome = .ok (some graph) →
      ∃ nodes edges, graph.IsDrawn nodes edges) ∧
    (∀ text, Dot.Quotable (Dot.escape text).toList ∧
      (∀ rest, Dot.readQuoted false ((Dot.escape text).toList ++ '"' :: rest) =
        some (text.toList, rest)) ∧
      (Dot.escape text).toList = Dot.replaced '>' '>' (Dot.replaced '<' '<'
        (Dot.replaced '\n' 'n' (Dot.replaced '"' '"' (Dot.replaced '\\' '\\' text.toList))))) ∧
    Function.Injective Dot.escape := by
  refine ⟨isDrawn_explore built setup calls frame world,
    fun _ _ _ _ loaded completed => Machine.isDrawn_executeFrom loaded completed, ?_,
    fun _ _ => Dot.escape_injective⟩
  intro text
  rw [Dot.toList_escape]
  exact ⟨Dot.quotable_escape text.toList, Dot.readQuoted_escape text.toList,
    Dot.escape_eq_replaced text.toList⟩

/-- An exploration that was refused a node is drawn up to there, and one that was not is drawn
in full. -/
theorem Graph.drawn_faithfully_circle :
    ∃ template machine graph, Graph.ofMethod circleMethod = .ok template ∧
      Machine.load [Machine.tallyClass] {} = .ok machine ∧
      (machine.executeFrom Machine.tallyMethod.descriptor Machine.tallyFrame).outcome =
        .ok (some graph) ∧
      (∃ nodes edges, (lastState (explore ⟨{ maxVisits := 2 }, .empty⟩ Answer.nothing.calls
        ⟨template.setRootFrame Machine.forkFrame, ⟨.empty, []⟩⟩)).graph.IsDrawn nodes edges ∧
          ⟨2, 1⟩ ∈ nodes) ∧
      ∃ nodes edges, graph.IsDrawn nodes edges := by
  cases built : Graph.ofMethod circleMethod with
  | error fault => cases built
  | ok template =>
      cases loaded : Machine.load [Machine.tallyClass] {} with
      | error fault => cases loaded
      | ok machine =>
          have ran : ((machine.executeFrom Machine.tallyMethod.descriptor
              Machine.tallyFrame).outcome.toOption.bind id).isSome = true := by
            cases loaded
            decide +kernel
          obtain ⟨graph, isGraph⟩ := Option.isSome_iff_exists.mp ran
          obtain ⟨result, isResult, rfl⟩ := Option.bind_eq_some_iff.mp isGraph
          have completed := Except.eq_ok_of_toOption isResult
          have reached : (((lastState (explore ⟨{ maxVisits := 2 }, .empty⟩ Answer.nothing.calls
              ⟨template.setRootFrame Machine.forkFrame, ⟨.empty, []⟩⟩)).graph.node? ⟨2, 1⟩).bind
                (·.frame)).isSome = true := by
            cases built
            decide +kernel
          obtain ⟨last, isLast⟩ := Option.isSome_iff_exists.mp reached
          obtain ⟨node, found, framed⟩ := Option.bind_eq_some_iff.mp isLast
          obtain ⟨⟨nodes, edges, drawn⟩, drawnToo, -⟩ := drawn_faithfully built
            ⟨{ maxVisits := 2 }, .empty⟩ Answer.nothing.calls Machine.forkFrame ⟨.empty, []⟩
          have onPath : ⟨2, 1⟩ ∈ nodes := (drawn.onPath _).mpr ⟨node, found, by simp [framed]⟩
          exact ⟨template, machine, graph, rfl, rfl, completed, ⟨nodes, edges, drawn, onPath⟩,
            drawnToo machine _ _ graph ⟨machine, .load loaded trivial, rfl⟩ completed⟩

end Executions

end Dexplore
