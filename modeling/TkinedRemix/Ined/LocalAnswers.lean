import Mathlib

/-!
Queries that `InedCompCmd` of `tnmIned.c` answers from the list that `m_retrieve` of `tkiMethods.c` wrote for an
object. Splitting the list gives back the elements that were written.
-/

namespace Tnm.Ined

inductive Kind where
  | node | group | network | link | text | image | interpreter | menu | log | reference | stripchart | barchart
  | graph | data | event
deriving DecidableEq

inductive Query where
  | type | id | name | address | oid | links | member | src | dst | text | items | other
deriving DecidableEq

def Kind.word : Kind → String
  | .node => "NODE"
  | .group => "GROUP"
  | .network => "NETWORK"
  | .link => "LINK"
  | .text => "TEXT"
  | .image => "IMAGE"
  | .interpreter => "INTERPRETER"
  | .menu => "MENU"
  | .log => "LOG"
  | .reference => "REFERENCE"
  | .stripchart => "STRIPCHART"
  | .barchart => "BARCHART"
  | .graph => "GRAPH"
  | .data => "DATA"
  | .event => "EVENT"

def tkiTypeTable : List Kind :=
  [.node, .group, .network, .link, .text, .image, .interpreter, .menu, .log, .reference, .stripchart, .barchart,
    .graph, .data, .event]

structure Object where
  kind : Kind
  id : String
  name : String
  address : String
  oid : Nat
  links : String
  member : Option (List String)
  src : Option String
  dst : Option String
  text : String
  items : String

-- The elements of the list; a group without a member array has no element for it.
def retrieved (members : Bool) : Kind → List Query
  | .node | .network => [.type, .id, .name, .address, .oid, .links]
  | .group => if members then [.type, .id, .name, .oid, .member] else [.type, .id, .name, .oid]
  | .link => [.type, .id, .src, .dst]
  | .text => [.type, .id, .text]
  | .image | .interpreter | .event => [.type, .id, .name]
  | .menu => [.type, .id, .name, .items]
  | .log | .reference | .stripchart | .barchart | .graph | .data => [.type, .id, .name, .address]

def Object.value (merge : List String → String) (object : Object) : Query → String
  | .type => object.kind.word
  | .id => object.id
  | .name => object.name
  | .address => object.address
  | .oid => toString object.oid
  | .links => object.links
  | .member => merge (object.member.getD [])
  | .src => object.src.getD ""
  | .dst => object.dst.getD ""
  | .text => object.text
  | .items => object.items
  | .other => ""

def Object.elements (object : Object) : List Query := retrieved object.member.isSome object.kind

def mRetrieve (merge : List String → String) (object : Object) : List String :=
  object.elements.map (object.value merge)

-- `none` is `TCL_ERROR`; otherwise the element of `argv` that becomes the result, if one does.
def compCmd (type : Kind) (argc : Nat) : Query → Option (Option Nat)
  | .type => if 0 < argc then some (some 0) else none
  | .id => if 1 < argc then some (some 1) else none
  | .name =>
    if 2 < argc then
      some (if type ∈ [.node, .network, .barchart, .stripchart, .group, .reference, .menu, .log, .graph, .data,
        .event] then some 2 else none)
    else none
  | .address =>
    if 3 < argc then
      some (if type ∈ [.node, .network, .barchart, .stripchart, .reference, .graph, .data] then some 3 else none)
    else none
  | .oid =>
    some (if type = .group ∧ 3 < argc then some 3
      else if (type = .node ∨ type = .network) ∧ 4 < argc then some 4 else none)
  | .links => if 5 < argc then some (if type = .node ∨ type = .network then some 5 else none) else none
  | .member => if 4 < argc then some (if type = .group then some 4 else none) else none
  | .src => if 2 < argc then some (if type = .link then some 2 else none) else none
  | .dst => if 3 < argc then some (if type = .link then some 3 else none) else none
  | .text => if 2 < argc then some (if type = .link then some 2 else none) else none
  | .items | .other => none

def inedCompCmd (cmd : Query) (argv : List String) : Option String := do
  let type ← tkiTypeTable.find? fun kind => kind.word = argv.headD ""
  let place ← compCmd type argv.length cmd
  some (place.elim "" fun index => argv.getD index "")

-- Queries that are answered although the list has no such element.
def misread : Kind → Query → Bool
  | kind, .name => kind ∈ [.link, .text]
  | kind, .address => kind ∈ [.link, .group, .menu]
  | kind, .oid => kind ∉ [.node, .network, .group]
  | kind, .member => kind ∈ [.node, .network]
  | kind, .src => kind ≠ .link
  | kind, .dst => kind ∉ [.link, .text, .image, .interpreter, .event]
  | kind, .text => kind ≠ .text
  | _, _ => false

-- Queries that are answered with an empty result although the list has the element.
def blanked (kind : Kind) (query : Query) : Bool :=
  (kind, query) ∈ [(.image, .name), (.interpreter, .name), (.log, .address), (.text, .text)]

theorem mem_tkiTypeTable (kind : Kind) : kind ∈ tkiTypeTable := by
  cases kind <;> decide

theorem Query.mem_all (query : Query) :
    query ∈ [type, id, name, address, oid, links, member, src, dst, text, items, other] := by
  cases query <;> decide

theorem compCmd_cases (members : Bool) (kind : Kind) (query : Query) :
    let elements := retrieved members kind
    let answer := compCmd kind elements.length query
    (answer = none ∧ ¬ misread kind query ∧ ¬ blanked kind query) ∨
      (answer ≠ none ∧ query ∉ elements ∧ misread kind query) ∨
      (answer = some none ∧ query ∈ elements ∧ ¬ misread kind query ∧ blanked kind query) ∨
      (∃ index < 6, answer = some (some index) ∧ elements[index]? = some query ∧ ¬ misread kind query ∧
        ¬ blanked kind query) := by
  have queries := query.mem_all
  revert query
  have table := mem_tkiTypeTable kind
  revert kind members
  decide +kernel

theorem find_tkiTypeTable (kind : Kind) : tkiTypeTable.find? (fun other => other.word = kind.word) = some kind := by
  cases kind <;> decide

theorem inedCompCmd_mRetrieve (merge : List String → String) (object : Object) (query : Query) :
    inedCompCmd query (mRetrieve merge object) =
      (compCmd object.kind object.elements.length query).map fun place =>
        place.elim "" fun index => (mRetrieve merge object).getD index "" := by
  have first : (mRetrieve merge object).headD "" = object.kind.word := by
    have type : object.elements.head? = some .type := by
      unfold Object.elements
      cases object.kind <;> cases object.member.isSome <;> rfl
    simp [mRetrieve, List.headD_eq_head?_getD, type, Object.value]
  have length : (mRetrieve merge object).length = object.elements.length := by simp [mRetrieve]
  simp only [inedCompCmd, first, find_tkiTypeTable, length, Option.bind_eq_bind, Option.bind_some]
  cases compCmd object.kind object.elements.length query <;> rfl

theorem inedCompCmd_answers_iff (merge : List String → String) (object : Object) (query : Query) :
    (∀ answer, inedCompCmd query (mRetrieve merge object) = some answer →
      query ∈ object.elements ∧ answer = object.value merge query) ↔
    misread object.kind query = false ∧ (blanked object.kind query = true → object.value merge query = "") := by
  rw [inedCompCmd_mRetrieve]
  obtain ⟨sent, right, shown⟩ | ⟨answered, absent, wrong⟩ | ⟨empty, present, right, blank⟩ |
    ⟨index, _, found, element, right, shown⟩ := compCmd_cases object.member.isSome object.kind query
  · rw [show compCmd object.kind object.elements.length query = none from sent]
    simp [right, shown]
  · obtain ⟨place, some⟩ := Option.ne_none_iff_exists'.mp answered
    rw [show compCmd object.kind object.elements.length query = _ from some]
    simp only [Option.map_some, wrong, Bool.true_eq_false, false_and, iff_false]
    intro claimed
    exact absent (claimed _ rfl).1
  · rw [show compCmd object.kind object.elements.length query = some none from empty]
    constructor
    · intro claimed
      exact ⟨by simpa using right, fun _ => (claimed _ rfl).2.symm⟩
    · rintro ⟨_, value⟩ answer same
      cases same
      exact ⟨present, (value blank).symm⟩
  · rw [show compCmd object.kind object.elements.length query = some (some index) from found]
    have value : (mRetrieve merge object)[index]? = some (object.value merge query) := by
      simp [mRetrieve, show object.elements[index]? = some query from element]
    have member : query ∈ object.elements := List.mem_of_getElem? element
    simp [right, shown, value, member]

-- The text of a link is answered with its source, the text of a text object with nothing.
theorem inedCompCmd_misread :
    inedCompCmd .text (mRetrieve (fun _ => "") ⟨.link, "link0", "", "", 0, "", none, "node0", "node1", "", ""⟩) =
        some "node0" ∧
      inedCompCmd .text (mRetrieve (fun _ => "") ⟨.text, "text0", "", "", 0, "", none, none, none, "note", ""⟩) =
        some "" := by
  decide +kernel

end Tnm.Ined
