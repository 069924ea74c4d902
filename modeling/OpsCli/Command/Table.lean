import Mathlib.Data.List.Count
import Mathlib.Logic.Function.Basic
import OpsCli.Command.Format.Parser
import OpsCli.Command.Execute

/-!
# Removing commands from the command table

The vector `cmdvec` has one command vector for each node, and the command
vectors hold pointers to elements.  The tokens belong to the element, so
nodes that hold the same element share them.  `cmd_terminate_element` frees
them and clears the slot only when it has freed something: the second time it
hands the element back.
-/

namespace OpsCli.Command.Table

open CLib.CString Token Matcher Execute Format.Parser List

/-! ## The table -/

/-- The fields of `struct cmd_element` that the table uses. -/
structure Element where
  string : CStr
  doc : Option CStr := none
  dynCbStr : Option CStr := none
  tokens : Option (List CmdToken) := none

abbrev Elements := Nat → Element

/-- A `cmd_vector`: the addresses of elements, or null. -/
abbrev CmdVector := List (Option Nat)

/-- `cmdvec` and the elements.  A node is its position in `cmdvec`, where
`install_node` puts it. -/
structure CmdTable where
  nodes : List (Option CmdVector)
  elements : Elements

def CmdTable.vector (table : CmdTable) (node : Nat) : Option CmdVector :=
  (table.nodes[node]?).join

/-- `vector_set`: the smallest empty slot is used. -/
def vectorSet : CmdVector → Nat → CmdVector
  | [], value => [some value]
  | none :: rest, value => some value :: rest
  | some old :: rest, value => some old :: vectorSet rest value

/-- The tokens of an element in `install_element`: a format is parsed when
there are none.  `none` is the exit of the format parser. -/
def installedTokens (element : Element) : Option (List CmdToken) :=
  match element.tokens with
  | some tokens => some tokens
  | none =>
    match cmdParseFormat element.string element.doc element.dynCbStr with
    | .error _ => none
    | .ok vector => vector.tokens

variable (elements : Elements)

def setTokens (cmd : Nat) (tokens : Option (List CmdToken)) : Elements :=
  Function.update elements cmd { elements cmd with tokens := tokens }

theorem setTokens_self (cmd : Nat) (tokens : Option (List CmdToken)) :
    setTokens elements cmd tokens cmd = { elements cmd with tokens := tokens } :=
  Function.update_self cmd _ elements

variable {other cmd : Nat} {table : CmdTable}

theorem setTokens_of_ne (distinct : other ≠ cmd) (tokens : Option (List CmdToken)) :
    setTokens elements cmd tokens other = elements other :=
  Function.update_of_ne distinct _ elements

/-- `install_element`; `none` is an exit of the program. -/
def installElement (table : CmdTable) (ntype cmd : Nat) : Option CmdTable :=
  match table.vector ntype, installedTokens (table.elements cmd) with
  | some vector, some tokens =>
    some
      { nodes := table.nodes.set ntype (some (vectorSet vector cmd))
        elements := setTokens table.elements cmd (some tokens) }
  | _, _ => none

/-- Whether the node holds the element. -/
def CmdTable.Holds (table : CmdTable) (node cmd : Nat) : Prop :=
  ∃ vector, table.vector node = some vector ∧ some cmd ∈ vector

/-! ## Terminating elements -/

/-- `cmd_terminate_element`: the pointer it returns, and the elements. -/
def cmdTerminateElement (cmd : Nat) : Option Nat × Elements :=
  if (elements cmd).tokens = none then (some cmd, elements)
  else (none, setTokens elements cmd none)

def terminateSlots : CmdVector → Elements → CmdVector × Elements
  | [], elements => ([], elements)
  | none :: rest, elements =>
    (none :: (terminateSlots rest elements).1, (terminateSlots rest elements).2)
  | some cmd :: rest, elements =>
    let step := cmdTerminateElement elements cmd
    (step.1 :: (terminateSlots rest step.2).1, (terminateSlots rest step.2).2)

/-- The loop over a command vector for an element that is removed; it ends
at the first slot that holds the element. -/
def terminateFirst (del : Nat) : CmdVector → Elements → CmdVector × Elements
  | [], elements => ([], elements)
  | slot :: rest, elements =>
    if slot = some del then
      ((cmdTerminateElement elements del).1 :: rest, (cmdTerminateElement elements del).2)
    else
      (slot :: (terminateFirst del rest elements).1, (terminateFirst del rest elements).2)

def terminateNode : Nat → List (Option CmdVector) → Elements → List (Option CmdVector) × Elements
  | _, [], elements => ([], elements)
  | 0, none :: rest, elements => (none :: rest, elements)
  | 0, some vector :: rest, elements =>
    (none :: rest, (terminateSlots vector elements).2)
  | node + 1, other :: rest, elements =>
    (other :: (terminateNode node rest elements).1, (terminateNode node rest elements).2)

def terminateInNodes (del : Nat) : List (Option CmdVector) → Elements →
      List (Option CmdVector) × Elements
  | [], elements => ([], elements)
  | none :: rest, elements =>
    (none :: (terminateInNodes del rest elements).1, (terminateInNodes del rest elements).2)
  | some vector :: rest, elements =>
    let step := terminateFirst del vector elements
    (some step.1 :: (terminateInNodes del rest step.2).1, (terminateInNodes del rest step.2).2)

/-- The pointer and the `enum data_type` that says what it points to. -/
inductive DelPtr where
  | node (node : Nat)
  | element (cmd : Nat)

/-- `cmd_terminate_node_element`. -/
def cmdTerminateNodeElement (table : CmdTable) : DelPtr → CmdTable
  | .node node =>
    let last := terminateNode node table.nodes table.elements
    ⟨last.1, last.2⟩
  | .element cmd =>
    let last := terminateInNodes cmd table.nodes table.elements
    ⟨last.1, last.2⟩

/-! ## What the loops do -/

theorem cmdTerminateElement_elements (cmd : Nat) :
    (cmdTerminateElement elements cmd).2 = setTokens elements cmd none := by
  rw [cmdTerminateElement]
  split
  · rename_i nothing
    have same : { elements cmd with tokens := none } = elements cmd := by
      rw [← nothing]
    rw [setTokens, same, Function.update_eq_self]
  · rfl

theorem terminateSlots_elements (vector : CmdVector) (elements : Elements) (cmd : Nat) :
    (terminateSlots vector elements).2 cmd =
      if some cmd ∈ vector then { elements cmd with tokens := none }
      else elements cmd := by
  induction vector generalizing elements with
  | nil => rfl
  | cons slot rest ih =>
    cases slot with
    | none =>
      rw [terminateSlots, ih]
      simp
    | some head =>
      rw [terminateSlots]
      rw [cmdTerminateElement_elements, ih]
      by_cases same : cmd = head
      · subst same
        rw [setTokens_self, if_pos mem_cons_self, ite_self]
      · rw [setTokens_of_ne elements same]
        simp [same]

theorem terminateNode_vector (node other : Nat) (nodes : List (Option CmdVector))
    (elements : Elements) (distinct : other ≠ node) :
    (terminateNode node nodes elements).1[other]? = nodes[other]? := by
  induction nodes generalizing node other with
  | nil => cases node <;> rfl
  | cons head rest ih =>
    cases node with
    | zero =>
      obtain ⟨before, rfl⟩ := Nat.exists_eq_succ_of_ne_zero distinct
      cases head <;> rfl
    | succ node =>
      rw [terminateNode]
      cases other with
      | zero => rfl
      | succ other =>
        exact ih node other fun same => distinct (congrArg Nat.succ same)

theorem terminateNode_elements (node : Nat)
    (nodes : List (Option CmdVector)) (elements : Elements) :
    (terminateNode node nodes elements).2 = match (nodes[node]?).join with
      | none => elements
      | some vector => (terminateSlots vector elements).2 := by
  induction nodes generalizing node with
  | nil => cases node <;> rfl
  | cons head rest ih =>
    cases node with
    | zero => cases head <;> rfl
    | succ node =>
      rw [terminateNode]
      exact ih node

theorem elements_of_node (table : CmdTable) (node cmd : Nat) :
    (cmdTerminateNodeElement table (.node node)).elements cmd =
        { table.elements cmd with tokens := none } ∧
        table.Holds node cmd ∨
      (cmdTerminateNodeElement table (.node node)).elements cmd =
        table.elements cmd ∧ ¬ table.Holds node cmd := by
  change (terminateNode node table.nodes table.elements).2 cmd = _ ∧ _ ∨
    (terminateNode node table.nodes table.elements).2 cmd = _ ∧ _
  rw [terminateNode_elements]
  change (match table.vector node with
    | none => table.elements
    | some vector => (terminateSlots vector table.elements).2) cmd = _ ∧ _ ∨
      (match table.vector node with
    | none => table.elements
    | some vector => (terminateSlots vector table.elements).2) cmd = _ ∧ _
  cases found : table.vector node with
  | none =>
    refine .inr ⟨rfl, ?_⟩
    rintro ⟨vector, present, _⟩
    rw [found] at present
    cases present
  | some vector =>
    dsimp only
    rw [terminateSlots_elements]
    by_cases member : some cmd ∈ vector
    · rw [if_pos member]
      exact .inl ⟨rfl, vector, found, member⟩
    · rw [if_neg member]
      refine .inr ⟨rfl, ?_⟩
      rintro ⟨other, present, held⟩
      rw [found] at present
      cases present
      exact member held

/-! ## Matching in the other nodes -/

/-- `cmd_element_match` for an element of the table; without tokens nothing
is left to match. -/
def CmdTable.elementMatch (table : CmdTable) (m : CmdMatcher) (szToken : CStr) (wantArgs : Bool)
    (cmd : Nat) : Option Outcome :=
  cmdElementMatch m ((table.elements cmd).tokens.getD []) szToken wantArgs

/-- The result of matching a line in a node: the answer of every element of
its command vector. -/
def CmdTable.matchLine (table : CmdTable) (node : Nat) (m : CmdMatcher) (szToken : CStr)
    (wantArgs : Bool) : Option (List (Option (Option Outcome))) :=
  (table.vector node).map (·.map (·.map (table.elementMatch m szToken wantArgs)))

/-- Every line is matched in the other nodes as before. -/
def LocalRemoval (table : CmdTable) (node : Nat) : Prop :=
  ∀ other, other ≠ node → ∀ m szToken wantArgs,
    (cmdTerminateNodeElement table (.node node)).matchLine other m szToken wantArgs =
      table.matchLine other m szToken wantArgs

/-- Tokens that match every line as no tokens do. -/
def Inert (tokens : List CmdToken) : Prop :=
  ∀ m szToken wantArgs, cmdElementMatch m tokens szToken wantArgs =
      cmdElementMatch m [] szToken wantArgs

/-- No other node holds an element of the node with tokens that matter. -/
def Unshared (table : CmdTable) (node : Nat) : Prop :=
  ∀ other cmd, other ≠ node → table.Holds node cmd →
    table.Holds other cmd → Inert ((table.elements cmd).tokens.getD [])

theorem vector_of_node (table : CmdTable) {node : Nat} (distinct : other ≠ node) :
    (cmdTerminateNodeElement table (.node node)).vector other = table.vector other :=
  congrArg Option.join (terminateNode_vector node other table.nodes table.elements distinct)

/-- Removing a node is local exactly when its elements are not shared. -/
theorem localRemoval_iff (table : CmdTable) (node : Nat) :
    LocalRemoval table node ↔ Unshared table node := by
  constructor
  · intro alike other cmd distinct held otherHolds m szToken wantArgs
    obtain ⟨vector, found, member⟩ := otherHolds
    have same := alike other distinct m szToken wantArgs
    rw [CmdTable.matchLine, CmdTable.matchLine, vector_of_node table distinct, found] at same
    have answers := map_inj_left.mp (Option.some.inj same) _ member
    have answer := Option.some.inj answers
    rcases elements_of_node table node cmd with ⟨freed, _⟩ | ⟨_, absent⟩
    · rw [CmdTable.elementMatch, CmdTable.elementMatch, freed] at answer
      exact answer.symm
    · exact absurd held absent
  · intro unshared other distinct m szToken wantArgs
    rw [CmdTable.matchLine, CmdTable.matchLine, vector_of_node table distinct]
    cases found : table.vector other with
    | none => rfl
    | some vector =>
      refine congrArg some (map_inj_left.mpr fun slot member => ?_)
      cases slot with
      | none => rfl
      | some cmd =>
        refine congrArg some ?_
        rcases elements_of_node table node cmd with
          ⟨freed, held⟩ | ⟨kept, _⟩
        · rw [CmdTable.elementMatch, CmdTable.elementMatch, freed]
          exact (unshared other cmd distinct held ⟨vector, found, member⟩ m szToken wantArgs).symm
        · rw [CmdTable.elementMatch, CmdTable.elementMatch, kept]

/-! ## Removing an element -/

/-- How many slots of the table hold the element. -/
def occurrences (nodes : List (Option CmdVector)) (cmd : Nat) : Nat :=
  (nodes.flatMap (·.getD [])).count (some cmd)

def CmdTable.slot (table : CmdTable) (node position : Nat) : Option Nat :=
  (table.vector node).bind fun vector => (vector[position]?).join

/-- The element is in no command vector, and every other element stays where
and as it was. -/
structure Removed (before after : CmdTable) (cmd : Nat) : Prop where
  gone : ∀ node, ¬ after.Holds node cmd
  stays : ∀ node position other, other ≠ cmd → (after.slot node position = some other ↔
      before.slot node position = some other)
  kept : ∀ other, other ≠ cmd → after.elements other = before.elements other

theorem occurrences_cons (node : Option CmdVector) (rest : List (Option CmdVector)) (cmd : Nat) :
    occurrences (node :: rest) cmd = (node.getD []).count (some cmd) + occurrences rest cmd := by
  rw [occurrences, flatMap_cons, count_append]
  rfl

theorem occurrences_eq_zero (table : CmdTable) (cmd : Nat) :
    occurrences table.nodes cmd = 0 ↔ ∀ node, ¬ table.Holds node cmd := by
  rw [occurrences, count_eq_zero, mem_flatMap]
  constructor
  · rintro nowhere node ⟨vector, found, member⟩
    refine nowhere ⟨some vector, ?_, member⟩
    exact mem_of_getElem? (Option.join_eq_some_iff.mp found)
  · rintro nowhere ⟨entry, listed, member⟩
    cases entry with
    | none => cases member
    | some vector =>
      obtain ⟨node, found⟩ := getElem?_of_mem listed
      exact nowhere node ⟨vector, Option.join_eq_some_iff.mpr found, member⟩

section

variable (del : Nat)

theorem terminateFirst_elements (vector : CmdVector) (elements : Elements) :
    (terminateFirst del vector elements).2 =
      if some del ∈ vector then setTokens elements del none else elements := by
  induction vector with
  | nil => rfl
  | cons slot rest ih =>
    rw [terminateFirst]
    by_cases same : slot = some del
    · rw [if_pos same, cmdTerminateElement_elements, same, if_pos mem_cons_self]
    · rw [if_neg same, ih]
      simp [Ne.symm same]

theorem terminateFirst_count (vector : CmdVector) (elements : Elements) :
    (terminateFirst del vector elements).1.count (some del) = vector.count (some del) -
        if (elements del).tokens = none then 0 else 1 := by
  induction vector with
  | nil => exact (Nat.zero_sub _).symm
  | cons slot rest ih =>
    rw [terminateFirst]
    by_cases same : slot = some del
    · rw [if_pos same, same, count_cons_self, cmdTerminateElement]
      split
      · exact count_cons_self
      · have cleared : (none : Option Nat) ≠ some del := nofun
        exact count_cons_of_ne cleared
    · rw [if_neg same, count_cons_of_ne same, count_cons_of_ne same, ih]

theorem terminateFirst_slot (vector : CmdVector) (elements : Elements) (position : Nat)
    (distinct : other ≠ del) :
    ((terminateFirst del vector elements).1[position]?).join = some other ↔
      (vector[position]?).join = some other := by
  induction vector generalizing position with
  | nil => exact Iff.rfl
  | cons head rest ih =>
    rw [terminateFirst]
    by_cases same : head = some del
    · rw [if_pos same, same]
      cases position with
      | succ position => exact Iff.rfl
      | zero =>
        have before : some del ≠ some other := fun equal => distinct (Option.some.inj equal).symm
        change (cmdTerminateElement elements del).1 = some other ↔ some del = some other
        rw [cmdTerminateElement]
        split
        · exact Iff.rfl
        · exact ⟨nofun, fun found => absurd found before⟩
    · rw [if_neg same]
      cases position with
      | zero => exact Iff.rfl
      | succ position => exact ih position

/-- One node; what it does to the element decides about those that follow. -/
theorem terminateFirst_cases (vector : CmdVector) (elements : Elements) :
    (0 < vector.count (some del) ∧
      (terminateFirst del vector elements).2 = setTokens elements del none) ∨
    (vector.count (some del) = 0 ∧ (terminateFirst del vector elements).2 = elements) := by
  rw [terminateFirst_elements]
  by_cases member : some del ∈ vector
  · rw [if_pos member]
    exact .inl ⟨count_pos_iff.mpr member, rfl⟩
  · rw [if_neg member]
    exact .inr ⟨count_eq_zero.mpr member, rfl⟩

theorem terminateInNodes_occurrences (nodes : List (Option CmdVector)) (elements : Elements) :
    occurrences (terminateInNodes del nodes elements).1 del = occurrences nodes del -
        if (elements del).tokens = none then 0 else 1 := by
  induction nodes generalizing elements with
  | nil => exact (Nat.zero_sub _).symm
  | cons node rest ih =>
    cases node with
    | none =>
      rw [terminateInNodes, occurrences_cons, occurrences_cons, ih]
      simp
    | some vector =>
      rw [terminateInNodes, occurrences_cons, occurrences_cons, ih]
      change (terminateFirst del vector elements).1.count _ + _ = _
      rw [terminateFirst_count]
      change _ = vector.count (some del) + _ - _
      rcases terminateFirst_cases del vector elements with
        ⟨present, freed⟩ | ⟨absent, kept⟩
      · rw [freed, setTokens_self, if_pos rfl]
        split <;> omega
      · rw [kept, absent]
        split <;> omega

theorem terminateInNodes_slot (nodes : List (Option CmdVector)) (elements : Elements)
    (node position : Nat) (distinct : other ≠ del) :
    ((((terminateInNodes del nodes elements).1[node]?).join).bind
        fun vector => (vector[position]?).join) = some other ↔
      (((nodes[node]?).join).bind fun vector => (vector[position]?).join) = some other := by
  induction nodes generalizing node elements with
  | nil => exact Iff.rfl
  | cons head rest ih =>
    cases head with
    | none =>
      rw [terminateInNodes]
      cases node with
      | zero => exact Iff.rfl
      | succ node => exact ih elements node
    | some vector =>
      rw [terminateInNodes]
      cases node with
      | zero =>
        exact terminateFirst_slot del vector elements position distinct
      | succ node => exact ih _ node

theorem terminateInNodes_of_ne (nodes : List (Option CmdVector)) (elements : Elements)
    (distinct : other ≠ del) : (terminateInNodes del nodes elements).2 other = elements other := by
  induction nodes generalizing elements with
  | nil => rfl
  | cons head rest ih =>
    cases head with
    | none => exact ih elements
    | some vector =>
      rw [terminateInNodes]
      rw [ih]
      rcases terminateFirst_cases del vector elements with
        ⟨_, freed⟩ | ⟨_, kept⟩
      · rw [freed, setTokens_of_ne elements distinct]
      · rw [kept]

end

/-- An element is removed exactly when it was in no node, or in one slot and
with its tokens. -/
theorem removed_iff (table : CmdTable) (cmd : Nat) :
    Removed table (cmdTerminateNodeElement table (.element cmd)) cmd ↔
      occurrences table.nodes cmd = 0 ∨ (table.elements cmd).tokens ≠ none ∧
          occurrences table.nodes cmd = 1 := by
  have left : (∀ node, ¬ (cmdTerminateNodeElement table
      (.element cmd)).Holds node cmd) ↔ occurrences table.nodes cmd -
          (if (table.elements cmd).tokens = none then 0 else 1) = 0 := by
    rw [← occurrences_eq_zero, ← terminateInNodes_occurrences]
    rfl
  have count : occurrences table.nodes cmd -
      (if (table.elements cmd).tokens = none then 0 else 1) = 0 ↔
        occurrences table.nodes cmd = 0 ∨ (table.elements cmd).tokens ≠ none ∧
            occurrences table.nodes cmd = 1 := by
    by_cases lost : (table.elements cmd).tokens = none
    · simp [lost]
    · simp only [lost, if_false, not_false_eq_true, true_and, ne_eq]
      omega
  rw [← count, ← left]
  constructor
  · exact fun removed => removed.gone
  · intro gone
    exact
      { gone := gone
        stays := fun node position _ distinct =>
          terminateInNodes_slot cmd table.nodes table.elements node position
            distinct
        kept := fun _ distinct => terminateInNodes_of_ne cmd table.nodes table.elements distinct }

/-! ## Both removals -/

/-- Removing a node leaves the other nodes alone exactly when it shares no
element with them; removing an element removes it from all nodes, and only
it, exactly when it was in no slot, or in one slot with its tokens. -/
theorem termination_local_iff (table : CmdTable) (node cmd : Nat) :
    (LocalRemoval table node ↔ Unshared table node) ∧
      (Removed table (cmdTerminateNodeElement table (.element cmd)) cmd ↔
        occurrences table.nodes cmd = 0 ∨ (table.elements cmd).tokens ≠ none ∧
            occurrences table.nodes cmd = 1) :=
  ⟨localRemoval_iff table node, removed_iff table cmd⟩

def listElement : Element where
  string := "list"

def twoNodes : CmdTable where
  nodes := [some [], some []]
  elements := fun _ => listElement

def sharedTable : CmdTable :=
  (((installElement twoNodes 0 0).bind fun table => installElement table 1 0)).getD twoNodes

/-- The answers of a node to a line, without what the matcher leaves. -/
def answers (table : CmdTable) (node : Nat) (word : CStr) :
    Option (List (Option (Option MatcherRv))) :=
  (table.matchLine node ⟨plainEnv, .relaxed, [some word], none⟩ []
    false).map (·.map (·.map (·.map Outcome.rv)))

/-- Once the first node is removed, the second no longer knows `list`; once
the element is removed, it is still in the second node. -/
theorem shared_list_not_local : sharedTable.nodes = [some [some 0], some [some 0]] ∧
      answers sharedTable 1 "list" = some [some (some .complete)] ∧
      answers (cmdTerminateNodeElement sharedTable (.node 0)) 1 "list" =
        some [some (some .noMatch)] ∧
      (cmdTerminateNodeElement sharedTable (.element 0)).nodes = [some [none], some [some 0]] ∧
      ¬ LocalRemoval sharedTable 0 ∧
      ¬ Removed sharedTable (cmdTerminateNodeElement sharedTable (.element 0)) 0 := by
  have before : answers sharedTable 1 "list" = some [some (some .complete)] := by
    decide
  have after : answers (cmdTerminateNodeElement sharedTable (.node 0)) 1
      "list" = some [some (some .noMatch)] := by
    decide
  have left : (cmdTerminateNodeElement sharedTable (.element 0)).nodes =
      [some [none], some [some 0]] := by
    decide
  refine ⟨by decide, before, after, left, ?_, ?_⟩
  · intro alike
    have same := alike 1 Nat.one_ne_zero ⟨plainEnv, .relaxed, [some "list"], none⟩ [] false
    rw [answers, same] at after
    cases before.symm.trans after
  · intro removed
    refine removed.gone 1 ⟨[some 0], ?_, mem_singleton_self _⟩
    rw [CmdTable.vector, left]
    rfl

end OpsCli.Command.Table
