import OpsCli.CLib.Polling
import OpsCli.Command.Passkey

/-!
# The authorization decision

The decision is meant to be that of the first server which answers, in the
order of the groups and of the priorities inside each group, every server being
asked with its own passkey.  The code decides so only if it gets its decision
from the first group, and only if the passkeys it uses do not get shorter.
-/

namespace OpsCli.Command.Decision

open CLib CString Qsort Polling Authorization Passkey List

/-! ## What is meant -/

/-- The priority that applies to a server in a group. -/
def priority (group : AaaServerGroup) (server : TacacsServer) : Option Int :=
  if group.groupName = tacDefaultGroup then some server.defaultGroupPriority
  else server.userGroupPriority

structure Ascending (tables : AaaTables) (group : AaaServerGroup)
    (order : List TacacsServer) : Prop where
  perm : order.Perm (tables.servers.filter (belongs group))
  sorted : order.Pairwise fun a b => ∃ p ∈ priority group a, ∃ q ∈ priority group b, p ≤ q

def valid (status : Int) : Bool :=
  status = exitOk || status = exitFail

section

variable (tables : AaaTables) (author : Author) (command : CStr)

/-- The valid answer of a server that is asked with its own passkey. -/
def ownAnswer (server : TacacsServer) : Option Int :=
  match serverPasskey tables server with
  | none => none
  | some passkey =>
    let status := author server.address passkey.text command
    if valid status then some status else none

def ownContact (server : TacacsServer) : TacacsServer × Option CStr :=
  (server, (serverPasskey tables server).map (·.text))

def ownContacts (order : List TacacsServer) : List (TacacsServer × Option CStr) :=
  (asked (ownAnswer tables author command) order).map (ownContact tables)

/-- The decision for a list of groups and the servers asked on the way. -/
inductive Decides : List AaaServerGroup → Int → List (TacacsServer × Option CStr) → Prop where
  | exhausted : Decides [] exitConnErr []
  | allowed {group : AaaServerGroup} {rest : List AaaServerGroup}
      (isNone : group.groupName = tacNoneGroup) :
      Decides (group :: rest) exitOk []
  | answered {group : AaaServerGroup} {rest : List AaaServerGroup}
      {order : List TacacsServer} {status : Int}
      (notNone : group.groupName ≠ tacNoneGroup)
      (ascending : Ascending tables group order)
      (answers : order.findSome? (ownAnswer tables author command) = some status) :
      Decides (group :: rest) status (ownContacts tables author command order)
  | silent {group : AaaServerGroup} {rest : List AaaServerGroup}
      {order : List TacacsServer} {status : Int}
      {later : List (TacacsServer × Option CStr)}
      (notNone : group.groupName ≠ tacNoneGroup)
      (ascending : Ascending tables group order)
      (silence : order.findSome? (ownAnswer tables author command) = none)
      (decides : Decides rest status later) :
      Decides (group :: rest) status (ownContacts tables author command order ++ later)

/-- A request as it was made. -/
def madeContact (contact : Contact) : TacacsServer × Option CStr :=
  (contact.server, some contact.passkey)

/-- `check_cmd_authorization` returns, and its decision and its requests are
those that are meant. -/
def DecidesAsMeant (qsort : Sorter TacacsServer) (groups : List AaaServerGroup) : Prop :=
  ∃ result, checkCmdAuthorization qsort tables author command = some result ∧
    Decides tables author command groups result.status (result.contacts.map madeContact)

/-- Every server has a timeout and a passkey that fits into the buffer and is
not shorter than the one before. -/
def KeysFit (length : Nat) : List TacacsServer → Prop
  | [] => True
  | server :: rest =>
    (serverTimeout tables server).isSome ∧
      ∃ passkey ∈ serverPasskey tables server, length ≤ passkey.text.length ∧
        passkey.text.length + 1 < maxLengthTacacsPasskey ∧
        KeysFit passkey.text.length rest

/-- The first group decides: it is `none`, or its servers can be sorted, those
asked come first in an ascending order and have passkeys that fit, and one of
them answers unless there is no other group. -/
def FirstGroupDecides (qsort : Sorter TacacsServer) : List AaaServerGroup → Prop
  | [] => False
  | group :: rest =>
    group.groupName = tacNoneGroup ∨
      ∃ order, sortServers qsort (tables.servers.filter (belongs group))
          (group.groupName = tacDefaultGroup) = some (some order) ∧
        KeysFit tables 0 (asked (ownAnswer tables author command) order) ∧
        (∃ ascending, Ascending tables group ascending ∧
          asked (ownAnswer tables author command) order <+: ascending) ∧
        (order.findSome? (ownAnswer tables author command) ≠ none ∨ rest = [])

end

/-! ## Requests -/

section

variable {tables : AaaTables} {author : Author} {command : CStr}

def Asked (tables : AaaTables) (author : Author) (command : CStr) (order : List TacacsServer)
    (contacts : List Contact) :
    Option Answer → Prop
  | none => False
  | some (.answered status made) =>
    order.findSome? (ownAnswer tables author command) = some status ∧
      made.map madeContact = contacts.map madeContact ++ ownContacts tables author command order
  | some (.silent _ _ made) =>
    order.findSome? (ownAnswer tables author command) = none ∧
      made.map madeContact = contacts.map madeContact ++ ownContacts tables author command order

variable {server : TacacsServer} {passkey : Passkey} {rest order : List TacacsServer}
  {contacts : List Contact} {status : Int}
  {buffer : List Char} {answer : Answer}

theorem ownAnswer_of_valid (hasPasskey : serverPasskey tables server = some passkey)
    (answers : valid (author server.address passkey.text command)) :
    ownAnswer tables author command server = some (author server.address passkey.text command) := by
  rw [ownAnswer, hasPasskey]
  exact if_pos answers

theorem ownAnswer_of_not_valid (hasPasskey : serverPasskey tables server = some passkey)
    (silent : valid (author server.address passkey.text command) = false) :
    ownAnswer tables author command server = none := by
  rw [ownAnswer, hasPasskey]
  exact if_neg (by rw [silent]; exact Bool.false_ne_true)

variable {list : List TacacsServer} {result : AuthorizationResult} {value : Int}

theorem asked_cons_of_answer (answers : ownAnswer tables author command server = some value)
    (rest : List TacacsServer) :
    (server :: rest).findSome? (ownAnswer tables author command) = some value ∧
      ownContacts tables author command (server :: rest) = [ownContact tables server] := by
  constructor
  · rw [findSome?_cons, answers]
  · rw [ownContacts, asked_cons_of_some answers]
    rfl

theorem asked_cons_of_silence (silence : ownAnswer tables author command server = none)
    (rest : List TacacsServer) :
    (server :: rest).findSome? (ownAnswer tables author command) =
        rest.findSome? (ownAnswer tables author command) ∧
      ownContacts tables author command (server :: rest) =
        ownContact tables server :: ownContacts tables author command rest := by
  constructor
  · rw [findSome?_cons, silence]
  · rw [ownContacts, asked_cons_of_none silence]
    rfl

theorem Asked.step {contact : Contact} {result : Option Answer}
    (later : Asked tables author command rest (contacts ++ [contact]) result)
    (own : madeContact contact = ownContact tables server)
    (silence : ownAnswer tables author command server = none) :
    Asked tables author command (server :: rest) contacts result := by
  obtain ⟨found, made⟩ := asked_cons_of_silence silence rest
  have moved : (contacts ++ [contact]).map madeContact ++ ownContacts tables author command rest =
      contacts.map madeContact ++ ownContacts tables author command (server :: rest) := by
    rw [made, map_append, map_singleton, own, append_assoc, singleton_append]
  match result, later with
  | some (.answered status _), ⟨answers, equal⟩ =>
    exact ⟨found.trans answers, equal.trans moved⟩
  | some (.silent ..), ⟨silent, equal⟩ =>
    exact ⟨found.trans silent, equal.trans moved⟩

theorem keysFit_cons_iff {length : Nat} : KeysFit tables length
        (asked (ownAnswer tables author command) (server :: rest)) ↔
      (serverTimeout tables server).isSome ∧
        ∃ passkey ∈ serverPasskey tables server, length ≤ passkey.text.length ∧
          passkey.text.length + 1 < maxLengthTacacsPasskey ∧
          (ownAnswer tables author command server = none → KeysFit tables passkey.text.length
              (asked (ownAnswer tables author command) rest)) := by
  cases answers : ownAnswer tables author command server with
  | some value =>
    rw [asked_cons_of_some answers, KeysFit]
    simp [KeysFit]
  | none =>
    rw [asked_cons_of_none answers, KeysFit]
    simp

theorem askServers_cons {timeout : Int} {next : List Char}
    (hasTimeout : serverTimeout tables server = some timeout)
    (hasPasskey : serverPasskey tables server = some passkey)
    (copied : copyPasskey buffer passkey.text = some next) :
    askServers tables author command (server :: rest) status buffer contacts =
      let reply := author server.address (bufferText next) command
      let made := contacts ++ [⟨server, bufferText next, timeout⟩]
      if valid reply then some (.answered reply made)
      else askServers tables author command rest reply next made := by
  rw [askServers, hasTimeout, hasPasskey]
  dsimp only
  rw [copied]
  rfl

variable {old : CStr}

theorem askServers_of_keysFit (fit : KeysFit tables old.length
      (asked (ownAnswer tables author command) order)) :
    Asked tables author command order contacts
      (askServers tables author command order status (pad old) contacts) := by
  induction order generalizing old status contacts with
  | nil => exact ⟨rfl, (append_nil _).symm⟩
  | cons server rest ih =>
    obtain ⟨hasTimeout, passkey, hasPasskey, longer, fits, later⟩ := keysFit_cons_iff.mp fit
    obtain ⟨timeout, hasTimeout⟩ := Option.isSome_iff_exists.mp hasTimeout
    have own : madeContact ⟨server, passkey.text, timeout⟩ = ownContact tables server := by
      rw [ownContact, hasPasskey]
      rfl
    rw [askServers_cons hasTimeout hasPasskey (copyPasskey_pad longer fits),
      bufferText_pad passkey.noTerminator fits]
    dsimp only
    cases answers : valid (author server.address passkey.text command) with
    | true =>
      obtain ⟨found, made⟩ := asked_cons_of_answer (ownAnswer_of_valid hasPasskey answers) rest
      refine ⟨found, ?_⟩
      rw [made, map_append, map_singleton, own]
    | false =>
      have silence := ownAnswer_of_not_valid hasPasskey answers
      exact (ih (later silence)).step own silence

/-- A request that is not made with the passkey of its server. -/
def Strange (tables : AaaTables) (contact : Contact) : Prop :=
  madeContact contact ≠ ownContact tables contact.server

/-- The requests that an answer comes with. -/
def answerContacts : Answer → List Contact
  | .answered _ contacts => contacts
  | .silent _ _ contacts => contacts

theorem askServers_cons_cases (run : askServers tables author command (server :: rest) status buffer
      contacts = some answer) :
    ∃ timeout passkey next, serverTimeout tables server = some timeout ∧
      serverPasskey tables server = some passkey ∧
      copyPasskey buffer passkey.text = some next ∧
      let reply := author server.address (bufferText next) command
      let made := contacts ++ [⟨server, bufferText next, timeout⟩]
      (valid reply ∧ answer = .answered reply made) ∨ (valid reply = false ∧
          askServers tables author command rest reply next made = some answer) := by
  cases hasTimeout : serverTimeout tables server with
  | none =>
    rw [askServers, hasTimeout] at run
    cases run
  | some timeout =>
    cases hasPasskey : serverPasskey tables server with
    | none =>
      rw [askServers, hasTimeout, hasPasskey] at run
      cases run
    | some passkey =>
      cases copied : copyPasskey buffer passkey.text with
      | none =>
        rw [askServers, hasTimeout, hasPasskey] at run
        dsimp only at run
        rw [copied] at run
        cases run
      | some next =>
        refine ⟨timeout, passkey, next, rfl, rfl, copied, ?_⟩
        rw [askServers_cons hasTimeout hasPasskey copied] at run
        dsimp only at run ⊢
        split at run
        · rename_i answers
          exact .inl ⟨answers, (Option.some.inj run).symm⟩
        · rename_i silent
          exact .inr ⟨Bool.eq_false_iff.mpr silent, run⟩

theorem askServers_isPrefix (run : askServers tables author command order status buffer contacts =
      some answer) : contacts <+: answerContacts answer := by
  induction order generalizing status buffer contacts with
  | nil =>
    cases run
    exact prefix_rfl
  | cons server rest ih =>
    obtain ⟨timeout, passkey, next, _, _, _, outcome⟩ := askServers_cons_cases run
    rcases outcome with ⟨_, rfl⟩ | ⟨_, later⟩
    · exact prefix_append _ _
    · exact (prefix_append _ _).trans (ih later)

/-- If the passkeys do not fit, some server is asked with a passkey that is
not its own, unless the behaviour is undefined. -/
theorem askServers_of_not_keysFit (noTerminator : '\x00' ∉ old)
    (misfit : ¬ KeysFit tables old.length (asked (ownAnswer tables author command) order))
    (run : askServers tables author command order status (pad old) contacts = some answer) :
    ∃ contact ∈ answerContacts answer, Strange tables contact := by
  induction order generalizing old status contacts with
  | nil => exact absurd trivial misfit
  | cons server rest ih =>
    rw [keysFit_cons_iff] at misfit
    obtain ⟨timeout, passkey, next, hasTimeout, hasPasskey, copied,
      outcome⟩ := askServers_cons_cases run
    by_cases longer : old.length ≤ passkey.text.length
    · have fits := fits_of_copyPasskey copied
      rw [copyPasskey_pad longer fits] at copied
      cases copied
      rw [bufferText_pad passkey.noTerminator fits] at outcome
      have misfit : ¬ (ownAnswer tables author command server = none →
          KeysFit tables passkey.text.length (asked (ownAnswer tables author command) rest)) :=
        fun later => misfit ⟨congrArg Option.isSome hasTimeout, passkey,
          hasPasskey, longer, fits, later⟩
      rcases outcome with ⟨answers, _⟩ | ⟨_, later⟩
      · refine absurd (fun silence => ?_) misfit
        rw [ownAnswer_of_valid hasPasskey answers] at silence
        cases silence
      · exact ih passkey.noTerminator (fun fit => misfit fun _ => fit) later
    · have strange : Strange tables ⟨server, bufferText next, timeout⟩ := by
        rw [Strange, ownContact, hasPasskey]
        intro same
        exact bufferText_ne_of_shorter noTerminator (not_le.mp longer) copied
          (Option.some.inj (congrArg Prod.snd same))
      refine ⟨_, ?_, strange⟩
      have last : (⟨server, bufferText next, timeout⟩ : Contact) ∈
          contacts ++ [⟨server, bufferText next, timeout⟩] :=
        mem_append_right _ (mem_singleton_self _)
      rcases outcome with ⟨_, rfl⟩ | ⟨_, later⟩
      · exact last
      · exact (askServers_isPrefix later).subset last

end

/-! ## Groups -/

section

variable {qsort : Sorter TacacsServer} {tables : AaaTables} {author : Author} {command : CStr}
  {byDefault : Bool} {rest : List AaaServerGroup} {group : AaaServerGroup}
  {result : AuthorizationResult}

theorem groupLoop_of_freed {last : AaaServerGroup} {status : Int} {contacts : List Contact}
    (run : groupLoop qsort tables author command (group :: rest) last
      ⟨none, byDefault, status, contacts⟩ = some result) : result = ⟨exitFail, contacts⟩ := by
  unfold groupLoop at run
  split at run
  · dsimp only at run
    split at run
    · cases run
    · cases run
      rfl
    · cases run
  · cases run

theorem checkCmdAuthorization_cons
    (configured : tables.authorizationGroupPrios = some (group :: rest))
    (notNone : group.groupName ≠ tacNoneGroup) :
    checkCmdAuthorization qsort tables author command =
      match sortServers qsort (tables.servers.filter (belongs group))
          (group.groupName = tacDefaultGroup) with
      | none => none
      | some none => some ⟨exitFail, []⟩
      | some (some order) =>
        match askServers tables author command order exitOk (pad []) [] with
        | none => none
        | some (.answered status contacts) => some ⟨status, contacts⟩
        | some (.silent status _ contacts) =>
          groupLoop qsort tables author command rest group
            ⟨none, group.groupName = tacDefaultGroup, status, contacts⟩ := by
  unfold checkCmdAuthorization
  rw [configured]
  dsimp only
  rw [if_pos notNone, groupLoop, if_pos notNone, Bool.false_or]
  rfl

theorem perm_of_sortServers (sorted : sortServers qsort list byDefault = some (some order)) :
    order.Perm list := by
  unfold sortServers at sorted
  split at sorted
  · cases sorted
  · split at sorted
    · cases sorted
      exact qsort.perm _ _
    · split at sorted
      · cases sorted
      · cases sorted
        exact qsort.perm _ _

end

/-! ## Decisions -/

section

variable {tables : AaaTables} {author : Author} {command : CStr}

theorem map_fst_ownContacts (order : List TacacsServer) :
    (ownContacts tables author command order).map Prod.fst =
      asked (ownAnswer tables author command) order := by
  rw [ownContacts, map_map]
  exact map_id _

variable {order : List TacacsServer} {pair : TacacsServer × Option CStr}
  {groups rest : List AaaServerGroup} {status decision : Int}
  {contacts : List (TacacsServer × Option CStr)} {group : AaaServerGroup}

theorem ownContact_of_mem_ownContacts (member : pair ∈ ownContacts tables author command order) :
    pair = ownContact tables pair.1 := by
  obtain ⟨server, _, rfl⟩ := mem_map.mp member
  rfl

theorem Decides.own (decides : Decides tables author command groups status contacts)
    (member : pair ∈ contacts) : pair = ownContact tables pair.1 := by
  induction decides with
  | exhausted => cases member
  | allowed => cases member
  | answered => exact ownContact_of_mem_ownContacts member
  | silent _ _ _ _ ih =>
    rcases mem_append.mp member with here | later
    · exact ownContact_of_mem_ownContacts here
    · exact ih later

theorem Decides.contacts_ne_nil (decides : Decides tables author command groups exitFail contacts) :
    contacts ≠ [] := by
  generalize refusal : exitFail = status at decides
  induction decides with
  | exhausted => cases refusal
  | allowed => cases refusal
  | answered _ _ answers =>
    intro empty
    exact asked_ne_nil answers (map_eq_nil_iff.mp empty)
  | silent _ _ _ _ ih =>
    intro empty
    exact ih refusal (append_eq_nil_iff.mp empty).2

theorem findSome?_eq_none_of_perm {other : List TacacsServer} (perm : order.Perm other)
    (silence : order.findSome? (ownAnswer tables author command) = none) :
    other.findSome? (ownAnswer tables author command) = none := by
  rw [findSome?_eq_none_iff] at silence ⊢
  intro server member
  exact silence server (perm.mem_iff.mpr member)

section

variable (notNone : group.groupName ≠ tacNoneGroup)
  (perm : order.Perm (tables.servers.filter (belongs group)))
  (decides : Decides tables author command (group :: rest) decision
    (ownContacts tables author command order))
include notNone perm decides

theorem Decides.ascending_of_answer
    (answers : order.findSome? (ownAnswer tables author command) = some status) :
    ∃ ascending, Ascending tables group ascending ∧
      asked (ownAnswer tables author command) order <+: ascending := by
  generalize made : ownContacts tables author command order = contacts at decides
  cases decides with
  | allowed isNone => exact absurd isNone notNone
  | answered _ ascending _ =>
    refine ⟨_, ascending, ?_⟩
    have same := congrArg (List.map Prod.fst) made
    rw [map_fst_ownContacts, map_fst_ownContacts] at same
    rw [same]
    exact asked_isPrefix _
  | silent _ ascending silence _ =>
    have silent := findSome?_eq_none_of_perm (ascending.perm.trans perm.symm) silence
    rw [answers] at silent
    cases silent

theorem Decides.ascending_of_silence
    (silence : order.findSome? (ownAnswer tables author command) = none) :
    Ascending tables group order ∧ Decides tables author command rest decision [] := by
  generalize made : ownContacts tables author command order = contacts at decides
  cases decides with
  | allowed isNone => exact absurd isNone notNone
  | answered _ ascending answers =>
    have silent := findSome?_eq_none_of_perm (perm.trans ascending.perm.symm) silence
    rw [answers] at silent
    cases silent
  | @silent _ _ other _ later _ ascending quiet decides =>
    have servers := congrArg (List.map Prod.fst) made
    rw [map_append, map_fst_ownContacts, map_fst_ownContacts, asked_of_silent silence,
      asked_of_silent quiet] at servers
    have none : later.map Prod.fst = [] := by
      have lengths := congrArg List.length servers
      rw [length_append, perm.length_eq, ascending.perm.length_eq] at lengths
      exact eq_nil_of_length_eq_zero (by omega)
    rw [none, append_nil] at servers
    rw [map_eq_nil_iff.mp none] at decides
    rw [servers]
    exact ⟨ascending, decides⟩

end

end

/-! ## The result -/

section

variable {qsort : Sorter TacacsServer} {tables : AaaTables} {author : Author} {command : CStr}
  {group : AaaServerGroup} {rest : List AaaServerGroup}

/-- The decision that the code takes after the first group. -/
def groupDecision : Answer → List AaaServerGroup → Int
  | .answered status _, _ => status
  | .silent .., [] => exitConnErr
  | .silent .., _ :: _ => exitFail

section

variable (notNone : group.groupName ≠ tacNoneGroup)
include notNone

/-- Everything that `check_cmd_authorization` can do with a first group that is
asked. -/
theorem checkCmdAuthorization_cases
    (configured : tables.authorizationGroupPrios = some (group :: rest))
    (run : checkCmdAuthorization qsort tables author command = some result) :
    result = ⟨exitFail, []⟩ ∨ ∃ order answer,
        sortServers qsort (tables.servers.filter (belongs group))
          (group.groupName = tacDefaultGroup) = some (some order) ∧
        askServers tables author command order exitOk (pad []) [] = some answer ∧
        result = ⟨groupDecision answer rest, answerContacts answer⟩ := by
  rw [checkCmdAuthorization_cons configured notNone] at run
  split at run
  · cases run
  · cases run
    exact .inl rfl
  · rename_i order sorted
    split at run
    · cases run
    · rename_i status contacts asks
      cases run
      exact .inr ⟨order, _, sorted, asks, rfl⟩
    · rename_i status buffer contacts asks
      refine .inr ⟨order, _, sorted, asks, ?_⟩
      cases rest with
      | nil =>
        rw [groupLoop, if_pos notNone] at run
        exact (Option.some.inj run).symm
      | cons next more => exact groupLoop_of_freed run

theorem ascending_of_decides {answer : Answer}
    (perm : order.Perm (tables.servers.filter (belongs group)))
    (requests : Asked tables author command order [] (some answer))
    (decides : Decides tables author command (group :: rest) (groupDecision answer rest)
      ((answerContacts answer).map madeContact)) :
    (∃ ascending, Ascending tables group ascending ∧
        asked (ownAnswer tables author command) order <+: ascending) ∧
      (order.findSome? (ownAnswer tables author command) ≠ none ∨ rest = []) := by
  cases answer with
  | answered status contacts =>
    obtain ⟨answers, made⟩ := requests
    rw [answerContacts, made, map_nil, nil_append] at decides
    exact ⟨decides.ascending_of_answer notNone perm answers, .inl (by rw [answers]; nofun)⟩
  | silent status buffer contacts =>
    obtain ⟨silence, made⟩ := requests
    rw [answerContacts, made, map_nil, nil_append] at decides
    obtain ⟨ascending, later⟩ := decides.ascending_of_silence notNone perm silence
    refine ⟨⟨order, ascending, asked_isPrefix order⟩, .inr ?_⟩
    cases rest with
    | nil => rfl
    | cons next more => exact absurd rfl later.contacts_ne_nil

/-- A decision as it is meant, for a first group that is asked, is that of the
first group. -/
theorem firstGroupDecides_of_decidesAsMeant
    (configured : tables.authorizationGroupPrios = some (group :: rest))
    (meant : DecidesAsMeant tables author command qsort (group :: rest)) :
    FirstGroupDecides tables author command qsort (group :: rest) := by
  obtain ⟨result, run, decides⟩ := meant
  rcases checkCmdAuthorization_cases notNone configured run with rfl |
    ⟨order, answer, sorted, asks, rfl⟩
  · exact absurd rfl decides.contacts_ne_nil
  · have fit : KeysFit tables 0 (asked (ownAnswer tables author command) order) := by
      by_contra misfit
      obtain ⟨contact, member, strange⟩ := askServers_of_not_keysFit not_mem_nil misfit asks
      exact strange (decides.own (mem_map_of_mem member))
    have requests : Asked tables author command order []
        (askServers tables author command order exitOk (pad []) []) :=
      askServers_of_keysFit fit
    rw [asks] at requests
    exact .inr ⟨order, sorted, fit, ascending_of_decides notNone
      (perm_of_sortServers sorted) requests decides⟩

end

theorem decidesAsMeant_of_firstGroupDecides
    (configured : tables.authorizationGroupPrios = some (group :: rest))
    (first : FirstGroupDecides tables author command qsort (group :: rest)) :
    DecidesAsMeant tables author command qsort (group :: rest) := by
  by_cases isNone : group.groupName = tacNoneGroup
  · refine ⟨⟨exitOk, []⟩, ?_, .allowed isNone⟩
    rw [checkCmdAuthorization, configured]
    exact if_neg (not_not.mpr isNone)
  · obtain contra | ⟨order, sorted, fit, ⟨ascending, isAscending, starts⟩, decided⟩ := first
    · exact absurd contra isNone
    · have requests : Asked tables author command order []
          (askServers tables author command order exitOk (pad []) []) :=
        askServers_of_keysFit fit
      unfold DecidesAsMeant
      rw [checkCmdAuthorization_cons configured isNone, sorted]
      dsimp only
      match asks : askServers tables author command order exitOk (pad []) [], requests with
      | some (.answered status contacts), ⟨answers, made⟩ =>
        obtain ⟨same, asks⟩ := findSome?_of_asked_isPrefix answers starts
        refine ⟨_, rfl, ?_⟩
        rw [made, map_nil, nil_append, ownContacts, ← asks]
        exact .answered isNone isAscending same
      | some (.silent status buffer contacts), ⟨silence, made⟩ =>
        obtain rfl : rest = [] := decided.resolve_left (not_not.mpr silence)
        rw [asked_of_silent silence] at starts
        have equal : order = ascending :=
          starts.eq_of_length ((perm_of_sortServers sorted).length_eq.trans
            isAscending.perm.length_eq.symm)
        refine ⟨⟨exitConnErr, contacts⟩, ?_, ?_⟩
        · dsimp only
          rw [groupLoop, if_pos isNone]
        · rw [made, map_nil, nil_append, ← append_nil (ownContacts tables author command order)]
          exact .silent isNone (equal ▸ isAscending) silence .exhausted

/-- For every list of groups, every table of servers and all replies,
`check_cmd_authorization` decides as it is meant to exactly if the first group
decides. -/
theorem authorization_decides_iff (qsort : Sorter TacacsServer) {tables : AaaTables}
    {groups : List AaaServerGroup} (configured : tables.authorizationGroupPrios = some groups)
    (author : Author) (command : CStr) :
    DecidesAsMeant tables author command qsort groups ↔
      FirstGroupDecides tables author command qsort groups := by
  cases groups with
  | nil =>
    refine iff_of_false ?_ id
    rintro ⟨result, run, decides⟩
    rw [checkCmdAuthorization, configured] at run
    cases run
    cases decides
  | cons group rest =>
    refine ⟨fun meant => ?_, decidesAsMeant_of_firstGroupDecides configured⟩
    by_cases isNone : group.groupName = tacNoneGroup
    · exact .inl isNone
    · exact firstGroupDecides_of_decidesAsMeant isNone configured meant

end

/-! ## Two servers -/

def defaultServer (address : CStr) (rank : Int) (passkey : Passkey) : TacacsServer :=
  ⟨address, [1], rank, none, some passkey, some 5⟩

def alphaServer : TacacsServer :=
  defaultServer "10.0.0.1" 1 ⟨"alpha", by decide⟩

def keyServer : TacacsServer :=
  defaultServer "10.0.0.2" 2 ⟨"key", by decide⟩

def secretServer : TacacsServer :=
  defaultServer "10.0.0.3" 2 ⟨"secret", by decide⟩

def defaultTables (servers : List TacacsServer) : AaaTables :=
  ⟨some [⟨1, tacDefaultGroup⟩], servers, none, none⟩

/-- The first server is silent; the others allow a command if the passkey is
right. -/
def helpfulAuthor : Author := fun address passkey _ =>
  if address = keyServer.address && passkey = "key" then exitOk
  else if address = secretServer.address && passkey = "secret" then
    exitOk
  else exitConnErr

theorem growing_passkeys_decide_as_meant :
    DecidesAsMeant (defaultTables [alphaServer, secretServer]) helpfulAuthor
      "reload" Sorter.insertion [⟨1, tacDefaultGroup⟩] := by
  have sorted : sortServers Sorter.insertion
      ((defaultTables [alphaServer, secretServer]).servers.filter (belongs ⟨1, tacDefaultGroup⟩))
      (tacDefaultGroup = tacDefaultGroup) = some (some [alphaServer, secretServer]) := by
    decide
  have ascending : Ascending (defaultTables [alphaServer, secretServer])
      ⟨1, tacDefaultGroup⟩ [alphaServer, secretServer] :=
    ⟨.refl _, pairwise_pair.mpr ⟨1, rfl, 2, rfl, by decide⟩⟩
  refine (authorization_decides_iff Sorter.insertion rfl helpfulAuthor
    "reload").mpr (.inr ⟨[alphaServer, secretServer], sorted, ?_,
      ⟨_, ascending, prefix_rfl⟩, .inr rfl⟩)
  exact ⟨rfl, _, rfl, by decide, by decide, rfl, _, rfl, by decide, by decide, trivial⟩

/-- The second passkey is shorter than the first: its server is asked with
`keyh`, so that the command is not allowed. -/
theorem shorter_passkey_denied : checkCmdAuthorization Sorter.insertion
        (defaultTables [alphaServer, keyServer]) helpfulAuthor "reload" =
      some ⟨exitConnErr, [⟨alphaServer, "alpha", 5⟩, ⟨keyServer, "keyh", 5⟩]⟩ ∧
    Decides (defaultTables [alphaServer, keyServer]) helpfulAuthor "reload"
      [⟨1, tacDefaultGroup⟩] exitOk
      [(alphaServer, some "alpha"), (keyServer, some "key")] ∧
    ¬ DecidesAsMeant (defaultTables [alphaServer, keyServer]) helpfulAuthor "reload"
      Sorter.insertion [⟨1, tacDefaultGroup⟩] := by
  have run : checkCmdAuthorization Sorter.insertion
      (defaultTables [alphaServer, keyServer]) helpfulAuthor "reload" =
    some ⟨exitConnErr, [⟨alphaServer, "alpha", 5⟩, ⟨keyServer, "keyh", 5⟩]⟩ := by
    decide
  have ascending : Ascending (defaultTables [alphaServer, keyServer])
      ⟨1, tacDefaultGroup⟩ [alphaServer, keyServer] :=
    ⟨.refl _, pairwise_pair.mpr ⟨1, rfl, 2, rfl, by decide⟩⟩
  refine ⟨run, ?_, ?_⟩
  · exact .answered (by decide) ascending rfl
  · rintro ⟨result, same, decides⟩
    rw [run] at same
    cases same
    have member : (keyServer, some "keyh".toList) ∈
        [(alphaServer, some "alpha".toList), (keyServer, some "keyh".toList)] :=
      .tail _ (.head _)
    exact absurd (decides.own member) (by decide)

end OpsCli.Command.Decision
