import Mathlib.Data.List.Basic

/-!
# Dialogues

A dialogue is a computation that asks questions.  A question is answered or
refused, and a refused question ends the computation.  Who answers may look at
a state that every question changes.  This module compares the run of a
dialogue whose answers depend on the state with a run whose answers do not.
-/

namespace OpsCli.CLib.Questions

/-- A computation that ends with a value or an error, that is undefined, or
that asks a question and goes on with the answer. -/
inductive Dialogue (Question Answer Error α : Type) where
  | done (value : α)
  | fail (error : Error)
  | crash
  | ask (question : Question) (next : Answer → Dialogue Question Answer Error α)

variable {Question Answer Error State α β : Type}

def Dialogue.bind (next : α → Dialogue Question Answer Error β) :
    Dialogue Question Answer Error α → Dialogue Question Answer Error β
  | .done value => next value
  | .fail error => .fail error
  | .crash => .crash
  | .ask question answered =>
    .ask question fun answer => (answered answer).bind next

/-- Who answers: the reply to a question in a state, and the state after the
question.  No reply at all is undefined behaviour. -/
structure Speaker (Question Answer State : Type) where
  reply : State → Question → Option (Option Answer)
  update : State → Question → State

/-- A speaker who does not look at the state. -/
def Speaker.plain (reply : Question → Option (Option Answer))
    (update : State → Question → State) : Speaker Question Answer State :=
  ⟨fun _ => reply, update⟩

/-- How a run ends, in which state, and what has been asked. -/
structure Finished (Question Answer Error State α : Type) where
  result : Except Error α
  state : State
  asked : List (Question × Option Answer)

/-- A question that was asked before the rest of the run. -/
def Finished.cons (entry : Question × Option Answer)
    (finished : Finished Question Answer Error State α) : Finished Question Answer Error State α :=
  { finished with asked := entry :: finished.asked }

section

variable (refusal : Error) (speaker : Speaker Question Answer State)

def run : State → Dialogue Question Answer Error α → Option (Finished Question Answer Error State α)
  | state, .done value => some ⟨.ok value, state, []⟩
  | state, .fail error => some ⟨.error error, state, []⟩
  | _, .crash => none
  | state, .ask question next =>
    match speaker.reply state question with
    | none => none
    | some none =>
      some ⟨.error refusal, speaker.update state question, [(question, none)]⟩
    | some (some answer) =>
      (run (speaker.update state question) (next answer)).map (.cons (question, some answer))

def Finished.andThen (next : State → α → Option (Finished Question Answer Error State β))
    (finished : Finished Question Answer Error State α) :
    Option (Finished Question Answer Error State β) :=
  match finished.result with
  | .error error => some ⟨.error error, finished.state, finished.asked⟩
  | .ok value =>
    (next finished.state value).map fun later =>
      { later with asked := finished.asked ++ later.asked }

theorem run_bind (state : State) (dialogue : Dialogue Question Answer Error α)
    (next : α → Dialogue Question Answer Error β) :
    run refusal speaker state (dialogue.bind next) = (run refusal speaker state dialogue).bind
        (Finished.andThen fun state value =>
          run refusal speaker state (next value)) := by
  induction dialogue generalizing state with
  | done value =>
    change run refusal speaker state (next value) = (run refusal speaker state (next value)).map _
    rw [show (fun later : Finished Question Answer Error State β =>
      { later with asked := [] ++ later.asked }) = id from rfl,
      Option.map_id_fun, id]
  | fail error => rfl
  | crash => rfl
  | ask question answered ih =>
    rw [Dialogue.bind, run, run]
    split
    · rfl
    · rfl
    rename_i answer _
    rw [ih]
    cases run refusal speaker (speaker.update state question) (answered answer) with
    | none => rfl
    | some finished =>
      obtain ⟨result, after, asked⟩ := finished
      cases result with
      | error error => rfl
      | ok value =>
        change ((run refusal speaker after (next value)).map _).map _ =
          (run refusal speaker after (next value)).map _
        rw [Option.map_map]
        rfl

/-- The plain speaker goes through the same questions from every state. -/
theorem run_plain (reply : Question → Option (Option Answer)) (update : State → Question → State)
    (start state : State) (dialogue : Dialogue Question Answer Error α) :
    run refusal (.plain reply update) state dialogue =
      (run refusal (.plain reply update) start dialogue).map fun finished =>
        { finished with
          state := finished.asked.foldl
            (fun state entry => update state entry.1) state } := by
  induction dialogue generalizing start state with
  | done value => rfl
  | fail error => rfl
  | crash => rfl
  | ask question answered ih =>
    rw [run, run]
    cases replied : reply question with
    | none =>
      simp only [Speaker.plain, replied]
      rfl
    | some given =>
      simp only [Speaker.plain, replied]
      cases given with
      | none => rfl
      | some answer =>
        rw [← Speaker.plain]
        dsimp only
        rw [ih answer (update start question)
          (update state question), Option.map_map, Option.map_map]
        rfl

end

/-! ## Comparing two runs -/

section

variable {refusal : Error} {speaker : Speaker Question Answer State}
  {reply : Question → Option (Option Answer)} {own : Finished Question Answer Error State α}
  {dialogue : Dialogue Question Answer Error α} {asked : List (Question × Option Answer)}
  {state : State}

/-- The speaker replies to every question as recorded.  If `lenient`, it may
also refuse a question that was answered, which ends the run. -/
def Undisturbed (speaker : Speaker Question Answer State) (lenient : Prop) :
    State → List (Question × Option Answer) → Prop
  | _, [] => True
  | state, (question, none) :: _ =>
    speaker.reply state question = some none
  | state, (question, some answer) :: rest =>
    speaker.reply state question = some (some answer) ∧
        Undisturbed speaker lenient (speaker.update state question) rest ∨
      lenient ∧ speaker.reply state question = some none

/-- Every question that was answered has the answer of the plain speaker. -/
def Faithful (reply : Question → Option (Option Answer))
    (asked : List (Question × Option Answer)) : Prop :=
  ∀ question answer, (question, some answer) ∈ asked → reply question = some (some answer)

theorem faithful_cons {question : Question} {answer : Answer}
    (here : reply question = some (some answer)) (later : Faithful reply asked) :
    Faithful reply ((question, some answer) :: asked) := by
  intro other given member
  rcases List.mem_cons.mp member with same | inside
  · cases same
    exact here
  · exact later other given inside

section

variable (ran : run refusal (.plain reply speaker.update) state dialogue = some own)
include ran

/-- An undisturbed speaker comes to the end of the plain run, or refuses
where the plain run is refused anyway. -/
theorem run_of_undisturbed {lenient : Prop}
    (undisturbed : Undisturbed speaker lenient state own.asked) :
    ∃ other, run refusal speaker state dialogue = some other ∧ Faithful reply other.asked ∧
      (other.result = own.result ∧ other.state = own.state ∨
        lenient ∧ other.result = .error refusal) := by
  induction dialogue generalizing state own with
  | done value | fail error =>
    cases ran
    exact ⟨_, rfl, nofun, .inl ⟨rfl, rfl⟩⟩
  | crash => cases ran
  | ask question answered ih =>
    rw [run] at ran ⊢
    split at ran
    · cases ran
    · cases ran
      have same : speaker.reply state question = some none := undisturbed
      rw [same]
      refine ⟨_, rfl, ?_, .inl ⟨rfl, rfl⟩⟩
      rintro _ _ (_ | ⟨_, ⟨⟩⟩)
    rename_i answer replied
    obtain ⟨later, laterRan, rfl⟩ := Option.map_eq_some_iff.mp ran
    rcases undisturbed with ⟨same, rest⟩ | ⟨may, refused⟩
    · rw [same]
      obtain ⟨other, otherRan, faithful, ending⟩ := ih answer laterRan rest
      exact ⟨_, congrArg (Option.map _) otherRan, faithful_cons replied faithful, ending⟩
    · rw [refused]
      refine ⟨_, rfl, ?_, .inr ⟨may, rfl⟩⟩
      rintro _ _ (_ | ⟨_, ⟨⟩⟩)

/-- A run whose answers are those of the plain speaker follows the plain run
up to its end, or it is refused on the way. -/
theorem undisturbed_of_faithful {other : Finished Question Answer Error State α}
    (otherRan : run refusal speaker state dialogue = some other)
    (faithful : Faithful reply other.asked) :
    (Undisturbed speaker False state own.asked ∧
        other.result = own.result ∧ other.state = own.state) ∨
      (Undisturbed speaker True state own.asked ∧ other.result = .error refusal) := by
  induction dialogue generalizing state own other with
  | done value | fail error =>
    cases ran
    cases otherRan
    exact .inl ⟨trivial, rfl, rfl⟩
  | crash => cases ran
  | ask question answered ih =>
    rw [run] at ran otherRan
    cases replied : reply question with
    | none =>
      simp only [Speaker.plain, replied] at ran
      cases ran
    | some given =>
      simp only [Speaker.plain, replied] at ran
      cases spoken : speaker.reply state question with
      | none =>
        rw [spoken] at otherRan
        cases otherRan
      | some told =>
        rw [spoken] at otherRan
        cases told with
        | none =>
          cases otherRan
          cases given with
          | none =>
            cases ran
            exact .inl ⟨spoken, rfl, rfl⟩
          | some answer =>
            obtain ⟨later, _, rfl⟩ := Option.map_eq_some_iff.mp ran
            exact .inr ⟨.inr ⟨trivial, spoken⟩, rfl⟩
        | some answer =>
          obtain ⟨last, lastRan, rfl⟩ := Option.map_eq_some_iff.mp otherRan
          have same := replied.symm.trans (faithful question answer List.mem_cons_self)
          cases same
          obtain ⟨later, laterRan, rfl⟩ := Option.map_eq_some_iff.mp ran
          rcases ih answer laterRan lastRan (fun other given inside => faithful other given
              (List.mem_cons_of_mem _ inside)) with
            ⟨rest, ending⟩ | ⟨rest, ending⟩
          · exact .inl ⟨.inl ⟨spoken, rest⟩, ending⟩
          · exact .inr ⟨.inl ⟨spoken, rest⟩, ending⟩

end

theorem Undisturbed.mono {first second : Prop} (implies : first → second)
    (undisturbed : Undisturbed speaker first state asked) :
    Undisturbed speaker second state asked := by
  induction asked generalizing state with
  | nil => trivial
  | cons entry rest ih =>
    obtain ⟨question, given⟩ := entry
    cases given with
    | none => exact undisturbed
    | some answer =>
      rcases undisturbed with ⟨same, later⟩ | ⟨may, refused⟩
      · exact .inl ⟨same, ih later⟩
      · exact .inr ⟨implies may, refused⟩

end

end OpsCli.CLib.Questions
