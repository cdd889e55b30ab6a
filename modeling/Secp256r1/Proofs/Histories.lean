import Mathlib.Data.List.Forall2

/-!
# Histories of several objects

A history makes objects, copies them and operates on them, in any order.  Objects are numbered in
the order in which they come.

* `Objects` — how an object is made and copied, and what an operation does to it and answers.
* `Objects.run` — the objects after a history, and the answers.
* `Objects.getElem?_run` — **an object is changed by the operations on it alone**, so that a copy
  and its original go their own ways (`Objects.getElem?_run_copy`).
* `Objects.BehavesAs` — one of several objects is changed by and answers to the operations on it
  alone (`Objects.behavesAs_of_getElem?`, `Objects.behavesAs_copy`).
* `Objects.Simulates` — each operation answers alike on two objects that are related, and leaves
  them related.
* `Objects.Simulates.run` — **then every history answers alike.**
-/

set_option autoImplicit false

namespace Secp256r1

/-- Objects of type `σ`: how one is made, what its copies are, and what an operation leaves of it
and answers. -/
structure Objects (ι ω α σ : Type) where
  make : ι → σ
  copy : σ → σ
  perform : σ → ω → σ × α

namespace Objects

/-- One command of a history. -/
inductive Command (ι ω : Type)
  | make (argument : ι)
  | copy (i : ℕ)
  | operate (i : ℕ) (operation : ω)

variable {ι ω α σ τ : Type}

/-- The objects after a command, and the answer of the operation. -/
def step (O : Objects ι ω α σ) (objects : List σ) : Command ι ω → List σ × Option α
  | .make argument => (objects ++ [O.make argument], none)
  | .copy i => (objects ++ (objects[i]?.map O.copy).toList, none)
  | .operate i operation =>
    (objects.modify i fun s => (O.perform s operation).1,
     objects[i]?.map fun s => (O.perform s operation).2)

/-- The objects after a history, and one answer for each command. -/
def run (O : Objects ι ω α σ) (objects : List σ) : List (Command ι ω) → List σ × List (Option α)
  | [] => (objects, [])
  | command :: commands =>
    let (next, answer) := O.step objects command
    let (last, answers) := run O next commands
    (last, answer :: answers)

theorem run_append (O : Objects ι ω α σ) (objects : List σ) (earlier later : List (Command ι ω)) :
    (O.run objects (earlier ++ later)).1 = (O.run (O.run objects earlier).1 later).1 := by
  induction earlier generalizing objects with
  | nil => rfl
  | cons command earlier ih => exact ih (O.step objects command).1

/-! ## Objects do not disturb each other -/

/-- The operations on one of the objects. -/
def operationsOn (k : ℕ) : List (Command ι ω) → List ω
  | [] => []
  | .operate i operation :: commands =>
    if i = k then operation :: operationsOn k commands else operationsOn k commands
  | _ :: commands => operationsOn k commands

/-- An object after several operations. -/
def performAll (O : Objects ι ω α σ) (s : σ) (operations : List ω) : σ :=
  operations.foldl (fun s operation => (O.perform s operation).1) s

theorem getElem?_step_operate (O : Objects ι ω α σ) {objects : List σ} {k : ℕ} {s : σ}
    (hk : objects[k]? = some s) (i : ℕ) (operation : ω) :
    (O.step objects (.operate i operation)).1[k]? =
      some (if i = k then (O.perform s operation).1 else s) := by
  unfold step
  rw [List.getElem?_modify, hk]
  split <;> rfl

/-- **An object is changed by the operations on it alone.** -/
theorem getElem?_run (O : Objects ι ω α σ) {objects : List σ} {k : ℕ} {s : σ}
    (hk : objects[k]? = some s) (commands : List (Command ι ω)) :
    (O.run objects commands).1[k]? = some (O.performAll s (operationsOn k commands)) := by
  induction commands generalizing objects s with
  | nil => exact hk
  | cons command commands ih =>
    have hlt : k < objects.length := (List.getElem?_eq_some_iff.mp hk).1
    cases command with
    -- new objects come behind the old ones
    | make argument => exact ih ((List.getElem?_append_left hlt).trans hk)
    | copy i => exact ih ((List.getElem?_append_left hlt).trans hk)
    | operate i operation =>
      have hrest := ih (O.getElem?_step_operate hk i operation)
      unfold operationsOn
      split at hrest
      · rename_i heq
        rw [if_pos heq]
        exact hrest
      · rename_i hne
        rw [if_neg hne]
        exact hrest

/-- A copy comes behind the other objects and leaves its original as it is. -/
theorem getElem?_step_copy (O : Objects ι ω α σ) {objects : List σ} {i : ℕ} {s : σ}
    (hi : objects[i]? = some s) :
    (O.step objects (.copy i)).1[i]? = some s ∧
      (O.step objects (.copy i)).1[objects.length]? = some (O.copy s) := by
  have hlt : i < objects.length := (List.getElem?_eq_some_iff.mp hi).1
  constructor
  · exact (List.getElem?_append_left hlt).trans hi
  · show (objects ++ (objects[i]?.map O.copy).toList)[objects.length]? = some (O.copy s)
    rw [hi]
    exact List.getElem?_concat_length

/-- **A copy and its original go their own ways**: each is changed by the later operations on it
alone. -/
theorem getElem?_run_copy (O : Objects ι ω α σ) (earlier later : List (Command ι ω)) {i : ℕ} {s : σ}
    (hi : (O.run [] earlier).1[i]? = some s) :
    (O.run [] (earlier ++ .copy i :: later)).1[i]? =
        some (O.performAll s (operationsOn i later)) ∧
      (O.run [] (earlier ++ .copy i :: later)).1[(O.run [] earlier).1.length]? =
        some (O.performAll (O.copy s) (operationsOn (O.run [] earlier).1.length later)) := by
  obtain ⟨horiginal, hcopy⟩ := O.getElem?_step_copy hi
  rw [run_append]
  exact ⟨O.getElem?_run horiginal later, O.getElem?_run hcopy later⟩

/-! ## Answers of one object -/

/-- What an object answers to several operations. -/
def answerAll (O : Objects ι ω α σ) (s : σ) : List ω → List α
  | [] => []
  | operation :: operations =>
    (O.perform s operation).2 :: answerAll O (O.perform s operation).1 operations

/-- The answers to the operations on one of the objects. -/
def answersOn (k : ℕ) : List (Command ι ω) → List (Option α) → List α
  | .operate i _ :: commands, answer :: answers =>
    if i = k then answer.toList ++ answersOn k commands answers else answersOn k commands answers
  | _ :: commands, _ :: answers => answersOn k commands answers
  | _, _ => []

theorem answerAll_append (O : Objects ι ω α σ) (s : σ) (earlier later : List ω) :
    O.answerAll s (earlier ++ later) =
      O.answerAll s earlier ++ O.answerAll (O.performAll s earlier) later := by
  induction earlier generalizing s with
  | nil => rfl
  | cons operation earlier ih => exact congrArg (_ :: ·) (ih (O.perform s operation).1)

/-- **An object answers to the operations on it alone.** -/
theorem answersOn_run (O : Objects ι ω α σ) {objects : List σ} {k : ℕ} {s : σ}
    (hk : objects[k]? = some s) (commands : List (Command ι ω)) :
    answersOn k commands (O.run objects commands).2 =
      O.answerAll s (operationsOn k commands) := by
  induction commands generalizing objects s with
  | nil => rfl
  | cons command commands ih =>
    have hlt : k < objects.length := (List.getElem?_eq_some_iff.mp hk).1
    cases command with
    | make argument => exact ih ((List.getElem?_append_left hlt).trans hk)
    | copy i => exact ih ((List.getElem?_append_left hlt).trans hk)
    | operate i operation =>
      have hrest := ih (O.getElem?_step_operate hk i operation)
      unfold operationsOn run answersOn
      rw [hrest]
      by_cases heq : i = k
      · have hanswer : (O.step objects (.operate i operation)).2 =
            some (O.perform s operation).2 := by
          rw [heq]
          exact congrArg (Option.map fun s => (O.perform s operation).2) hk
        rw [if_pos heq, if_pos heq, if_pos heq, hanswer]
        rfl
      · rw [if_neg heq, if_neg heq, if_neg heq]

/-- Whatever is done from now on, one of the objects is changed by and answers to the operations on
it alone, as it would by itself. -/
def BehavesAs (O : Objects ι ω α σ) (objects : List σ) (k : ℕ) (s : σ) : Prop :=
  ∀ later : List (Command ι ω),
    (O.run objects later).1[k]? = some (O.performAll s (operationsOn k later)) ∧
      answersOn k later (O.run objects later).2 = O.answerAll s (operationsOn k later)

theorem behavesAs_of_getElem? (O : Objects ι ω α σ) {objects : List σ} {k : ℕ} {s : σ}
    (hk : objects[k]? = some s) : O.BehavesAs objects k s :=
  fun later => ⟨O.getElem?_run hk later, O.answersOn_run hk later⟩

/-- **From a copy on, the original goes on as before, and what was copied from it by itself.** -/
theorem behavesAs_copy (O : Objects ι ω α σ) {objects : List σ} {i : ℕ} {s : σ}
    (hi : objects[i]? = some s) :
    O.BehavesAs (O.step objects (.copy i)).1 i s ∧
      O.BehavesAs (O.step objects (.copy i)).1 objects.length (O.copy s) := by
  obtain ⟨horiginal, hcopy⟩ := O.getElem?_step_copy hi
  exact ⟨O.behavesAs_of_getElem? horiginal, O.behavesAs_of_getElem? hcopy⟩

/-! ## Simulation -/

/-- Each operation answers alike on two objects that are related, and leaves them related; so are
their copies. -/
structure Simulates (O : Objects ι ω α σ) (P : Objects ι ω α τ) (R : σ → τ → Prop) : Prop where
  make : ∀ argument, R (O.make argument) (P.make argument)
  copy : ∀ {s t}, R s t → R (O.copy s) (P.copy t)
  perform : ∀ {s t}, R s t → ∀ operation,
    R (O.perform s operation).1 (P.perform t operation).1 ∧
      (O.perform s operation).2 = (P.perform t operation).2

variable {O : Objects ι ω α σ} {P : Objects ι ω α τ} {R : σ → τ → Prop}

theorem rel_getElem? {as : List σ} {bs : List τ} (h : List.Forall₂ R as bs) (i : ℕ) :
    Option.Rel R as[i]? bs[i]? := by
  induction h generalizing i with
  | nil => exact .none
  | cons hab _ ih =>
    cases i with
    | zero => exact .some hab
    | succ i => exact ih i

theorem forall₂_modify {f : σ → σ} {g : τ → τ} (hfg : ∀ {a b}, R a b → R (f a) (g b)) {as : List σ}
    {bs : List τ} (h : List.Forall₂ R as bs) (i : ℕ) :
    List.Forall₂ R (as.modify i f) (bs.modify i g) := by
  induction h generalizing i with
  | nil =>
    rw [List.modify_nil, List.modify_nil]
    exact .nil
  | cons hab h ih =>
    cases i with
    | zero => exact .cons (hfg hab) h
    | succ i => exact .cons hab (ih i)

namespace Simulates

/-- **One command answers alike and keeps the objects related.** -/
theorem step (hsim : O.Simulates P R) {as : List σ} {bs : List τ} (h : List.Forall₂ R as bs)
    (command : Command ι ω) :
    List.Forall₂ R (O.step as command).1 (P.step bs command).1 ∧
      (O.step as command).2 = (P.step bs command).2 := by
  -- a number is in use on both sides or on neither, so that the look-ups go together
  cases command with
  | make argument => exact ⟨List.rel_append h (.cons (hsim.make argument) .nil), rfl⟩
  | copy i =>
    have hcopied : List.Forall₂ R (as[i]?.map O.copy).toList (bs[i]?.map P.copy).toList := by
      have hrel := rel_getElem? h i
      generalize as[i]? = a, bs[i]? = b at hrel
      cases hrel with
      | none => exact .nil
      | some hab => exact .cons (hsim.copy hab) .nil
    exact ⟨List.rel_append h hcopied, rfl⟩
  | operate i operation =>
    have hanswer : (as[i]?.map fun s => (O.perform s operation).2) =
        bs[i]?.map fun t => (P.perform t operation).2 := by
      have hrel := rel_getElem? h i
      generalize as[i]? = a, bs[i]? = b at hrel
      cases hrel with
      | none => rfl
      | some hab => exact congrArg some (hsim.perform hab operation).2
    exact ⟨forall₂_modify (fun hab => (hsim.perform hab operation).1) h i, hanswer⟩

/-- **Every history answers alike**, and leaves the objects related. -/
theorem run (hsim : O.Simulates P R) {as : List σ} {bs : List τ} (h : List.Forall₂ R as bs)
    (commands : List (Command ι ω)) :
    List.Forall₂ R (O.run as commands).1 (P.run bs commands).1 ∧
      (O.run as commands).2 = (P.run bs commands).2 := by
  induction commands generalizing as bs with
  | nil => exact ⟨h, rfl⟩
  | cons command commands ih =>
    obtain ⟨hnext, hanswer⟩ := hsim.step h command
    obtain ⟨hlast, hanswers⟩ := ih hnext
    exact ⟨hlast, congrArg₂ List.cons hanswer hanswers⟩

/-- One object by itself answers alike. -/
theorem answerAll (hsim : O.Simulates P R) {s : σ} {t : τ} (h : R s t) (operations : List ω) :
    O.answerAll s operations = P.answerAll t operations := by
  induction operations generalizing s t with
  | nil => rfl
  | cons operation operations ih =>
    obtain ⟨hnext, hanswer⟩ := hsim.perform h operation
    exact congrArg₂ List.cons hanswer (ih hnext)

end Simulates

end Objects

end Secp256r1
