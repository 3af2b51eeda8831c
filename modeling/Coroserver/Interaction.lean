import Coroserver.Fallible

/-! A program that asks its environment and goes on with the answers. It ends with a
value or raises an exception. An environment answers a request knowing what has been
asked and answered before, so it may keep any state. -/

namespace Coroserver

inductive Interaction (Request Answer Exception Value : Type) where
  | done (value : Value)
  | raise (exception : Exception)
  | ask (request : Request) (next : Answer → Interaction Request Answer Exception Value)

namespace Interaction

variable {Request Answer Exception First Second Element Failure : Type}

def bind (program : Interaction Request Answer Exception First)
    (next : First → Interaction Request Answer Exception Second) :
    Interaction Request Answer Exception Second :=
  match program with
  | .done value => next value
  | .raise exception => .raise exception
  | .ask request rest => .ask request fun answer => (rest answer).bind next

instance : Monad (Interaction Request Answer Exception) where
  pure := .done
  bind := bind

/-- An exception becomes a value. -/
def attempt (program : Interaction Request Answer Exception First) :
    Interaction Request Answer Exception (Except Exception First) :=
  match program with
  | .done value => .done (.ok value)
  | .raise exception => .done (.error exception)
  | .ask request rest => .ask request fun answer => (rest answer).attempt

def lift : Except Exception First → Interaction Request Answer Exception First
  | .ok value => .done value
  | .error exception => .raise exception

def run (environment : List (Request × Answer) → Request → Answer) :
    List (Request × Answer) → Interaction Request Answer Exception First →
      Except Exception First
  | _, .done value => .ok value
  | _, .raise exception => .error exception
  | history, .ask request next =>
    let answer := environment history request
    run environment (history ++ [(request, answer)]) (next answer)

/-- What holds of the end of a program whenever every answer is admitted. -/
def Always (admits : Request → Answer → Prop) (raised : Exception → Prop)
    (returned : First → Prop) : Interaction Request Answer Exception First → Prop
  | .done value => returned value
  | .raise exception => raised exception
  | .ask request next =>
    ∀ answer, admits request answer → (next answer).Always admits raised returned

variable {admits : Request → Answer → Prop} {raised : Exception → Prop}

variable {program : Interaction Request Answer Exception First} {returned : First → Prop}
  {elements : List Element}

theorem always_bind {next : First → Interaction Request Answer Exception Second}
    {returned : Second → Prop} :
    (program >>= next).Always admits raised returned ↔
      program.Always admits raised fun value => (next value).Always admits raised returned := by
  induction program with
  | done | raise => exact Iff.rfl
  | ask _ _ ih => exact forall_congr' fun answer => imp_congr_right fun _ => ih answer

theorem Always.mono {weaker : First → Prop} (always : program.Always admits raised returned)
    (implies : ∀ value, returned value → weaker value) : program.Always admits raised weaker := by
  induction program with
  | done value => exact implies value always
  | raise => exact always
  | ask _ _ ih => exact fun answer admitted => ih answer (always answer admitted)

theorem always_congr {one other : First → Prop} (same : ∀ value, one value ↔ other value) :
    program.Always admits raised one ↔ program.Always admits raised other :=
  ⟨fun always => always.mono fun value => (same value).mp,
    fun always => always.mono fun value => (same value).mpr⟩

theorem Always.attempt (always : program.Always admits raised returned) :
    program.attempt.Always admits raised fun outcome =>
      match outcome with
      | .ok value => returned value
      | .error exception => raised exception := by
  induction program with
  | done | raise => exact always
  | ask _ _ ih => exact fun answer admitted => ih answer (always answer admitted)

theorem always_lift {computation : Except Exception First}
    (raises : ∀ exception, computation = .error exception → raised exception)
    (returns : ∀ value, computation = .ok value → returned value) :
    (lift computation : Interaction Request Answer Exception First).Always admits raised
      returned := by
  cases computation with
  | ok value => exact returns value rfl
  | error exception => exact raises exception rfl

/-- A loop that keeps the results and leaves out the failures. -/
def collectOk (body : Element → Interaction Request Answer Exception (Except Failure First)) :
    List Element → Interaction Request Answer Exception (List First)
  | [] => .done []
  | element :: rest => do
      let outcome ← body element
      let others ← collectOk body rest
      match outcome with
      | .ok value => .done (value :: others)
      | .error _ => .done others

/-- A loop that ends with the first failure. -/
def collectAll (body : Element → Interaction Request Answer Exception (Except Failure First)) :
    List Element → Interaction Request Answer Exception (Except Failure (List First))
  | [] => .done (.ok [])
  | element :: rest => do
      let outcome ← body element
      match outcome with
      | .error failure => .done (.error failure)
      | .ok value => do
          let others ← collectAll body rest
          .done (others.map (value :: ·))

variable {body : Element → Interaction Request Answer Exception (Except Failure First)}

theorem always_collectOk
    (each : ∀ element ∈ elements, (body element).Always admits raised fun _ => True) :
    (collectOk body elements).Always admits raised fun _ => True := by
  induction elements with
  | nil => exact trivial
  | cons element rest ih =>
    refine always_bind.mpr ((each element List.mem_cons_self).mono fun outcome _ => ?_)
    refine always_bind.mpr ((ih fun other later => each other
      (List.mem_cons_of_mem _ later)).mono fun others _ => ?_)
    cases outcome with
    | ok | error => exact trivial

theorem always_collectAll {failed : Failure → Prop}
    (each : ∀ element ∈ elements, (body element).Always admits raised
      fun outcome => ∀ failure, outcome = .error failure → failed failure) :
    (collectAll body elements).Always admits raised
      fun outcome => ∀ failure, outcome = .error failure → failed failure := by
  induction elements with
  | nil =>
    intro failure impossible
    cases impossible
  | cons element rest ih =>
    refine always_bind.mpr ((each element List.mem_cons_self).mono fun outcome fails => ?_)
    cases outcome with
    | error failure =>
      intro other same
      cases same
      exact fails failure rfl
    | ok =>
      refine always_bind.mpr ((ih fun other later => each other
        (List.mem_cons_of_mem _ later)).mono fun others failsLater => ?_)
      intro failure same
      cases others with
      | ok => cases same
      | error =>
        cases same
        exact failsLater failure rfl

def Ends (raised : Exception → Prop) (returned : First → Prop) : Except Exception First → Prop
  | .ok value => returned value
  | .error exception => raised exception

theorem ends_iff {raised : Exception → Prop} (nothing : ∀ exception, ¬raised exception)
    {outcome : Except Exception First} :
    Ends raised returned outcome ↔ ∃ value, outcome = .ok value ∧ returned value := by
  cases outcome with
  | ok value =>
    refine ⟨fun holds => ⟨value, rfl, holds⟩, ?_⟩
    rintro ⟨_, same, holds⟩
    cases same
    exact holds
  | error exception => exact ⟨fun holds => absurd holds (nothing exception), nofun⟩

theorem Always.ends (always : program.Always admits raised returned)
    {environment : List (Request × Answer) → Request → Answer}
    (admitted : ∀ history request, admits request (environment history request))
    (history : List (Request × Answer)) :
    Ends raised returned (run environment history program) := by
  induction program generalizing history with
  | done | raise => exact always
  | ask request rest ih => exact ih _ (always _ (admitted history request)) _

theorem run_congr {environment other : List (Request × Answer) → Request → Answer}
    {history : List (Request × Answer)}
    (agree : ∀ later, history.length ≤ later.length → environment later = other later) :
    run environment history program = run other history program := by
  induction program generalizing history with
  | done | raise => rfl
  | ask _ _ ih =>
    simp only [run, agree history (Nat.le_refl _)]
    refine ih _ fun later longer => agree later ?_
    simp only [List.length_append] at longer
    omega

open Classical in
theorem always_of_forall_ends (answerable : ∀ request, ∃ answer, admits request answer)
    (history : List (Request × Answer))
    (ends : ∀ environment, (∀ before request, admits request (environment before request)) →
      Ends raised returned (run environment history program)) :
    program.Always admits raised returned := by
  choose default admitted using answerable
  induction program generalizing history with
  | done | raise => exact ends (fun _ => default) fun _ => admitted
  | ask request rest ih =>
    intro answer accepted
    refine ih answer (history ++ [(request, answer)]) fun environment admissible => ?_
    let first : List (Request × Answer) → Request → Answer := fun before asked =>
      if before = history ∧ asked = request then answer else environment before asked
    have chosen : first history request = answer := if_pos ⟨rfl, rfl⟩
    have sound : ∀ before asked, admits asked (first before asked) := by
      intro before asked
      by_cases same : before = history ∧ asked = request
      · simpa [first, same] using accepted
      · simpa only [first, if_neg same] using admissible before asked
    have later : ∀ before, (history ++ [(request, answer)]).length ≤ before.length →
        first before = environment before := by
      intro before longer
      funext asked
      refine if_neg fun same => ?_
      rw [same.1, List.length_append, List.length_singleton] at longer
      omega
    have result := ends first sound
    rw [run, chosen] at result
    rwa [run_congr later] at result

def evaluate (data : Request → Answer) :
    Interaction Request Answer Exception First → Except Exception First
  | .done value => .ok value
  | .raise exception => .error exception
  | .ask request next => evaluate data (next (data request))

variable {data : Request → Answer}

theorem evaluate_bind (program : Interaction Request Answer Exception First)
    (next : First → Interaction Request Answer Exception Second) :
    evaluate data (program >>= next) =
      (evaluate data program).bind fun value => evaluate data (next value) := by
  induction program with
  | done | raise => rfl
  | ask _ _ ih => exact ih _

theorem evaluate_bind_eq_ok {next : First → Interaction Request Answer Exception Second}
    {result : Second} : evaluate data (program >>= next) = .ok result ↔
      ∃ value, evaluate data program = .ok value ∧ evaluate data (next value) = .ok result := by
  rw [evaluate_bind]
  exact Fallible.bind_eq_ok

theorem evaluate_attempt (program : Interaction Request Answer Exception First) :
    evaluate data program.attempt = .ok (evaluate data program) := by
  induction program with
  | done | raise => rfl
  | ask _ _ ih => exact ih _

theorem evaluate_lift (computation : Except Exception First) :
    evaluate data (lift computation : Interaction Request Answer Exception First) =
      computation := by
  cases computation with
  | ok | error => rfl

theorem evaluate_collectOk (elements : List Element) :
    evaluate data (collectOk body elements) =
      (elements.mapM fun element => evaluate data (body element)).map
        (·.filterMap Except.toOption) := by
  induction elements with
  | nil => rfl
  | cons element rest ih =>
    rw [collectOk, evaluate_bind, List.mapM_cons]
    cases evaluate data (body element) with
    | error => rfl
    | ok outcome =>
      change evaluate data (collectOk body rest >>= _) = _
      rw [evaluate_bind, ih]
      cases rest.mapM fun element => evaluate data (body element) with
      | error => rfl
      | ok =>
        cases outcome with
        | ok | error => rfl

theorem forall₂_of_collectAll {values : List First}
    (evaluated : evaluate data (collectAll body elements) = .ok (.ok values)) :
    List.Forall₂ (fun element value => evaluate data (body element) = .ok (.ok value))
      elements values := by
  induction elements generalizing values with
  | nil =>
    cases evaluated
    exact .nil
  | cons _ _ ih =>
    rw [collectAll] at evaluated
    obtain ⟨outcome, first, continued⟩ := evaluate_bind_eq_ok.mp evaluated
    cases outcome with
    | error => cases continued
    | ok =>
      obtain ⟨others, later, returned⟩ := evaluate_bind_eq_ok.mp continued
      cases others with
      | error => cases returned
      | ok =>
        cases returned
        exact .cons first (ih later)

theorem exists_of_collectAll {failure : Failure}
    (evaluated : evaluate data (collectAll body elements) = .ok (.error failure)) :
    ∃ element ∈ elements, evaluate data (body element) = .ok (.error failure) := by
  induction elements with
  | nil => cases evaluated
  | cons element rest ih =>
    rw [collectAll] at evaluated
    obtain ⟨outcome, first, continued⟩ := evaluate_bind_eq_ok.mp evaluated
    cases outcome with
    | error =>
      cases continued
      exact ⟨element, List.mem_cons_self, first⟩
    | ok =>
      obtain ⟨others, later, returned⟩ := evaluate_bind_eq_ok.mp continued
      cases others with
      | ok => cases returned
      | error =>
        cases returned
        obtain ⟨failing, inside, failed⟩ := ih later
        exact ⟨failing, List.mem_cons_of_mem _ inside, failed⟩

end Interaction

end Coroserver
