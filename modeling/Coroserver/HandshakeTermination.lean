import Coroserver.Handshake

/-! Between two willing ends a switch-off that crosses a switch-on can make both
signals circulate for ever. Here are the requests that cannot do so, and a bound on
the deliveries that follow them. Where one end refuses, no restriction is needed. -/

namespace Coroserver.Handshake

/-- Requests of the near end that do not set an opposite signal against a switch-on
in flight. -/
def Exchange.OrderlyNear (x : Exchange) (signal : Bool) : Prop :=
  signal = true ∨ (x.near.on = false ∧ x.near.waiting = false) ∨
    (true ∉ x.toNear ∧ true ∉ x.toFar) ∨
    (x.toNear = [] ∧ false ∉ x.toFar ∧ (x.far.on = true ∨ x.far.waiting = true)) ∨
    (x.near.on = true ∧ x.far.waiting = true ∧ x.toNear = [false, true] ∧ x.toFar = [])
deriving Decidable

def Exchange.OrderlyFar (x : Exchange) (signal : Bool) : Prop := x.swap.OrderlyNear signal
deriving Decidable

def willing : Consent := ⟨true, true⟩

def Exchange.successors (x : Exchange) : List Exchange :=
  (x.deliverNear willing).toList ++ (x.deliverFar willing).toList ++
    ([true, false].filter fun signal => x.OrderlyNear signal).map x.askNear ++
    ([true, false].filter fun signal => x.OrderlyFar signal).map x.askFar

/-- Depth-first exploration; the fuel bounds the number of visits. -/
def explore : Nat → List Exchange → List Exchange → List Exchange
  | 0, _, seen => seen
  | _ + 1, [], seen => seen
  | fuel + 1, x :: queue, seen =>
    if x ∈ seen then explore fuel queue seen
    else explore fuel (x.successors ++ queue) (x :: seen)

def orderlyExchanges : List Exchange := explore 600 [{}] []

def settlingTime : Nat → Exchange → Nat
  | 0, _ => 0
  | fuel + 1, x =>
    match x.deliverNear willing with
    | some y => settlingTime fuel y + 1
    | none =>
      match x.deliverFar willing with
      | some y => settlingTime fuel y + 1
      | none => 0

/-- One statement, so that the exploration is evaluated once. -/
private theorem orderlyExchanges_checked :
    {} ∈ orderlyExchanges ∧ ∀ x ∈ orderlyExchanges,
      (∀ y ∈ x.successors, y ∈ orderlyExchanges) ∧
      ∀ y ∈ (x.deliverNear willing).toList ++ (x.deliverFar willing).toList,
        settlingTime 24 y < settlingTime 24 x := by
  decide +kernel

theorem orderlyExchanges_closed :
    ∀ x ∈ orderlyExchanges, ∀ y ∈ x.successors, y ∈ orderlyExchanges :=
  fun x reached => (orderlyExchanges_checked.2 x reached).1

/-- A far end that refuses turns every switch-on into a switch-off. -/
def Exchange.refusalWeight (x : Exchange) : Nat :=
  4 * x.toNear.count true + 2 * x.toFar.count true + x.toNear.count false +
    x.toFar.count false + x.near.on.toNat + x.far.on.toNat

variable {c : Consent} {x y : Exchange}

open Exchange

theorem Exchange.refusalWeight_deliverNear (delivered : x.deliverNear c = some y) :
    y.refusalWeight < x.refusalWeight := by
  obtain ⟨⟨on, waiting⟩, _, toNear, _⟩ := x
  cases toNear with
  | nil => simp [deliverNear] at delivered
  | cons signal =>
    simp only [deliverNear, Option.some.injEq] at delivered
    subst delivered
    cases signal <;> cases on <;> cases waiting <;> cases c.near <;>
      simp [Endpoint.answer, refusalWeight] <;> omega

theorem Exchange.refusalWeight_deliverFar (refuses : c.far = false)
    (delivered : x.deliverFar c = some y) : y.refusalWeight < x.refusalWeight := by
  obtain ⟨_, ⟨on, waiting⟩, _, toFar⟩ := x
  cases toFar with
  | nil => simp [deliverFar, deliverNear, swap] at delivered
  | cons signal =>
    simp only [deliverFar, deliverNear, swap, Consent.swap, refuses,
      Option.map_some, Option.some.injEq] at delivered
    subst delivered
    cases signal <;> cases on <;> cases waiting <;> simp [Endpoint.answer, refusalWeight] <;> omega

def Orderly (c : Consent) (x : Exchange) : Prop := c = willing → x ∈ orderlyExchanges

def Exchange.weight (c : Consent) (x : Exchange) : Nat :=
  if c = willing then settlingTime 24 x
  else if c.far = false then x.refusalWeight
  else x.swap.refusalWeight

theorem orderly_initial (c : Consent) : Orderly c {} := fun _ => orderlyExchanges_checked.1

theorem Orderly.askNear (orderly : Orderly c x) {signal : Bool}
    (admitted : c = willing → x.OrderlyNear signal) : Orderly c (x.askNear signal) := by
  intro both
  apply orderlyExchanges_closed x (orderly both)
  cases signal <;> simp [successors, admitted both]

theorem Orderly.askFar (orderly : Orderly c x) {signal : Bool}
    (admitted : c = willing → x.OrderlyFar signal) : Orderly c (x.askFar signal) := by
  intro both
  apply orderlyExchanges_closed x (orderly both)
  cases signal <;> simp [successors, admitted both]

theorem orderlyExchanges_deliver (reached : x ∈ orderlyExchanges)
    (delivered : x.deliverNear willing = some y ∨ x.deliverFar willing = some y) :
    Orderly willing y ∧ y.weight willing < x.weight willing := by
  have listed : y ∈ (x.deliverNear willing).toList ++ (x.deliverFar willing).toList := by
    simpa using delivered
  refine ⟨fun _ => orderlyExchanges_closed x reached y ?_, ?_⟩
  · simp only [successors, List.mem_append] at listed ⊢
    exact .inl (.inl listed)
  · simpa [weight] using (orderlyExchanges_checked.2 x reached).2 y listed

private theorem Consent.near_refuses (notBoth : c ≠ willing) (accepts : c.far ≠ false) :
    c.near = false := by
  obtain ⟨near, far⟩ := c
  cases near <;> cases far <;> simp_all [willing]

theorem Orderly.deliverNear (orderly : Orderly c x) (delivered : x.deliverNear c = some y) :
    Orderly c y ∧ y.weight c < x.weight c := by
  by_cases both : c = willing
  · subst both
    exact orderlyExchanges_deliver (orderly rfl) (.inl delivered)
  · refine ⟨fun isBoth => absurd isBoth both, ?_⟩
    by_cases refuses : c.far = false
    · simpa [weight, both, refuses] using refusalWeight_deliverNear delivered
    · have mirrored : x.swap.deliverFar c.swap = some y.swap := by
        simp [deliverFar, delivered]
      simpa [weight, both, refuses] using
        refusalWeight_deliverFar (Consent.near_refuses both refuses) mirrored

theorem Orderly.deliverFar (orderly : Orderly c x) (delivered : x.deliverFar c = some y) :
    Orderly c y ∧ y.weight c < x.weight c := by
  by_cases both : c = willing
  · subst both
    exact orderlyExchanges_deliver (orderly rfl) (.inr delivered)
  · refine ⟨fun isBoth => absurd isBoth both, ?_⟩
    by_cases refuses : c.far = false
    · simpa [weight, both, refuses] using refusalWeight_deliverFar refuses delivered
    · obtain ⟨_, moved, rfl⟩ := Option.map_eq_some_iff.mp delivered
      simpa [weight, both, refuses] using refusalWeight_deliverNear moved

end Coroserver.Handshake
