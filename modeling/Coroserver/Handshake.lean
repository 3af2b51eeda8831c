import Mathlib.Data.List.Basic

/-! One switch that two endpoints hold a copy of. Either end may ask to switch it on
or off; a request travels through a first-in first-out channel and may be accepted,
refused, or crossed by a request of the other end. `true` is the signal that
switches on, `false` the one that switches off. -/

namespace Coroserver.Handshake

open List

structure Endpoint where
  on : Bool := false
  waiting : Bool := false
deriving DecidableEq

/-- Ask for a change. A request that would change nothing is not sent. -/
def Endpoint.ask (e : Endpoint) : Bool → Endpoint × Option Bool
  | true => if e.on || e.waiting then (e, none) else ({ e with waiting := true }, some true)
  | false =>
    if !e.on && !e.waiting then (e, none)
    else ({ on := false, waiting := false }, some false)

def Endpoint.answer (e : Endpoint) (accepts : Bool) : Bool → Endpoint × Option Bool
  | true =>
    if e.waiting then ({ on := true, waiting := false }, none)
    else if !accepts then (e, some false)
    else if e.on then (e, none)
    else ({ e with on := true }, some true)
  | false =>
    if e.on then ({ e with on := false }, some false)
    else ({ e with waiting := false }, none)

structure Exchange where
  near : Endpoint := {}
  far : Endpoint := {}
  toNear : List Bool := []
  toFar : List Bool := []
deriving DecidableEq

structure Consent where
  near : Bool
  far : Bool
deriving DecidableEq

def Exchange.swap (x : Exchange) : Exchange := ⟨x.far, x.near, x.toFar, x.toNear⟩

def Consent.swap (c : Consent) : Consent := ⟨c.far, c.near⟩

@[simp] theorem Exchange.swap_swap (x : Exchange) : x.swap.swap = x := rfl

@[simp] theorem Consent.swap_swap (c : Consent) : c.swap.swap = c := rfl

def Exchange.askNear (x : Exchange) (signal : Bool) : Exchange :=
  { x with
    near := (x.near.ask signal).1
    toFar := x.toFar ++ (x.near.ask signal).2.toList }

def Exchange.deliverNear (c : Consent) (x : Exchange) : Option Exchange :=
  match x.toNear with
  | [] => none
  | signal :: rest =>
    some { x with
      near := (x.near.answer c.near signal).1
      toNear := rest
      toFar := x.toFar ++ (x.near.answer c.near signal).2.toList }

def Exchange.askFar (x : Exchange) (signal : Bool) : Exchange := (x.swap.askNear signal).swap

def Exchange.deliverFar (c : Consent) (x : Exchange) : Option Exchange :=
  (x.swap.deliverNear c.swap).map Exchange.swap

/-- What a waiting endpoint can rely on: its request is still in flight, or the
other end has taken it and its reaction is in flight. -/
structure Awaited (sent received : List Bool) (peer : Endpoint) : Prop where
  requested : sent ≠ [] → [true] <:+ sent
  accepted : sent = [] → peer.on = true → true ∈ received
  refused : sent = [] → peer.on = false → peer.waiting = false → [false] <:+ received
  retried : sent = [] → peer.waiting = true → [false, true] <:+ received

structure HalfConsistent (x : Exchange) : Prop where
  exclusive : x.near.on = true → x.near.waiting = false
  switchedOff : x.near.on = false → x.far.on = true → false ∈ x.toFar ∨ true ∈ x.toNear
  awaited : x.near.waiting = true → Awaited x.toFar x.toNear x.far

structure Consistent (x : Exchange) : Prop where
  nearHalf : HalfConsistent x
  farHalf : HalfConsistent x.swap

variable {x : Exchange} {rest : List Bool} {c : Consent}

theorem HalfConsistent.off_of_waiting (half : HalfConsistent x) (waits : x.near.waiting = true) :
    x.near.on = false := by
  cases isOn : x.near.on with
  | false => rfl
  | true => exact absurd waits (by simp [half.exclusive isOn])

theorem consistent_initial : Consistent {} := by
  constructor <;> constructor <;> simp [Exchange.swap]

open Endpoint

variable {received toFar : List Bool} {peer near far : Endpoint} {y : Exchange}

theorem Awaited.requested_tail {signal : Bool} (awaited : Awaited (signal :: rest) received peer)
    (more : rest ≠ []) : [true] <:+ rest := by
  rcases suffix_cons_iff.mp (awaited.requested (by simp)) with whole | later
  · simp only [List.cons.injEq] at whole
    exact absurd whole.2.symm more
  · exact later

theorem Awaited.more_after_off (awaited : Awaited (false :: rest) received peer) : rest ≠ [] := by
  intro nothing
  have last := awaited.requested (by simp)
  simp [nothing, suffix_cons_iff] at last

theorem Consistent.deliverNear_on (consistent : Consistent ⟨near, far, true :: rest, toFar⟩) :
    Consistent ⟨(near.answer c.near true).1, far, rest,
      toFar ++ (near.answer c.near true).2.toList⟩ := by
  obtain ⟨nearHalf, farHalf⟩ := consistent
  have farOff : far.waiting = true → far.on = false := farHalf.off_of_waiting
  have told : near.on = true → far.on = false → false ∈ rest ∨ true ∈ toFar := by
    intro nearOn off
    simpa [Exchange.swap] using farHalf.switchedOff off nearOn
  have toldLast : near.on = true → far.waiting = true → rest = [] → true ∈ toFar := by
    intro nearOn waits nothing
    simpa [nothing] using told nearOn (farOff waits)
  by_cases waits : near.waiting = true
  · have awaited := nearHalf.awaited waits
    have informed : far.on = false → false ∈ rest ∨ true ∈ toFar := by
      intro off
      by_cases taken : toFar = []
      · refine .inl ?_
        cases farWaits : far.waiting with
        | true =>
          rcases suffix_cons_iff.mp (awaited.retried taken farWaits) with whole | later
          · simp at whole
          · exact later.subset (by simp)
        | false =>
          rcases suffix_cons_iff.mp (awaited.refused taken off farWaits) with whole | later
          · simp at whole
          · exact later.subset (by simp)
      · exact .inr ((awaited.requested taken).subset (by simp))
    simp only [answer, waits, if_true, Option.toList_none, append_nil]
    refine ⟨⟨by simp, by simp, by simp⟩,
      ⟨farHalf.exclusive, fun off _ => informed off, fun farWaits => ?_⟩⟩
    refine ⟨(farHalf.awaited farWaits).requested_tail, ?_, by simp [Exchange.swap],
      by simp [Exchange.swap]⟩
    intro nothing _
    have nothing' : rest = [] := nothing
    simpa [Exchange.swap, nothing'] using informed (farOff farWaits)
  · have idle : near.waiting = false := by simpa using waits
    by_cases refuses : c.near = false
    · simp only [answer, idle, refuses, Bool.false_eq_true, if_false, Bool.not_false,
        if_true, Option.toList_some]
      refine ⟨⟨nearHalf.exclusive, by simp, by simp [idle]⟩,
        ⟨farHalf.exclusive, fun off nearOn => ?_, fun farWaits => ?_⟩⟩
      · exact (told nearOn off).imp id (mem_append_left _)
      · refine ⟨(farHalf.awaited farWaits).requested_tail, fun nothing nearOn => ?_,
          by simp [Exchange.swap], by simp [Exchange.swap, idle]⟩
        exact mem_append_left _ (toldLast nearOn farWaits nothing)
    · have accepts : c.near = true := by simpa using refuses
      by_cases nearOn : near.on = true
      · simp only [answer, idle, accepts, nearOn, Bool.false_eq_true, if_false,
          Bool.not_true, if_true, Option.toList_none, append_nil]
        refine ⟨⟨nearHalf.exclusive, by simp [nearOn], by simp [idle]⟩,
          ⟨farHalf.exclusive, fun off _ => told nearOn off, fun farWaits => ?_⟩⟩
        exact ⟨(farHalf.awaited farWaits).requested_tail,
          fun nothing _ => toldLast nearOn farWaits nothing, by simp [Exchange.swap, nearOn],
          by simp [Exchange.swap, idle]⟩
      · simp only [answer, idle, accepts, nearOn, Bool.false_eq_true, if_false,
          Bool.not_true, Option.toList_some]
        refine ⟨⟨by simp, by simp, by simp⟩,
          ⟨farHalf.exclusive, by simp [Exchange.swap], fun farWaits => ?_⟩⟩
        exact ⟨(farHalf.awaited farWaits).requested_tail, by simp [Exchange.swap],
          by simp [Exchange.swap], by simp [Exchange.swap]⟩

theorem Consistent.deliverNear_off (consistent : Consistent ⟨near, far, false :: rest, toFar⟩) :
    Consistent ⟨(near.answer c.near false).1, far, rest,
      toFar ++ (near.answer c.near false).2.toList⟩ := by
  obtain ⟨nearHalf, farHalf⟩ := consistent
  have farAwaited : ∀ {received : List Bool} {peer : Endpoint}, far.waiting = true →
      Awaited rest received peer := by
    intro _ _ farWaits
    have awaited := farHalf.awaited farWaits
    have more := awaited.more_after_off
    exact ⟨awaited.requested_tail, fun nothing => absurd nothing more,
      fun nothing => absurd nothing more, fun nothing => absurd nothing more⟩
  by_cases nearOn : near.on = true
  · have idle := nearHalf.exclusive nearOn
    simp only [answer, nearOn, if_true, Option.toList_some]
    exact ⟨⟨by simp, by simp, by simp [show near.waiting = false from idle]⟩,
      ⟨farHalf.exclusive, by simp [Exchange.swap], fun farWaits => farAwaited farWaits⟩⟩
  · have nearOff : near.on = false := by simpa using nearOn
    simp only [answer, nearOff, Bool.false_eq_true, if_false, Option.toList_none, append_nil]
    refine ⟨⟨by simp, fun _ farOn => ?_, by simp⟩,
      ⟨farHalf.exclusive, by simp [Exchange.swap], fun farWaits => farAwaited farWaits⟩⟩
    simpa using nearHalf.switchedOff nearOff farOn

variable (consistent : Consistent x)

include consistent

theorem Consistent.swap : Consistent x.swap :=
  ⟨consistent.farHalf, consistent.nearHalf⟩

theorem Consistent.agree (nothingToNear : x.toNear = []) (nothingToFar : x.toFar = []) :
    x.near.on = x.far.on ∧ x.near.waiting = false ∧ x.far.waiting = false := by
  have notWaiting : ∀ {y : Exchange}, HalfConsistent y → y.toNear = [] → y.toFar = [] →
      y.near.waiting = false := by
    intro y half noneToNear noneToFar
    by_contra waits
    have awaited := half.awaited (by simpa using waits)
    rw [noneToNear] at awaited
    cases peerOn : y.far.on with
    | true => simpa using awaited.accepted noneToFar peerOn
    | false =>
      cases peerWaits : y.far.waiting with
      | true => simpa using awaited.retried noneToFar peerWaits
      | false => simpa using awaited.refused noneToFar peerOn peerWaits
  refine ⟨?_, notWaiting consistent.nearHalf nothingToNear nothingToFar,
    notWaiting consistent.farHalf nothingToFar nothingToNear⟩
  cases nearOn : x.near.on with
  | true =>
    cases farOn : x.far.on with
    | true => rfl
    | false =>
      have pendingSignal := consistent.farHalf.switchedOff farOn nearOn
      simp [Exchange.swap, nothingToNear, nothingToFar] at pendingSignal
  | false =>
    cases farOn : x.far.on with
    | false => rfl
    | true =>
      have pendingSignal := consistent.nearHalf.switchedOff nearOn farOn
      simp [nothingToNear, nothingToFar] at pendingSignal

theorem Consistent.askNear (signal : Bool) : Consistent (x.askNear signal) := by
  obtain ⟨⟨on, waiting⟩, far, toNear, toFar⟩ := x
  obtain ⟨nearHalf, farHalf⟩ := consistent
  cases signal with
  | true =>
    by_cases silent : (on || waiting) = true
    · simpa [Exchange.askNear, ask, silent] using Consistent.mk nearHalf farHalf
    · obtain ⟨rfl, rfl⟩ : on = false ∧ waiting = false := by simpa using silent
      have moved : Exchange.askNear ⟨⟨false, false⟩, far, toNear, toFar⟩ true =
          ⟨⟨false, true⟩, far, toNear, toFar ++ [true]⟩ := rfl
      rw [moved]
      refine ⟨⟨by simp, fun _ farOn => ?_, fun _ => ⟨by simp, by simp, by simp, by simp⟩⟩,
        ⟨farHalf.exclusive, by simp [Exchange.swap], fun farWaits => ?_⟩⟩
      · exact (nearHalf.switchedOff rfl farOn).imp (mem_append_left _) id
      · have awaited := farHalf.awaited farWaits
        refine ⟨awaited.requested, by simp [Exchange.swap], by simp [Exchange.swap], ?_⟩
        intro taken _
        obtain ⟨earlier, ends⟩ := awaited.refused taken rfl rfl
        exact ⟨earlier, by simp [Exchange.swap] at ends ⊢; simp [← ends]⟩
  | false =>
    by_cases silent : (!on && !waiting) = true
    · simpa [Exchange.askNear, ask, silent] using Consistent.mk nearHalf farHalf
    · have moved : Exchange.askNear ⟨⟨on, waiting⟩, far, toNear, toFar⟩ false =
          ⟨⟨false, false⟩, far, toNear, toFar ++ [false]⟩ := by
        simp [Exchange.askNear, ask, silent]
      rw [moved]
      refine ⟨⟨by simp, by simp, by simp⟩,
        ⟨farHalf.exclusive, by simp [Exchange.swap], fun farWaits => ?_⟩⟩
      have awaited := farHalf.awaited farWaits
      exact ⟨awaited.requested, by simp [Exchange.swap], by simp [Exchange.swap],
        by simp [Exchange.swap]⟩

theorem Consistent.deliverNear (delivered : x.deliverNear c = some y) : Consistent y := by
  obtain ⟨_, _, toNear, _⟩ := x
  cases toNear with
  | nil => simp [Exchange.deliverNear] at delivered
  | cons signal =>
    simp only [Exchange.deliverNear, Option.some.injEq] at delivered
    subst delivered
    cases signal with
    | true => exact consistent.deliverNear_on
    | false => exact consistent.deliverNear_off

theorem Consistent.askFar (signal : Bool) : Consistent (x.askFar signal) :=
  (consistent.swap.askNear signal).swap

theorem Consistent.deliverFar (delivered : x.deliverFar c = some y) : Consistent y := by
  obtain ⟨_, moved, rfl⟩ := Option.map_eq_some_iff.mp delivered
  exact (consistent.swap.deliverNear moved).swap

end Coroserver.Handshake
