import Coroserver.Event.EventQueue

/-! The id of an event is the time of its creation in microseconds. `resendEvent`
takes the difference of two such readings for milliseconds, so that an event
lives 61 milliseconds and not 61 seconds. The difference is unsigned and
becomes signed in the conversion. -/

namespace Coroserver.Event

/-- More than `TIMETOLIVE` whole seconds have passed since the event was made. -/
def Expired (now id : UInt64) : Prop :=
  id ≤ now ∧ timeToLive < ((now.toNat - id.toNat) / 1000000 : Nat)

def elapsed (now id : UInt64) : Int := (now.toNat : Int) - (id.toNat : Int)

theorem expired_iff (now id : UInt64) : Expired now id ↔ 61000000 ≤ elapsed now id := by
  unfold Expired timeToLive elapsed
  rw [UInt64.le_iff_toNat_le]
  omega

theorem toInt_sub (now id : UInt64) :
    (Int64.minValue.toInt ≤ elapsed now id ∧ elapsed now id ≤ Int64.maxValue.toInt ∧
        (now - id).toInt64.toInt = elapsed now id) ∨ (elapsed now id < Int64.minValue.toInt ∧
        (now - id).toInt64.toInt = elapsed now id + UInt64.size) ∨
      (Int64.maxValue.toInt < elapsed now id ∧
        (now - id).toInt64.toInt = elapsed now id - UInt64.size) := by
  have signed : (now - id).toInt64.toInt = (now - id).toBitVec.toInt := rfl
  have unsigned : (now - id).toBitVec.toNat = (now - id).toNat := rfl
  have nowBound := now.toNat_lt
  have idBound := id.toNat_lt
  rw [signed, BitVec.toInt_eq_toNat_cond, unsigned, UInt64.toNat_sub]
  simp only [elapsed, UInt64.size, Int64.toInt_minValue, Int64.toInt_maxValue]
  split <;> omega

theorem timeToLive_lt_tdiv_iff (difference : Int) :
    timeToLive < difference.tdiv 1000 ↔ 61000 ≤ difference := by
  have positive : Int.sign 1000 = 1 := rfl
  rw [Int.tdiv_eq_ediv, positive, timeToLive]
  split <;> omega

/-- Readings for which seconds and milliseconds lead to the same decision. -/
def UnitsAgree (now id : UInt64) : Prop :=
  (Int64.minValue.toInt ≤ elapsed now id ∧ elapsed now id < 61000) ∨
    (61000000 ≤ elapsed now id ∧ elapsed now id ≤ Int64.maxValue.toInt) ∨
    elapsed now id + UInt64.size < 61000

theorem unitsAgree_iff (now id : UInt64) :
    UnitsAgree now id ↔ (timeToLive < timeDiff now id ↔ Expired now id) := by
  rw [timeDiff, timeToLive_lt_tdiv_iff, expired_iff, UnitsAgree]
  have bound : elapsed now id < UInt64.size := by
    have nowBound := now.toNat_lt
    simp only [elapsed, UInt64.size]
    omega
  simp only [Int64.toInt_minValue, Int64.toInt_maxValue, UInt64.size] at bound ⊢
  rcases toInt_sub now id with ⟨low, high, signed⟩ | ⟨low, signed⟩ | ⟨high, signed⟩
  · simp only [Int64.toInt_minValue, Int64.toInt_maxValue] at low high
    rw [signed]
    omega
  · simp only [Int64.toInt_minValue, UInt64.size] at low signed
    rw [signed]
    omega
  · simp only [Int64.toInt_maxValue, UInt64.size] at high signed
    rw [signed]
    omega

namespace EventQueue

def Drops (queue next : EventQueue) (id : UInt64) : Prop :=
  next.events.lookup id = none ∧ next.taskQueue = queue.taskQueue

def Requeues (queue next : EventQueue) (id : UInt64) (provider : String) (origin : Nat) : Prop :=
  ∃ event, next.events.lookup id = some event ∧
    next.taskQueue =
      queue.taskQueue.addTask { call := .sendEventHandler id provider event origin } true

variable (queue : EventQueue) (id : UInt64) (provider : String) (origin : Nat) (now : UInt64)

theorem drops_resendEvent_iff :
    queue.Drops (queue.resendEvent id provider origin now) id ↔
      timeToLive < timeDiff now id := by
  unfold resendEvent
  simp only [gt_iff_lt]
  split
  · rename_i late
    refine iff_of_true ⟨?_, rfl⟩ late
    simp [removeEvent]
  · rename_i inTime
    refine iff_of_false ?_ inTime
    rintro ⟨forgotten, -⟩
    simp [addTask] at forgotten

private theorem requeues_resendEvent_iff :
    queue.Requeues (queue.resendEvent id provider origin now) id provider origin ↔
      ¬timeToLive < timeDiff now id := by
  unfold resendEvent
  simp only [gt_iff_lt]
  split
  · rename_i late
    refine iff_of_false ?_ (not_not_intro late)
    rintro ⟨event, kept, -⟩
    simp [removeEvent] at kept
  · rename_i inTime
    refine iff_of_true ⟨(queue.events.lookup id).getD "", ?_, rfl⟩ inTime
    simp [addTask]

/-- Exactly the events older than a minute are dropped if and only if no age is
between 61 milliseconds and 61 seconds and no difference of the clock readings wraps
around. -/
theorem time_to_live_iff :
    ((queue.Drops (queue.resendEvent id provider origin now) id ↔ Expired now id) ∧
      (queue.Requeues (queue.resendEvent id provider origin now) id provider origin ↔
        ¬Expired now id)) ↔ UnitsAgree now id := by
  rw [drops_resendEvent_iff, requeues_resendEvent_iff, unitsAgree_iff, not_iff_not, and_self]

theorem event_dropped_early :
    ∃ queue : EventQueue, queue = (create ⟨"", ""⟩ 1).addEvent "Fan:1" 5000000 ∧
      queue.Drops (queue.resendEvent 5000000 "default" 0 5061000) 5000000 ∧
      ¬Expired 5061000 5000000 := by
  refine ⟨_, rfl, (drops_resendEvent_iff _ _ _ _ _).mpr (by decide), ?_⟩
  rw [expired_iff]
  decide

end EventQueue

end Coroserver.Event
