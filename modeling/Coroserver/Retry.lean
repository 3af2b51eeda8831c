import Mathlib.Data.List.Basic

/-! A loop that makes attempts until one of them ends it or their number is used
up. Every attempt that is made leaves a record. -/

namespace Coroserver.Retry

inductive Verdict (Error Result : Type) where
  | again (error : Error)
  | stop (result : Result)

variable {Error Result Record : Type}

/-- The loop from one attempt on, with the error of the attempt before it. -/
def loop (attempt : Nat → Verdict Error Result × Record) :
    (remaining number : Nat) → Option Error → Except (Option Error) Result × List Record
  | 0, _, lastError => (.error lastError, [])
  | remaining + 1, number, _ =>
    match attempt number with
    | (.stop result, record) => (.ok result, [record])
    | (.again error, record) =>
      let (outcome, records) := loop attempt remaining (number + 1) (some error)
      (outcome, record :: records)

def run (attempt : Nat → Verdict Error Result × Record) (limit : Nat) :
    Except (Option Error) Result × List Record :=
  loop attempt limit 0 none

variable {attempt : Nat → Verdict Error Result × Record}

variable {number : Nat}

theorem loop_of_again {error : Error} (asks : (attempt number).1 = .again error) (remaining : Nat)
    (lastError : Option Error) :
    loop attempt (remaining + 1) number lastError =
      ((loop attempt remaining (number + 1) (some error)).1,
        (attempt number).2 :: (loop attempt remaining (number + 1) (some error)).2) := by
  rw [loop]
  split
  · rename_i ends
    rw [ends] at asks
    cases asks
  · rename_i ends
    rw [ends] at asks ⊢
    cases asks
    rfl

theorem loop_of_stop {result : Result} (stops : (attempt number).1 = .stop result) (remaining : Nat)
    (lastError : Option Error) :
    loop attempt (remaining + 1) number lastError = (.ok result, [(attempt number).2]) := by
  rw [loop]
  split
  · rename_i ends
    rw [ends] at stops ⊢
    cases stops
    rfl
  · rename_i ends
    rw [ends] at stops
    cases stops

theorem loop_records (attempt : Nat → Verdict Error Result × Record) (remaining number : Nat)
    (lastError : Option Error) :
    (loop attempt remaining number lastError).2.length ≤ remaining ∧
      ∀ index record, (loop attempt remaining number lastError).2[index]? = some record →
        record = (attempt (number + index)).2 := by
  induction remaining generalizing number lastError with
  | zero => exact ⟨Nat.le_refl 0, fun index record found => by cases found⟩
  | succ _ ih =>
    cases verdict : (attempt number).1 with
    | stop =>
      rw [loop_of_stop verdict]
      refine ⟨by simp, fun index record found => ?_⟩
      cases index with
      | zero => exact (Option.some.inj found).symm
      | succ => cases found
    | again error =>
      obtain ⟨bounded, kept⟩ := ih (number + 1) (some error)
      rw [loop_of_again verdict]
      refine ⟨Nat.succ_le_succ bounded, fun index record found => ?_⟩
      cases index with
      | zero => exact (Option.some.inj found).symm
      | succ index =>
        rw [kept index record found]
        congr 2
        omega

theorem loop_after_again {count : Nat}
    (before : ∀ earlier < count, ∃ error, (attempt (number + earlier)).1 = .again error)
    (remaining : Nat) (lastError : Option Error) :
    ∃ carried,
      (loop attempt (count + remaining) number lastError).1 =
        (loop attempt remaining (number + count) carried).1 ∧
      (loop attempt (count + remaining) number lastError).2.length =
        count + (loop attempt remaining (number + count) carried).2.length := by
  induction count generalizing number lastError with
  | zero => exact ⟨lastError, by simp⟩
  | succ count ih =>
    obtain ⟨error, asks⟩ := before 0 (Nat.succ_pos count)
    have shift : ∀ offset, number + (offset + 1) = number + 1 + offset := by omega
    obtain ⟨carried, ends, made⟩ := ih (fun earlier below =>
      shift earlier ▸ before (earlier + 1) (Nat.succ_lt_succ below)) (some error)
    refine ⟨carried, ?_⟩
    rw [Nat.add_zero] at asks
    rw [Nat.add_right_comm, loop_of_again asks, shift count]
    refine ⟨ends, ?_⟩
    rw [List.length_cons, made]
    omega

theorem run_of_first_stop {index limit : Nat} {result : Result} (within : index < limit)
    (before : ∀ earlier < index, ∃ error, (attempt earlier).1 = .again error)
    (stops : (attempt index).1 = .stop result) :
    (run attempt limit).1 = .ok result ∧ (run attempt limit).2.length = index + 1 := by
  obtain ⟨remaining, rfl⟩ := Nat.exists_eq_add_of_lt within
  have again : ∀ earlier < index, ∃ error, (attempt (0 + earlier)).1 = .again error := by
    simpa using before
  obtain ⟨_, ends, made⟩ := loop_after_again again (remaining + 1) none
  rw [Nat.zero_add, loop_of_stop stops] at ends made
  exact ⟨ends, made⟩

theorem run_of_all_again {last : Nat} {error : Error}
    (before : ∀ earlier < last, ∃ error, (attempt earlier).1 = .again error)
    (asks : (attempt last).1 = .again error) :
    (run attempt (last + 1)).1 = .error (some error) ∧
      (run attempt (last + 1)).2.length = last + 1 := by
  have again : ∀ earlier < last, ∃ error, (attempt (0 + earlier)).1 = .again error := by
    simpa using before
  obtain ⟨_, ends, made⟩ := loop_after_again again 1 none
  rw [Nat.zero_add, loop_of_again asks] at ends made
  exact ⟨ends, made⟩

theorem run_records (attempt : Nat → Verdict Error Result × Record) (limit : Nat) :
    (run attempt limit).2.length ≤ limit ∧
      ∀ index record, (run attempt limit).2[index]? = some record → record = (attempt index).2 := by
  obtain ⟨bounded, kept⟩ := loop_records attempt limit 0 none
  refine ⟨bounded, fun index record found => ?_⟩
  rw [kept index record found, Nat.zero_add]

end Coroserver.Retry
