import Coroserver.ConnectionPool.Lease
import Coroserver.Tally
import Mathlib.Data.Bool.Basic

/-! Whatever the holders do with their lease objects, an issued lease is either
held by exactly one object and not given back, or given back once and held by
none. -/

namespace Coroserver.ConnectionPool

open PooledConnection List Tally Option

namespace LeaseTable

def count (test : PooledConnection → Bool) (table : LeaseTable) : Nat :=
  table.objects.countP fun object => object.any test

def holders (token : Nat) : LeaseTable → Nat :=
  count fun lease => lease.pool && lease.token == token

def holding (client : Nat) : LeaseTable → Nat :=
  count fun lease => lease.client == some client

def usable (client : Nat) : LeaseTable → Nat :=
  count fun lease => lease.valid && lease.client == some client

def spoiled (client : Nat) : LeaseTable → Nat :=
  count fun lease => !lease.valid && lease.client == some client

def epoch? (table : LeaseTable) (token : Nat) : Option Nat :=
  table.ledger[token]?.map LeaseRecord.epoch

def outstanding (table : LeaseTable) (test : EndpointKey → Nat → Bool) : Nat :=
  table.ledger.countP fun record => record.givenBack == 0 && test record.key record.epoch

variable {table next : LeaseTable} {lease : PooledConnection} {old new : Option PooledConnection}
  {given : Option GiveBack} {client : Nat}

theorem count_pos {test : PooledConnection → Bool} (present : some lease ∈ table.objects)
    (passes : test lease = true) : 0 < table.count test :=
  countP_pos_iff.mpr ⟨some lease, present, passes⟩

theorem holding_eq (client : Nat) (table : LeaseTable) :
    table.holding client = table.usable client + table.spoiled client := by
  simp only [holding, usable, spoiled, count]
  induction table.objects with
  | nil => rfl
  | cons object rest ih =>
    simp only [countP_cons, ih]
    cases object with
    | none => simp
    | some lease =>
      cases valid : lease.valid <;> simp [valid] <;> omega

def Inert (object : Option PooledConnection) : Prop :=
  ∀ lease, object = some lease → lease.pool = false ∧ lease.client = none

structure Replaced (table next : LeaseTable) (old new : Option PooledConnection) : Prop where
  present : ∀ lease, old = some lease → some lease ∈ table.objects
  counts : ∀ test : PooledConnection → Bool,
    next.count test + (old.any test).toNat = table.count test + (new.any test).toNat

/-! ## Effects -/

inductive Effect (table next : LeaseTable) : Option GiveBack → Prop where
  | idle {old new : Option PooledConnection} (replaced : Replaced table next old new)
      (oldInert : Inert old) (newInert : Inert new) (ledger : next.ledger = table.ledger)
      (retired : next.retired = table.retired) : Effect table next none
  | marked {lease : PooledConnection}
      (replaced : Replaced table next (some lease) (some lease.markInvalid))
      (ledger : next.ledger = table.ledger)
      (retired : next.retired = table.retired ++ lease.client.toList) : Effect table next none
  | given {lease : PooledConnection} {new : Option PooledConnection} {giveBack : GiveBack}
      (replaced : Replaced table next (some lease) new) (holds : lease.pool = true)
      (newInert : Inert new) (ledger : next.ledger = (table.recordGiveBack giveBack).ledger)
      (key : giveBack.key = lease.key) (token : giveBack.token = lease.token)
      (client : giveBack.client = lease.client ∧ giveBack.valid = lease.valid ∧
          next.retired = table.retired ∨
        giveBack.valid = false ∧ next.retired = table.retired ++ lease.client.toList) :
      Effect table next (some giveBack)

variable {object : Nat} {giveBack : GiveBack}

theorem object?_eq_some :
    table.object? object = some lease ↔ table.objects[object]? = some (some lease) := by
  simp [object?, join_eq_some_iff]

theorem replaced_place (found : table.object? object = some lease) (new : Option PooledConnection) :
    Replaced table (table.place object new) (some lease) new where
  present := by
    rintro _ ⟨⟩
    exact mem_of_getElem? (object?_eq_some.mp found)
  counts := fun _ => countP_set _ (object?_eq_some.mp found) new

theorem recordGiveBack_objects (table : LeaseTable) (given : Option GiveBack) :
    (table.recordGiveBack given).objects = table.objects := by
  cases given with
  | none => rfl
  | some giveBack =>
    cases found : table.ledger[giveBack.token]? <;> simp [recordGiveBack, found]

theorem recordGiveBack_retired (table : LeaseTable) (given : Option GiveBack) :
    (table.recordGiveBack given).retired = table.retired := by
  cases given with
  | none => rfl
  | some giveBack =>
    cases found : table.ledger[giveBack.token]? <;> simp [recordGiveBack, found]

theorem recordGiveBack_ledger (same : next.ledger = table.ledger) (given : Option GiveBack) :
    (next.recordGiveBack given).ledger = (table.recordGiveBack given).ledger := by
  cases given with
  | none => exact same
  | some giveBack =>
    cases found : table.ledger[giveBack.token]? <;> simp [recordGiveBack, same, found]

theorem Replaced.recordGiveBack (replaced : Replaced table next old new) (given : Option GiveBack) :
    Replaced table (next.recordGiveBack given) old new where
  present := replaced.present
  counts := by
    intro test
    simp only [count, recordGiveBack_objects]
    exact replaced.counts test

def Paired (table : LeaseTable) : Prop :=
  ∀ lease, some lease ∈ table.objects → lease.pool = lease.client.isSome

theorem effect_release (paired : table.Paired) (replaced : Replaced table next (some lease) new)
    (newInert : Inert new) (ledger : next.ledger = table.ledger)
    (retired : next.retired = table.retired) :
    Effect table (next.recordGiveBack lease.release.2) lease.release.2 := by
  have owns := paired lease (replaced.present lease rfl)
  cases holds : lease.pool with
  | true =>
    have released : lease.release.2 = some ⟨lease.key, lease.client, lease.valid, lease.token⟩ := by
      simp [release, holds, ← owns]
    rw [released]
    exact .given (replaced.recordGiveBack _) holds newInert (recordGiveBack_ledger ledger _)
      rfl rfl (.inl ⟨rfl, rfl, (recordGiveBack_retired _ _).trans retired⟩)
  | false =>
    have released : lease.release.2 = none := by simp [release, holds]
    have empty : lease.client = none := by simpa [holds] using owns
    rw [released]
    refine .idle replaced ?_ newInert ledger retired
    rintro _ ⟨⟩
    exact ⟨holds, empty⟩

theorem effect_releaseClient (paired : table.Paired)
    (replaced : Replaced table next (some lease) (some lease.releaseClient.1))
    (ledger : next.ledger = table.ledger)
    (retired : next.retired = table.retired ++ lease.client.toList) :
    Effect table (next.recordGiveBack lease.releaseClient.2) lease.releaseClient.2 := by
  have owns := paired lease (replaced.present lease rfl)
  have newInert : Inert (some lease.releaseClient.1) := by
    rintro _ ⟨⟩
    exact ⟨rfl, rfl⟩
  cases holds : lease.pool with
  | true =>
    have released : lease.releaseClient.2 = some ⟨lease.key, none, false, lease.token⟩ := by
      simp [releaseClient, holds]
    rw [released]
    exact .given (replaced.recordGiveBack _) holds newInert (recordGiveBack_ledger ledger _)
      rfl rfl (.inr ⟨rfl, (recordGiveBack_retired _ _).trans retired⟩)
  | false =>
    have released : lease.releaseClient.2 = none := by
      simp [releaseClient, holds]
    have empty : lease.client = none := by simpa [holds] using owns
    rw [released]
    rw [empty, toList_none, append_nil] at retired
    refine .idle replaced ?_ newInert ledger retired
    rintro _ ⟨⟩
    exact ⟨holds, empty⟩

theorem inert_movedFrom (lease : PooledConnection) : Inert (some lease.movedFrom) := by
  rintro _ ⟨⟩
  exact ⟨rfl, rfl⟩

theorem Replaced.trans {middle : LeaseTable} {moved : PooledConnection}
    (first : Replaced table middle old (some moved))
    (second : Replaced middle next (some moved) new) :
    Replaced table next old new where
  present := first.present
  counts := by
    intro test
    have firstCount := first.counts test
    have secondCount := second.counts test
    omega

theorem apply_effect {op : LeaseOp} (paired : table.Paired)
    (applied : table.apply op = some (next, given)) : Effect table next given := by
  have nothing : Inert none := by rintro _ ⟨⟩
  revert applied
  fun_cases LeaseTable.apply table op with
  | case1 =>
    rintro ⟨⟩
    have replaced : Replaced table { table with objects := table.objects ++ [some {}] } none
        (some {}) := ⟨by simp, fun _ => countP_add _ _⟩
    refine .idle replaced nothing ?_ rfl rfl
    rintro _ ⟨⟩
    exact ⟨rfl, rfl⟩
  | case3 source other found =>
    rintro ⟨⟩
    have replaced : Replaced table { table with
        objects := table.objects.set source (some other.movedFrom) ++ [some other] } none
        (some other.movedFrom) := by
      refine ⟨by simp, fun test => ?_⟩
      have emptied := (replaced_place found (some other.movedFrom)).counts test
      simp only [count, place, countP_add] at emptied ⊢
      simpa using emptied
    exact .idle replaced nothing (inert_movedFrom other) rfl rfl
  | case4 =>
    rintro ⟨⟩
    exact .idle ⟨by simp, fun _ => rfl⟩ nothing nothing rfl rfl
  | case5 target source lease other foundSource foundTarget different assigned left given assign =>
    rintro ⟨⟩
    cases assign
    have stillThere : (table.place target (some other)).object? source = some other := by
      rw [object?_eq_some] at foundSource ⊢
      simpa [place, getElem?_set_ne different] using foundSource
    have replaced := (replaced_place foundTarget (some other)).trans
      (replaced_place stillThere (some other.movedFrom))
    exact effect_release paired replaced (inert_movedFrom other) rfl rfl
  | case8 object lease found =>
    rintro ⟨⟩
    have replaced := replaced_place found (some lease.markInvalid)
    exact .marked ⟨replaced.present, replaced.counts⟩ rfl rfl
  | case10 object lease found released given release =>
    rintro ⟨⟩
    obtain rfl : lease.release.1 = released := congrArg Prod.fst release
    obtain rfl : lease.release.2 = given := congrArg Prod.snd release
    clear release
    refine effect_release paired (replaced_place found _) ?_ rfl rfl
    have owns := paired lease (mem_of_getElem? (object?_eq_some.mp found))
    rintro _ ⟨⟩
    cases holds : lease.pool <;> simp_all [release]
  | case12 object lease found released given release =>
    rintro ⟨⟩
    cases release
    have replaced := replaced_place found (some lease.releaseClient.1)
    have retiring : Replaced table
        ((table.place object (some lease.releaseClient.1)).retire lease.client)
        (some lease) (some lease.releaseClient.1) := ⟨replaced.present, replaced.counts⟩
    exact effect_releaseClient paired retiring rfl rfl
  | case14 object lease found =>
    rintro ⟨⟩
    exact effect_release paired (replaced_place found none) nothing rfl rfl
  | _ => rintro ⟨⟩

/-! ## Soundness -/

structure Sound (table : LeaseTable) : Prop where
  paired : table.Paired
  recorded : ∀ lease, some lease ∈ table.objects → lease.pool = true →
    ∃ record, table.ledger[lease.token]? = some record ∧ record.key = lease.key
  conserved : ∀ token record, table.ledger[token]? = some record →
    record.givenBack + table.holders token = 1

theorem sound_empty : Sound {} where
  paired := by simp [Paired]
  recorded := by simp
  conserved := by simp

theorem Replaced.mem (replaced : Replaced table next old new)
    (present : some lease ∈ next.objects) : some lease ∈ table.objects ∨ new = some lease := by
  by_contra outside
  push Not at outside
  obtain ⟨absent, _⟩ := outside
  have counted := replaced.counts fun candidate => candidate == lease
  have positive : 0 < next.count fun candidate => candidate == lease := count_pos present (by simp)
  have noneBefore : (table.count fun candidate => candidate == lease) = 0 := by
    apply countP_eq_zero.mpr
    rintro (_ | candidate) found
    · simp
    · have other : candidate ≠ lease := fun same => absent (same ▸ found)
      simpa using other
  have notNew : (new.any fun candidate => candidate == lease) = false := by
    cases new <;> simp_all
  rw [noneBefore, notNew] at counted
  simp only [Bool.toNat_false] at counted
  omega

theorem Inert.any_pool {object : Option PooledConnection} (inert : Inert object) (token : Nat) :
    (object.any fun lease => lease.pool && lease.token == token) = false := by
  cases object with
  | none => rfl
  | some lease => simp [(inert lease rfl).1]

theorem Inert.any_client {object : Option PooledConnection} (inert : Inert object)
    (client : Nat) (test : PooledConnection → Bool) :
    (object.any fun lease => test lease && lease.client == some client) = false := by
  cases object with
  | none => rfl
  | some lease => simp [(inert lease rfl).2]

theorem Sound.ledger_given (sound : table.Sound) (present : some lease ∈ table.objects)
    (holds : lease.pool = true) (token : giveBack.token = lease.token)
    (ledger : next.ledger = (table.recordGiveBack giveBack).ledger) :
    ∃ record, table.ledger[lease.token]? = some record ∧ record.key = lease.key ∧
      record.givenBack = 0 ∧
      next.ledger = table.ledger.set lease.token { record with givenBack := 1 } := by
  obtain ⟨record, found, sameKey⟩ := sound.recorded lease present holds
  have once := sound.conserved lease.token record found
  have held : 0 < table.holders lease.token := count_pos present (by simp [holds])
  have notYet : record.givenBack = 0 := by omega
  refine ⟨record, found, sameKey, notYet, ?_⟩
  simp [ledger, recordGiveBack, token, found, notYet]

theorem Sound.effect (sound : table.Sound) (effect : Effect table next given) : next.Sound := by
  cases effect with
  | idle replaced oldInert newInert ledger =>
    refine ⟨fun lease present => ?_, fun lease present holds => ?_, fun token record found => ?_⟩
    · rcases replaced.mem present with earlier | isNew
      · exact sound.paired lease earlier
      · simp [newInert lease isNew]
    · rcases replaced.mem present with earlier | isNew
      · rw [ledger]
        exact sound.recorded lease earlier holds
      · simp [(newInert lease isNew).1] at holds
    · rw [ledger] at found
      have counted := replaced.counts fun lease => lease.pool && lease.token == token
      rw [oldInert.any_pool, newInert.any_pool] at counted
      have once := sound.conserved token record found
      simp only [holders] at once ⊢
      omega
  | @marked lease replaced ledger =>
    have before := replaced.present lease rfl
    refine ⟨fun other present => ?_, fun other present holds => ?_, fun token record found => ?_⟩
    · rcases replaced.mem present with earlier | isNew
      · exact sound.paired other earlier
      · obtain rfl := some.inj isNew
        exact sound.paired lease before
    · rw [ledger]
      rcases replaced.mem present with earlier | isNew
      · exact sound.recorded other earlier holds
      · obtain rfl := some.inj isNew
        exact sound.recorded lease before holds
    · rw [ledger] at found
      have counted := replaced.counts fun lease => lease.pool && lease.token == token
      have once := sound.conserved token record found
      simp only [holders, any_some, markInvalid] at once counted ⊢
      omega
  | @given lease _ _ replaced holds newInert ledger _ token =>
    have before := replaced.present lease rfl
    obtain ⟨record, found, _, _, nextLedger⟩ :=
      sound.ledger_given before holds token ledger
    have bounded := (List.getElem?_eq_some_iff.mp found).1
    refine ⟨fun other present => ?_, fun other present otherHolds => ?_,
      fun otherToken otherRecord otherFound => ?_⟩
    · rcases replaced.mem present with earlier | isNew
      · exact sound.paired other earlier
      · simp [newInert other isNew]
    · rcases replaced.mem present with earlier | isNew
      · obtain ⟨otherRecord, otherFound, otherKey⟩ := sound.recorded other earlier otherHolds
        rw [nextLedger]
        by_cases same : lease.token = other.token
        · rw [same] at found bounded
          obtain rfl := some.inj (found.symm.trans otherFound)
          exact ⟨{ record with givenBack := 1 }, by simp [same, bounded], otherKey⟩
        · exact ⟨otherRecord, by simpa [getElem?_set_ne same] using otherFound, otherKey⟩
      · simp [(newInert other isNew).1] at otherHolds
    · rw [nextLedger] at otherFound
      have counted := replaced.counts fun lease => lease.pool && lease.token == otherToken
      rw [newInert.any_pool] at counted
      simp only [any_some, holds, Bool.true_and, Bool.toNat_false] at counted
      by_cases same : lease.token = otherToken
      · subst same
        have once := sound.conserved lease.token record found
        simp only [getElem?_set_self bounded, some.injEq] at otherFound
        subst otherFound
        simp only [holders, beq_self_eq_true, Bool.toNat_true] at once counted ⊢
        omega
      · rw [getElem?_set_ne same] at otherFound
        have once := sound.conserved otherToken otherRecord otherFound
        have differs : (lease.token == otherToken) = false := by simpa using same
        simp only [holders, differs, Bool.toNat_false] at once counted ⊢
        omega

theorem Sound.issue (sound : table.Sound) (key : EndpointKey) (client : Nat) (epoch : Nat) :
    (table.issue key client epoch).Sound := by
  have fresh : ∀ lease, some lease ∈ table.objects → lease.pool = true →
      lease.token ≠ table.ledger.length := by
    intro lease present holds same
    obtain ⟨_, found, -⟩ := sound.recorded lease present holds
    simp [same] at found
  refine ⟨fun lease present => ?_, fun lease present holds => ?_, fun token record found => ?_⟩
  · rcases mem_append.mp present with earlier | isNew
    · exact sound.paired lease earlier
    · obtain rfl := by simpa using isNew
      rfl
  · rcases mem_append.mp present with earlier | isNew
    · obtain ⟨record, found, sameKey⟩ := sound.recorded lease earlier holds
      exact ⟨record, List.getElem?_append_left (List.getElem?_eq_some_iff.mp found).1 ▸ found,
        sameKey⟩
    · obtain rfl := by simpa using isNew
      exact ⟨{ key, epoch }, by simp [LeaseTable.issue], rfl⟩
  · have counted : (table.issue key client epoch).holders token =
        table.holders token + (table.ledger.length == token).toNat := countP_add _ _
    rw [counted]
    by_cases isNew : table.ledger.length = token
    · subst isNew
      have unheld : table.holders table.ledger.length = 0 := by
        apply countP_eq_zero.mpr
        rintro (_ | lease) present
        · simp
        · have other := fresh lease present
          simpa using other
      have newRecord : ({ key, epoch } : LeaseRecord) = record := by
        simpa [LeaseTable.issue] using found
      simp [unheld, ← newRecord]
    · have earlier : table.ledger[token]? = some record := by
        simp only [LeaseTable.issue, getElem?_append] at found
        split at found
        · exact found
        · rw [getElem?_eq_none] at found
          · simp at found
          · simp only [length_cons, length_nil]
            omega
      have other : (table.ledger.length == token) = false := by simpa using isNew
      simpa [other] using sound.conserved token record earlier

theorem Sound.effect_outstanding (sound : table.Sound) (effect : Effect table next given)
    (test : EndpointKey → Nat → Bool) :
    next.outstanding test + (given.any fun giveBack =>
        (table.epoch? giveBack.token).any (test giveBack.key)).toNat =
      table.outstanding test := by
  cases effect with
  | idle _ _ _ ledger _ | marked _ ledger _ => simp [outstanding, ledger]
  | @given lease _ _ replaced holds _ ledger givenKey token =>
    obtain ⟨record, found, sameKey, notYet, nextLedger⟩ :=
      sound.ledger_given (replaced.present lease rfl) holds token ledger
    have counted := countP_set (fun entry : LeaseRecord =>
      entry.givenBack == 0 && test entry.key entry.epoch) found { record with givenBack := 1 }
    simp only [outstanding, nextLedger, epoch?, token, found, givenKey, any_some,
      map_some]
    simpa [sameKey, notYet] using counted

theorem Sound.effect_epoch (sound : table.Sound) (effect : Effect table next (some giveBack)) :
    ∃ epoch, table.epoch? giveBack.token = some epoch := by
  cases effect with
  | @given lease new _ replaced holds _ ledger _ token _ =>
    obtain ⟨record, found, -⟩ := sound.ledger_given (replaced.present lease rfl) holds token ledger
    exact ⟨record.epoch, by simp [epoch?, token, found]⟩

theorem outstanding_issue (table : LeaseTable) (key : EndpointKey) (client : Nat)
    (epoch : Nat) (test : EndpointKey → Nat → Bool) :
    (table.issue key client epoch).outstanding test =
      table.outstanding test + (test key epoch).toNat := by
  simp only [outstanding, issue, countP_add]
  simp

theorem holding_issue (table : LeaseTable) (key : EndpointKey) (client : Nat) (epoch : Nat)
    (other : Nat) :
    (table.issue key client epoch).holding other =
      table.holding other + (client == other).toNat := by
  simp only [holding, count, issue, countP_add]
  simp

theorem usable_le_holding (client : Nat) (table : LeaseTable) :
    table.usable client ≤ table.holding client := by
  rw [holding_eq]
  omega

def handsOver (given : Option GiveBack) (client : Nat) : Bool :=
  given.any fun giveBack => giveBack.valid && giveBack.client == some client

section

variable (effect : Effect table next given)

include effect

theorem Effect.count_le (client : Nat) (test : PooledConnection → Bool)
    (weaker : ∀ lease, test lease.markInvalid = true → test lease = true)
    (counts : ∀ lease, lease.valid = true → test lease = true) :
    (next.count fun lease => test lease && lease.client == some client) +
        (handsOver given client).toNat ≤
      table.count fun lease => test lease && lease.client == some client := by
  cases effect with
  | idle replaced oldInert newInert =>
    have counted := replaced.counts fun lease => test lease && lease.client == some client
    rw [oldInert.any_client, newInert.any_client] at counted
    exact Nat.le_of_eq counted
  | @marked lease replaced _ _ =>
    have counted := replaced.counts fun lease => test lease && lease.client == some client
    have kept := weaker lease
    simp only [any_some, markInvalid] at counted kept
    have fewer : (test { lease with valid := false } && lease.client == some client).toNat ≤
        (test lease && lease.client == some client).toNat :=
      Bool.toNat_le_toNat fun selected => by
        rw [Bool.and_eq_true] at selected ⊢
        exact ⟨kept selected.1, selected.2⟩
    simp only [handsOver, any_none, Bool.toNat_false]
    omega
  | @given lease new giveBack replaced _ newInert _ _ _ disposal =>
    have counted := replaced.counts fun lease => test lease && lease.client == some client
    rw [newInert.any_client] at counted
    have handed : handsOver (some giveBack) client = true →
        (test lease && lease.client == some client) = true := by
      rcases disposal with ⟨sameClient, sameValid, -⟩ | ⟨invalid, -⟩
      · simpa [handsOver, sameClient, sameValid] using
          fun valid owns => ⟨counts lease valid, owns⟩
      · simp [handsOver, invalid]
    have fewer := Bool.toNat_le_toNat handed
    simp only [any_some, Bool.toNat_false] at counted
    omega

theorem Effect.holding_le (client : Nat) :
    next.holding client + (handsOver given client).toNat ≤ table.holding client := by
  simpa [holding] using effect.count_le client (fun _ => true) (fun _ => id) fun _ _ => rfl

theorem Effect.usable_le (client : Nat) :
    next.usable client + (handsOver given client).toNat ≤ table.usable client :=
  effect.count_le client valid (by simp [markInvalid]) fun _ => id

theorem Effect.retired_cases (isRetired : client ∈ next.retired)
    (unique : table.holding client ≤ 1) :
    client ∈ table.retired ∨
      0 < table.holding client ∧ next.usable client = 0 ∧ handsOver given client = false := by
  have owned : ∀ {lease : PooledConnection}, some lease ∈ table.objects →
      lease.client = some client → 0 < table.holding client := by
    intro lease present owns
    exact count_pos present (by simp [owns])
  cases effect with
  | idle _ _ _ _ retired => exact .inl (retired ▸ isRetired)
  | @marked lease replaced _ retired =>
    rw [retired, mem_append, mem_toList] at isRetired
    rcases isRetired with earlier | owns
    · exact .inl earlier
    · refine .inr ⟨owned (replaced.present lease rfl) owns, ?_, rfl⟩
      have sameHolding : next.holding client = table.holding client := by
        have counted := replaced.counts fun candidate => candidate.client == some client
        simpa [holding, markInvalid] using counted
      have spoils : 0 < next.spoiled client := by
        have counted := replaced.counts fun candidate =>
          !candidate.valid && candidate.client == some client
        simp only [any_some, markInvalid, owns, Bool.not_false,
          beq_self_eq_true, Bool.and_true, Bool.toNat_true] at counted
        cases valid : lease.valid with
        | true =>
          simp only [valid, Bool.not_true, Bool.toNat_false] at counted
          simp only [spoiled]
          omega
        | false =>
          have already : 0 < table.spoiled client :=
            count_pos (replaced.present lease rfl) (by simp [valid, owns])
          simp only [valid, Bool.not_false, Bool.toNat_true] at counted
          simp only [spoiled] at already ⊢
          omega
      have split := holding_eq client next
      omega
  | @given lease _ _ replaced _ newInert _ _ _ disposal =>
    rcases disposal with ⟨-, -, retired⟩ | ⟨invalid, retired⟩
    · exact .inl (retired ▸ isRetired)
    · rw [retired, mem_append, mem_toList] at isRetired
      rcases isRetired with earlier | owns
      · exact .inl earlier
      · refine .inr ⟨owned (replaced.present lease rfl) owns, ?_, by simp [handsOver, invalid]⟩
        have counted := replaced.counts fun candidate => candidate.client == some client
        have gone := newInert.any_client client fun _ => true
        simp only [Bool.true_and] at gone
        simp only [any_some, owns, gone, beq_self_eq_true, Bool.toNat_true,
          Bool.toNat_false] at counted
        have bounded := usable_le_holding client next
        simp only [holding] at unique bounded
        omega

end

end LeaseTable

end Coroserver.ConnectionPool
