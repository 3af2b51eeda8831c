import Mathlib.Data.List.GetD
import Coroserver.Http.Target

/-! `kEbcdicToAsciiTable` as the compiler sees it. Its initialiser has two rows of
fifteen characters, so that it lists 254 characters for 256 entries: from 0x49
on every character stands one or two places before its CP037 code, and the
last two entries are zero. -/

namespace Coroserver.Console

open List
def ebcdicInitializer : Bytes :=
  ascii "                " ++
  ascii "                " ++
  ascii "                " ++
  ascii "                " ++
  ascii "         [.<(+|" ++
  ascii "&        ]$*);^" ++
  ascii "-/         ,%_>?" ++
  ascii "          :#@'=\"" ++
  ascii " abcdefghi      " ++
  ascii " jklmnopqr      " ++
  ascii " ~stuvwxyz      " ++
  ascii "                " ++
  ascii "\x7bABCDEFGHI      " ++
  ascii "\x7dJKLMNOPQR      " ++
  ascii "\\ STUVWXYZ      " ++
  ascii "0123456789      "

/-- An array of 256 characters; what the initialiser does not list is zero. -/
def kEbcdicToAsciiTable : Bytes :=
  ebcdicInitializer ++ replicate (256 - ebcdicInitializer.length) 0

def ebcdicToAscii (e : UInt8) : UInt8 := kEbcdicToAsciiTable.getD e.toNat 0

/-- The reverse lookup, written once in the emulator and once in its client:
the first entry of the table that holds the character. -/
def asciiToEbcdic (ascii : UInt8) : UInt8 :=
  if ascii = ' '.toUInt8 then 0x40
  else
    match kEbcdicToAsciiTable.findIdx? (· == ascii) with
    | some i => UInt8.ofNat i
    | none => 0x40

theorem length_kEbcdicToAsciiTable : kEbcdicToAsciiTable.length = 256 := by decide +kernel

theorem take_kEbcdicToAsciiTable :
    kEbcdicToAsciiTable.take 0x40 = replicate 0x40 ' '.toUInt8 := by decide +kernel

theorem ebcdicToAscii_mem (e : UInt8) : ebcdicToAscii e ∈ kEbcdicToAsciiTable := by
  have inside : e.toNat < kEbcdicToAsciiTable.length := by
    rw [length_kEbcdicToAsciiTable]
    exact e.toNat_lt
  rw [ebcdicToAscii, getD_eq_getElem _ _ inside]
  exact getElem_mem inside

variable {c : UInt8}

theorem asciiToEbcdic_of_findIdx {i : Nat} (notSpace : c ≠ ' '.toUInt8)
    (found : kEbcdicToAsciiTable.findIdx? (· == c) = some i) :
    (asciiToEbcdic c).toNat = i ∧ kEbcdicToAsciiTable[i]? = some c := by
  obtain ⟨inside, holds, _⟩ := findIdx?_eq_some_iff_getElem.mp found
  have small : i < 256 := length_kEbcdicToAsciiTable ▸ inside
  rw [asciiToEbcdic, if_neg notSpace, found, getElem?_eq_getElem inside, eq_of_beq holds]
  exact ⟨UInt8.toNat_ofNat_of_lt' small, rfl⟩

theorem ebcdicToAscii_asciiToEbcdic (listed : c ∈ kEbcdicToAsciiTable) :
    ebcdicToAscii (asciiToEbcdic c) = c := by
  by_cases space : c = ' '.toUInt8
  · subst space
    decide +kernel
  · cases found : kEbcdicToAsciiTable.findIdx? (· == c) with
    | none =>
      have missing := findIdx?_eq_none_iff.mp found c listed
      simp at missing
    | some =>
      obtain ⟨code, entry⟩ := asciiToEbcdic_of_findIdx space found
      rw [ebcdicToAscii, code, getD_eq_getElem?_getD, entry, Option.getD_some]

theorem le_asciiToEbcdic (c : UInt8) : 0x40 ≤ (asciiToEbcdic c).toNat := by
  by_cases space : c = ' '.toUInt8
  · simp [asciiToEbcdic, space]
  · cases found : kEbcdicToAsciiTable.findIdx? (· == c) with
    | none => simp [asciiToEbcdic, space, found]
    | some =>
      obtain ⟨code, entry⟩ := asciiToEbcdic_of_findIdx space found
      by_contra below
      rw [code, Nat.not_le] at below
      rw [← getElem?_take_of_lt below, take_kEbcdicToAsciiTable] at entry
      exact space (eq_of_mem_replicate (mem_of_getElem? entry))

def isAlphanumeric (c : UInt8) : Bool :=
  ('0'.toNat ≤ c.toNat && c.toNat ≤ '9'.toNat) || ('A'.toNat ≤ c.toNat && c.toNat ≤ 'Z'.toNat) ||
    ('a'.toNat ≤ c.toNat && c.toNat ≤ 'z'.toNat)

def charactersFrom (first last : Char) : Bytes :=
  (List.range (last.toNat + 1 - first.toNat)).map fun i => UInt8.ofNat (first.toNat + i)

theorem mem_charactersFrom {first last : Char} (lower : first.toNat ≤ c.toNat)
    (upper : c.toNat ≤ last.toNat) : c ∈ charactersFrom first last := by
  refine mem_map.mpr ⟨c.toNat - first.toNat, mem_range.mpr (by omega), ?_⟩
  rw [Nat.add_sub_cancel' lower, UInt8.ofNat_toNat]

def alphanumerics : Bytes :=
  charactersFrom 'a' 'z' ++ charactersFrom 'A' 'Z' ++ charactersFrom '0' '9'

theorem mem_alphanumerics (alphanumeric : isAlphanumeric c = true) : c ∈ alphanumerics := by
  simp only [isAlphanumeric, Bool.or_eq_true, Bool.and_eq_true, decide_eq_true_eq] at alphanumeric
  simp only [alphanumerics, mem_append]
  obtain (digit | upper) | lower := alphanumeric
  · exact .inr (mem_charactersFrom digit.1 digit.2)
  · exact .inl (.inr (mem_charactersFrom upper.1 upper.2))
  · exact .inl (.inl (mem_charactersFrom lower.1 lower.2))

theorem mem_table_of_isAlphanumeric (alphanumeric : isAlphanumeric c = true) :
    c ∈ kEbcdicToAsciiTable := by
  have listed : alphanumerics.Sublist kEbcdicToAsciiTable := by decide +kernel
  exact listed.subset (mem_alphanumerics alphanumeric)

def cp037Capital (c : UInt8) : UInt8 :=
  if c ≤ 'I'.toUInt8 then c - 'A'.toUInt8 + 0xC1
  else if c ≤ 'R'.toUInt8 then c - 'J'.toUInt8 + 0xD1
  else c - 'S'.toUInt8 + 0xE2

def cp037 (c : UInt8) : UInt8 :=
  if c ≤ '9'.toUInt8 then c - '0'.toUInt8 + 0xF0
  else if c ≤ 'Z'.toUInt8 then cp037Capital c
  else cp037Capital (c - 0x20) - 0x40

theorem cp037_spec (alphanumeric : isAlphanumeric c = true) :
    0x40 ≤ (cp037 c).toNat ∧ ebcdicToAscii (cp037 c) ≠ c := by
  have all : ∀ c ∈ alphanumerics, 0x40 ≤ (cp037 c).toNat ∧ ebcdicToAscii (cp037 c) ≠ c := by
    decide +kernel
  exact all c (mem_alphanumerics alphanumeric)

end Coroserver.Console
