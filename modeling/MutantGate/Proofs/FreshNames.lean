import Mathlib.Algebra.Order.Ring.Nat
import Mathlib.Data.List.Nodup
import Mathlib.Data.List.Perm.Subperm
import MutantGate.IR.FreshName
/-!
# New names are new

The candidates for a name are pairwise different, and there is one more of them than there
are functions.  So the search for a name does not come to the end of its bound, and the
name it gives is one that no function has.

The search can also be made without a bound, by going from one candidate to the next until one
is new.  It ends at the same name, after no more candidates than that, as long as the numbers of
the candidates fit the word that counts them.

## What is proved

For every module and every stem: the name is new, it begins with its stem, and it is the first
candidate that is new.  For modules of fewer than `2 ^ 30` functions the search without a bound ends
after as many candidates as there are functions, and one more at most, and in no other way.

## What is left outside

Beyond that number of functions the numbers of the candidates may be written with a sign; how the
search without a bound goes on there is not followed.
-/

namespace MutantGate

theorem nameCandidate_eq_append (stem : String) (n : Nat) :
    ∃ s : String, nameCandidate stem n = stem ++ s := by
  cases n with
  | zero => exact ⟨"", String.append_empty.symm⟩
  | succ n => exact ⟨"." ++ toString (n + 1), String.append_assoc⟩

theorem nameCandidate_ne_stem (stem : String) (n : Nat) : nameCandidate stem (n + 1) ≠ stem := by
  intro h
  have hlength := congrArg String.length h
  have hdot : ".".length = 1 := rfl
  simp only [nameCandidate, toString, String.length_append] at hlength
  omega

theorem append_ne_empty {s t : String} (ht : t ≠ "") : s ++ t ≠ "" :=
  fun h => ht (String.append_eq_empty_iff.mp h).2

/-- Different numbers have different digits. -/
theorem repr_toList_inj {k n : Nat} (h : (Nat.repr k).toList = (Nat.repr n).toList) : k = n := by
  have hnumber := congrArg (fun ds => Nat.ofDigitChars 10 ds 0) h
  simpa using hnumber

theorem nameCandidate_injective (stem : String) : Function.Injective (nameCandidate stem)
  | 0, 0, _ => rfl
  | 0, n + 1, h => absurd h.symm (nameCandidate_ne_stem stem n)
  | n + 1, 0, h => absurd h (nameCandidate_ne_stem stem n)
  | k + 1, n + 1, h => by
      have hlist := congrArg String.toList h
      simp only [nameCandidate, toString, String.toList_append] at hlist
      exact repr_toList_inj (List.append_cancel_left hlist)

namespace Module

theorem hasFunction_iff (m : Module) (name : String) :
    m.hasFunction name = true ↔ name ∈ m.functions.map Function.name := by
  simp [hasFunction, findFunction?, List.findIdx?_isSome]

/-- Among the candidates that are looked at there is one that is new. -/
theorem exists_new_candidate (m : Module) (stem : String) :
    ∃ n ≤ m.functions.length, m.hasFunction (nameCandidate stem n) = false := by
  by_contra hall
  have htaken : (List.range (m.functions.length + 1)).map (nameCandidate stem) ⊆
      m.functions.map Function.name := by
    intro name hname
    obtain ⟨n, hn, rfl⟩ := List.mem_map.mp hname
    rw [← hasFunction_iff]
    by_contra hnew
    exact hall ⟨n, Nat.le_of_lt_succ (List.mem_range.mp hn), by simpa using hnew⟩
  have hdistinct := List.Nodup.map (nameCandidate_injective stem)
    (List.nodup_range (n := m.functions.length + 1))
  have hlength := (hdistinct.subperm htaken).length_le
  rw [List.length_map, List.length_range, List.length_map] at hlength
  exact Nat.not_succ_le_self _ hlength

/-- The new name is a candidate that no function has for its name, and functions have all
candidates before it. -/
theorem freshName_least (m : Module) (stem : String) :
    ∃ n ≤ m.functions.length, m.freshName stem = nameCandidate stem n ∧
      m.hasFunction (nameCandidate stem n) = false ∧
      ∀ k < n, m.hasFunction (nameCandidate stem k) = true := by
  unfold freshName
  cases hfind : (List.range (m.functions.length + 1)).find? fun n =>
      !m.hasFunction (nameCandidate stem n) with
  | some n =>
      obtain ⟨hnew, hn, hbefore⟩ := List.find?_range_eq_some.mp hfind
      exact ⟨n, Nat.le_of_lt_succ (List.mem_range.mp hn), rfl, by simpa using hnew,
        fun k hk => by simpa using hbefore k hk⟩
  | none =>
      obtain ⟨n, hn, hnew⟩ := m.exists_new_candidate stem
      have htaken := List.find?_eq_none.mp hfind n (List.mem_range.mpr (Nat.lt_succ_of_le hn))
      simp [hnew] at htaken

theorem freshName_spec (m : Module) (stem : String) :
    ∃ n ≤ m.functions.length, m.freshName stem = nameCandidate stem n ∧
      m.hasFunction (nameCandidate stem n) = false := by
  obtain ⟨n, hn, hname, hnew, -⟩ := m.freshName_least stem
  exact ⟨n, hn, hname, hnew⟩

theorem freshName_not_mem (m : Module) (stem : String) :
    m.freshName stem ∉ m.functions.map Function.name := by
  obtain ⟨n, -, hname, hnew⟩ := m.freshName_spec stem
  rw [hname, ← hasFunction_iff, hnew]
  exact Bool.false_ne_true

/-- A new name begins with its stem. -/
theorem freshName_ne_empty (m : Module) {stem : String} (h : stem ≠ "") :
    m.freshName stem ≠ "" := by
  obtain ⟨n, -, hname, -⟩ := m.freshName_spec stem
  obtain ⟨s, hs⟩ := nameCandidate_eq_append stem n
  rw [hname, hs]
  intro hempty
  exact h (String.append_eq_empty_iff.mp hempty).1

end Module

/-! ## The search without a bound -/

/-- Where a search for a name stands: the candidate that is looked at, and the number for the one
behind it. -/
structure NameSearch where
  candidate : String
  number : Word

namespace NameSearch

/-- A search begins with the stem. -/
def start (stem : String) : NameSearch := ⟨stem, 1⟩

/-- The candidate behind the one that is looked at. -/
def advance (stem : String) (s : NameSearch) : NameSearch :=
  ⟨s!"{stem}.{s.number.toInt}", s.number + 1⟩

/-- A search comes to its end at a name, after it has looked at a number of candidates: it goes on
as long as a function has the candidate for its name. -/
inductive Ends (m : Module) (stem : String) : NameSearch → Nat → String → Prop
  | new {s : NameSearch} (h : m.hasFunction s.candidate = false) : Ends m stem s 1 s.candidate
  | taken {s : NameSearch} {count : Nat} {name : String} (h : m.hasFunction s.candidate = true)
      (rest : Ends m stem (s.advance stem) count name) : Ends m stem s (count + 1) name

variable {m : Module} {stem name : String} {s : NameSearch}

/-- A search ends in one way at most. -/
theorem Ends.unique {count count' : Nat} {name' : String} (h : Ends m stem s count name)
    (h' : Ends m stem s count' name') : count = count' ∧ name = name' := by
  induction h generalizing count' name' with
  | new hnew =>
      cases h' with
      | new _ => exact ⟨rfl, rfl⟩
      | taken htaken _ => exact absurd (hnew.symm.trans htaken) (by decide)
  | taken htaken _ ih =>
      cases h' with
      | new hnew => exact absurd (hnew.symm.trans htaken) (by decide)
      | taken _ hrest =>
          obtain ⟨rfl, rfl⟩ := ih hrest
          exact ⟨rfl, rfl⟩

/-- A search when it looks at a candidate. -/
def atCandidate (stem : String) (n : Nat) : NameSearch :=
  ⟨nameCandidate stem n, BitVec.ofNat 32 (n + 1)⟩

/-- Numbers are written as they are while they fit a word with a sign. -/
theorem advance_atCandidate {n : Nat} (hn : n + 1 < 2 ^ 31) :
    (atCandidate stem n).advance stem = atCandidate stem (n + 1) := by
  have hnumber : (BitVec.ofNat 32 (n + 1)).toInt = (n + 1 : Nat) := by
    rw [BitVec.toInt_eq_toNat_of_lt (by rw [BitVec.toNat_ofNat]; omega), BitVec.toNat_ofNat,
      Nat.mod_eq_of_lt (by omega)]
  simp only [advance, atCandidate, hnumber, NameSearch.mk.injEq]
  exact ⟨rfl, (BitVec.ofNat_add (n + 1) 1).symm⟩

/-- A search ends at the first new candidate from where it stands. -/
theorem ends_atCandidate {n : Nat} (hn : n < 2 ^ 31)
    (hnew : m.hasFunction (nameCandidate stem n) = false) {left k : Nat} (hleft : k + left = n)
    (htaken : ∀ j < n, m.hasFunction (nameCandidate stem j) = true) :
    Ends m stem (atCandidate stem k) (left + 1) (nameCandidate stem n) := by
  -- By induction on the number of candidates up to the new one.
  induction left generalizing k with
  | zero =>
      obtain rfl : k = n := hleft
      exact .new hnew
  | succ left ih =>
      have hrest := ih (k := k + 1) (by omega)
      rw [← advance_atCandidate (by omega)] at hrest
      exact .taken (htaken k (by omega)) hrest

end NameSearch

/-- The search for a name ends, and in one way: after one candidate more than there are functions
at most, at the new name.  No function has that name.  It is the stem if no function has the stem
for its name, and otherwise the stem with the least number, from one on, that makes it new. -/
theorem freshName_search (m : Module) (stem : String) (hcount : m.functions.length < 2 ^ 30) :
    (∃ count ≤ m.functions.length + 1, ∀ looked name,
        NameSearch.Ends m stem (.start stem) looked name ↔
          looked = count ∧ name = m.freshName stem) ∧
      m.freshName stem ∉ m.functions.map Function.name ∧
      (stem ∉ m.functions.map Function.name → m.freshName stem = stem) ∧
      (stem ∈ m.functions.map Function.name → ∃ n ≥ 1, m.freshName stem = s!"{stem}.{n}" ∧
        s!"{stem}.{n}" ∉ m.functions.map Function.name ∧
        ∀ k, 1 ≤ k → k < n → s!"{stem}.{k}" ∈ m.functions.map Function.name) := by
  obtain ⟨n, hn, hname, hnew, htaken⟩ := m.freshName_least stem
  have hfresh := m.freshName_not_mem stem
  have hends : NameSearch.Ends m stem (.start stem) (n + 1) (m.freshName stem) :=
    hname ▸ NameSearch.ends_atCandidate (k := 0) (by omega) hnew (Nat.zero_add n) htaken
  refine ⟨⟨n + 1, Nat.succ_le_succ hn, fun looked name => ⟨fun h => h.unique hends, ?_⟩⟩, hfresh,
    fun hstem => ?_, fun hstem => ?_⟩
  · rintro ⟨rfl, rfl⟩
    exact hends
  · cases n with
    | zero => exact hname
    | succ n => exact absurd ((m.hasFunction_iff stem).mp (htaken 0 n.succ_pos)) hstem
  · cases n with
    | zero => exact absurd (hname ▸ hstem) hfresh
    | succ n =>
        rw [hname] at hfresh
        refine ⟨n + 1, Nat.succ_pos n, hname, hfresh, fun k hk hkn => ?_⟩
        obtain ⟨k, rfl⟩ := Nat.exists_eq_add_of_le' hk
        exact (m.hasFunction_iff _).mp (htaken (k + 1) hkn)

/-- A module in which the first two candidates for a name are taken, and the fourth. -/
def crowdedNames : Module :=
  ⟨"crowded.json",
    ["f.1", "f", "f.3"].map fun name => .empty name 0 .void, 0, 1, []⟩

theorem freshName_search_crowded :
    crowdedNames.functions.length < 2 ^ 30 ∧ "f" ∈ crowdedNames.functions.map Function.name ∧
      NameSearch.Ends crowdedNames "f" (.start "f") 3 "f.2" ∧
      crowdedNames.freshName "f" = "f.2" := by
  have hstem : "f" ∈ crowdedNames.functions.map Function.name := by decide
  have hsearch : NameSearch.Ends crowdedNames "f" (.start "f") 3 "f.2" :=
    .taken (by decide) (.taken (by decide +kernel) (.new (by decide +kernel)))
  obtain ⟨⟨count, -, hends⟩, -⟩ := freshName_search crowdedNames "f" (by decide)
  exact ⟨by decide, hstem, hsearch, ((hends _ _).mp hsearch).2.symm⟩

end MutantGate
