import KvStore.Lib.Updates
import Mathlib.Algebra.BigOperators.Group.Finset.Basic

/-!
# Sums over a finite map

`total f m` adds up `f` over the values of `m`. `total_erase_add` and `total_insert_add` say how an update changes
it, as balances without subtraction, for `omega` to use.
-/

namespace Finmap
variable {κ ν : Type} [DecidableEq κ] {m : Finmap fun _ : κ => ν} {k : κ} {v v' : ν}

def total (f : ν → Nat) (m : Finmap fun _ : κ => ν) : Nat := m.keys.sum fun k => (m.lookup k).elim 0 f

theorem keys_erase_eq (m : Finmap fun _ : κ => ν) (k : κ) : (m.erase k).keys = m.keys.erase k := by
  ext k'
  rw [mem_keys, mem_erase, Finset.mem_erase, mem_keys]

theorem mem_keys_of_lookup (h : m.lookup k = some v) : k ∈ m.keys :=
  mem_keys.mpr (mem_iff.mpr ⟨v, h⟩)

theorem sum_erase_congr {m' : Finmap fun _ : κ => ν} (f : ν → Nat) (k : κ)
    (h : ∀ k', k' ≠ k → m'.lookup k' = m.lookup k') (s : Finset κ) :
    (s.erase k).sum (fun k' => (m'.lookup k').elim 0 f) = (s.erase k).sum fun k' => (m.lookup k').elim 0 f :=
  Finset.sum_congr rfl fun k' hk' => by rw [h k' (Finset.ne_of_mem_erase hk')]

theorem total_erase_add (f : ν → Nat) (h : m.lookup k = some v) : total f (m.erase k) + f v = total f m := by
  have hsplit := Finset.sum_erase_add m.keys (fun k' => (m.lookup k').elim 0 f) (mem_keys_of_lookup h)
  rw [h] at hsplit
  unfold total
  rw [keys_erase_eq, sum_erase_congr f k fun k' hk' => lookup_erase_ne hk']
  exact hsplit

theorem total_insert_add (f : ν → Nat) (v' : ν) (h : m.lookup k = some v) :
    total f (m.insert k v') + f v = total f m + f v' := by
  have hold := total_erase_add f h
  have hnew := total_erase_add f (lookup_insert m (a := k) (b := v'))
  have hsame : (m.insert k v').erase k = m.erase k := by
    refine ext_lookup fun k' => ?_
    rw [lookup_erase_ite, lookup_erase_ite, lookup_insert_ite]
    split_ifs <;> rfl
  rw [hsame] at hnew
  omega

end Finmap
