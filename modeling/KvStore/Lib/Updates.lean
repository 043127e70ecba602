import Mathlib.Data.Finmap

/-!
# Looking up after an update

What a finite map shows under every key after an insertion or a removal, as an equation and as the
possible origins of what is found.
-/

namespace Finmap
variable {κ ν : Type} [DecidableEq κ] {m : Finmap fun _ : κ => ν} {k k' : κ} {v v' : ν}

theorem lookup_insert_ite (m : Finmap fun _ : κ => ν) (k : κ) (v : ν) (k' : κ) :
    (m.insert k v).lookup k' = if k' = k then some v else m.lookup k' := by
  split_ifs with hk
  · rw [hk, lookup_insert]
  · rw [lookup_insert_of_ne _ hk]

theorem lookup_erase_ite (m : Finmap fun _ : κ => ν) (k k' : κ) :
    (m.erase k).lookup k' = if k' = k then none else m.lookup k' := by
  split_ifs with hk
  · rw [hk, lookup_erase]
  · rw [lookup_erase_ne hk]

theorem lookup_insert_eq_some (h : (m.insert k v).lookup k' = some v') :
    (k' = k ∧ v' = v) ∨ (k' ≠ k ∧ m.lookup k' = some v') := by
  rw [lookup_insert_ite] at h
  split_ifs at h with hk
  · cases h
    exact .inl ⟨hk, rfl⟩
  · exact .inr ⟨hk, h⟩

theorem lookup_erase_eq_some (h : (m.erase k).lookup k' = some v') : k' ≠ k ∧ m.lookup k' = some v' := by
  rw [lookup_erase_ite] at h
  split_ifs at h with hk
  exact ⟨hk, h⟩

end Finmap
