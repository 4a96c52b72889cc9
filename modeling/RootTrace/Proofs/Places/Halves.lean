import RootTrace.Proofs.Places.Embedding

/-!
# Complex vectors as real vectors with two halves

A complex vector is kept as the real vector of its real parts, followed by its imaginary parts.
Nothing is computed with the scalars, so each of them is kept as it is, whether it is a number
or not. The real vectors that are read back are those of even length, and every one of them is
the embedding of what is read back from it.
-/

namespace RootTrace
namespace Embedding

universe u

variable {α : Type u} {n : Nat}

/-! ## Two halves -/

theorem exists_halves {w : List α} (even : w.length % 2 = 0) :
    ∃ halves : Vector α (w.length / 2 + w.length / 2), halves.toList = w := by
  have size : w.toArray.size = w.length / 2 + w.length / 2 := by
    rw [List.size_toArray]
    omega
  exact ⟨⟨w.toArray, size⟩, rfl⟩

/-- Pairing the halves of a list is reading back the vector. -/
theorem pairHalves_toList (w : Vector α (n + n)) :
    pairHalves w.toList = .ok (unembedVector w).toList := by
  have length : w.toList.length = n + n := Vector.length_toList
  have half : (n + n) / 2 = n := by
    omega
  rw [pairHalves, length, half, if_pos (by omega)]
  congr 1
  apply List.ext_getElem
  · simp
  · intro place inside insideBack
    simp [unembedVector, Vector.get_eq_getElem, Nat.add_comm]

theorem pairHalves_embedVector (v : Vector (Complex α) n) :
    pairHalves (embedVector v).toList = .ok v.toList := by
  rw [pairHalves_toList, eq_of_get_eq (unembedVector_embedVector v)]

theorem pairHalves_of_odd {w : List α} (odd : w.length % 2 = 1) :
    pairHalves w = .error (.oddLength w.length) := by
  rw [pairHalves, if_neg (by omega)]

theorem exists_pairHalves_eq_ok {w : List α} (even : w.length % 2 = 0) :
    ∃ v : Vector (Complex α) (w.length / 2),
      pairHalves w = .ok v.toList ∧ (embedVector v).toList = w := by
  obtain ⟨halves, same⟩ := exists_halves even
  refine ⟨unembedVector halves, ?_, ?_⟩
  · rw [← pairHalves_toList, same]
  · rw [eq_of_get_eq (embedVector_unembedVector halves), same]

/-- A real vector is turned down exactly if its length is odd, and the fault names this length. -/
theorem pairHalves_eq_error_iff (w : List α) (fault : Fault α) :
    pairHalves w = .error fault ↔ w.length % 2 = 1 ∧ fault = .oddLength w.length := by
  constructor
  · intro failed
    rcases Nat.mod_two_eq_zero_or_one w.length with even | odd
    · obtain ⟨v, succeeded, _⟩ := exists_pairHalves_eq_ok even
      cases failed.symm.trans succeeded
    · cases failed.symm.trans (pairHalves_of_odd odd)
      exact ⟨odd, rfl⟩
  · rintro ⟨odd, rfl⟩
    exact pairHalves_of_odd odd

/-- What is read back from a real vector is what embeds to it: both are vectors of the same
length, so equal components make them equal. -/
theorem pairHalves_eq_ok_iff (w : List α) (v : Vector (Complex α) n) :
    pairHalves w = .ok v.toList ↔ (embedVector v).toList = w := by
  constructor
  · intro succeeded
    rcases Nat.mod_two_eq_zero_or_one w.length with even | odd
    · obtain ⟨other, read, embedded⟩ := exists_pairHalves_eq_ok even
      have same : v.toList = other.toList := Except.ok.inj (succeeded.symm.trans read)
      have length : n = w.length / 2 := by
        simpa using congrArg List.length same
      subst length
      rw [Vector.toList_inj.mp same, embedded]
    · cases succeeded.symm.trans (pairHalves_of_odd odd)
  · rintro rfl
    exact pairHalves_embedVector v

/-- A real part stands in the first half, and its imaginary part at the same place of the
second. -/
theorem getElem?_embedVector (v : Vector (Complex α) n) (i : Fin n) :
    (embedVector v).toList[i.val]? = some (v.get i).re ∧
      (embedVector v).toList[n + i.val]? = some (v.get i).im := by
  rw [← get_embedVector_castAdd, ← get_embedVector_natAdd]
  simp [Vector.get_eq_getElem, Nat.add_comm]

/-! ## Place by place -/

/-- Reading back place by place asks for no place that is not there. -/
theorem unembedList_eq (w : List α) :
    Places.unembedList w =
      (pairHalves w).mapError fun fault => .failed (.ofFault fault) := by
  rcases Nat.mod_two_eq_zero_or_one w.length with even | odd
  · obtain ⟨halves, same⟩ := exists_halves even
    rw [← same, Places.unembedList_eq_ok, pairHalves_toList]
    rfl
  · rw [pairHalves_of_odd odd, Places.unembedList, if_pos (by omega)]
    rfl

/-- Complex vectors are the real vectors of even length, whatever the scalars are. A vector
embeds with its real parts in the first half and its imaginary parts in the second, and is read
back as it was. Reading back fails exactly on odd lengths, for that cause, and otherwise gives
the one vector, of half the length, that embeds to what was read. -/
theorem vectors_are_even_lists :
    (∀ (n : Nat) (v : Vector (Complex α) n),
      (Places.embedList v.toList : Except (Stop α) (List α)) = .ok (embedVector v).toList ∧
      (∀ i : Fin n, (embedVector v).toList[i.val]? = some (v.get i).re ∧
        (embedVector v).toList[n + i.val]? = some (v.get i).im) ∧
      pairHalves (embedVector v).toList = .ok v.toList) ∧
    ∀ w : List α,
      Places.unembedList w =
        (pairHalves w).mapError (fun fault => .failed (.ofFault fault)) ∧
      (pairHalves w = .error (.oddLength w.length) ↔ w.length % 2 = 1) ∧
      (∀ (n : Nat) (v : Vector (Complex α) n),
        pairHalves w = .ok v.toList ↔ (embedVector v).toList = w) ∧
      (w.length % 2 = 0 → ∃ v : Vector (Complex α) (w.length / 2),
        pairHalves w = .ok v.toList ∧ (embedVector v).toList = w) := by
  constructor
  · intro n v
    exact ⟨Places.embedList_eq_ok v, getElem?_embedVector v, pairHalves_embedVector v⟩
  · intro w
    refine ⟨unembedList_eq w, ?_, fun n => pairHalves_eq_ok_iff w, exists_pairHalves_eq_ok⟩
    rw [pairHalves_eq_error_iff]
    exact and_iff_left rfl

/-- A list of a double that is no number, an infinity and both zeros is the embedding of what is
read back from it. -/
theorem special_doubles_are_an_even_list :
    ∃ v : Vector (Complex Float) 2,
      pairHalves [0 / 0, -0, 1 / 0, 0] = .ok v.toList ∧
      (embedVector v).toList = [0 / 0, -0, 1 / 0, 0] := by
  obtain ⟨_, reads⟩ := vectors_are_even_lists (α := Float)
  exact (reads [0 / 0, -0, 1 / 0, 0]).2.2.2 (by decide)

end Embedding
end RootTrace
