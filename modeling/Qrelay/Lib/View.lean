import Mathlib.Data.List.Basic

/-! Views into named storage. A view is where a run of elements stands, not
the run itself: its contents are those the storage has when it is read, and
the part of a view is a view into the same storage. -/

namespace Qrelay.Lib

structure View (κ : Type) where
  storage : κ
  offset : ℕ
  size : ℕ
  deriving DecidableEq, Repr

namespace View

variable {κ α : Type} (mem : κ → List α)

/-- What is read through the view while the storage holds `mem`. -/
def contents (v : View κ) : List α := ((mem v.storage).drop v.offset).take v.size

def Within (v : View κ) : Prop := v.offset + v.size ≤ (mem v.storage).length

def whole (k : κ) : View κ := ⟨k, 0, (mem k).length⟩

def part (v : View κ) (pos n : ℕ) : View κ := ⟨v.storage, v.offset + pos, n⟩

def dropFront (v : View κ) (n : ℕ) : View κ := v.part n (v.size - n)

variable {mem}

@[simp] theorem contents_whole (k : κ) : (whole mem k).contents mem = mem k := by
  simp [whole, contents]

theorem within_whole (k : κ) : (whole mem k).Within mem := by
  simp [whole, Within]

theorem Within.length_contents {v : View κ} (h : v.Within mem) :
    (v.contents mem).length = v.size := by
  have := h
  simp only [Within] at this
  simp only [contents, List.length_take, List.length_drop]
  omega

theorem Within.part {v : View κ} (h : v.Within mem) {pos n : ℕ} (le : pos + n ≤ v.size) :
    (v.part pos n).Within mem := by
  simp only [Within, View.part] at h ⊢
  omega

theorem contents_part {v : View κ} {pos n : ℕ} (le : pos + n ≤ v.size) :
    (v.part pos n).contents mem = ((v.contents mem).drop pos).take n := by
  simp only [contents, View.part, List.drop_take, List.take_take, List.drop_drop]
  rw [Nat.min_eq_left (by omega)]

theorem contents_dropFront {v : View κ} {n : ℕ} (le : n ≤ v.size) :
    (v.dropFront n).contents mem = (v.contents mem).drop n := by
  rw [dropFront, contents_part (by omega)]
  simp [contents, List.drop_take, List.take_take]

theorem contents_congr {mem' : κ → List α} {v : View κ} (h : mem v.storage = mem' v.storage) :
    v.contents mem = v.contents mem' := by
  rw [contents, contents, h]

end View

end Qrelay.Lib
