import Qrelay.Lib.View

/-! Gathering writes. What is to be written stands in views, and each write
reads its part of them when it happens, so that the storage may have changed
since the views were collected. -/

namespace Qrelay.Lib

structure Cell (κ : Type) where
  storage : κ
  index : ℕ
  deriving DecidableEq, Repr

variable {κ α : Type}

namespace Cell

def read (mem : κ → List α) (c : Cell κ) : Option α := (mem c.storage)[c.index]?

def readAll (mem : κ → List α) : List (Cell κ) → Option (List α)
  | [] => some []
  | c :: cells => (c.read mem).bind fun a => (readAll mem cells).map (a :: ·)

variable {mem mem' : κ → List α}

theorem readAll_append (cells cells' : List (Cell κ)) :
    readAll mem (cells ++ cells') =
      (readAll mem cells).bind fun s => (readAll mem cells').map (s ++ ·) := by
  induction cells with
  | nil => simp [readAll]
  | cons c cells ih =>
    rw [List.cons_append, readAll, ih, readAll]
    cases c.read mem <;> cases readAll mem cells <;> simp [Function.comp_def]

theorem readAll_congr {cells : List (Cell κ)} (h : ∀ c ∈ cells, c.read mem = c.read mem') :
    readAll mem cells = readAll mem' cells := by
  induction cells with
  | nil => rfl
  | cons c cells ih =>
    have first := h c List.mem_cons_self
    have others := ih fun d hd => h d (List.mem_cons_of_mem c hd)
    rw [readAll, readAll, first, others]

theorem read_of_readAll {cells : List (Cell κ)} {s : List α} (h : readAll mem cells = some s) :
    ∀ c ∈ cells, ∃ a, c.read mem = some a := by
  induction cells generalizing s with
  | nil => simp
  | cons c cells ih =>
    obtain ⟨a, first, rest⟩ := Option.bind_eq_some_iff.mp h
    obtain ⟨t, others, -⟩ := Option.map_eq_some_iff.mp rest
    intro d hd
    rcases List.mem_cons.mp hd with rfl | hd
    · exact ⟨a, first⟩
    · exact ih others d hd

end Cell

namespace View

def cells (v : View κ) : List (Cell κ) := (List.range v.size).map fun i => ⟨v.storage, v.offset + i⟩

theorem readAll_cells {mem : κ → List α} {v : View κ} (exact : (v.contents mem).length = v.size) :
    Cell.readAll mem v.cells = some (v.contents mem) := by
  obtain ⟨k, offset, size⟩ := v
  have bound : offset + size ≤ (mem k).length ∨ size = 0 := by
    simp only [contents, List.length_take, List.length_drop] at exact
    omega
  clear exact
  induction size with
  | zero => simp [cells, Cell.readAll, contents]
  | succ n ih =>
    have inside : offset + n < (mem k).length := by omega
    have more : cells (⟨k, offset, n + 1⟩ : View κ) =
        cells ⟨k, offset, n⟩ ++ [⟨k, offset + n⟩] := by
      simp [cells, List.range_succ]
    have last : (Cell.mk k (offset + n)).read mem = some (mem k)[offset + n] :=
      List.getElem?_eq_getElem inside
    have longer : contents mem ⟨k, offset, n + 1⟩ =
        contents mem ⟨k, offset, n⟩ ++ [(mem k)[offset + n]] := by
      simp only [contents]
      rw [List.take_add_one, List.getElem?_drop, List.getElem?_eq_getElem inside]
      rfl
    rw [more, Cell.readAll_append, ih (.inl (by omega)), longer]
    simp [Cell.readAll, last]

end View

/-- A writer: what it has still to write, and what it has written. -/
structure Gather (κ α : Type) where
  pending : List (Cell κ)
  sent : List α := []
  deriving DecidableEq, Repr

namespace Gather

def write (mem : κ → List α) (n : ℕ) (g : Gather κ α) : Option (Gather κ α) :=
  (Cell.readAll mem (g.pending.take n)).map fun data =>
    { pending := g.pending.drop n, sent := g.sent ++ data }

/-- What has been written and what would be written now are `whole`. -/
def Promises (mem : κ → List α) (g : Gather κ α) (whole : List α) : Prop :=
  ∃ rest, Cell.readAll mem g.pending = some rest ∧ g.sent ++ rest = whole

variable {mem mem' : κ → List α} {g : Gather κ α} {whole : List α}

theorem Promises.write (h : g.Promises mem whole) (n : ℕ) :
    ∃ g', g.write mem n = some g' ∧ g'.Promises mem whole := by
  obtain ⟨rest, reads, eq⟩ := h
  rw [← List.take_append_drop n g.pending, Cell.readAll_append, Option.bind_eq_some_iff] at reads
  obtain ⟨data, first, last⟩ := reads
  obtain ⟨rest', reads', rfl⟩ := Option.map_eq_some_iff.mp last
  refine ⟨_, by rw [Gather.write, first, Option.map_some], rest', reads', ?_⟩
  rw [List.append_assoc, eq]

theorem write_pending {g' : Gather κ α} {n : ℕ} (h : g.write mem n = some g') :
    g'.pending = g.pending.drop n := by
  obtain ⟨data, -, rfl⟩ := Option.map_eq_some_iff.mp h
  rfl

theorem Promises.congr (h : g.Promises mem whole)
    (same : ∀ c ∈ g.pending, ∀ a, c.read mem = some a → c.read mem' = some a) :
    g.Promises mem' whole := by
  obtain ⟨rest, reads, eq⟩ := h
  refine ⟨rest, ?_, eq⟩
  rw [← reads]
  apply Cell.readAll_congr
  intro c hc
  obtain ⟨a, read⟩ := Cell.read_of_readAll reads c hc
  rw [read, same c hc a read]

theorem Promises.sent_prefix (h : g.Promises mem whole) : g.sent <+: whole := by
  obtain ⟨rest, -, eq⟩ := h
  exact ⟨rest, eq⟩

theorem Promises.sent_eq (h : g.Promises mem whole) (done : g.pending = []) : g.sent = whole := by
  obtain ⟨rest, reads, eq⟩ := h
  rw [done] at reads
  cases reads
  rwa [List.append_nil] at eq

end Gather

end Qrelay.Lib
