import Mathlib.Data.List.Basic

/-!
# Tiling — blocks laid end to end in one sequence

Ranges tile a sequence when each starts where the one before it ends, from the start of the sequence
to its end.  Laying blocks end to end gives such ranges, and no others cut the blocks out again.
-/

namespace Layout

variable {β : Type}

structure Range where
  offset : Nat
  length : Nat
  deriving DecidableEq, Repr

namespace Range

def stop (r : Range) : Nat := r.offset + r.length

/-- The part of the sequence in the range. -/
def cut (r : Range) (payload : List β) : List β := (payload.drop r.offset).take r.length

theorem cut_length {r : Range} {payload : List β} (h : r.stop ≤ payload.length) :
    (r.cut payload).length = r.length := by
  rw [cut, List.length_take, List.length_drop]
  exact Nat.min_eq_left (Nat.le_sub_of_add_le' h)

/-- What is cut is followed by what comes after the range. -/
theorem cut_append_drop (r : Range) (payload : List β) :
    payload.drop r.offset = r.cut payload ++ payload.drop r.stop := by
  rw [cut, stop, ← List.drop_drop, List.take_append_drop]

end Range

/-- The ranges of blocks that are laid end to end. -/
def rangesFrom : Nat → List (List β) → List Range
  | _, [] => []
  | offset, block :: blocks =>
      ⟨offset, block.length⟩ :: rangesFrom (offset + block.length) blocks

structure Tiles (payload : List β) (ranges : List Range) (blocks : List (List β)) : Prop where
  first : ∀ r, ranges.head? = some r → r.offset = 0
  next : ranges.IsChain fun r r' => r'.offset = r.stop
  last : (ranges.getLast?.map Range.stop).getD 0 = payload.length
  cut : ranges.map (fun r => r.cut payload) = blocks

/-! ## Laying blocks end to end -/

theorem rangesFrom_first (offset : Nat) (blocks : List (List β)) :
    ∀ r, (rangesFrom offset blocks).head? = some r → r.offset = offset := by
  cases blocks <;> simp [rangesFrom]

theorem rangesFrom_next (offset : Nat) (blocks : List (List β)) :
    (rangesFrom offset blocks).IsChain fun r r' => r'.offset = r.stop := by
  induction blocks generalizing offset with
  | nil => exact .nil
  | cons block blocks ih =>
      have hrest := ih (offset + block.length)
      cases blocks with
      | nil => exact .singleton _
      | cons block' blocks => exact .cons_cons rfl hrest

/-- The end of the last range, or `offset` when there is none. -/
theorem getLast?_stop (r : Range) (ranges : List Range) (offset : Nat) :
    ((r :: ranges).getLast?.map Range.stop).getD offset =
      (ranges.getLast?.map Range.stop).getD r.stop := by
  rw [List.getLast?_cons]
  cases ranges.getLast? <;> rfl

theorem rangesFrom_last (offset : Nat) (blocks : List (List β)) :
    ((rangesFrom offset blocks).getLast?.map Range.stop).getD offset =
      offset + blocks.flatten.length := by
  induction blocks generalizing offset with
  | nil => simp [rangesFrom]
  | cons block blocks ih =>
      have hrest := ih (offset + block.length)
      simp only [rangesFrom, getLast?_stop, Range.stop, hrest]
      simp [Nat.add_assoc]

theorem rangesFrom_cut (front : List β) (blocks : List (List β)) :
    (rangesFrom front.length blocks).map (fun r => r.cut (front ++ blocks.flatten)) = blocks := by
  -- the blocks before the first one are in front
  induction blocks generalizing front with
  | nil => rfl
  | cons block blocks ih =>
      have hrest := ih (front ++ block)
      rw [List.length_append, List.append_assoc] at hrest
      simp only [rangesFrom, List.map_cons, List.flatten_cons, hrest]
      simp [Range.cut]

theorem rangesFrom_tiles (blocks : List (List β)) :
    Tiles blocks.flatten (rangesFrom 0 blocks) blocks where
  first := rangesFrom_first 0 blocks
  next := rangesFrom_next 0 blocks
  last := by simpa using rangesFrom_last 0 blocks
  cut := rangesFrom_cut [] blocks

/-! ## The blocks of a tiling -/

/-- Ranges that go on from `offset` to the end are those of the blocks that they cut. -/
theorem eq_rangesFrom {payload : List β} {ranges : List Range} {offset : Nat}
    (first : ∀ r, ranges.head? = some r → r.offset = offset)
    (next : ranges.IsChain fun r r' => r'.offset = r.stop)
    (last : (ranges.getLast?.map Range.stop).getD offset = payload.length) :
    offset ≤ payload.length ∧
      ranges = rangesFrom offset (ranges.map fun r => r.cut payload) ∧
      payload.drop offset = (ranges.map fun r => r.cut payload).flatten := by
  induction ranges generalizing offset with
  | nil =>
      have hend : offset = payload.length := last
      subst hend
      exact ⟨Nat.le_refl _, rfl, by simp⟩
  | cons r ranges ih =>
      have hoffset : r.offset = offset := first r rfl
      have hfirst : ∀ r', ranges.head? = some r' → r'.offset = r.stop := by
        intro r' hr'
        cases ranges with
        | nil => cases hr'
        | cons r'' ranges =>
            rcases hr' with ⟨rfl⟩
            exact next.rel
      rw [getLast?_stop] at last
      rcases ih hfirst next.of_cons last with ⟨hstop, hranges, hdrop⟩
      have hlength := Range.cut_length hstop
      have hsame : offset + (r.cut payload).length = r.stop := by
        rw [hlength, ← hoffset, Range.stop]
      refine ⟨?_, ?_, ?_⟩
      · rw [← hoffset]
        exact Nat.le_trans (Nat.le_add_right _ _) hstop
      · rw [List.map_cons, rangesFrom, hsame, ← hranges, hlength, ← hoffset]
      · rw [List.map_cons, List.flatten_cons, ← hdrop, ← hoffset]
        exact r.cut_append_drop payload

/-- A sequence is tiled by its blocks in one way only. -/
theorem Tiles.unique {payload : List β} {ranges : List Range} {blocks : List (List β)}
    (h : Tiles payload ranges blocks) :
    payload = blocks.flatten ∧ ranges = rangesFrom 0 blocks := by
  rcases eq_rangesFrom h.first h.next h.last with ⟨-, hranges, hdrop⟩
  rw [h.cut] at hranges hdrop
  exact ⟨hdrop, hranges⟩

theorem rangesFrom_stop_le {offset : Nat} {blocks : List (List β)} {r : Range}
    (hr : r ∈ rangesFrom offset blocks) : r.stop ≤ offset + blocks.flatten.length := by
  induction blocks generalizing offset with
  | nil => cases hr
  | cons block blocks ih =>
      rw [List.flatten_cons, List.length_append, ← Nat.add_assoc]
      rcases List.mem_cons.mp hr with rfl | hlater
      · exact Nat.le_add_right _ _
      · exact ih hlater

/-- No range goes past the end. -/
theorem Tiles.stop_le {payload : List β} {ranges : List Range} {blocks : List (List β)}
    (h : Tiles payload ranges blocks) {r : Range} (hr : r ∈ ranges) : r.stop ≤ payload.length := by
  rcases h.unique with ⟨hpayload, hranges⟩
  rw [hranges] at hr
  simpa [hpayload] using rangesFrom_stop_le hr

end Layout
