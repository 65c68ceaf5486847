import Mathlib.Algebra.GroupWithZero.Nat
import Mathlib.Data.List.Perm.Basic
import Mathlib.Tactic.Common

/-!
# Tiers — a list of queues

Operations on a fixed number of queues that are addressed by their index, or searched from the
front or the back for the first one that is not empty, and what they do to all elements together.
-/

namespace PyStd
namespace Tiers

variable {α β : Type}

/-- A queue gives up one of its elements; `none` when it is empty. -/
structure Takes (take : List α → Option (α × List α)) : Prop where
  none_iff {queue : List α} : take queue = none ↔ queue = []
  perm {queue rest : List α} {x : α} : take queue = some (x, rest) → queue.Perm (x :: rest)

/-- `deque.popleft` -/
def popleft : List α → Option (α × List α)
  | [] => none
  | x :: rest => some (x, rest)

theorem popleft_some {queue rest : List α} {x : α} (h : popleft queue = some (x, rest)) :
    queue = x :: rest := by
  cases queue with
  | nil => simp [popleft] at h
  | cons y tail =>
      simp only [popleft, Option.some.injEq, Prod.mk.injEq] at h
      rw [h.1, h.2]

theorem popleft_takes : Takes (popleft (α := α)) where
  none_iff {queue} := by
    cases queue with
    | nil => simp [popleft]
    | cons x rest => simp [popleft]
  perm {queue rest x} h := by
    rw [popleft_some h]

/-! ## The first queue that is not empty -/

/-- `for queue in queues: if queue: return take(queue)` -/
def takeFirst (take : List α → Option (α × List α)) :
    List (List α) → Option (α × List (List α))
  | [] => none
  | queue :: queues =>
      match take queue with
      | some (x, rest) => some (x, rest :: queues)
      | none =>
          match takeFirst take queues with
          | some (x, rest) => some (x, queue :: rest)
          | none => none

/-- The same loop from the last queue to the first. -/
def takeLast (take : List α → Option (α × List α)) (queues : List (List α)) :
    Option (α × List (List α)) :=
  match takeFirst take queues.reverse with
  | some (x, rest) => some (x, rest.reverse)
  | none => none

/-- With one queue, the loops only ask that queue. -/
theorem takeFirst_singleton (take : List α → Option (α × List α)) (queue : List α) :
    takeFirst take [queue] = (take queue).map fun taken => (taken.1, [taken.2]) := by
  cases htake : take queue <;> simp [takeFirst, htake]

theorem takeLast_singleton (take : List α → Option (α × List α)) (queue : List α) :
    takeLast take [queue] = (take queue).map fun taken => (taken.1, [taken.2]) := by
  simp only [takeLast, List.reverse_singleton, takeFirst_singleton]
  cases take queue <;> rfl

variable {take : List α → Option (α × List α)}

theorem takeFirst_none (h : Takes take) {queues : List (List α)} :
    takeFirst take queues = none ↔ queues.flatten = [] := by
  induction queues with
  | nil => simp [takeFirst]
  | cons queue queues ih =>
      cases htake : take queue with
      | some taken =>
          have hne : queue ≠ [] := by
            intro hnil
            simp [h.none_iff.mpr hnil] at htake
          simp [takeFirst, htake, hne]
      | none =>
          have hnil : queue = [] := h.none_iff.mp htake
          have hflat : (queue :: queues).flatten = queues.flatten := by simp [hnil]
          rw [hflat, ← ih]
          cases hrest : takeFirst take queues <;> simp [takeFirst, htake, hrest]

/-- The loop takes from one queue; those before it are empty, and all others stay as they are. -/
theorem takeFirst_split (h : Takes take) {queues rest : List (List α)} {x : α}
    (hfirst : takeFirst take queues = some (x, rest)) :
    ∃ before queue queue' after, queues = before ++ queue :: after ∧ (∀ q ∈ before, q = []) ∧
      take queue = some (x, queue') ∧ rest = before ++ queue' :: after := by
  induction queues generalizing rest with
  | nil => simp [takeFirst] at hfirst
  | cons queue queues ih =>
      cases htake : take queue with
      | some taken =>
          rcases taken with ⟨y, queue'⟩
          simp only [takeFirst, htake, Option.some.injEq, Prod.mk.injEq] at hfirst
          rcases hfirst with ⟨rfl, rfl⟩
          exact ⟨[], queue, queue', queues, rfl, by simp, htake, rfl⟩
      | none =>
          cases hrest : takeFirst take queues with
          | none => simp [takeFirst, htake, hrest] at hfirst
          | some taken =>
              rcases taken with ⟨y, tail⟩
              simp only [takeFirst, htake, hrest, Option.some.injEq, Prod.mk.injEq] at hfirst
              -- the queue that was passed over is empty and stays where it is
              rcases hfirst with ⟨rfl, rfl⟩
              rcases ih hrest with ⟨before, q, q', after, hsplit, hempty, hq, hrest'⟩
              refine ⟨queue :: before, q, q', after, by simp [hsplit], ?_, hq, by simp [hrest']⟩
              intro passed hpassed
              rcases List.mem_cons.mp hpassed with rfl | hmem
              · exact h.none_iff.mp htake
              · exact hempty passed hmem

/-- One queue gives up an element. -/
theorem flatten_split (h : Takes take) {before after : List (List α)} {queue queue' : List α}
    {x : α} (htake : take queue = some (x, queue')) :
    (before ++ queue :: after).flatten.Perm (x :: (before ++ queue' :: after).flatten) := by
  simp only [List.flatten_append, List.flatten_cons]
  calc
    (before.flatten ++ (queue ++ after.flatten)).Perm
        (before.flatten ++ (x :: queue' ++ after.flatten)) :=
      ((h.perm htake).append_right after.flatten).append_left before.flatten
    List.Perm _ (x :: (before.flatten ++ (queue' ++ after.flatten))) := List.perm_middle

theorem takeFirst_some (h : Takes take) {queues rest : List (List α)} {x : α}
    (hfirst : takeFirst take queues = some (x, rest)) :
    rest.length = queues.length ∧ queues.flatten.Perm (x :: rest.flatten) := by
  rcases takeFirst_split h hfirst with ⟨before, queue, queue', after, rfl, -, htake, rfl⟩
  exact ⟨by simp, flatten_split h htake⟩

theorem flatten_reverse_perm (queues : List (List α)) :
    queues.reverse.flatten.Perm queues.flatten :=
  (List.reverse_perm queues).flatten

theorem takeLast_none (h : Takes take) {queues : List (List α)} :
    takeLast take queues = none ↔ queues.flatten = [] := by
  have hnil : queues.reverse.flatten = [] ↔ queues.flatten = [] := by
    rw [← List.length_eq_zero_iff, ← List.length_eq_zero_iff,
      (flatten_reverse_perm queues).length_eq]
  rw [← hnil, ← takeFirst_none h]
  unfold takeLast
  cases takeFirst take queues.reverse <;> simp

/-- Seen from the other end, the queues behind the one that gives are empty. -/
theorem takeLast_split (h : Takes take) {queues rest : List (List α)} {x : α}
    (hlast : takeLast take queues = some (x, rest)) :
    ∃ before queue queue' after, queues = before ++ queue :: after ∧ (∀ q ∈ after, q = []) ∧
      take queue = some (x, queue') ∧ rest = before ++ queue' :: after := by
  unfold takeLast at hlast
  cases hfirst : takeFirst take queues.reverse with
  | none => simp [hfirst] at hlast
  | some taken =>
      rcases taken with ⟨y, tail⟩
      simp only [hfirst, Option.some.injEq, Prod.mk.injEq] at hlast
      rcases hlast with ⟨rfl, rfl⟩
      rcases takeFirst_split h hfirst with ⟨before, q, q', after, hsplit, hempty, hq, rfl⟩
      refine ⟨after.reverse, q, q', before.reverse, ?_, ?_, hq, by simp⟩
      · rw [← List.reverse_reverse queues, hsplit]
        simp
      · intro passed hpassed
        exact hempty passed (List.mem_reverse.mp hpassed)

theorem takeLast_some (h : Takes take) {queues rest : List (List α)} {x : α}
    (hlast : takeLast take queues = some (x, rest)) :
    rest.length = queues.length ∧ queues.flatten.Perm (x :: rest.flatten) := by
  rcases takeLast_split h hlast with ⟨before, queue, queue', after, rfl, -, htake, rfl⟩
  exact ⟨by simp, flatten_split h htake⟩

/-! ## One queue by its index -/

/-- Replacing a queue takes the old one out and puts the new one in. -/
theorem flatten_set_perm {queues : List (List α)} {i : Nat} (h : i < queues.length)
    (queue : List α) :
    ((queues.set i queue).flatten ++ queues.getD i []).Perm (queues.flatten ++ queue) := by
  induction queues generalizing i with
  | nil => simp at h
  | cons first queues ih =>
      cases i with
      | zero =>
          simp only [List.set_cons_zero, List.flatten_cons, List.getD_cons_zero, List.append_assoc]
          calc
            (queue ++ (queues.flatten ++ first)).Perm ((queues.flatten ++ first) ++ queue) :=
              List.perm_append_comm
            List.Perm _ ((first ++ queues.flatten) ++ queue) :=
              List.perm_append_comm.append_right queue
            List.Perm _ (first ++ (queues.flatten ++ queue)) := by simp
      | succ i =>
          have hi : i < queues.length := by simpa using h
          simpa using (ih hi).append_left first

/-- A queue that gains an element. -/
theorem flatten_set_cons {queues : List (List α)} {i : Nat} (h : i < queues.length)
    {queue : List α} {x : α} (hqueue : queue.Perm (x :: queues.getD i [])) :
    (queues.set i queue).flatten.Perm (x :: queues.flatten) := by
  have hset := flatten_set_perm h queue
  have hmove : (queues.flatten ++ queue).Perm (x :: queues.flatten ++ queues.getD i []) := by
    calc
      (queues.flatten ++ queue).Perm (queues.flatten ++ x :: queues.getD i []) :=
        hqueue.append_left _
      List.Perm _ (x :: queues.flatten ++ queues.getD i []) := List.perm_middle
  exact (List.perm_append_right_iff (queues.getD i [])).mp (hset.trans hmove)

/-- A queue that loses an element. -/
theorem flatten_set_drop {queues : List (List α)} {i : Nat} (h : i < queues.length)
    {queue : List α} {x : α} (hqueue : (queues.getD i []).Perm (x :: queue)) :
    queues.flatten.Perm (x :: (queues.set i queue).flatten) := by
  have hset := flatten_set_perm h queue
  have hmove : ((queues.set i queue).flatten ++ queues.getD i []).Perm
      (x :: (queues.set i queue).flatten ++ queue) := by
    calc
      ((queues.set i queue).flatten ++ queues.getD i []).Perm
          ((queues.set i queue).flatten ++ x :: queue) := hqueue.append_left _
      List.Perm _ (x :: (queues.set i queue).flatten ++ queue) := List.perm_middle
  exact (List.perm_append_right_iff queue).mp (hset.symm.trans hmove)

theorem getD_set {queues : List (List α)} {i : Nat} (hi : i < queues.length) (queue : List α)
    (j : Nat) : (queues.set i queue).getD j [] = if j = i then queue else queues.getD j [] := by
  by_cases hij : i = j
  · subst hij
    simp [hi]
  · simp [hij, Ne.symm hij]

theorem getD_map {f : List α → List β} (hf : f [] = []) (queues : List (List α)) (i : Nat) :
    (queues.map f).getD i [] = f (queues.getD i []) := by
  by_cases hi : i < queues.length <;> simp [hi, hf]

theorem mem_flatten {queues : List (List α)} {x : α} :
    x ∈ queues.flatten ↔ ∃ i, x ∈ queues.getD i [] := by
  constructor
  · intro hx
    rcases List.mem_flatten.mp hx with ⟨queue, hqueue, hmem⟩
    rcases List.mem_iff_getElem.mp hqueue with ⟨i, hi, rfl⟩
    exact ⟨i, by simpa [hi] using hmem⟩
  · rintro ⟨i, hx⟩
    by_cases hi : i < queues.length
    · refine List.mem_flatten.mpr ⟨queues[i], List.getElem_mem hi, ?_⟩
      simpa [hi] using hx
    · simp [hi] at hx

theorem getD_middle (before after : List (List α)) (queue : List α) :
    (before ++ queue :: after).getD before.length [] = queue := by
  simp

theorem set_middle (before after : List (List α)) (queue queue' : List α) :
    (before ++ queue :: after).set before.length queue' = before ++ queue' :: after := by
  simp

/-- The index of the queue that gives. -/
theorem takeFirst_set (h : Takes take) {queues rest : List (List α)} {x : α}
    (hfirst : takeFirst take queues = some (x, rest)) :
    ∃ i queue', i < queues.length ∧ take (queues.getD i []) = some (x, queue') ∧
      rest = queues.set i queue' := by
  rcases takeFirst_split h hfirst with ⟨before, queue, queue', after, rfl, -, htake, rfl⟩
  refine ⟨before.length, queue', by simp, ?_, (set_middle before after queue queue').symm⟩
  rw [getD_middle]
  exact htake

theorem takeLast_set (h : Takes take) {queues rest : List (List α)} {x : α}
    (hlast : takeLast take queues = some (x, rest)) :
    ∃ i queue', i < queues.length ∧ take (queues.getD i []) = some (x, queue') ∧
      rest = queues.set i queue' := by
  rcases takeLast_split h hlast with ⟨before, queue, queue', after, rfl, -, htake, rfl⟩
  refine ⟨before.length, queue', by simp, ?_, (set_middle before after queue queue').symm⟩
  rw [getD_middle]
  exact htake

/-! ## All queues at once -/

/-- Filtering every queue, up to the order inside the queues. -/
theorem flatten_map_filter {keep : α → Bool} {f : List α → List α}
    (hf : ∀ queue, (f queue).Perm (queue.filter keep)) (queues : List (List α)) :
    (queues.map f).flatten.Perm (queues.flatten.filter keep) := by
  induction queues with
  | nil => simp
  | cons queue queues ih => simpa using (hf queue).append ih

/-- The removed elements, counted queue by queue. -/
theorem sum_removed {keep : α → Bool} {f : List α → List α}
    (hf : ∀ queue, (f queue).Perm (queue.filter keep)) (queues : List (List α)) :
    (queues.map fun queue => queue.length - (f queue).length).sum =
      (queues.flatten.filter fun x => !keep x).length := by
  induction queues with
  | nil => rfl
  | cons queue queues ih =>
      have hlength := (hf queue).length_eq
      have hsplit := List.length_eq_length_filter_add (l := queue) keep
      simp only [List.map_cons, List.sum_cons, List.flatten_cons, List.filter_append,
        List.length_append, ih]
      omega

/-! ## One queue after the other -/

theorem flatten_eq_flatMap (queues : List (List α)) :
    queues.flatten = (List.range queues.length).flatMap fun i => queues.getD i [] := by
  have hrange : queues = (List.range queues.length).map fun i => queues.getD i [] := by
    apply List.ext_getElem
    · simp
    · intro i hi _
      simp [hi]
  rw [List.flatMap_def, ← hrange]

/-- A smaller index comes before a larger one. -/
theorem mem_before {n i j : Nat} {before after : List Nat}
    (hrange : List.range n = before ++ i :: after) (hlt : j < i) (hj : j < n) : j ∈ before := by
  have hsorted : (before ++ i :: after).Pairwise (· < ·) := hrange ▸ List.pairwise_lt_range
  have hmem : j ∈ before ++ i :: after := hrange ▸ List.mem_range.mpr hj
  have hafter := (List.pairwise_cons.mp (List.pairwise_append.mp hsorted).2.1).1
  rcases List.mem_append.mp hmem with hbefore | hrest
  · exact hbefore
  · rcases List.mem_cons.mp hrest with rfl | hlater
    · exact absurd hlt (Nat.lt_irrefl j)
    · exact absurd (hafter j hlater) (Nat.lt_asymm hlt)

/-- The first queue that is not empty has lost its head. -/
theorem flatMap_head {f g : Nat → List α} {n i : Nat} {x : α} (hi : i < n)
    (hbefore : ∀ j < i, f j = [] ∧ g j = []) (hqueue : f i = x :: g i)
    (hafter : ∀ j, i < j → f j = g j) :
    (List.range n).flatMap f = x :: (List.range n).flatMap g := by
  have hsplit : List.range n = List.range i ++ i :: List.range' (i + 1) (n - (i + 1)) := by
    have happend : List.range' 0 i ++ List.range' (0 + i) (n - (i + 1) + 1) =
        List.range' 0 (i + (n - (i + 1) + 1)) := List.range'_append_1
    have hlength : i + (n - (i + 1) + 1) = n := by omega
    rw [Nat.zero_add, hlength, List.range'_succ] at happend
    rw [List.range_eq_range', List.range_eq_range']
    exact happend.symm
  have hnil : ∀ h : Nat → List α, (∀ j < i, h j = []) → (List.range i).flatMap h = [] := by
    intro h hh
    simpa using hh
  have hrest : (List.range' (i + 1) (n - (i + 1))).flatMap f =
      (List.range' (i + 1) (n - (i + 1))).flatMap g := by
    apply List.flatMap_congr
    intro j hj
    have hlt := (List.mem_range'_1.mp hj).1
    exact hafter j hlt
  rw [hsplit, List.flatMap_append, List.flatMap_append, hnil f fun j hj => (hbefore j hj).1,
    hnil g fun j hj => (hbefore j hj).2]
  simp [hqueue, hrest]

theorem flatMap_single {f : Nat → List α} {i : Nat} (h : ∀ j, j ≠ i → f j = []) (n : Nat) :
    (List.range n).flatMap f = if i < n then f i else [] := by
  induction n with
  | zero => simp
  | succ n ih =>
      rw [List.range_succ, List.flatMap_append, ih, List.flatMap_singleton]
      by_cases hn : n = i
      · simp [hn]
      · rw [h n hn, List.append_nil]
        have hiff : i < n ↔ i < n + 1 := by omega
        simp only [hiff]

/-! ## Queues by rank -/

/-- Every element is in the queue of its rank. -/
def Placed (rank : α → Nat) (queues : List (List α)) : Prop :=
  ∀ i, ∀ x ∈ queues.getD i [], rank x = i

namespace Placed

variable {rank : α → Nat} {queues : List (List α)}

theorem replicate (rank : α → Nat) (n : Nat) : Placed rank (List.replicate n []) := by
  intro i x hx
  by_cases hi : i < n <;> simp [hi] at hx

theorem mem_getD (h : Placed rank queues) {x : α} (hx : x ∈ queues.flatten) :
    x ∈ queues.getD (rank x) [] := by
  rcases List.mem_flatten.mp hx with ⟨queue, hqueue, hmem⟩
  rcases List.mem_iff_getElem.mp hqueue with ⟨i, hi, rfl⟩
  have hat : x ∈ queues.getD i [] := by simpa [hi] using hmem
  rw [h i x hat]
  exact hat

/-- A queue is replaced by one that holds elements of its rank. -/
theorem set (h : Placed rank queues) {i : Nat} {queue : List α}
    (hqueue : ∀ x ∈ queue, rank x = i) : Placed rank (queues.set i queue) := by
  intro j x hx
  by_cases hij : i = j
  · subst hij
    by_cases hi : i < queues.length
    · exact hqueue x (by simpa [List.getElem?_set, hi] using hx)
    · simp [hi] at hx
  · exact h j x (by simpa [List.getElem?_set, hij] using hx)

/-- Every queue keeps some of its elements. -/
theorem map (h : Placed rank queues) {f : List α → List α}
    (hf : ∀ queue, ∀ x ∈ f queue, x ∈ queue) : Placed rank (queues.map f) := by
  intro i x hx
  by_cases hi : i < queues.length
  · have hmem : x ∈ f queues[i] := by simpa [hi] using hx
    exact h i x (by simpa [hi] using hf _ x hmem)
  · simp [hi] at hx

section Split

variable {before after : List (List α)} {queue : List α}

theorem rank_middle (h : Placed rank (before ++ queue :: after)) {x : α} (hx : x ∈ queue) :
    rank x = before.length := h before.length x (by simpa using hx)

theorem rank_before (h : Placed rank (before ++ queue :: after)) {x : α}
    (hx : x ∈ before.flatten) : rank x < before.length := by
  rcases List.mem_flatten.mp hx with ⟨q, hq, hmem⟩
  rcases List.mem_iff_getElem.mp hq with ⟨i, hi, rfl⟩
  rw [h i x (by simpa [List.getElem?_append_left hi, hi] using hmem)]
  exact hi

theorem rank_after (h : Placed rank (before ++ queue :: after)) {x : α}
    (hx : x ∈ after.flatten) : before.length < rank x := by
  rcases List.mem_flatten.mp hx with ⟨q, hq, hmem⟩
  rcases List.mem_iff_getElem.mp hq with ⟨i, hi, rfl⟩
  have hat : x ∈ (before ++ queue :: after).getD (before.length + (i + 1)) [] := by
    simpa [List.getElem?_append_right, hi] using hmem
  rw [h _ x hat]
  omega

theorem replace (h : Placed rank (before ++ queue :: after)) {queue' : List α}
    (hsub : ∀ x ∈ queue', x ∈ queue) : Placed rank (before ++ queue' :: after) := by
  have hset : before ++ queue' :: after = (before ++ queue :: after).set before.length queue' := by
    simp
  rw [hset]
  exact h.set fun x hx => h.rank_middle (hsub x hx)

end Split

/-- The first queue that is not empty gives up an element of the least rank. -/
theorem takeFirst (h : Placed rank queues) (htakes : Takes take) {rest : List (List α)} {x : α}
    (hfirst : Tiers.takeFirst take queues = some (x, rest)) :
    Placed rank rest ∧ ∀ y ∈ queues.flatten, rank x ≤ rank y := by
  rcases takeFirst_split htakes hfirst with ⟨before, queue, queue', after, rfl, hempty, hq, rfl⟩
  have hperm := htakes.perm hq
  have hx := h.rank_middle (hperm.mem_iff.mpr List.mem_cons_self)
  refine ⟨h.replace fun y hy => hperm.mem_iff.mpr (List.mem_cons_of_mem x hy), fun y hy => ?_⟩
  have hnil : before.flatten = [] := List.flatten_eq_nil_iff.mpr hempty
  simp only [List.flatten_append, hnil, List.nil_append, List.flatten_cons, List.mem_append] at hy
  rcases hy with hqueue | hafter
  · exact Nat.le_of_eq (hx.trans (h.rank_middle hqueue).symm)
  · rw [hx]
    exact Nat.le_of_lt (h.rank_after hafter)

/-- The last queue that is not empty gives up an element of the greatest rank. -/
theorem takeLast (h : Placed rank queues) (htakes : Takes take) {rest : List (List α)} {x : α}
    (hlast : Tiers.takeLast take queues = some (x, rest)) :
    Placed rank rest ∧ x ∈ queues.flatten ∧ ∀ y ∈ queues.flatten, rank y ≤ rank x := by
  have hflat := (takeLast_some htakes hlast).2
  rcases takeLast_split htakes hlast with ⟨before, queue, queue', after, rfl, hempty, hq, rfl⟩
  have hperm := htakes.perm hq
  have hx := h.rank_middle (hperm.mem_iff.mpr List.mem_cons_self)
  refine ⟨h.replace fun y hy => hperm.mem_iff.mpr (List.mem_cons_of_mem x hy),
    hflat.mem_iff.mpr List.mem_cons_self, fun y hy => ?_⟩
  have hnil : after.flatten = [] := List.flatten_eq_nil_iff.mpr hempty
  simp only [List.flatten_append, List.flatten_cons, hnil, List.append_nil, List.mem_append] at hy
  rcases hy with hbefore | hqueue
  · rw [hx]
    exact Nat.le_of_lt (h.rank_before hbefore)
  · exact Nat.le_of_eq ((h.rank_middle hqueue).trans hx.symm)

end Placed

end Tiers
end PyStd
