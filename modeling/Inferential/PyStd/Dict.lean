import Mathlib.Algebra.GroupWithZero.Nat
import Mathlib.Data.List.Induction
import Mathlib.Data.List.Nodup
import Mathlib.Data.List.Perm.Basic
import Mathlib.Tactic.Common

/-!
# Dict — insertion-ordered dictionaries, after Python's `dict`

A dictionary is the list of its items in insertion order, with pairwise distinct keys.  Assigning
to a key that is present keeps its position, assigning to a new key appends it.
-/

namespace PyStd

universe u v w

/-- A Python `dict` (or `OrderedDict`): its items in insertion order. -/
@[ext] structure Dict (κ : Type u) (β : Type v) where
  items : List (κ × β)
  nodup : (items.map Prod.fst).Nodup

namespace Dict

variable {κ : Type u} {β γ : Type v}

/-- `{}` -/
def empty : Dict κ β := ⟨[], by simp⟩

def keys (d : Dict κ β) : List κ := d.items.map Prod.fst

def values (d : Dict κ β) : List β := d.items.map Prod.snd

/-- `len(d)` -/
def size (d : Dict κ β) : Nat := d.items.length

/-- `{k: f(v) for k, v in d.items()}`, also a loop that assigns `f(v)` to each key it visits. -/
def mapValues (f : β → γ) (d : Dict κ β) : Dict κ γ where
  items := d.items.map (fun kv => (kv.1, f kv.2))
  nodup := by simpa [List.map_map, Function.comp_def] using d.nodup

/-- `{k: v for k, v in d.items() if keep(v)}`, also a loop that deletes the keys of other items. -/
def filterValues (keep : β → Bool) (d : Dict κ β) : Dict κ β where
  items := d.items.filter (fun kv => keep kv.2)
  nodup := d.nodup.sublist (List.filter_sublist.map Prod.fst)

/-- `d.popitem(last=False)` -/
def popFirst (d : Dict κ β) : Option ((κ × β) × Dict κ β) :=
  match h : d.items with
  | [] => none
  | kv :: rest => some (kv, ⟨rest, by
      have hnd := d.nodup
      rw [h] at hnd
      exact (List.nodup_cons.mp hnd).2⟩)

theorem popFirst_eq_none {d : Dict κ β} : d.popFirst = none ↔ d.items = [] := by
  unfold popFirst
  split
  · next h => simp [h]
  · next h => simp [h]

theorem popFirst_some {d rest : Dict κ β} {kv : κ × β} (h : d.popFirst = some (kv, rest)) :
    d.items = kv :: rest.items ∧ kv.1 ∉ rest.keys := by
  have hnd := d.nodup
  unfold popFirst at h
  split at h
  · simp at h
  · next hitems =>
      simp only [Option.some.injEq, Prod.mk.injEq] at h
      obtain ⟨rfl, rfl⟩ := h
      rw [hitems] at hnd
      exact ⟨hitems, (List.nodup_cons.mp hnd).1⟩

section ListValues

variable {α : Type v}

/-- The elements of all lists, in the order of the dictionary. -/
def flatten (d : Dict κ (List α)) : List α := d.values.flatten

@[simp] theorem flatten_empty : (empty : Dict κ (List α)).flatten = [] := rfl

theorem flatten_filterValues (d : Dict κ (List α)) :
    (d.filterValues (fun l => !l.isEmpty)).flatten = d.flatten := by
  unfold flatten values filterValues
  dsimp only
  induction d.items with
  | nil => rfl
  | cons kv rest ih =>
      obtain ⟨k, l⟩ := kv
      cases l with
      | nil => simpa using ih
      | cons x l => simpa using ih

theorem flatten_mapValues_filter (keep : α → Bool) (d : Dict κ (List α)) :
    (d.mapValues (fun l => l.filter keep)).flatten = d.flatten.filter keep := by
  simp [flatten, values, mapValues, List.filter_flatten, List.map_map, Function.comp_def]

/-- The elements that filtering every list removes, counted list by list. -/
theorem sum_removed (keep : α → Bool) (d : Dict κ (List α)) :
    (d.values.map fun l => l.length - (l.filter keep).length).sum =
      (d.flatten.filter fun x => !keep x).length := by
  unfold flatten values
  induction d.items with
  | nil => rfl
  | cons kv rest ih =>
      simp only [List.map_cons, List.sum_cons, List.flatten_cons, List.filter_append,
        List.length_append]
      have hsplit := List.length_eq_length_filter_add (l := kv.2) keep
      omega

end ListValues

section DecidableKeys

variable [DecidableEq κ]

/-- `d.get(k)` -/
def get? (d : Dict κ β) (k : κ) : Option β := d.items.lookup k

/-- `k in d` -/
def contains (d : Dict κ β) (k : κ) : Bool := (d.get? k).isSome

/-- The items after `d[k] = v`. -/
def assign (k : κ) (v : β) : List (κ × β) → List (κ × β)
  | [] => [(k, v)]
  -- the first item with the key takes the value, which keeps its position
  | kv :: rest => if kv.1 = k then (k, v) :: rest else kv :: assign k v rest

theorem mem_keys_assign {k k' : κ} {v : β} {items : List (κ × β)} :
    k' ∈ (assign k v items).map Prod.fst ↔ k' = k ∨ k' ∈ items.map Prod.fst := by
  induction items with
  | nil => simp [assign]
  | cons kv rest ih =>
      by_cases hk : kv.1 = k
      · simp [assign, hk]
      · simp only [assign, hk, if_false, List.map_cons, List.mem_cons, ih]
        tauto

theorem nodup_assign (k : κ) (v : β) {items : List (κ × β)} (h : (items.map Prod.fst).Nodup) :
    ((assign k v items).map Prod.fst).Nodup := by
  induction items with
  | nil => simp [assign]
  | cons kv rest ih =>
      have hcons := List.nodup_cons.mp h
      by_cases hk : kv.1 = k
      · subst hk
        simpa [assign] using h
      · rw [assign, if_neg hk, List.map_cons, List.nodup_cons, mem_keys_assign]
        refine ⟨?_, ih hcons.2⟩
        intro hmem
        rcases hmem with heq | hmem
        · exact hk heq
        · exact hcons.1 hmem

/-- `d[k] = v` -/
def set (d : Dict κ β) (k : κ) (v : β) : Dict κ β := ⟨assign k v d.items, nodup_assign k v d.nodup⟩

/-- `del d[k]`, also `d.pop(k, None)` -/
def erase (d : Dict κ β) (k : κ) : Dict κ β where
  items := d.items.filter (fun kv => kv.1 ≠ k)
  nodup := d.nodup.sublist (List.filter_sublist.map Prod.fst)

/-! ## Looking up -/

theorem lookup_eq_none {k : κ} {items : List (κ × β)} :
    items.lookup k = none ↔ k ∉ items.map Prod.fst := by
  induction items with
  | nil => simp
  | cons kv rest ih =>
      obtain ⟨k', v'⟩ := kv
      by_cases hk : k = k'
      · simp [hk]
      · simp only [List.lookup_cons, beq_eq_false_iff_ne.mpr hk, ih, List.map_cons, List.mem_cons,
          hk, false_or]

theorem lookup_some_split {k : κ} {v : β} {items : List (κ × β)} (h : items.lookup k = some v) :
    ∃ before after, items = before ++ (k, v) :: after ∧ k ∉ before.map Prod.fst := by
  induction items with
  | nil => simp at h
  | cons kv rest ih =>
      obtain ⟨k', v'⟩ := kv
      rw [List.lookup_cons] at h
      by_cases hk : k = k'
      · subst hk
        simp only [beq_self_eq_true] at h
        obtain rfl : v' = v := Option.some.inj h
        exact ⟨[], rest, rfl, by simp⟩
      · simp only [beq_eq_false_iff_ne.mpr hk] at h
        -- the key is further down, so the head joins the part before it
        obtain ⟨before, after, hsplit, hnot⟩ := ih h
        refine ⟨(k', v') :: before, after, by simp [hsplit], ?_⟩
        simp only [List.map_cons, List.mem_cons, not_or]
        exact ⟨hk, hnot⟩

theorem assign_split {k : κ} {v v' : β} {before after : List (κ × β)}
    (h : k ∉ before.map Prod.fst) :
    assign k v' (before ++ (k, v) :: after) = before ++ (k, v') :: after := by
  induction before with
  | nil => simp [assign]
  | cons kv rest ih =>
      simp only [List.map_cons, List.mem_cons, not_or] at h
      simp [assign, Ne.symm h.1, ih h.2]

theorem assign_new {k : κ} {v : β} {items : List (κ × β)} (h : k ∉ items.map Prod.fst) :
    assign k v items = items ++ [(k, v)] := by
  induction items with
  | nil => rfl
  | cons kv rest ih =>
      simp only [List.map_cons, List.mem_cons, not_or] at h
      simp [assign, Ne.symm h.1, ih h.2]

theorem get?_eq_none {d : Dict κ β} {k : κ} : d.get? k = none ↔ k ∉ d.keys :=
  lookup_eq_none

theorem mem_keys {d : Dict κ β} {k : κ} : k ∈ d.keys ↔ ∃ v, d.get? k = some v := by
  rw [← Option.isSome_iff_exists, ← not_iff_not, Option.not_isSome_iff_eq_none, get?_eq_none]

theorem contains_iff {d : Dict κ β} {k : κ} : d.contains k = true ↔ k ∈ d.keys := by
  rw [contains, Option.isSome_iff_exists, mem_keys]

/-- A dictionary around one of its items, and what assigning to that key or deleting it leaves. -/
theorem get?_split {d : Dict κ β} {k : κ} {v : β} (h : d.get? k = some v) :
    ∃ before after, d.items = before ++ (k, v) :: after ∧
      (∀ v', (d.set k v').items = before ++ (k, v') :: after) ∧
      (d.erase k).items = before ++ after := by
  obtain ⟨before, after, hsplit, hbefore⟩ := lookup_some_split h
  -- keys are distinct, so the key is on neither side of its item
  have hafter : k ∉ after.map Prod.fst := by
    have hnd := d.nodup
    rw [hsplit, List.map_append, List.map_cons] at hnd
    exact (List.nodup_cons.mp (List.nodup_append.mp hnd).2.1).1
  refine ⟨before, after, hsplit, ?_, ?_⟩
  · intro v'
    simp [set, hsplit, assign_split hbefore]
  · have hb : before.filter (fun kv => kv.1 ≠ k) = before := by
      rw [List.filter_eq_self]
      intro kv hkv
      have : kv.1 ≠ k := fun heq => hbefore (heq ▸ List.mem_map_of_mem hkv)
      simpa using this
    have ha : after.filter (fun kv => kv.1 ≠ k) = after := by
      rw [List.filter_eq_self]
      intro kv hkv
      have : kv.1 ≠ k := fun heq => hafter (heq ▸ List.mem_map_of_mem hkv)
      simpa using this
    simp only [erase, hsplit, List.filter_append, hb, List.append_cancel_left_eq]
    simpa using ha

theorem set_items_new {d : Dict κ β} {k : κ} (h : d.get? k = none) (v : β) :
    (d.set k v).items = d.items ++ [(k, v)] :=
  assign_new (get?_eq_none.mp h)

theorem get?_eq_some {d : Dict κ β} {k : κ} {v : β} : d.get? k = some v ↔ (k, v) ∈ d.items := by
  constructor
  · intro h
    obtain ⟨before, after, hsplit, -, -⟩ := get?_split h
    simp [hsplit]
  · intro h
    obtain ⟨v', hv'⟩ := mem_keys.mp (show k ∈ d.keys from List.mem_map_of_mem h)
    obtain ⟨before, after, hsplit, hbefore⟩ := lookup_some_split hv'
    have hnd := d.nodup
    rw [hsplit, List.map_append, List.map_cons] at hnd
    have hafter := (List.nodup_cons.mp (List.nodup_append.mp hnd).2.1).1
    rw [hsplit] at h
    simp only [List.mem_append, List.mem_cons, Prod.mk.injEq, true_and] at h
    rcases h with h | rfl | h
    · exact absurd (List.mem_map_of_mem h) hbefore
    · exact hv'
    · exact absurd (List.mem_map_of_mem h) hafter

/-- The order of the items does not show in a look-up. -/
theorem get?_perm {d d' : Dict κ β} (h : d.items.Perm d'.items) (k : κ) : d.get? k = d'.get? k := by
  ext v
  rw [get?_eq_some, get?_eq_some, h.mem_iff]

@[simp] theorem get?_empty (k : κ) : (empty : Dict κ β).get? k = none := rfl

@[simp] theorem get?_set_self (d : Dict κ β) (k : κ) (v : β) : (d.set k v).get? k = some v := by
  cases h : d.get? k with
  | none =>
      rw [get?_eq_some, set_items_new h]
      simp
  | some v' =>
      obtain ⟨before, after, -, hset, -⟩ := get?_split h
      rw [get?_eq_some, hset]
      simp

theorem get?_set_other (d : Dict κ β) {k k' : κ} (v : β) (hne : k' ≠ k) :
    (d.set k v).get? k' = d.get? k' := by
  -- the items of other keys are the same whether the key is assigned or appended
  have hiff : ∀ v', (k', v') ∈ (d.set k v).items ↔ (k', v') ∈ d.items := by
    intro v'
    cases h : d.get? k with
    | none =>
        rw [set_items_new h]
        simp [hne]
    | some w =>
        obtain ⟨before, after, hsplit, hset, -⟩ := get?_split h
        rw [hset, hsplit]
        simp [hne]
  ext v'
  rw [get?_eq_some, hiff, ← get?_eq_some]

theorem get?_set (d : Dict κ β) (k k' : κ) (v : β) :
    (d.set k v).get? k' = if k' = k then some v else d.get? k' := by
  split
  · next h => rw [h, get?_set_self]
  · next h => exact get?_set_other d v h

@[simp] theorem get?_erase_self (d : Dict κ β) (k : κ) : (d.erase k).get? k = none := by
  rw [get?_eq_none]
  simp [keys, erase]

theorem get?_erase_other (d : Dict κ β) {k k' : κ} (hne : k' ≠ k) :
    (d.erase k).get? k' = d.get? k' := by
  ext v'
  rw [get?_eq_some, get?_eq_some]
  simp [erase, hne]

theorem get?_erase (d : Dict κ β) (k k' : κ) :
    (d.erase k).get? k' = if k' = k then none else d.get? k' := by
  split
  · next h => rw [h, get?_erase_self]
  · next h => exact get?_erase_other d h

@[simp] theorem get?_mapValues (f : β → γ) (d : Dict κ β) (k : κ) :
    (d.mapValues f).get? k = (d.get? k).map f := by
  ext w
  rw [get?_eq_some, Option.map_eq_some_iff]
  constructor
  · intro h
    obtain ⟨kv, hkv, heq⟩ := List.mem_map.mp h
    obtain ⟨rfl, rfl⟩ := Prod.mk.inj heq
    exact ⟨kv.2, get?_eq_some.mpr hkv, rfl⟩
  · rintro ⟨v, hv, rfl⟩
    exact List.mem_map.mpr ⟨(k, v), get?_eq_some.mp hv, rfl⟩

theorem get?_filterValues (keep : β → Bool) (d : Dict κ β) (k : κ) :
    (d.filterValues keep).get? k = (d.get? k).filter keep := by
  ext w
  rw [get?_eq_some, Option.filter_eq_some_iff, get?_eq_some]
  simp [filterValues]

/-- Assigning a list of items whose keys are distinct. -/
theorem get?_foldl_set (f : β → γ) {items : List (κ × β)} (hnd : (items.map Prod.fst).Nodup)
    (d : Dict κ γ) (k : κ) :
    (items.foldl (fun d kv => d.set kv.1 (f kv.2)) d).get? k =
      ((items.lookup k).map f).or (d.get? k) := by
  induction items generalizing d with
  | nil => simp
  | cons kv items ih =>
      rcases kv with ⟨k', v⟩
      rcases List.nodup_cons.mp hnd with ⟨hnew, hrest⟩
      rw [List.foldl_cons, ih hrest, get?_set]
      by_cases hk : k = k'
      · subst hk
        have hnone : items.lookup k = none := lookup_eq_none.mpr hnew
        simp [hnone]
      · have hbeq : (k == k') = false := beq_eq_false_iff_ne.mpr hk
        simp [List.lookup_cons, hbeq, hk]

/-- Assigning items in a row: the last item of a key stays. -/
theorem get?_foldl_last {α : Type w} (key : α → κ) (value : α → β) (items : List α) (d : Dict κ β)
    (k : κ) :
    (items.foldl (fun d x => d.set (key x) (value x)) d).get? k =
      ((items.filter fun x => key x = k).getLast?.map value).or (d.get? k) := by
  induction items using List.reverseRecOn with
  | nil => simp
  | append_singleton items x ih =>
      rw [List.foldl_append, List.foldl_cons, List.foldl_nil, get?_set, ih]
      by_cases hk : k = key x
      · simp [hk]
      · simp [hk, Ne.symm hk]

/-- When the items of a key agree on its value. -/
theorem get?_foldl_assign {α : Type w} (key : α → κ) (value : α → β) (look : κ → Option β)
    {items : List α} (hlook : ∀ x ∈ items, look (key x) = some (value x)) (d : Dict κ β) (k : κ) :
    (items.foldl (fun d x => d.set (key x) (value x)) d).get? k =
      if k ∈ items.map key then look k else d.get? k := by
  rw [get?_foldl_last]
  cases hlast : (items.filter fun x => key x = k).getLast? with
  | none =>
      have hnone := List.filter_eq_nil_iff.mp (List.getLast?_eq_none_iff.mp hlast)
      have hout : k ∉ items.map key := by
        rintro hk
        rcases List.mem_map.mp hk with ⟨x, hx, hkey⟩
        exact hnone x hx (decide_eq_true hkey)
      rw [if_neg hout]
      rfl
  | some x =>
      rcases List.mem_filter.mp (List.mem_of_getLast? hlast) with ⟨hx, hkey⟩
      have hkey : key x = k := of_decide_eq_true hkey
      rw [if_pos (hkey ▸ List.mem_map_of_mem hx), ← hkey, hlook x hx]
      rfl

omit [DecidableEq κ] in
@[simp] theorem keys_mapValues (f : β → γ) (d : Dict κ β) : (d.mapValues f).keys = d.keys := by
  simp [keys, mapValues, List.map_map, Function.comp_def]

theorem keys_erase (d : Dict κ β) (k : κ) : (d.erase k).keys = d.keys.filter (fun k' => k' ≠ k) := by
  simp [keys, erase, List.filter_map, Function.comp_def]

theorem mem_keys_set {d : Dict κ β} {k k' : κ} {v : β} :
    k' ∈ (d.set k v).keys ↔ k' = k ∨ k' ∈ d.keys := mem_keys_assign

/-- Deleting the keys of the items that `p` selects. -/
theorem get?_foldl_erase (p : β → Bool) (d : Dict κ β) (timers : Dict κ γ) (k : κ) :
    (d.items.foldl (fun t kv => if p kv.2 then t.erase kv.1 else t) timers).get? k =
      if (d.get? k).any p then none else timers.get? k := by
  have hitems : ∀ (items : List (κ × β)) (timers : Dict κ γ),
      (items.foldl (fun t kv => if p kv.2 then t.erase kv.1 else t) timers).get? k =
        if ∃ kv ∈ items, kv.1 = k ∧ p kv.2 = true then none else timers.get? k := by
    intro items
    induction items with
    | nil => simp
    | cons kv items ih =>
        intro timers
        simp only [List.foldl_cons, ih, List.exists_mem_cons_iff]
        by_cases hrest : ∃ kv ∈ items, kv.1 = k ∧ p kv.2 = true
        · rw [if_pos hrest, if_pos (Or.inr hrest)]
        · simp only [hrest, or_false, if_false]
          by_cases hp : p kv.2 = true
          · simp only [hp, if_true, and_true, get?_erase, eq_comm]
          · simp [hp]
  rw [hitems]
  have hiff : (∃ kv ∈ d.items, kv.1 = k ∧ p kv.2 = true) ↔ (d.get? k).any p = true := by
    rw [Option.any_eq_true]
    constructor
    · rintro ⟨kv, hmem, rfl, hp⟩
      exact ⟨kv.2, get?_eq_some.mpr hmem, hp⟩
    · rintro ⟨v, hget, hp⟩
      exact ⟨(k, v), get?_eq_some.mp hget, rfl, hp⟩
  simp only [hiff]

/-- A new key is the last one. -/
theorem keys_set (d : Dict κ β) (k : κ) (v : β) :
    (d.set k v).keys = if k ∈ d.keys then d.keys else d.keys ++ [k] := by
  cases h : d.get? k with
  | none =>
      rw [if_neg (get?_eq_none.mp h), keys, set_items_new h, List.map_append]
      rfl
  | some w =>
      rcases get?_split h with ⟨before, after, hsplit, hset, -⟩
      rw [if_pos (mem_keys.mpr ⟨w, h⟩), keys, keys, hset, hsplit]
      simp

/-- Assigning keeps the keys in their order. -/
theorem keys_sublist_set (d : Dict κ β) (k : κ) (v : β) : d.keys.Sublist (d.set k v).keys := by
  cases h : d.get? k with
  | none =>
      simp only [keys, set_items_new h, List.map_append]
      exact List.sublist_append_left _ _
  | some v' =>
      obtain ⟨before, after, hsplit, hset, -⟩ := get?_split h
      simp [keys, hset, hsplit]

/-! ## Dictionaries of lists -/

section ListValues

variable {α : Type v}

/-- `d.get(k, [])` -/
def listAt (d : Dict κ (List α)) (k : κ) : List α := (d.get? k).getD []

theorem mem_flatten {d : Dict κ (List α)} {x : α} : x ∈ d.flatten ↔ ∃ k, x ∈ d.listAt k := by
  simp only [flatten, values, List.mem_flatten, List.mem_map, listAt]
  constructor
  · rintro ⟨l, ⟨kv, hkv, rfl⟩, hx⟩
    have hget : d.get? kv.1 = some kv.2 := get?_eq_some.mpr hkv
    exact ⟨kv.1, by simpa [hget] using hx⟩
  · rintro ⟨k, hx⟩
    cases hget : d.get? k with
    | none => simp [hget] at hx
    | some l =>
        rw [hget] at hx
        exact ⟨l, ⟨(k, l), get?_eq_some.mp hget, rfl⟩, hx⟩

@[simp] theorem listAt_empty (k : κ) : (empty : Dict κ (List α)).listAt k = [] := rfl

theorem listAt_set (d : Dict κ (List α)) (k k' : κ) (l : List α) :
    (d.set k l).listAt k' = if k' = k then l else d.listAt k' := by
  unfold listAt
  rw [get?_set]
  split <;> rfl

/-- `d[k].append(x)` -/
theorem listAt_append (d : Dict κ (List α)) (k k' : κ) (x : α) :
    (d.set k (d.listAt k ++ [x])).listAt k' =
      if k' = k then d.listAt k' ++ [x] else d.listAt k' := by
  rw [listAt_set]
  by_cases hkey : k' = k
  · simp [hkey]
  · simp [hkey]

theorem listAt_erase (d : Dict κ (List α)) (k k' : κ) :
    (d.erase k).listAt k' = if k' = k then [] else d.listAt k' := by
  unfold listAt
  rw [get?_erase]
  split <;> rfl

/-- Assigning a list takes the old list out and puts the new one in. -/
theorem flatten_set_perm (d : Dict κ (List α)) (k : κ) (l : List α) :
    ((d.set k l).flatten ++ d.listAt k).Perm (d.flatten ++ l) := by
  cases h : d.get? k with
  | none =>
      -- a new key: nothing is taken out
      simp [flatten, values, listAt, h, set_items_new h]
  | some old =>
      obtain ⟨before, after, hsplit, hset, -⟩ := get?_split h
      simp only [flatten, values, listAt, h, hset, hsplit, List.map_append, List.map_cons,
        List.flatten_append, List.flatten_cons, Option.getD_some, List.append_assoc]
      refine List.Perm.append_left _ ?_
      have hperm : (l ++ ((after.map Prod.snd).flatten ++ old)).Perm
          ((after.map Prod.snd).flatten ++ old ++ l) := List.perm_append_comm
      refine hperm.trans ?_
      rw [← List.append_assoc]
      exact List.Perm.append_right l List.perm_append_comm

/-- A list that gains an element. -/
theorem flatten_set_cons {d : Dict κ (List α)} {k : κ} {l : List α} {x : α}
    (h : l.Perm (x :: d.listAt k)) : (d.set k l).flatten.Perm (x :: d.flatten) := by
  have hmove : (d.flatten ++ l).Perm (x :: d.flatten ++ d.listAt k) := by
    calc
      (d.flatten ++ l).Perm (d.flatten ++ x :: d.listAt k) := h.append_left _
      List.Perm _ (x :: d.flatten ++ d.listAt k) := List.perm_middle
  -- the old list is on both sides and cancels
  exact (List.perm_append_right_iff (d.listAt k)).mp ((flatten_set_perm d k l).trans hmove)

/-- A list that loses an element. -/
theorem flatten_set_drop {d : Dict κ (List α)} {k : κ} {l : List α} {x : α}
    (h : (d.listAt k).Perm (x :: l)) : d.flatten.Perm (x :: (d.set k l).flatten) := by
  have hmove : ((d.set k l).flatten ++ d.listAt k).Perm (x :: (d.set k l).flatten ++ l) := by
    calc
      ((d.set k l).flatten ++ d.listAt k).Perm ((d.set k l).flatten ++ x :: l) := h.append_left _
      List.Perm _ (x :: (d.set k l).flatten ++ l) := List.perm_middle
  -- the new list is on both sides and cancels
  exact (List.perm_append_right_iff l).mp ((flatten_set_perm d k l).symm.trans hmove)

theorem flatten_erase_perm (d : Dict κ (List α)) (k : κ) :
    ((d.erase k).flatten ++ d.listAt k).Perm d.flatten := by
  cases h : d.get? k with
  | none =>
      have herase : (d.erase k).items = d.items := by
        simp only [erase, List.filter_eq_self]
        intro kv hkv
        have : kv.1 ≠ k := by
          rintro rfl
          exact get?_eq_none.mp h (List.mem_map_of_mem hkv)
        simpa using this
      simp [flatten, values, listAt, h, herase]
  | some old =>
      obtain ⟨before, after, hsplit, -, herase⟩ := get?_split h
      simp only [flatten, values, listAt, h, herase, hsplit, List.map_append, List.map_cons,
        List.flatten_append, List.flatten_cons, Option.getD_some, List.append_assoc]
      exact List.Perm.append_left _ List.perm_append_comm

/-- Every element knows the key it is filed under. -/
def Owned (owner : α → κ) (d : Dict κ (List α)) : Prop :=
  ∀ kv ∈ d.items, ∀ x ∈ kv.2, owner x = kv.1

namespace Owned

variable {owner : α → κ} {d : Dict κ (List α)}

theorem listAt (h : Owned owner d) {k : κ} {x : α} (hx : x ∈ d.listAt k) : owner x = k := by
  cases hget : d.get? k with
  | none => simp [Dict.listAt, hget] at hx
  | some l =>
      simp only [Dict.listAt, hget, Option.getD_some] at hx
      exact h (k, l) (get?_eq_some.mp hget) x hx

theorem set (h : Owned owner d) {k : κ} {l : List α} (hl : ∀ x ∈ l, owner x = k) :
    Owned owner (d.set k l) := by
  intro kv hkv x hx
  have hget : (d.set k l).get? kv.1 = some kv.2 := get?_eq_some.mpr hkv
  rw [get?_set] at hget
  split at hget
  · next heq =>
      obtain rfl := Option.some.inj hget
      exact (hl x hx).trans heq.symm
  · exact h kv (get?_eq_some.mp hget) x hx

theorem erase (h : Owned owner d) (k : κ) : Owned owner (d.erase k) :=
  fun kv hkv => h kv (List.mem_of_mem_filter hkv)

omit [DecidableEq κ] in
theorem filter (h : Owned owner d) (keep : α → Bool) :
    Owned owner (d.mapValues fun l => l.filter keep) := by
  intro kv hkv x hx
  obtain ⟨kv', hkv', rfl⟩ := List.mem_map.mp hkv
  exact h kv' hkv' x (List.mem_of_mem_filter hx)

/-- Deleting a key deletes the elements that it owns. -/
theorem flatten_erase (h : Owned owner d) (k : κ) :
    (d.erase k).flatten = d.flatten.filter fun x => owner x ≠ k := by
  unfold Owned at h
  unfold flatten values Dict.erase
  dsimp only
  revert h
  induction d.items with
  | nil => simp
  | cons kv rest ih =>
      intro h
      have hrest := ih (fun kv' hkv' => h kv' (List.mem_cons_of_mem kv hkv'))
      have hkv := h kv List.mem_cons_self
      by_cases hk : kv.1 = k
      · have hnone : kv.2.filter (fun x => owner x ≠ k) = [] := by
          rw [List.filter_eq_nil_iff]
          intro x hx
          simp [hkv x hx, hk]
        rw [List.filter_cons_of_neg (by simp [hk])]
        simp only [List.map_cons, List.flatten_cons, List.filter_append, hnone, List.nil_append]
        exact hrest
      · have hall : kv.2.filter (fun x => owner x ≠ k) = kv.2 := by
          rw [List.filter_eq_self]
          intro x hx
          simp [hkv x hx, hk]
        rw [List.filter_cons_of_pos (by simp [hk])]
        simp only [List.map_cons, List.flatten_cons, List.filter_append, hall]
        exact congrArg (kv.2 ++ ·) hrest

/-- The elements of one key are those of its list. -/
theorem filter_flatten (h : Owned owner d) (k : κ) :
    d.flatten.filter (fun x => owner x = k) = d.listAt k := by
  have hself : (d.listAt k).filter (fun x => owner x = k) = d.listAt k :=
    List.filter_eq_self.mpr fun x hx => by simpa using h.listAt hx
  have hnone : ∀ items : List (κ × List α), (∀ kv ∈ items, kv ∈ d.items ∧ kv.1 ≠ k) →
      (items.map Prod.snd).flatten.filter (fun x => owner x = k) = [] := by
    intro items hitems
    apply List.filter_eq_nil_iff.mpr
    intro x hx
    rcases List.mem_flatten.mp hx with ⟨l, hl, hxl⟩
    rcases List.mem_map.mp hl with ⟨kv, hkv, rfl⟩
    rcases hitems kv hkv with ⟨hmem, hne⟩
    simpa [h kv hmem x hxl] using hne
  cases hget : d.get? k with
  | none =>
      have hkeys := get?_eq_none.mp hget
      have hall := hnone d.items fun kv hkv =>
        ⟨hkv, fun heq => hkeys (heq ▸ List.mem_map_of_mem hkv)⟩
      simpa [Dict.flatten, values, Dict.listAt, hget] using hall
  | some l =>
      rcases get?_split hget with ⟨before, after, hsplit, -, herase⟩
      -- the items around it are those that deleting the key leaves
      have hothers : ∀ kv ∈ before ++ after, kv ∈ d.items ∧ kv.1 ≠ k := by
        rw [← herase]
        intro kv hkv
        simpa [Dict.erase] using List.mem_filter.mp hkv
      have hbefore := hnone before fun kv hkv => hothers kv (List.mem_append_left _ hkv)
      have hafter := hnone after fun kv hkv => hothers kv (List.mem_append_right _ hkv)
      have hlist : d.listAt k = l := by simp [Dict.listAt, hget]
      rw [hlist] at hself
      simp only [Dict.flatten, values, hsplit, List.map_append, List.map_cons, List.flatten_append,
        List.flatten_cons, List.filter_append, hbefore, hafter, hself, hlist, List.nil_append,
        List.append_nil]

end Owned

theorem listAt_sublist_flatten (d : Dict κ (List α)) (k : κ) :
    (d.listAt k).Sublist d.flatten := by
  cases h : d.get? k with
  | none => simp [listAt, h]
  | some l =>
      obtain ⟨before, after, hsplit, -, -⟩ := get?_split h
      simp only [listAt, h, Option.getD_some, flatten, values, hsplit, List.map_append,
        List.map_cons, List.flatten_append, List.flatten_cons]
      exact (List.sublist_append_left l _).trans (List.sublist_append_right _ _)

/-- The lengths of the non-empty lists, looked up key by key. -/
theorem sum_length_listAt (d : Dict κ (List α)) :
    (((d.items.filter fun kv => !kv.2.isEmpty).map Prod.fst).map
      fun k => (d.listAt k).length).sum = d.flatten.length := by
  have hlook : ∀ kv ∈ d.items, d.listAt kv.1 = kv.2 := by
    intro kv hkv
    have hget : d.get? kv.1 = some kv.2 := get?_eq_some.mpr hkv
    simp [listAt, hget]
  unfold flatten values
  -- the induction is on the items, so the look-up becomes an arbitrary function first
  revert hlook
  generalize d.listAt = look
  induction d.items with
  | nil => simp
  | cons kv rest ih =>
      intro hlook
      have hrest := ih (fun kv' hkv' => hlook kv' (List.mem_cons_of_mem kv hkv'))
      have hkv := hlook kv List.mem_cons_self
      cases hl : kv.2 with
      | nil => simpa [hl] using hrest
      | cons x l =>
          have hkeep : (!kv.2.isEmpty) = true := by simp [hl]
          rw [List.filter_cons, if_pos hkeep]
          simp only [List.map_cons, List.sum_cons, List.flatten_cons, List.length_append, hkv,
            hrest]

theorem listAt_mapValues {f : List α → List α} (hf : f [] = []) (d : Dict κ (List α)) (k : κ) :
    (d.mapValues f).listAt k = f (d.listAt k) := by
  unfold listAt
  rw [get?_mapValues]
  cases d.get? k <;> simp [hf]

/-- Deleting the keys of empty lists does not show in `listAt`. -/
theorem listAt_filterValues (d : Dict κ (List α)) (k : κ) :
    (d.filterValues (fun l => !l.isEmpty)).listAt k = d.listAt k := by
  unfold listAt
  rw [get?_filterValues]
  cases d.get? k with
  | none => rfl
  | some l => cases l <;> simp [Option.filter]

theorem flatten_mapValues_perm {f g : List α → List α} (d : Dict κ (List α))
    (h : ∀ k, (f (d.listAt k)).Perm (g (d.listAt k))) :
    (d.mapValues f).flatten.Perm (d.mapValues g).flatten := by
  have hmem : ∀ kv ∈ d.items, (f kv.2).Perm (g kv.2) := by
    intro kv hkv
    have hget : d.get? kv.1 = some kv.2 := get?_eq_some.mpr hkv
    have := h kv.1
    simpa [listAt, hget] using this
  unfold flatten values mapValues
  dsimp only
  revert hmem
  induction d.items with
  | nil => simp
  | cons kv rest ih =>
      intro hmem
      simp only [List.map_cons, List.flatten_cons]
      exact (hmem kv List.mem_cons_self).append
        (ih (fun kv' hkv' => hmem kv' (List.mem_cons_of_mem kv hkv')))

/-- All elements are filed under one key. -/
def Lone (d : Dict κ (List α)) (k : κ) (l : List α) : Prop :=
  ∀ k', d.listAt k' = if k' = k then l else []

namespace Lone

variable {d : Dict κ (List α)} {k : κ} {l : List α}

theorem empty (k : κ) : (empty : Dict κ (List α)).Lone k [] := by
  intro k'
  simp

theorem listAt (h : d.Lone k l) : d.listAt k = l := by
  simpa using h k

theorem set (h : d.Lone k l) (l' : List α) : (d.set k l').Lone k l' := by
  intro k'
  rw [listAt_set, h k']
  split <;> rfl

theorem mapValues (h : d.Lone k l) {f : List α → List α} (hf : f [] = []) :
    (d.mapValues f).Lone k (f l) := by
  intro k'
  rw [listAt_mapValues hf, h k']
  split
  · rfl
  · exact hf

theorem erase (h : d.Lone k l) : (d.erase k).Lone k [] := by
  intro k'
  rw [listAt_erase, h k']
  split <;> rfl

theorem erase_other (h : d.Lone k l) {k' : κ} (hne : k' ≠ k) : (d.erase k').Lone k l := by
  intro j
  rw [listAt_erase, h j]
  by_cases hj : j = k'
  · simp [hj, hne]
  · simp [hj]

/-- A new key without elements. -/
theorem set_new (h : d.Lone k l) {k' : κ} (hnew : d.get? k' = none) : (d.set k' []).Lone k l := by
  have hnil : d.listAt k' = [] := by simp [Dict.listAt, hnew]
  intro j
  rw [listAt_set, ← h j]
  split
  · next hj => rw [hj, hnil]
  · rfl

theorem flatten (h : d.Lone k l) : d.flatten.Perm l := by
  have hnil : (d.erase k).flatten = [] := by
    refine List.eq_nil_iff_forall_not_mem.mpr fun x hx => ?_
    rcases mem_flatten.mp hx with ⟨k', hmem⟩
    simp [h.erase k'] at hmem
  simpa [hnil, h.listAt] using (flatten_erase_perm d k).symm

/-- A dictionary with these items and none but empty ones of the old beside them. -/
theorem of_items (h : d.Lone k l) {d' : Dict κ (List α)} {l' : List α} (hmem : (k, l') ∈ d'.items)
    (hothers : ∀ kv ∈ d'.items, kv = (k, l') ∨ kv ∈ d.items) : d'.Lone k l' := by
  intro k'
  by_cases hk : k' = k
  · subst hk
    simp [Dict.listAt, get?_eq_some.mpr hmem]
  · rw [if_neg hk]
    cases hget : d'.get? k' with
    | none => simp [Dict.listAt, hget]
    | some m =>
        rcases hothers _ (get?_eq_some.mp hget) with heq | hold
        · exact absurd (congrArg Prod.fst heq) hk
        · have hnil := h k'
          simpa [Dict.listAt, hget, get?_eq_some.mpr hold, hk] using hnil

theorem sum_removed (h : d.Lone k l) (keep : α → Bool) :
    (d.values.map fun l => l.length - (l.filter keep).length).sum =
      l.length - (l.filter keep).length := by
  have hlength := (h.flatten.filter fun x => !keep x).length_eq
  have hsplit := List.length_eq_length_filter_add (l := l) keep
  rw [Dict.sum_removed, hlength]
  omega

/-- When no item has elements, there are none. -/
theorem eq_nil (h : d.Lone k l) (hempty : ∀ kv ∈ d.items, kv.2 = []) : l = [] := by
  rw [← h.listAt]
  cases hget : d.get? k with
  | none => simp [Dict.listAt, hget]
  | some l' =>
      have hnil := hempty _ (get?_eq_some.mp hget)
      simpa [Dict.listAt, hget] using hnil

/-- A list with elements is the one of the key. -/
theorem of_mem (h : d.Lone k l) {k' : κ} {x : α} (hx : x ∈ d.listAt k') : k' = k := by
  rw [h k'] at hx
  by_contra hne
  simp [hne] at hx

end Lone

end ListValues

/-! ## An index of a list -/

/-- The dictionary tells where in the list each key stands. -/
def Indexes (d : Dict κ Nat) (l : List κ) : Prop := ∀ k i, d.get? k = some i ↔ l[i]? = some k

theorem indexes_empty : Indexes (empty : Dict κ Nat) [] := by
  intro k i
  simp

namespace Indexes

variable {d : Dict κ Nat} {l : List κ}

/-- No key stands at two places. -/
theorem unique (h : Indexes d l) {k : κ} {i j : Nat} (hi : l[i]? = some k) (hj : l[j]? = some k) :
    i = j := by
  have hget := (h k i).mpr hi
  rw [(h k j).mpr hj, Option.some.injEq] at hget
  exact hget.symm

theorem nodup (h : Indexes d l) : l.Nodup := by
  refine List.pairwise_iff_getElem.mpr fun i j hi hj hlt heq => Nat.ne_of_lt hlt ?_
  exact h.unique (List.getElem?_eq_getElem hi) (heq ▸ List.getElem?_eq_getElem hj)

theorem absent (h : Indexes d l) {k : κ} (hnew : d.get? k = none) : k ∉ l := by
  intro hk
  obtain ⟨i, hi⟩ := List.mem_iff_getElem?.mp hk
  rw [(h k i).mpr hi] at hnew
  cases hnew

/-- A new key is put at the end. -/
theorem append (h : Indexes d l) {k : κ} (hnew : d.get? k = none) :
    Indexes (d.set k l.length) (l ++ [k]) := by
  intro k' i
  have hout : l.length ≤ i → d.get? k' ≠ some i := by
    intro hle heq
    have hnone := (h k' i).mp heq
    rw [List.getElem?_eq_none hle] at hnone
    cases hnone
  rw [get?_set]
  -- the places before the end are untouched, the end is the new key, beyond it is nothing
  rcases Nat.lt_trichotomy i l.length with hlt | rfl | hgt
  · rw [List.getElem?_append_left hlt]
    split
    · next heq =>
        have hne : l[i]? ≠ some k' := fun hi => h.absent hnew (heq ▸ List.mem_of_getElem? hi)
        simp [hne, Nat.ne_of_gt hlt]
    · exact h k' i
  · rw [List.getElem?_concat_length]
    split
    · next heq => simp [heq]
    · next hne =>
        have hk : k ≠ k' := fun heq => hne heq.symm
        simp [hk, hout (Nat.le_refl _)]
  · have hlen : (l ++ [k])[i]? = none := List.getElem?_eq_none (by
      rw [List.length_append]
      exact hgt)
    rw [hlen]
    split
    · simp [Nat.ne_of_lt hgt]
    · simp [hout (Nat.le_of_lt hgt)]

end Indexes

end DecidableKeys
end Dict
end PyStd
