import SmallLisp.Proofs.Equality.PartialEquivalence

/-!
# Equality after a change of the parts

Sequences and maps are compared by comparing their parts. So when each part is changed, and the
changes keep the equality of the parts, the equality of the whole is kept, and keys that were
distinct stay distinct.

## Main results

* `Value.seq_beq_map`, `Value.map_beq_map`: equality of sequences and maps with changed parts
* `Value.distinct_map`: distinctness of changed keys
-/

namespace SmallLisp.Value

variable {f : Value → Value}

theorem equalItems_map {items others : List Value}
    (keeps : ∀ a ∈ items, ∀ b ∈ others, (f a == f b) = (a == b)) :
    equalItems (items.map f) (others.map f) = equalItems items others := by
  induction items generalizing others with
  | nil => cases others <;> rfl
  | cons item rest ih =>
    cases others with
    | nil => rfl
    | cons other others =>
      have heads : equal (f item) (f other) = equal item other :=
        keeps item List.mem_cons_self other List.mem_cons_self
      have tails := ih fun a isA b isB =>
        keeps a (List.mem_cons_of_mem item isA) b (List.mem_cons_of_mem other isB)
      rw [List.map_cons, List.map_cons, equalItems, equalItems, heads, tails]

theorem find?_key_map {key : Value} {others : Entries}
    (keeps : ∀ other ∈ others, (f key == f other.1) = (key == other.1)) :
    List.find? (fun other => f key == other.1) (others.map (Prod.map f f)) =
      (List.find? (fun other => key == other.1) others).map (Prod.map f f) := by
  induction others with
  | nil => rfl
  | cons other others ih =>
    rw [List.forall_mem_cons] at keeps
    rw [List.map_cons, List.find?_cons, List.find?_cons, ih keeps.2, Prod.map_fst, keeps.1]
    split <;> rfl

theorem within_map_map {entries others : Entries}
    (keepsKeys : ∀ a ∈ entries, ∀ b ∈ others, (f a.1 == f b.1) = (a.1 == b.1))
    (keepsValues : ∀ a ∈ entries, ∀ b ∈ others, (f a.2 == f b.2) = (a.2 == b.2)) :
    within (entries.map (Prod.map f f)) (others.map (Prod.map f f)) = within entries others := by
  induction entries with
  | nil => rfl
  | cons entry rest ih =>
    rw [List.forall_mem_cons] at keepsKeys keepsValues
    obtain ⟨key, value⟩ := entry
    have found := find?_key_map keepsKeys.1
    have tails := ih keepsKeys.2 keepsValues.2
    change within ((f key, f value) :: _) _ = _
    rw [within, within, tails]
    congr 1
    change Option.any (fun other : Value × Value => f value == other.2)
        (List.find? (fun other : Value × Value => f key == other.1) _) =
      Option.any (fun other : Value × Value => value == other.2)
        (List.find? (fun other : Value × Value => key == other.1) others)
    rw [found]
    cases isFound : List.find? (fun other : Value × Value => key == other.1) others with
    | none => rfl
    | some other => exact keepsValues.1 other (List.mem_of_find?_eq_some isFound)

/-- Sequences with changed items are equal when those with the items as they were are. -/
theorem seq_beq_map {kind kind' : SeqKind} {items others : List Value}
    (keeps : ∀ a ∈ items, ∀ b ∈ others, (f a == f b) = (a == b)) :
    ((.seq kind (items.map f) : Value) == .seq kind' (others.map f)) =
      ((.seq kind items : Value) == .seq kind' others) := by
  change equal _ _ = equal _ _
  rw [equal, equal]
  exact equalItems_map keeps

/-- Maps with changed keys and values are equal when those with the entries as they were are. -/
theorem map_beq_map {entries others : Entries}
    (keepsKeys : ∀ a ∈ entries, ∀ b ∈ others, (f a.1 == f b.1) = (a.1 == b.1))
    (keepsValues : ∀ a ∈ entries, ∀ b ∈ others, (f a.2 == f b.2) = (a.2 == b.2)) :
    ((.map (entries.map (Prod.map f f)) : Value) == .map (others.map (Prod.map f f))) =
      ((.map entries : Value) == .map others) := by
  change equal _ _ = equal _ _
  rw [equal, equal]
  simp only [entries?, Option.any_some, List.length_map, within_map_map keepsKeys keepsValues]

/-- Changed keys are distinct when the keys were. -/
theorem distinct_map {entries : Entries}
    (keeps : ∀ a ∈ entries, ∀ b ∈ entries, (f a.1 == f b.1) = (a.1 == b.1)) :
    Entries.Distinct (entries.map (Prod.map f f)) ↔ entries.Distinct := by
  rw [Entries.Distinct, List.pairwise_map]
  refine List.Pairwise.iff_of_mem fun {a b} isA isB => ?_
  rw [Prod.map_fst, Prod.map_fst, keeps a isA b isB]

end SmallLisp.Value
