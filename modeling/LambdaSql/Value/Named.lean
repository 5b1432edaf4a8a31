/-!
# Named things in order

Lists of names with something attached to each, kept in the order in which the names first appear.

## Main definitions

* `Named.set` - attaching something to a name.

## Main results

* `Named.map_fst_set` - what happens to the names.
* `Named.nodup_set` - each name stays there once.
-/

namespace LambdaSql.Named

variable {α : Type}

/-- The list with something attached to a name: in its place if the name is there, otherwise at
the end. -/
def set (name : String) (a : α) : List (String × α) → List (String × α)
  | [] => [(name, a)]
  | (n, b) :: rest => if n = name then (n, a) :: rest else (n, b) :: set name a rest

/-- Attaching something keeps the names, or adds the new one at the end. -/
theorem map_fst_set (name : String) (a : α) (items : List (String × α)) :
    (set name a items).map Prod.fst =
      if name ∈ items.map Prod.fst then items.map Prod.fst
      else items.map Prod.fst ++ [name] := by
  induction items with
  | nil => rfl
  | cons m rest ih =>
    obtain ⟨n, b⟩ := m
    by_cases h : n = name
    · simp [set, h]
    · have h' : ¬ name = n := fun e => h e.symm
      simp only [set, if_neg h, List.map_cons, ih, List.mem_cons, h', false_or]
      split <;> rfl

/-- What is in the list after something is attached is that, or was there before. -/
theorem mem_of_mem_set {name : String} {a : α} {items : List (String × α)} {m : String × α}
    (h : m ∈ set name a items) : m = (name, a) ∨ m ∈ items := by
  induction items with
  | nil => exact .inl (List.mem_singleton.mp h)
  | cons k rest ih =>
    obtain ⟨n, b⟩ := k
    unfold set at h
    split at h
    · next hn =>
      subst hn
      exact (List.mem_cons.mp h).imp_right (List.mem_cons_of_mem _)
    · obtain rfl | h := List.mem_cons.mp h
      · exact .inr List.mem_cons_self
      · exact (ih h).imp_right (List.mem_cons_of_mem _)

/-- Attaching something keeps the names distinct. -/
theorem nodup_set {name : String} {a : α} {items : List (String × α)}
    (h : (items.map Prod.fst).Nodup) : ((set name a items).map Prod.fst).Nodup := by
  rw [map_fst_set]
  split
  · exact h
  · next hn =>
    refine List.nodup_append.mpr ⟨h, by simp, fun x hx y hy => ?_⟩
    rw [List.mem_singleton.mp hy]
    exact fun e => hn (e ▸ hx)

end LambdaSql.Named
