namespace Criterion

/-- Entries by name, in strictly ascending order. -/
structure Table (α : Type) where
  entries : List (String × α)
  ascending : entries.Pairwise (·.1 < ·.1)

namespace Table

variable {α : Type}

def empty : Table α := ⟨[], .nil⟩

instance : Inhabited (Table α) := ⟨empty⟩

def names (t : Table α) : List String := t.entries.map (·.1)

def get? (t : Table α) (name : String) : Option α := t.entries.lookup name

def contains (t : Table α) (name : String) : Bool := (t.get? name).isSome

def place (name : String) (a : α) : List (String × α) → List (String × α)
  | [] => [(name, a)]
  | (other, b) :: rest =>
    if name < other then (name, a) :: (other, b) :: rest
    else if name = other then (name, a) :: rest
    else (other, b) :: place name a rest

theorem name_of_mem_place {name : String} {a : α} {es : List (String × α)} {e : String × α}
    (h : e ∈ place name a es) : e.1 = name ∨ e ∈ es := by
  induction es with
  | nil => simp_all [place]
  | cons head rest ih =>
    simp only [place] at h
    split at h
    · rcases List.mem_cons.1 h with rfl | h
      · exact .inl rfl
      · exact .inr h
    · split at h
      · rcases List.mem_cons.1 h with rfl | h
        · exact .inl rfl
        · exact .inr (List.mem_cons_of_mem _ h)
      · rcases List.mem_cons.1 h with rfl | h
        · exact .inr (List.mem_cons_self ..)
        · exact (ih h).imp_right (List.mem_cons_of_mem _)

theorem place_ascending {name : String} {a : α} {es : List (String × α)}
    (h : es.Pairwise (·.1 < ·.1)) : (place name a es).Pairwise (·.1 < ·.1) := by
  induction es with
  | nil => exact .cons (fun _ hm => nomatch hm) .nil
  | cons head rest ih =>
    obtain ⟨below, hrest⟩ := List.pairwise_cons.1 h
    simp only [place]
    split
    · next lt =>
      refine .cons (fun e he => ?_) h
      rcases List.mem_cons.1 he with rfl | he
      · exact lt
      · exact String.lt_trans lt (below e he)
    · split
      · next eq => exact .cons (fun e he => eq ▸ below e he) hrest
      · next nlt ne =>
        refine .cons (fun e he => ?_) (ih hrest)
        rcases name_of_mem_place he with he | he
        · exact he ▸ Std.lt_of_le_of_ne (String.not_lt.1 nlt) (Ne.symm ne)
        · exact below e he

theorem lookup_cons (key name : String) (a : α) (es : List (String × α)) :
    ((name, a) :: es).lookup key = if key = name then some a else es.lookup key := by
  rw [List.lookup_cons]
  by_cases h : key = name
  · simp [h]
  · rw [beq_false_of_ne h, if_neg h]

theorem lookup_place (key name : String) (a : α) (es : List (String × α)) :
    (place name a es).lookup key = if key = name then some a else es.lookup key := by
  induction es with
  | nil => exact lookup_cons ..
  | cons head rest ih =>
    obtain ⟨other, b⟩ := head
    simp only [place]
    split
    · exact lookup_cons ..
    · split
      · next eq =>
        subst eq
        simp only [lookup_cons]
        split <;> rfl
      · next ne =>
        simp only [lookup_cons, ih]
        by_cases h : key = other
        · simp [h, Ne.symm ne]
        · simp [h]

def insert (t : Table α) (name : String) (a : α) : Table α :=
  ⟨place name a t.entries, place_ascending t.ascending⟩

theorem get?_insert (t : Table α) (name other : String) (a : α) :
    (t.insert name a).get? other = if other = name then some a else t.get? other :=
  lookup_place ..

@[simp] theorem get?_empty (name : String) : (empty : Table α).get? name = none := rfl

theorem mem_names {t : Table α} {name : String} : name ∈ t.names ↔ (t.get? name).isSome := by
  rw [names, get?, List.lookup_isSome_iff, List.mem_map]
  constructor
  · rintro ⟨entry, mem, rfl⟩
    exact ⟨entry, mem, beq_self_eq_true _⟩
  · rintro ⟨entry, mem, same⟩
    exact ⟨entry, mem, (eq_of_beq same).symm⟩

theorem names_ascending (t : Table α) : t.names.Pairwise (· < ·) := List.pairwise_map.2 t.ascending

end Table

end Criterion
