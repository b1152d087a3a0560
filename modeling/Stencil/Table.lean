/-!
# Tables in insertion order

A `Table` binds keys to entries and lists them in the order in which the keys came in. Binding a key
again keeps its place. Two lemmas say what `insert` does to lookup, one what it does to the order.
-/

namespace Stencil

/-- Bindings of keys in insertion order. -/
structure Table (κ : Type) (β : Type) where
  entries : List (κ × β) := []

namespace Table

variable {κ : Type} {β : Type} [DecidableEq κ]

instance : Inhabited (Table κ β) := ⟨{}⟩

/-- The first entry bound to a key in a list of bindings. -/
def findIn (key : κ) : List (κ × β) → Option β
  | [] => none
  | (k, b) :: rest => if k = key then some b else findIn key rest

/-- Replace the binding of a key, or add it at the end. -/
def insertIn (key : κ) (b : β) : List (κ × β) → List (κ × β)
  | [] => [(key, b)]
  | (k, c) :: rest => if k = key then (k, b) :: rest else (k, c) :: insertIn key b rest

/-- The entry bound to a key. -/
def find? (t : Table κ β) (key : κ) : Option β :=
  findIn key t.entries

/-- Whether a key is bound. -/
def contains (t : Table κ β) (key : κ) : Bool :=
  (t.find? key).isSome

/-- Bind a key; a key bound before keeps its place. -/
def insert (t : Table κ β) (key : κ) (b : β) : Table κ β :=
  ⟨insertIn key b t.entries⟩

/-- Remove the binding of a key. -/
def erase (t : Table κ β) (key : κ) : Table κ β :=
  ⟨t.entries.filter fun e => e.1 ≠ key⟩

/-- The keys in order. -/
def keys (t : Table κ β) : List κ :=
  t.entries.map (·.1)

/-- The number of bindings. -/
def size (t : Table κ β) : Nat :=
  t.entries.length

/-- Bind the given pairs one after the other. -/
def insertAll (t : Table κ β) (pairs : List (κ × β)) : Table κ β :=
  pairs.foldl (fun t p => t.insert p.1 p.2) t

/-- The table of the given pairs; of two pairs with one key, the later entry stays. -/
def ofList (pairs : List (κ × β)) : Table κ β :=
  insertAll {} pairs

theorem findIn_insertIn_self (key : κ) (b : β) (l : List (κ × β)) :
    findIn key (insertIn key b l) = some b := by
  induction l with
  | nil => simp [insertIn, findIn]
  | cons p rest ih =>
    obtain ⟨k, c⟩ := p
    by_cases h : k = key <;> simp [insertIn, findIn, h, ih]

theorem findIn_insertIn_of_ne {key other : κ} (h : other ≠ key) (b : β) (l : List (κ × β)) :
    findIn other (insertIn key b l) = findIn other l := by
  induction l with
  | nil => simp [insertIn, findIn, Ne.symm h]
  | cons p rest ih =>
    obtain ⟨k, c⟩ := p
    by_cases hk : k = key
    · subst hk
      simp [insertIn, findIn, Ne.symm h]
    · by_cases ho : k = other
      · subst ho
        simp [insertIn, findIn, h]
      · simp [insertIn, findIn, hk, ho, ih]

@[simp]
theorem find?_insert_self (t : Table κ β) (key : κ) (b : β) :
    (t.insert key b).find? key = some b :=
  findIn_insertIn_self key b t.entries

theorem find?_insert_of_ne (t : Table κ β) {key other : κ} (h : other ≠ key) (b : β) :
    (t.insert key b).find? other = t.find? other :=
  findIn_insertIn_of_ne h b t.entries

theorem keys_insertIn (key : κ) (b : β) (l : List (κ × β)) :
    (insertIn key b l).map (·.1) =
      if key ∈ l.map (·.1) then l.map (·.1) else l.map (·.1) ++ [key] := by
  induction l with
  | nil => simp [insertIn]
  | cons p rest ih =>
    obtain ⟨k, c⟩ := p
    by_cases h : k = key
    · simp [insertIn, h]
    · have h' : ¬ key = k := fun e => h e.symm
      by_cases hm : key ∈ rest.map (·.1)
      · simp only [insertIn, h, if_false, List.map_cons, ih, hm, if_true, List.mem_cons,
          or_true]
      · simp only [insertIn, h, if_false, List.map_cons, ih, hm, List.mem_cons, h', or_self,
          List.cons_append]

/-- A new key is listed last, and a key bound before keeps its place. -/
theorem keys_insert (t : Table κ β) (key : κ) (b : β) :
    (t.insert key b).keys = if key ∈ t.keys then t.keys else t.keys ++ [key] :=
  keys_insertIn key b t.entries

theorem find?_insertAll {pairs : List (κ × β)} {t : Table κ β} {key : κ} {b : β}
    (h : (t.insertAll pairs).find? key = some b) : (key, b) ∈ pairs ∨ t.find? key = some b := by
  induction pairs generalizing t with
  | nil => exact .inr h
  | cons p rest ih =>
    rcases ih h with hmem | hfind
    · exact .inl (List.mem_cons_of_mem _ hmem)
    · by_cases hkey : key = p.1
      · subst hkey
        rw [find?_insert_self, Option.some.injEq] at hfind
        exact .inl (hfind ▸ List.mem_cons_self)
      · rw [t.find?_insert_of_ne hkey] at hfind
        exact .inr hfind

theorem findIn_append (key : κ) (l l' : List (κ × β)) :
    findIn key (l ++ l') = (findIn key l).or (findIn key l') := by
  induction l with
  | nil => rfl
  | cons p rest ih =>
    obtain ⟨k, c⟩ := p
    by_cases h : k = key <;> simp [findIn, h, ih]

/-- A table of pairs binds a key to the entry of the last pair with it. -/
theorem find?_ofList (pairs : List (κ × β)) (key : κ) :
    (ofList pairs).find? key = findIn key pairs.reverse := by
  have h (t : Table κ β) :
      (t.insertAll pairs).find? key = (findIn key pairs.reverse).or (t.find? key) := by
    induction pairs generalizing t with
    | nil => rfl
    | cons p rest ih =>
      obtain ⟨k, b⟩ := p
      show ((t.insert k b).insertAll rest).find? key = _
      rw [ih, List.reverse_cons, findIn_append, Option.or_assoc]
      congr 1
      by_cases hk : k = key
      · simp [hk, findIn]
      · rw [t.find?_insert_of_ne (Ne.symm hk)]
        simp [hk, findIn]
  exact (h {}).trans Option.or_none

theorem exists_findIn_of_mem {l : List (κ × β)} {key : κ} (h : key ∈ l.map (·.1)) :
    ∃ b, findIn key l = some b := by
  induction l with
  | nil => cases h
  | cons p rest ih =>
    obtain ⟨k, c⟩ := p
    by_cases hk : k = key
    · exact ⟨c, by simp [findIn, hk]⟩
    · rw [List.map_cons, List.mem_cons] at h
      obtain ⟨b, hb⟩ := ih (h.resolve_left fun e => hk e.symm)
      exact ⟨b, by simp [findIn, hk, hb]⟩

/-- A table of pairs binds the keys of the pairs. -/
theorem exists_find?_ofList {pairs : List (κ × β)} {key : κ} (h : key ∈ pairs.map (·.1)) :
    ∃ b, (ofList pairs).find? key = some b := by
  rw [find?_ofList]
  exact exists_findIn_of_mem (by rwa [List.map_reverse, List.mem_reverse])

/-- A table of pairs lists the keys in the order in which they first occur. -/
theorem keys_ofList (pairs : List (κ × β)) : (ofList pairs).keys = (pairs.map (·.1)).eraseDups := by
  have hinsert (t : Table κ β) : (t.insertAll pairs).keys =
      t.keys ++ ((pairs.map (·.1)).removeAll t.keys).eraseDups := by
    induction pairs generalizing t with
    | nil => exact (List.append_nil _).symm
    | cons p rest ih =>
      show ((t.insert p.1 p.2).insertAll rest).keys = _
      rw [ih, keys_insert, List.map_cons, List.cons_removeAll]
      by_cases hkey : p.1 ∈ t.keys
      · rw [if_pos hkey, if_neg (by simpa using hkey)]
      · rw [if_neg hkey, if_pos (by simpa using hkey), List.eraseDups_cons, List.append_assoc]
        simp [List.removeAll, List.filter_filter, Bool.and_comm]
        rfl
  have hall : (pairs.map (·.1)).removeAll ({} : Table κ β).keys = pairs.map (·.1) :=
    List.filter_eq_self.2 fun _ _ => rfl
  exact (hinsert {}).trans (by rw [hall]; rfl)

/-- A table of pairs lists every key once. -/
theorem nodup_keys_ofList (pairs : List (κ × β)) : (ofList pairs).keys.Nodup := by
  have h (t : Table κ β) (ht : t.keys.Nodup) : (t.insertAll pairs).keys.Nodup := by
    induction pairs generalizing t with
    | nil => exact ht
    | cons p rest ih =>
      refine ih (t.insert p.1 p.2) ?_
      rw [keys_insert]
      split
      · exact ht
      · rename_i hkey
        rw [List.nodup_append]
        refine ⟨ht, by simp, fun a ha c hc => ?_⟩
        rw [List.mem_singleton] at hc
        rintro rfl
        exact hkey (hc ▸ ha)
  exact h {} List.nodup_nil

theorem insertIn_of_notMem {key : κ} {l : List (κ × β)} (h : key ∉ l.map (·.1)) (b : β) :
    insertIn key b l = l ++ [(key, b)] := by
  induction l with
  | nil => rfl
  | cons p rest ih =>
    rw [List.map_cons, List.mem_cons, not_or] at h
    rw [insertIn, if_neg (Ne.symm h.1), ih h.2, List.cons_append]

/-- Pairs with different keys are the entries of their table. -/
theorem entries_ofList {pairs : List (κ × β)} (h : (pairs.map (·.1)).Nodup) :
    (ofList pairs).entries = pairs := by
  have hinsert (t : Table κ β) (ht : ((t.entries ++ pairs).map (·.1)).Nodup) :
      (t.insertAll pairs).entries = t.entries ++ pairs := by
    induction pairs generalizing t with
    | nil => exact (List.append_nil _).symm
    | cons p rest ih =>
      have hkey : p.1 ∉ t.entries.map (·.1) := by
        rw [List.map_append, List.nodup_append] at ht
        exact fun hmem => ht.2.2 _ hmem _ List.mem_cons_self rfl
      have hentries : (t.insert p.1 p.2).entries ++ rest = t.entries ++ p :: rest := by
        rw [insert, insertIn_of_notMem hkey, List.append_assoc]
        rfl
      rw [← hentries] at ht ⊢
      exact ih (List.nodup_cons.1 h).2 (t.insert p.1 p.2) ht
  exact hinsert {} h

/-- Where every key occurs once, a key is bound to the entry that it is paired with. -/
theorem findIn_eq_some_iff {l : List (κ × β)} (h : (l.map (·.1)).Nodup) {key : κ} {b : β} :
    findIn key l = some b ↔ (key, b) ∈ l := by
  induction l with
  | nil => simp [findIn]
  | cons p rest ih =>
    obtain ⟨k, c⟩ := p
    rw [List.map_cons, List.nodup_cons] at h
    by_cases hk : k = key
    · subst hk
      have hrest : (k, b) ∉ rest := fun hmem => h.1 (List.mem_map_of_mem (f := (·.1)) hmem)
      simp [findIn, hrest, eq_comm]
    · have hne : ¬ key = k := fun e => hk e.symm
      simp [findIn, hk, ih h.2, hne]

/-- A table of pairs with different keys binds each key to the entry that it is paired with. -/
theorem find?_ofList_of_mem {pairs : List (κ × β)} (h : (pairs.map (·.1)).Nodup) {key : κ} {b : β}
    (hmem : (key, b) ∈ pairs) : (ofList pairs).find? key = some b := by
  rw [find?, entries_ofList h, findIn_eq_some_iff h]
  exact hmem

/-- What a table of pairs binds is one of the pairs. -/
theorem mem_of_find?_ofList {pairs : List (κ × β)} {key : κ} {b : β}
    (h : (ofList pairs).find? key = some b) : (key, b) ∈ pairs :=
  (find?_insertAll h).resolve_right fun h => nomatch h

theorem mem_of_mem_ofList {pairs : List (κ × β)} {e : κ × β}
    (h : e ∈ (ofList pairs).entries) : e ∈ pairs :=
  mem_of_find?_ofList ((findIn_eq_some_iff (nodup_keys_ofList pairs)).2 h)

end Table

end Stencil
