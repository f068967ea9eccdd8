import ComponentSchema.Entries

/-!
# Laws of ordered entries

Looking a name up, putting and erasing, on entries whose names are distinct.
-/

namespace ComponentSchema.Entries

variable {α : Type}

theorem mem_of_get? {entries : List (String × α)} {name : String} {value : α}
    (h : get? entries name = some value) : (name, value) ∈ entries := by
  induction entries with
  | nil => cases h
  | cons entry rest ih =>
    obtain ⟨key, old⟩ := entry
    rw [get?_cons] at h
    split at h
    next hk =>
      cases h
      subst hk
      exact List.mem_cons_self
    next => exact List.mem_cons_of_mem _ (ih h)

theorem mem_names {entries : List (String × α)} {name : String} :
    name ∈ names entries ↔ ∃ value, (name, value) ∈ entries := by
  simp [names]

/-- A name has an entry exactly when something is found under it. -/
theorem mem_names_iff_get? {entries : List (String × α)} {name : String} :
    name ∈ names entries ↔ ∃ value, get? entries name = some value := by
  induction entries with
  | nil => simp [names]
  | cons entry rest ih =>
    obtain ⟨key, old⟩ := entry
    rw [get?_cons]
    by_cases hk : key = name
    · simp [names, hk]
    · rw [if_neg hk, ← ih]
      simp [names, Ne.symm hk]

theorem get?_eq_none_iff {entries : List (String × α)} {name : String} :
    get? entries name = none ↔ name ∉ names entries := by
  rw [mem_names_iff_get?, Option.eq_none_iff_forall_ne_some, not_exists]

theorem contains_iff_get? {entries : List (String × α)} {name : String} :
    contains entries name = true ↔ ∃ value, get? entries name = some value := by
  rw [contains, Option.isSome_iff_exists]

theorem contains_of_get? {entries : List (String × α)} {name : String} {value : α}
    (h : get? entries name = some value) : contains entries name = true :=
  contains_iff_get?.mpr ⟨value, h⟩

theorem contains_iff_mem {entries : List (String × α)} {name : String} :
    contains entries name = true ↔ name ∈ names entries := by
  rw [contains_iff_get?, mem_names_iff_get?]

/-- With distinct names an entry is the one that is found under its name. -/
theorem get?_of_mem {entries : List (String × α)} {name : String} {value : α}
    (hn : (names entries).Nodup) (h : (name, value) ∈ entries) :
    get? entries name = some value := by
  induction entries with
  | nil => cases h
  | cons entry rest ih =>
    obtain ⟨key, old⟩ := entry
    rw [get?_cons]
    obtain ⟨hk, hr⟩ := List.nodup_cons.mp hn
    rcases List.mem_cons.mp h with h | h
    · cases h
      rw [if_pos rfl]
    · -- the first entry of the name would repeat it
      have hne : key ≠ name := by
        intro heq
        subst heq
        exact hk (mem_names.mpr ⟨value, h⟩)
      rw [if_neg hne, ih hr h]

/-- The first entry of a name is the one that is found. -/
theorem get?_append_cons {before after : List (String × α)} {name : String} {value : α}
    (h : name ∉ names before) : get? (before ++ (name, value) :: after) name = some value := by
  induction before with
  | nil => rw [List.nil_append, get?_cons, if_pos rfl]
  | cons entry rest ih =>
    obtain ⟨key, old⟩ := entry
    simp only [names, List.map_cons, List.mem_cons, not_or] at h
    rw [List.cons_append, get?_cons, if_neg (Ne.symm h.1)]
    exact ih h.2

/-- With distinct names the order of the entries does not matter. -/
theorem get?_perm {entries entries' : List (String × α)} (h : entries.Perm entries')
    (hn : (names entries).Nodup) (name : String) : get? entries name = get? entries' name := by
  have hn' : (names entries').Nodup := (h.map Prod.fst).nodup hn
  refine Option.ext fun value => ⟨fun hg => ?_, fun hg => ?_⟩
  · exact get?_of_mem hn' (h.mem_iff.mp (mem_of_get? hg))
  · exact get?_of_mem hn (h.mem_iff.mpr (mem_of_get? hg))

/-- Entries that are dropped by their names are not found any more; the others are. -/
theorem get?_filter (keep : String → Bool) (entries : List (String × α)) (name : String) :
    get? (entries.filter fun entry => keep entry.1) name =
      if keep name then get? entries name else none := by
  induction entries with
  | nil => simp
  | cons entry rest ih =>
    obtain ⟨key, value⟩ := entry
    rw [List.filter_cons, get?_cons]
    by_cases hn : key = name
    · subst hn
      by_cases hk : keep key
      · simp [hk, get?_cons]
      · simp [hk, ih]
    · by_cases hk : keep key
      · simp [hk, hn, get?_cons, ih]
      · simp [hk, hn, ih]

/-- A new name is put at the end. -/
theorem put_of_not_mem {entries : List (String × α)} {name : String} (h : name ∉ names entries)
    (value : α) : put entries name value = entries ++ [(name, value)] := by
  induction entries with
  | nil => rfl
  | cons entry rest ih =>
    obtain ⟨key, old⟩ := entry
    simp only [names, List.map_cons, List.mem_cons, not_or] at h
    rw [put, if_neg (Ne.symm h.1), ih h.2, List.cons_append]

theorem mem_names_put {entries : List (String × α)} {name other : String} {value : α} :
    other ∈ names (put entries name value) ↔ other = name ∨ other ∈ names entries := by
  by_cases h : other = name
  · subst h
    simp [mem_names_iff_get?, get?_put_self]
  · simp [mem_names_iff_get?, get?_put_ne entries value h, h]

theorem nodup_names_put {entries : List (String × α)} (hn : (names entries).Nodup)
    (name : String) (value : α) : (names (put entries name value)).Nodup := by
  induction entries with
  | nil => simp [put, names]
  | cons entry rest ih =>
    obtain ⟨key, old⟩ := entry
    obtain ⟨hk, hr⟩ := List.nodup_cons.mp hn
    by_cases h : key = name
    · rw [put, if_pos h]
      exact hn
    · rw [put, if_neg h]
      refine List.nodup_cons.mpr ⟨?_, ih hr⟩
      intro hm
      rcases mem_names_put.mp hm with hm | hm
      · exact h hm
      · exact hk hm

theorem erase_sublist (entries : List (String × α)) (name : String) :
    (erase entries name).Sublist entries := by
  induction entries with
  | nil => exact List.Sublist.refl _
  | cons entry rest ih =>
    obtain ⟨key, old⟩ := entry
    rw [erase]
    split
    · exact List.sublist_cons_self _ _
    · exact ih.cons_cons _

theorem nodup_names_erase {entries : List (String × α)} (hn : (names entries).Nodup)
    (name : String) : (names (erase entries name)).Nodup :=
  hn.sublist ((erase_sublist entries name).map _)

theorem get?_erase_self {entries : List (String × α)} (hn : (names entries).Nodup)
    (name : String) : get? (erase entries name) name = none := by
  induction entries with
  | nil => rfl
  | cons entry rest ih =>
    obtain ⟨key, old⟩ := entry
    obtain ⟨hk, hr⟩ := List.nodup_cons.mp hn
    by_cases h : key = name
    · subst h
      rw [erase, if_pos rfl]
      exact get?_eq_none_iff.mpr hk
    · rw [erase, if_neg h, get?_cons, if_neg h, ih hr]

/-! ## Putting many entries -/

/-- Put entries one after the other. -/
def putAll (entries : List (String × α)) : List (String × α) → List (String × α)
  | [] => entries
  | (name, value) :: rest => putAll (put entries name value) rest

theorem get?_putAll_of_not_mem {entries added : List (String × α)} {name : String}
    (h : name ∉ names added) : get? (putAll entries added) name = get? entries name := by
  induction added generalizing entries with
  | nil => rfl
  | cons entry rest ih =>
    obtain ⟨key, value⟩ := entry
    simp only [names, List.map_cons, List.mem_cons, not_or] at h
    rw [putAll, ih h.2, get?_put_ne entries value h.1]

/-- Of the entries under one name the last one is found. -/
theorem get?_putAll_last (entries before : List (String × α)) {after : List (String × α)}
    {name : String} (value : α) (h : name ∉ names after) :
    get? (putAll entries (before ++ (name, value) :: after)) name = some value := by
  induction before generalizing entries with
  | nil => rw [List.nil_append, putAll, get?_putAll_of_not_mem h, get?_put_self]
  | cons entry rest ih => exact ih _

theorem not_mem_names_of_nodup_append {entries rest : List (String × α)} {key : String}
    {value : α} (h : (names (entries ++ (key, value) :: rest)).Nodup) : key ∉ names entries := by
  simp only [names, List.map_append, List.map_cons, List.nodup_append] at h
  exact fun hm => h.2.2 key hm key List.mem_cons_self rfl

/-- Entries with new and distinct names are added at the end. -/
theorem putAll_of_nodup {entries added : List (String × α)}
    (hn : (names (entries ++ added)).Nodup) : putAll entries added = entries ++ added := by
  induction added generalizing entries with
  | nil => rw [putAll, List.append_nil]
  | cons entry rest ih =>
    obtain ⟨key, value⟩ := entry
    have hnew := not_mem_names_of_nodup_append hn
    rw [List.append_cons] at hn ⊢
    rw [putAll, put_of_not_mem hnew, ih hn]

theorem length_put_of_mem {entries : List (String × α)} {name : String}
    (h : name ∈ names entries) (value : α) : (put entries name value).length = entries.length := by
  induction entries with
  | nil => cases h
  | cons entry rest ih =>
    obtain ⟨key, old⟩ := entry
    rw [put]
    split
    next => rfl
    next hk =>
      have hm : name ∈ names rest := (List.mem_cons.mp h).resolve_left (Ne.symm hk)
      rw [List.length_cons, ih hm, List.length_cons]

theorem length_put_le (entries : List (String × α)) (name : String) (value : α) :
    (put entries name value).length ≤ entries.length + 1 := by
  by_cases h : name ∈ names entries
  · have hsame := length_put_of_mem h value
    omega
  · have hmore : (put entries name value).length = entries.length + 1 := by
      rw [put_of_not_mem h, List.length_append, List.length_singleton]
    omega

theorem length_putAll_le (entries added : List (String × α)) :
    (putAll entries added).length ≤ entries.length + added.length := by
  induction added generalizing entries with
  | nil => exact Nat.le_refl _
  | cons entry rest ih =>
    have hrest := ih (put entries entry.1 entry.2)
    have hput := length_put_le entries entry.1 entry.2
    rw [putAll, List.length_cons]
    omega

/-- Nothing is lost when entries are put exactly if their names are new and distinct. -/
theorem length_putAll_eq_iff {entries added : List (String × α)} (hn : (names entries).Nodup) :
    (putAll entries added).length = entries.length + added.length ↔
      (names (entries ++ added)).Nodup := by
  induction added generalizing entries with
  | nil => simpa [putAll] using hn
  | cons entry rest ih =>
    obtain ⟨key, value⟩ := entry
    by_cases h : key ∈ names entries
    · -- the entry takes the place of another one
      have hle := length_putAll_le (put entries key value) rest
      rw [length_put_of_mem h] at hle
      refine iff_of_false ?_ fun hd => not_mem_names_of_nodup_append hd h
      rw [putAll, List.length_cons]
      omega
    · have hput := put_of_not_mem h value
      rw [putAll, List.append_cons, ← hput, ← ih (nodup_names_put hn key value), hput,
        List.length_append, List.length_singleton, List.length_cons, Nat.add_assoc,
        Nat.add_comm 1]

end ComponentSchema.Entries
