import ComponentSchema.Proofs.Faults

/-!
# What compiled descriptors are like

Every map of a compiled schema has items, no two of one name, so that the index from names
to positions and the ordered list of items tell the same; every list allows some types, each
named once, and its bounds are in order. The root map declares the components of the
definition in their order. For any items, of distinct names or not, the index finds the item
that a key stands for, and the flags it sets tell which item is missing first.
-/

namespace ComponentSchema

open Definition

/-! ## The index of a map -/

namespace Items

variable {items : Items} {name : String}

theorem position?_eq_none_iff : items.position? name = none ↔ items.find? name = none := by
  induction items with
  | nil => simp [position?, find?]
  | cons item rest ih =>
    rw [position?, find?]
    cases hp : position? rest name with
    | none =>
      rw [ih.mp hp]
      by_cases hn : item.name = name <;> simp [hn]
    | some later =>
      cases hf : find? rest name with
      | none => simp [ih.mpr hf] at hp
      | some found => simp

/-- The item at the position of a name has the name, and it is the one that is found. -/
theorem getElem?_position? {position : Nat} (h : items.position? name = some position) :
    ∃ item, items[position]? = some item ∧ item.name = name ∧ items.find? name = some item := by
  induction items generalizing position with
  | nil => cases h
  | cons item rest ih =>
    rw [position?] at h
    split at h
    next later hp =>
      cases h
      obtain ⟨found, hg, hn, hf⟩ := ih hp
      exact ⟨found, by simpa using hg, hn, by rw [find?, hf]⟩
    next hp =>
      split at h
      next hn =>
        cases h
        exact ⟨item, rfl, hn, by rw [find?, position?_eq_none_iff.mp hp]; simp [hn]⟩
      next => cases h

/-- A key is looked up by its position, whether the names are distinct or not. -/
theorem find?_eq_position? :
    items.find? name = (items.position? name).bind fun position => items[position]? := by
  cases hp : items.position? name with
  | none => rw [position?_eq_none_iff.mp hp, Option.bind_none]
  | some position =>
    obtain ⟨item, hg, -, hf⟩ := getElem?_position? hp
    rw [hf, Option.bind_some, hg]

theorem isSome_position? : (items.position? name).isSome = items.declares name := by
  induction items with
  | nil => rfl
  | cons item rest ih =>
    rw [declares, List.any_cons, ← declares, ← ih, position?]
    cases position? rest name <;> by_cases hn : item.name = name <;> simp [hn]

/-- A key stands for the first item if it is the name and no later item has it. -/
theorem mark_cons (item : Item) (rest : Items) (flag : Bool) (flags : List Bool) (key : String) :
    mark (item :: rest) (flag :: flags) key =
      (flag || (item.name == key && !rest.declares item.name)) :: mark rest flags key := by
  rw [mark, mark, position?]
  by_cases hn : item.name = key
  · rw [hn, ← isSome_position?]
    cases position? rest key <;> simp
  · cases position? rest key <;> simp [hn]

/-- The flag of the first item and those of the others are set apart from each other. -/
theorem foldl_mark_cons (item : Item) (rest : Items) (flag : Bool) (flags : List Bool)
    (keys : List String) :
    keys.foldl (mark (item :: rest)) (flag :: flags) =
      (flag || (keys.contains item.name && !rest.declares item.name)) ::
        keys.foldl rest.mark flags := by
  induction keys generalizing flag flags with
  | nil => simp
  | cons key keys ih =>
    rw [List.foldl_cons, mark_cons, ih, List.foldl_cons, List.contains_cons,
      Bool.and_or_distrib_right, Bool.or_assoc]

theorem seen_cons (item : Item) (rest : Items) (keys : List String) :
    seen (item :: rest) keys =
      (keys.contains item.name && !rest.declares item.name) :: rest.seen keys := by
  rw [seen, List.length_cons, List.replicate_succ, foldl_mark_cons, Bool.false_or, seen]

/-- The first item that is missing is the first required one whose flag was not set. -/
theorem firstMissing?_eq_seen (keys : List String) :
    items.firstMissing? keys =
      ((items.zip (items.seen keys)).find? fun flagged => flagged.1.required && !flagged.2).map
        Prod.fst := by
  induction items with
  | nil => rfl
  | cons item rest ih =>
    rw [firstMissing?, seen_cons, List.zip_cons_cons, List.find?_cons, ih]
    cases item.required && !(keys.contains item.name && !declares rest item.name) <;> rfl

/-- With distinct names the index gives each name the one position at which it stands. -/
theorem position?_eq_some_iff (hd : (items.map Item.name).Nodup) {position : Nat} :
    items.position? name = some position ↔
      ∃ item, items[position]? = some item ∧ item.name = name := by
  constructor
  · intro h
    obtain ⟨item, hg, hn, -⟩ := getElem?_position? h
    exact ⟨item, hg, hn⟩
  · rintro ⟨item, hg, rfl⟩
    cases hp : items.position? item.name with
    | none =>
      rw [position?_eq_none_iff, find?_of_mem hd (List.mem_of_getElem? hg)] at hp
      cases hp
    | some other =>
      obtain ⟨found, ho, hn, -⟩ := getElem?_position? hp
      -- two positions of one name
      have hsame : (items.map Item.name)[other]? = (items.map Item.name)[position]? := by
        simp [ho, hg, hn]
      have hlt : other < (items.map Item.name).length := by
        simpa using (List.getElem?_eq_some_iff.mp ho).1
      rw [(List.getElem?_inj hlt hd).mp hsame]

/-- The items, their order and the lookups by name agree: no name stands twice, a name is
found exactly when an item has it, and it is found at the only position at which it
stands. -/
structure Indexed (items : Items) : Prop where
  distinct : (items.map Item.name).Nodup
  lookup : ∀ name, items.find? name =
    (items.position? name).bind fun position => items[position]?
  found : ∀ name item, items.find? name = some item ↔ item ∈ items ∧ item.name = name
  absent : ∀ name, items.find? name = none ↔ ∀ item ∈ items, item.name ≠ name
  position : ∀ name position, items.position? name = some position ↔
    ∃ item, items[position]? = some item ∧ item.name = name

theorem Indexed.of_distinct (hd : (items.map Item.name).Nodup) : items.Indexed where
  distinct := hd
  lookup _ := find?_eq_position?
  found _ _ := find?_eq_some_iff hd
  absent name := by
    rw [Option.eq_none_iff_forall_ne_some]
    simp only [ne_eq, find?_eq_some_iff hd, not_and]
  position _ _ := position?_eq_some_iff hd

end Items

/-! ## Item types -/

theorem ListType.nodup_dedup (names seen : List String) : (dedup names seen).Nodup := by
  induction names generalizing seen with
  | nil => exact List.nodup_nil
  | cons name rest ih =>
    rw [dedup]
    split
    · exact ih seen
    · refine List.nodup_cons.mpr ⟨?_, ih (name :: seen)⟩
      rw [dedup_eq, List.mem_eraseDups, List.mem_filter]
      simp

theorem ListType.nodup_eraseDups (names : List String) : names.eraseDups.Nodup := by
  have h := nodup_dedup names []
  rwa [dedup_eq, List.filter_eq_self.mpr (by simp)] at h

/-! ## Finished descriptors -/

/-- What a finished descriptor is like, by its kind. -/
def Descriptor.WellFormed : Descriptor → Prop
  | .primitive _ => True
  | .map items => items ≠ [] ∧ items.Indexed
  | .list type => type.itemTypes ≠ [] ∧ type.itemTypes.Nodup ∧
      ∀ low high, type.min = some low → type.max = some high → low ≤ high
  | .incomplete => False

theorem Definition.MapBody.members_ne_nil {d : Tree} (h : MapBody d) : members d ≠ [] := by
  obtain ⟨groups, hg, hne, hs⟩ := h.groups
  obtain ⟨group, hm⟩ := List.exists_mem_of_ne_nil groups hne
  obtain ⟨first, rest, rfl⟩ := hs group hm
  apply List.ne_nil_of_mem (a := first)
  rw [members, hg]
  exact List.mem_flatMap.mpr ⟨_, hm, List.mem_cons_self⟩

theorem Definition.ListBody.elementTypes_ne_nil {known : String → Prop} {d : Tree}
    (h : ListBody known d) : elementTypes d ≠ [] := by
  obtain ⟨entries, he, hne, hs⟩ := h.entries
  obtain ⟨entry, hm⟩ := List.exists_mem_of_ne_nil entries hne
  obtain ⟨name, rfl, -⟩ := hs entry hm
  apply List.ne_nil_of_mem (a := name)
  rw [elementTypes, he]
  exact List.mem_filterMap.mpr ⟨_, hm, rfl⟩

/-- A descriptor that was read off a component is well formed because the body of the
component is. -/
theorem Described.wellFormed {components : Components} {origin : Origin}
    {descriptor : Descriptor} (h : Described components origin descriptor) :
    descriptor.WellFormed := by
  have hd := h.itemsDistinct
  cases h with
  | primitive _ => trivial
  | map _ _ hbody _ =>
    refine ⟨?_, .of_distinct hd⟩
    simpa using hbody.members_ne_nil
  | list _ _ hbody =>
    refine ⟨?_, ListType.nodup_eraseDups _, fun low high => hbody.ordered⟩
    obtain ⟨name, hm⟩ := List.exists_mem_of_ne_nil _ hbody.elementTypes_ne_nil
    exact List.ne_nil_of_mem (List.mem_eraseDups.mpr hm)

/-- The root map of a compiled schema declares the keys of the definition in order, and
every descriptor of its registry is well formed. -/
theorem compiled_descriptors_wellFormed {definition : Tree} {schema : Schema}
    (h : compile definition = .ok schema) :
    (∃ items, schema.rootDescriptor = .map items ∧ items.Indexed ∧
      items.map Item.name = Entries.names definition.entries) ∧
    ∀ binding ∈ schema.registry.bindings, binding.2.descriptor.WellFormed := by
  have hg := compile_grounded h
  have hroot := (compile_itemsDistinct h).2
  obtain ⟨components, rfl, -, trace, hy, -⟩ := compile_ok_iff.mp h
  obtain ⟨own, hreg⟩ := yields_registered hy
  refine ⟨⟨schema.root, rfl, .of_distinct hroot, ?_⟩, ?_⟩
  · rw [hreg.items, names_items]
    rfl
  · intro binding hm
    have ho := Entries.get?_of_mem hg.distinct hm
    exact (hreg.faithful.owned ho (hreg.descriptor_ne ho)).described.wellFormed

/-- A map with a list that names one of its item types twice. -/
def rankingDefinition : Tree :=
  .map [("ranking", .map [("type", .string "map"), ("items", .list [
    .map [("player", .map [("type", .string "string")])],
    .map [("scores", .map [("type", .string "list"), ("min", .int 1), ("max", .int 3),
      ("item_types", .list [.string "int", .string "float", .string "int"])])]])])]

def rankingSchema : Schema where
  root := [⟨"ranking", "ranking", true⟩]
  registry :=
    { bindings := Registry.primitives.bindings ++
        [("ranking", ⟨7, .map [⟨"player", "string", true⟩, ⟨"scores", "ranking.scores", true⟩]⟩),
          ("ranking.scores", ⟨6, .list ⟨["int", "float"], some 1, some 3⟩⟩)]
      nextId := 8 }

theorem rankingSchema_wellFormed :
    compile rankingDefinition = .ok rankingSchema ∧
    rankingSchema.root.map Item.name = ["ranking"] ∧
    Descriptor.WellFormed
      (.map [⟨"player", "string", true⟩, ⟨"scores", "ranking.scores", true⟩]) ∧
    Descriptor.WellFormed (.list ⟨["int", "float"], some 1, some 3⟩) := by
  have hy : Yields (registerAll rankingDefinition.entries) Progress.start rankingSchema.root
      ⟨rankingSchema.registry,
        [.component "ranking.scores" "list", .component "ranking" "map"]⟩ := rfl
  have hc : compile rankingDefinition = .ok rankingSchema :=
    compile_ok_of_run (by decide) hy (by decide) (by decide)
  obtain ⟨⟨items, hitems, -, hnames⟩, hall⟩ := compiled_descriptors_wellFormed hc
  cases hitems
  refine ⟨hc, hnames, ?_, ?_⟩
  · exact hall ("ranking", ⟨7, _⟩) (by decide)
  · exact hall ("ranking.scores", ⟨6, _⟩) (by decide)

end ComponentSchema
