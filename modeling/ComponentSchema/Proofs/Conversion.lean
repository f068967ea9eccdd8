import ComponentSchema.Proofs.Numbers
import ComponentSchema.Proofs.Tree
import Mathlib.Logic.Relation

/-!
# Laws of conversion

What in a YAML value has no place in a document tree, and where conversion meets it
first. Conversion gives back the tree that a value mirrors, and tags around parts of the
value change neither a result nor an error.
-/

namespace ComponentSchema.Yaml

namespace Value

/-! ## Value position -/

/-- The values directly inside a value. A key is not one of them. -/
def parts : Value → List Value
  | .sequence items => items
  | .mapping entries => entries.map Prod.snd
  | .tagged _ value => [value]
  | _ => []

theorem sizeOf_part_lt {value part : Value} (h : part ∈ value.parts) :
    sizeOf part < sizeOf value := by
  cases value with
  | sequence items =>
    have hlt := List.sizeOf_lt_of_mem (show part ∈ items from h)
    simp only [sequence.sizeOf_spec]
    omega
  | mapping entries =>
    obtain ⟨⟨key, inner⟩, hm, rfl⟩ := List.mem_map.mp h
    have hlt := List.sizeOf_lt_of_mem hm
    simp only [mapping.sizeOf_spec, Prod.mk.sizeOf_spec] at *
    omega
  | tagged tag inner =>
    rw [List.mem_singleton.mp h]
    simp only [tagged.sizeOf_spec]
    omega
  | _ => cases h

/-- A property of every value follows from its passing from the parts to the whole. -/
theorem part_induction {motive : Value → Prop}
    (step : ∀ value, (∀ part ∈ value.parts, motive part) → motive value) (value : Value) :
    motive value :=
  step value fun part _ => part_induction step part
termination_by sizeOf value
decreasing_by exact sizeOf_part_lt ‹_›

/-- The first value is the second, or stands inside it at some depth, in value position. -/
inductive Inside : Value → Value → Prop
  | here {value : Value} : Inside value value
  | within {part inner value : Value} : inner ∈ value.parts → Inside part inner →
      Inside part value

/-! ## Places and obstacles -/

/-- Null, a sequence, a mapping or a tagged value: as a key it has no text. -/
def isTextless : Value → Bool
  | .null | .sequence _ | .mapping _ | .tagged _ _ => true
  | _ => false

end Value

/-- A place inside a value: a value in value position, or the key of an entry. -/
inductive Place where
  | value (value : Value)
  | key (key : Value)

/-- Why a place has no form in a document tree. -/
def Place.obstacle? : Place → Option ConversionError
  | .value (.number (.float x)) => if x.isFinite then none else some (.nonFinite x)
  | .value _ => none
  | .key k => if k.isTextless then some (.unsupportedKey k) else none

namespace Value

mutual

/-- The places of a value, depth first in document order. The key of an entry comes before
its value; what is inside a key is no place. -/
def walk : Value → List Place
  | .sequence items => .value (.sequence items) :: walkItems items
  | .mapping entries => .value (.mapping entries) :: walkEntries entries
  | .tagged tag value => .value (.tagged tag value) :: walk value
  | scalar => [.value scalar]

/-- The places of items in order. -/
def walkItems : List Value → List Place
  | [] => []
  | item :: rest => walk item ++ walkItems rest

/-- The places of entries in order. -/
def walkEntries : List (Value × Value) → List Place
  | [] => []
  | (key, value) :: rest => .key key :: (walk value ++ walkEntries rest)

end

theorem mem_walkItems {place : Place} {items : List Value} :
    place ∈ walkItems items ↔ ∃ item ∈ items, place ∈ walk item := by
  induction items with
  | nil => simp [walkItems]
  | cons item rest ih => simp [walkItems, ih]

theorem mem_walkEntries {place : Place} {entries : List (Value × Value)} :
    place ∈ walkEntries entries ↔
      ∃ entry ∈ entries, place = .key entry.1 ∨ place ∈ walk entry.2 := by
  induction entries with
  | nil => simp [walkEntries]
  | cons entry rest ih => simp [walkEntries, ih, or_assoc]

/-- A place of a value is the value itself, a key of it, or a place of a part. -/
theorem mem_walk {place : Place} {value : Value} :
    place ∈ walk value ↔ place = .value value ∨
      (∃ entries, value = .mapping entries ∧ ∃ entry ∈ entries, place = .key entry.1) ∨
      ∃ part ∈ value.parts, place ∈ walk part := by
  cases value with
  | sequence items => simp [walk, parts, mem_walkItems]
  | mapping entries =>
    simp only [walk, List.mem_cons, mem_walkEntries, parts]
    constructor
    · rintro (h | ⟨entry, hm, h | h⟩)
      · exact .inl h
      · exact .inr (.inl ⟨entries, rfl, entry, hm, h⟩)
      · exact .inr (.inr ⟨entry.2, List.mem_map_of_mem hm, h⟩)
    · rintro (h | ⟨_, heq, entry, hm, h⟩ | ⟨_, hp, h⟩)
      · exact .inl h
      · cases heq
        exact .inr ⟨entry, hm, .inl h⟩
      · obtain ⟨entry, hm, rfl⟩ := List.mem_map.mp hp
        exact .inr ⟨entry, hm, .inr h⟩
  | tagged tag inner => simp [walk, parts]
  | _ => simp [walk, parts]

theorem mem_walk_value {part value : Value} : .value part ∈ walk value ↔ Inside part value := by
  constructor
  · induction value using part_induction with
    | step value ih =>
      intro h
      rcases mem_walk.mp h with h | ⟨_, _, _, _, h⟩ | ⟨inner, hm, h⟩
      · cases h
        exact .here
      · cases h
      · exact .within hm (ih inner hm h)
  · intro h
    induction h with
    | here => exact mem_walk.mpr (.inl rfl)
    | within hm _ ih => exact mem_walk.mpr (.inr (.inr ⟨_, hm, ih⟩))

theorem mem_walk_key {key value : Value} : .key key ∈ walk value ↔
    ∃ entries inner, Inside (.mapping entries) value ∧ (key, inner) ∈ entries := by
  constructor
  · induction value using part_induction with
    | step value ih =>
      intro h
      rcases mem_walk.mp h with h | ⟨entries, rfl, entry, hm, h⟩ | ⟨part, hm, h⟩
      · cases h
      · cases h
        exact ⟨entries, entry.2, .here, hm⟩
      · obtain ⟨entries, inner, hi, he⟩ := ih part hm h
        exact ⟨entries, inner, .within hm hi, he⟩
  · rintro ⟨entries, inner, hi, he⟩
    generalize hmap : Value.mapping entries = mapping at hi
    induction hi with
    | here => exact mem_walk.mpr (.inr (.inl ⟨entries, hmap.symm, _, he, rfl⟩))
    | within hm _ ih => exact mem_walk.mpr (.inr (.inr ⟨_, hm, ih⟩))

theorem obstacle?_value {value : Value} {e : ConversionError} :
    (Place.value value).obstacle? = some e ↔
      ∃ x, value = .number (.float x) ∧ x.isFinite = false ∧ e = .nonFinite x := by
  cases value with
  | number n =>
    cases n with
    | float x =>
      rw [Place.obstacle?]
      constructor
      · intro ho
        split at ho
        next => cases ho
        next hx =>
          cases ho
          exact ⟨x, rfl, by simpa using hx, rfl⟩
      · rintro ⟨_, hv, hx, rfl⟩
        cases hv
        simp [hx]
    | _ => simp [Place.obstacle?]
  | _ => simp [Place.obstacle?]

theorem obstacle?_key {key : Value} {e : ConversionError} :
    (Place.key key).obstacle? = some e ↔ key.isTextless = true ∧ e = .unsupportedKey key := by
  rw [Place.obstacle?]
  split
  next hk => simp [hk, eq_comm]
  next hk => simp [hk]

theorem obstacle?_ne_unsupportedNumber (place : Place) (n : Number) :
    place.obstacle? ≠ some (.unsupportedNumber n) := by
  intro ho
  cases place with
  | value part =>
    obtain ⟨x, -, -, hx⟩ := obstacle?_value.mp ho
    cases hx
  | key key => cases (obstacle?_key.mp ho).2

/-- There is an obstacle on the walk exactly if a float that is not finite stands in value
position, or a key has no text. -/
theorem exists_obstacle_iff {value : Value} :
    (∃ place ∈ value.walk, place.obstacle?.isSome) ↔
      (∃ x : Binary64, Inside (.number (.float x)) value ∧ x.isFinite = false) ∨
      ∃ entries key inner, Inside (.mapping entries) value ∧ (key, inner) ∈ entries ∧
        key.isTextless = true := by
  constructor
  · rintro ⟨place, hm, ho⟩
    obtain ⟨e, ho⟩ := Option.isSome_iff_exists.mp ho
    cases place with
    | value part =>
      obtain ⟨x, rfl, hx, -⟩ := obstacle?_value.mp ho
      exact .inl ⟨x, mem_walk_value.mp hm, hx⟩
    | key key =>
      obtain ⟨entries, inner, hi, he⟩ := mem_walk_key.mp hm
      exact .inr ⟨entries, key, inner, hi, he, (obstacle?_key.mp ho).1⟩
  · rintro (⟨x, hi, hx⟩ | ⟨entries, key, inner, hi, he, hk⟩)
    · refine ⟨.value (.number (.float x)), mem_walk_value.mpr hi, ?_⟩
      rw [obstacle?_value.mpr ⟨x, rfl, hx, rfl⟩]
      rfl
    · refine ⟨.key key, mem_walk_key.mpr ⟨entries, inner, hi, he⟩, ?_⟩
      rw [obstacle?_key.mpr ⟨hk, rfl⟩]
      rfl

/-! ## The first obstacle -/

/-- What a failed conversion reports. -/
def failure? {α : Type} : Except ConversionError α → Option ConversionError
  | .ok _ => none
  | .error e => some e

theorem failure?_eq_some_iff {α : Type} {x : Except ConversionError α} {e : ConversionError} :
    failure? x = some e ↔ x = .error e := by
  cases x <;> simp [failure?]

/-- The second of two steps fails only if the first does not. How it fails must not depend
on what the first step gives. -/
theorem failure?_bind {α β : Type} {x : Except ConversionError α}
    {f : α → Except ConversionError β} {later : Option ConversionError}
    (h : ∀ a, failure? (f a) = later) : failure? (x >>= f) = (failure? x).or later := by
  cases x with
  | ok a => exact h a
  | error e => rfl

theorem failure?_map {α β : Type} {x : Except ConversionError α} {f : α → β} :
    failure? (x >>= fun a => pure (f a)) = failure? x := by
  cases x <;> rfl

theorem failure?_keyText (key : Value) : failure? key.keyText = (Place.key key).obstacle? := by
  cases key <;> rfl

/-- Conversion reports the first obstacle on the walk, if there is one. -/
def ReportsFirst (value : Value) : Prop :=
  failure? value.toTree = value.walk.findSome? Place.obstacle?

theorem failure?_toTrees {items : List Value} (h : ∀ item ∈ items, item.ReportsFirst) :
    failure? (toTrees items) = (walkItems items).findSome? Place.obstacle? := by
  induction items with
  | nil => rfl
  | cons item rest ih =>
    obtain ⟨hitem, hrest⟩ := List.forall_mem_cons.mp h
    have hlater : ∀ tree : Tree, failure? (do return tree :: (← toTrees rest)) =
        (walkItems rest).findSome? Place.obstacle? := by
      intro tree
      rw [failure?_map, ih hrest]
    rw [toTrees, failure?_bind hlater, hitem, walkItems, List.findSome?_append]

/-- What the entries fail with does not depend on those before them. -/
theorem failure?_addEntries {entries : List (Value × Value)}
    (h : ∀ entry ∈ entries, entry.2.ReportsFirst) (done : List (String × Tree)) :
    failure? (addEntries done entries) = (walkEntries entries).findSome? Place.obstacle? := by
  induction entries generalizing done with
  | nil => rfl
  | cons entry rest ih =>
    obtain ⟨key, value⟩ := entry
    obtain ⟨hvalue, hrest⟩ := List.forall_mem_cons.mp h
    rw [addEntries, failure?_bind fun name => failure?_bind fun tree => ih hrest _,
      failure?_keyText, hvalue, walkEntries, List.findSome?_cons, List.findSome?_append]
    cases (Place.key key).obstacle? <;> rfl

theorem number_reportsFirst (n : Number) : (Value.number n).ReportsFirst := by
  rw [ReportsFirst, toTree]
  cases n with
  | posInt n =>
    rw [Number.toTree_of_integer? rfl]
    rfl
  | negInt n negative =>
    rw [Number.toTree_of_integer? rfl]
    rfl
  | float x =>
    rw [Number.toTree_float, walk.eq_def]
    cases hx : x.isFinite <;> simp [failure?, Place.obstacle?, hx]

theorem reportsFirst (value : Value) : value.ReportsFirst := by
  induction value using part_induction with
  | step value ih =>
    cases value with
    | number n => exact number_reportsFirst n
    | sequence items =>
      have hitems : ∀ item ∈ items, item.ReportsFirst := ih
      rw [ReportsFirst, toTree, failure?_map, failure?_toTrees hitems]
      rfl
    | mapping entries =>
      have hentries : ∀ entry ∈ entries, entry.2.ReportsFirst :=
        fun entry hm => ih entry.2 (List.mem_map_of_mem hm)
      rw [ReportsFirst, toTree, failure?_map, failure?_addEntries hentries]
      rfl
    | tagged tag inner =>
      rw [ReportsFirst, toTree, ih inner (List.mem_singleton_self inner)]
      rfl
    | _ => rfl

theorem toTree_error_iff {value : Value} {e : ConversionError} :
    value.toTree = .error e ↔ value.walk.findSome? Place.obstacle? = some e := by
  rw [← reportsFirst value, failure?_eq_some_iff]

/-- Conversion fails exactly if a float that is not finite stands in the value in value
position, or a mapping with a key that has no text. The error is that of the first such
place on a walk through the value, and it never says that a number is not supported. -/
theorem toTree_fails_at_first_obstacle (value : Value) :
    ((∃ e, value.toTree = .error e) ↔
      (∃ x : Binary64, Inside (.number (.float x)) value ∧ x.isFinite = false) ∨
      ∃ entries key inner, Inside (.mapping entries) value ∧ (key, inner) ∈ entries ∧
        key.isTextless = true) ∧
    (∀ e, value.toTree = .error e ↔ ∃ before place after,
      value.walk = before ++ place :: after ∧ place.obstacle? = some e ∧
        ∀ earlier ∈ before, earlier.obstacle? = none) ∧
    ∀ n, value.toTree ≠ .error (.unsupportedNumber n) := by
  refine ⟨?_, fun e => ?_, fun n hn => ?_⟩
  · rw [← exists_obstacle_iff]
    simp only [toTree_error_iff, ← Option.isSome_iff_exists, List.findSome?_isSome_iff]
  · rw [toTree_error_iff, List.findSome?_eq_some_iff]
  · obtain ⟨place, -, ho⟩ := List.exists_of_findSome?_eq_some (toTree_error_iff.mp hn)
    exact obstacle?_ne_unsupportedNumber place n ho

/-- A mapping with an infinity as a key, under which a tagged sequence holds a NaN, and a
later entry whose key is null. -/
def brokenValue : Value :=
  .mapping [(.number (.float (.infinity true)),
      .tagged "t" (.sequence [.number (.negInt (-5) (by decide)), .number (.float .nan)])),
    (.null, .number (.posInt 18446744073709551615))]

/-- The infinity is a key and no obstacle; the NaN comes before the null key. -/
theorem brokenValue_fails : brokenValue.toTree = .error (.nonFinite .nan) := by
  refine ((toTree_fails_at_first_obstacle brokenValue).2.1 _).mpr ?_
  exact ⟨[_, _, _, _, _], .value (.number (.float .nan)), [_, _], rfl,
    obstacle?_value.mpr ⟨.nan, rfl, by decide, rfl⟩, by decide⟩

/-! ## Mirrored trees -/

mutual

/-- The value that mirrors a tree node by node. -/
def mirror : Tree → Value
  | .null => .null
  | .bool b => .bool b
  | .int n => .number (.ofInt n)
  | .float x => .number (.float x)
  | .string text => .string text
  | .list items => .sequence (mirrorItems items)
  | .map entries => .mapping (mirrorEntries entries)

/-- The values that mirror the items of a list. -/
def mirrorItems : List Tree → List Value
  | [] => []
  | item :: rest => mirror item :: mirrorItems rest

/-- The entries that mirror those of a map. -/
def mirrorEntries : List (String × Tree) → List (Value × Value)
  | [] => []
  | (key, value) :: rest => (.string key, mirror value) :: mirrorEntries rest

end

theorem toTrees_mirrorItems {items : List Tree}
    (h : ∀ item ∈ items, (mirror item).toTree = .ok item) :
    toTrees (mirrorItems items) = .ok items := by
  induction items with
  | nil => rfl
  | cons item rest ih =>
    obtain ⟨hitem, hrest⟩ := List.forall_mem_cons.mp h
    rw [mirrorItems, toTrees, hitem, ih hrest]
    rfl

/-- With distinct names every entry is added at the end. -/
theorem addEntries_mirrorEntries {done entries : List (String × Tree)}
    (hd : (Entries.names (done ++ entries)).Nodup)
    (h : ∀ key value, (key, value) ∈ entries → (mirror value).toTree = .ok value) :
    addEntries done (mirrorEntries entries) = .ok (done ++ entries) := by
  induction entries generalizing done with
  | nil => rw [mirrorEntries, addEntries, List.append_nil]
  | cons entry rest ih =>
    obtain ⟨key, value⟩ := entry
    have hnew : key ∉ Entries.names done := by
      simp only [Entries.names, List.map_append, List.map_cons, List.nodup_append] at hd
      exact fun hm => hd.2.2 key hm key List.mem_cons_self rfl
    have hvalue : (mirror value).toTree = .ok value := h key value List.mem_cons_self
    rw [List.append_cons] at hd ⊢
    rw [← ih hd fun name inner hm => h name inner (List.mem_cons_of_mem _ hm),
      ← Entries.put_of_not_mem hnew, mirrorEntries, addEntries, hvalue]
    rfl

/-- Conversion gives back the tree that a value mirrors. -/
theorem toTree_mirror {tree : Tree} (h : tree.IsDocument) : (mirror tree).toTree = .ok tree := by
  induction h with
  | int hfits => rw [mirror, toTree, Number.toTree_of_integer? (Number.integer?_ofInt hfits)]
  | float hfinite => rw [mirror, toTree, Number.toTree_float, if_pos hfinite]
  | list _ ih =>
    rw [mirror, toTree, toTrees_mirrorItems ih]
    rfl
  | map hn _ ih =>
    rw [mirror, toTree, addEntries_mirrorEntries (List.nil_append _ ▸ hn) ih]
    rfl
  | _ => rfl

/-! ## Tags -/

/-- A tag is put around one node in value position. -/
inductive AddsTag : Value → Value → Prop
  | here (tag : String) (value : Value) : AddsTag value (.tagged tag value)
  | under (tag : String) {value value' : Value} : AddsTag value value' →
      AddsTag (.tagged tag value) (.tagged tag value')
  | item (before after : List Value) {value value' : Value} : AddsTag value value' →
      AddsTag (.sequence (before ++ value :: after)) (.sequence (before ++ value' :: after))
  | entry (before after : List (Value × Value)) (key : Value) {value value' : Value} :
      AddsTag value value' →
      AddsTag (.mapping (before ++ (key, value) :: after))
        (.mapping (before ++ (key, value') :: after))

/-- Any number of tags are put around nodes in value position, at any depth. -/
abbrev AddsTags : Value → Value → Prop := Relation.ReflTransGen AddsTag

theorem toTrees_replace {value value' : Value} (h : value'.toTree = value.toTree)
    (before after : List Value) :
    toTrees (before ++ value' :: after) = toTrees (before ++ value :: after) := by
  induction before with
  | nil => simp only [List.nil_append, toTrees, h]
  | cons item rest ih => simp only [List.cons_append, toTrees, ih]

theorem addEntries_replace {key value value' : Value} (h : value'.toTree = value.toTree)
    (done : List (String × Tree)) (before after : List (Value × Value)) :
    addEntries done (before ++ (key, value') :: after) =
      addEntries done (before ++ (key, value) :: after) := by
  induction before generalizing done with
  | nil => simp only [List.nil_append, addEntries, h]
  | cons entry rest ih => simp only [List.cons_append, addEntries, ih]

/-- One tag changes nothing. The induction is over the way down to the node that gets it. -/
theorem AddsTag.toTree_eq {value value' : Value} (h : AddsTag value value') :
    value'.toTree = value.toTree := by
  induction h with
  | here tag value => rw [toTree]
  | under tag _ ih => rw [toTree, toTree, ih]
  | item before after _ ih => rw [toTree, toTree, toTrees_replace ih]
  | entry before after key _ ih => rw [toTree, toTree, addEntries_replace ih]

theorem AddsTags.toTree_eq {value value' : Value} (h : AddsTags value value') :
    value'.toTree = value.toTree := by
  induction h with
  | refl => rfl
  | tail _ hstep ih => rw [hstep.toTree_eq, ih]

/-- Conversion gives back the tree that a value mirrors, and tags around nodes in value
position change neither what a value is converted to nor the error. -/
theorem toTree_inverts_mirror_under_tags :
    (∀ tree : Tree, tree.IsDocument → (mirror tree).toTree = .ok tree) ∧
    ∀ value value' : Value, AddsTags value value' → value'.toTree = value.toTree :=
  ⟨fun _ h => toTree_mirror h, fun _ _ h => h.toTree_eq⟩

/-- The largest integer of a tree, and a negative zero and the smallest integer in a list. -/
def wordsTree : Tree :=
  .map [("z", .int 18446744073709551615),
    ("a", .list [.float ⟨9223372036854775808⟩, .int (-9223372036854775808)])]

/-- The value that mirrors them, with tags around it, in a sequence and in an entry. -/
def taggedWords : Value :=
  .tagged "t" (.mapping [(.string "z", .tagged "u" (.number (.posInt 18446744073709551615))),
    (.string "a", .sequence [.tagged "v" (.number (.float ⟨9223372036854775808⟩)),
      .number (.negInt (-9223372036854775808) (by decide))])])

theorem wordsTree_isDocument : wordsTree.IsDocument := by
  have hlist : (Tree.list [.float ⟨9223372036854775808⟩,
      .int (-9223372036854775808)]).IsDocument := by
    rw [Tree.isDocument_list, List.forall_mem_cons, List.forall_mem_singleton]
    exact ⟨.float (by decide), .int (by decide)⟩
  refine .map (by decide) fun key value hm => ?_
  rcases List.mem_cons.mp hm with heq | hm
  · cases heq
    exact .int (by decide)
  · cases List.mem_singleton.mp hm
    exact hlist

theorem taggedWords_toTree :
    wordsTree.IsDocument ∧ AddsTags (mirror wordsTree) taggedWords ∧
      taggedWords.toTree = .ok wordsTree := by
  have htags : AddsTags (mirror wordsTree) taggedWords :=
    .tail (.tail (.single (.entry [] [_] _ (.here "u" _)))
      (.entry [_] [] _ (.item [] [_] (.here "v" _)))) (.here "t" _)
  refine ⟨wordsTree_isDocument, htags, ?_⟩
  rw [toTree_inverts_mirror_under_tags.2 _ _ htags,
    toTree_inverts_mirror_under_tags.1 _ wordsTree_isDocument]

end Value

end ComponentSchema.Yaml
