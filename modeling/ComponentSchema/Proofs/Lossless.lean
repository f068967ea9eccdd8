import ComponentSchema.Proofs.Conversion
import ComponentSchema.Proofs.ScalarText
import ComponentSchema.Yaml.Document
import Mathlib.Data.List.Forall2

/-!
# What conversion keeps

The keys of a mapping that is read differ, but their texts need not: a string may be the
text of another key. Then the later of the two entries takes the place of the earlier one,
which is lost. Nothing else is ever lost: any other mapping becomes an object with as many
entries, each under the text of its key.
-/

namespace ComponentSchema.Yaml

namespace Value

/-! ## Mappings in value position -/

/-- A property of the entries of every mapping in value position, at any depth. -/
def EveryMapping (P : List (Value × Value) → Prop) (value : Value) : Prop :=
  ∀ entries, Inside (.mapping entries) value → P entries

section

variable {P : List (Value × Value) → Prop}

theorem everyMapping_iff {value : Value} : EveryMapping P value ↔
    (∀ entries, value = .mapping entries → P entries) ∧
      ∀ part ∈ value.parts, EveryMapping P part := by
  constructor
  · intro h
    exact ⟨fun entries heq => h entries (heq ▸ .here),
      fun part hm entries hi => h entries (.within hm hi)⟩
  · rintro ⟨hhere, hparts⟩ entries hi
    generalize hmap : Value.mapping entries = mapping at hi
    cases hi with
    | here => exact hhere entries hmap.symm
    | within hm hi => exact hparts _ hm entries (hmap ▸ hi)

theorem everyMapping_sequence {items : List Value} :
    EveryMapping P (.sequence items) ↔ ∀ item ∈ items, EveryMapping P item := by
  rw [everyMapping_iff]
  simp [parts]

theorem everyMapping_mapping {entries : List (Value × Value)} :
    EveryMapping P (.mapping entries) ↔
      P entries ∧ ∀ entry ∈ entries, EveryMapping P entry.2 := by
  rw [everyMapping_iff, parts, List.forall_mem_map]
  simp only [mapping.injEq, forall_eq']

theorem everyMapping_tagged {tag : String} {value : Value} :
    EveryMapping P (.tagged tag value) ↔ EveryMapping P value := by
  rw [everyMapping_iff]
  simp [parts]

/-- Null, or a value that has a text. -/
def IsScalar (value : Value) : Prop := value = .null ∨ ∃ text, value.scalarText? = some text

theorem IsScalar.everyMapping {value : Value} (h : value.IsScalar) : EveryMapping P value := by
  rw [everyMapping_iff]
  cases value <;> simp [IsScalar, scalarText?, parts] at h ⊢

end

/-- The keys of the entries are different from one another. -/
def DifferentKeys (entries : List (Value × Value)) : Prop :=
  entries.Pairwise fun earlier later => earlier.1.same later.1 = false

/-- The keys of each mapping in value position are different from one another. -/
def KeysDiffer (value : Value) : Prop := EveryMapping DifferentKeys value

end Value

/-! ## Keys that are read -/

namespace Resolution

theorem isScalar_of_plain? {text : String} {value : Value} (h : plain? text = some value) :
    value.IsScalar := by
  unfold plain? at h
  split at h
  · cases h
    exact .inl rfl
  · repeat' split at h
    all_goals cases h
    all_goals exact .inr ⟨_, rfl⟩

theorem isScalar_of_tagged? {tag : Tag} {text : String} {plain : Bool} {value : Value}
    (h : tagged? tag text plain = some value) : value.IsScalar := by
  unfold tagged? at h
  repeat' split at h
  · obtain ⟨b, -, rfl⟩ := Option.map_eq_some_iff.mp h
    exact .inr ⟨_, rfl⟩
  · cases h
    exact .inr ⟨_, rfl⟩
  · cases h
  · obtain ⟨x, -, rfl⟩ := Option.map_eq_some_iff.mp h
    exact .inr ⟨_, rfl⟩
  · cases h
    exact .inl rfl
  · cases h
  · exact isScalar_of_plain? h
  · cases h
    exact .inr ⟨_, rfl⟩

theorem isScalar_of_scalar? {tag : Option Tag} {text : String} {plain : Bool} {value : Value}
    (h : scalar? tag text plain = some value) : value.IsScalar := by
  unfold scalar? at h
  repeat' split at h
  · exact isScalar_of_tagged? h
  · exact isScalar_of_plain? h
  · cases h
    exact .inr ⟨_, rfl⟩

end Resolution

namespace Expansion

open Value

/-- Whatever a run gives has the property. -/
def Gives {α : Type} (m : Expansion α) (P : α → Prop) : Prop :=
  ∀ count result, m.run count = some result → P result.1

section

variable {α β : Type} {P : α → Prop} {Q : β → Prop}

theorem gives_trivial (m : Expansion α) : Gives m fun _ => True := fun _ _ _ => trivial

theorem gives_pure {a : α} (h : P a) : Gives (pure a) P := by
  intro count result hr
  cases hr
  exact h

theorem gives_failure : Gives (failure : Expansion α) P := by
  intro count result hr
  cases hr

theorem gives_lift {found : Option α} (h : ∀ a, found = some a → P a) : Gives (liftM found) P := by
  intro count result hr
  cases found with
  | none => cases hr
  | some a =>
    cases hr
    exact h a rfl

theorem Gives.bind {m : Expansion α} {f : α → Expansion β} (hm : Gives m P)
    (hf : ∀ a, P a → Gives (f a) Q) : Gives (m >>= f) Q := by
  intro count result hr
  rw [StateT.run_bind] at hr
  obtain ⟨middle, hmiddle, hrest⟩ := Option.bind_eq_some_iff.mp hr
  exact hf middle.1 (hm count middle hmiddle) middle.2 result hrest

end

theorem keysDiffer_underTag {p : Properties} {value : Value} (h : value.KeysDiffer) :
    (underTag p value).KeysDiffer := by
  unfold underTag
  split
  · exact everyMapping_tagged.mpr h
  · exact h

/-- A key that is the same as none before it can be added. -/
theorem keysDiffer_concat {done : List (Value × Value)} {key value : Value}
    (hd : (Value.mapping done).KeysDiffer) (hv : value.KeysDiffer)
    (hnew : ¬ done.any (fun entry => entry.1.same key) = true) :
    (Value.mapping (done ++ [(key, value)])).KeysDiffer := by
  obtain ⟨hkeys, hvalues⟩ := everyMapping_mapping.mp hd
  refine everyMapping_mapping.mpr ⟨?_, ?_⟩
  · refine List.pairwise_append.mpr ⟨hkeys, List.pairwise_singleton _ _, ?_⟩
    intro entry hm later hl
    cases List.mem_singleton.mp hl
    simp only [List.any_eq_true, not_exists, not_and, Bool.not_eq_true] at hnew
    exact hnew entry hm
  · rw [List.forall_mem_append, List.forall_mem_singleton]
    exact ⟨hvalues, hv⟩

section

variable {follow : Nat → Nat → Expansion Value}

mutual

theorem expand_keysDiffer (hf : ∀ slot depth, Gives (follow slot depth) KeysDiffer)
    (depth : Nat) : (node : Node) → Gives (expand follow depth node) KeysDiffer
  | .alias slot => by
    rw [expand]
    exact hf slot depth
  | .scalar p text plain => by
    rw [expand]
    exact (gives_lift fun _ h => Resolution.isScalar_of_scalar? h).bind fun value hv =>
      gives_pure (keysDiffer_underTag hv.everyMapping)
  | .sequence p items => by
    rw [expand]
    exact (gives_trivial _).bind fun _ _ => (expandItems_keysDiffer hf (depth + 1) items).bind
      fun values hv => gives_pure (keysDiffer_underTag hv)
  | .mapping p entries => by
    have hnil : (Value.mapping []).KeysDiffer := everyMapping_mapping.mpr ⟨.nil, nofun⟩
    rw [expand]
    exact (gives_trivial _).bind fun _ _ =>
      (expandEntries_keysDiffer hf (depth + 1) hnil entries).bind
        fun values hv => gives_pure (keysDiffer_underTag hv)

theorem expandItems_keysDiffer (hf : ∀ slot depth, Gives (follow slot depth) KeysDiffer)
    (depth : Nat) : (items : List Node) →
      Gives (expandItems follow depth items) fun values => (Value.sequence values).KeysDiffer
  | [] => by
    rw [expandItems]
    exact gives_pure (everyMapping_sequence.mpr nofun)
  | item :: rest => by
    rw [expandItems]
    refine (expand_keysDiffer hf depth item).bind fun value hv =>
      (expandItems_keysDiffer hf depth rest).bind fun values hvs => gives_pure ?_
    exact everyMapping_sequence.mpr
      (List.forall_mem_cons.mpr ⟨hv, everyMapping_sequence.mp hvs⟩)

theorem expandEntries_keysDiffer (hf : ∀ slot depth, Gives (follow slot depth) KeysDiffer)
    (depth : Nat) {done : List (Value × Value)} (hd : (Value.mapping done).KeysDiffer) :
    (entries : List (Node × Node)) →
      Gives (expandEntries follow depth done entries) fun values =>
        (Value.mapping values).KeysDiffer
  | [] => by
    rw [expandEntries]
    exact gives_pure hd
  | (key, value) :: rest => by
    rw [expandEntries]
    refine (gives_trivial _).bind fun key _ => ?_
    split
    next => exact gives_failure.bind fun _ (h : False) => h.elim
    next hnew =>
      exact (expand_keysDiffer hf depth value).bind fun value hv =>
        expandEntries_keysDiffer hf depth (keysDiffer_concat hd hv hnew) rest

end

end

/-- What an alias stands for is expanded as any other node, with one jump less. -/
theorem followWithin_keysDiffer (root : Node) (jumps slot depth : Nat) :
    Gives (followWithin root jumps slot depth) KeysDiffer := by
  induction jumps generalizing slot depth with
  | zero => exact gives_failure
  | succ jumps ih =>
    rw [followWithin]
    refine (gives_trivial _).bind fun count _ => ?_
    dsimp only
    split
    next => exact gives_failure.bind fun _ (h : False) => h.elim
    next =>
      refine (gives_trivial _).bind fun _ _ => ?_
      cases root.target? slot with
      | some node => exact expand_keysDiffer ih depth node
      | none => exact gives_failure

end Expansion

/-- In a value that is read the keys of each mapping differ. -/
theorem keysDiffer_of_parse? {text : String} {value : Value} (h : parse? text = some value) :
    value.KeysDiffer := by
  obtain ⟨tokens, -, h⟩ := Option.bind_eq_some_iff.mp h
  obtain ⟨root, -, h⟩ := Option.bind_eq_some_iff.mp h
  obtain ⟨result, hr, rfl⟩ := Option.map_eq_some_iff.mp h
  exact Expansion.expand_keysDiffer (Expansion.followWithin_keysDiffer root _) 0 root 0 result hr

namespace Value

/-! ## What a conversion gives -/

theorem bind_eq_ok_iff {α β : Type} {x : Except ConversionError α}
    {f : α → Except ConversionError β} {b : β} :
    x >>= f = .ok b ↔ ∃ a, x = .ok a ∧ f a = .ok b := by
  cases x <;> simp [bind, Except.bind]

theorem pure_eq_ok_iff {α : Type} {a b : α} :
    (pure a : Except ConversionError α) = .ok b ↔ a = b := by
  simp [pure, Except.pure]

theorem keyText_eq_ok_iff {key : Value} {text : String} :
    key.keyText = .ok text ↔ key.scalarText? = some text := by
  cases key <;> simp [keyText, scalarText?]

/-- The tree is what the value is converted to. -/
def ConvertsTo (value : Value) (tree : Tree) : Prop := value.toTree = .ok tree

/-- The name is the text of the key, and the tree is that of the value. -/
def EntryConvertsTo (entry : Value × Value) (named : String × Tree) : Prop :=
  entry.1.scalarText? = some named.1 ∧ entry.2.ConvertsTo named.2

theorem toTrees_eq_ok_iff {items : List Value} {trees : List Tree} :
    toTrees items = .ok trees ↔ List.Forall₂ ConvertsTo items trees := by
  induction items generalizing trees with
  | nil => simp [toTrees, eq_comm]
  | cons item rest ih =>
    rw [toTrees, List.forall₂_cons_left_iff]
    simp only [bind_eq_ok_iff, pure_eq_ok_iff, ih, ConvertsTo]
    constructor
    · rintro ⟨tree, ht, others, ho, rfl⟩
      exact ⟨tree, others, ht, ho, rfl⟩
    · rintro ⟨tree, others, ht, ho, rfl⟩
      exact ⟨tree, ht, others, ho, rfl⟩

/-- The entries that are added are those of the mapping, by their texts. -/
theorem addEntries_eq_ok_iff {entries : List (Value × Value)} {done object : List (String × Tree)} :
    addEntries done entries = .ok object ↔
      ∃ named, List.Forall₂ EntryConvertsTo entries named ∧ Entries.putAll done named = object := by
  induction entries generalizing done with
  | nil => simp [addEntries, Entries.putAll]
  | cons entry rest ih =>
    obtain ⟨key, value⟩ := entry
    simp only [addEntries, bind_eq_ok_iff, keyText_eq_ok_iff, ih, List.forall₂_cons_left_iff]
    constructor
    · rintro ⟨text, hk, tree, hv, named, hr, rfl⟩
      exact ⟨(text, tree) :: named, ⟨(text, tree), named, ⟨hk, hv⟩, hr, rfl⟩, rfl⟩
    · rintro ⟨_, ⟨⟨text, tree⟩, named, ⟨hk, hv⟩, hr, rfl⟩, rfl⟩
      exact ⟨text, hk, tree, hv, named, hr, rfl⟩

theorem convertsTo_sequence {items : List Value} {tree : Tree} :
    (Value.sequence items).ConvertsTo tree ↔
      ∃ trees, List.Forall₂ ConvertsTo items trees ∧ tree = .list trees := by
  simp only [ConvertsTo, toTree, bind_eq_ok_iff, toTrees_eq_ok_iff, pure_eq_ok_iff,
    eq_comm (a := tree)]

theorem convertsTo_mapping {entries : List (Value × Value)} {tree : Tree} :
    (Value.mapping entries).ConvertsTo tree ↔
      ∃ named, List.Forall₂ EntryConvertsTo entries named ∧
        tree = .map (Entries.putAll [] named) := by
  simp only [ConvertsTo, toTree, bind_eq_ok_iff, addEntries_eq_ok_iff, pure_eq_ok_iff]
  constructor
  · rintro ⟨_, ⟨named, hn, rfl⟩, rfl⟩
    exact ⟨named, hn, rfl⟩
  · rintro ⟨named, hn, rfl⟩
    exact ⟨_, ⟨named, hn, rfl⟩, rfl⟩

theorem exists_of_forall₂ {α β : Type} {R : α → β → Prop} {as : List α} {bs : List β}
    (h : List.Forall₂ R as bs) {a : α} (hm : a ∈ as) : ∃ b ∈ bs, R a b := by
  induction h with
  | nil => cases hm
  | cons hab _ ih =>
    rcases List.mem_cons.mp hm with rfl | hm
    · exact ⟨_, List.mem_cons_self, hab⟩
    · obtain ⟨b, hb, hr⟩ := ih hm
      exact ⟨b, List.mem_cons_of_mem _ hb, hr⟩

theorem forall₂_split {α β : Type} {R : α → β → Prop} {before after : List α} {a : α}
    {bs : List β} (h : List.Forall₂ R (before ++ a :: after) bs) :
    ∃ front b back, bs = front ++ b :: back ∧ R a b ∧ List.Forall₂ R after back := by
  induction before generalizing bs with
  | nil =>
    obtain ⟨b, back, hab, hr, rfl⟩ := List.forall₂_cons_left_iff.mp h
    exact ⟨[], b, back, rfl, hab, hr⟩
  | cons first rest ih =>
    obtain ⟨other, others, -, hr, rfl⟩ := List.forall₂_cons_left_iff.mp h
    obtain ⟨front, b, back, rfl, hab, hback⟩ := ih hr
    exact ⟨other :: front, b, back, rfl, hab, hback⟩

/-- On pairs that are related in one way, another relation may speak of the first one of
them only. -/
theorem forall₂_iff_forall_mem {α β : Type} {R S : α → β → Prop} {P : α → Prop} {as : List α}
    {bs : List β} (h : List.Forall₂ S as bs)
    (hiff : ∀ a ∈ as, ∀ b ∈ bs, S a b → (R a b ↔ P a)) :
    List.Forall₂ R as bs ↔ ∀ a ∈ as, P a := by
  induction h with
  | nil => simp
  | cons hab _ ih =>
    rw [List.forall₂_cons, List.forall_mem_cons,
      hiff _ List.mem_cons_self _ List.mem_cons_self hab,
      ih fun a ha b hb => hiff a (List.mem_cons_of_mem _ ha) b (List.mem_cons_of_mem _ hb)]

theorem exists_convertsTo_of_part {part value : Value} (hm : part ∈ value.parts) {tree : Tree}
    (h : value.ConvertsTo tree) : ∃ inner, part.ConvertsTo inner := by
  cases value with
  | sequence items =>
    obtain ⟨trees, ht, -⟩ := convertsTo_sequence.mp h
    exact (exists_of_forall₂ ht hm).imp fun _ hb => hb.2
  | mapping entries =>
    obtain ⟨named, hn, -⟩ := convertsTo_mapping.mp h
    obtain ⟨entry, he, rfl⟩ := List.mem_map.mp hm
    obtain ⟨found, -, hf⟩ := exists_of_forall₂ hn he
    exact ⟨found.2, hf.2⟩
  | tagged tag value =>
    cases List.mem_singleton.mp hm
    rw [ConvertsTo, toTree] at h
    exact ⟨tree, h⟩
  | _ => cases hm

/-- If a value is converted, then so is everything inside it. -/
theorem exists_convertsTo_of_inside {part value : Value} (hi : Inside part value) {tree : Tree}
    (h : value.ConvertsTo tree) : ∃ inner, part.ConvertsTo inner := by
  induction hi generalizing tree with
  | here => exact ⟨tree, h⟩
  | within hm _ ih =>
    obtain ⟨inner, hinner⟩ := exists_convertsTo_of_part hm h
    exact ih hinner

/-! ## Entries that are kept -/

/-- A string is the text of a key that is not this string. -/
def SpellsKey (entries : List (Value × Value)) : Prop :=
  ∃ text a key b, (.string text, a) ∈ entries ∧ (key, b) ∈ entries ∧ key ≠ .string text ∧
    key.scalarText? = some text

/-- An object has an entry for each one of a mapping and no other. Each is found under the
text of its key, with a tree for its value. -/
structure Keeps (treeFor : Value → Tree → Prop) (entries : List (Value × Value))
    (object : List (String × Tree)) : Prop where
  count : object.length = entries.length
  found : ∀ key value, (key, value) ∈ entries → ∃ text tree,
    key.scalarText? = some text ∧ Entries.get? object text = some tree ∧ treeFor value tree

/-- Under a text an object has the tree of the last entry of a mapping whose key has it. -/
def KeepsLast (entries : List (Value × Value)) (object : List (String × Tree)) : Prop :=
  ∀ before key value after text, entries = before ++ (key, value) :: after →
    key.scalarText? = some text → (∀ later ∈ after, later.1.scalarText? ≠ some text) →
    ∃ tree, value.ConvertsTo tree ∧ Entries.get? object text = some tree

theorem texts_of_entryConvertsTo {entries : List (Value × Value)} {named : List (String × Tree)}
    (h : List.Forall₂ EntryConvertsTo entries named) :
    entries.map (fun entry => entry.1.scalarText?) = (Entries.names named).map some := by
  induction h with
  | nil => rfl
  | cons hentry _ ih =>
    rw [List.map_cons, hentry.1, ih]
    rfl

/-- If keys differ, their texts do unless one key is spelled by another. -/
theorem pairwise_text_ne_iff {entries : List (Value × Value)} (hd : DifferentKeys entries)
    (ht : ∀ entry ∈ entries, entry.1.scalarText?.isSome) :
    entries.Pairwise (fun a b => a.1.scalarText? ≠ b.1.scalarText?) ↔ ¬ SpellsKey entries := by
  constructor
  · rintro h ⟨text, a, key, b, hs, hk, hne, htext⟩
    have : Std.Symm fun a b : Value × Value => a.1.scalarText? ≠ b.1.scalarText? :=
      ⟨fun _ _ hab => hab.symm⟩
    refine h.forall hs hk ?_ htext.symm
    rintro ⟨⟩
    exact hne rfl
  · intro hspell
    refine hd.imp_of_mem fun {a b} ha hb hab heq => hspell ?_
    obtain ⟨text, htext⟩ := Option.isSome_iff_exists.mp (ht a ha)
    have htext' : b.1.scalarText? = some text := heq ▸ htext
    by_cases hna : a.1 = .string text
    · refine ⟨text, a.2, b.1, b.2, hna ▸ ha, hb, ?_, htext'⟩
      intro hnb
      rw [hna, hnb] at hab
      simp [same] at hab
    · by_cases hnb : b.1 = .string text
      · exact ⟨text, b.2, a.1, a.2, hnb ▸ hb, ha, hna, htext⟩
      · rw [same_of_scalarText? htext htext' hna hnb] at hab
        cases hab

section

variable {entries : List (Value × Value)} {named : List (String × Tree)}
  (hn : List.Forall₂ EntryConvertsTo entries named)
include hn

theorem nodup_names_iff (hd : DifferentKeys entries) :
    (Entries.names named).Nodup ↔ ¬ SpellsKey entries := by
  have ht : ∀ entry ∈ entries, entry.1.scalarText?.isSome := by
    intro entry hm
    obtain ⟨found, -, hf⟩ := exists_of_forall₂ hn hm
    rw [hf.1]
    rfl
  rw [← pairwise_text_ne_iff hd ht, ← List.nodup_map_iff (Option.some_injective String),
    ← texts_of_entryConvertsTo hn, List.Nodup, List.pairwise_map]

theorem length_putAll_named_iff (hd : DifferentKeys entries) :
    (Entries.putAll [] named).length = entries.length ↔ ¬ SpellsKey entries := by
  have hempty : (Entries.names ([] : List (String × Tree))).Nodup := List.nodup_nil
  have hlength := @Entries.length_putAll_eq_iff Tree [] named hempty
  rw [List.nil_append, List.length_nil, Nat.zero_add, ← hn.length_eq, nodup_names_iff hn hd]
    at hlength
  exact hlength

/-- The entries of a mapping are kept unless one key is spelled by another. -/
theorem keeps_iff {treeFor : Value → Tree → Prop} (hd : DifferentKeys entries) :
    Keeps treeFor entries (Entries.putAll [] named) ↔ ¬ SpellsKey entries ∧
      List.Forall₂ (fun entry found => treeFor entry.2 found.2) entries named := by
  have hsplit : Keeps treeFor entries (Entries.putAll [] named) ↔
      (Entries.putAll [] named).length = entries.length ∧ ∀ entry ∈ entries, ∃ text tree,
        entry.1.scalarText? = some text ∧
          Entries.get? (Entries.putAll [] named) text = some tree ∧ treeFor entry.2 tree :=
    ⟨fun h => ⟨h.count, fun entry hm => h.found entry.1 entry.2 hm⟩,
      fun h => ⟨h.1, fun key value hm => h.2 (key, value) hm⟩⟩
  rw [hsplit, length_putAll_named_iff hn hd]
  refine and_congr_right fun hspell => (forall₂_iff_forall_mem hn ?_).symm
  intro entry _ found hfound hc
  -- with distinct names the object is the list of the entries put into it
  have hnodup : (Entries.names named).Nodup := (nodup_names_iff hn hd).mpr hspell
  have hobject : Entries.putAll [] named = named := by
    rw [Entries.putAll_of_nodup, List.nil_append]
    exact hnodup
  have hget : Entries.get? (Entries.putAll [] named) found.1 = some found.2 := by
    rw [hobject]
    exact Entries.get?_of_mem hnodup hfound
  constructor
  · intro h
    exact ⟨found.1, found.2, hc.1, hget, h⟩
  · rintro ⟨text, tree, htext, htree, h⟩
    cases hc.1.symm.trans htext
    cases hget.symm.trans htree
    exact h

theorem keepsLast : KeepsLast entries (Entries.putAll [] named) := by
  rintro before key value after text rfl htext hlater
  obtain ⟨front, found, back, rfl, hc, hback⟩ := forall₂_split hn
  cases hc.1.symm.trans htext
  refine ⟨found.2, hc.2, Entries.get?_putAll_last _ _ _ fun hm => ?_⟩
  obtain ⟨tree, hm⟩ := Entries.mem_names.mp hm
  obtain ⟨later, hl, ht⟩ := exists_of_forall₂ hback.flip hm
  exact hlater later hl ht.1

end

/-! ## Values that are kept -/

mutual

/-- The tree has everything that is in the value: each scalar, each item at its place, and
the entries of each mapping, as many as there are. -/
def HeldBy : Value → Tree → Prop
  | .null, .null => True
  | .bool a, .bool b => a = b
  | .number n, .int i => n.integer? = some i
  | .number n, .float x => n = .float x
  | .string a, .string b => a = b
  | .sequence items, .list trees => ItemsHeldBy items trees
  | .mapping entries, .map object => object.length = entries.length ∧ EntriesHeldBy entries object
  | .tagged _ value, tree => HeldBy value tree
  | _, _ => False

/-- Each item is held by the tree at its place. -/
def ItemsHeldBy : List Value → List Tree → Prop
  | [], [] => True
  | item :: items, tree :: trees => HeldBy item tree ∧ ItemsHeldBy items trees
  | _, _ => False

/-- Each value is held by the tree under the text of its key. -/
def EntriesHeldBy : List (Value × Value) → List (String × Tree) → Prop
  | [], _ => True
  | (key, value) :: rest, object =>
      (∃ text tree, key.scalarText? = some text ∧ Entries.get? object text = some tree ∧
        HeldBy value tree) ∧ EntriesHeldBy rest object

end

theorem itemsHeldBy_iff {items : List Value} {trees : List Tree} :
    ItemsHeldBy items trees ↔ List.Forall₂ HeldBy items trees := by
  induction items generalizing trees with
  | nil => cases trees <;> simp [ItemsHeldBy]
  | cons item rest ih => cases trees <;> simp [ItemsHeldBy, ih]

theorem entriesHeldBy_iff {entries : List (Value × Value)} {object : List (String × Tree)} :
    EntriesHeldBy entries object ↔ ∀ key value, (key, value) ∈ entries → ∃ text tree,
      key.scalarText? = some text ∧ Entries.get? object text = some tree ∧ HeldBy value tree := by
  induction entries with
  | nil => simp [EntriesHeldBy]
  | cons entry rest ih =>
    obtain ⟨key, value⟩ := entry
    rw [EntriesHeldBy, ih]
    constructor
    · rintro ⟨hfirst, hrest⟩ other inner hm
      rcases List.mem_cons.mp hm with heq | hm
      · cases heq
        exact hfirst
      · exact hrest other inner hm
    · intro h
      exact ⟨h key value List.mem_cons_self,
        fun other inner hm => h other inner (List.mem_cons_of_mem _ hm)⟩

theorem heldBy_mapping {entries : List (Value × Value)} {object : List (String × Tree)} :
    HeldBy (.mapping entries) (.map object) ↔ Keeps HeldBy entries object := by
  rw [HeldBy, entriesHeldBy_iff]
  exact ⟨fun h => ⟨h.1, h.2⟩, fun h => ⟨h.count, h.found⟩⟩

theorem IsScalar.heldBy {value : Value} {tree : Tree} (hs : value.IsScalar)
    (h : value.ConvertsTo tree) : HeldBy value tree := by
  rw [ConvertsTo] at h
  cases value with
  | number n =>
    rw [toTree] at h
    cases hi : n.integer? with
    | some i =>
      rw [Number.toTree_of_integer? hi] at h
      cases h
      rwa [HeldBy]
    | none =>
      obtain ⟨x, rfl⟩ := Number.eq_float_of_integer? hi
      rw [Number.toTree_float] at h
      split at h
      next =>
        cases h
        rw [HeldBy]
      next => cases h
  | null | bool _ | string _ =>
    cases h
    simp [HeldBy]
  | _ => simp [IsScalar, scalarText?] at hs

theorem IsScalar.heldBy_iff {P : List (Value × Value) → Prop} {value : Value} {tree : Tree}
    (hs : value.IsScalar) (h : value.ConvertsTo tree) :
    HeldBy value tree ↔ EveryMapping P value :=
  iff_of_true (hs.heldBy h) hs.everyMapping

/-- A tree has everything of the value it comes from exactly if in no mapping one key is
spelled by another. -/
theorem heldBy_iff {value : Value} {tree : Tree} (hd : value.KeysDiffer)
    (h : value.ConvertsTo tree) :
    HeldBy value tree ↔ EveryMapping (fun entries => ¬ SpellsKey entries) value := by
  induction value using part_induction generalizing tree with
  | step value ih =>
    cases value with
    | sequence items =>
      obtain ⟨trees, ht, rfl⟩ := convertsTo_sequence.mp h
      rw [HeldBy, itemsHeldBy_iff, everyMapping_sequence]
      exact forall₂_iff_forall_mem ht fun item hm tree _ hc =>
        ih item hm (everyMapping_sequence.mp hd item hm) hc
    | mapping entries =>
      obtain ⟨named, hn, rfl⟩ := convertsTo_mapping.mp h
      obtain ⟨hkeys, hvalues⟩ := everyMapping_mapping.mp hd
      rw [heldBy_mapping, keeps_iff hn hkeys, everyMapping_mapping]
      refine and_congr_right fun _ => forall₂_iff_forall_mem hn fun entry hm found _ hc => ?_
      exact ih entry.2 (List.mem_map_of_mem hm) (hvalues entry hm) hc.2
    | tagged tag inner =>
      have hm : inner ∈ (Value.tagged tag inner).parts := List.mem_singleton_self inner
      rw [ConvertsTo, toTree] at h
      rw [HeldBy, everyMapping_tagged]
      exact ih inner hm (everyMapping_tagged.mp hd) h
    | null => exact IsScalar.heldBy_iff (.inl rfl) h
    | bool _ | number _ | string _ => exact IsScalar.heldBy_iff (.inr ⟨_, rfl⟩) h

/-- The keys of a value that is read differ. When a value whose keys differ is converted,
each mapping in it becomes an object that has the last value under each text. The object
keeps all the entries exactly if no key of the mapping is spelled by another, and the tree
has the whole value exactly if this is so in every mapping. -/
theorem toTree_keeps_entries_iff (value : Value) :
    (∀ text, parse? text = some value → value.KeysDiffer) ∧
    ∀ tree, value.KeysDiffer → value.toTree = .ok tree →
      (∀ entries, Inside (.mapping entries) value → ∃ object,
        (Value.mapping entries).toTree = .ok (.map object) ∧ KeepsLast entries object ∧
          (Keeps ConvertsTo entries object ↔ ¬ SpellsKey entries)) ∧
      (HeldBy value tree ↔ EveryMapping (fun entries => ¬ SpellsKey entries) value) := by
  refine ⟨fun text h => keysDiffer_of_parse? h, fun tree hd h => ⟨?_, heldBy_iff hd h⟩⟩
  intro entries hi
  obtain ⟨inner, hinner⟩ := exists_convertsTo_of_inside hi h
  obtain ⟨named, hn, rfl⟩ := convertsTo_mapping.mp hinner
  refine ⟨_, hinner, keepsLast hn, ?_⟩
  rw [keeps_iff hn (hd entries hi)]
  exact and_iff_left (hn.imp fun _ _ hc => hc.2)

/-- A truth value and a string as keys. -/
def answers : List (Value × Value) :=
  [(.bool true, .number (.posInt 1)), (.string "yes", .number (.posInt 2))]

/-- Keys of three kinds, and the answers under a tag. -/
def mixedEntries : List (Value × Value) :=
  [(.number (.posInt 1), .string "a"), (.number (.float .nan), .null),
    (.string "one", .tagged "t" (.mapping answers))]

theorem everyMapping_mixedEntries {P : List (Value × Value) → Prop} (houter : P mixedEntries)
    (hinner : P answers) : EveryMapping P (.mapping mixedEntries) := by
  intro entries hi
  have hm := mem_walk_value.mpr hi
  simp only [mixedEntries, answers, walk, walkEntries, List.cons_append, List.nil_append,
    List.append_nil, List.mem_cons, Place.value.injEq, reduceCtorEq, mapping.injEq,
    List.not_mem_nil, false_or, or_false] at hm
  rcases hm with rfl | rfl
  · exact houter
  · exact hinner

theorem mixedEntries_kept : (Value.mapping mixedEntries).KeysDiffer ∧
    HeldBy (.mapping mixedEntries) (.map [("1", .string "a"), (".nan", .null),
      ("one", .map [("true", .int 1), ("yes", .int 2)])]) := by
  have houter : DifferentKeys mixedEntries := by
    simp [DifferentKeys, mixedEntries, same, Number.same]
  have hinner : DifferentKeys answers := by simp [DifferentKeys, answers, same]
  have hd : (Value.mapping mixedEntries).KeysDiffer := everyMapping_mixedEntries houter hinner
  refine ⟨hd, ((toTree_keeps_entries_iff _).2 _ hd rfl).2.mpr ?_⟩
  exact everyMapping_mixedEntries ((pairwise_text_ne_iff houter (by decide)).mp (by decide))
    ((pairwise_text_ne_iff hinner (by decide)).mp (by decide))

/-- A number, and the string that is its text. -/
def spelledEntries : List (Value × Value) :=
  [(.number (.posInt 1), .string "a"), (.string "1", .string "b")]

/-- The keys differ and the mapping is not refused, but the entry of the number is lost. -/
theorem spelledEntries_lose_one : (Value.mapping spelledEntries).KeysDiffer ∧
    (Value.mapping spelledEntries).toTree = .ok (.map [("1", .string "b")]) ∧
    ¬ Keeps ConvertsTo spelledEntries [("1", .string "b")] := by
  refine ⟨everyMapping_mapping.mpr ⟨?_, ?_⟩, rfl, fun h => absurd h.count (by decide)⟩
  · simp [DifferentKeys, spelledEntries, same]
  · rw [spelledEntries, List.forall_mem_cons, List.forall_mem_singleton]
    exact ⟨IsScalar.everyMapping (.inr ⟨_, rfl⟩), IsScalar.everyMapping (.inr ⟨_, rfl⟩)⟩

end Value

end ComponentSchema.Yaml
